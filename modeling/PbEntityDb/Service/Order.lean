import PbEntityDb.Service.Waiting

/-!
The order in which the statements of commands reach the database.

* `executedOrder`: a consumer executes the commands that it got in the order in
  which it got them; repeated executions of one command follow each other.
* `executed_in_order`: **of two commands of one thread that the same consumer
  got, the first one is executed before the second one.** With one consumer that
  is so of all commands of a thread.
* `overtaken`: with two consumers a command can be executed before one that the
  same thread enqueued earlier.
-/

namespace PbEntityDb.Service

open HandOff (fiber)
open scoped List

variable {Msg : Type} {pb : Protobuf Msg} {n : ℕ} {s s' : State n Msg}

/-- The numbers of the commands that a consumer got. -/
def Consumer.takenIds (w : Consumer Msg) : List ℕ := w.taken.map Prod.fst

/-- The executions by one consumer, in the order in which it got the commands. -/
structure State.ExecutedOrder (s : State n Msg) : Prop where
  taken : ∀ e ∈ s.executed, e.2.1 ∈ (s.consumer e.1).takenIds
  order : s.executed.Pairwise fun e e' =>
    e.1 = e'.1 → e.2.1 = e'.2.1 ∨ [e.2.1, e'.2.1] <+ (s.consumer e.1).takenIds

namespace State.ExecutedOrder

/-- A step that executes nothing. -/
lemma goOn (h : s.ExecutedOrder) (hexecuted : s'.executed = s.executed)
    (htaken : ∀ c, (s.consumer c).taken <+ (s'.consumer c).taken) : s'.ExecutedOrder where
  taken e he := ((htaken e.1).map _).subset (h.taken e (hexecuted ▸ he))
  order := by
    rw [hexecuted]
    exact h.order.imp fun hee' hc => (hee' hc).imp_right fun hsub => hsub.trans ((htaken _).map _)

/-- The database executes the statement of the command in the hands of a consumer. -/
lemma execute (h : s.ExecutedOrder) {c : Fin n} (hp : (s.consumer c).Progress) {id : ℕ}
    {cmd : Cmd Msg} {r r' : Response} (hpc : (s.consumer c).pc = .handling id cmd r)
    {w : Consumer Msg} (hw : w.taken = (s.consumer c).taken) :
    State.ExecutedOrder { s.set c w with executed := s.executed ++ [(c, id, r')] } := by
  have htaken : ∀ c', ((s.set c w).consumer c').takenIds = (s.consumer c').takenIds :=
    State.forall_set (motive := fun c w => w.takenIds = (s.consumer c).takenIds) (fun c => rfl)
      (congrArg (List.map Prod.fst) hw)
  have hids : (s.consumer c).takenIds = (s.consumer c).finished.map Prod.fst ++ [id] := by
    simp [Consumer.takenIds, hp.taken, hpc, Pc.job]
  -- the command in the hands of a consumer is the last one that it got
  have hlast : ∀ i ∈ (s.consumer c).takenIds, i = id ∨ [i, id] <+ (s.consumer c).takenIds := by
    intro i hi
    rw [hids, List.mem_append, List.mem_singleton] at hi
    refine hi.symm.imp_right fun hi => ?_
    rw [hids]
    exact (List.singleton_sublist.mpr hi).append (List.Sublist.refl [id])
  refine ⟨fun e he => ?_, ?_⟩
  · rw [htaken]
    rcases List.mem_append.mp he with he | he
    · exact h.taken e he
    · obtain rfl := List.mem_singleton.mp he
      simp [hids]
  · refine List.Pairwise.imp (fun {e e'} hee' hc => by rw [htaken]; exact hee' hc)
      (List.pairwise_append.mpr ⟨h.order, List.pairwise_singleton _ _, fun e he e' he' => ?_⟩)
    obtain rfl := List.mem_singleton.mp he'
    rintro rfl
    exact hlast _ (h.taken e he)

end State.ExecutedOrder

/-- **A consumer executes commands in the order in which it got them.** -/
theorem executedOrder (hs : (service pb n).Reachable s) : s.ExecutedOrder := by
  refine hs.invariant ⟨?_, ?_⟩ fun s a s' hs h hstep => ?_
  · simp [service, State.init]
  · simp [service, State.init]
  have hset : ∀ {c : Fin n} {w : Consumer Msg}, (s.consumer c).taken <+ w.taken →
      ∀ c', (s.consumer c').taken <+ ((s.set c w).consumer c').taken := fun {c} _ hw =>
    State.forall_set (motive := fun c w => (s.consumer c).taken <+ w.taken)
      (fun c => List.Sublist.refl _) hw
  cases hstep with
  | lost hpc => exact h.execute (progress hs _) hpc rfl
  | succeeded hpc => exact h.execute (progress hs _) hpc rfl
  | opened hpc | timeout hpc | failed hpc | respondNone hpc hcb | respondAssign hpc hcb
  | respondPost hpc hcb | pushFailed hpc | push hpc | disposeNone hpc hcb | dispose hpc hcb
  | test hpc | handle hpc hentity | skip hpc hentity | post hpc =>
      exact h.goOn rfl (hset (List.Sublist.refl _))
  | take hpc hhead => exact h.goOn rfl (hset (List.sublist_append_left _ _))
  | _ => exact h.goOn rfl fun c => List.Sublist.refl _

/-- A consumer is through with a command if it got another one after it. -/
lemma Consumer.Progress.finished_of_before {w : Consumer Msg} (h : w.Progress) {x y : ℕ × Cmd Msg}
    (horder : [x, y] <+ w.taken) (hne : x.1 ≠ y.1) (hnodup : (w.taken.map Prod.fst).Nodup) :
    x ∈ w.finished := by
  have hy : y ∈ w.taken := horder.subset (by simp)
  rw [h.taken] at horder hnodup hy
  rcases List.mem_append.mp hy with hy | hy
  · exact (HandOff.pair_sublist_of_append hnodup.of_map horder hy).subset List.mem_cons_self
  · refine (List.mem_append.mp (horder.subset List.mem_cons_self)).resolve_right fun hx => ?_
    exact hne (congrArg Prod.fst (Pc.eq_of_mem_job hx hy))

/-- The numbers of the commands whose statements were executed, in order. -/
def State.executedIds (s : State n Msg) : List ℕ := s.executed.map fun x => x.2.1

/-- No execution of the second command comes before one of the first command, and
the first one was executed if the second one was. -/
def State.InOrder (pb : Protobuf Msg) (s : State n Msg) (x y : ℕ × Cmd Msg) : Prop :=
  s.executedIds.Pairwise (fun i j => ¬ (i = y.1 ∧ j = x.1))
    ∧ (y.1 ∈ s.executedIds → x.1 ∈ s.executedIds ∨ x.2.entity pb = none)

/-- **Of two commands of one thread, the one enqueued first is handed out first;
and if one consumer gets both, it is executed first.** With one consumer that is
always so. -/
theorem executed_in_order (hs : (service pb n).Reachable s) {t : Thread} {x y : ℕ × Cmd Msg}
    (horder : [x, y] <+ fiber t s.queue.accepted) :
    ((∃ c, y ∈ (s.consumer c).taken) → [x, y] <+ fiber t (s.queue.taken.map Prod.snd))
      ∧ ((n = 1 ∨ ∀ c c', x ∈ (s.consumer c).taken → y ∈ (s.consumer c').taken → c = c') →
        s.InOrder pb x y) := by
  have hq := queued hs
  have haccepted : ∀ z ∈ [x, y], (t, z) ∈ s.queue.accepted := fun z hz =>
    HandOff.mem_fiber.mp (horder.subset hz)
  -- a number stands for one command of one thread
  have hmem : ∀ z ∈ [x, y], ∀ c, z.1 ∈ (s.consumer c).takenIds →
      z ∈ (s.consumer c).taken ∧ (c, t, z) ∈ s.queue.taken := fun z hz c hid => by
    obtain ⟨⟨i, cmd⟩, htaken, rfl⟩ := List.mem_map.mp hid
    obtain ⟨t', hacc, hqueue⟩ := hq.mem_accepted htaken
    obtain ⟨rfl, rfl⟩ := hq.accepted_unique (haccepted z hz) hacc
    exact ⟨htaken, hqueue⟩
  have hfirst : (∃ c, y ∈ (s.consumer c).taken) →
      [x, y] <+ fiber t (s.queue.taken.map Prod.snd) := fun ⟨c, hy⟩ =>
    HandOff.Queue.taken_order hq.fifo hq.distinct horder
      (hmem y (by simp) c (List.mem_map_of_mem hy)).2
  refine ⟨hfirst, fun hone => ?_⟩
  have hsame : ∀ c c', x ∈ (s.consumer c).taken → y ∈ (s.consumer c').taken → c = c' := by
    rcases hone with rfl | hone
    · exact fun c c' _ _ => Subsingleton.elim c c'
    · exact hone
  have hne : x.1 ≠ y.1 := fun heq => by
    have hnodup := (HandOff.Queue.nodup_fiber_accepted hq.distinct t).sublist (horder.map Prod.fst)
    simp [heq] at hnodup
  -- the consumer that got both got the first one first
  have horderTaken : ∀ c, x ∈ (s.consumer c).taken → y ∈ (s.consumer c).taken →
      [x, y] <+ (s.consumer c).taken := fun c hx hy => by
    rw [hq.taken]
    exact HandOff.Queue.fiber_order hq.fifo hq.distinct (hfirst ⟨c, hy⟩)
      (hmem x (by simp) c (List.mem_map_of_mem hx)).2
      (hmem y (by simp) c (List.mem_map_of_mem hy)).2
  refine ⟨?_, fun hy => ?_⟩
  · have hexecuted := executedOrder hs
    rw [State.executedIds, List.pairwise_map]
    refine hexecuted.order.imp_of_mem fun {e e'} he he' hee' ⟨hey, he'x⟩ => ?_
    obtain ⟨hyTaken, -⟩ := hmem y (by simp) e.1 (hey ▸ hexecuted.taken e he)
    obtain ⟨hxTaken, -⟩ := hmem x (by simp) e'.1 (he'x ▸ hexecuted.taken e' he')
    have hc : e'.1 = e.1 := hsame _ _ hxTaken hyTaken
    rw [hc] at hxTaken
    rcases hee' hc.symm with heq | hsub
    · exact hne (he'x.symm.trans (heq.symm.trans hey))
    · rw [hey, he'x] at hsub
      exact HandOff.not_swapped (hq.nodup_taken e.1)
        ((horderTaken e.1 hxTaken hyTaken).map Prod.fst) hsub
  · obtain ⟨e, he, hey⟩ := List.mem_map.mp hy
    obtain ⟨hyTaken, -⟩ := hmem y (by simp) e.1 (hey ▸ (executedOrder hs).taken e he)
    obtain ⟨⟨c, _⟩, hxQueue, rfl⟩ := List.mem_map.mp
      (HandOff.mem_fiber.mp ((hfirst ⟨e.1, hyTaken⟩).subset List.mem_cons_self))
    have hxTaken : x ∈ (s.consumer c).taken := by
      rw [hq.taken]
      exact List.mem_map.mpr ⟨_, HandOff.mem_fiber.mpr hxQueue, rfl⟩
    obtain rfl := hsame c e.1 hxTaken hyTaken
    have hfinished := (progress hs e.1).finished_of_before (horderTaken e.1 hxTaken hyTaken) hne
      (hq.nodup_taken e.1)
    obtain ⟨-, r, hr⟩ := (progress hs e.1).handled_of_finished hfinished
    rcases own_of_handled hs (haccepted x (by simp)) hr with hown | ⟨hentity, -⟩
    · exact .inl (List.mem_map.mpr ⟨_, HandOff.mem_fiber.mp hown, rfl⟩)
    · exact .inr hentity

section Account

/-- A call that saves a value for account 1 and does not wait. -/
def saveValue (value : Char) : Call Text := .entitySaveAsync ['1', value] ['a'] [['i', 'd']]

/-- Thread 0 saves two values, one after the other, and each of two consumers gets one. -/
lemma two_saves_run : ∃ s : State 2 Text, (service .plain 2).Reachable s ∧ ∃ x y : Cmd Text,
    (saveValue 'x').cmd .plain 0 = .ok x ∧ (saveValue 'y').cmd .plain 0 = .ok y
      ∧ s.queue.accepted = [(0, 0, x), (0, 1, y)]
      ∧ (s.consumer 0).pc = .found 0 x ∧ (s.consumer 1).pc = .found 1 y ∧ s.executed = [] := by
  have hstart : (service .plain 2).Reachable (State.init 2 Text) := .start
  have htested := (((hstart.snoc (.opened 0) (.opened rfl)).snoc (.opened 1) (.opened rfl)).snoc
    (.test 0) (.test rfl)).snoc (.test 1) (.test rfl)
  have hfirst := (htested.snoc (.call 0 (saveValue 'x')) (.check rfl rfl rfl)).snoc
    (.enqueue 0 true) (.enqueue rfl)
  have hsecond := (hfirst.snoc (.call 0 (saveValue 'y')) (.check rfl rfl rfl)).snoc
    (.enqueue 0 true) (.enqueue rfl)
  have htaken := (hsecond.snoc (.take 0 0) (.take rfl rfl)).snoc (.take 1 0) (.take rfl rfl)
  exact ⟨_, htaken, _, _, rfl, rfl, rfl, rfl, rfl, rfl⟩

/-- **The second value is saved first.** -/
theorem overtaken : consumerNum 2 = 2 ∧ ¬ ∀ s : State 2 Text, (service .plain 2).Reachable s →
    ∀ (t : Thread) (i j : ℕ) (x y : Cmd Text),
      (saveValue 'x').cmd .plain t = .ok x → (saveValue 'y').cmd .plain t = .ok y →
      [(i, x), (j, y)] <+ fiber t s.queue.accepted → s.InOrder .plain (i, x) (j, y) := by
  refine ⟨rfl, fun hinOrder => ?_⟩
  obtain ⟨s, hs, x, y, hx, hy, haccepted, hpcx, hpcy, hexecuted⟩ := two_saves_run
  have hentity : ∀ {value cmd}, (saveValue value).cmd .plain 0 = .ok cmd →
      (cmd.entity .plain).isSome := fun h => by cases h; rfl
  have hsecond := (hs.snoc (.handle 1) (.handle hpcy (hentity hy))).snoc
    (.attempt 1 .succeeded .nothing) (.succeeded rfl)
  have hfirst := (hsecond.snoc (.handle 0) (.handle hpcx (hentity hx))).snoc
    (.attempt 0 .succeeded .nothing) (.succeeded rfl)
  have horder : [(0, x), (1, y)] <+ fiber 0 s.queue.accepted := by simp [haccepted, fiber]
  have hpairwise := (hinOrder _ hfirst 0 0 1 x y hx hy horder).1
  simp [State.executedIds, State.set, hexecuted] at hpairwise

/-- One consumer saves two values of thread 0 in the order in which they were enqueued. -/
theorem executed_in_order_account : ∃ (s : State 1 Text) (x y : Cmd Text),
    (saveValue 'x').cmd .plain 0 = .ok x ∧ (saveValue 'y').cmd .plain 0 = .ok y
      ∧ s.executedIds = [0, 1] ∧ s.InOrder .plain (0, x) (1, y) := by
  have hstart : (service .plain 1).Reachable (State.init 1 Text) := .start
  have htested := (hstart.snoc (.opened 0) (.opened rfl)).snoc (.test 0) (.test rfl)
  have hfirst := (htested.snoc (.call 0 (saveValue 'x')) (.check rfl rfl rfl)).snoc
    (.enqueue 0 true) (.enqueue rfl)
  have hsecond := (hfirst.snoc (.call 0 (saveValue 'y')) (.check rfl rfl rfl)).snoc
    (.enqueue 0 true) (.enqueue rfl)
  have hhandling := (hsecond.snoc (.take 0 0) (.take rfl rfl)).snoc (.handle 0) (.handle rfl rfl)
  have hresponding := (hhandling.snoc (.attempt 0 .succeeded .nothing) (.succeeded rfl)).snoc
    (.respond 0) (.respondNone rfl (.inl rfl))
  have hagain := (hresponding.snoc (.dispose 0) (.disposeNone rfl rfl)).snoc (.test 0) (.test rfl)
  have htaken := (hagain.snoc (.take 0 0) (.take rfl rfl)).snoc (.handle 0) (.handle rfl rfl)
  have hexecuted := htaken.snoc (.attempt 0 .succeeded .nothing) (.succeeded rfl)
  exact ⟨_, _, _, rfl, rfl, rfl,
    (executed_in_order (t := 0) hexecuted (List.Sublist.refl [(0, _), (1, _)])).2 (.inl rfl)⟩

end Account

end PbEntityDb.Service
