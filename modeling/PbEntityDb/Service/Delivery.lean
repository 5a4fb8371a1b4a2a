import PbEntityDb.Service.Waiting

/-!
How the responses of asynchronous calls reach the functions of the user.

* `delivery`: the trunk queue hands on what the consumers put into it, and the
  threads in `RunOnce` call what they took from it.
* `delivered`: **each function is called at most once, in `RunOnce`, with the
  response of its own request**, and each thread in `RunOnce` calls the functions
  that one consumer pushed in the order in which they were pushed.
* `crossed`: two threads in `RunOnce` can call them the other way round.
-/

namespace PbEntityDb.Service

open HandOff (fiber)
open Function (update)
open scoped List

variable {Msg : Type} {pb : Protobuf Msg} {n : ℕ} {s s' : State n Msg}

/-- What a thread took from the trunk queue and is about to call. -/
def pending (fs : List (Frame n)) : List (Fin n × Posted) :=
  fs.filterMap fun
    | .found c x => some (c, x)
    | _ => none

/-- The trunk queue, what went into it and what became of what came out. -/
structure State.Delivery (s : State n Msg) : Prop where
  fifo : s.trunk.Fifo
  accepted : ∀ c, fiber c s.trunk.accepted = (s.consumer c).posted
  /-- only the innermost call of `RunOnce` is not in a function of the user -/
  outer : ∀ t, ∀ f ∈ (s.frames t).tail, f = .calling
  invoked : ∀ t, fiber t s.trunk.taken = fiber t s.invoked ++ pending (s.frames t)

namespace State.Delivery

/-- The outer calls have nothing to call. -/
lemma pending_outer {fs : List (Frame n)} (h : ∀ f ∈ fs, f = .calling) : pending fs = [] := by
  rw [pending, List.filterMap_eq_nil_iff]
  intro f hf
  rw [h f hf]

/-- A step outside of `RunOnce` that pushes nothing. -/
lemma goOn (h : s.Delivery) (htrunk : s'.trunk = s.trunk)
    (hposted : ∀ c, (s'.consumer c).posted = (s.consumer c).posted)
    (hframes : s'.frames = s.frames) (hinvoked : s'.invoked = s.invoked) : s'.Delivery where
  fifo := htrunk ▸ h.fifo
  accepted c := by rw [htrunk, hposted, h.accepted]
  outer := hframes ▸ h.outer
  invoked := by
    rw [htrunk, hframes, hinvoked]
    exact h.invoked

lemma push (h : s.Delivery) {c : Fin n} {x : Posted} {w : Consumer Msg}
    (hw : w.posted = (s.consumer c).posted ++ [x]) :
    State.Delivery { s.set c w with trunk := s.trunk.put c x } where
  fifo := h.fifo.put c x
  accepted c' := by
    rcases eq_or_ne c' c with rfl | hc
    · simp [State.set, hw, h.accepted]
    · simp [State.set, hc, h.accepted, HandOff.fiber_single_of_ne hc.symm]
  outer := h.outer
  invoked := h.invoked

/-- A thread goes on in `RunOnce` and neither takes nor calls anything. -/
lemma setFrames (h : s.Delivery) {t : Thread} {fs : List (Frame n)}
    (houter : ∀ f ∈ fs.tail, f = .calling) (hpending : pending fs = pending (s.frames t)) :
    (s.setFrames t fs).Delivery where
  fifo := h.fifo
  accepted := h.accepted
  outer t' := by
    rcases eq_or_ne t' t with rfl | ht
    · simpa [State.setFrames] using houter
    · simpa [State.setFrames, ht] using h.outer t'
  invoked t' := by
    rcases eq_or_ne t' t with rfl | ht
    · simpa [State.setFrames, hpending] using h.invoked t'
    · simpa [State.setFrames, ht] using h.invoked t'

lemma dequeue (h : s.Delivery) {t : Thread} {fs : List (Frame n)} {c : Fin n} {x : Posted}
    {rest : List Posted} (hframes : s.frames t = .dequeue :: fs)
    (hhead : s.trunk.queued c = x :: rest) :
    State.Delivery
      { s.setFrames t (.found c x :: fs) with trunk := s.trunk.take t c x rest } where
  fifo := h.fifo.take hhead
  accepted := h.accepted
  outer t' := by
    have houter := h.outer t'
    rcases eq_or_ne t' t with rfl | ht
    · simpa [State.setFrames, hframes] using houter
    · simpa [State.setFrames, ht] using houter
  invoked t' := by
    have houter := h.outer t'
    have hinvoked := h.invoked t'
    rcases eq_or_ne t' t with rfl | ht
    · rw [hframes] at houter hinvoked
      have hfs : pending fs = [] := pending_outer houter
      simp_all [State.setFrames, pending]
    · simpa [State.setFrames, ht, HandOff.fiber_single_of_ne ht.symm] using hinvoked

lemma invoke (h : s.Delivery) {t : Thread} {fs : List (Frame n)} {c : Fin n} {x : Posted}
    (hframes : s.frames t = .found c x :: fs) :
    State.Delivery
      { s.setFrames t (.calling :: fs) with invoked := s.invoked ++ [(t, c, x)] } where
  fifo := h.fifo
  accepted := h.accepted
  outer t' := by
    have houter := h.outer t'
    rcases eq_or_ne t' t with rfl | ht
    · simpa [State.setFrames, hframes] using houter
    · simpa [State.setFrames, ht] using houter
  invoked t' := by
    have houter := h.outer t'
    have hinvoked := h.invoked t'
    rcases eq_or_ne t' t with rfl | ht
    · rw [hframes] at houter hinvoked
      have hfs : pending fs = [] := pending_outer houter
      simp_all [State.setFrames, pending]
    · simpa [State.setFrames, ht, HandOff.fiber_single_of_ne ht.symm] using hinvoked

end State.Delivery

/-- **The trunk queue hands on what the consumers push.** -/
theorem delivery (hs : (service pb n).Reachable s) : s.Delivery := by
  refine hs.invariant ⟨?_, fun c => rfl, fun t => ?_, fun t => rfl⟩ fun s a s' hs h hstep => ?_
  · exact HandOff.Queue.fifo_empty
  · simp [service, State.init]
  have hset : ∀ {c : Fin n} {w : Consumer Msg}, w.posted = (s.consumer c).posted →
      ∀ c', ((s.set c w).consumer c').posted = (s.consumer c').posted := fun {c} _ hw =>
    State.forall_set (motive := fun c w => w.posted = (s.consumer c).posted) (fun _ => rfl) hw
  cases hstep with
  | push hpc => exact h.push rfl
  | opened hpc | timeout hpc | failed hpc | lost hpc | succeeded hpc | respondNone hpc hcb
  | respondAssign hpc hcb | respondPost hpc hcb | pushFailed hpc | disposeNone hpc hcb
  | dispose hpc hcb | test hpc | handle hpc hentity | skip hpc hentity | post hpc
  | take hpc hhead => exact h.goOn rfl (hset rfl) rfl rfl
  | @runOnce t hframes =>
      refine h.setFrames (fun f hf => ?_) rfl
      rcases hframes with hnil | hcalling
      · simp [hnil] at hf
      · obtain ⟨fs, hfs⟩ := List.head?_eq_some_iff.mp hcalling
        have houter := h.outer t
        rw [List.tail_cons, hfs, List.mem_cons] at hf
        rw [hfs] at houter
        exact hf.elim id (houter f)
  | @iterate t fs hframes =>
      have houter : ∀ f ∈ fs, f = .calling := by simpa [hframes] using h.outer t
      refine h.setFrames ?_ (by rw [hframes]; split <;> rfl)
      split
      · exact fun f hf => houter f (List.mem_of_mem_tail hf)
      · exact houter
  | @dequeueNone t fs hframes =>
      have houter : ∀ f ∈ fs, f = .calling := by simpa [hframes] using h.outer t
      exact h.setFrames (fun f hf => houter f (List.mem_of_mem_tail hf)) (by rw [hframes]; rfl)
  | dequeue hframes hhead => exact h.dequeue hframes hhead
  | invoke hframes => exact h.invoke hframes
  | @callbackReturn t fs hframes =>
      exact h.setFrames (by simpa [hframes] using h.outer t) (by rw [hframes]; rfl)
  | _ => exact h.goOn rfl (fun c => rfl) rfl rfl

/-! ### What is called -/

lemma State.Delivery.posted_of_invoked (h : s.Delivery) {t : Thread} {c : Fin n} {x : Posted}
    (hx : (t, c, x) ∈ s.invoked) : x ∈ (s.consumer c).posted := by
  have htaken : (t, c, x) ∈ s.trunk.taken := by
    rw [← HandOff.mem_fiber, h.invoked, List.mem_append]
    exact .inl (HandOff.mem_fiber.mpr hx)
  rw [← h.accepted, HandOff.mem_fiber]
  exact h.fifo.mem_accepted.mpr (.inl ⟨t, htaken⟩)

/-- No command posts two responses. -/
lemma trunk_distinct (hs : (service pb n).Reachable s) : s.trunk.Distinct Prod.fst := by
  have hsub : ∀ c, fiber c (s.trunk.accepted.map fun x => (x.1, x.2.1)) <+ fiber c s.takenIds := by
    intro c
    have hp := progress hs c
    rw [HandOff.fiber_map c (fun x : Posted => x.1), (delivery hs).accepted,
      (queued hs).fiber_takenIds, hp.taken]
    refine hp.posted.trans (List.Sublist.map _ (List.Sublist.append_left ?_ _))
    cases (s.consumer c).pc <;> simp [Pc.postedJob, Pc.job]
  simpa [HandOff.Queue.Distinct, Function.comp_def] using
    HandOff.nodup_of_fibers hsub (queued hs).nodup_takenIds

/-- A function that the user handed in is called for one request only. -/
lemma nodup_invoked (hs : (service pb n).Reachable s) : (s.invoked.map (·.2.2.1)).Nodup := by
  have h := delivery hs
  have hsub : ∀ t, fiber t (s.invoked.map fun x => (x.1, x.2.2.1))
      <+ fiber t (s.trunk.taken.map fun x => (x.1, x.2.2.1)) := fun t => by
    rw [HandOff.fiber_map t (fun x : Fin n × Posted => x.2.1),
      HandOff.fiber_map t (fun x : Fin n × Posted => x.2.1), h.invoked, List.map_append]
    exact List.sublist_append_left _ _
  have hnodup := HandOff.Queue.nodup_taken h.fifo (trunk_distinct hs)
  simpa [Function.comp_def] using
    HandOff.nodup_of_fibers hsub (by simpa [Function.comp_def] using hnodup)

/-- What a thread calls of a consumer comes in the order in which it was pushed. -/
lemma State.Delivery.invoked_order (h : s.Delivery) (t : Thread) (c : Fin n) :
    fiber c (fiber t s.invoked) <+ (s.consumer c).posted := by
  have htaken : fiber t s.invoked <+ fiber t s.trunk.taken := by
    rw [h.invoked]
    exact List.sublist_append_left _ _
  have hfiber := HandOff.fiber_mono (htaken.trans (HandOff.fiber_sublist t s.trunk.taken)) c
  refine hfiber.trans ?_
  rw [← h.accepted, h.fifo]
  exact List.sublist_append_left _ _

/-- After the trunk queue was closed, a thread that is not between its test of
`_close` and the call of what it took calls nothing any more. -/
lemma invoked_of_close {t : Thread} (hs : (service pb n).Reachable s) (hclose : s.close = true)
    (hframes : ∀ f ∈ s.frames t, f = .test ∨ f = .calling)
    (hrun : (service pb n).Run (fun _ _ => True) s s') :
    fiber t s'.invoked = fiber t s.invoked := by
  have hkeep : s'.close = true ∧ (∀ f ∈ s'.frames t, f = .test ∨ f = .calling)
      ∧ fiber t s'.invoked = fiber t s.invoked := by
    refine hrun.invariant hs ⟨hclose, hframes, rfl⟩
      fun s₁ a s₂ _ ⟨hclose, hframes, heq⟩ _ hstep => ?_
    have hset : ∀ {t' : Thread} {fs : List (Frame n)},
        (t' = t → ∀ f ∈ fs, f = .test ∨ f = .calling) →
        ∀ f ∈ (s₁.setFrames t' fs).frames t, f = .test ∨ f = .calling := fun {t' fs} hfs => by
      rcases eq_or_ne t t' with rfl | ht
      · simpa [State.setFrames] using hfs rfl
      · simpa [State.setFrames, ht] using hframes
    -- the innermost call of the thread is neither at its dequeue nor at a call
    have hother : ∀ {t' : Thread} {f : Frame n} {fs : List (Frame n)}, s₁.frames t' = f :: fs →
        f ≠ .test → f ≠ .calling → t' ≠ t := by
      rintro t' f fs hfs htest hcalling rfl
      rcases hframes f (by simp [hfs]) with rfl | rfl
      · exact htest rfl
      · exact hcalling rfl
    cases hstep with
    | runOnce hcalled =>
        refine ⟨hclose, hset fun ht f hf => ?_, heq⟩
        rcases List.mem_cons.mp hf with rfl | hf
        · exact .inl rfl
        · exact hframes f (ht ▸ hf)
    | iterate htest =>
        refine ⟨hclose, hset fun ht f hf => hframes f ?_, heq⟩
        rw [if_pos hclose] at hf
        rw [← ht, htest]
        exact List.mem_cons_of_mem _ hf
    | callbackReturn hcalling =>
        refine ⟨hclose, hset fun ht f hf => ?_, heq⟩
        rcases List.mem_cons.mp hf with rfl | hf
        · exact .inl rfl
        · exact hframes f (by rw [← ht, hcalling]; exact List.mem_cons_of_mem _ hf)
    | dequeueNone hdequeue =>
        exact ⟨hclose, hset fun ht => absurd ht (hother hdequeue (by simp) (by simp)), heq⟩
    | dequeue hdequeue hhead =>
        exact ⟨hclose, hset fun ht => absurd ht (hother hdequeue (by simp) (by simp)), heq⟩
    | invoke hfound =>
        have ht := hother hfound (by simp) (by simp)
        refine ⟨hclose, hset fun ht' => absurd ht' ht, ?_⟩
        rw [HandOff.fiber_append, HandOff.fiber_single_of_ne ht, List.append_nil]
        exact heq
    | close => exact ⟨rfl, hframes, heq⟩
    | _ => exact ⟨hclose, hframes, heq⟩
  exact hkeep.2.2

/-- A user's function is called by a thread in `RunOnce` and by no other. -/
lemma invoke_of_invoked_ne {a : Act n Msg} (hstep : Step pb s a s') (h : s'.invoked ≠ s.invoked) :
    ∃ t, a = .invoke t ∧ s.frames t ≠ [] := by
  cases hstep with
  | @invoke t fs c x hframes => exact ⟨t, rfl, by simp [hframes]⟩
  | _ => exact absurd rfl h

/-- **Each function of the user is called at most once, by a thread in `RunOnce`,
with the response of its own request; each of these threads calls the functions
that one consumer pushed in the order in which they were pushed, and after
`Close` it begins no further round.** -/
theorem delivered (hs : (service pb n).Reachable s) :
    (s.invoked.map (·.2.2.1)).Nodup
      ∧ (∀ a s', Step pb s a s' → s'.invoked ≠ s.invoked → ∃ t, a = .invoke t ∧ s.frames t ≠ [])
      ∧ (∀ t c id onResponse r, (t, c, id, onResponse, r) ∈ s.invoked → ∃ t' cmd,
        (t', id, cmd) ∈ s.queue.accepted ∧ cmd.respondCb = some (.post (some onResponse))
          ∧ (id, r) ∈ (s.consumer c).handled ∧ Own pb (fiber c s.executed) id cmd r)
      ∧ (∀ c, fiber c (s.trunk.taken.map Prod.snd) <+: (s.consumer c).posted)
      ∧ (∀ t c, fiber c (fiber t s.invoked) <+ (s.consumer c).posted)
      ∧ (∀ t s', s.close = true → (∀ f ∈ s.frames t, f = .test ∨ f = .calling) →
        (service pb n).Run (fun _ _ => True) s s' → fiber t s'.invoked = fiber t s.invoked) := by
  have h := delivery hs
  refine ⟨nodup_invoked hs, fun a s' => invoke_of_invoked_ne, ?_, fun c => ?_, h.invoked_order,
    fun t s' => invoked_of_close hs⟩
  · intro t c id onResponse r hx
    obtain ⟨hr, cmd, htaken, hcb⟩ := (sound hs c).posted _ (h.posted_of_invoked hx)
    obtain ⟨t', haccepted, -⟩ := (queued hs).mem_accepted htaken
    exact ⟨t', cmd, haccepted, hcb, hr, own_of_handled hs haccepted hr⟩
  · rw [← h.accepted, h.fifo]
    exact List.prefix_append _ _

section Account

/-- A call that loads an account for a function of the user. -/
def loadFor (onResponse : Callback) : Call Text :=
  .entityLoadAsync ['1'] (some onResponse) ['a'] [['i', 'd']]

/-- Two accounts were loaded for thread 0, and the responses wait for `RunOnce`. -/
lemma pushed_run : ∃ s : State 1 Text, (service .plain 1).Reachable s
    ∧ s.trunk.queued 0 = [(0, 7, .list [['x']]), (1, 8, .list [['y']])]
    ∧ (s.consumer 0).posted = [(0, 7, .list [['x']]), (1, 8, .list [['y']])]
    ∧ s.frames = (fun _ => []) ∧ s.close = false ∧ s.invoked = [] := by
  have hstart : (service .plain 1).Reachable (State.init 1 Text) := .start
  have htested := (hstart.snoc (.opened 0) (.opened rfl)).snoc (.test 0) (.test rfl)
  have hfirst := (htested.snoc (.call 0 (loadFor 7)) (.check rfl rfl rfl)).snoc
    (.enqueue 0 true) (.enqueue rfl)
  have hsecond := (hfirst.snoc (.call 0 (loadFor 8)) (.check rfl rfl rfl)).snoc
    (.enqueue 0 true) (.enqueue rfl)
  have hhandling := (hsecond.snoc (.take 0 0) (.take rfl rfl)).snoc (.handle 0) (.handle rfl rfl)
  have hposting := (hhandling.snoc (.attempt 0 .succeeded (.list [['x']])) (.succeeded rfl)).snoc
    (.respond 0) (.respondPost rfl rfl)
  have hpushed := (hposting.snoc (.post 0) (.post rfl)).snoc (.push 0 true) (.push rfl)
  have hagain := (hpushed.snoc (.dispose 0) (.disposeNone rfl rfl)).snoc (.test 0) (.test rfl)
  have htaken := (hagain.snoc (.take 0 0) (.take rfl rfl)).snoc (.handle 0) (.handle rfl rfl)
  have hresponded := (htaken.snoc (.attempt 0 .succeeded (.list [['y']])) (.succeeded rfl)).snoc
    (.respond 0) (.respondPost rfl rfl)
  have hboth := (hresponded.snoc (.post 0) (.post rfl)).snoc (.push 0 true) (.push rfl)
  exact ⟨_, hboth, rfl, rfl, rfl, rfl, rfl⟩

/-- A thread calls `RunOnce` and takes the first response. -/
lemma found_run (hs : (service pb n).Reachable s) {t : Thread} {c : Fin n} {x : Posted}
    {rest : List Posted} (hframes : s.frames t = []) (hclose : s.close = false)
    (hhead : s.trunk.queued c = x :: rest) :
    ∃ s', (service pb n).Reachable s' ∧ s'.frames = update s.frames t [.found c x]
      ∧ s'.trunk.queued c = rest ∧ s'.close = false ∧ s'.invoked = s.invoked
      ∧ s'.consumer = s.consumer := by
  have hcalled := hs.snoc (.runOnce t) (.runOnce (.inl hframes))
  have htested := hcalled.snoc (.iterate t) (.iterate (by simp [State.setFrames]; rfl))
  have hfound := htested.snoc (.tryDequeue t (some c))
    (.dequeue (by simp [State.setFrames, hclose]; rfl) hhead)
  refine ⟨_, hfound, ?_, ?_, hclose, rfl, rfl⟩
  · simp [State.setFrames, hframes]
  · simp [HandOff.Queue.take]

/-- The function for the first response is called with it. -/
theorem delivered_account : ∃ s : State 1 Text,
    s.invoked = [(1, 0, 0, 7, .list [['x']])] ∧ (0, .list [['x']]) ∈ (s.consumer 0).handled := by
  obtain ⟨s, hs, hqueued, -, hframes, hclose, hinvoked⟩ := pushed_run
  obtain ⟨s', hs', hframes', -, -, hinvoked', -⟩ :=
    found_run (t := 1) hs (congrFun hframes 1) hclose hqueued
  have hfound : s'.frames 1 = [.found 0 (0, 7, .list [['x']])] := by simp [hframes']
  have hcalled := hs'.snoc (.invoke 1) (.invoke hfound)
  have hcall := (delivered hcalled).2.2.1 1 0 0 7 (.list [['x']]) (by simp)
  obtain ⟨t, cmd, -, -, hr, -⟩ := hcall
  exact ⟨_, by simp [hinvoked', hinvoked], hr⟩

/-- **Two threads in `RunOnce` call the functions the other way round.** -/
theorem crossed : ¬ ∀ s : State 1 Text, (service .plain 1).Reachable s →
    ∀ c, fiber c (s.invoked.map Prod.snd) <+ (s.consumer c).posted := by
  intro horder
  obtain ⟨s, hs, hqueued, hposted, hframes, hclose, hinvoked⟩ := pushed_run
  obtain ⟨s₁, hs₁, hframes₁, hqueued₁, hclose₁, hinvoked₁, hconsumer₁⟩ :=
    found_run (t := 1) hs (congrFun hframes 1) hclose hqueued
  obtain ⟨s₂, hs₂, hframes₂, -, -, hinvoked₂, hconsumer₂⟩ :=
    found_run (t := 2) hs₁ (by simp [hframes₁, hframes]) hclose₁ hqueued₁
  have hsecond : s₂.frames 2 = [.found 0 (1, 8, .list [['y']])] := by simp [hframes₂]
  have hfirst : (s₂.setFrames 2 [.calling]).frames 1 = [.found 0 (0, 7, .list [['x']])] := by
    simp [State.setFrames, hframes₂, hframes₁]
  have hcalled := (hs₂.snoc (.invoke 2) (.invoke hsecond)).snoc (.invoke 1) (.invoke hfirst)
  have hswapped : [(1, 8, Response.list [['y']]), (0, 7, .list [['x']])]
      <+ [(0, 7, .list [['x']]), (1, 8, .list [['y']])] := by
    have hsub := horder _ hcalled 0
    simp only [State.setFrames, hinvoked₂, hinvoked₁, hinvoked, hconsumer₂, hconsumer₁, hposted]
      at hsub
    exact hsub
  exact HandOff.not_swapped (by simp) (List.Sublist.refl _) hswapped

end Account

end PbEntityDb.Service
