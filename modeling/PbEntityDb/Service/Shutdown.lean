import PbEntityDb.Service.Waiting

/-!
What becomes of the commands when the service is shut down.

`Finish` sets `_done` and joins the consumers. A consumer looks at `_done` at the
beginning of each round and leaves whatever is in the queue; a caller looks at
it before it enqueues.

* `drained`: in a run in which the last consumer leaves its loop only when
  nothing is left, neither in the queue nor with a caller behind its check,
  nothing is left when all have left.
* `noneLost_of_drained`: then every command that `Add*` accepted was executed, and
  `noneStranded_of_drained`: every `Synchronize*` call gets back.
* `command_lost`, `caller_stranded`: otherwise not.
-/

namespace PbEntityDb.Service

open HandOff (fiber)
open Function (update)

variable {Msg : Type} {pb : Protobuf Msg} {n : ℕ} {s s' : State n Msg}

/-- `CPbStubExecQueue::Finish` has returned. -/
def State.FinishReturned (s : State n Msg) : Prop := s.shutdown = .joined ∨ s.shutdown = .closed

/-- No command of the kind is in the queue, and no caller is about to put one there. -/
def State.Drained (kind : Cmd Msg → Prop) (s : State n Msg) : Prop :=
  (∀ t, ∀ x ∈ s.queue.queued t, ¬ kind x.2) ∧ ∀ t cmd, s.caller t = .checked cmd → ¬ kind cmd

/-- If consumer `c` is the last one and leaves its loop now, no command of the
kind is left. -/
def LastExitDrained (kind : Cmd Msg → Prop) (s : State n Msg) (a : Act n Msg) : Prop :=
  ∀ c, a = .test c → s.done = true → (∀ c', c' ≠ c → (s.consumer c').pc = .exited) → s.Drained kind

/-- All commands that `Add*` accepted were executed when `Finish` has returned. -/
def State.NoneLost (pb : Protobuf Msg) (s : State n Msg) : Prop :=
  s.FinishReturned → ∀ t id cmd, (t, id, cmd) ∈ s.queue.accepted → ¬ cmd.sync →
    ∃ c r, (id, r) ∈ (s.consumer c).handled ∧ Own pb (fiber c s.executed) id cmd r

/-- No `Synchronize*` call waits for its promise when `Finish` has returned, and
the `_dispose_cb` of each of their commands was called. -/
def State.NoneStranded (s : State n Msg) : Prop :=
  s.FinishReturned → (∀ t id, s.caller t = .waiting id → s.promise t = true)
    ∧ ∀ t id cmd, (t, id, cmd) ∈ s.queue.accepted → cmd.sync → s.Disposed id

/-! ### When the consumers have left -/

/-- A consumer leaves its loop only after `_done` was set. -/
lemma done_of_exited (hs : (service pb n).Reachable s) :
    ∀ c, (s.consumer c).pc = .exited → s.done = true := by
  refine hs.invariant (by simp [service, State.init]) fun s a s' _ h hstep => ?_
  have hset : ∀ {c : Fin n} {w : Consumer Msg}, (w.pc = .exited → s.done = true) →
      ∀ c', ((s.set c w).consumer c').pc = .exited → s.done = true :=
    State.forall_set (motive := fun _ w => w.pc = .exited → s.done = true) h
  cases hstep with
  | opened hpc | timeout hpc | take hpc hhead | failed hpc | lost hpc | succeeded hpc
  | respondNone hpc hcb | respondAssign hpc hcb | respondPost hpc hcb | pushFailed hpc | push hpc
  | disposeNone hpc hcb | dispose hpc hcb | handle hpc hentity | skip hpc hentity =>
      exact hset (by simp)
  | test hpc => exact hset fun hexited => by split at hexited <;> simp_all
  | post hpc => exact hset fun hexited => by split at hexited <;> cases hexited
  | shutdown => exact fun _ _ => rfl
  | _ => exact h

/-- `Finish` returns after all consumers have left, and they do not come back. -/
lemma exited_of_finishReturned (hs : (service pb n).Reachable s) :
    s.FinishReturned → ∀ c, (s.consumer c).pc = .exited := by
  refine hs.invariant (by simp [service, State.init, State.FinishReturned])
    fun s a s' _ h hstep hreturned => ?_
  cases hstep with
  | opened hpc | timeout hpc | take hpc hhead | failed hpc | lost hpc | succeeded hpc
  | respondNone hpc hcb | respondAssign hpc hcb | respondPost hpc hcb | pushFailed hpc | push hpc
  | disposeNone hpc hcb | dispose hpc hcb | test hpc | handle hpc hentity | skip hpc hentity
  | post hpc => simp [h hreturned] at hpc
  | shutdown hidle => simp [State.FinishReturned] at hreturned
  | join hfinishing hexited => exact hexited
  | close hjoined => exact h (.inl hjoined)
  | _ => exact h hreturned

namespace State.Drained

variable {kind : Cmd Msg → Prop}

/-- A thread leaves the place behind its check. -/
lemma leave (h : s.Drained kind) {t : Thread} {x : Caller Msg} (hx : ∀ cmd, x ≠ .checked cmd) :
    State.Drained kind { s with caller := update s.caller t x } := by
  refine ⟨h.1, fun t' cmd hchecked => ?_⟩
  rcases eq_or_ne t' t with rfl | ht
  · exact absurd (by simpa using hchecked) (hx cmd)
  · exact h.2 t' cmd (by simpa [ht] using hchecked)

/-- A command of another kind goes into the queue. -/
lemma put (h : s.Drained kind) {t : Thread} {id : ℕ} {cmd : Cmd Msg} (hcmd : ¬ kind cmd) :
    State.Drained kind { s with queue := s.queue.put t (id, cmd) } := by
  refine ⟨fun t' x hx => ?_, h.2⟩
  rcases eq_or_ne t' t with rfl | ht
  · have hx' : x ∈ s.queue.queued t' ∨ x = (id, cmd) := by simpa [HandOff.Queue.put] using hx
    rcases hx' with hx' | rfl
    · exact h.1 t' x hx'
    · exact hcmd
  · exact h.1 t' x (by simpa [HandOff.Queue.put, ht] using hx)

end State.Drained

/-- **If the last consumer leaves nothing behind, nothing is left.** -/
theorem drained (hn : 0 < n) {kind : Cmd Msg → Prop}
    (hrun : (service pb n).Run (LastExitDrained kind) (service pb n).start s) :
    (∀ c, (s.consumer c).pc = .exited) → s.Drained kind := by
  refine hrun.invariant .refl ?_ fun s a s' hrun h hok hstep hexited => ?_
  · exact fun hexited => by simpa [service, State.init] using hexited ⟨0, hn⟩
  have hnot : ∀ {c : Fin n} {w : Consumer Msg}, w.pc ≠ .exited →
      (∀ c', ((s.set c w).consumer c').pc = .exited) → s'.Drained kind := fun {c w} hw hall =>
    absurd (by simpa using hall c) hw
  cases hstep with
  | check hidle hdone hcmd =>
      have hdone' := done_of_exited (.of_run hrun) ⟨0, hn⟩ (hexited _)
      simp [hdone] at hdone'
  | enqueueFailed hchecked => exact (h hexited).leave (by simp)
  | wake hwaiting hset => exact (h hexited).leave (by simp)
  | @enqueue t cmd hchecked =>
      have hleft : State.Drained kind
          { s with queue := s.queue.put t (s.queue.accepted.length, cmd) } :=
        (h hexited).put ((h hexited).2 t cmd hchecked)
      exact hleft.leave (by split <;> simp)
  | opened hpc | timeout hpc | take hpc hhead | failed hpc | lost hpc | succeeded hpc
  | respondNone hpc hcb | respondAssign hpc hcb | respondPost hpc hcb | pushFailed hpc | push hpc
  | disposeNone hpc hcb | dispose hpc hcb | handle hpc hentity | skip hpc hentity =>
      exact hnot (by simp) hexited
  | post hpc => exact hnot (by split <;> simp) hexited
  | @test c hpc =>
      have hdone : s.done = true := by
        have hc := hexited c
        rw [State.set_consumer_self] at hc
        split at hc
        next hdone => exact hdone
        next => cases hc
      refine hok c rfl hdone fun c' hc => ?_
      rw [← State.set_consumer_of_ne hc]
      exact hexited c'
  | _ => exact h hexited

/-- Nothing that was accepted is left when all consumers have left and the queue
holds none of its kind. -/
lemma finished_of_drained (hs : (service pb n).Reachable s) {kind : Cmd Msg → Prop}
    (hdrained : s.Drained kind) (hexited : ∀ c, (s.consumer c).pc = .exited) {t : Thread} {id : ℕ}
    {cmd : Cmd Msg} (haccepted : (t, id, cmd) ∈ s.queue.accepted) (hkind : kind cmd) :
    ∃ c, (id, cmd) ∈ (s.consumer c).finished := by
  rcases (queued hs).fifo.mem_accepted.mp haccepted with ⟨c, htaken⟩ | hqueued
  · have hmem : (id, cmd) ∈ (s.consumer c).taken := by
      rw [(queued hs).taken]
      exact List.mem_map.mpr ⟨_, HandOff.mem_fiber.mpr htaken, rfl⟩
    rw [(progress hs c).taken, hexited c] at hmem
    exact ⟨c, by simpa [Pc.job] using hmem⟩
  · exact absurd hkind (hdrained.1 t _ hqueued)

/-! ### Runs with one consumer -/

section Account

/-- A call that saves an account and does not wait. -/
def saveAsync : Call Text := .entitySaveAsync ['1'] ['a'] [['i', 'd']]

/-- A call that saves an account and waits. -/
def saveSync : Call Text := .entitySave ['1'] ['a'] [['i', 'd']]

/-- With one consumer that is about to test `_done`, the service can be shut down
at once. -/
lemma finish_run {s₀ s : State 1 Msg} {ok : State 1 Msg → Act 1 Msg → Prop}
    (hrun : (service pb 1).Run ok s₀ s) (hok : ∀ s, ok s .shutdown ∧ ok s .join)
    (hidle : s.shutdown = .idle) (hpc : (s.consumer 0).pc = .test)
    (htest : ok { s with done := true, shutdown := .finishing } (.test 0)) :
    ∃ s', (service pb 1).Run ok s₀ s' ∧ s'.FinishReturned ∧ s'.queue = s.queue
      ∧ s'.caller = s.caller ∧ s'.promise = s.promise
      ∧ (s'.consumer 0).handled = (s.consumer 0).handled := by
  have hfinishing := (hrun.snoc .shutdown (hok _).1 (.shutdown hidle)).snoc (.test 0) htest
    (.test hpc)
  have hjoined := hfinishing.snoc .join (hok _).2 (.join rfl fun c => ?_)
  · refine ⟨_, hjoined, .inl rfl, rfl, rfl, rfl, ?_⟩
    simp [State.set]
  · obtain rfl : c = 0 := Subsingleton.elim _ _
    simp [State.set]

/-- Thread 0 has put its command into the queue before the consumer takes it. -/
lemma enqueue_run {call : Call Text} {cmd : Cmd Text} (hcmd : call.cmd .plain 0 = .ok cmd) :
    ∃ s : State 1 Text, (service .plain 1).Reachable s ∧ s.shutdown = .idle
      ∧ (s.consumer 0).pc = .test ∧ s.queue.accepted = [(0, 0, cmd)]
      ∧ (s.consumer 0).handled = []
      ∧ (cmd.sync → s.caller 0 = .waiting 0 ∧ s.promise 0 = false) := by
  have hstart : (service .plain 1).Reachable (State.init 1 Text) := .start
  have hcalled := (hstart.snoc (.opened 0) (.opened rfl)).snoc (.call 0 call)
    (.check rfl rfl hcmd)
  refine ⟨_, hcalled.snoc (.enqueue 0 true) (.enqueue rfl), rfl, rfl, rfl, rfl, fun hsync => ?_⟩
  exact ⟨if_pos hsync, rfl⟩

/-- The consumer has taken the command of thread 0, and no other one is left. -/
lemma take_run {ok : State 1 Text → Act 1 Text → Prop} {call : Call Text} {cmd : Cmd Text}
    (hcmd : call.cmd .plain 0 = .ok cmd)
    (hok : ∀ s a, s.done = false → (∀ c attempt r, a ≠ .attempt c attempt r) → ok s a) :
    ∃ s : State 1 Text, (service .plain 1).Run ok (State.init 1 Text) s ∧ s.shutdown = .idle
      ∧ s.done = false ∧ (s.consumer 0).pc = .found 0 cmd ∧ s.queue.accepted = [(0, 0, cmd)]
      ∧ (∀ t, s.queue.queued t = []) ∧ ∀ t cmd', s.caller t ≠ .checked cmd' := by
  have hstart : (service .plain 1).Run ok (State.init 1 Text) (State.init 1 Text) := .nil _
  have hcalled := (hstart.snoc (.opened 0) (hok _ _ rfl (by simp)) (.opened rfl)).snoc
    (.call 0 call) (hok _ _ rfl (by simp)) (.check rfl rfl hcmd)
  have htested := (hcalled.snoc (.enqueue 0 true) (hok _ _ rfl (by simp)) (.enqueue rfl)).snoc
    (.test 0) (hok _ _ rfl (by simp)) (.test rfl)
  have htaken := htested.snoc (.take 0 0) (hok _ _ rfl (by simp)) (.take rfl rfl)
  refine ⟨_, htaken, rfl, rfl, rfl, rfl, fun t => ?_, fun t cmd' hchecked => ?_⟩
  · rcases eq_or_ne t 0 with rfl | ht
    · simp [HandOff.Queue.take]
    · simp [HandOff.Queue.take, HandOff.Queue.put, State.init, HandOff.Queue.empty]
  · rcases eq_or_ne t 0 with rfl | ht
    · simp at hchecked
      split at hchecked <;> cases hchecked
    · simp [ht, State.init] at hchecked

/-- A step that is no test of `_done` leaves nothing behind. -/
lemma lastExitDrained_of_ne {kind : Cmd Msg → Prop} {a : Act n Msg} (ha : ∀ c, a ≠ .test c) :
    LastExitDrained kind s a := fun c hc => absurd hc (ha c)

/-- The consumer is through with a command that the database executes at once. -/
lemma process_run {pb : Protobuf Msg} {s₀ s : State 1 Msg} {kind : Cmd Msg → Prop} {id : ℕ}
    {cmd : Cmd Msg} (hrun : (service pb 1).Run (LastExitDrained kind) s₀ s)
    (hpc : (s.consumer 0).pc = .found id cmd) (hcb : cmd.respondCb = none)
    (hentity : (cmd.entity pb).isSome = true) :
    ∃ s', (service pb 1).Run (LastExitDrained kind) s₀ s' ∧ s'.shutdown = s.shutdown
      ∧ (s'.consumer 0).pc = .test ∧ s'.queue = s.queue ∧ s'.caller = s.caller := by
  have hne : ∀ {s : State 1 Msg} {a : Act 1 Msg}, (∀ c, a ≠ .test c) →
      LastExitDrained kind s a := lastExitDrained_of_ne
  have hhandling := hrun.snoc (.handle 0) (hne (by simp)) (.handle hpc hentity)
  have hresponding := hhandling.snoc (.attempt 0 .succeeded .nothing) (hne (by simp))
    (.succeeded rfl)
  have hdisposing := hresponding.snoc (.respond 0) (hne (by simp)) (.respondNone rfl (.inl hcb))
  cases hdispose : cmd.disposeCb with
  | none =>
      exact ⟨_, hdisposing.snoc (.dispose 0) (hne (by simp)) (.disposeNone rfl hdispose),
        rfl, rfl, rfl, rfl⟩
  | some t =>
      exact ⟨_, hdisposing.snoc (.dispose 0) (hne (by simp)) (.dispose rfl hdispose),
        rfl, rfl, rfl, rfl⟩

/-- The consumer saves the account of thread 0 and finds the queue empty. -/
lemma save_run {call : Call Text} {cmd : Cmd Text} (hcmd : call.cmd .plain 0 = .ok cmd)
    (hcb : cmd.respondCb = none) (hentity : (cmd.entity .plain).isSome = true)
    (kind : Cmd Text → Prop) :
    ∃ s : State 1 Text, (service .plain 1).Run (LastExitDrained kind) (State.init 1 Text) s
      ∧ s.shutdown = .idle ∧ (s.consumer 0).pc = .test ∧ s.queue.accepted = [(0, 0, cmd)]
      ∧ s.Drained kind := by
  have hopen : ∀ (s : State 1 Text) (a : Act 1 Text), s.done = false →
      (∀ c attempt r, a ≠ .attempt c attempt r) → LastExitDrained kind s a := by
    intro s a hdone _ c _ hdone'
    rw [hdone] at hdone'
    cases hdone'
  obtain ⟨s₀, htaken, hidle₀, -, hpc₀, haccepted, hqueued, hunchecked⟩ := take_run hcmd hopen
  obtain ⟨s, hrun, hidle, hpc, hqueue, hcaller⟩ := process_run htaken hpc₀ hcb hentity
  refine ⟨s, hrun, hidle.trans hidle₀, hpc, by rw [hqueue]; exact haccepted, fun t x hx => ?_,
    fun t cmd' hchecked => ?_⟩
  · rw [hqueue, hqueued t] at hx
    cases hx
  · rw [hcaller] at hchecked
    exact absurd hchecked (hunchecked t cmd')

end Account

/-! ### No command is lost -/

/-- **No accepted command is lost** if, whenever the last consumer leaves its
loop, no command of an `Add*` call is left. -/
theorem noneLost_of_drained (hn : 0 < n)
    (hrun : (service pb n).Run (LastExitDrained fun cmd => ¬ cmd.sync) (service pb n).start s) :
    s.NoneLost pb := by
  intro hreturned t id cmd haccepted hasync
  have hs := Runs.Machine.Reachable.of_run hrun
  have hexited := exited_of_finishReturned hs hreturned
  obtain ⟨c, hfinished⟩ := finished_of_drained hs (drained hn hrun hexited)
    hexited haccepted hasync
  obtain ⟨-, r, hr⟩ := (progress hs c).handled_of_finished hfinished
  exact ⟨c, r, hr, own_of_handled hs haccepted hr⟩

/-- The consumer saves the account of thread 0 before the service is shut down. -/
theorem noneLost_save : ∃ s : State 1 Text, s.FinishReturned ∧ ∃ cmd,
    saveAsync.cmd .plain 0 = .ok cmd ∧ s.queue.accepted = [(0, 0, cmd)]
      ∧ ∃ c r, (0, r) ∈ (s.consumer c).handled ∧ Own .plain (fiber c s.executed) 0 cmd r := by
  obtain ⟨cmd, hcmd, hasync, hcb, hentity⟩ : ∃ cmd, saveAsync.cmd .plain 0 = .ok cmd
      ∧ ¬ cmd.sync ∧ cmd.respondCb = none ∧ (cmd.entity .plain).isSome :=
    ⟨_, rfl, Bool.false_ne_true, rfl, rfl⟩
  obtain ⟨s, hrun, hidle, hpc, haccepted, hdrained⟩ :=
    save_run hcmd hcb hentity fun cmd => ¬ cmd.sync
  obtain ⟨s', hrun', hreturned, hqueue, -⟩ := finish_run hrun
    (fun _ => ⟨lastExitDrained_of_ne (by simp), lastExitDrained_of_ne (by simp)⟩) hidle hpc
    fun _ _ _ _ => hdrained
  rw [← hqueue] at haccepted
  exact ⟨s', hreturned, cmd, hcmd, haccepted,
    noneLost_of_drained Nat.one_pos hrun' hreturned 0 0 cmd (by simp [haccepted]) hasync⟩

/-- **A command that was accepted before the shutdown is lost.** -/
theorem command_lost : consumerNum 1 = 1 ∧ ¬ ∀ s : State 1 Text,
    (service .plain 1).Reachable s → s.NoneLost .plain := by
  refine ⟨rfl, fun hnoneLost => ?_⟩
  obtain ⟨cmd, hcmd, hasync⟩ : ∃ cmd, saveAsync.cmd .plain 0 = .ok cmd ∧ ¬ cmd.sync :=
    ⟨_, rfl, Bool.false_ne_true⟩
  obtain ⟨s, hs, hidle, hpc, haccepted, hhandled, -⟩ := enqueue_run hcmd
  obtain ⟨s', hs', hreturned, hqueue, -, -, hhandled'⟩ :=
    finish_run hs (fun _ => ⟨trivial, trivial⟩) hidle hpc trivial
  obtain ⟨c, r, hr, -⟩ := hnoneLost s' hs' hreturned 0 0 cmd (by simp [hqueue, haccepted]) hasync
  obtain rfl : c = 0 := Subsingleton.elim _ _
  simp [hhandled', hhandled] at hr

/-! ### No caller is stranded -/

/-- **No caller is stranded** if, whenever the last consumer leaves its loop, no
command of a `Synchronize*` call is left. -/
theorem noneStranded_of_drained (hn : 0 < n)
    (hrun : (service pb n).Run (LastExitDrained fun cmd => cmd.sync) (service pb n).start s) :
    s.NoneStranded := by
  intro hreturned
  have hs := Runs.Machine.Reachable.of_run hrun
  have hexited := exited_of_finishReturned hs hreturned
  have hdisposed : ∀ t id cmd, (t, id, cmd) ∈ s.queue.accepted → cmd.sync → s.Disposed id := by
    intro t id cmd haccepted hsync
    obtain ⟨c, hfinished⟩ := finished_of_drained hs (drained hn hrun hexited)
      hexited haccepted hsync
    refine ⟨c, ?_⟩
    rw [(progress hs c).disposed]
    exact List.mem_map.mpr ⟨_, List.mem_filter.mpr ⟨hfinished, hsync⟩, rfl⟩
  refine ⟨fun t id hwaiting => ?_, hdisposed⟩
  obtain ⟨cmd, haccepted, hsync, hiff, -⟩ := (waits hs).waiting t id hwaiting
  exact hiff.mpr (hdisposed t id cmd haccepted hsync)

/-- The consumer saves the account for thread 0 before the service is shut down. -/
theorem noneStranded_save : ∃ s : State 1 Text, s.FinishReturned ∧ ∃ cmd,
    saveSync.cmd .plain 0 = .ok cmd ∧ s.queue.accepted = [(0, 0, cmd)] ∧ s.Disposed 0 := by
  obtain ⟨cmd, hcmd, hsync, hcb, hentity⟩ : ∃ cmd, saveSync.cmd .plain 0 = .ok cmd
      ∧ cmd.sync ∧ cmd.respondCb = none ∧ (cmd.entity .plain).isSome := ⟨_, rfl, rfl, rfl, rfl⟩
  obtain ⟨s, hrun, hidle, hpc, haccepted, hdrained⟩ := save_run hcmd hcb hentity fun cmd => cmd.sync
  obtain ⟨s', hrun', hreturned, hqueue, -⟩ := finish_run hrun
    (fun _ => ⟨lastExitDrained_of_ne (by simp), lastExitDrained_of_ne (by simp)⟩) hidle hpc
    fun _ _ _ _ => hdrained
  rw [← hqueue] at haccepted
  exact ⟨s', hreturned, cmd, hcmd, haccepted,
    (noneStranded_of_drained Nat.one_pos hrun' hreturned).2 0 0 cmd (by simp [haccepted]) hsync⟩

/-- **A thread that waited before the shutdown waits for ever.** -/
theorem caller_stranded : consumerNum 1 = 1 ∧ ¬ ∀ s : State 1 Text,
    (service .plain 1).Reachable s → s.NoneStranded := by
  refine ⟨rfl, fun hnoneStranded => ?_⟩
  obtain ⟨cmd, hcmd, hsync⟩ : ∃ cmd, saveSync.cmd .plain 0 = .ok cmd ∧ cmd.sync := ⟨_, rfl, rfl⟩
  obtain ⟨s, hs, hidle, hpc, -, -, hwaiting⟩ := enqueue_run hcmd
  obtain ⟨s', hs', hreturned, -, hcaller, hpromise, -⟩ :=
    finish_run hs (fun _ => ⟨trivial, trivial⟩) hidle hpc trivial
  have hset := (hnoneStranded s' hs' hreturned).1 0 0 (by rw [hcaller]; exact (hwaiting hsync).1)
  simp [hpromise, (hwaiting hsync).2] at hset

end PbEntityDb.Service
