import PbEntityDb.Service.Shutdown

/-!
Whether a shutdown can stop a consumer that tries again and again.

The loops of `CProtobufDbStub` test whether the engine is open, and only the
consumer itself closes it, behind its own loop. So the guard of a loop says
nothing about `_done`; nor does the loop of `Protobuf2DbEngine::Open` in front of
them, which waits for a connection.

* `handling_forever`: a consumer whose statement the database rejects for ever
  stays in its loop, and `opening_forever`: one that gets no connection in that of
  `Open`, whatever the other threads do.
* `join_of_no_work`: when no consumer waits for the database, the thread in
  `Finish` can join them all.
* `stoppable_of_no_work`: in a run in which `Finish` is called while no consumer
  waits for the database, and none gets a statement afterwards, the guards hold no
  more once `_done` is set; `retry_not_stopped`: in other runs they do.
-/

namespace PbEntityDb.Service

open Function (update)

variable {Msg : Type} {pb : Protobuf Msg} {n : ℕ} {s s' : State n Msg}

/-- `_pb2dbEngine->IsOpened()` of the stub of a consumer: `Run` opens it in front of
its loop and closes it behind it. -/
def Pc.engineOpened : Pc Msg → Bool
  | opening | exited => false
  | test | dequeue | found _ _ | handling _ _ _ | respond _ _ _ | posting _ _ _ _ | pushing _ _ _ _
  | dispose _ _ => true

/-- The consumer is in the loop of a function of its stub, and the guard of the loop
holds once more. -/
def Consumer.Retries (w : Consumer Msg) : Prop :=
  ∃ id cmd r, w.pc = .handling id cmd r ∧ w.pc.engineOpened = true

/-- The consumer needs the database before it can leave: it has no connection yet, or has the
execution of a statement before it. -/
def Pc.HasWork (pb : Protobuf Msg) : Pc Msg → Prop
  | found _ cmd => (cmd.entity pb).isSome = true
  | opening | handling _ _ _ => True
  | test | dequeue | respond _ _ _ | posting _ _ _ _ | pushing _ _ _ _ | dispose _ _ | exited =>
      False

/-- The database rejects every statement and refuses every connection. -/
def Rejecting (_ : State n Msg) (a : Act n Msg) : Prop :=
  (∀ c r, a ≠ .attempt c .succeeded r) ∧ ∀ c, a ≠ .opened c

/-- The shutdown stops the consumers: their loops are not guarded to go on, and `Finish`
can join them, also if the database rejects every statement and refuses every connection. -/
structure State.Stoppable (pb : Protobuf Msg) (s : State n Msg) : Prop where
  guard : s.done = true → ∀ c, ¬ (s.consumer c).Retries
  join : s.done = true → ∃ s', (service pb n).Run Rejecting s s' ∧ s'.FinishReturned

/-- `Finish` is called while no consumer waits for the database, and afterwards none takes a
statement from the queue. -/
def NoWorkAtShutdown (pb : Protobuf Msg) (s : State n Msg) (a : Act n Msg) : Prop :=
  (a = .shutdown → ∀ c, ¬ (s.consumer c).pc.HasWork pb)
    ∧ ∀ c t id cmd rest, a = .take c t → s.done = true → s.queue.queued t = (id, cmd) :: rest →
      cmd.entity pb = none

/-! ### A database that rejects for ever -/

/-- A step of another consumer, or one that keeps the consumer where it is. -/
lemma keeps_set {c : Fin n} {P : Pc Msg → Prop} (h : P (s.consumer c).pc) {c' : Fin n}
    {w : Consumer Msg} (hw : c' = c → P w.pc) : P ((s.set c' w).consumer c).pc := by
  rcases eq_or_ne c c' with rfl | hc
  · simpa using hw rfl
  · rwa [State.set_consumer_of_ne hc]

/-- **The loop goes on for ever** if the database rejects the statement for ever. -/
theorem handling_forever {c : Fin n} {id : ℕ} {cmd : Cmd Msg} {r : Response}
    (hpc : (s.consumer c).pc = .handling id cmd r)
    (hrun : (service pb n).Run Rejecting s s') :
    ∃ r', (s'.consumer c).pc = .handling id cmd r' := by
  refine hrun.keeps ⟨r, hpc⟩ fun s a s' h hok hstep => ?_
  obtain ⟨r, hpc⟩ := h
  have hset := @keeps_set Msg n s c (fun pc => ∃ r', pc = .handling id cmd r') ⟨r, hpc⟩
  cases hstep with
  | opened hpc' | test hpc' | timeout hpc' | take hpc' hhead | respondNone hpc' hcb
  | respondAssign hpc' hcb | respondPost hpc' hcb | pushFailed hpc' | push hpc'
  | disposeNone hpc' hcb | dispose hpc' hcb | handle hpc' hentity | skip hpc' hentity
  | post hpc' =>
      refine hset fun hc => ?_
      rw [hc, hpc] at hpc'
      cases hpc'
  | @failed c' id' cmd' r₁ r₂ hpc' | @lost c' id' cmd' r₁ r₂ hpc' =>
      refine hset fun hc => ?_
      rw [hc, hpc] at hpc'
      cases hpc'
      exact ⟨r₂, rfl⟩
  | @succeeded c' id' cmd' r₁ r₂ hpc' => exact absurd rfl (hok.1 c' r₂)
  | _ => exact ⟨r, hpc⟩

/-- **`Open` goes on for ever** if the database refuses the connection for ever. -/
theorem opening_forever {c : Fin n} (hpc : (s.consumer c).pc = .opening)
    (hrun : (service pb n).Run Rejecting s s') :
    (s'.consumer c).pc = .opening := by
  refine hrun.keeps hpc fun s a s' hpc hok hstep => ?_
  have hset := @keeps_set Msg n s c (fun pc => pc = .opening) hpc
  cases hstep with
  | @opened c' hpc' => exact absurd rfl (hok.2 c')
  | test hpc' | timeout hpc' | take hpc' hhead | respondNone hpc' hcb
  | respondAssign hpc' hcb | respondPost hpc' hcb | pushFailed hpc' | push hpc'
  | disposeNone hpc' hcb | dispose hpc' hcb | handle hpc' hentity | skip hpc' hentity
  | post hpc' | failed hpc' | lost hpc' | succeeded hpc' =>
      refine hset fun hc => ?_
      rw [hc, hpc] at hpc'
      cases hpc'
  | _ => exact hpc

/-! ### Consumers that leave -/

/-- A run in which consumer `c` leaves its loop and no other one moves. -/
structure Left (pb : Protobuf Msg) (c : Fin n) (s s' : State n Msg) : Prop where
  run : (service pb n).Run Rejecting s s'
  exited : (s'.consumer c).pc = .exited
  others : ∀ c', c' ≠ c → s'.consumer c' = s.consumer c'
  shutdown : s'.shutdown = s.shutdown
  done : s'.done = s.done

namespace Left

variable {c : Fin n}

/-- A step of the consumer in front of such a run. -/
lemma cons {a : Act n Msg} {w : Consumer Msg} {s₁ : State n Msg} (hok : Rejecting s a)
    (hstep : Step pb s a s₁) (hconsumer : s₁.consumer = (s.set c w).consumer)
    (hshutdown : s₁.shutdown = s.shutdown) (hdone : s₁.done = s.done) (h : Left pb c s₁ s') :
    Left pb c s s' where
  run := ((Runs.Machine.Run.nil s).snoc a hok hstep).append h.run
  exited := h.exited
  others := fun c' hc => by
    rw [h.others c' hc, hconsumer, State.set_consumer_of_ne hc]
  shutdown := h.shutdown.trans hshutdown
  done := h.done.trans hdone

variable (hdone : s.done = true)

include hdone

lemma of_test (hpc : (s.consumer c).pc = .test) : ∃ s', Left pb c s s' := by
  refine ⟨_, (Runs.Machine.Run.nil s).snoc (.test c) (by simp [Rejecting]) (.test hpc), ?_, ?_,
    rfl, rfl⟩
  · simp [hdone]
  · exact fun c' hc => State.set_consumer_of_ne hc _

/-- Whoever can reach the test leaves. -/
lemma of_step {a : Act n Msg} {w : Consumer Msg} {s₁ : State n Msg} (hok : Rejecting s a)
    (hstep : Step pb s a s₁) (hconsumer : s₁.consumer = (s.set c w).consumer)
    (hshutdown : s₁.shutdown = s.shutdown) (hdone' : s₁.done = s.done)
    (h : s₁.done = true → (s₁.consumer c).pc = w.pc → ∃ s', Left pb c s₁ s') :
    ∃ s', Left pb c s s' := by
  obtain ⟨s', hleft⟩ := h (hdone'.trans hdone) (by rw [hconsumer, State.set_consumer_self])
  exact ⟨s', cons hok hstep hconsumer hshutdown hdone' hleft⟩

lemma of_dispose {id : ℕ} {cmd : Cmd Msg} (hpc : (s.consumer c).pc = .dispose id cmd) :
    ∃ s', Left pb c s s' := by
  cases hcb : cmd.disposeCb with
  | none =>
      exact of_step hdone (by simp [Rejecting]) (.disposeNone hpc hcb) rfl rfl rfl
        fun hdone hpc => of_test hdone hpc
  | some t =>
      exact of_step hdone (by simp [Rejecting]) (.dispose hpc hcb) rfl rfl rfl
        fun hdone hpc => of_test hdone hpc

lemma of_pushing {id : ℕ} {cmd : Cmd Msg} {onResponse : Callback} {r : Response}
    (hpc : (s.consumer c).pc = .pushing id cmd onResponse r) : ∃ s', Left pb c s s' :=
  of_step hdone (by simp [Rejecting]) (.pushFailed hpc) rfl rfl rfl
    fun hdone hpc => of_dispose hdone hpc

lemma of_posting {id : ℕ} {cmd : Cmd Msg} {onResponse : Callback} {r : Response}
    (hpc : (s.consumer c).pc = .posting id cmd onResponse r) : ∃ s', Left pb c s s' := by
  refine of_step hdone (by simp [Rejecting]) (.post hpc) rfl rfl rfl fun hdone hpc => ?_
  cases hclose : s.close with
  | true =>
      simp only [hclose, if_true] at hpc
      exact of_dispose hdone hpc
  | false =>
      simp only [hclose, Bool.false_eq_true, if_false] at hpc
      exact of_pushing hdone hpc

lemma of_respond {id : ℕ} {cmd : Cmd Msg} {r : Response}
    (hpc : (s.consumer c).pc = .respond id cmd r) : ∃ s', Left pb c s s' := by
  cases hcb : cmd.respondCb with
  | none =>
      exact of_step hdone (by simp [Rejecting]) (.respondNone hpc (.inl hcb)) rfl rfl rfl
        fun hdone hpc => of_dispose hdone hpc
  | some cb =>
      cases cb with
      | assign t =>
          exact of_step hdone (by simp [Rejecting]) (.respondAssign hpc hcb) rfl rfl rfl
            fun hdone hpc => of_dispose hdone hpc
      | post onResponse =>
          cases onResponse with
          | none =>
              exact of_step hdone (by simp [Rejecting]) (.respondNone hpc (.inr hcb)) rfl rfl rfl
                fun hdone hpc => of_dispose hdone hpc
          | some onResponse =>
              exact of_step hdone (by simp [Rejecting]) (.respondPost hpc hcb) rfl rfl rfl
                fun hdone hpc => of_posting hdone hpc

/-- **A consumer that does not wait for the database can leave.** -/
theorem of_no_work (hwork : ¬ (s.consumer c).pc.HasWork pb) : ∃ s', Left pb c s s' := by
  cases hpc : (s.consumer c).pc with
  | opening => exact absurd (by rw [hpc, Pc.HasWork]; trivial) hwork
  | test => exact of_test hdone hpc
  | dequeue =>
      exact of_step hdone (by simp [Rejecting]) (.timeout hpc) rfl rfl rfl
        fun hdone hpc => of_test hdone hpc
  | found id cmd =>
      have hentity : cmd.entity pb = none := by
        rw [hpc, Pc.HasWork] at hwork
        simpa using hwork
      exact of_step hdone (by simp [Rejecting]) (.skip hpc hentity) rfl rfl rfl
        fun hdone hpc => of_respond hdone hpc
  | handling id cmd r => exact absurd (by rw [hpc, Pc.HasWork]; trivial) hwork
  | respond id cmd r => exact of_respond hdone hpc
  | posting id cmd onResponse r => exact of_posting hdone hpc
  | pushing id cmd onResponse r => exact of_pushing hdone hpc
  | dispose id cmd => exact of_dispose hdone hpc
  | exited => exact ⟨s, .nil s, hpc, fun _ _ => rfl, rfl, rfl⟩

end Left

/-- `_done` is set by `Finish` only. -/
lemma shutdown_of_done (hs : (service pb n).Reachable s) : s.done = true → s.shutdown ≠ .idle := by
  refine hs.invariant (by simp [service, State.init]) fun s a s' _ h hstep => ?_
  cases hstep with
  | shutdown hidle => exact fun _ => by simp
  | join hfinishing hexited => exact fun _ => by simp
  | close hjoined => exact fun _ => by simp
  | _ => exact h

/-- All consumers of a list leave, one after the other. -/
lemma all_left (hdone : s.done = true) (hwork : ∀ c, ¬ (s.consumer c).pc.HasWork pb)
    (cs : List (Fin n)) :
    ∃ s', (service pb n).Run Rejecting s s' ∧ (∀ c ∈ cs, (s'.consumer c).pc = .exited)
      ∧ (∀ c, ¬ (s'.consumer c).pc.HasWork pb) ∧ s'.shutdown = s.shutdown
      ∧ s'.done = true := by
  induction cs with
  | nil => exact ⟨s, .nil s, by simp, hwork, rfl, hdone⟩
  | cons c cs ih =>
      obtain ⟨s₁, hrun, hexited, hwork₁, hshutdown, hdone₁⟩ := ih
      obtain ⟨s₂, hleft⟩ := Left.of_no_work hdone₁ (hwork₁ c)
      have hother : ∀ c', c' = c ∨ s₂.consumer c' = s₁.consumer c' := by
        intro c'
        rcases eq_or_ne c' c with hc | hc
        · exact .inl hc
        · exact .inr (hleft.others c' hc)
      refine ⟨s₂, hrun.append hleft.run, ?_, ?_, hleft.shutdown.trans hshutdown,
        hleft.done.trans hdone₁⟩
      · intro c' hc'
        rcases hother c' with rfl | hsame
        · exact hleft.exited
        · rcases List.mem_cons.mp hc' with rfl | hc'
          · exact hleft.exited
          · rw [hsame]
            exact hexited c' hc'
      · intro c'
        rcases hother c' with rfl | hsame
        · rw [hleft.exited, Pc.HasWork]
          exact not_false
        · rw [hsame]
          exact hwork₁ c'

/-- **`Finish` can join the consumers** when none of them waits for the database, also if that
rejects every statement and refuses every connection. -/
theorem join_of_no_work (hs : (service pb n).Reachable s) (hdone : s.done = true)
    (hwork : ∀ c, ¬ (s.consumer c).pc.HasWork pb) :
    ∃ s', (service pb n).Run Rejecting s s' ∧ s'.FinishReturned := by
  cases hshutdown : s.shutdown with
  | idle => exact absurd hshutdown (shutdown_of_done hs hdone)
  | finishing =>
      obtain ⟨s', hrun, hexited, -, hshutdown', -⟩ := all_left hdone hwork (List.finRange n)
      refine ⟨_, hrun.snoc .join (by simp [Rejecting]) (.join (hshutdown'.trans hshutdown) ?_),
        .inl rfl⟩
      exact fun c => hexited c (List.mem_finRange c)
  | joined => exact ⟨s, .nil s, .inl hshutdown⟩
  | closed => exact ⟨s, .nil s, .inr hshutdown⟩

/-! ### Runs without work at the shutdown -/

/-- In such a run no consumer waits for the database once `_done` is set. -/
lemma no_work_of_done
    (hrun : (service pb n).Run (NoWorkAtShutdown pb) (service pb n).start s) :
    s.done = true → ∀ c, ¬ (s.consumer c).pc.HasWork pb := by
  refine hrun.invariant .refl (by simp [service, State.init]) fun s a s' _ h hok hstep => ?_
  have hset : ∀ {c : Fin n} {w : Consumer Msg}, (s.done = true → ¬ w.pc.HasWork pb) →
      s.done = true → ∀ c', ¬ ((s.set c w).consumer c').pc.HasWork pb :=
    fun {c w} hw hdone =>
      State.forall_set (motive := fun _ w => ¬ w.pc.HasWork pb) (h hdone) (hw hdone)
  cases hstep with
  | opened hpc | timeout hpc | succeeded hpc | respondNone hpc hcb | respondAssign hpc hcb
  | respondPost hpc hcb | pushFailed hpc | push hpc | disposeNone hpc hcb | dispose hpc hcb
  | skip hpc hentity => exact hset fun _ => by simp [Pc.HasWork]
  | test hpc => exact hset fun hdone => by simp [hdone, Pc.HasWork]
  | post hpc => exact hset fun _ => by split <;> simp [Pc.HasWork]
  | @take c t id cmd rest hpc hhead =>
      exact hset fun hdone => by simp [Pc.HasWork, hok.2 c t id cmd rest rfl hdone hhead]
  | @handle c id cmd hpc hentity =>
      exact hset fun hdone => absurd (by rw [hpc]; exact hentity) (h hdone c)
  | @failed c id cmd r r' hpc | @lost c id cmd r r' hpc =>
      exact hset fun hdone => absurd (by rw [hpc]; trivial) (h hdone c)
  | shutdown hidle => exact fun _ => hok.1 rfl
  | _ => exact h

/-- **A shutdown stops the consumers** in every run in which `Finish` is called while no
consumer waits for the database, and none takes a statement from the queue afterwards. -/
theorem stoppable_of_no_work
    (hrun : (service pb n).Run (NoWorkAtShutdown pb) (service pb n).start s) : s.Stoppable pb where
  guard := by
    rintro hdone c ⟨id, cmd, r, hpc, -⟩
    refine no_work_of_done hrun hdone c ?_
    rw [hpc, Pc.HasWork]
    trivial
  join := fun hdone =>
    join_of_no_work (.of_run hrun) hdone (no_work_of_done hrun hdone)

/-- A service that is shut down with its consumer between two commands. -/
theorem stoppable_idle : ∃ s : State 1 Text, (service .plain 1).Reachable s ∧ s.done = true
    ∧ s.Stoppable .plain := by
  have hstart : (service .plain 1).Run (NoWorkAtShutdown .plain) (State.init 1 Text)
      (State.init 1 Text) := .nil _
  have hrun := (hstart.snoc (.opened 0) ⟨by simp, by simp⟩ (.opened rfl)).snoc .shutdown
    ⟨fun _ c => ?_, by simp⟩ (.shutdown rfl)
  · exact ⟨_, .of_run hrun, rfl, stoppable_of_no_work hrun⟩
  · obtain rfl : c = 0 := Subsingleton.elim _ _
    simp [Pc.HasWork]

/-- The consumer has begun to save an account when the service is shut down. -/
lemma handling_run : ∃ s : State 1 Text,
    (service .plain 1).Reachable s ∧ s.done = true
      ∧ ∃ id cmd r, (s.consumer 0).pc = .handling id cmd r := by
  obtain ⟨cmd, hcmd, hentity⟩ : ∃ cmd, saveAsync.cmd .plain 0 = .ok cmd
      ∧ (cmd.entity .plain).isSome := ⟨_, rfl, rfl⟩
  obtain ⟨s, htaken, hidle, -, hpc, -⟩ := take_run hcmd fun _ _ _ _ => trivial
  have hreach : (service .plain 1).Reachable s := htaken
  have hhandling := hreach.snoc (.handle 0) (.handle hpc hentity)
  exact ⟨_, hhandling.snoc .shutdown (.shutdown hidle), rfl, _, _, _, rfl⟩

/-- **A consumer is not stopped** that was in its loop when the service was shut down,
if the database rejects its statement for ever. -/
theorem retry_not_stopped : consumerNum 1 = 1 ∧ ∃ s : State 1 Text,
    (service .plain 1).Reachable s ∧ s.done = true ∧ (s.consumer 0).Retries
      ∧ (∀ s', (service .plain 1).Run Rejecting s s' → ¬ s'.FinishReturned)
      ∧ ¬ s.Stoppable .plain := by
  obtain ⟨s, hreach, hdone, id, cmd, r, hpc⟩ := handling_run
  have hforever : ∀ s', (service .plain 1).Run Rejecting s s' → ¬ s'.FinishReturned := by
    intro s' hrun' hreturned
    obtain ⟨r', hpc'⟩ := handling_forever hpc hrun'
    have hexited := exited_of_finishReturned (hreach.run hrun') hreturned 0
    rw [hpc'] at hexited
    cases hexited
  refine ⟨rfl, s, hreach, hdone, ⟨id, cmd, r, hpc, by rw [hpc]; rfl⟩, hforever,
    fun hstop => ?_⟩
  obtain ⟨s', hrun', hreturned⟩ := hstop.join hdone
  exact hforever s' hrun' hreturned

end PbEntityDb.Service
