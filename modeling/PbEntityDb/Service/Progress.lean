import PbEntityDb.Service.Machine

/-!
What one consumer has done with the commands it got.

* `Consumer.Progress`: a consumer works on one command at a time, in the order
  in which it got them. `progress` says so of all reachable states.
* `Consumer.Sound`: the response of a handler is the one of its own statement,
  and what is put into the trunk queue is bound to it. `sound` says so of all
  reachable states.
-/

namespace PbEntityDb.Service

open HandOff (fiber)
open Function (update)

variable {Msg : Type} {pb : Protobuf Msg} {n : ℕ} {s s' : State n Msg}

/-! ### The state of one consumer after a step -/

namespace State

@[simp]
lemma set_consumer_self (c : Fin n) (w : Consumer Msg) : (s.set c w).consumer c = w := by
  simp [set]

lemma set_consumer_of_ne {c c' : Fin n} (h : c' ≠ c) (w : Consumer Msg) :
    (s.set c w).consumer c' = s.consumer c' := by
  simp [set, h]

@[simp] lemma set_caller (c : Fin n) (w : Consumer Msg) : (s.set c w).caller = s.caller := rfl

@[simp] lemma set_promise (c : Fin n) (w : Consumer Msg) : (s.set c w).promise = s.promise := rfl

@[simp] lemma set_result (c : Fin n) (w : Consumer Msg) : (s.set c w).result = s.result := rfl

@[simp] lemma set_queue (c : Fin n) (w : Consumer Msg) : (s.set c w).queue = s.queue := rfl

/-- What all consumers had and the one that moved still has. -/
lemma forall_set {motive : Fin n → Consumer Msg → Prop} (h : ∀ c, motive c (s.consumer c))
    {c : Fin n} {w : Consumer Msg} (hw : motive c w) :
    ∀ c', motive c' ((s.set c w).consumer c') := fun c' => by
  rcases eq_or_ne c' c with rfl | hc
  · simpa using hw
  · simpa [set_consumer_of_ne hc] using h c'

end State

/-! ### One command at a time -/

namespace Pc

/-- The command in the hands of the consumer, once its handler began. -/
def enteredJob : Pc Msg → List (ℕ × Cmd Msg)
  | handling id cmd _ | respond id cmd _ | posting id cmd _ _ | pushing id cmd _ _
  | dispose id cmd => [(id, cmd)]
  | opening | test | dequeue | found _ _ | exited => []

/-- The command in the hands of the consumer, once its handler came back. -/
def handledJob : Pc Msg → List (ℕ × Cmd Msg)
  | posting id cmd _ _ | pushing id cmd _ _ | dispose id cmd => [(id, cmd)]
  | opening | test | dequeue | found _ _ | handling _ _ _ | respond _ _ _ | exited => []

/-- The command in the hands of the consumer, once its response is posted. -/
def postedJob : Pc Msg → List (ℕ × Cmd Msg)
  | dispose id cmd => [(id, cmd)]
  | opening | test | dequeue | found _ _ | handling _ _ _ | respond _ _ _ | posting _ _ _ _
  | pushing _ _ _ _ | exited => []

end Pc

/-- The logs of a consumer list the commands it got, as far as it has come. -/
structure Consumer.Progress (w : Consumer Msg) : Prop where
  taken : w.taken = w.finished ++ w.pc.job
  entered : w.entered = (w.finished ++ w.pc.enteredJob).map Prod.fst
  handled : w.handled.map Prod.fst = (w.finished ++ w.pc.handledJob).map Prod.fst
  posted : List.Sublist (w.posted.map Prod.fst) ((w.finished ++ w.pc.postedJob).map Prod.fst)
  disposed : w.disposed = (w.finished.filter (·.2.sync)).map Prod.fst

namespace Consumer.Progress

variable {w : Consumer Msg} {id : ℕ} {cmd : Cmd Msg} {r : Response}

/-- A move between two points of the loop that have the same logs. -/
lemma goto (h : w.Progress) (pc : Pc Msg) (hjob : pc.job = w.pc.job)
    (hentered : pc.enteredJob = w.pc.enteredJob) (hhandled : pc.handledJob = w.pc.handledJob)
    (hposted : List.Sublist w.pc.postedJob pc.postedJob) :
    Consumer.Progress { w with pc := pc } where
  taken := by simpa [hjob] using h.taken
  entered := by simpa [hentered] using h.entered
  handled := by simpa [hhandled] using h.handled
  posted := h.posted.trans ((hposted.append_left _).map _)
  disposed := h.disposed

lemma take (h : w.Progress) (hpc : w.pc = .dequeue) :
    Consumer.Progress { w with pc := .found id cmd, taken := w.taken ++ [(id, cmd)] } := by
  obtain ⟨ht, he, hh, hp, hd⟩ := h
  rw [hpc] at ht he hh hp
  exact ⟨by simpa [Pc.job] using ht, he, hh, hp, hd⟩

lemma handle (h : w.Progress) (hpc : w.pc = .found id cmd) {pc : Pc Msg}
    (hpc' : ∃ r, pc = .handling id cmd r ∨ pc = .respond id cmd r) :
    Consumer.Progress { w with pc := pc, entered := w.entered ++ [id] } := by
  obtain ⟨ht, he, hh, hp, hd⟩ := h
  rw [hpc] at ht he hh hp
  obtain ⟨r, rfl | rfl⟩ := hpc' <;>
    exact ⟨ht, by simpa [Pc.enteredJob] using he, hh, hp, hd⟩

lemma respond (h : w.Progress) (hpc : w.pc = .respond id cmd r) {pc : Pc Msg}
    (hpc' : pc = .dispose id cmd ∨ ∃ onResponse, pc = .posting id cmd onResponse r) :
    Consumer.Progress { w with pc := pc, handled := w.handled ++ [(id, r)] } := by
  obtain ⟨ht, he, hh, hp, hd⟩ := h
  rw [hpc] at ht he hh hp
  have hhandled :
      (w.handled ++ [(id, r)]).map Prod.fst = (w.finished ++ [(id, cmd)]).map Prod.fst := by
    simpa [Pc.handledJob] using hh
  rcases hpc' with rfl | ⟨onResponse, rfl⟩
  · have hposted := (List.nil_sublist [(id, cmd)]).append_left w.finished
    exact ⟨ht, he, hhandled, hp.trans (hposted.map _), hd⟩
  · exact ⟨ht, he, hhandled, hp, hd⟩

lemma push (h : w.Progress) {onResponse : Callback} (hpc : w.pc = .pushing id cmd onResponse r) :
    Consumer.Progress
      { w with pc := .dispose id cmd, posted := w.posted ++ [(id, onResponse, r)] } := by
  obtain ⟨ht, he, hh, hp, hd⟩ := h
  rw [hpc] at ht he hh hp
  exact ⟨ht, he, hh, by simpa [Pc.postedJob] using hp, hd⟩

lemma dispose (h : w.Progress) (hpc : w.pc = .dispose id cmd) :
    Consumer.Progress
      { w with
        pc := .test, disposed := w.disposed ++ (if cmd.sync then [id] else [])
        finished := w.finished ++ [(id, cmd)] } := by
  obtain ⟨ht, he, hh, hp, hd⟩ := h
  rw [hpc] at ht he hh hp
  refine ⟨by simpa [Pc.job] using ht, by simpa [Pc.enteredJob] using he,
    by simpa [Pc.handledJob] using hh, by simpa [Pc.postedJob] using hp, ?_⟩
  by_cases hsync : cmd.sync <;> simp [hd, hsync]

end Consumer.Progress

/-- **Each consumer works on one command at a time.** -/
theorem progress (hs : (service pb n).Reachable s) : ∀ c, (s.consumer c).Progress := by
  refine hs.invariant (fun c => ?_) fun s a s' _ h hstep => ?_
  · constructor <;> rfl
  cases hstep with
  | opened hpc | timeout hpc | failed hpc | lost hpc | succeeded hpc | pushFailed hpc =>
      exact State.forall_set h ((h _).goto _ (by simp [hpc, Pc.job]) (by simp [hpc, Pc.enteredJob])
        (by simp [hpc, Pc.handledJob]) (by simp [hpc, Pc.postedJob]))
  | test hpc =>
      refine State.forall_set h ((h _).goto _ ?_ ?_ ?_ ?_) <;>
        split <;> simp [hpc, Pc.job, Pc.enteredJob, Pc.handledJob, Pc.postedJob]
  | post hpc =>
      refine State.forall_set h ((h _).goto _ ?_ ?_ ?_ ?_) <;>
        split <;> simp [hpc, Pc.job, Pc.enteredJob, Pc.handledJob, Pc.postedJob]
  | take hpc hhead => exact State.forall_set h ((h _).take hpc)
  | handle hpc hentity => exact State.forall_set h ((h _).handle hpc ⟨_, .inl rfl⟩)
  | skip hpc hentity => exact State.forall_set h ((h _).handle hpc ⟨_, .inr rfl⟩)
  | respondNone hpc hcb | respondAssign hpc hcb =>
      exact State.forall_set h ((h _).respond hpc (.inl rfl))
  | respondPost hpc hcb => exact State.forall_set h ((h _).respond hpc (.inr ⟨_, rfl⟩))
  | push hpc => exact State.forall_set h ((h _).push hpc)
  | disposeNone hpc hcb | dispose hpc hcb =>
      exact State.forall_set h (by simpa [Cmd.sync, hcb] using (h _).dispose hpc)
  | _ => exact h

/-- The command in the hands of a consumer is one that it took. -/
lemma Consumer.Progress.mem_taken {w : Consumer Msg} (h : w.Progress) {x : ℕ × Cmd Msg}
    (hx : x ∈ w.pc.job) : x ∈ w.taken := by
  rw [h.taken]
  exact List.mem_append_right _ hx

/-! ### The response of a command -/

/-- The response comes from an execution of the command, or nothing could be run. -/
def Own (pb : Protobuf Msg) (executed : List (ℕ × Response)) (id : ℕ) (cmd : Cmd Msg)
    (r : Response) : Prop :=
  (id, r) ∈ executed ∨ cmd.entity pb = none ∧ r = cmd.noResponse

/-- Each response is the one of its own command, wherever it has come to. -/
structure Consumer.Sound (pb : Protobuf Msg) (executed : List (ℕ × Response)) (w : Consumer Msg) :
    Prop where
  responding : ∀ id cmd r, w.pc = .respond id cmd r → Own pb executed id cmd r
  handled : ∀ x ∈ w.handled, ∃ cmd, (x.1, cmd) ∈ w.taken ∧ Own pb executed x.1 cmd x.2
  posting : ∀ id cmd onResponse r,
    w.pc = .posting id cmd onResponse r ∨ w.pc = .pushing id cmd onResponse r →
      (id, r) ∈ w.handled ∧ cmd.respondCb = some (.post (some onResponse))
  posted : ∀ x ∈ w.posted, (x.1, x.2.2) ∈ w.handled ∧
    ∃ cmd, (x.1, cmd) ∈ w.taken ∧ cmd.respondCb = some (.post (some x.2.1))

namespace Consumer.Sound

variable {w : Consumer Msg} {executed : List (ℕ × Response)} {id : ℕ} {cmd : Cmd Msg}
  {r : Response} {onResponse : Callback}

lemma mono (h : w.Sound pb executed) {executed' : List (ℕ × Response)}
    (hsub : executed ⊆ executed') : w.Sound pb executed' where
  responding id cmd r hpc := (h.responding id cmd r hpc).imp_left (@hsub _)
  handled x hx := by
    obtain ⟨cmd, htaken, hown⟩ := h.handled x hx
    exact ⟨cmd, htaken, hown.imp_left (@hsub _)⟩
  posting := h.posting
  posted := h.posted

/-- A move to a point of the loop where no response is under way. -/
lemma goto (h : w.Sound pb executed) {pc : Pc Msg} (hrespond : ∀ id cmd r, pc ≠ .respond id cmd r)
    (hpost : ∀ id cmd onResponse r,
      pc ≠ .posting id cmd onResponse r ∧ pc ≠ .pushing id cmd onResponse r) :
    Consumer.Sound pb executed { w with pc := pc } where
  responding id cmd r hpc := absurd hpc (hrespond id cmd r)
  handled := h.handled
  posting id cmd onResponse r hpc := by
    rcases hpc with hpc | hpc
    · exact absurd hpc (hpost id cmd onResponse r).1
    · exact absurd hpc (hpost id cmd onResponse r).2
  posted := h.posted

/-- The function of the stub comes back with a response of its own. -/
lemma answer (h : w.Sound pb executed) (hown : Own pb executed id cmd r) :
    Consumer.Sound pb executed { w with pc := .respond id cmd r } where
  responding id' cmd' r' hpc := by
    cases hpc
    exact hown
  handled := h.handled
  posting := by simp
  posted := h.posted

lemma take (h : w.Sound pb executed) :
    Consumer.Sound pb executed
      { w with pc := .found id cmd, taken := w.taken ++ [(id, cmd)] } where
  responding := by simp
  handled x hx := by
    obtain ⟨cmd', htaken, hown⟩ := h.handled x hx
    exact ⟨cmd', List.mem_append_left _ htaken, hown⟩
  posting := by simp
  posted x hx := by
    obtain ⟨hhandled, cmd', htaken, hcb⟩ := h.posted x hx
    exact ⟨hhandled, cmd', List.mem_append_left _ htaken, hcb⟩

lemma respond (h : w.Sound pb executed) (hprogress : w.Progress)
    (hpc : w.pc = .respond id cmd r) {pc : Pc Msg}
    (hpc' : pc = .dispose id cmd ∨ ∃ onResponse, pc = .posting id cmd onResponse r ∧
      cmd.respondCb = some (.post (some onResponse))) :
    Consumer.Sound pb executed { w with pc := pc, handled := w.handled ++ [(id, r)] } where
  responding := by
    rcases hpc' with rfl | ⟨onResponse, rfl, -⟩ <;> simp
  handled x hx := by
    rcases List.mem_append.mp hx with hx | hx
    · exact h.handled x hx
    · obtain rfl := List.mem_singleton.mp hx
      exact ⟨cmd, hprogress.mem_taken (by simp [hpc, Pc.job]), h.responding id cmd r hpc⟩
  posting id' cmd' onResponse' r' hposting := by
    rcases hpc' with rfl | ⟨onResponse, rfl, hcb⟩
    · simp at hposting
    · rcases hposting with hposting | hposting <;> cases hposting
      exact ⟨List.mem_append_right _ (List.mem_singleton_self _), hcb⟩
  posted x hx := by
    obtain ⟨hhandled, hcmd⟩ := h.posted x hx
    exact ⟨List.mem_append_left _ hhandled, hcmd⟩

lemma post (h : w.Sound pb executed) (hpc : w.pc = .posting id cmd onResponse r) :
    Consumer.Sound pb executed { w with pc := .pushing id cmd onResponse r } where
  responding := by simp
  handled := h.handled
  posting id' cmd' onResponse' r' hpushing := by
    rcases hpushing with hpushing | hpushing <;> cases hpushing
    exact h.posting id cmd onResponse r (.inl hpc)
  posted := h.posted

lemma push (h : w.Sound pb executed) (hprogress : w.Progress)
    (hpc : w.pc = .pushing id cmd onResponse r) :
    Consumer.Sound pb executed
      { w with pc := .dispose id cmd, posted := w.posted ++ [(id, onResponse, r)] } where
  responding := by simp
  handled := h.handled
  posting := by simp
  posted x hx := by
    rcases List.mem_append.mp hx with hx | hx
    · exact h.posted x hx
    · obtain rfl := List.mem_singleton.mp hx
      obtain ⟨hhandled, hcb⟩ := h.posting id cmd onResponse r (.inr hpc)
      exact ⟨hhandled, cmd, hprogress.mem_taken (by simp [hpc, Pc.job]), hcb⟩

/-- The other logs do not matter. -/
lemma logs (h : w.Sound pb executed) (entered disposed : List ℕ) (finished : List (ℕ × Cmd Msg)) :
    Consumer.Sound pb executed
      { w with entered := entered, disposed := disposed, finished := finished } :=
  ⟨h.responding, h.handled, h.posting, h.posted⟩

end Consumer.Sound

/-- **Each response is the one of its own command.** -/
theorem sound (hs : (service pb n).Reachable s) :
    ∀ c, (s.consumer c).Sound pb (fiber c s.executed) := by
  refine hs.invariant (fun c => ?_) fun s a s' hs h hstep => ?_
  · constructor <;> simp [service, State.init]
  have hmono : ∀ (c : Fin n) (x : Fin n × ℕ × Response),
      fiber c s.executed ⊆ fiber c (s.executed ++ [x]) := fun c x => by simp
  cases hstep with
  | opened hpc | timeout hpc | failed hpc | pushFailed hpc =>
      exact State.forall_set h ((h _).goto (by simp) (by simp))
  | test hpc =>
      refine State.forall_set h ((h _).goto ?_ ?_) <;> split <;> simp
  | @post c id cmd onResponse r hpc =>
      refine State.forall_set h ?_
      split
      · exact (h c).goto (by simp) (by simp)
      · exact (h c).post hpc
  | take hpc hhead => exact State.forall_set h (h _).take
  | handle hpc hentity =>
      exact State.forall_set h (((h _).goto (by simp) (by simp)).logs _ _ _)
  | skip hpc hentity =>
      exact State.forall_set h (((h _).answer (.inr ⟨hentity, rfl⟩)).logs _ _ _)
  | lost hpc =>
      exact State.forall_set (fun c => (h c).mono (hmono c _))
        (((h _).mono (hmono _ _)).goto (by simp) (by simp))
  | succeeded hpc =>
      exact State.forall_set (fun c => (h c).mono (hmono c _))
        (((h _).mono (hmono _ _)).answer (.inl (by simp)))
  | respondNone hpc hcb | respondAssign hpc hcb =>
      exact State.forall_set h ((h _).respond (progress hs _) hpc (.inl rfl))
  | respondPost hpc hcb =>
      exact State.forall_set h ((h _).respond (progress hs _) hpc (.inr ⟨_, rfl, hcb⟩))
  | push hpc => exact State.forall_set h ((h _).push (progress hs _) hpc)
  | disposeNone hpc hcb | dispose hpc hcb =>
      exact State.forall_set h (((h _).goto (by simp) (by simp)).logs _ _ _)
  | _ => exact h

end PbEntityDb.Service
