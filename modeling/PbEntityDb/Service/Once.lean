import PbEntityDb.Service.Progress

/-!
Where a command is.

* `queued`: the queue hands the commands of each thread on in the order of their
  numbers, and the consumers have got what was taken from it.
* `taken_unique`: no two consumers get the same command, and none gets it twice.
* `place`: **a command that was accepted is in exactly one place**: in the
  queue, in the hands of one consumer, or finished.
-/

namespace PbEntityDb.Service

open HandOff (fiber)
open Function (update)

variable {Msg : Type} {pb : Protobuf Msg} {n : ℕ} {s s' : State n Msg}

/-- The queue of commands, what goes into it and what came out of it. -/
structure State.Queued (pb : Protobuf Msg) (s : State n Msg) : Prop where
  fifo : s.queue.Fifo
  /-- the number of a command is its place in the log -/
  ids : s.queue.accepted.map (·.2.1) = List.range s.queue.accepted.length
  checked : ∀ t cmd, s.caller t = .checked cmd → ∃ call : Call Msg, call.cmd pb t = .ok cmd
  built : ∀ x ∈ s.queue.accepted, ∃ call : Call Msg, call.cmd pb x.1 = .ok x.2.2
  taken : ∀ c, (s.consumer c).taken = (fiber c s.queue.taken).map Prod.snd

namespace State.Queued

/-- A step that neither puts into the queue nor takes from it. -/
lemma goOn (h : s.Queued pb) (hqueue : s'.queue = s.queue)
    (htaken : ∀ c, (s'.consumer c).taken = (s.consumer c).taken)
    (hchecked : ∀ t cmd, s'.caller t = .checked cmd → ∃ call : Call Msg, call.cmd pb t = .ok cmd) :
    s'.Queued pb where
  fifo := hqueue ▸ h.fifo
  ids := hqueue ▸ h.ids
  checked := hchecked
  built := hqueue ▸ h.built
  taken c := by rw [htaken, hqueue, h.taken]

/-- A thread that stands behind its check has built a command. -/
lemma checked_update (h : s.Queued pb) {t : Thread} {x : Caller Msg}
    (hx : ∀ cmd, x = .checked cmd → ∃ call : Call Msg, call.cmd pb t = .ok cmd) (t' : Thread)
    (cmd : Cmd Msg) (hchecked : update s.caller t x t' = .checked cmd) :
    ∃ call : Call Msg, call.cmd pb t' = .ok cmd := by
  rcases eq_or_ne t' t with rfl | ht
  · exact hx cmd (by simpa using hchecked)
  · exact h.checked t' cmd (by simpa [ht] using hchecked)

lemma put (h : s.Queued pb) {t : Thread} {cmd : Cmd Msg} (hchecked : s.caller t = .checked cmd) :
    State.Queued pb
      { s with
        caller := update s.caller t
          (if cmd.sync then .waiting s.queue.accepted.length else .idle)
        queue := s.queue.put t (s.queue.accepted.length, cmd) } where
  fifo := h.fifo.put t _
  ids := by simp [h.ids, List.range_succ]
  checked := h.checked_update fun cmd' hcmd' => by split at hcmd' <;> cases hcmd'
  built x hx := by
    rcases List.mem_append.mp hx with hx | hx
    · exact h.built x hx
    · obtain rfl := List.mem_singleton.mp hx
      exact h.checked t cmd hchecked
  taken := h.taken

lemma take (h : s.Queued pb) {c : Fin n} {t : Thread} {id : ℕ} {cmd : Cmd Msg}
    {rest : List (ℕ × Cmd Msg)} (hhead : s.queue.queued t = (id, cmd) :: rest) :
    State.Queued pb
      { s.set c { s.consumer c with
          pc := .found id cmd, taken := (s.consumer c).taken ++ [(id, cmd)] } with
        queue := s.queue.take c t (id, cmd) rest } where
  fifo := h.fifo.take hhead
  ids := h.ids
  checked := h.checked
  built := h.built
  taken c' := by
    rcases eq_or_ne c' c with rfl | hc
    · simp [State.set, h.taken]
    · simp [State.set, hc, h.taken, HandOff.fiber_single_of_ne hc.symm]

end State.Queued

/-- **The queue hands on what was put into it.** -/
theorem queued (hs : (service pb n).Reachable s) : s.Queued pb := by
  refine hs.invariant ⟨?_, rfl, ?_, ?_, fun c => rfl⟩ fun s a s' _ h hstep => ?_
  · exact HandOff.Queue.fifo_empty
  · simp [service, State.init]
  · simp [service, State.init, HandOff.Queue.empty]
  have hset : ∀ {c : Fin n} {w : Consumer Msg}, w.taken = (s.consumer c).taken →
      ∀ c', ((s.set c w).consumer c').taken = (s.consumer c').taken := fun {c} _ hw =>
    State.forall_set (motive := fun c w => w.taken = (s.consumer c).taken) (fun _ => rfl) hw
  cases hstep with
  | @check t call cmd hidle hdone hcmd =>
      refine h.goOn rfl (fun c => rfl) (h.checked_update fun cmd' hcmd' => ?_)
      cases hcmd'
      exact ⟨call, hcmd⟩
  | enqueueFailed hchecked => exact h.goOn rfl (fun c => rfl) (h.checked_update (by simp))
  | wake hwaiting hpromise => exact h.goOn rfl (fun c => rfl) (h.checked_update (by simp))
  | enqueue hchecked => exact h.put hchecked
  | take hpc hhead => exact h.take hhead
  | opened hpc | test hpc | timeout hpc | handle hpc hentity | skip hpc hentity | failed hpc
  | lost hpc | succeeded hpc | respondNone hpc hcb | respondAssign hpc hcb | respondPost hpc hcb
  | post hpc | pushFailed hpc | push hpc | disposeNone hpc hcb | dispose hpc hcb =>
      exact h.goOn rfl (hset rfl) h.checked
  | _ => exact h.goOn rfl (fun c => rfl) h.checked

/-! ### Nobody gets a command twice -/

/-- The commands that were put into the queue have different numbers. -/
lemma State.Queued.distinct (h : s.Queued pb) : s.queue.Distinct Prod.fst := by
  rw [HandOff.Queue.Distinct, h.ids]
  exact List.nodup_range

/-- What a consumer took was put into the queue. -/
lemma State.Queued.mem_accepted (h : s.Queued pb) {c : Fin n} {x : ℕ × Cmd Msg}
    (hx : x ∈ (s.consumer c).taken) :
    ∃ t, (t, x) ∈ s.queue.accepted ∧ (c, t, x) ∈ s.queue.taken := by
  rw [h.taken] at hx
  obtain ⟨⟨t, x⟩, hmem, rfl⟩ := List.mem_map.mp hx
  have htaken := HandOff.mem_fiber.mp hmem
  exact ⟨t, h.fifo.mem_accepted.mpr (.inl ⟨c, htaken⟩), htaken⟩

/-- The numbers of the commands that were taken, with the consumers that took them. -/
def State.takenIds (s : State n Msg) : List (Fin n × ℕ) :=
  s.queue.taken.map fun x => (x.1, x.2.2.1)

lemma State.Queued.fiber_takenIds (h : s.Queued pb) (c : Fin n) :
    fiber c s.takenIds = (s.consumer c).taken.map Prod.fst := by
  rw [State.takenIds, HandOff.fiber_map c (fun x : Thread × ℕ × Cmd Msg => x.2.1), h.taken]
  simp [Function.comp_def]

lemma State.Queued.nodup_takenIds (h : s.Queued pb) : (s.takenIds.map Prod.snd).Nodup := by
  simpa [State.takenIds, Function.comp_def] using HandOff.Queue.nodup_taken h.fifo h.distinct

/-- Every number is in the log of one consumer at most, and there only once. -/
def AtMostOnce (log : Fin n → List ℕ) : Prop :=
  (∀ c, (log c).Nodup) ∧ ∀ c c' id, id ∈ log c → id ∈ log c' → c = c'

/-- **Nothing that happens to the commands of a consumer in turn happens twice.** -/
theorem atMostOnce_of_sublist (h : s.Queued pb) {log : Fin n → List ℕ}
    (hlog : ∀ c, List.Sublist (log c) ((s.consumer c).taken.map Prod.fst)) : AtMostOnce log := by
  refine ⟨fun c => ?_, fun c c' id hc hc' => ?_⟩
  · have hnodup := HandOff.nodup_fiber h.nodup_takenIds c
    rw [h.fiber_takenIds] at hnodup
    exact hnodup.sublist (hlog c)
  · have hmem : ∀ {c : Fin n}, id ∈ log c → (c, id) ∈ s.takenIds := fun {c} hid =>
      HandOff.mem_fiber.mp (h.fiber_takenIds c ▸ (hlog c).subset hid)
    exact HandOff.owner_unique h.nodup_takenIds (hmem hc) (hmem hc')

lemma State.Queued.nodup_taken (h : s.Queued pb) (c : Fin n) :
    ((s.consumer c).taken.map Prod.fst).Nodup :=
  (atMostOnce_of_sublist h fun c => List.Sublist.refl ((s.consumer c).taken.map Prod.fst)).1 c

/-- The queue holds no command twice. -/
lemma State.Queued.nodup_queued (h : s.Queued pb) (t : Thread) :
    ((s.queue.queued t).map Prod.fst).Nodup := by
  have hnodup := HandOff.Queue.nodup_fiber_accepted h.distinct t
  rw [h.fifo t, List.map_append] at hnodup
  exact hnodup.of_append_right

/-- Two consumers that took a command of the same number are the same. -/
lemma State.Queued.taken_unique (h : s.Queued pb) {c c' : Fin n} {id : ℕ} {cmd cmd' : Cmd Msg}
    (hc : (id, cmd) ∈ (s.consumer c).taken) (hc' : (id, cmd') ∈ (s.consumer c').taken) :
    c = c' ∧ cmd = cmd' := by
  have honce := atMostOnce_of_sublist h fun c => List.Sublist.refl _
  obtain rfl := honce.2 c c' id (List.mem_map_of_mem hc) (List.mem_map_of_mem hc')
  exact ⟨rfl, congrArg Prod.snd (List.inj_on_of_nodup_map (h.nodup_taken c) hc hc' rfl)⟩

/-! ### The place of a command -/

/-- Where a command can be. -/
inductive Place (n : ℕ) where
  | queued (t : Thread)
  | processed (c : Fin n)
  | finished (c : Fin n)

/-- The command with this number is at that place. -/
def State.At (s : State n Msg) (id : ℕ) : Place n → Prop
  | .queued t => ∃ cmd, (id, cmd) ∈ s.queue.queued t
  | .processed c => ∃ cmd, (id, cmd) ∈ (s.consumer c).pc.job
  | .finished c => ∃ cmd, (id, cmd) ∈ (s.consumer c).finished

/-- A consumer has taken what it works on and what it is through with. -/
lemma mem_taken_iff {w : Consumer Msg} (h : w.Progress) {x : ℕ × Cmd Msg} :
    x ∈ w.taken ↔ x ∈ w.finished ∨ x ∈ w.pc.job := by
  rw [h.taken, List.mem_append]

/-- A consumer is not yet through with the command in its hands. -/
lemma not_finished_of_job (h : s.Queued pb) {c : Fin n} (hp : (s.consumer c).Progress) {id : ℕ}
    {cmd cmd' : Cmd Msg} (hjob : (id, cmd) ∈ (s.consumer c).pc.job) :
    (id, cmd') ∉ (s.consumer c).finished := fun hfinished => by
  have hnodup := h.nodup_taken c
  rw [hp.taken, List.map_append] at hnodup
  have hid : id ∈ (s.consumer c).finished.map Prod.fst := List.mem_map.mpr ⟨_, hfinished, rfl⟩
  exact List.disjoint_of_nodup_append hnodup hid (List.mem_map.mpr ⟨_, hjob, rfl⟩)

/-- A command that a consumer took is no longer in the queue. -/
lemma not_queued_of_taken (h : s.Queued pb) {c : Fin n} {t : Thread} {id : ℕ} {cmd cmd' : Cmd Msg}
    (htaken : (id, cmd) ∈ (s.consumer c).taken) : (id, cmd') ∉ s.queue.queued t := fun hqueued => by
  obtain ⟨t', -, hmem⟩ := h.mem_accepted htaken
  exact HandOff.Queue.not_queued_of_taken h.fifo h.distinct hmem hqueued rfl

/-- What is processed or finished was taken. -/
lemma taken_of_at {c : Fin n} {p : Place n} {id : ℕ} (hp : (s.consumer c).Progress)
    (hplace : p = .processed c ∨ p = .finished c) (hat : s.At id p) :
    ∃ cmd, (id, cmd) ∈ (s.consumer c).taken := by
  rcases hplace with rfl | rfl <;> obtain ⟨cmd, hcmd⟩ := hat
  · exact ⟨cmd, (mem_taken_iff hp).mpr (.inr hcmd)⟩
  · exact ⟨cmd, (mem_taken_iff hp).mpr (.inl hcmd)⟩

/-- Two places of a command with the same number are the same. -/
lemma place_unique (hs : (service pb n).Reachable s) {id : ℕ} {p p' : Place n} (hat : s.At id p)
    (hat' : s.At id p') : p = p' := by
  have hq := queued hs
  have hprogress := progress hs
  have hqueued : ∀ {t c q}, s.At id (.queued t) → q = .processed c ∨ q = .finished c →
      ¬ s.At id q := fun ⟨_, hcmd⟩ hplace hat =>
    let ⟨_, htaken⟩ := taken_of_at (hprogress _) hplace hat
    not_queued_of_taken hq htaken hcmd
  have hsame : ∀ {c c' q q'}, q = .processed c ∨ q = .finished c →
      q' = .processed c' ∨ q' = .finished c' → s.At id q → s.At id q' → c = c' :=
    fun hplace hplace' hat hat' =>
      let ⟨_, htaken⟩ := taken_of_at (hprogress _) hplace hat
      let ⟨_, htaken'⟩ := taken_of_at (hprogress _) hplace' hat'
      (hq.taken_unique htaken htaken').1
  cases p with
  | queued t =>
      cases p' with
      | queued t' =>
          obtain ⟨cmd, hcmd⟩ := hat
          obtain ⟨cmd', hcmd'⟩ := hat'
          have haccepted := hq.fifo.mem_accepted.mpr (.inr hcmd)
          have haccepted' := hq.fifo.mem_accepted.mpr (.inr hcmd')
          have heq := List.inj_on_of_nodup_map hq.distinct haccepted haccepted' rfl
          rw [(Prod.mk.inj heq).1]
      | processed c' => exact absurd hat' (hqueued hat (.inl rfl))
      | finished c' => exact absurd hat' (hqueued hat (.inr rfl))
  | processed c =>
      cases p' with
      | queued t' => exact absurd hat (hqueued hat' (.inl rfl))
      | processed c' => rw [hsame (.inl rfl) (.inl rfl) hat hat']
      | finished c' =>
          obtain rfl := hsame (.inl rfl) (.inr rfl) hat hat'
          exact absurd hat'.choose_spec (not_finished_of_job hq (hprogress c) hat.choose_spec)
  | finished c =>
      cases p' with
      | queued t' => exact absurd hat (hqueued hat' (.inr rfl))
      | processed c' =>
          obtain rfl := hsame (.inr rfl) (.inl rfl) hat hat'
          exact absurd hat.choose_spec (not_finished_of_job hq (hprogress c) hat'.choose_spec)
      | finished c' => rw [hsame (.inr rfl) (.inr rfl) hat hat']

/-- **A command that was accepted is in exactly one place.** -/
theorem place (hs : (service pb n).Reachable s) {t : Thread} {id : ℕ} {cmd : Cmd Msg}
    (haccepted : (t, id, cmd) ∈ s.queue.accepted) : ∃! p, s.At id p := by
  have hq := queued hs
  suffices ∃ p, s.At id p from
    let ⟨p, hat⟩ := this
    ⟨p, hat, fun _ hat' => place_unique hs hat' hat⟩
  rcases hq.fifo.mem_accepted.mp haccepted with ⟨c, htaken⟩ | hqueued
  · have hmem : (id, cmd) ∈ (s.consumer c).taken := by
      rw [hq.taken]
      exact List.mem_map.mpr ⟨_, HandOff.mem_fiber.mpr htaken, rfl⟩
    rcases (mem_taken_iff (progress hs c)).mp hmem with hfinished | hjob
    · exact ⟨.finished c, cmd, hfinished⟩
    · exact ⟨.processed c, cmd, hjob⟩
  · exact ⟨.queued t, cmd, hqueued⟩

end PbEntityDb.Service
