import PbEntityDb.Service.Once

/-!
The threads that wait for a `Synchronize*` call.

* `State.Waits`: the thread of a command of such a call waits for it until a
  consumer has called its `_dispose_cb`, and then finds its own response in the
  variable that it handed in. `waits` says so of all reachable states.
-/

namespace PbEntityDb.Service

open HandOff (fiber)
open Function (update)

variable {Msg : Type} {pb : Protobuf Msg} {n : ℕ} {s s' : State n Msg}

/-- The `_dispose_cb` of the command was called. -/
def State.Disposed (s : State n Msg) (id : ℕ) : Prop := ∃ c, id ∈ (s.consumer c).disposed

/-- The variable of the waiting thread holds the response of the command. -/
def State.Assigned (s : State n Msg) (t : Thread) (id : ℕ) (cmd : Cmd Msg) : Prop :=
  cmd.reads → ∃ c r, (id, r) ∈ (s.consumer c).handled ∧ s.result t = some r

lemma State.disposed_congr (h : ∀ c, (s'.consumer c).disposed = (s.consumer c).disposed) (id : ℕ) :
    s'.Disposed id ↔ s.Disposed id :=
  exists_congr fun c => by rw [h c]

lemma State.Assigned.mono {t : Thread} {id : ℕ} {cmd : Cmd Msg} (h : s.Assigned t id cmd)
    (hhandled : ∀ c, (s.consumer c).handled ⊆ (s'.consumer c).handled)
    (hresult : s'.result t = s.result t) : s'.Assigned t id cmd := fun hreads =>
  let ⟨c, r, hr, hres⟩ := h hreads
  ⟨c, r, hhandled c hr, hresult.trans hres⟩

/-- Threads wait for their own commands, as long as these are under way. -/
structure State.Waits (s : State n Msg) : Prop where
  checked : ∀ t cmd, s.caller t = .checked cmd → s.promise t = false
  owner : ∀ t id cmd, (t, id, cmd) ∈ s.queue.accepted → cmd.sync → ¬ s.Disposed id →
    s.caller t = .waiting id ∧ s.promise t = false
  waiting : ∀ t id, s.caller t = .waiting id → ∃ cmd, (t, id, cmd) ∈ s.queue.accepted ∧
    cmd.sync ∧ (s.promise t = true ↔ s.Disposed id) ∧ (s.Disposed id → s.Assigned t id cmd)
  assigned : ∀ c id cmd t, (s.consumer c).pc = .dispose id cmd → cmd.disposeCb = some t →
    s.Assigned t id cmd

/-! ### The commands under way -/

/-- An accepted command knows its thread. -/
lemma State.Queued.wellFormed (h : s.Queued pb) {t : Thread} {id : ℕ} {cmd : Cmd Msg}
    (haccepted : (t, id, cmd) ∈ s.queue.accepted) : cmd.WellFormed t :=
  let ⟨_, hbuilt⟩ := h.built _ haccepted
  Call.cmd_wellFormed hbuilt

lemma State.Queued.accepted_unique (h : s.Queued pb) {t t' : Thread} {id : ℕ}
    {cmd cmd' : Cmd Msg} (hacc : (t, id, cmd) ∈ s.queue.accepted)
    (hacc' : (t', id, cmd') ∈ s.queue.accepted) : t = t' ∧ cmd = cmd' := by
  have heq := List.inj_on_of_nodup_map h.distinct hacc hacc' rfl
  exact ⟨congrArg Prod.fst heq, congrArg (·.2.2) heq⟩

/-- The next number was not given to any command. -/
lemma State.Queued.id_lt (h : s.Queued pb) {t : Thread} {id : ℕ} {cmd : Cmd Msg}
    (haccepted : (t, id, cmd) ∈ s.queue.accepted) : id < s.queue.accepted.length := by
  have hid : id ∈ s.queue.accepted.map (·.2.1) := List.mem_map.mpr ⟨_, haccepted, rfl⟩
  rwa [h.ids, List.mem_range] at hid

/-- What a consumer has disposed of is finished. -/
lemma Consumer.Progress.finished_of_disposed {w : Consumer Msg} (h : w.Progress) {id : ℕ}
    (hid : id ∈ w.disposed) : ∃ cmd, (id, cmd) ∈ w.finished ∧ cmd.sync := by
  rw [h.disposed] at hid
  obtain ⟨⟨id, cmd⟩, hmem, rfl⟩ := List.mem_map.mp hid
  exact ⟨cmd, by simpa using hmem⟩

/-- The number of a command that was disposed of was given to it. -/
lemma State.Disposed.accepted (hs : (service pb n).Reachable s) {id : ℕ} (h : s.Disposed id) :
    ∃ t cmd, (t, id, cmd) ∈ s.queue.accepted ∧ cmd.sync := by
  obtain ⟨c, hid⟩ := h
  obtain ⟨cmd, hfinished, hsync⟩ := (progress hs c).finished_of_disposed hid
  obtain ⟨t, haccepted, -⟩ :=
    (queued hs).mem_accepted ((mem_taken_iff (progress hs c)).mpr (.inl hfinished))
  exact ⟨t, cmd, haccepted, hsync⟩

/-- A command in the hands of a consumer was accepted and is not disposed of. -/
lemma not_disposed_of_job (hs : (service pb n).Reachable s) {c : Fin n} {id : ℕ} {cmd : Cmd Msg}
    (hjob : (id, cmd) ∈ (s.consumer c).pc.job) :
    (∃ t, (t, id, cmd) ∈ s.queue.accepted) ∧ ¬ s.Disposed id := by
  have hq := queued hs
  have htaken := (progress hs c).mem_taken hjob
  obtain ⟨t, haccepted, -⟩ := hq.mem_accepted htaken
  refine ⟨⟨t, haccepted⟩, fun ⟨c', hid⟩ => ?_⟩
  obtain ⟨cmd', hfinished, -⟩ := (progress hs c').finished_of_disposed hid
  obtain ⟨rfl, rfl⟩ :=
    hq.taken_unique htaken ((mem_taken_iff (progress hs c')).mpr (.inl hfinished))
  exact not_finished_of_job hq (progress hs c) hjob hfinished

/-- The thread of a command in the hands of a consumer waits for it. -/
lemma State.Waits.job_owner (h : s.Waits) (hs : (service pb n).Reachable s) {c : Fin n} {id : ℕ}
    {cmd : Cmd Msg} {t : Thread} (hjob : (id, cmd) ∈ (s.consumer c).pc.job)
    (hcb : cmd.disposeCb = some t) :
    (t, id, cmd) ∈ s.queue.accepted ∧ cmd.WellFormed t ∧ ¬ s.Disposed id
      ∧ s.caller t = .waiting id ∧ s.promise t = false := by
  obtain ⟨⟨t', haccepted⟩, hdisposed⟩ := not_disposed_of_job hs hjob
  have hwell := (queued hs).wellFormed haccepted
  obtain rfl := hwell.owner t hcb
  exact ⟨haccepted, hwell, hdisposed,
    h.owner t id cmd haccepted (by simp [Cmd.sync, hcb]) hdisposed⟩

namespace State.Waits

/-- A consumer moves and neither writes to a waiting thread nor disposes of a command. -/
lemma move (h : s.Waits) {c : Fin n} {w : Consumer Msg}
    (hs' : s'.caller = s.caller ∧ s'.promise = s.promise ∧ s'.result = s.result
      ∧ s'.queue.accepted = s.queue.accepted ∧ s'.consumer = (s.set c w).consumer)
    (hdisposed : w.disposed = (s.consumer c).disposed)
    (hhandled : (s.consumer c).handled ⊆ w.handled)
    (hdispose : ∀ id cmd t, w.pc = .dispose id cmd → cmd.disposeCb = some t → ¬ cmd.reads) :
    s'.Waits := by
  obtain ⟨hcaller, hpromise, hresult, haccepted, hconsumer⟩ := hs'
  have hset : ∀ c', (s'.consumer c').disposed = (s.consumer c').disposed
      ∧ (s.consumer c').handled ⊆ (s'.consumer c').handled := by
    rw [hconsumer]
    exact State.forall_set (motive := fun c w => w.disposed = (s.consumer c).disposed
      ∧ (s.consumer c).handled ⊆ w.handled) (fun c => ⟨rfl, List.Subset.refl _⟩)
      ⟨hdisposed, hhandled⟩
  have hdisposedIff := State.disposed_congr fun c' => (hset c').1
  have hassigned : ∀ {t id cmd}, s.Assigned t id cmd → s'.Assigned t id cmd := fun hass =>
    hass.mono (fun c' => (hset c').2) (by rw [hresult])
  refine ⟨?_, ?_, ?_, fun c' id cmd t hpc hcb => ?_⟩
  · rw [hcaller, hpromise]
    exact h.checked
  · simp only [hdisposedIff, hcaller, hpromise, haccepted]
    exact h.owner
  · simp only [hdisposedIff, hcaller, hpromise, haccepted]
    intro t id hwaiting
    obtain ⟨cmd, hacc, hsync, hiff, hres⟩ := h.waiting t id hwaiting
    exact ⟨cmd, hacc, hsync, hiff, fun hd => hassigned (hres hd)⟩
  · rw [hconsumer] at hpc
    rcases eq_or_ne c' c with rfl | hc
    · rw [set_consumer_self] at hpc
      exact fun hreads => absurd hreads (hdispose id cmd t hpc hcb)
    · rw [set_consumer_of_ne hc] at hpc
      exact hassigned (h.assigned c' id cmd t hpc hcb)

/-- A thread that does not wait for a command under way goes elsewhere. -/
lemma leave (h : s.Waits) {t : Thread} (hfree : ∀ id, s.caller t = .waiting id → s.Disposed id) :
    State.Waits { s with caller := update s.caller t .idle } where
  checked t' cmd hchecked := by
    rcases eq_or_ne t' t with rfl | ht
    · simp at hchecked
    · exact h.checked t' cmd (by simpa [ht] using hchecked)
  owner t' id cmd haccepted hsync hdisposed := by
    have howner := h.owner t' id cmd haccepted hsync hdisposed
    have ht : t' ≠ t := by
      rintro rfl
      exact hdisposed (hfree id howner.1)
    simpa [ht] using howner
  waiting t' id hwaiting := by
    rcases eq_or_ne t' t with rfl | ht
    · simp at hwaiting
    · exact h.waiting t' id (by simpa [ht] using hwaiting)
  assigned := h.assigned

/-- A thread begins a call. -/
lemma begin (h : s.Waits) (hs : (service pb n).Reachable s) {t : Thread} {cmd : Cmd Msg}
    (hidle : s.caller t = .idle) :
    State.Waits
      { s with
        caller := update s.caller t (.checked cmd)
        promise := update s.promise t false
        result := update s.result t none } where
  checked t' cmd' hchecked := by
    rcases eq_or_ne t' t with rfl | ht
    · simp
    · simpa [ht] using h.checked t' cmd' (by simpa [ht] using hchecked)
  owner t' id cmd' haccepted hsync hdisposed := by
    have howner := h.owner t' id cmd' haccepted hsync hdisposed
    have ht : t' ≠ t := by
      rintro rfl
      simp [hidle] at howner
    simpa [ht] using howner
  waiting t' id hwaiting := by
    rcases eq_or_ne t' t with rfl | ht
    · simp at hwaiting
    · obtain ⟨cmd', hacc, hsync, hiff, hres⟩ := h.waiting t' id (by simpa [ht] using hwaiting)
      refine ⟨cmd', hacc, hsync, by simpa [ht, State.Disposed] using hiff, fun hdisposed => ?_⟩
      exact (hres hdisposed).mono (fun c => List.Subset.refl _) (by simp [ht])
  assigned c id cmd' t' hpc hcb := by
    obtain ⟨-, -, -, hwaiting, -⟩ := h.job_owner hs (Pc.mem_job_of_dispose hpc) hcb
    have ht : t' ≠ t := by
      rintro rfl
      simp [hidle] at hwaiting
    exact (h.assigned c id cmd' t' hpc hcb).mono (fun c => List.Subset.refl _) (by simp [ht])

/-- A thread puts its command into the queue. -/
lemma enqueue (h : s.Waits) (hs : (service pb n).Reachable s) {t : Thread} {cmd : Cmd Msg}
    (hchecked : s.caller t = .checked cmd) :
    State.Waits
      { s with
        caller := update s.caller t
          (if cmd.sync then .waiting s.queue.accepted.length else .idle)
        queue := s.queue.put t (s.queue.accepted.length, cmd) } where
  checked t' cmd' hchecked' := by
    rcases eq_or_ne t' t with rfl | ht
    · simp only [Function.update_self] at hchecked'
      split at hchecked' <;> cases hchecked'
    · exact h.checked t' cmd' (by simpa [ht] using hchecked')
  owner t' id cmd' haccepted hsync hdisposed := by
    rcases List.mem_append.mp haccepted with haccepted | hnew
    · have howner := h.owner t' id cmd' haccepted hsync hdisposed
      have ht : t' ≠ t := by
        rintro rfl
        simp [hchecked] at howner
      simpa [ht] using howner
    · obtain ⟨rfl, rfl, rfl⟩ : t' = t ∧ id = s.queue.accepted.length ∧ cmd' = cmd := by
        simpa using hnew
      simpa [hsync] using h.checked t' cmd' hchecked
  waiting t' id hwaiting := by
    rcases eq_or_ne t' t with rfl | ht
    · cases hsync : cmd.sync with
      | false => simp [hsync] at hwaiting
      | true =>
          obtain rfl : s.queue.accepted.length = id := by simpa [hsync] using hwaiting
          have hfresh : ¬ s.Disposed s.queue.accepted.length := fun hdisposed =>
            let ⟨_, _, hacc, _⟩ := hdisposed.accepted hs
            lt_irrefl _ ((queued hs).id_lt hacc)
          have hpromise := h.checked t' cmd hchecked
          refine ⟨cmd, by simp, hsync, ?_, fun hdisposed => absurd hdisposed hfresh⟩
          exact iff_of_false (by simp [hpromise]) hfresh
    · obtain ⟨cmd', hacc, hrest⟩ := h.waiting t' id (by simpa [ht] using hwaiting)
      exact ⟨cmd', List.mem_append_left _ hacc, hrest⟩
  assigned := h.assigned

/-- The response of a command reaches its thread. -/
lemma assign (h : s.Waits) (hs : (service pb n).Reachable s) {c : Fin n} {id : ℕ} {cmd : Cmd Msg}
    {r : Response} {t : Thread} (hpc : (s.consumer c).pc = .respond id cmd r)
    (hcb : cmd.respondCb = some (.assign t)) {w : Consumer Msg} (hw : w.pc = .dispose id cmd)
    (hhandled : w.handled = (s.consumer c).handled ++ [(id, r)])
    (hdisposed : w.disposed = (s.consumer c).disposed) :
    State.Waits { s.set c w with result := update s.result t (some r) } := by
  have hjob : (id, cmd) ∈ (s.consumer c).pc.job := by simp [hpc, Pc.job]
  obtain ⟨⟨t', haccepted⟩, -⟩ := not_disposed_of_job hs hjob
  obtain ⟨rfl, hdispose⟩ := ((queued hs).wellFormed haccepted).assign hcb
  obtain ⟨-, -, hbusy, hwaiting, -⟩ := h.job_owner hs hjob hdispose
  have hset : ∀ c', ((s.set c w).consumer c').disposed = (s.consumer c').disposed
      ∧ (s.consumer c').handled ⊆ ((s.set c w).consumer c').handled :=
    State.forall_set (motive := fun c w => w.disposed = (s.consumer c).disposed
      ∧ (s.consumer c).handled ⊆ w.handled) (fun c => ⟨rfl, List.Subset.refl _⟩)
      ⟨hdisposed, by simp [hhandled]⟩
  have hdisposedIff := State.disposed_congr fun c' => (hset c').1
  have hother : ∀ {t' id'}, s.caller t' = .waiting id' → id ≠ id' → t' ≠ t := by
    rintro t' id' hwaiting' hid rfl
    exact hid (by simpa [hwaiting] using hwaiting')
  refine ⟨h.checked, fun t' id' cmd' hacc hsync hd => h.owner t' id' cmd' hacc hsync
    fun hd' => hd ((hdisposedIff id').mpr hd'), fun t' id' hwaiting' => ?_,
    fun c' id' cmd' t' hpc' hcb' => ?_⟩
  · obtain ⟨cmd', hacc, hsync, hiff, hres⟩ := h.waiting t' id' hwaiting'
    refine ⟨cmd', hacc, hsync, hiff.trans (hdisposedIff id').symm, fun hd => ?_⟩
    have hd' := (hdisposedIff id').mp hd
    have ht : t' ≠ t := hother hwaiting' fun hid => hbusy (hid ▸ hd')
    exact (hres hd').mono (fun c' => (hset c').2) (by simp [ht])
  · rcases eq_or_ne c' c with rfl | hc
    · obtain ⟨rfl, rfl⟩ : id = id' ∧ cmd = cmd' := by simpa [hw] using hpc'
      obtain rfl : t = t' := by simpa [hdispose] using hcb'
      exact fun _ => ⟨c', r, by simp [hhandled], by simp⟩
    · have hpc'' : (s.consumer c').pc = .dispose id' cmd' := by
        simpa [State.set_consumer_of_ne hc] using hpc'
      have hjob' := Pc.mem_job_of_dispose hpc''
      obtain ⟨-, -, -, hwaiting', -⟩ := h.job_owner hs hjob' hcb'
      have ht : t' ≠ t := hother hwaiting' fun hid => by
        subst hid
        exact hc ((queued hs).taken_unique ((progress hs c').mem_taken hjob')
          ((progress hs c).mem_taken hjob)).1
      exact (h.assigned c' id' cmd' t' hpc'' hcb').mono (fun c' => (hset c').2) (by simp [ht])

/-- A consumer sets the promise of the thread of its command. -/
lemma dispose (h : s.Waits) (hs : (service pb n).Reachable s) {c : Fin n} {id : ℕ}
    {cmd : Cmd Msg} {t : Thread} (hpc : (s.consumer c).pc = .dispose id cmd)
    (hcb : cmd.disposeCb = some t) {w : Consumer Msg} (hw : w.pc = .test)
    (hhandled : w.handled = (s.consumer c).handled)
    (hdisposed : w.disposed = (s.consumer c).disposed ++ [id]) :
    State.Waits { s.set c w with promise := update s.promise t true } := by
  have hjob := Pc.mem_job_of_dispose hpc
  obtain ⟨haccepted, -, hbusy, hwaiting, -⟩ := h.job_owner hs hjob hcb
  have hset : ∀ c', (s.consumer c').handled ⊆ ((s.set c w).consumer c').handled :=
    State.forall_set (motive := fun c w => (s.consumer c).handled ⊆ w.handled)
      (fun c => List.Subset.refl _) (by simp [hhandled])
  have hdisposedIff : ∀ id',
      State.Disposed { s.set c w with promise := update s.promise t true } id'
      ↔ s.Disposed id' ∨ id' = id := fun id' => by
    constructor
    · rintro ⟨c', hid⟩
      rcases eq_or_ne c' c with rfl | hc
      · have hid' : id' ∈ (s.consumer c').disposed ∨ id' = id := by simpa [hdisposed] using hid
        exact hid'.imp_left fun hid' => ⟨c', hid'⟩
      · exact .inl ⟨c', by simpa [State.set_consumer_of_ne hc] using hid⟩
    · rintro (⟨c', hid⟩ | rfl)
      · rcases eq_or_ne c' c with rfl | hc
        · exact ⟨c', by simp [hdisposed, hid]⟩
        · exact ⟨c', by simpa [State.set_consumer_of_ne hc] using hid⟩
      · exact ⟨c, by simp [hdisposed]⟩
  refine ⟨fun t' cmd' hchecked => ?_, fun t' id' cmd' hacc hsync hd => ?_,
    fun t' id' hwaiting' => ?_, fun c' id' cmd' t' hpc' hcb' => ?_⟩
  · have ht : t' ≠ t := by
      rintro rfl
      simp [hwaiting] at hchecked
    simpa [ht] using h.checked t' cmd' hchecked
  · rw [hdisposedIff, not_or] at hd
    have howner := h.owner t' id' cmd' hacc hsync hd.1
    have ht : t' ≠ t := by
      rintro rfl
      exact hd.2 (by simpa [hwaiting] using howner.1.symm)
    simpa [ht] using howner
  · obtain ⟨cmd', hacc, hsync, hiff, hres⟩ := h.waiting t' id' hwaiting'
    refine ⟨cmd', hacc, hsync, ?_, fun hd => ?_⟩
    · rw [hdisposedIff]
      rcases eq_or_ne t' t with rfl | ht
      · exact iff_of_true (by simp) (.inr (by simpa [hwaiting] using hwaiting'.symm))
      · have hid : id' ≠ id := by
          rintro rfl
          exact ht ((queued hs).accepted_unique hacc haccepted).1
        simpa [ht, hid] using hiff
    · rcases (hdisposedIff id').mp hd with hd | rfl
      · exact (hres hd).mono hset rfl
      · obtain ⟨rfl, rfl⟩ := (queued hs).accepted_unique hacc haccepted
        exact (h.assigned c id' cmd' t' hpc hcb).mono hset rfl
  · rcases eq_or_ne c' c with rfl | hc
    · simp [hw] at hpc'
    · rw [State.set_consumer_of_ne hc] at hpc'
      exact (h.assigned c' id' cmd' t' hpc' hcb').mono hset rfl

end State.Waits

/-- **A waiting thread waits for its own command and gets its own response.** -/
theorem waits (hs : (service pb n).Reachable s) : s.Waits := by
  refine hs.invariant ⟨?_, ?_, ?_, ?_⟩ fun s a s' hs h hstep => ?_
  · simp [service, State.init]
  · simp [service, State.init, HandOff.Queue.empty]
  · simp [service, State.init]
  · simp [service, State.init]
  have hreads : ∀ (c : Fin n) {id cmd}, (id, cmd) ∈ (s.consumer c).pc.job →
      (∀ t, cmd.respondCb ≠ some (.assign t)) →
      ∀ id' cmd' t, Pc.dispose id cmd = .dispose id' cmd' → cmd'.disposeCb = some t →
        ¬ cmd'.reads := fun c id cmd hjob hcb id' cmd' t hpc hdispose hreads => by
    cases hpc
    obtain ⟨-, hwell, -⟩ := h.job_owner hs hjob hdispose
    exact hcb t (by simpa [hreads] using hwell.respondCb_of_sync (by simp [Cmd.sync, hdispose]))
  cases hstep with
  | check hidle hdone hcmd => exact h.begin hs hidle
  | enqueueFailed hchecked => exact h.leave (by simp [hchecked])
  | enqueue hchecked => exact h.enqueue hs hchecked
  | @wake t id hwaiting hset =>
      refine h.leave fun id' hwaiting' => ?_
      obtain ⟨cmd, -, -, hiff, -⟩ := h.waiting t id' hwaiting'
      exact hiff.mp hset
  | respondAssign hpc hcb => exact h.assign hs hpc hcb rfl rfl rfl
  | dispose hpc hcb => exact h.dispose hs hpc hcb rfl rfl rfl
  | opened hpc | timeout hpc | failed hpc | lost hpc | succeeded hpc | respondPost hpc hcb
  | disposeNone hpc hcb | take hpc hhead | handle hpc hentity | skip hpc hentity =>
      exact h.move ⟨rfl, rfl, rfl, rfl, rfl⟩ rfl (by simp) (by simp)
  | test hpc =>
      refine h.move ⟨rfl, rfl, rfl, rfl, rfl⟩ rfl (by simp) fun id cmd t hpc' => ?_
      split at hpc' <;> cases hpc'
  | @respondNone c id cmd r hpc hcb =>
      refine h.move ⟨rfl, rfl, rfl, rfl, rfl⟩ rfl (by simp) (hreads c (by simp [hpc, Pc.job]) ?_)
      rcases hcb with hcb | hcb <;> simp [hcb]
  | @post c id cmd onResponse r hpc =>
      have hcb := ((sound hs c).posting id cmd onResponse r (.inl hpc)).2
      refine h.move ⟨rfl, rfl, rfl, rfl, rfl⟩ rfl (by simp) ?_
      split
      · exact hreads c (by simp [hpc, Pc.job]) (by simp [hcb])
      · simp
  | @pushFailed c id cmd onResponse r hpc | @push c id cmd onResponse r hpc =>
      have hcb := ((sound hs c).posting id cmd onResponse r (.inr hpc)).2
      exact h.move ⟨rfl, rfl, rfl, rfl, rfl⟩ rfl (by simp)
        (hreads c (by simp [hpc, Pc.job]) (by simp [hcb]))
  | _ => exact ⟨h.checked, h.owner, h.waiting, h.assigned⟩

/-! ### What a caller can rely on -/

/-- What a consumer has come past in its logs is part of what it took. -/
lemma Consumer.Progress.entered_sublist {w : Consumer Msg} (h : w.Progress) :
    List.Sublist w.entered (w.taken.map Prod.fst) := by
  rw [h.entered, h.taken]
  refine (List.Sublist.append_left ?_ _).map _
  cases w.pc <;> simp [Pc.enteredJob, Pc.job]

lemma Consumer.Progress.finished_sublist {w : Consumer Msg} (h : w.Progress) :
    List.Sublist (w.finished.map Prod.fst) (w.taken.map Prod.fst) := by
  rw [h.taken]
  exact (List.sublist_append_left _ _).map _

lemma Consumer.Progress.disposed_sublist {w : Consumer Msg} (h : w.Progress) :
    List.Sublist w.disposed (w.taken.map Prod.fst) := by
  rw [h.disposed]
  exact (List.filter_sublist.map _).trans h.finished_sublist

lemma Consumer.Progress.handled_sublist {w : Consumer Msg} (h : w.Progress) :
    List.Sublist (w.handled.map Prod.fst) (w.taken.map Prod.fst) := by
  rw [h.handled, h.taken]
  refine (List.Sublist.append_left ?_ _).map _
  cases w.pc <;> simp [Pc.handledJob, Pc.job]

/-- A command has one response. -/
lemma handled_unique (hs : (service pb n).Reachable s) {c c' : Fin n} {id : ℕ} {r r' : Response}
    (hr : (id, r) ∈ (s.consumer c).handled) (hr' : (id, r') ∈ (s.consumer c').handled) :
    c = c' ∧ r = r' := by
  have honce := atMostOnce_of_sublist (queued hs) fun c => (progress hs c).handled_sublist
  obtain rfl := honce.2 c c' id (List.mem_map_of_mem hr) (List.mem_map_of_mem hr')
  exact ⟨rfl, congrArg Prod.snd (List.inj_on_of_nodup_map (honce.1 c) hr hr' rfl)⟩

/-- The response of a command is its own. -/
lemma own_of_handled (hs : (service pb n).Reachable s) {t : Thread} {c : Fin n} {id : ℕ}
    {cmd : Cmd Msg} {r : Response} (haccepted : (t, id, cmd) ∈ s.queue.accepted)
    (hr : (id, r) ∈ (s.consumer c).handled) : Own pb (fiber c s.executed) id cmd r := by
  obtain ⟨cmd', htaken, hown⟩ := (sound hs c).handled (id, r) hr
  obtain ⟨t', haccepted', -⟩ := (queued hs).mem_accepted htaken
  obtain ⟨-, rfl⟩ := (queued hs).accepted_unique haccepted haccepted'
  exact hown

/-- The handler of a finished command was entered and came back. -/
lemma Consumer.Progress.handled_of_finished {w : Consumer Msg} (h : w.Progress) {id : ℕ}
    {cmd : Cmd Msg} (hfinished : (id, cmd) ∈ w.finished) :
    id ∈ w.entered ∧ ∃ r, (id, r) ∈ w.handled := by
  have hid : id ∈ w.finished.map Prod.fst := List.mem_map.mpr ⟨_, hfinished, rfl⟩
  constructor
  · rw [h.entered, List.map_append]
    exact List.mem_append_left _ hid
  · have hhandled : id ∈ w.handled.map Prod.fst := by
      rw [h.handled, List.map_append]
      exact List.mem_append_left _ hid
    obtain ⟨⟨id, r⟩, hr, rfl⟩ := List.mem_map.mp hhandled
    exact ⟨r, hr⟩

/-- **Every command is handed to one consumer, and every caller gets its own
response.** A command that was accepted is in one place, and there only once;
its handler is entered and its `_dispose_cb` called at most once, the latter
when the handler is back; and a `Synchronize*` call that returns `true` has had
its command processed and finds the response of this command in its variable. -/
theorem exactly_once (hs : (service pb n).Reachable s) :
    (∀ t id cmd, (t, id, cmd) ∈ s.queue.accepted → ∃! p, s.At id p)
      ∧ (∀ t, ((s.queue.queued t).map Prod.fst).Nodup)
      ∧ AtMostOnce (fun c => (s.consumer c).finished.map Prod.fst)
      ∧ AtMostOnce (fun c => (s.consumer c).entered)
      ∧ AtMostOnce (fun c => (s.consumer c).disposed)
      ∧ (∀ c id, id ∈ (s.consumer c).disposed → ∃ r, (id, r) ∈ (s.consumer c).handled)
      ∧ ∀ t s', Step pb s (.wake t) s' → ∃ id cmd c r, s.caller t = .waiting id
        ∧ (t, id, cmd) ∈ s.queue.accepted ∧ cmd.sync ∧ s.At id (.finished c)
        ∧ id ∈ (s.consumer c).entered ∧ (id, r) ∈ (s.consumer c).handled
        ∧ id ∈ (s.consumer c).disposed ∧ Own pb (fiber c s.executed) id cmd r
        ∧ (cmd.reads → s'.result t = some r) := by
  have hq := queued hs
  have hp := progress hs
  refine ⟨fun t id cmd => place hs, hq.nodup_queued,
    atMostOnce_of_sublist hq fun c => (hp c).finished_sublist,
    atMostOnce_of_sublist hq fun c => (hp c).entered_sublist,
    atMostOnce_of_sublist hq fun c => (hp c).disposed_sublist, fun c id hid => ?_,
    fun t s' hstep => ?_⟩
  · obtain ⟨cmd, hfinished, -⟩ := (hp c).finished_of_disposed hid
    exact ((hp c).handled_of_finished hfinished).2
  cases hstep with
  | @wake _ id hwaiting hset =>
      obtain ⟨cmd, haccepted, hsync, hiff, hassigned⟩ := (waits hs).waiting t id hwaiting
      have hdisposed := hiff.mp hset
      obtain ⟨c, hid⟩ := hdisposed
      obtain ⟨cmd', hfinished, -⟩ := (hp c).finished_of_disposed hid
      obtain ⟨hentered, r, hr⟩ := (hp c).handled_of_finished hfinished
      refine ⟨id, cmd, c, r, hwaiting, haccepted, hsync, ⟨cmd', hfinished⟩, hentered, hr, hid,
        own_of_handled hs haccepted hr, fun hreads => ?_⟩
      obtain ⟨c', r', hr', hresult⟩ := hassigned ⟨c, hid⟩ hreads
      obtain ⟨-, rfl⟩ := handled_unique hs hr hr'
      exact hresult

/-- Thread 0 loads an account, and the consumer is through with it. -/
lemma load_run : ∃ s s' : State 1 Text, (service .plain 1).Reachable s
    ∧ Step .plain s (.wake 0) s' ∧ s'.result 0 = some (.list ["row".toList]) := by
  have hstart : (service .plain 1).Reachable (State.init 1 Text) := .start
  have hopened := (hstart.snoc (.opened 0) (.opened rfl)).snoc (.test 0) (.test rfl)
  have hcalled := hopened.snoc (.call 0 (.entityLoad "id = 1".toList [] ["id".toList]))
    (.check rfl rfl rfl)
  have htaken := (hcalled.snoc (.enqueue 0 true) (.enqueue rfl)).snoc (.take 0 0)
    (.take rfl rfl)
  have hhandled := (htaken.snoc (.handle 0) (.handle rfl rfl)).snoc
    (.attempt 0 .succeeded (.list ["row".toList])) (.succeeded rfl)
  have hdisposed := (hhandled.snoc (.respond 0) (.respondAssign rfl rfl)).snoc
    (.dispose 0) (.dispose rfl rfl)
  exact ⟨_, _, hdisposed, .wake rfl rfl, rfl⟩

/-- A thread that loaded an account got what its own command found. -/
theorem exactly_once_load : ∃ s s' : State 1 Text, Step .plain s (.wake 0) s'
    ∧ s'.result 0 = some (.list ["row".toList])
    ∧ ∃ id cmd c, s.caller 0 = .waiting id ∧ (0, id, cmd) ∈ s.queue.accepted
      ∧ id ∈ (s.consumer c).disposed ∧ (cmd.reads → ∃ r, s'.result 0 = some r
        ∧ (id, r) ∈ (s.consumer c).handled) := by
  obtain ⟨s, s', hs, hstep, hresult⟩ := load_run
  obtain ⟨-, -, -, -, -, -, hwake⟩ := exactly_once hs
  obtain ⟨id, cmd, c, r, hwaiting, haccepted, -, -, -, hr, hid, -, hassigned⟩ := hwake 0 s' hstep
  exact ⟨s, s', hstep, hresult, id, cmd, c, hwaiting, haccepted, hid, fun hreads =>
    ⟨r, hassigned hreads, hr⟩⟩

end PbEntityDb.Service
