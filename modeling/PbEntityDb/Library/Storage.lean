import Mathlib.Tactic

/-!
A store whose blocks have a lifetime.

* A block is live from `alloc` to `release`. An `Allocator` puts a new block at any
  address where none is live, also where one was released; what stands at such an
  address can still be read.
* `live_temporary`: a block that is released again leaves the live blocks as they
  were, and none at its own address.
* `Allocator.lowest` hands out the storage of released blocks first.
-/

namespace Storage

variable {β : Type}

/-- What stands at an address, in a live block or in one that was released. -/
structure Cell (β : Type) where
  live : Bool
  content : β
  deriving DecidableEq, Repr

/-- The cells of a store; from the limit on no block has been so far. -/
structure Store (β : Type) where
  cells : ℕ → Option (Cell β)
  limit : ℕ
  unused : ∀ a, limit ≤ a → cells a = none

namespace Store

/-- A store without blocks. -/
def empty : Store β := ⟨fun _ => none, 0, fun _ _ => rfl⟩

/-- The content of the live block at an address. -/
def live (st : Store β) (a : ℕ) : Option β :=
  (st.cells a).bind fun c => if c.live then some c.content else none

/-- What is read at an address, whether the block there is live or not. -/
def read (st : Store β) (a : ℕ) : Option β := (st.cells a).map Cell.content

/-- A live block with some content at an address. -/
def write (st : Store β) (a : ℕ) (content : β) : Store β where
  cells := Function.update st.cells a (some ⟨true, content⟩)
  limit := max st.limit (a + 1)
  unused b hb := by
    rw [Function.update_of_ne (by omega), st.unused b (by omega)]

/-- The end of the lifetime of a block; its content stays where it is. -/
def release (st : Store β) (a : ℕ) : Store β where
  cells := Function.update st.cells a ((st.cells a).map fun c => ⟨false, c.content⟩)
  limit := st.limit
  unused b hb := by
    by_cases hba : b = a
    · subst hba
      rw [Function.update_self, st.unused b hb]
      rfl
    · rw [Function.update_of_ne hba, st.unused b hb]

lemma live_write (st : Store β) (a : ℕ) (content : β) :
    (st.write a content).live = Function.update st.live a (some content) := by
  funext b
  by_cases hba : b = a
  · subst hba
    simp [live, write]
  · simp [live, write, hba]

lemma live_release (st : Store β) (a : ℕ) :
    (st.release a).live = Function.update st.live a none := by
  funext b
  by_cases hba : b = a
  · subst hba
    cases h : st.cells b <;> simp [live, release, h]
  · simp [live, release, hba]

/-- What is live can be read. -/
lemma read_of_live {st : Store β} {a : ℕ} {content : β} (h : st.live a = some content) :
    st.read a = some content := by
  obtain ⟨c, hc, hcontent⟩ := Option.bind_eq_some_iff.mp h
  rw [read, hc]
  split at hcontent
  · exact hcontent
  · cases hcontent

end Store

/-- Where new blocks go. -/
structure Allocator (β : Type) where
  pick : Store β → ℕ
  free : ∀ st : Store β, st.live (pick st) = none

/-- The first address where no block is live. -/
def Allocator.lowest : Allocator β where
  pick st := ((List.range st.limit).find? fun a => (st.live a).isNone).getD st.limit
  free st := by
    cases h : (List.range st.limit).find? fun a => (st.live a).isNone with
    | none =>
        show st.live st.limit = none
        rw [Store.live, st.unused st.limit (le_refl _)]
        rfl
    | some a => simpa using List.find?_some h

/-- A new block. -/
def Store.alloc (A : Allocator β) (st : Store β) (content : β) : ℕ × Store β :=
  (A.pick st, st.write (A.pick st) content)

/-- **A temporary** leaves the live blocks as they were. -/
theorem Store.live_temporary (A : Allocator β) (st : Store β) (content : β) :
    ((st.alloc A content).2.release (st.alloc A content).1).live = st.live := by
  rw [live_release]
  show Function.update (st.write (A.pick st) content).live (A.pick st) none = st.live
  rw [live_write, Function.update_idem, ← A.free st, Function.update_eq_self]

/-- Something can still be read where it was, and everywhere else as before. -/
lemma Store.isSome_read_temporary (A : Allocator β) (st : Store β) (content : β) {b : ℕ}
    (h : (st.read b).isSome = true ∨ b = (st.alloc A content).1) :
    (((st.alloc A content).2.release (st.alloc A content).1).read b).isSome = true := by
  by_cases hb : b = A.pick st
  · subst hb
    simp [read, alloc, release, write]
  · have hread := h.resolve_right hb
    simpa [read, alloc, release, write, hb] using hread

end Storage
