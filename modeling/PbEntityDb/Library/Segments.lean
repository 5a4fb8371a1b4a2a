import Mathlib.Tactic

/-!
Lists in segments.

* `cut` takes a list apart at the first occurrence of a separator.
* `Stops` says that a class of elements goes on no further into a list; the
  longest run of the class in front of such a list ends where the list begins.
-/

namespace Segments

variable {α : Type*}

/-! ### The first separator -/

/-- A list in front of the first separator and behind it. -/
def cut [DecidableEq α] (sep : α) : List α → List α × Option (List α)
  | [] => ([], none)
  | a :: s => if a = sep then ([], some s) else (a :: (cut sep s).1, (cut sep s).2)

/-- A separator behind a list without one. -/
theorem cut_append [DecidableEq α] {sep : α} {s : List α} (h : sep ∉ s) (rest : List α) :
    cut sep (s ++ sep :: rest) = (s, some rest) := by
  induction s with
  | nil => exact if_pos rfl
  | cons a s ih =>
      have ha : a ≠ sep := fun heq => h (heq ▸ List.mem_cons_self)
      rw [List.cons_append, cut, if_neg ha, ih fun hs => h (List.mem_cons_of_mem _ hs)]

/-- The elements of a list put together with separators. -/
lemma mem_intercalate {sep a : α} {ls : List (List α)} (h : a ∈ [sep].intercalate ls) :
    a = sep ∨ ∃ l ∈ ls, a ∈ l := by
  obtain ⟨l, hl, ha⟩ := List.mem_flatten.mp h
  induction ls with
  | nil => cases hl
  | cons l' ls ih =>
      cases ls with
      | nil => exact .inr ⟨l, hl, ha⟩
      | cons l'' ls =>
          rw [List.intersperse_cons_cons] at hl
          rcases List.mem_cons.mp hl with rfl | hl
          · exact .inr ⟨l, List.mem_cons_self, ha⟩
          · rcases List.mem_cons.mp hl with rfl | hl
            · exact .inl (List.mem_singleton.mp ha)
            · refine (ih (List.mem_flatten.mpr ⟨l, hl, ha⟩) hl).imp_right ?_
              exact fun ⟨l, hl, ha⟩ => ⟨l, List.mem_cons_of_mem _ hl, ha⟩

/-! ### The longest run -/

/-- No element of the class stands in front. -/
def Stops (p : α → Bool) (rest : List α) : Prop := ∀ a ∈ rest.head?, p a = false

lemma stops_nil (p : α → Bool) : Stops p [] := fun _ ha => by cases ha

lemma stops_cons {p : α → Bool} {a : α} (h : p a = false) (rest : List α) : Stops p (a :: rest) :=
  fun b hb => by
    cases hb
    exact h

variable {p : α → Bool} {s rest : List α}

lemma takeWhile_stops (hs : ∀ a ∈ s, p a = true) (hrest : Stops p rest) :
    (s ++ rest).takeWhile p = s := by
  rw [List.takeWhile_append_of_pos hs]
  cases rest with
  | nil => rw [List.takeWhile_nil, List.append_nil]
  | cons a rest =>
      have ha : ¬ p a = true := by simp [hrest a rfl]
      rw [List.takeWhile_cons_of_neg ha, List.append_nil]

lemma dropWhile_stops (hs : ∀ a ∈ s, p a = true) (hrest : Stops p rest) :
    (s ++ rest).dropWhile p = rest := by
  rw [List.dropWhile_append_of_pos hs]
  cases rest with
  | nil => rfl
  | cons a rest => exact List.dropWhile_cons_of_neg (by simp [hrest a rfl])

end Segments
