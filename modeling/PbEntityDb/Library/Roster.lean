import Mathlib.Data.List.Nodup
import Mathlib.Logic.Function.Basic

/-!
Lists of records with keys.

* `alter`: the records with one key are changed.
* `alterFirst`: the first record that a test accepts is taken out and changed in
  its place.
* `dropFirst`: the first records that a test accepts are removed, at most so many.
-/

namespace Roster

universe u v

variable {α : Type u} {κ : Type v} {xs ys : List α} {x y : α} {f : α → α} {p : α → Bool} {n : ℕ}

/-! ### The records with one key -/

section Alter

variable [DecidableEq κ] {key : α → κ} {k : κ}

/-- Changes the records with the key `k`. -/
def alter (key : α → κ) (k : κ) (f : α → α) (xs : List α) : List α :=
  xs.map fun x => if key x = k then f x else x

@[simp]
lemma length_alter : (alter key k f xs).length = xs.length := List.length_map _

lemma mem_alter : y ∈ alter key k f xs ↔ ∃ x ∈ xs, (if key x = k then f x else x) = y :=
  List.mem_map

/-- A change that leaves the keys alone leaves their list alone. -/
lemma map_key_alter (hf : ∀ x, key (f x) = key x) : (alter key k f xs).map key = xs.map key := by
  rw [alter, List.map_map]
  refine List.map_congr_left fun x _ => ?_
  simp only [Function.comp_apply]
  split_ifs
  · exact hf x
  · rfl

lemma mem_alter_self (hx : x ∈ xs) (hk : key x = k) : f x ∈ alter key k f xs :=
  mem_alter.mpr ⟨x, hx, if_pos hk⟩

/-- A record behind a change is a changed one or one with another key. -/
lemma of_mem_alter (hy : y ∈ alter key k f xs) :
    (∃ x ∈ xs, key x = k ∧ f x = y) ∨ (y ∈ xs ∧ key y ≠ k) := by
  obtain ⟨x, hx, hxy⟩ := mem_alter.mp hy
  split_ifs at hxy with hk
  · exact .inl ⟨x, hx, hk, hxy⟩
  · exact .inr (hxy ▸ ⟨hx, hk⟩)

/-- In a list without two records of one key, a change in one place. -/
lemma alter_append_cons {front back : List α} (h : ((front ++ x :: back).map key).Nodup) :
    alter key (key x) f (front ++ x :: back) = front ++ f x :: back := by
  have hne : ∀ z ∈ front ++ back, key z ≠ key x := by
    intro z hz hkey
    rw [List.map_append, List.map_cons, List.nodup_middle, List.nodup_cons, ← List.map_append] at h
    exact h.1 (hkey ▸ List.mem_map_of_mem hz)
  have hid : ∀ zs : List α, (∀ z ∈ zs, key z ≠ key x) → alter key (key x) f zs = zs := fun zs hzs =>
    (List.map_congr_left fun z hz => if_neg (hzs z hz)).trans (List.map_id _)
  have hself : alter key (key x) f [x] = [f x] := by simp [alter]
  calc alter key (key x) f (front ++ x :: back)
      = alter key (key x) f front ++ alter key (key x) f [x] ++ alter key (key x) f back := by
        simp [alter]
    _ = front ++ f x :: back := by
        rw [hid front fun z hz => hne z (List.mem_append_left _ hz),
          hid back fun z hz => hne z (List.mem_append_right _ hz), hself]
        simp

end Alter

/-! ### The first record that a test accepts -/

/-- The first record that `p` accepts, and the list with `f` applied to it. -/
def alterFirst (p : α → Bool) (f : α → α) : List α → Option (α × List α)
  | [] => none
  | x :: xs =>
      if p x then some (x, f x :: xs)
      else (alterFirst p f xs).map fun r => (r.1, x :: r.2)

lemma alterFirst_eq_none : alterFirst p f xs = none ↔ ∀ x ∈ xs, p x = false := by
  induction xs with
  | nil => simp [alterFirst]
  | cons x xs ih =>
      rw [alterFirst]
      split_ifs with hx
      · simp [hx]
      · rw [Option.map_eq_none_iff, ih]
        simp [hx]

/-- What was taken out, and what stands in front of it and behind it. -/
lemma alterFirst_eq_some (h : alterFirst p f xs = some (x, ys)) :
    ∃ front back, xs = front ++ x :: back ∧ ys = front ++ f x :: back ∧ p x = true ∧
      ∀ y ∈ front, p y = false := by
  induction xs generalizing ys with
  | nil => cases h
  | cons z xs ih =>
      rw [alterFirst] at h
      split_ifs at h with hz
      · obtain ⟨rfl, rfl⟩ := Prod.mk.inj (Option.some.inj h)
        exact ⟨[], xs, rfl, rfl, hz, fun y hy => absurd hy List.not_mem_nil⟩
      · obtain ⟨⟨x', ys'⟩, hr, hmk⟩ := Option.map_eq_some_iff.mp h
        obtain ⟨rfl, rfl⟩ := Prod.mk.inj hmk
        obtain ⟨front, back, hxs, hys, hp, hfront⟩ := ih hr
        refine ⟨z :: front, back, congrArg (z :: ·) hxs, congrArg (z :: ·) hys, hp, fun y hy => ?_⟩
        rcases List.mem_cons.mp hy with rfl | hy
        · simpa using hz
        · exact hfront y hy

/-! ### The first records that a test accepts -/

/-- Without the first `n` records that `p` accepts. -/
def dropFirst (p : α → Bool) : ℕ → List α → List α
  | 0, xs => xs
  | _ + 1, [] => []
  | n + 1, x :: xs => if p x then dropFirst p n xs else x :: dropFirst p (n + 1) xs

@[simp]
lemma dropFirst_nil : dropFirst p n [] = [] := by cases n <;> rfl

lemma dropFirst_sublist (n : ℕ) (xs : List α) : (dropFirst p n xs).Sublist xs := by
  induction xs generalizing n with
  | nil => simp
  | cons x xs ih =>
      cases n with
      | zero => exact List.Sublist.refl _
      | succ n =>
          rw [dropFirst]
          split_ifs
          · exact (ih n).cons x
          · exact (ih (n + 1)).cons_cons x

/-- What `p` does not accept stays. -/
lemma mem_dropFirst_of_not (hx : x ∈ xs) (hp : p x = false) (n : ℕ) : x ∈ dropFirst p n xs := by
  induction xs generalizing n with
  | nil => cases hx
  | cons y xs ih =>
      cases n with
      | zero => exact hx
      | succ n =>
          rw [dropFirst]
          rcases List.mem_cons.mp hx with rfl | hx
          · simp [hp]
          · split_ifs
            · exact ih hx n
            · exact List.mem_cons_of_mem y (ih hx (n + 1))

/-- No test loses more records than are removed. -/
lemma countP_le_dropFirst (q : α → Bool) (n : ℕ) (xs : List α) :
    xs.countP q ≤ (dropFirst p n xs).countP q + n := by
  induction xs generalizing n with
  | nil => simp
  | cons x xs ih =>
      cases n with
      | zero => exact Nat.le_refl _
      | succ n =>
          rw [dropFirst]
          split_ifs
          · have := ih n
            rw [List.countP_cons]
            split_ifs <;> omega
          · have := ih (n + 1)
            rw [List.countP_cons, List.countP_cons]
            omega

/-- The removed records are the first ones: in front of some place all that `p`
accepts are gone, and behind it nothing is; it is the end of the list unless `n`
records were removed. -/
lemma dropFirst_split (n : ℕ) (xs : List α) :
    ∃ front back, xs = front ++ back ∧
      dropFirst p n xs = front.filter (fun x => !p x) ++ back ∧
      (back = [] ∨ front.countP p = n) ∧ front.countP p ≤ n := by
  induction xs generalizing n with
  | nil => exact ⟨[], [], rfl, by simp, .inl rfl, Nat.zero_le _⟩
  | cons x xs ih =>
      cases n with
      | zero => exact ⟨[], x :: xs, rfl, rfl, .inr rfl, Nat.le_refl _⟩
      | succ n =>
          rw [dropFirst]
          split_ifs with hx
          · obtain ⟨front, back, rfl, hdrop, hback, hle⟩ := ih n
            refine ⟨x :: front, back, rfl, ?_, ?_, ?_⟩
            · rw [hdrop, List.filter_cons_of_neg (by simp [hx])]
            · rw [List.countP_cons_of_pos hx]
              exact hback.imp_right (congrArg (· + 1))
            · rw [List.countP_cons_of_pos hx]
              omega
          · obtain ⟨front, back, rfl, hdrop, hback, hle⟩ := ih (n + 1)
            refine ⟨x :: front, back, rfl, ?_, ?_, ?_⟩
            · rw [hdrop, List.filter_cons_of_pos (by simp [hx])]
              rfl
            · rwa [List.countP_cons_of_neg hx]
            · rwa [List.countP_cons_of_neg hx]

end Roster
