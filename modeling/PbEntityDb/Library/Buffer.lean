import Mathlib.Tactic

/-!
Text written into a fixed array, from index `0` upwards.

A loop that fills `char buf[cap]` at a running offset is followed through the
text written so far. Every store of such a loop lies behind the previous one,
so a run stays inside the array exactly if the whole text fits.

* `sepBy` is the text of a list of items with a separator between neighbours,
  `putEach` the loop that writes it item by item, and `putEach_eq` says that
  the loop writes exactly this text, or leaves the array exactly if the text
  does not fit.
* `terminate` is the terminator stored behind the text; `fill_eq` joins the two.
-/

namespace Buffer

variable {α β : Type}

/-! ### Separated lists -/

/-- The items of `xs` with `sep` between neighbours, and also in front of the
first one if something was written before it. -/
def sepBy (sep : List β) (item : α → List β) : Bool → List α → List β
  | _, [] => []
  | started, x :: xs => (if started then sep else []) ++ item x ++ sepBy sep item true xs

@[simp] lemma sepBy_nil (sep : List β) (item : α → List β) (b : Bool) :
    sepBy sep item b [] = [] := rfl

lemma sepBy_cons (sep : List β) (item : α → List β) (b : Bool) (x : α) (xs : List α) :
    sepBy sep item b (x :: xs)
      = (if b then sep else []) ++ item x ++ sepBy sep item true xs := rfl

/-- A list written after another one goes on with the separator, unless
nothing was written at all. -/
lemma sepBy_append (sep : List β) (item : α → List β) (b : Bool) (xs ys : List α) :
    sepBy sep item b (xs ++ ys)
      = sepBy sep item b xs ++ sepBy sep item (b || !xs.isEmpty) ys := by
  induction xs generalizing b with
  | nil => simp
  | cons x xs ih => simp [sepBy_cons, ih]

/-- Only the empty list is written as nothing. -/
lemma sepBy_eq_nil_iff {sep : List β} {item : α → List β} (hitem : ∀ x, item x ≠ [])
    (b : Bool) (xs : List α) : sepBy sep item b xs = [] ↔ xs = [] := by
  cases xs with
  | nil => simp
  | cons x xs => simp [sepBy_cons, hitem x]

lemma sepBy_map {γ : Type} (sep : List β) (item : α → List β) (g : γ → α) (b : Bool)
    (xs : List γ) : sepBy sep item b (xs.map g) = sepBy sep (fun x => item (g x)) b xs := by
  induction xs generalizing b with
  | nil => rfl
  | cons x xs ih => rw [List.map_cons, sepBy_cons, sepBy_cons, ih]

lemma length_le_sepBy (sep : List β) {item : α → List β} (hitem : ∀ x, item x ≠ []) (b : Bool)
    (xs : List α) : xs.length ≤ (sepBy sep item b xs).length := by
  induction xs generalizing b with
  | nil => simp
  | cons x xs ih =>
      have hx := List.length_pos_of_ne_nil (hitem x)
      have hxs := ih true
      simp only [sepBy_cons, List.length_append, List.length_cons]
      omega

/-- What occurs neither in the separator nor in an item does not occur in the text. -/
lemma notMem_sepBy {c : β} {sep : List β} {item : α → List β} (hsep : c ∉ sep)
    (hitem : ∀ x, c ∉ item x) (b : Bool) (xs : List α) : c ∉ sepBy sep item b xs := by
  induction xs generalizing b with
  | nil => exact List.not_mem_nil
  | cons x xs ih =>
      rw [sepBy_cons, List.mem_append, List.mem_append, not_or, not_or]
      refine ⟨⟨?_, hitem x⟩, ih true⟩
      split
      · exact hsep
      · exact List.not_mem_nil

/-! ### Writing into the array -/

/-- The store of `cs` behind the text `buf`: `none` if it leaves the array. -/
def put (cap : ℕ) (buf cs : List β) : Option (List β) :=
  if buf.length + cs.length ≤ cap then some (buf ++ cs) else none

/-- The loop that writes a separated list item by item. -/
def putEach (cap : ℕ) (sep : List β) (item : α → List β) :
    Bool → List α → List β → Option (List β)
  | _, [], buf => some buf
  | started, x :: xs, buf => do
      let buf ← if started then put cap buf sep else some buf
      let buf ← put cap buf (item x)
      putEach cap sep item true xs buf

/-- The store of the terminator: the index behind the text has to exist. -/
def terminate (cap : ℕ) (buf : List β) : Option (List β) :=
  if buf.length < cap then some buf else none

lemma put_eq (cap : ℕ) (buf cs : List β) :
    put cap buf cs = if (buf ++ cs).length ≤ cap then some (buf ++ cs) else none := by
  simp [put]

/-- **The loop writes the separated list**, or leaves the array exactly if the
list does not fit behind what was written before. -/
theorem putEach_eq (cap : ℕ) (sep : List β) (item : α → List β) (b : Bool) (xs : List α)
    (buf : List β) (hbuf : buf.length ≤ cap) :
    putEach cap sep item b xs buf
      = if (buf ++ sepBy sep item b xs).length ≤ cap
          then some (buf ++ sepBy sep item b xs) else none := by
  induction xs generalizing b buf with
  | nil => simp [putEach, hbuf]
  | cons x xs ih =>
      -- one round writes the separator, if any, and the item
      have hround : ∀ buf' : List β, buf'.length ≤ cap →
          (do let b ← put cap buf' (item x); putEach cap sep item true xs b)
            = if (buf' ++ item x ++ sepBy sep item true xs).length ≤ cap
                then some (buf' ++ item x ++ sepBy sep item true xs) else none := by
        intro buf' _
        by_cases hx : (buf' ++ item x).length ≤ cap
        · rw [put_eq, if_pos hx]
          exact ih true (buf' ++ item x) hx
        · have hlong : ¬ (buf' ++ item x ++ sepBy sep item true xs).length ≤ cap := by
            simp only [List.length_append] at hx ⊢
            omega
          rw [put_eq, if_neg hx, if_neg hlong]
          rfl
      cases b with
      | false => simpa [putEach, sepBy_cons] using hround buf hbuf
      | true =>
          by_cases hs : (buf ++ sep).length ≤ cap
          · have hstart : putEach cap sep item true (x :: xs) buf
                = (do let b ← put cap (buf ++ sep) (item x); putEach cap sep item true xs b) := by
              rw [putEach, if_pos rfl, put_eq cap buf sep, if_pos hs]
              rfl
            rw [hstart, hround (buf ++ sep) hs, sepBy_cons, if_pos rfl]
            simp only [List.append_assoc]
          · have hlong : ¬ (buf ++ sepBy sep item true (x :: xs)).length ≤ cap := by
              simp only [sepBy_cons, List.length_append, if_true] at hs ⊢
              omega
            rw [putEach, if_pos rfl, put_eq cap buf sep, if_neg hs, if_neg hlong]
            rfl

/-- A fresh array filled with one separated list and its terminator holds the
list exactly if there is room for both. -/
theorem fill_eq (cap : ℕ) (sep : List β) (item : α → List β) (xs : List α) :
    (putEach cap sep item false xs []).bind (terminate cap)
      = if (sepBy sep item false xs).length < cap
          then some (sepBy sep item false xs) else none := by
  rw [putEach_eq cap sep item false xs [] (Nat.zero_le _), List.nil_append]
  by_cases h : (sepBy sep item false xs).length ≤ cap
  · rw [if_pos h]; rfl
  · rw [if_neg h, if_neg (by omega)]; rfl

/-- A separated list behind a first text, closed by a last one: the array holds
all three exactly if there is room for them and the terminator. -/
theorem fill_between (cap : ℕ) (sep : List β) (item : α → List β) (xs : List α)
    (first last : List β) (hfirst : first.length ≤ cap) :
    ((putEach cap sep item false xs first).bind fun b => put cap b last).bind (terminate cap)
      = if (first ++ sepBy sep item false xs ++ last).length < cap
          then some (first ++ sepBy sep item false xs ++ last) else none := by
  have hlen : (first ++ sepBy sep item false xs ++ last).length
      = (first ++ sepBy sep item false xs).length + last.length := List.length_append
  rw [putEach_eq cap sep item false xs first hfirst]
  by_cases h : (first ++ sepBy sep item false xs).length ≤ cap
  · rw [if_pos h, Option.bind_some, put_eq]
    by_cases hl : (first ++ sepBy sep item false xs ++ last).length ≤ cap
    · rw [if_pos hl]; rfl
    · rw [if_neg hl, if_neg (by omega)]; rfl
  · rw [if_neg h, if_neg (by omega)]; rfl

end Buffer
