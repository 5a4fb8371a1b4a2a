import Mathlib
import PbEntityDb.Service.Limits

/-!
The table of an entity: `__convert_entity_to_table` on names in CamelCase.

* `snake` is the name in small letters, with an underscore in front of every
  capital but the first; `camel` reads such a name back (`camel_snake`).
* `convertEntityToTable_camelCase` says what the converter makes of a name: the
  snake form of its first 1023 letters.
* `naming_faithful` is what follows for names without a letter beyond these, and
  `long_names_collide` what happens to two names with one.
-/

namespace PbEntityDb

namespace Service

/-! ### The two forms of a name -/

/-- A capital, and then letters and digits. -/
def CamelCase : Text → Prop
  | [] => False
  | c :: cs => c.isUpper = true ∧ ∀ x ∈ cs, x.isAlphanum = true

/-- A letter behind the first one in the snake form. -/
def snakeLetter (c : Char) : Text := if c.isUpper then ['_', c.toLower] else [c.toLower]

/-- The name in small letters, with an underscore in front of every capital but
the first. -/
def snake : Text → Text
  | [] => []
  | c :: cs => c.toLower :: cs.flatMap snakeLetter

/-- The letters behind the first one, read back. -/
def camelTail : Text → Text
  | [] => []
  | [c] => [c]
  | c :: d :: cs => if c = '_' then d.toUpper :: camelTail cs else c :: camelTail (d :: cs)

/-- The name that has a snake form. -/
def camel : Text → Text
  | [] => []
  | c :: cs => c.toUpper :: camelTail cs

lemma camelTail_cons_of_ne {c : Char} (h : c ≠ '_') (cs : Text) :
    camelTail (c :: cs) = c :: camelTail cs := by
  cases cs with
  | nil => rfl
  | cons d cs => exact if_neg h

lemma toUpper_toLower {c : Char} (h : c.isUpper = true) : c.toLower.toUpper = c := by
  rw [Char.toUpper_toLower_eq_toUpper,
    Char.toUpper_eq_of_not_isLower (Char.not_isLower_of_isUpper h)]

lemma camelTail_snakeLetters {cs : Text} (h : ∀ x ∈ cs, x.isAlphanum = true) :
    camelTail (cs.flatMap snakeLetter) = cs := by
  induction cs with
  | nil => rfl
  | cons c cs ih =>
      have hrest := ih fun x hx => h x (List.mem_cons_of_mem _ hx)
      rw [List.flatMap_cons, snakeLetter]
      by_cases hc : c.isUpper = true
      · rw [if_pos hc]
        show c.toLower.toUpper :: camelTail (cs.flatMap snakeLetter) = c :: cs
        rw [toUpper_toLower hc, hrest]
      · have hne : c ≠ '_' := fun heq => by
          have halnum := h c List.mem_cons_self
          rw [heq] at halnum
          exact absurd halnum (by decide)
        rw [if_neg hc, Char.toLower_eq_of_not_isUpper hc, List.singleton_append,
          camelTail_cons_of_ne hne, hrest]

/-- **A name is read back from its snake form.** -/
theorem camel_snake {name : Text} (h : CamelCase name) : camel (snake name) = name := by
  cases name with
  | nil => exact h.elim
  | cons c cs =>
      rw [snake, camel, toUpper_toLower h.1, camelTail_snakeLetters h.2]

/-! ### The converter -/

/-- What is written behind the first letter. -/
lemma flatMap_converted_tail {cs : Text} {n : ℕ} (hn : 0 < n) :
    (cs.zipIdx n).flatMap converted = cs.flatMap snakeLetter := by
  induction cs generalizing n with
  | nil => rfl
  | cons c cs ih =>
      rw [List.zipIdx_cons, List.flatMap_cons, List.flatMap_cons, ih (Nat.succ_pos n), converted,
        snakeLetter]
      by_cases hc : c.isUpper = true
      · rw [if_pos hc, if_pos hn, if_pos hc]
        rfl
      · rw [if_neg hc, if_neg hc, Char.toLower_eq_of_not_isUpper hc]

lemma flatMap_converted (name : Text) : name.zipIdx.flatMap converted = snake name := by
  cases name with
  | nil => rfl
  | cons c cs =>
      rw [List.zipIdx_cons, List.flatMap_cons, flatMap_converted_tail (Nat.succ_pos 0), snake,
        converted]
      by_cases hc : c.isUpper = true
      · rw [if_pos hc]
        rfl
      · rw [if_neg hc, Char.toLower_eq_of_not_isUpper hc]
        rfl

/-- **What the converter makes of a name**: the snake form of the letters that it
reads, if there is room for it. -/
theorem convertEntityToTable_snake (name : Text) :
    convertEntityToTable name
      = if (snake (lettersRead name)).length ≤ tableNameSize then .ok (snake (lettersRead name))
        else .error .bufferOverflow := by
  rw [convertEntityToTable_eq, flatMap_converted]

/-- A name is read to its end. -/
lemma lettersRead_eq {name : Text} (h : name.length < tableNameSize) : lettersRead name = name :=
  List.take_of_length_le (by omega)

/-- **The naming of tables is faithful** for the names that are read to their end. -/
theorem naming_faithful :
    (∀ name, CamelCase name → name.length < tableNameSize → (snake name).length ≤ tableNameSize →
        convertEntityToTable name = .ok (snake name))
      ∧ ∀ name name', CamelCase name → name.length < tableNameSize →
        (snake name).length ≤ tableNameSize → CamelCase name' → name'.length < tableNameSize →
        (snake name').length ≤ tableNameSize →
        convertEntityToTable name = convertEntityToTable name' → name = name' := by
  have hname : ∀ name : Text, name.length < tableNameSize →
      (snake name).length ≤ tableNameSize → convertEntityToTable name = .ok (snake name) := by
    intro name hlen hfits
    rw [convertEntityToTable_snake, lettersRead_eq hlen, if_pos hfits]
  refine ⟨fun name _ => hname name, ?_⟩
  intro name name' hcamel hlen hfits hcamel' hlen' hfits' heq
  rw [hname name hlen hfits, hname name' hlen' hfits'] at heq
  calc name = camel (snake name) := (camel_snake hcamel).symm
    _ = camel (snake name') := by rw [Except.ok.inj heq]
    _ = name' := camel_snake hcamel'

/-- The table of an entity type. -/
theorem accountInfo_table :
    convertEntityToTable "AccountInfo".toList = .ok "account_info".toList :=
  naming_faithful.1 "AccountInfo".toList ⟨rfl, List.all_eq_true.mp rfl⟩ (by decide +kernel)
    (by decide +kernel)

/-! ### Names of 1024 letters -/

/-- A name of 1024 letters with the last one given. -/
def longName (c : Char) : Text := 'A' :: (List.replicate 1022 'a' ++ [c])

lemma camelCase_longName {c : Char} (hc : c.isAlphanum = true) : CamelCase (longName c) := by
  refine ⟨rfl, fun x hx => ?_⟩
  rcases List.mem_append.mp hx with hx | hx
  · rw [List.eq_of_mem_replicate hx]
    rfl
  · rwa [List.mem_singleton.mp hx]

/-- A name without further capitals takes as many places as it has letters. -/
lemma length_snake_longName {c : Char} (hc : c.isUpper = false) :
    (snake (longName c)).length = tableNameSize := by
  have hcount : (List.replicate 1022 'a' ++ [c]).countP Char.isUpper = 0 := by
    rw [List.countP_append, List.countP_replicate, List.countP_singleton, if_neg (by decide), hc]
    rfl
  have htail := length_converted_tail (List.replicate 1022 'a' ++ [c]) (Nat.succ_pos 0)
  rw [flatMap_converted_tail (Nat.succ_pos 0), hcount, List.length_append,
    List.length_replicate] at htail
  rw [longName, snake, List.length_cons, htail]
  rfl

/-- The last letter of such a name is not read. -/
lemma lettersRead_longName (c : Char) :
    lettersRead (longName c) = 'A' :: List.replicate 1022 'a' := by
  show 'A' :: (List.replicate 1022 'a' ++ [c]).take 1022 = _
  rw [List.take_left' List.length_replicate]

/-- Two names of 1024 letters have a snake form that fits, and the same table. -/
theorem long_names_collide :
    ¬ ((∀ name, CamelCase name → (snake name).length ≤ tableNameSize →
          convertEntityToTable name = .ok (snake name))
        ∧ ∀ name name', CamelCase name → (snake name).length ≤ tableNameSize →
          CamelCase name' → (snake name').length ≤ tableNameSize →
          convertEntityToTable name = convertEntityToTable name' → name = name') := by
  rintro ⟨-, hinjective⟩
  have hsame : convertEntityToTable (longName 'x') = convertEntityToTable (longName 'y') := by
    rw [convertEntityToTable_snake, convertEntityToTable_snake, lettersRead_longName,
      lettersRead_longName]
  have heq := hinjective (longName 'x') (longName 'y') (camelCase_longName (by decide))
    (length_snake_longName (by decide)).le (camelCase_longName (by decide))
    (length_snake_longName (by decide)).le hsame
  have hlast := congrArg List.getLast? heq
  simp only [longName, ← List.cons_append, List.getLast?_append, List.getLast?_singleton] at hlast
  exact absurd hlast (by decide)

end Service

end PbEntityDb
