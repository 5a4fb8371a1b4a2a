import PbEntityDb.Format.Conversions

/-!
Formats that are lists of conversions and literal characters.

* `formatOf` and `argsOf` are the format and the arguments of such a list.
* `texts` is what the items print, where each of them has the flags that the ones in
  front have left (`Item.leaves`).
* `prints_iff`: the call prints exactly this text.
-/

namespace PbEntityDb.Format

/-! ### Items -/

/-- A part of a format, with its arguments. `%N` prints a number of three digits. -/
inductive Item where
  | literal (c : Char) (plain : c ≠ '%' ∧ c ≠ '\x00')
  | conversion (c : Conversion)
  | three (flags : List FlagChar) (w : BitVec 64)
  deriving DecidableEq, Repr

namespace Item

def chars : Item → Text
  | literal c _ => [c]
  | conversion c => c.chars
  | three flags _ => '%' :: (flags.map FlagChar.char ++ ['N'])

def args : Item → List Arg
  | literal _ _ => []
  | conversion c => c.args
  | three _ w => [.word .int w]

/-- What an item prints in a large buffer. -/
def text (abi : Abi) (flags : Flags) : Item → Except Stop Text
  | literal c _ => .ok [c]
  | conversion c => c.text abi flags
  | three _ w => (Fast.three w).text abi

/-- The flags behind an item. -/
def leaves (flags : Flags) : Item → Flags
  | literal _ _ => flags
  | conversion c => c.leaves flags
  | three own _ => flags.setAll own

end Item

/-- The arguments of a list of items. -/
def argsOf (items : List Item) : List Arg := items.flatMap Item.args

/-- What a list of items prints in a large buffer. -/
def texts (abi : Abi) : Flags → List Item → Except Stop Text
  | _, [] => .ok []
  | flags, item :: items => do
      let t ← item.text abi flags
      let t' ← texts abi (item.leaves flags) items
      .ok (t ++ t')

/-- The flags behind a list of items. -/
def leaves (flags : Flags) (items : List Item) : Flags := items.foldl Item.leaves flags

/-! ### The format -/

lemma digit_ne_nul (d : Fin 10) : digit d ≠ '\x00' := by
  revert d
  decide

lemma Conversion.nul_free (c : Conversion) : '\x00' ∉ c.chars := by
  have hflags : '\x00' ∉ c.flags.map FlagChar.char := by
    rw [List.mem_map]
    rintro ⟨flag, -, h⟩
    cases flag <;> cases h
  have hdigits : ∀ digits : List (Fin 10), '\x00' ∉ digits.map digit := by
    intro digits h
    obtain ⟨d, -, hd⟩ := List.mem_map.mp h
    exact digit_ne_nul d hd
  have hwidth : '\x00' ∉ c.width.chars := by
    cases c.width with
    | none => exact List.not_mem_nil
    | number first digits => exact hdigits _
    | star w => exact List.not_mem_cons_of_ne_of_not_mem (by decide) List.not_mem_nil
  have hprecision : '\x00' ∉ c.precision.chars := by
    cases c.precision with
    | none => exact List.not_mem_nil
    | number digits => exact List.not_mem_cons_of_ne_of_not_mem (by decide) (hdigits _)
    | star w =>
        refine List.not_mem_cons_of_ne_of_not_mem (by decide) ?_
        exact List.not_mem_cons_of_ne_of_not_mem (by decide) List.not_mem_nil
  have hmodifier : '\x00' ∉ c.modifier.chars := by
    cases c.modifier <;> decide
  have hletter : '\x00' ≠ c.operand.letter := by
    have hletters : ∀ c ∈ "diuoxXcs%".toList, '\x00' ≠ c := by simp
    exact hletters _ c.operand.letter_mem
  simp only [Conversion.chars, Conversion.tail, List.mem_cons, List.mem_append, List.not_mem_nil,
    or_false, not_or]
  exact ⟨by decide, hflags, hwidth, hprecision, hmodifier, hletter⟩

lemma Item.nul_free (item : Item) : '\x00' ∉ item.chars := by
  cases item with
  | literal c plain => exact fun h => plain.2 (List.mem_singleton.mp h).symm
  | conversion c => exact c.nul_free
  | three flags w =>
      simp only [Item.chars, List.mem_cons, List.mem_append, List.mem_map, List.not_mem_nil,
        or_false, not_or]
      refine ⟨by decide, ?_, by decide⟩
      rintro ⟨flag, -, h⟩
      cases flag <;> cases h

/-- The format of a list of items. -/
def formatOf (items : List Item) : CString where
  chars := items.flatMap Item.chars
  nul_free := by
    rw [List.mem_flatMap]
    rintro ⟨item, -, h⟩
    exact item.nul_free h

/-! ### What is printed -/

section Texts

variable {abi : Abi} {flags : Flags}

/-- **The texts of a concatenation.** -/
theorem texts_append (items items' : List Item) {t t' : Text}
    (h : texts abi flags items = .ok t) :
    texts abi flags (items ++ items') = .ok (t ++ t')
      ↔ texts abi (leaves flags items) items' = .ok t' := by
  induction items generalizing flags t with
  | nil =>
      cases h
      rfl
  | cons item items ih =>
      obtain ⟨u, hu, h⟩ := bind_ok h
      obtain ⟨u', hu', h⟩ := bind_ok h
      cases h
      have hnext := @ih _ _ hu'
      have hleaves : leaves flags (item :: items) = leaves (item.leaves flags) items := rfl
      rw [hleaves, ← hnext, List.cons_append, texts, hu, List.append_assoc]
      change (texts abi (item.leaves flags) (items ++ items')).bind _ = _ ↔ _
      cases texts abi (item.leaves flags) (items ++ items') with
      | error stop =>
          constructor <;> intro hfalse <;> cases hfalse
      | ok v =>
          change Except.ok (u ++ v) = _ ↔ _
          rw [Except.ok.injEq, Except.ok.injEq, List.append_cancel_left_eq]

variable (f : Text) {args : List Arg}

/-- A character of the format in any buffer. -/
lemma run_literal_char {c : Char} (hc : c ≠ '%') {out : Output} :
    run abi (between out (c :: f) args flags)
      = (out.outchar c).bind fun out => run abi (between out f args flags) := by
  refine run_bind ?_
  change (if c = '%' then _ else _) = _
  rw [if_neg hc]
  rfl

lemma run_three_chars (own : List FlagChar) (w : BitVec 64) {out : Output} :
    run abi (between out ((Item.three own w).chars ++ f) args flags)
      = run abi (flagsAt out ((Fast.three w).chars ++ f) args (flags.setAll own)) := by
  rw [Item.chars, List.cons_append, run_percent, List.append_assoc, run_flags]
  rfl

/-- An item that has a text. -/
lemma run_item {item : Item} {t : Text} (text : Text) {rest : Text}
    (h : item.text abi flags = .ok t) (hroom : t.length < rest.length) :
    run abi (ready text rest (item.chars ++ f) (item.args ++ args) flags)
      = run abi (ready (text ++ t) (rest.drop t.length) f args (item.leaves flags)) := by
  cases item with
  | literal c plain =>
      cases h
      rw [List.length_singleton] at hroom
      rw [List.length_singleton, List.drop_one]
      exact run_char plain.1 text f flags hroom
  | conversion c => exact run_conversion text f h hroom
  | three own w =>
      rw [run_three_chars]
      exact run_fast text f h hroom

/-- An item that has none. -/
lemma run_item_stopped {item : Item} {stop : Stop} (text : Text) {rest : Text}
    (h : item.text abi flags = .error stop) (hroom : 3 < rest.length) :
    run abi (ready text rest (item.chars ++ f) (item.args ++ args) flags)
      = stop.result (.holding text rest) := by
  cases item with
  | literal c plain => cases h
  | conversion c => exact run_conversion_stopped text f h hroom
  | three own w =>
      rw [run_three_chars]
      exact run_fast_stopped text f h hroom

/-- **The loop over a list of items.** -/
theorem run_items {items : List Item} {t : Text} (text : Text) {rest : Text}
    (h : texts abi flags items = .ok t) (hroom : t.length < rest.length) :
    run abi (ready text rest (formatOf items).chars (argsOf items) flags)
      = run abi (ready (text ++ t) (rest.drop t.length) [] [] (leaves flags items)) := by
  induction items generalizing flags t text rest with
  | nil =>
      cases h
      rw [List.append_nil, List.length_nil, List.drop_zero]
      rfl
  | cons item items ih =>
      obtain ⟨u, hu, h⟩ := bind_ok h
      obtain ⟨u', hu', h⟩ := bind_ok h
      cases h
      rw [List.length_append] at hroom
      have hleaves : leaves flags (item :: items) = leaves (item.leaves flags) items := rfl
      have hdrop : u'.length < (rest.drop u.length).length := by
        rw [List.length_drop]
        omega
      refine (run_item _ text hu (by omega)).trans ((ih (text ++ u) hu' hdrop).trans ?_)
      rw [hleaves, List.append_assoc, List.drop_drop, List.length_append]

/-- The loop over a list with an item that ends it. -/
theorem run_items_stopped {items : List Item} {stop : Stop}
    (h : texts abi flags items = .error stop) :
    ∃ n, ∀ text rest : Text, n < rest.length →
      ∃ out, run abi (ready text rest (formatOf items).chars (argsOf items) flags)
        = stop.result out := by
  induction items generalizing flags with
  | nil => cases h
  | cons item items ih =>
      rw [texts] at h
      cases hitem : item.text abi flags with
      | error stop' =>
          rw [hitem] at h
          cases h
          exact ⟨3, fun text rest hroom => ⟨_, run_item_stopped _ text hitem hroom⟩⟩
      | ok u =>
          rw [hitem] at h
          cases hrest : texts abi (item.leaves flags) items with
          | ok u' =>
              simp only [hrest] at h
              cases h
          | error stop' =>
              simp only [hrest] at h
              cases h
              obtain ⟨n, hn⟩ := ih hrest
              refine ⟨u.length + n, fun text rest hroom => ?_⟩
              obtain ⟨out, hout⟩ := hn (text ++ u) (rest.drop u.length)
                (by rw [List.length_drop]; omega)
              exact ⟨out, (run_item _ text hitem (by omega)).trans hout⟩

/-- **What a call prints** is the text of the items. -/
theorem prints_iff (items : List Item) (t : Text) :
    Prints abi (formatOf items) (argsOf items) t ↔ texts abi .none items = .ok t := by
  have hprints : ∀ u, texts abi .none items = .ok u →
      Prints abi (formatOf items) (argsOf items) u := by
    intro u hu
    refine prints_of_run fun buf hbuf => ?_
    refine ⟨buf.drop u.length, [], leaves .none items, ?_, run_items [] hu hbuf⟩
    rw [List.length_drop]
    omega
  refine ⟨fun h => ?_, hprints t⟩
  cases htexts : texts abi .none items with
  | ok u => rw [(hprints u htexts).unique h]
  | error stop =>
      obtain ⟨n, hn⟩ := run_items_stopped htexts
      refine absurd h (not_prints_of_run (n := n) (fun buf hbuf => ?_) t)
      obtain ⟨out, hout⟩ := hn [] buf hbuf
      rw [hout]
      cases stop with
      | overflow => exact .inr ⟨out, rfl⟩
      | undefined e => exact .inl ⟨e, rfl⟩

end Texts

end PbEntityDb.Format
