import PbEntityDb.Format.Printer

/-!
Turns of the loop in a buffer that is large enough.

* `run_next`, `run_over` and `run_error` follow the loop turn by turn.
* `holding text rest`: the buffer holds a text, and `rest` behind it. What is printed
  moves characters of the text in front of the others (`outchars_holding` and so on).
* `Prints`: a call leaves a text in every buffer that is large enough for it.
-/

namespace PbEntityDb.Format

/-! ### Turn by turn -/

section Turns

variable {abi : Abi} {p p' : Printer}

lemma run_next (h : step abi p = .ok (.next p')) : run abi p = run abi p' := by
  rw [run]
  split
  · simp_all
  · simp_all
  · simp_all

lemma run_over {overflow : Bool} (h : step abi p = .ok (.over overflow p')) :
    run abi p = .ok (overflow, p'.out) := by
  rw [run]
  split
  · simp_all
  · simp_all
  · simp_all

lemma run_error {e : Undefined} (h : step abi p = .error e) : run abi p = .error e := by
  rw [run]
  split
  · simp_all
  · simp_all
  · simp_all

end Turns

/-! ### A buffer that holds a text -/

namespace Output

/-- The text that was printed, and what is behind it in the buffer. -/
def holding (text rest : Text) : Output := ⟨text ++ rest, text.length⟩

lemma size_holding (text rest : Text) : (holding text rest).size = text.length + rest.length :=
  List.length_append

@[simp] lemma len_holding (text rest : Text) : (holding text rest).len = text.length := rfl

lemma store_holding (text : Text) (c ch : Char) (rest : Text) :
    (holding text (c :: rest)).store text.length ch = .ok ⟨text ++ ch :: rest, text.length⟩ := by
  rw [store, size_holding, if_pos (by simp), holding, List.set_append_right _ _ (le_refl _),
    Nat.sub_self, List.set_cons_zero]

lemma advance_eq (text : Text) (ch : Char) (rest : Text) :
    advance ⟨text ++ ch :: rest, text.length⟩ = holding (text ++ [ch]) rest := by
  rw [advance, holding, List.append_assoc, List.singleton_append, List.length_append,
    List.length_singleton]

/-- A store that advances. -/
lemma put_holding (text : Text) (ch : Char) {rest : Text} (h : 0 < rest.length) :
    (holding text rest).put ch = .ok (holding (text ++ [ch]) rest.tail) := by
  cases rest with
  | nil => simp at h
  | cons c rest =>
      rw [put, len_holding, store_holding, Except.map, advance_eq, List.tail_cons]

lemma outchar_holding (text : Text) (ch : Char) {rest : Text} (h : 1 < rest.length) :
    (holding text rest).outchar ch = .ok (holding (text ++ [ch]) rest.tail) := by
  have hroom : (holding text rest).len + 1 < (holding text rest).size := by
    rw [len_holding, size_holding]
    omega
  rw [outchar, if_pos hroom]
  exact put_holding text ch (by omega)

/-- What is appended one by one. -/
lemma append_tail (text : Text) (ch : Char) (t rest : Text) :
    holding (text ++ [ch] ++ t) (rest.tail.drop t.length)
      = holding (text ++ ch :: t) (rest.drop (ch :: t).length) := by
  rw [List.append_assoc, List.singleton_append, List.length_cons, ← List.drop_one,
    List.drop_drop, Nat.add_comm]

lemma outchars_holding (t : Text) (text : Text) {rest : Text} (h : t.length < rest.length) :
    (holding text rest).outchars t = .ok (holding (text ++ t) (rest.drop t.length)) := by
  induction t generalizing text rest with
  | nil => rw [outchars, List.append_nil, List.length_nil, List.drop_zero]
  | cons ch t ih =>
      rw [List.length_cons] at h
      rw [outchars, outchar_holding text ch (by omega)]
      change outchars _ t = _
      rw [ih _ (by rw [List.length_tail]; omega), append_tail]

lemma copy_holding (t : Text) (text : Text) {rest : Text} (h : t.length ≤ rest.length) :
    (holding text rest).copy t = .ok (holding (text ++ t) (rest.drop t.length)) := by
  induction t generalizing text rest with
  | nil => rw [copy, List.append_nil, List.length_nil, List.drop_zero]
  | cons ch t ih =>
      rw [List.length_cons] at h
      rw [copy, put_holding text ch (by omega)]
      change copy _ t = _
      rw [ih _ (by rw [List.length_tail]; omega), append_tail]

/-- What does not fit is not stored. -/
lemma copy_holding_error (t : Text) (text : Text) {rest : Text} (h : rest.length < t.length) :
    (holding text rest).copy t = .error .store := by
  induction t generalizing text rest with
  | nil => exact absurd h (Nat.not_lt_zero _)
  | cons ch t ih =>
      cases rest with
      | nil =>
          have hfull : ¬ (holding text []).len < (holding text []).size := by
            rw [len_holding, size_holding, List.length_nil]
            omega
          rw [copy, put, store, if_neg hfull]
          rfl
      | cons c rest =>
          rw [copy, put_holding text ch (by simp)]
          exact ih _ (by simpa using h)

lemma fastString_holding (t : Text) (text : Text) {rest : Text} (h : t.length < rest.length) :
    (holding text rest).fastString t = .ok (holding (text ++ t) (rest.drop t.length)) := by
  induction t generalizing text rest with
  | nil => rw [fastString, List.append_nil, List.length_nil, List.drop_zero]
  | cons ch t ih =>
      rw [List.length_cons] at h
      have hroom : (holding text rest).len + 1 < (holding text rest).size := by
        rw [len_holding, size_holding]
        omega
      rw [fastString, if_pos hroom, put_holding text ch (by omega)]
      change fastString _ t = _
      rw [ih _ (by rw [List.length_tail]; omega), append_tail]

lemma digits_holding (scratch : Text) (text : Text) {rest : Text}
    (h : (scratch.dropWhile (· = '0')).length < rest.length) :
    (holding text rest).digits scratch
      = .ok (holding (text ++ scratch.dropWhile (· = '0'))
        (rest.drop (scratch.dropWhile (· = '0')).length)) := by
  rw [digits, if_pos (by rw [len_holding, size_holding]; omega), List.take_length]
  exact copy_holding _ text h.le

end Output

/-! ### Calls -/

/-- **The call prints a text**: in every buffer that is large enough it leaves the text
with a NUL behind it, and its length in `len`. -/
def Prints (abi : Abi) (format : CString) (args : List Arg) (t : Text) : Prop :=
  ∀ buf : Text, t.length < buf.length →
    ∃ rest, vsnprintf abi buf format args = .ok ⟨t ++ '\x00' :: rest, t.length, false⟩

/-- The loop between two conversions, with flags that are still set. -/
def between (out : Output) (format : Text) (args : List Arg) (flags : Flags) : Printer :=
  ⟨out, .default, format, args, 0, .none, flags, 0, -1⟩

/-- The same in a buffer that holds a text. -/
abbrev ready (text rest format : Text) (args : List Arg) (flags : Flags) : Printer :=
  between (.holding text rest) format args flags

section Calls

variable {abi : Abi} {format : CString} {args : List Arg}

lemma atOver_holding (overflow : Bool) (text : Text) {rest : Text} (h : 0 < rest.length) :
    atOver overflow (.holding text rest)
      = .ok ⟨text ++ '\x00' :: rest.tail, text.length, overflow⟩ := by
  cases rest with
  | nil => simp at h
  | cons c rest =>
      rw [atOver, if_pos (by rw [Output.size_holding, Output.len_holding]; simp),
        Output.len_holding, Output.store_holding]
      rfl

/-- The end of the format. -/
lemma run_nil (text rest : Text) (flags : Flags) :
    run abi (ready text rest [] args flags) = .ok (false, .holding text rest) := by
  have hstep : step abi (ready text rest [] args flags)
      = .ok (.over false (ready text rest [] args flags)) := rfl
  exact run_over hstep

/-- A character that is no conversion. -/
lemma run_char {c : Char} (hc : c ≠ '%') (text f : Text) {rest : Text} (flags : Flags)
    (h : 1 < rest.length) :
    run abi (ready text rest (c :: f) args flags)
      = run abi (ready (text ++ [c]) rest.tail f args flags) := by
  refine run_next ?_
  change (if c = '%' then _ else _) = _
  rw [if_neg hc]
  change (Output.outchar (.holding text rest) c).bind _ = _
  rw [Output.outchar_holding text c h]
  rfl

lemma vsnprintf_eq {buf : Text} (h : 0 < buf.length) :
    vsnprintf abi buf format args
      = (run abi (ready [] buf format.chars args .none)).bind fun r => atOver r.1 r.2 := by
  rw [vsnprintf, if_neg (by omega)]
  rfl

/-- **What a call prints**, followed to the end of the format. -/
lemma prints_of_run {t : Text}
    (h : ∀ buf : Text, t.length < buf.length → ∃ rest args' flags, 0 < rest.length
      ∧ run abi (ready [] buf format.chars args .none) = run abi (ready t rest [] args' flags)) :
    Prints abi format args t := by
  intro buf hbuf
  obtain ⟨rest, args', flags, hrest, hrun⟩ := h buf hbuf
  refine ⟨rest.tail, ?_⟩
  rw [vsnprintf_eq (by omega), hrun, run_nil]
  exact atOver_holding false t hrest

/-- A call prints one text. -/
lemma Prints.unique {t t' : Text} (h : Prints abi format args t) (h' : Prints abi format args t') :
    t = t' := by
  obtain ⟨rest, hcall⟩ :=
    h (List.replicate (t.length + t'.length + 1) ' ') (by rw [List.length_replicate]; omega)
  obtain ⟨rest', hcall'⟩ :=
    h' (List.replicate (t.length + t'.length + 1) ' ') (by rw [List.length_replicate]; omega)
  rw [hcall, Except.ok.injEq, Result.mk.injEq] at hcall'
  exact List.append_inj_left hcall'.1 hcall'.2.1

/-- A call that ends otherwise, or with an overflow, in a large buffer prints nothing. -/
lemma not_prints_of_run {n : ℕ}
    (h : ∀ buf : Text, n < buf.length →
      (∃ e, run abi (ready [] buf format.chars args .none) = .error e)
        ∨ ∃ out, run abi (ready [] buf format.chars args .none) = .ok (true, out)) (t : Text) :
    ¬ Prints abi format args t := by
  intro hprints
  have hlen : (List.replicate (n + t.length + 1) ' ').length = n + t.length + 1 :=
    List.length_replicate
  obtain ⟨rest, hcall⟩ := hprints (List.replicate (n + t.length + 1) ' ') (by omega)
  rw [vsnprintf_eq (by omega)] at hcall
  rcases h (List.replicate (n + t.length + 1) ' ') (by omega) with ⟨e, hrun⟩ | ⟨out, hrun⟩
  · rw [hrun] at hcall
    cases hcall
  · rw [hrun] at hcall
    change (out.store _ _).map _ = _ at hcall
    cases hstore : out.store (if out.len < out.size then out.len else out.size - 1) '\x00' with
    | error e =>
        rw [hstore] at hcall
        cases hcall
    | ok out' =>
        rw [hstore] at hcall
        have hoverflow : true = false := congrArg Result.overflow (Except.ok.inj hcall)
        cases hoverflow

end Calls

/-! ### Literal text -/

/-- Text without conversions. -/
structure Literal where
  chars : Text
  plain : ∀ c ∈ chars, c ≠ '%' ∧ c ≠ '\x00'

/-- **Literal text** is printed as it is. -/
lemma run_literal {abi : Abi} (l : Literal) (text f : Text) {rest : Text} {args : List Arg}
    (flags : Flags) (h : l.chars.length < rest.length) :
    run abi (ready text rest (l.chars ++ f) args flags)
      = run abi (ready (text ++ l.chars) (rest.drop l.chars.length) f args flags) := by
  obtain ⟨chars, hplain⟩ := l
  induction chars generalizing text rest with
  | nil => rw [List.nil_append, List.append_nil, List.length_nil, List.drop_zero]
  | cons c chars ih =>
      obtain ⟨hc, hchars⟩ := List.forall_mem_cons.mp hplain
      simp only [List.length_cons] at h
      have htail : chars.length < rest.tail.length := by
        rw [List.length_tail]
        omega
      rw [List.cons_append, run_char hc.1 text _ flags (by omega), ih _ hchars htail]
      simp only [ready, Output.append_tail]

end PbEntityDb.Format
