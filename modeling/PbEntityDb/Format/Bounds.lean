import PbEntityDb.Format.Items
import PbEntityDb.Library.Avoids

/-!
Stores into the buffer.

* The functions of `Output` store inside the buffer and do not change its size; most of
  them always return (`outchars_ok`, `copy_ok`, `digits_ok` and so on).
* `step_avoids` says so of a turn of the loop, `vsnprintf_avoids` of a call, which also
  leaves a NUL.
* `Item.Admissible` are the items that are defined, `Ends` is the loop that returns from
  any state of the buffer.
* `stores_bounded`: no call stores outside the buffer, and calls with such items return.
-/

namespace PbEntityDb.Format

open Numerals

/-! ### What is stored -/

namespace Output

variable {out : Output}

lemma store_ok {i : ℕ} (ch : Char) (h : i < out.size) :
    out.store i ch = .ok ⟨out.buf.set i ch, out.len⟩ :=
  if_pos h

lemma put_ok (ch : Char) (h : out.len < out.size) :
    ∃ out', out.put ch = .ok out' ∧ out'.size = out.size ∧ out'.len = out.len + 1 := by
  refine ⟨⟨out.buf.set out.len ch, out.len + 1⟩, ?_, List.length_set, rfl⟩
  rw [put, store_ok ch h]
  rfl

/-- `OUTCHAR` always returns. -/
lemma outchar_ok (ch : Char) : ∃ out', out.outchar ch = .ok out' ∧ out'.size = out.size := by
  by_cases hroom : out.len + 1 < out.size
  · obtain ⟨out', hput, hsize, -⟩ := put_ok ch (show out.len < out.size by omega)
    exact ⟨out', by rw [outchar, if_pos hroom]; exact hput, hsize⟩
  · exact ⟨out.advance, by rw [outchar, if_neg hroom]; rfl, rfl⟩

lemma outchars_ok (t : Text) : ∃ out', out.outchars t = .ok out' ∧ out'.size = out.size := by
  induction t generalizing out with
  | nil => exact ⟨out, rfl, rfl⟩
  | cons ch t ih =>
      obtain ⟨out', hchar, hsize⟩ := @outchar_ok out ch
      obtain ⟨out'', hchars, hsize'⟩ := @ih out'
      refine ⟨out'', ?_, hsize'.trans hsize⟩
      rw [outchars, hchar]
      exact hchars

/-- A copy that fits. -/
lemma copy_ok {t : Text} (h : out.len + t.length ≤ out.size) :
    ∃ out', out.copy t = .ok out' ∧ out'.size = out.size := by
  induction t generalizing out with
  | nil => exact ⟨out, rfl, rfl⟩
  | cons ch t ih =>
      rw [List.length_cons] at h
      obtain ⟨out', hput, hsize, hlen⟩ := put_ok ch (show out.len < out.size by omega)
      obtain ⟨out'', hcopy, hsize'⟩ := @ih out' (by rw [hlen, hsize]; omega)
      refine ⟨out'', ?_, hsize'.trans hsize⟩
      rw [copy, hput]
      exact hcopy

/-- **The digits of a block** are cut to what is left of the buffer. -/
lemma digits_ok (scratch : Text) (h : out.len ≤ out.size) :
    ∃ out', out.digits scratch = .ok out' ∧ out'.size = out.size := by
  rw [digits]
  refine copy_ok ?_
  rw [List.length_take]
  split <;> omega

lemma minus_ok (negative : Prop) [Decidable negative] (h : out.len + 1 < out.size) :
    ∃ out', out.minus negative = .ok out' ∧ out'.size = out.size ∧ out'.len ≤ out'.size := by
  rw [minus]
  split
  · obtain ⟨out', hput, hsize, hlen⟩ := put_ok '-' (show out.len < out.size by omega)
    exact ⟨out', hput, hsize, by omega⟩
  · exact ⟨out, rfl, rfl, by omega⟩

lemma fastChar_ok (v : Char) : ∃ out', out.fastChar v = .ok out' ∧ out'.size = out.size := by
  rw [fastChar]
  split
  · obtain ⟨out', hput, hsize, -⟩ := put_ok v (show out.len < out.size by omega)
    exact ⟨out', hput, hsize⟩
  · exact ⟨out, rfl, rfl⟩

lemma fastString_ok (v : Text) : ∃ out', out.fastString v = .ok out' ∧ out'.size = out.size := by
  induction v generalizing out with
  | nil => exact ⟨out, rfl, rfl⟩
  | cons ch v ih =>
      rw [fastString]
      split
      · obtain ⟨out', hput, hsize, -⟩ := put_ok ch (show out.len < out.size by omega)
        obtain ⟨out'', hrest, hsize'⟩ := @ih out'
        refine ⟨out'', ?_, hsize'.trans hsize⟩
        rw [hput]
        exact hrest
      · exact ⟨out, rfl, rfl⟩

/-- A number of three digits that is in the table. -/
lemma fastNumber_ok {v1 : ℤ} {entry : Text} (h : atoiTab v1 = .ok entry) :
    ∃ out', out.fastNumber v1 = .ok out' ∧ out'.size = out.size := by
  rw [fastNumber, h]
  split
  · exact copy_ok (by rw [length_atoiTab h]; omega)
  · exact ⟨out, rfl, rfl⟩

end Output

/-! ### Turns -/

/-- The variables behind a turn. -/
def Turn.printer : Turn → Printer
  | .next p => p
  | .over _ p => p

section Turns

variable {abi : Abi} {p : Printer}

/-- The arguments and the table have errors of their own. -/
lemma vaWord_avoids (type : CType) (args : List Arg) :
    Avoids Undefined.store (fun _ => True) (vaWord type args) := by
  rw [vaWord.eq_def]
  split
  · split
    · exact .ok trivial
    · exact .error (by decide)
  · exact .error (by decide)

lemma vaString_avoids (args : List Arg) :
    Avoids Undefined.store (fun _ => True) (vaString args) := by
  rw [vaString.eq_def]
  split
  · exact .ok trivial
  · exact .error (by decide)

lemma vaPointer_avoids (args : List Arg) :
    Avoids Undefined.store (fun _ => True) (vaPointer args) := by
  rw [vaPointer.eq_def]
  split
  · exact .ok trivial
  · exact .error (by decide)

lemma readValue_avoids (signed : Bool) (cflags : Modifier) (args : List Arg) :
    Avoids Undefined.store (fun _ => True) (readValue abi signed cflags args) :=
  (vaWord_avoids cflags.type args).bind fun _ _ => .ok trivial

lemma atoiTab_avoids (i : ℤ) : Avoids Undefined.store (fun _ => True) (atoiTab i) := by
  rw [atoiTab]
  split
  · exact .ok trivial
  · exact .error (by decide)

lemma scratchLoop_avoids (room : ℕ) (v1 : ℤ) (s : Text) :
    Avoids Undefined.store (fun _ => True) (scratchLoop room v1 s) := by
  induction room generalizing v1 s with
  | zero => exact .error (by decide)
  | succ room ih =>
      rw [scratchLoop]
      refine (atoiTab_avoids _).bind fun entry _ => ?_
      split
      · exact ih _ _
      · exact .ok trivial

/-- What a turn keeps of the buffer. -/
abbrev SameSize (p : Printer) (t : Turn) : Prop := t.printer.out.size = p.out.size

lemma fastInteger_avoids (signed : Bool) (type : CType) (behindCh after : Text) :
    Avoids Undefined.store (SameSize p) (fastInteger abi signed type behindCh after p) := by
  rw [fastInteger]
  refine (vaWord_avoids type p.args).bind fun r _ => ?_
  obtain ⟨w, args⟩ := r
  dsimp only
  split
  · exact .ok rfl
  · rename_i hroom
    split
    · refine (Avoids.of_ok (Output.put_ok '0' (by omega))).bind fun out hout => ?_
      exact .ok hout.1
    · refine (Avoids.of_ok (Output.minus_ok _ (by omega))).bind fun out hout => ?_
      refine (scratchLoop_avoids _ _ _).bind fun scratch _ => ?_
      refine (Avoids.of_ok (Output.digits_ok scratch hout.2)).bind fun out' hout' => ?_
      exact .ok (hout'.trans hout.1)

lemma fastNumber_avoids {out : Output} (v1 : ℤ) :
    Avoids Undefined.store (fun out' => out'.size = out.size) (out.fastNumber v1) := by
  cases htable : atoiTab v1 with
  | ok entry => exact .of_ok (Output.fastNumber_ok htable)
  | error e =>
      rw [Output.fastNumber, htable]
      split
      · exact .error fun he => (atoiTab_avoids v1).avoids (htable.trans (congrArg _ he))
      · exact .ok rfl

lemma stepFlags_avoids (ch : Char) (format : Text) :
    Avoids Undefined.store (SameSize p) (stepFlags abi ch format p) := by
  rw [stepFlags.eq_def]
  split
  -- the flags
  iterate 6
    · exact .ok rfl
  · refine (vaWord_avoids .int p.args).bind fun r _ => ?_
    exact (Avoids.of_ok (Output.fastChar_ok _)).bind fun out hout => .ok hout
  · refine (vaString_avoids p.args).bind fun r _ => ?_
    obtain ⟨s, args⟩ := r
    cases s with
    | none => exact .error (by decide)
    | some v => exact (Avoids.of_ok (Output.fastString_ok _)).bind fun out hout => .ok hout
  iterate 3
    · exact fastInteger_avoids _ _ _ _
  · split
    iterate 6
      · exact fastInteger_avoids _ _ _ _
    · exact .ok rfl
  · exact (vaWord_avoids .int p.args).bind fun r _ =>
      (fastNumber_avoids _).bind fun out hout => .ok hout
  · exact .ok rfl

lemma stepWidth_avoids (ch : Char) (format : Text) :
    Avoids Undefined.store (SameSize p) (stepWidth ch format p) := by
  rw [stepWidth]
  split
  · split
    · exact .ok rfl
    · exact .ok rfl
  · split
    · refine (vaWord_avoids .int p.args).bind fun r _ => ?_
      dsimp only
      split
      · exact .error (by decide)
      · split
        · exact .ok rfl
        · exact .ok rfl
    · exact .ok rfl

lemma stepPrecision_avoids (ch : Char) (format : Text) :
    Avoids Undefined.store (SameSize p) (stepPrecision ch format p) := by
  rw [stepPrecision]
  dsimp only
  split
  · split
    · exact .ok rfl
    · exact .ok rfl
  · split
    · exact (vaWord_avoids .int p.args).bind fun r _ => .ok rfl
    · exact .ok rfl

lemma stepMod_size (ch : Char) (format : Text) : SameSize p (stepMod ch format p) := by
  rw [SameSize, stepMod.eq_def]
  split
  iterate 2
    · split <;> rfl
  all_goals rfl

/-- The exit, behind what is printed. -/
lemma exitConv_avoids {x : Except Undefined Output} {format : Text} {args : List Arg}
    (h : ∃ out, x = .ok out ∧ out.size = p.out.size) :
    Avoids Undefined.store (SameSize p) (x.bind fun out => .ok (exitConv format args out)) :=
  (Avoids.of_ok h).bind fun _ hout => .ok hout

lemma convUnsigned_avoids (base : ℕ) (up : Bool) (format : Text) :
    Avoids Undefined.store (SameSize p) (convUnsigned abi base up format p) :=
  (readValue_avoids false p.cflags p.args).bind fun _ _ => exitConv_avoids (Output.outchars_ok _)

lemma stepConv_avoids (ch : Char) (format : Text) :
    Avoids Undefined.store (SameSize p) (stepConv abi ch format p) := by
  have hinteger : Avoids Undefined.store (SameSize p) ((readValue abi true p.cflags p.args).bind
      fun r => (fmtint p.out r.1 10 p.width p.precision p.flags).bind
        fun out => .ok (exitConv format r.2 out)) :=
    (readValue_avoids true p.cflags p.args).bind fun _ _ => exitConv_avoids (Output.outchars_ok _)
  rw [stepConv.eq_def]
  split
  iterate 2
    · exact hinteger
  · exact @convUnsigned_avoids abi { p with base := 16 } _ _ _
  · exact @convUnsigned_avoids abi { p with base := 16 } _ _ _
  · exact convUnsigned_avoids _ _ _
  · exact convUnsigned_avoids _ _ _
  · refine (vaWord_avoids .int p.args).bind fun _ _ => ?_
    exact exitConv_avoids (Output.outchar_ok _)
  · refine (vaString_avoids p.args).bind fun _ _ => ?_
    exact exitConv_avoids (Output.outchars_ok _)
  · refine (vaPointer_avoids p.args).bind fun r _ => ?_
    refine exitConv_avoids ?_
    rw [fmtPointer]
    split
    · exact Output.outchars_ok _
    · exact Output.outchars_ok _
  · exact exitConv_avoids (Output.outchar_ok _)
  · exact .error (by decide)
  · split
    · exact .error (by decide)
    · exact .ok rfl

/-- **A turn** does not store outside the buffer. -/
theorem step_avoids (p : Printer) : Avoids Undefined.store (SameSize p) (step abi p) := by
  rw [step]
  split
  · exact .ok rfl
  · cases p.state with
    | default =>
        dsimp only
        split
        · exact .ok rfl
        · exact (Avoids.of_ok (Output.outchar_ok _)).bind fun _ hout => .ok hout
    | flags => exact stepFlags_avoids _ _
    | width => exact stepWidth_avoids _ _
    | dot =>
        refine .ok ?_
        rw [SameSize, stepDot]
        split <;> rfl
    | precision => exact stepPrecision_avoids _ _
    | mod => exact .ok (stepMod_size _ _)
    | conv => exact stepConv_avoids _ _

/-- **The loop** does not. -/
theorem run_avoids (p : Printer) :
    Avoids Undefined.store (fun r => r.2.size = p.out.size) (run abi p) := by
  have hstep := @step_avoids abi
  fun_induction run abi p with
  | case1 p e hs =>
      refine .error fun he => (hstep p).avoids ?_
      rw [hs, he]
  | case2 p o p' hs => exact .ok ((hstep p).result _ hs)
  | case3 p p' hs ih =>
      have hsize : p'.out.size = p.out.size := (hstep p).result _ hs
      rw [← hsize]
      exact ih

end Turns

/-! ### Calls -/

/-- The NUL that a call leaves. -/
lemma atOver_ok (overflow : Bool) {out : Output} (h : 0 < out.size) :
    ∃ r, atOver overflow out = .ok r
      ∧ r.buf.length = out.size ∧ ∃ i < out.size, r.buf[i]? = some '\x00' := by
  have hindex : (if out.len < out.size then out.len else out.size - 1) < out.size := by
    split <;> omega
  rw [atOver, Output.store_ok _ hindex]
  exact ⟨_, rfl, List.length_set, _, hindex, List.getElem?_set_self hindex⟩

/-- **No call stores outside the buffer**, and every call that returns leaves a NUL in it. -/
theorem vsnprintf_avoids (abi : Abi) {buf : Text} (h : 0 < buf.length) (format : CString)
    (args : List Arg) :
    Avoids Undefined.store
      (fun r => r.buf.length = buf.length ∧ ∃ i < buf.length, r.buf[i]? = some '\x00')
      (vsnprintf abi buf format args) := by
  rw [vsnprintf, if_neg (by omega)]
  refine (run_avoids _).bind fun r hr => ?_
  have hsize : r.2.size = buf.length := hr
  rw [← hsize] at h ⊢
  exact .of_ok (atOver_ok r.1 h)

/-! ### Calls that return -/

/-- The arguments of a block that are defined. -/
def Fast.Admissible (abi : Abi) : Fast → Prop
  | integer k w => ¬ IsMinimum abi k.signed k.type w
  | char _ => True
  | string s => s ≠ none
  | three w => (w.setWidth 32).toNat < 1000

/-- The arguments of a conversion that are defined: a width is not the minimum of `int`,
and a block has an argument that it can print. -/
def Conversion.Admissible (abi : Abi) (c : Conversion) : Prop :=
  (∀ w, c.width = .star w → (w.setWidth 32).toInt ≠ -2 ^ 31) ∧ ∀ q ∈ c.fast, q.Admissible abi

/-- An item with arguments that are defined. -/
def Item.Admissible (abi : Abi) : Item → Prop
  | literal _ _ => True
  | conversion c => c.Admissible abi
  | three _ w => (Fast.three w).Admissible abi

/-- The loop returns, whatever is in the buffer. -/
def Ends (abi : Abi) (f : Text) (args : List Arg) (flags : Flags) : Prop :=
  ∀ out, ∃ r, run abi (between out f args flags) = .ok r

section Ends

variable {abi : Abi} {f : Text} {args : List Arg} {flags : Flags}

/-- A turn that prints, in front of a loop that returns. -/
lemma Ends.bind {x : Except Undefined Output} {P : Output → Prop} (h : Ends abi f args flags)
    (hx : ∃ out, x = .ok out ∧ P out) :
    ∃ r, (x.bind fun out => run abi (between out f args flags)) = .ok r := by
  obtain ⟨out, rfl, -⟩ := hx
  exact h out

/-- Literal text in front. -/
lemma Ends.literal (h : Ends abi f args flags) (l : Literal) :
    Ends abi (l.chars ++ f) args flags := by
  obtain ⟨chars, hplain⟩ := l
  induction chars with
  | nil => exact h
  | cons c chars ih =>
      obtain ⟨hc, hchars⟩ := List.forall_mem_cons.mp hplain
      intro out
      change ∃ r, run abi (between out (c :: (chars ++ f)) args flags) = .ok r
      rw [run_literal_char _ hc.1]
      exact (ih hchars).bind (Output.outchar_ok c)

/-- **The ends of a block** for an integer. -/
lemma fastInteger_returns {signed : Bool} {type : CType} {w : BitVec 64} (behindCh after : Text)
    (out : Output) (hmin : ¬ IsMinimum abi signed type w) :
    fastInteger abi signed type behindCh after (flagsAt out f (.word type w :: args) flags)
        = .ok (.over false (flagsAt out f args flags))
      ∨ ∃ out' f', (f' = behindCh ∨ f' = after)
        ∧ fastInteger abi signed type behindCh after (flagsAt out f (.word type w :: args) flags)
          = .ok (.next (between out' f' args flags)) := by
  rw [fastInteger, flagsAt, between, vaWord, if_pos rfl]
  simp only [bind, Except.bind]
  by_cases hroom : out.size ≤ out.len + 1
  · exact .inl (if_pos hroom)
  · rw [if_neg hroom]
    refine .inr ?_
    by_cases hzero : argValue abi signed type w = 0
    · obtain ⟨out', hput, -⟩ := Output.put_ok '0' (show out.len < out.size by omega)
      refine ⟨out', behindCh, .inl rfl, ?_⟩
      rw [if_pos hzero, hput]
      rfl
    · obtain ⟨out', hminus, -, hlen⟩ := Output.minus_ok (argValue abi signed type w < 0)
        (show out.len + 1 < out.size by omega)
      obtain ⟨out'', hdigits, -⟩ := Output.digits_ok
        ((grouped 10 3 (argValue abi signed type w).natAbs).map Nat.digitChar) hlen
      refine ⟨out'', after, .inr rfl, ?_⟩
      rw [if_neg hzero, hminus, scratchLoop_value hzero hmin]
      dsimp only
      rw [hdigits]
      rfl

/-- A block in front. -/
lemma Ends.fast (h : Ends abi f args flags) {q : Fast} (hq : q.Admissible abi) (out : Output) :
    ∃ r, run abi (flagsAt out (q.chars ++ f) (q.args ++ args) flags) = .ok r := by
  cases q with
  | integer k w =>
      have hstep := step_fast abi k out f (.word k.type w :: args) flags
      have hends : Ends abi (k.chars.tail ++ f) args flags :=
        h.literal ⟨k.chars.tail, k.leftover_plain⟩
      rcases fastInteger_returns (k.chars.tail ++ f) f out hq with
        hover | ⟨out', f', hf', hnext⟩
      · exact ⟨_, run_over (hstep.trans hover)⟩
      · have hrun := run_next (hstep.trans hnext)
        rcases hf' with rfl | rfl
        · obtain ⟨r, hr⟩ := hends out'
          exact ⟨r, hrun.trans hr⟩
        · obtain ⟨r, hr⟩ := h out'
          exact ⟨r, hrun.trans hr⟩
  | char w =>
      obtain ⟨r, hr⟩ := h.bind (@Output.fastChar_ok out (Char.ofNat (w.toNat % 256)))
      exact ⟨r, (run_fastChar w).trans hr⟩
  | string s =>
      cases s with
      | none => exact absurd rfl hq
      | some v =>
          obtain ⟨r, hr⟩ := h.bind (@Output.fastString_ok out v.chars)
          exact ⟨r, (run_fastString v).trans hr⟩
  | three w =>
      have hlt : w.toNat % 2 ^ 30 < 1000 := by
        have hq : (w.setWidth 32).toNat < 1000 := hq
        rw [BitVec.toNat_setWidth] at hq
        omega
      obtain ⟨r, hr⟩ := h.bind (@Output.fastNumber_ok out _ _ (atoiTab_eq hlt))
      exact ⟨r, (run_fastNumber w).trans hr⟩

lemma number_error {n : ℤ} {digits : List (Fin 10)} {stop : Stop}
    (h : number n digits = .error stop) : stop = .overflow := by
  induction digits generalizing n with
  | nil => cases h
  | cons d digits ih =>
      rw [number] at h
      split at h
      · cases h
        rfl
      · exact ih h

/-- Only a width can be undefined. -/
lemma general_undefined {c : Conversion} {e : Undefined}
    (h : c.general abi flags = .error (.undefined e)) :
    ∃ w, c.width = .star w ∧ (w.setWidth 32).toInt = -2 ^ 31 := by
  rw [Conversion.general] at h
  cases hwidth : c.width.read (flags.setAll c.flags) with
  | ok r =>
      rw [hwidth] at h
      cases hprecision : c.precision.read with
      | ok n =>
          rw [hprecision] at h
          cases h
      | error stop =>
          rw [hprecision] at h
          cases h
          rw [Precision.read.eq_def] at hprecision
          split at hprecision
          · cases hprecision
          · cases number_error hprecision
          · cases hprecision
  | error stop =>
      rw [hwidth] at h
      cases h
      cases hstar : c.width with
      | none =>
          rw [hstar] at hwidth
          cases hwidth
      | number first digits =>
          rw [hstar, Width.read] at hwidth
          cases hnumber : number 0 (first.succ :: digits) with
          | ok n =>
              rw [hnumber] at hwidth
              cases hwidth
          | error stop =>
              rw [hnumber] at hwidth
              cases hwidth
              cases number_error hnumber
      | star w =>
          refine ⟨w, rfl, ?_⟩
          rw [hstar, Width.read] at hwidth
          by_contra hne
          simp only [if_neg hne] at hwidth
          split at hwidth <;> cases hwidth

/-- A conversion in front. -/
lemma Ends.conversion {c : Conversion} (h : Ends abi f args (c.leaves flags))
    (hc : c.Admissible abi) : Ends abi (c.chars ++ f) (c.args ++ args) flags := by
  intro out
  rw [run_chars]
  rw [Conversion.leaves] at h
  cases hfast : c.fast with
  | some q =>
      obtain ⟨htail, hargs⟩ := Conversion.of_fast hfast
      rw [hfast] at h
      rw [run_flags, htail, hargs]
      exact Ends.fast h (hc.2 q hfast) out
  | none =>
      rw [hfast] at h
      rw [run_general hfast]
      cases hgeneral : c.general abi flags with
      | ok t => exact Ends.bind h (Output.outchars_ok t)
      | error stop =>
          cases stop with
          | overflow => exact ⟨_, rfl⟩
          | undefined e =>
              obtain ⟨w, hwidth, hmin⟩ := general_undefined hgeneral
              exact absurd hmin (hc.1 w hwidth)

end Ends

/-- The loop over items with arguments that are defined. -/
lemma ends_items {abi : Abi} {items : List Item} (h : ∀ item ∈ items, item.Admissible abi)
    (args : List Arg) (flags : Flags) :
    Ends abi (formatOf items).chars (argsOf items ++ args) flags := by
  induction items generalizing flags with
  | nil => exact fun out => ⟨_, run_over rfl⟩
  | cons item items ih =>
      obtain ⟨hitem, hitems⟩ := List.forall_mem_cons.mp h
      have hrest := ih hitems (item.leaves flags)
      have hargs : argsOf (item :: items) ++ args = item.args ++ (argsOf items ++ args) := by
        rw [argsOf, List.flatMap_cons, List.append_assoc]
        rfl
      rw [hargs]
      change Ends abi (item.chars ++ (formatOf items).chars) _ flags
      cases item with
      | literal c plain => exact hrest.literal ⟨[c], by simpa using plain⟩
      | conversion c => exact hrest.conversion hitem
      | three own w =>
          intro out
          have hw : (Fast.three w).Admissible abi := hitem
          rw [run_three_chars]
          exact Ends.fast hrest hw out

end PbEntityDb.Format
