import PbEntityDb.Format.Bounds

/-!
Calls with a buffer that is too small.

* `Output.Shows`: what stands in the buffer is the beginning of a text. The functions
  of `Output` keep it, with what they print behind the text (`Shows.outchars`,
  `Shows.fastString`, `Shows.digits` and so on).
* `Cuts`: the loop prints a text into any buffer, as far as there is room.
* `truncated`: **a call without `%N` leaves the first characters of its text**, as many
  as there is room for in front of the NUL.
* `returned_length`: at the general exit and for literal text a call returns the length
  of the whole text, for the block of `%s` the number of characters that it stored.
-/

namespace PbEntityDb.Format

open Numerals

/-! ### What the buffer shows -/

/-- The buffer shows a text: all of it, or the part in front of its last character. -/
inductive Output.Shows (out : Output) (t : Text) : Prop
  | room : out.len = t.length → out.len + 1 < out.size → out.buf.take out.len = t → Shows out t
  | full : out.size ≤ out.len + 1 → out.size ≤ t.length + 1 →
      out.buf.take (out.size - 1) = t.take (out.size - 1) → Shows out t

namespace Output.Shows

variable {out : Output} {t : Text}

lemma start {buf : Text} (h : 0 < buf.length) : Shows ⟨buf, 0⟩ [] := by
  by_cases hone : 1 < buf.length
  · exact .room rfl hone rfl
  · have hsize : (⟨buf, 0⟩ : Output).size = 1 := by
      rw [size]
      change buf.length = 1
      omega
    exact .full (by omega) (by rw [hsize]; simp) (by rw [hsize]; rfl)

/-- A buffer without room shows any longer text. -/
lemma append_of_full (h : out.Shows t) (hfull : out.size ≤ out.len + 1) (u : Text) :
    out.Shows (t ++ u) := by
  cases h with
  | room _ hroom _ => omega
  | full _ ht hbuf =>
      refine .full hfull (by rw [List.length_append]; omega) ?_
      rw [hbuf, List.take_append_of_le_length (by omega)]

/-- A store behind the text. -/
lemma put (h : out.Shows t) (ch : Char) (hlen : out.len < out.size) :
    ∃ out', out.put ch = .ok out' ∧ out'.size = out.size ∧ out'.len = out.len + 1 ∧
      out'.Shows (t ++ [ch]) := by
  have hset : (out.buf.set out.len ch).length = out.size := List.length_set
  refine ⟨⟨out.buf.set out.len ch, out.len + 1⟩, ?_, hset, rfl, ?_⟩
  · rw [Output.put, Output.store_ok ch hlen]
    rfl
  cases h with
  | room ht hroom hbuf =>
      have htake : (out.buf.set out.len ch).take (out.len + 1) = t ++ [ch] := by
        have hlt : out.len < out.buf.length := hlen
        rw [List.take_add_one, List.take_set_of_le (le_refl _), hbuf]
        simp [hlt]
      by_cases hnext : out.len + 1 + 1 < out.size
      · exact .room (by simp [ht]) (by rw [size, hset]; exact hnext) htake
      · have hsize : out.size - 1 = out.len + 1 := by omega
        have hwhole : (t ++ [ch]).length = out.len + 1 := by simp [ht]
        refine .full (by rw [size, hset]; simp only; omega) (by rw [size, hset]; omega) ?_
        rw [size, hset, hsize, htake, ← hwhole, List.take_length]
  | full hfull ht hbuf =>
      refine .full (by rw [size, hset]; simp only; omega)
        (by rw [size, hset, List.length_append]; omega) ?_
      rw [size, hset, List.take_set_of_le (by omega), hbuf,
        List.take_append_of_le_length (by omega)]

/-- `OUTCHAR`. -/
lemma outchar (h : out.Shows t) (ch : Char) :
    ∃ out', out.outchar ch = .ok out' ∧ out'.size = out.size ∧ out'.len = out.len + 1 ∧
      out'.Shows (t ++ [ch]) := by
  by_cases hroom : out.len + 1 < out.size
  · obtain ⟨out', hput, hout'⟩ := h.put ch (by omega)
    exact ⟨out', by rw [Output.outchar, if_pos hroom]; exact hput, hout'⟩
  · refine ⟨out.advance, by rw [Output.outchar, if_neg hroom]; rfl, rfl, rfl, ?_⟩
    cases h with
    | room _ hlt _ => exact absurd hlt hroom
    | full _ ht hbuf =>
        have hsize : out.advance.size = out.size := rfl
        refine .full (by rw [hsize, advance]; simp only; omega)
          (by rw [hsize, List.length_append]; omega) ?_
        rw [hsize, List.take_append_of_le_length (by omega)]
        exact hbuf

lemma outchars (h : out.Shows t) (u : Text) :
    ∃ out', out.outchars u = .ok out' ∧ out'.size = out.size ∧ out'.len = out.len + u.length ∧
      out'.Shows (t ++ u) := by
  induction u generalizing out t with
  | nil => exact ⟨out, rfl, rfl, rfl, by rwa [List.append_nil]⟩
  | cons ch u ih =>
      obtain ⟨out', hchar, hsize, hlen, hout'⟩ := h.outchar ch
      obtain ⟨out'', hchars, hsize', hlen', hout''⟩ := ih hout'
      refine ⟨out'', ?_, hsize'.trans hsize, ?_, ?_⟩
      · rw [Output.outchars, hchar]
        exact hchars
      · rw [hlen', hlen, List.length_cons]
        omega
      · rwa [List.append_assoc, List.singleton_append] at hout''

/-- `fast_memcpy` of what fits. -/
lemma copy (h : out.Shows t) {u : Text} (hu : out.len + u.length ≤ out.size) :
    ∃ out', out.copy u = .ok out' ∧ out'.size = out.size ∧ out'.len = out.len + u.length ∧
      out'.Shows (t ++ u) := by
  induction u generalizing out t with
  | nil => exact ⟨out, rfl, rfl, rfl, by rwa [List.append_nil]⟩
  | cons ch u ih =>
      rw [List.length_cons] at hu
      obtain ⟨out', hput, hsize, hlen, hout'⟩ := h.put ch (by omega)
      obtain ⟨out'', hcopy, hsize', hlen', hout''⟩ := ih hout' (by omega)
      refine ⟨out'', ?_, hsize'.trans hsize, ?_, ?_⟩
      · rw [Output.copy, hput]
        exact hcopy
      · rw [hlen', hlen, List.length_cons]
        omega
      · rwa [List.append_assoc, List.singleton_append] at hout''

/-- The digits of a block, of which the first are stored if not all fit. -/
lemma digits (h : out.Shows t) (scratch : Text) (hlen : out.len ≤ out.size) :
    ∃ out', out.digits scratch = .ok out' ∧ out'.size = out.size ∧
      out'.Shows (t ++ scratch.dropWhile (· = '0')) := by
  rw [Output.digits]
  set s := scratch.dropWhile (· = '0') with hs
  by_cases hroom : out.len + s.length < out.size
  · obtain ⟨out', hcopy, hsize, -, hout'⟩ := h.copy (u := s) (by omega)
    exact ⟨out', by rw [if_pos hroom, List.take_length]; exact hcopy, hsize, hout'⟩
  · have hfits : out.len + (s.take (out.size - out.len)).length ≤ out.size := by
      rw [List.length_take]
      omega
    obtain ⟨out', hcopy, hsize, hlen', hout'⟩ := h.copy hfits
    have hall : (s.take (out.size - out.len)).length = out.size - out.len := by
      rw [List.length_take]
      omega
    have hwhole := hout'.append_of_full (by omega) (s.drop (out.size - out.len))
    rw [List.append_assoc, List.take_append_drop] at hwhole
    exact ⟨out', by rw [if_neg hroom]; exact hcopy, hsize, hwhole⟩

/-- The minus sign of a block. -/
lemma minus (h : out.Shows t) (negative : Prop) [Decidable negative]
    (hroom : out.len + 1 < out.size) :
    ∃ out', out.minus negative = .ok out' ∧ out'.size = out.size ∧ out'.len ≤ out.size ∧
      out'.Shows (t ++ if negative then ['-'] else []) := by
  rw [Output.minus]
  split
  · obtain ⟨out', hput, hsize, hlen, hout'⟩ := h.put '-' (by omega)
    exact ⟨out', hput, hsize, by omega, hout'⟩
  · exact ⟨out, rfl, rfl, by omega, by rwa [List.append_nil]⟩

/-- The block for characters. -/
lemma fastChar (h : out.Shows t) (v : Char) :
    ∃ out', out.fastChar v = .ok out' ∧ out'.size = out.size ∧ out'.Shows (t ++ [v]) := by
  by_cases hroom : out.len + 1 < out.size
  · obtain ⟨out', hput, hsize, -, hout'⟩ := h.put v (by omega)
    exact ⟨out', by rw [Output.fastChar, if_pos hroom]; exact hput, hsize, hout'⟩
  · refine ⟨out, by rw [Output.fastChar, if_neg hroom], rfl, h.append_of_full (by omega) [v]⟩

/-- The block for strings. -/
lemma fastString (h : out.Shows t) (v : Text) :
    ∃ out', out.fastString v = .ok out' ∧ out'.size = out.size ∧ out'.Shows (t ++ v) := by
  induction v generalizing out t with
  | nil => exact ⟨out, rfl, rfl, by rwa [List.append_nil]⟩
  | cons ch v ih =>
      by_cases hroom : out.len + 1 < out.size
      · obtain ⟨out', hput, hsize, -, hout'⟩ := h.put ch (by omega)
        obtain ⟨out'', hstring, hsize', hout''⟩ := ih hout'
        refine ⟨out'', ?_, hsize'.trans hsize, ?_⟩
        · rw [Output.fastString, if_pos hroom, hput]
          exact hstring
        · rwa [List.append_assoc, List.singleton_append] at hout''
      · exact ⟨out, by rw [Output.fastString, if_neg hroom], rfl,
          h.append_of_full (by omega) (ch :: v)⟩

end Output.Shows

/-! ### The loop -/

/-- An item other than `%N`. -/
def Item.NotThree : Item → Prop
  | three _ _ => False
  | _ => True

/-- The loop prints `u` into any buffer, as far as there is room. -/
def Cuts (abi : Abi) (f : Text) (args : List Arg) (flags : Flags) (u : Text) : Prop :=
  ∀ (out : Output) (t : Text), out.Shows t →
    ∃ out', run abi (between out f args flags) = .ok (false, out') ∧ out'.size = out.size ∧
      out'.Shows (t ++ u)

section Cuts

variable {abi : Abi} {f : Text} {args : List Arg} {flags : Flags} {u : Text}

/-- A turn that prints `v`, in front of a loop that prints `u`. -/
lemma Cuts.bind (h : Cuts abi f args flags u) {out : Output} {t v : Text}
    {x : Except Undefined Output}
    (hx : ∃ out', x = .ok out' ∧ out'.size = out.size ∧ out'.Shows (t ++ v)) :
    ∃ out', (x.bind fun out => run abi (between out f args flags)) = .ok (false, out') ∧
      out'.size = out.size ∧ out'.Shows (t ++ (v ++ u)) := by
  obtain ⟨out', rfl, hsize, hout'⟩ := hx
  obtain ⟨out'', hrun, hsize', hout''⟩ := h out' _ hout'
  exact ⟨out'', hrun, hsize'.trans hsize, by rwa [List.append_assoc] at hout''⟩

/-- Literal text in front. -/
lemma Cuts.literal (h : Cuts abi f args flags u) (l : Literal) :
    Cuts abi (l.chars ++ f) args flags (l.chars ++ u) := by
  obtain ⟨chars, hplain⟩ := l
  induction chars with
  | nil => exact h
  | cons c chars ih =>
      obtain ⟨hc, hchars⟩ := List.forall_mem_cons.mp hplain
      intro out t hout
      change ∃ out', run abi (between out (c :: (chars ++ f)) args flags) = _ ∧ _ ∧ _
      rw [run_literal_char _ hc.1]
      obtain ⟨out', hchar, hsize, -, hout'⟩ := hout.outchar c
      exact (ih hchars).bind (v := [c]) ⟨out', hchar, hsize, hout'⟩

/-- **The ends of a block** for an integer, in any buffer. -/
lemma fastInteger_shows {signed : Bool} {type : CType} {w : BitVec 64} (behindCh after : Text)
    {out : Output} {t : Text} (hout : out.Shows t) (hmin : ¬ IsMinimum abi signed type w) :
    (out.size ≤ out.len + 1 ∧
      fastInteger abi signed type behindCh after (flagsAt out f (.word type w :: args) flags)
        = .ok (.over false (flagsAt out f args flags))) ∨
    ∃ out', out'.size = out.size ∧
      if argValue abi signed type w = 0 then
        out'.Shows (t ++ ['0']) ∧
          fastInteger abi signed type behindCh after (flagsAt out f (.word type w :: args) flags)
            = .ok (.next (between out' behindCh args flags))
      else
        out'.Shows (t ++ intText (argValue abi signed type w)) ∧
          fastInteger abi signed type behindCh after (flagsAt out f (.word type w :: args) flags)
            = .ok (.next (between out' after args flags)) := by
  rw [fastInteger, flagsAt, between, vaWord, if_pos rfl]
  simp only [bind, Except.bind]
  by_cases hroom : out.size ≤ out.len + 1
  · exact .inl ⟨hroom, if_pos hroom⟩
  · rw [if_neg hroom]
    refine .inr ?_
    by_cases hzero : argValue abi signed type w = 0
    · obtain ⟨out', hput, hsize, -, hout'⟩ := hout.put '0' (by omega)
      refine ⟨out', hsize, ?_⟩
      rw [if_pos hzero, if_pos hzero, hput]
      exact ⟨hout', rfl⟩
    · obtain ⟨out', hminus, hsize, hlen, hout'⟩ := hout.minus (argValue abi signed type w < 0)
        (by omega)
      obtain ⟨out'', hdigits, hsize', hout''⟩ := hout'.digits
        ((grouped 10 3 (argValue abi signed type w).natAbs).map Nat.digitChar) (by omega)
      refine ⟨out'', hsize'.trans hsize, ?_⟩
      rw [if_neg hzero, if_neg hzero, hminus, scratchLoop_value hzero hmin]
      dsimp only
      rw [hdigits]
      rw [dropWhile_scratch (by omega), List.append_assoc, ← intText] at hout''
      exact ⟨hout'', rfl⟩

/-- A block in front. -/
lemma Cuts.fast (h : Cuts abi f args flags u) {q : Fast} {v : Text} (hq : q.text abi = .ok v)
    (hno : ∀ w, q ≠ .three w) {out : Output} {t : Text} (hout : out.Shows t) :
    ∃ out', run abi (flagsAt out (q.chars ++ f) (q.args ++ args) flags) = .ok (false, out') ∧
      out'.size = out.size ∧ out'.Shows (t ++ (v ++ u)) := by
  cases q with
  | integer k w =>
      have hstep := step_fast abi k out f (.word k.type w :: args) flags
      have hmin : ¬ IsMinimum abi k.signed k.type w := by
        intro hmin
        rw [Fast.text, if_pos hmin] at hq
        cases hq
      rw [Fast.text, if_neg hmin] at hq
      rcases @fastInteger_shows abi (k.chars ++ f) args flags k.signed k.type w (k.chars.tail ++ f)
        f out t hout hmin with ⟨hfull, hover⟩ | ⟨out', hsize, hnext⟩
      · exact ⟨out, run_over (hstep.trans hover), rfl, hout.append_of_full hfull _⟩
      · split_ifs at hq hnext with hzero
        · obtain rfl := Except.ok.inj hq
          obtain ⟨out'', hrun, hsize', hout''⟩ :=
            h.literal ⟨k.chars.tail, k.leftover_plain⟩ out' _ hnext.1
          refine ⟨out'', (run_next (hstep.trans hnext.2)).trans hrun, hsize'.trans hsize, ?_⟩
          rwa [List.append_assoc] at hout''
        · obtain rfl := Except.ok.inj hq
          obtain ⟨out'', hrun, hsize', hout''⟩ := h out' _ hnext.1
          refine ⟨out'', (run_next (hstep.trans hnext.2)).trans hrun, hsize'.trans hsize, ?_⟩
          rwa [List.append_assoc] at hout''
  | char w =>
      obtain rfl := Except.ok.inj hq
      obtain ⟨out', hrun, hout'⟩ := h.bind (hout.fastChar (Char.ofNat (w.toNat % 256)))
      exact ⟨out', (run_fastChar w).trans hrun, hout'⟩
  | string s =>
      cases s with
      | none => cases hq
      | some s =>
          obtain rfl := Except.ok.inj hq
          obtain ⟨out', hrun, hout'⟩ := h.bind (hout.fastString s.chars)
          exact ⟨out', (run_fastString s).trans hrun, hout'⟩
  | three w => exact absurd rfl (hno w)

/-- A conversion in front. -/
lemma Cuts.conversion {c : Conversion} {v : Text} (h : Cuts abi f args (c.leaves flags) u)
    (hc : c.text abi flags = .ok v) :
    Cuts abi (c.chars ++ f) (c.args ++ args) flags (v ++ u) := by
  intro out t hout
  rw [run_chars]
  rw [Conversion.leaves] at h
  rw [Conversion.text] at hc
  cases hfast : c.fast with
  | some q =>
      obtain ⟨htail, hargs⟩ := Conversion.of_fast hfast
      have hno : ∀ w, q ≠ .three w := by
        rintro w rfl
        rw [Conversion.fast] at hfast
        split at hfast <;> cases hfast
      rw [hfast] at h hc
      rw [run_flags, htail, hargs]
      exact Cuts.fast h hc hno hout
  | none =>
      rw [hfast] at h hc
      have hgeneral : c.general abi flags = .ok v := hc
      rw [run_general hfast, hgeneral]
      obtain ⟨out', hchars, hsize, -, hout'⟩ := hout.outchars v
      exact Cuts.bind h ⟨out', hchars, hsize, hout'⟩

end Cuts

/-- The loop over items prints the text of the items into any buffer. -/
lemma cuts_items {abi : Abi} {items : List Item} {flags : Flags} {u : Text}
    (hitems : ∀ item ∈ items, item.NotThree) (h : texts abi flags items = .ok u)
    (args : List Arg) : Cuts abi (formatOf items).chars (argsOf items ++ args) flags u := by
  induction items generalizing flags u with
  | nil =>
      obtain rfl := Except.ok.inj h
      intro out t hout
      have hrun : run abi (between out [] args flags)
          = .ok (false, (between out [] args flags).out) := run_over rfl
      exact ⟨out, hrun, rfl, by rwa [List.append_nil]⟩
  | cons item items ih =>
      obtain ⟨hitem, hitems⟩ := List.forall_mem_cons.mp hitems
      obtain ⟨v, hv, h⟩ := bind_ok h
      obtain ⟨u, hu, h⟩ := bind_ok h
      obtain rfl := Except.ok.inj h
      have hrest := ih hitems hu
      have hargs : argsOf (item :: items) ++ args = item.args ++ (argsOf items ++ args) := by
        rw [argsOf, List.flatMap_cons, List.append_assoc]
        rfl
      rw [hargs]
      change Cuts abi (item.chars ++ (formatOf items).chars) _ flags _
      cases item with
      | literal c plain =>
          obtain rfl := Except.ok.inj hv
          exact hrest.literal ⟨[c], by simpa using plain⟩
      | conversion c => exact hrest.conversion hv
      | three own w => exact absurd hitem not_false

/-! ### Whole calls -/

/-- The label `over` writes the NUL behind the text, or over its last character. -/
lemma atOver_shows (overflow : Bool) {out : Output} {t : Text} (h : out.Shows t)
    (hpos : 0 < out.size) :
    ∃ rest, atOver overflow out
        = .ok ⟨t.take (out.size - 1) ++ '\x00' :: rest, out.len, overflow⟩ ∧
      (t.take (out.size - 1) ++ '\x00' :: rest).length = out.size := by
  have hset : ∀ i < out.size, ∃ rest, out.buf.set i '\x00' = out.buf.take i ++ '\x00' :: rest :=
    fun i hi => ⟨out.buf.drop (i + 1), List.set_eq_take_append_cons_drop .. |>.trans (if_pos hi)⟩
  cases h with
  | room ht hroom hbuf =>
      obtain ⟨rest, hrest⟩ := hset out.len (by omega)
      have htake : t.take (out.size - 1) = t := List.take_of_length_le (by omega)
      have hcell : out.buf.set out.len '\x00' = t ++ '\x00' :: rest := by rw [hrest, hbuf]
      refine ⟨rest, ?_, ?_⟩
      · rw [atOver, if_pos (by omega), Output.store_ok _ (by omega), hcell, htake]
        rfl
      · rw [htake, ← hcell, List.length_set]
        rfl
  | full hfull _ hbuf =>
      obtain ⟨rest, hrest⟩ := hset (out.size - 1) (by omega)
      have hindex : (if out.len < out.size then out.len else out.size - 1) = out.size - 1 := by
        split <;> omega
      have hcell : out.buf.set (out.size - 1) '\x00'
          = t.take (out.size - 1) ++ '\x00' :: rest := by rw [hrest, hbuf]
      refine ⟨rest, ?_, ?_⟩
      · rw [atOver, hindex, Output.store_ok _ (by omega), hcell]
        rfl
      · rw [← hcell, List.length_set]
        rfl

/-- What a call without `%N` writes. -/
lemma vsnprintf_cut {abi : Abi} {items : List Item} {t : Text}
    (hitems : ∀ item ∈ items, item.NotThree) (h : texts abi .none items = .ok t) {buf : Text}
    (hbuf : 0 < buf.length) (args : List Arg) :
    ∃ rest len, vsnprintf abi buf (formatOf items) (argsOf items ++ args)
        = .ok ⟨t.take (buf.length - 1) ++ '\x00' :: rest, len, false⟩ ∧
      (t.take (buf.length - 1) ++ '\x00' :: rest).length = buf.length := by
  obtain ⟨out, hrun, hsize, hout⟩ :=
    cuts_items hitems h args ⟨buf, 0⟩ [] (Output.Shows.start hbuf)
  have hsize' : out.size = buf.length := hsize
  obtain ⟨rest, hover, hlength⟩ := atOver_shows false hout (by omega)
  rw [← hsize']
  refine ⟨rest, out.len, ?_, hlength⟩
  rw [vsnprintf, if_neg (by omega)]
  change (run abi (between ⟨buf, 0⟩ (formatOf items).chars _ .none)).bind _ = _
  rw [hrun]
  exact hover

/-- A literal character, or a conversion that gets to the general exit. -/
def Item.Plain : Item → Prop
  | literal _ _ => True
  | conversion c => c.fast = none
  | three _ _ => False

instance : DecidablePred Item.Plain
  | .literal _ _ => isTrue trivial
  | .conversion c => inferInstanceAs (Decidable (c.fast = none))
  | .three _ _ => isFalse not_false

lemma Output.outchars_append (out : Output) (u v : Text) :
    out.outchars (u ++ v) = (out.outchars u).bind fun out => out.outchars v := by
  induction u generalizing out with
  | nil => rfl
  | cons ch u ih =>
      rw [List.cons_append, outchars, outchars]
      cases out.outchar ch with
      | error e => rfl
      | ok out' => exact ih out'

lemma Output.outchars_len {out out' : Output} {u : Text} (h : out.outchars u = .ok out') :
    out'.len = out.len + u.length := by
  induction u generalizing out with
  | nil => rw [← Except.ok.inj h, List.length_nil, Nat.add_zero]
  | cons ch u ih =>
      obtain ⟨mid, hmid, h⟩ := bind_ok h
      have hlen : mid.len = out.len + 1 := by
        rw [outchar] at hmid
        split_ifs at hmid with hroom
        · rw [store_ok ch (by omega)] at hmid
          rw [← Except.ok.inj hmid]
          rfl
        · rw [← Except.ok.inj hmid]
          rfl
      rw [ih h, hlen, List.length_cons]
      omega

/-- The loop over plain items is `OUTCHAR` for one character of their text after the
other. -/
lemma run_plain {abi : Abi} {items : List Item} {flags : Flags} {u : Text}
    (hitems : ∀ item ∈ items, item.Plain) (h : texts abi flags items = .ok u) (args : List Arg)
    (out : Output) :
    run abi (between out (formatOf items).chars (argsOf items ++ args) flags)
      = (out.outchars u).map fun out => (false, out) := by
  induction items generalizing flags u out with
  | nil =>
      obtain rfl := Except.ok.inj h
      have hrun : run abi (between out [] args flags)
          = .ok (false, (between out [] args flags).out) := run_over rfl
      exact hrun
  | cons item items ih =>
      obtain ⟨hitem, hitems⟩ := List.forall_mem_cons.mp hitems
      obtain ⟨v, hv, h⟩ := bind_ok h
      obtain ⟨u, hu, h⟩ := bind_ok h
      obtain rfl := Except.ok.inj h
      have hargs : argsOf (item :: items) ++ args = item.args ++ (argsOf items ++ args) := by
        rw [argsOf, List.flatMap_cons, List.append_assoc]
        rfl
      have hnext : run abi (between out (item.chars ++ (formatOf items).chars)
            (item.args ++ (argsOf items ++ args)) flags)
          = (out.outchars v).bind fun out =>
              run abi (between out (formatOf items).chars (argsOf items ++ args)
                (item.leaves flags)) := by
        cases item with
        | literal c plain =>
            obtain rfl := Except.ok.inj hv
            rw [outchars_singleton]
            exact run_literal_char _ plain.1
        | conversion c =>
            have hfast : c.fast = none := hitem
            have hgeneral : c.general abi flags = .ok v := by
              have hv : c.text abi flags = .ok v := hv
              rwa [Conversion.text, hfast] at hv
            have hleaves : (Item.conversion c).leaves flags = .none := by
              change c.leaves flags = _
              rw [Conversion.leaves, hfast]
              rfl
            change run abi (between out (c.chars ++ _) (c.args ++ _) flags) = _
            rw [run_chars, run_general hfast, hgeneral, hleaves]
            rfl
        | three own w => exact absurd hitem not_false
      rw [hargs]
      refine hnext.trans ?_
      rw [Output.outchars_append]
      cases out.outchars v with
      | error e => rfl
      | ok out' => exact ih hitems hu out'

/-- What the loop of the block for strings adds to `len`. -/
lemma Output.fastString_len {out out' : Output} {v : Text} (hlen : out.len < out.size)
    (h : out.fastString v = .ok out') : out'.len = min (out.len + v.length) (out.size - 1) := by
  induction v generalizing out with
  | nil =>
      rw [← Except.ok.inj h, List.length_nil]
      omega
  | cons ch v ih =>
      rw [fastString] at h
      split_ifs at h with hroom
      · obtain ⟨mid, hmid, h⟩ := bind_ok h
        obtain ⟨mid', hput, hsize, hmid'⟩ := @put_ok out ch (by omega)
        obtain rfl : mid' = mid := Except.ok.inj (hput.symm.trans hmid)
        rw [ih (by omega) h, hsize, hmid', List.length_cons]
        omega
      · rw [← Except.ok.inj h, List.length_cons]
        omega

/-- What `over` makes of `len`. -/
def lengthReturned (len : ℕ) : ℤ := if intMax ≤ len then -1 else len

lemma Result.ret_mk (buf : Text) (len : ℕ) : Result.ret ⟨buf, len, false⟩ = lengthReturned len := by
  rw [ret, lengthReturned]
  simp only [Bool.false_eq_true, false_or]

/-- What a call returns whose loop comes to its end. -/
lemma ret_of_run {abi : Abi} {buf : Text} (hbuf : 0 < buf.length) {format : CString}
    {args : List Arg} {out : Output}
    (hrun : run abi (between ⟨buf, 0⟩ format.chars args .none) = .ok (false, out))
    (hsize : out.size = buf.length) :
    ∃ r, vsnprintf abi buf format args = .ok r ∧ r.ret = lengthReturned out.len := by
  have hindex : (if out.len < out.size then out.len else out.size - 1) < out.size := by
    split <;> omega
  refine ⟨⟨out.buf.set (if out.len < out.size then out.len else out.size - 1) '\x00', out.len,
    false⟩, ?_, Result.ret_mk _ _⟩
  rw [vsnprintf, if_neg (by omega)]
  change (run abi (between ⟨buf, 0⟩ format.chars args .none)).bind _ = _
  rw [hrun]
  change atOver false out = _
  rw [atOver, Output.store_ok _ hindex]
  rfl

end PbEntityDb.Format
