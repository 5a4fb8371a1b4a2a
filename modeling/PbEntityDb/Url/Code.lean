import PbEntityDb.Basic

/-!
The URL code of the user name, the password and the schema: `CURLCode`, and
libzdb's `URL_unescape`, which undoes it on the other side.

* `encode` keeps a byte, replaces it by a plus sign or by a percent sign with
  two digits, in the classes of the C locale.
* `decode` reads a code from the front; `urlUnescape` decodes a string in place,
  behind an index that reads and one that writes. Both look at two bytes behind
  a percent sign, in their own ways.
* `decode_encode` and `urlUnescape_encode` say what the two make of a code:
  white space of every kind comes back as a blank.
-/

namespace PbEntityDb

/-! ### The classes of the C locale -/

/-- `isdigit`. -/
def isdigit (c : Byte) : Bool := byte '0' ≤ c ∧ c ≤ byte '9'

/-- `isalnum`. -/
def isalnum (c : Byte) : Bool :=
  isdigit c || (byte 'A' ≤ c ∧ c ≤ byte 'Z') || (byte 'a' ≤ c ∧ c ≤ byte 'z')

/-- `isspace`. -/
def isspace (c : Byte) : Bool := c = byte ' ' ∨ 9 ≤ c ∧ c ≤ 13

/-! ### The code -/

/-- `CURLCode::toHex`. -/
def toHex (x : Byte) : Byte := if x > 9 then x + 55 else x + 48

/-- `CURLCode::fromHex`, `none` for the assertion. -/
def fromHex (x : Byte) : Option Byte :=
  if x ≥ byte 'A' ∧ x ≤ byte 'Z' then some (x - byte 'A' + 10)
  else if x ≥ byte 'a' ∧ x ≤ byte 'z' then some (x - byte 'a' + 10)
  else if x ≥ byte '0' ∧ x ≤ byte '9' then some (x - byte '0')
  else none

/-- The bytes that `Encode` keeps. -/
def isKept (c : Byte) : Bool :=
  isalnum c || c = byte '-' || c = byte '_' || c = byte '.' || c = byte '!' || c = byte '~'
    || c = byte '*' || c = byte '\'' || c = byte '(' || c = byte ')'

/-- What `Encode` appends for a byte. -/
def encodeByte (c : Byte) : List Byte :=
  if isKept c then [c]
  else if isspace c then [byte '+']
  else [byte '%', toHex (c >>> 4), toHex (c % 16)]

/-- `CURLCode::Encode`. -/
def encode : List Byte → List Byte
  | [] => []
  | c :: s => encodeByte c ++ encode s

/-- `CURLCode::Decode`, `none` for an index behind the end and for the assertion. -/
def decode : List Byte → Option (List Byte)
  | [] => some []
  | c :: inTmp =>
      if c = byte '%' then
        match inTmp with
        | hi :: lo :: inTmp => do
            let c ← fromHex hi
            let d ← fromHex lo
            let strResult ← decode inTmp
            some ((c <<< 4 + d) :: strResult)
        | _ => none
      else if c = byte '+' then (decode inTmp).map (byte ' ' :: ·)
      else (decode inTmp).map (c :: ·)

/-! ### Decoding in place -/

/-- A digit as `_x2b` reads it. -/
def x2bDigit (x : Byte) : Byte :=
  if x ≥ byte 'A' then (x &&& 0xdf) - byte 'A' + 10 else x - byte '0'

/-- `_x2b`. -/
def x2b (hi lo : Byte) : Byte := x2bDigit hi * 16 + x2bDigit lo

/-- The loop of `URL_unescape` on the buffer `url`, with the index `x` that it
writes at and the index `y` that it reads at; `none` for a byte behind the
buffer. The bytes behind a percent sign are looked for behind `x`. -/
def unescapeLoop : ℕ → List Byte → ℕ → ℕ → Option (List Byte)
  | 0, _, _, _ => none
  | steps + 1, url, x, y => do
      let c ← url[y]?
      if c = 0 then some (url.set x 0)
      else
        let url := url.set x c
        if c = byte '+' then unescapeLoop steps (url.set x (byte ' ')) (x + 1) (y + 1)
        else if c = byte '%' then
          let first ← url[x + 1]?
          if first = 0 then some (url.set x 0)
          else
            let second ← url[x + 2]?
            if second = 0 then some (url.set x 0)
            else
              let hi ← url[y + 1]?
              let lo ← url[y + 2]?
              unescapeLoop steps (url.set x (x2b hi lo)) (x + 1) (y + 3)
        else unescapeLoop steps url (x + 1) (y + 1)

/-- `URL_unescape` of a string with its NUL, read as a C string. -/
def urlUnescape (url : List Byte) : Option (List Byte) :=
  if url = [] then some []
  else (unescapeLoop (url.length + 1) (url ++ [0]) 0 0).map fun url => url.takeWhile (· ≠ 0)

/-! ### One byte -/

/-- What comes back of a byte: a blank for white space of every kind. -/
def blank (c : Byte) : Byte := if isspace c then byte ' ' else c

/-- A kept byte is no blank and begins no code. -/
lemma of_isKept : ∀ c : Byte, isKept c = true →
    c ≠ byte '%' ∧ c ≠ byte '+' ∧ c ≠ 0 ∧ blank c = c := by decide +kernel

/-- The digits of a byte, for both readers. -/
lemma hex_digits : ∀ c : Byte,
    fromHex (toHex (c >>> 4)) = some (c >>> 4) ∧ fromHex (toHex (c % 16)) = some (c % 16)
      ∧ (c >>> 4) <<< 4 + c % 16 = c ∧ x2b (toHex (c >>> 4)) (toHex (c % 16)) = c
      ∧ toHex (c >>> 4) ≠ 0 ∧ toHex (c % 16) ≠ 0 := by decide +kernel

/-! ### Decoding from the front -/

lemma decode_plain {c : Byte} (hpercent : c ≠ byte '%') (hplus : c ≠ byte '+') (s : List Byte) :
    decode (c :: s) = (decode s).map (c :: ·) := by
  rw [decode.eq_def]
  exact (if_neg hpercent).trans (if_neg hplus)

lemma decode_plus (s : List Byte) : decode (byte '+' :: s) = (decode s).map (byte ' ' :: ·) := by
  rw [decode.eq_def]
  exact (if_neg (by decide)).trans (if_pos rfl)

lemma decode_percent {hi lo c d : Byte} (hhi : fromHex hi = some c) (hlo : fromHex lo = some d)
    (s : List Byte) :
    decode (byte '%' :: hi :: lo :: s) = (decode s).map ((c <<< 4 + d) :: ·) := by
  rw [decode.eq_def]
  simp only [if_true, hhi, hlo, Option.bind_eq_bind, Option.bind_some]
  exact Option.map_eq_bind.symm

/-- **`Decode` of a code.** -/
theorem decode_encode (s : List Byte) : decode (encode s) = some (s.map blank) := by
  induction s with
  | nil => rfl
  | cons c s ih =>
      rw [encode, encodeByte, List.map_cons]
      by_cases hkept : isKept c = true
      · obtain ⟨hpercent, hplus, -, hblank⟩ := of_isKept c hkept
        rw [if_pos hkept, hblank, List.singleton_append, decode_plain hpercent hplus, ih]
        rfl
      · rw [if_neg hkept]
        by_cases hspace : isspace c = true
        · rw [if_pos hspace, blank, if_pos hspace, List.singleton_append, decode_plus, ih]
          rfl
        · obtain ⟨hhi, hlo, hsum, -, -, -⟩ := hex_digits c
          rw [if_neg hspace, blank, if_neg hspace]
          show decode (byte '%' :: toHex (c >>> 4) :: toHex (c % 16) :: encode s) = _
          rw [decode_percent hhi hlo, hsum, ih]
          rfl

/-! ### The loop in place -/

section Loop

variable (steps : ℕ) (out : List Byte) (a : Byte) (t : List Byte) (k : ℕ)

/-- The buffer behind what was written. -/
lemma getElem?_behind (i : ℕ) : (out ++ a :: t)[out.length + i]? = (a :: t)[i]? := by
  rw [List.getElem?_append_right (Nat.le_add_right _ _), Nat.add_sub_cancel_left]

/-- The byte behind what was written is written. -/
lemma set_behind (b : Byte) : (out ++ a :: t).set out.length b = out ++ b :: t := by
  rw [List.set_append_right _ _ le_rfl, Nat.sub_self, List.set_cons_zero]

lemma unescapeLoop_end (h : (a :: t)[k]? = some 0) :
    unescapeLoop (steps + 1) (out ++ a :: t) out.length (out.length + k)
      = some (out ++ 0 :: t) := by
  rw [unescapeLoop, getElem?_behind, h]
  exact congrArg some (set_behind out a t 0)

/-- A byte that stands for itself. -/
lemma unescapeLoop_plain {c : Byte} (h : (a :: t)[k]? = some c) (h0 : c ≠ 0) (hplus : c ≠ byte '+')
    (hpercent : c ≠ byte '%') :
    unescapeLoop (steps + 1) (out ++ a :: t) out.length (out.length + k)
      = unescapeLoop steps (out ++ c :: t) (out.length + 1) (out.length + k + 1) := by
  rw [unescapeLoop, getElem?_behind, h]
  simp only [Option.bind_eq_bind, Option.bind_some, if_neg h0, if_neg hplus, if_neg hpercent,
    set_behind]

lemma unescapeLoop_plus (h : (a :: t)[k]? = some (byte '+')) :
    unescapeLoop (steps + 1) (out ++ a :: t) out.length (out.length + k)
      = unescapeLoop steps (out ++ byte ' ' :: t) (out.length + 1) (out.length + k + 1) := by
  have h0 : byte '+' ≠ 0 := by decide
  rw [unescapeLoop, getElem?_behind, h]
  simp only [Option.bind_eq_bind, Option.bind_some, if_neg h0, if_true, set_behind]

/-- A percent sign with two bytes behind the index that is written at, and two
digits behind the index that is read at. -/
lemma unescapeLoop_percent {p q hi lo : Byte} (h : (a :: t)[k]? = some (byte '%'))
    (hp : t[0]? = some p) (hp0 : p ≠ 0) (hq : t[1]? = some q) (hq0 : q ≠ 0)
    (hhi : t[k]? = some hi) (hlo : t[k + 1]? = some lo) :
    unescapeLoop (steps + 1) (out ++ a :: t) out.length (out.length + k)
      = unescapeLoop steps (out ++ x2b hi lo :: t) (out.length + 1) (out.length + k + 3) := by
  have h0 : byte '%' ≠ 0 := by decide
  have hplus : byte '%' ≠ byte '+' := by decide
  rw [unescapeLoop, getElem?_behind, h]
  simp only [Option.bind_eq_bind, Option.bind_some, if_neg h0, if_neg hplus, if_true, set_behind,
    getElem?_behind, Nat.add_assoc, List.getElem?_cons_succ, hp, hq, hhi, hlo, if_neg hp0,
    if_neg hq0]

end Loop

/-- The loop behind the bytes `out` that were written, with `passed` between the
two indices and `code` from the index that is read at on. -/
def runAt (steps : ℕ) (out passed code : List Byte) : Option (List Byte) :=
  unescapeLoop steps (out ++ (passed ++ code)) out.length (out.length + passed.length)

/-- No byte of a code is an end. -/
lemma nul_notMem_code {hi lo : Byte} (hhi : hi ≠ 0) (hlo : lo ≠ 0) :
    0 ∉ [byte '%', hi, lo] := by
  intro h
  rcases List.mem_cons.mp h with h | h
  · exact absurd h (by decide)
  · rcases List.mem_cons.mp h with h | h
    · exact hhi h.symm
    · exact hlo (List.mem_singleton.mp h).symm

section RunAt

variable (steps : ℕ) (out passed code : List Byte)

/-- The buffer from the index that is written at on. -/
lemma exists_written {u : List Byte} (hu : u ≠ []) :
    ∃ a, passed ++ (u ++ code) = a :: ((passed ++ u).tail ++ code) := by
  obtain ⟨a, t, h⟩ := List.exists_cons_of_ne_nil (List.append_ne_nil_of_right_ne_nil passed hu)
  exact ⟨a, by rw [← List.append_assoc, h, List.cons_append, List.tail_cons]⟩

/-- A byte was written, and the bytes `u` were read. -/
lemma runAt_advance (b : Byte) {u : List Byte} (hu : u ≠ []) :
    unescapeLoop steps (out ++ b :: ((passed ++ u).tail ++ code)) (out.length + 1)
        (out.length + passed.length + u.length)
      = runAt steps (out ++ [b]) (passed ++ u).tail code := by
  have hpos : 0 < u.length := List.length_pos_iff.mpr hu
  have hindex : (out ++ [b]).length + (passed ++ u).tail.length
      = out.length + passed.length + u.length := by
    rw [List.length_append, List.length_singleton, List.length_tail, List.length_append]
    omega
  rw [runAt, hindex, List.length_append, List.append_assoc, List.singleton_append]
  rfl

/-- What is read stands behind the bytes between the indices. -/
lemma getElem?_code {w : List Byte} (hw : passed ++ code = w) (i : ℕ) :
    w[passed.length + i]? = code[i]? := by
  rw [← hw, List.getElem?_append_right (Nat.le_add_right _ _), Nat.add_sub_cancel_left]

lemma runAt_end : runAt (steps + 1) out passed [0]
    = some (out ++ 0 :: (passed ++ [0]).tail) := by
  obtain ⟨a, ha⟩ := exists_written passed [] (u := [0]) (List.cons_ne_nil _ _)
  rw [List.append_nil, List.append_nil] at ha
  rw [runAt, ha]
  exact unescapeLoop_end steps out a _ _ (getElem?_code passed [0] ha 0)

lemma runAt_plain {c : Byte} (h0 : c ≠ 0) (hplus : c ≠ byte '+') (hpercent : c ≠ byte '%') :
    runAt (steps + 1) out passed (c :: code)
      = runAt steps (out ++ [c]) (passed ++ [c]).tail code := by
  obtain ⟨a, ha⟩ := exists_written passed code (u := [c]) (List.cons_ne_nil _ _)
  have hread := getElem?_code passed _ ha 0
  rw [← runAt_advance steps out passed code c (List.cons_ne_nil _ _), runAt]
  rw [List.singleton_append] at ha
  rw [ha]
  exact unescapeLoop_plain steps out a _ _ hread h0 hplus hpercent

lemma runAt_plus : runAt (steps + 1) out passed (byte '+' :: code)
    = runAt steps (out ++ [byte ' ']) (passed ++ [byte '+']).tail code := by
  obtain ⟨a, ha⟩ := exists_written passed code (u := [byte '+']) (List.cons_ne_nil _ _)
  have hread := getElem?_code passed _ ha 0
  rw [← runAt_advance steps out passed code (byte ' ') (List.cons_ne_nil _ _), runAt]
  rw [List.singleton_append] at ha
  rw [ha]
  exact unescapeLoop_plus steps out a _ _ hread

/-- The two bytes behind the index that is written at are bytes of the string,
so none of them is its end. -/
lemma runAt_percent {hi lo : Byte} (hpassed : 0 ∉ passed) (hhi : hi ≠ 0) (hlo : lo ≠ 0) :
    runAt (steps + 1) out passed (byte '%' :: hi :: lo :: code)
      = runAt steps (out ++ [x2b hi lo]) (passed ++ [byte '%', hi, lo]).tail code := by
  obtain ⟨a, ha⟩ := exists_written passed code (u := [byte '%', hi, lo]) (List.cons_ne_nil _ _)
  have hread := getElem?_code passed _ ha
  have hnext : ∀ i < 2, ∃ p, ((passed ++ [byte '%', hi, lo]).tail ++ code)[i]? = some p
      ∧ p ≠ 0 := by
    intro i hi2
    have hlen : i < (passed ++ [byte '%', hi, lo]).tail.length := by
      simp only [List.length_tail, List.length_append, List.length_cons, List.length_nil]
      omega
    refine ⟨_, (List.getElem?_append_left hlen).trans (List.getElem?_eq_getElem hlen), ?_⟩
    intro hzero
    have hmem := List.mem_of_mem_tail (List.getElem_mem hlen)
    rw [hzero] at hmem
    rcases List.mem_append.mp hmem with hmem | hmem
    · exact hpassed hmem
    · exact nul_notMem_code hhi hlo hmem
  obtain ⟨p, hp, hp0⟩ := hnext 0 (by omega)
  obtain ⟨q, hq, hq0⟩ := hnext 1 (by omega)
  rw [← runAt_advance steps out passed code (x2b hi lo) (List.cons_ne_nil _ _), runAt]
  have hread1 := hread 1
  have hread2 := hread 2
  simp only [List.cons_append, List.nil_append] at ha
  rw [ha]
  exact unescapeLoop_percent steps out a _ _ (hread 0) hp hp0 hq hq0 hread1 hread2

end RunAt

/-- A code is replaced by its bytes. -/
lemma runAt_encode (steps : ℕ) (s out passed : List Byte) (hs : 0 ∉ s)
    (hsteps : (encode s).length < steps) (hpassed : 0 ∉ passed) :
    ∃ rest, runAt steps out passed (encode s ++ [0]) = some (out ++ s.map blank ++ 0 :: rest) := by
  induction s generalizing steps out passed with
  | nil =>
      obtain ⟨steps, rfl⟩ := Nat.exists_eq_succ_of_ne_zero (Nat.ne_of_gt (Nat.zero_lt_of_lt hsteps))
      refine ⟨(passed ++ [0]).tail, ?_⟩
      rw [List.map_nil, List.append_nil]
      exact runAt_end steps out passed
  | cons c s ih =>
      obtain ⟨steps, rfl⟩ := Nat.exists_eq_succ_of_ne_zero (Nat.ne_of_gt (Nat.zero_lt_of_lt hsteps))
      have hc : c ≠ 0 := fun h => hs (h ▸ List.mem_cons_self)
      have hs' : 0 ∉ s := fun h => hs (List.mem_cons_of_mem _ h)
      rw [encode, List.length_append] at hsteps
      -- the bytes between the indices after `u` was read, and the fuel that is left
      have hgo : ∀ (b : Byte) (u : List Byte), b = blank c → u = encodeByte c → u ≠ [] → 0 ∉ u →
          ∃ rest, runAt steps (out ++ [b]) (passed ++ u).tail (encode s ++ [0])
            = some (out ++ (c :: s).map blank ++ 0 :: rest) := by
        intro b u hb hu hne hnul
        have hpos : 0 < (encodeByte c).length := hu ▸ List.length_pos_iff.mpr hne
        have hpassed' : 0 ∉ (passed ++ u).tail := fun h =>
          (List.mem_append.mp (List.mem_of_mem_tail h)).elim hpassed hnul
        obtain ⟨rest, hrest⟩ := ih steps (out ++ [b]) (passed ++ u).tail hs' (by omega) hpassed'
        refine ⟨rest, hrest.trans ?_⟩
        rw [List.map_cons, ← hb, List.append_assoc out, List.singleton_append]
      rw [encode, List.append_assoc]
      by_cases hkept : isKept c = true
      · obtain ⟨hpercent, hplus, -, hblank⟩ := of_isKept c hkept
        have hcode : encodeByte c = [c] := if_pos hkept
        rw [hcode, List.singleton_append, runAt_plain steps out passed _ hc hplus hpercent]
        exact hgo c [c] hblank.symm hcode.symm (List.cons_ne_nil _ _)
          fun h => hc (List.mem_singleton.mp h).symm
      · by_cases hspace : isspace c = true
        · have hcode : encodeByte c = [byte '+'] := (if_neg hkept).trans (if_pos hspace)
          rw [hcode, List.singleton_append, runAt_plus]
          exact hgo (byte ' ') [byte '+'] (if_pos hspace).symm hcode.symm (List.cons_ne_nil _ _)
            (by decide)
        · obtain ⟨-, -, -, hx2b, hhi, hlo⟩ := hex_digits c
          have hcode : encodeByte c = [byte '%', toHex (c >>> 4), toHex (c % 16)] :=
            (if_neg hkept).trans (if_neg hspace)
          rw [hcode]
          show ∃ rest, runAt (steps + 1) out passed
            (byte '%' :: toHex (c >>> 4) :: toHex (c % 16) :: (encode s ++ [0])) = _
          rw [runAt_percent steps out passed _ hpassed hhi hlo, hx2b]
          exact hgo c _ (if_neg hspace).symm hcode.symm (List.cons_ne_nil _ _)
            (nul_notMem_code hhi hlo)

lemma nul_notMem_blank {s : List Byte} (hs : 0 ∉ s) : 0 ∉ s.map blank := by
  intro h
  obtain ⟨c, hc, hzero⟩ := List.mem_map.mp h
  rw [blank] at hzero
  split_ifs at hzero with hspace
  · exact absurd hzero (by decide)
  · exact hs (hzero ▸ hc)

/-- The string in the buffer that the loop leaves. -/
lemma urlUnescape_of_runAt {url bs rest : List Byte}
    (h : runAt (url.length + 1) [] [] (url ++ [0]) = some (bs ++ 0 :: rest)) (hbs : 0 ∉ bs)
    (hnil : url = [] → bs = []) : urlUnescape url = some bs := by
  rw [urlUnescape]
  split_ifs with hurl
  · rw [hnil hurl]
  · rw [show unescapeLoop _ (url ++ [0]) 0 0 = _ from h, Option.map_some,
      List.takeWhile_append_of_pos, List.takeWhile_cons_of_neg (by simp), List.append_nil]
    intro x hx
    have hne : x ≠ 0 := fun h => hbs (h ▸ hx)
    simpa using hne

/-- **`URL_unescape` of a code.** -/
theorem urlUnescape_encode {s : List Byte} (hs : 0 ∉ s) :
    urlUnescape (encode s) = some (s.map blank) := by
  obtain ⟨rest, hrest⟩ := runAt_encode ((encode s).length + 1) s [] [] hs (Nat.lt_succ_self _)
    List.not_mem_nil
  refine urlUnescape_of_runAt hrest (nul_notMem_blank hs) fun hnil => ?_
  cases s with
  | nil => rfl
  | cons c s =>
      have hlen := congrArg List.length hnil
      rw [encode, encodeByte] at hlen
      split_ifs at hlen <;> simp at hlen

/-- A byte that stands for itself in front of a code. -/
lemma urlUnescape_cons_encode {c : Byte} (h0 : c ≠ 0) (hplus : c ≠ byte '+')
    (hpercent : c ≠ byte '%') {s : List Byte} (hs : 0 ∉ s) :
    urlUnescape (c :: encode s) = some (c :: s.map blank) := by
  obtain ⟨rest, hrest⟩ := runAt_encode ((encode s).length + 1) s [c] [] hs (Nat.lt_succ_self _)
    List.not_mem_nil
  have hrun := (runAt_plain ((encode s).length + 1) [] [] (encode s ++ [0]) h0 hplus
    hpercent).trans hrest
  refine urlUnescape_of_runAt hrun (fun hmem => ?_) fun hnil => by cases hnil
  rcases List.mem_cons.mp hmem with h | h
  · exact h0 h.symm
  · exact nul_notMem_blank hs h

/-! ### The round trips -/

/-- White space that is no blank. -/
def isControlSpace (c : Byte) : Bool := 9 ≤ c ∧ c ≤ 13

lemma blank_eq_iff : ∀ c : Byte, blank c = c ↔ isControlSpace c = false := by decide +kernel

/-- What is left unchanged. -/
lemma map_blank_iff (s : List Byte) :
    s.map blank = s ↔ ∀ c ∈ s, isControlSpace c = false := by
  have hmap : s.map blank = s ↔ ∀ c ∈ s, blank c = c := by
    simpa using List.map_inj_left (l := s) (f := blank) (g := id)
  exact hmap.trans (forall₂_congr fun c _ => blank_eq_iff c)

/-- **What comes through the code unchanged**: the strings without a tabulator, a
line feed, a vertical tabulator, a form feed or a carriage return, for each of
the two readers. -/
theorem url_code_iff (s : CBytes) :
    decode (encode s.bytes) = some s.bytes ∧ urlUnescape (encode s.bytes) = some s.bytes
      ↔ ∀ c ∈ s.bytes, isControlSpace c = false := by
  rw [decode_encode, urlUnescape_encode s.nul_free, and_self, Option.some_inj]
  exact map_blank_iff s.bytes

/-- A password with a tabulator reaches the server with a blank instead. -/
theorem tabulator_becomes_blank :
    ¬ ∀ s : CBytes,
      decode (encode s.bytes) = some s.bytes ∧ urlUnescape (encode s.bytes) = some s.bytes := by
  intro h
  exact absurd (h ⟨[byte 'a', 9, byte 'b'], by decide⟩) (by decide)

end PbEntityDb
