import Mathlib.Data.List.DropRight
import PbEntityDb.Basic

/-!
The manifest of the message types: `CProtobufImporter::ImportDynamicPath`.

* `fgets` reads a line, or what of it fits in the buffer; `removeTail` strips a
  buffer from behind, down to the byte with the index one, and its counter tells
  whether something is left.
* `importDynamicPath` are the names that are handed on to
  `ImportMessageTypeFromProtoFile`, in their order.
* `importDynamicPath_line` is one line of the file, whatever chunks it is read
  in, and `importDynamicPath_eq` the whole file.
-/

namespace PbEntityDb

/-! ### The reader -/

/-- The bytes at the end of a line. -/
def lineFeed : Byte := 10

/-- `'\r'` and `'\n'`. -/
def isEol (c : Byte) : Bool := c = 13 || c = lineFeed

/-- At most `n` bytes, up to a line feed and with it, and what follows. -/
def fgetsBytes : ℕ → List Byte → List Byte × List Byte
  | 0, fp => ([], fp)
  | _ + 1, [] => ([], [])
  | n + 1, c :: fp =>
      if c = lineFeed then ([c], fp) else (c :: (fgetsBytes n fp).1, (fgetsBytes n fp).2)

/-- `fgets`: the bytes in front of the NUL, and what is left of the file. -/
def fgets (size : ℕ) (fp : List Byte) : Option (List Byte × List Byte) :=
  if fp = [] then none else some (fgetsBytes (size - 1) fp)

/-- The bytes of a buffer in front of its first NUL. -/
def untilNul (s : List Byte) : List Byte := s.takeWhile (· ≠ 0)

/-- The loop that removes the tail, with `nIndex` in front of its decrement. -/
def removeTail : ℕ → List Byte → ℤ × List Byte
  | 0, chLine => (-1, chLine)
  | 1, chLine => (0, chLine)
  | nIndex + 2, chLine =>
      if isEol (chLine.getD (nIndex + 1) 0) = false then (nIndex + 1, chLine)
      else removeTail (nIndex + 1) (chLine.set (nIndex + 1) 0)

/-- What is imported of a line. -/
def importedName (chLine : List Byte) : Option (List Byte) :=
  let (nIndex, chLine) := removeTail (untilNul chLine).length chLine
  if nIndex > 0 then some (untilNul chLine) else none

/-- The size of `chLine`. -/
def chLineSize : ℕ := 512

lemma length_fgetsBytes (n : ℕ) (fp : List Byte) :
    (fgetsBytes n fp).1.length + (fgetsBytes n fp).2.length = fp.length := by
  induction n generalizing fp with
  | zero => exact Nat.zero_add _
  | succ n ih =>
      cases fp with
      | nil => rfl
      | cons c fp =>
          rw [fgetsBytes]
          split_ifs
          · rw [List.length_singleton, List.length_cons, Nat.add_comm]
          · have hrest := ih fp
            simp only [List.length_cons]
            omega

lemma fgetsBytes_ne_nil (n : ℕ) {fp : List Byte} (h : fp ≠ []) :
    (fgetsBytes (n + 1) fp).1 ≠ [] := by
  cases fp with
  | nil => exact absurd rfl h
  | cons c fp =>
      rw [fgetsBytes]
      split_ifs
      · exact List.cons_ne_nil _ _
      · exact List.cons_ne_nil _ _

/-- Every call reads something. -/
lemma fgets_shorter {fp chLine rest : List Byte} (h : fgets chLineSize fp = some (chLine, rest)) :
    rest.length < fp.length := by
  rw [fgets] at h
  split_ifs at h with hnil
  have hlen := length_fgetsBytes (chLineSize - 1) fp
  have hpos := List.length_pos_iff.mpr (fgetsBytes_ne_nil 510 hnil)
  rw [Option.some.inj h] at hlen
  rw [show fgetsBytes (510 + 1) fp = (chLine, rest) from Option.some.inj h] at hpos
  dsimp only at hlen hpos
  omega

/-- The names that `CProtobufImporter::ImportDynamicPath` imports from a file. -/
def importDynamicPath (fp : List Byte) : List (List Byte) :=
  match h : fgets chLineSize fp with
  | none => []
  | some (chLine, rest) => (importedName (chLine ++ [0])).toList ++ importDynamicPath rest
termination_by fp.length
decreasing_by exact fgets_shorter h

lemma importDynamicPath_nil : importDynamicPath [] = [] := by
  rw [importDynamicPath]
  rfl

/-- The reader goes on behind a chunk. -/
lemma importDynamicPath_chunk {fp chLine rest : List Byte} (hfp : fp ≠ [])
    (h : fgetsBytes 511 fp = (chLine, rest)) :
    importDynamicPath fp = (importedName (chLine ++ [0])).toList ++ importDynamicPath rest := by
  have hfgets : fgets chLineSize fp = some (chLine, rest) := by
    rw [fgets, if_neg hfp]
    exact congrArg some h
  rw [importDynamicPath]
  split
  · rename_i hnone
    rw [hfgets] at hnone
    cases hnone
  · rename_i chLine' rest' hsome
    rw [hfgets] at hsome
    cases hsome
    rfl

/-! ### A chunk -/

/-- What is left of a line without its tail. -/
def strip (line : List Byte) : List Byte := line.rdropWhile isEol

lemma strip_concat (line : List Byte) (c : Byte) :
    strip (line ++ [c]) = if isEol c then strip line else line ++ [c] :=
  List.rdropWhile_concat isEol line c

/-- One round of the loop on a line with the NULs that it has written behind it. -/
lemma removeTail_concat {line : List Byte} (hline : line ≠ []) (c : Byte) (k : ℕ) :
    removeTail (line ++ [c]).length (line ++ [c] ++ List.replicate (k + 1) 0)
      = if isEol c then removeTail line.length (line ++ List.replicate (k + 2) 0)
        else ((line.length : ℤ), line ++ [c] ++ List.replicate (k + 1) 0) := by
  obtain ⟨m, hm⟩ := Nat.exists_eq_succ_of_ne_zero (List.length_pos_iff.mpr hline).ne'
  have hget : (line ++ [c] ++ List.replicate (k + 1) 0).getD (m + 1) 0 = c := by
    rw [List.append_assoc, List.getD_eq_getElem?_getD, List.getElem?_append_right hm.le, hm,
      Nat.sub_self]
    rfl
  have hset : (line ++ [c] ++ List.replicate (k + 1) 0).set (m + 1) 0
      = line ++ List.replicate (k + 2) 0 := by
    rw [List.append_assoc, List.set_append_right _ _ hm.le, hm, Nat.sub_self]
    rfl
  rw [List.length_append, List.length_singleton, hm]
  show removeTail (m + 2) _ = _
  rw [removeTail, hget, hset]
  cases isEol c with
  | false => rfl
  | true => rfl

lemma removeTail_kept {line : List Byte} (h : 2 ≤ (strip line).length) (k : ℕ) :
    ∃ j, removeTail line.length (line ++ List.replicate (k + 1) 0)
      = (((strip line).length : ℤ) - 1, strip line ++ List.replicate (j + 1) 0) := by
  induction line using List.reverseRecOn generalizing k with
  | nil => simp [strip] at h
  | append_singleton line c ih =>
      have hline : line ≠ [] := by
        rintro rfl
        rw [strip_concat] at h
        split_ifs at h
        · simp [strip] at h
        · simp at h
      rw [removeTail_concat hline, strip_concat] at *
      by_cases hc : isEol c = true
      · rw [if_pos hc] at h ⊢
        rw [if_pos hc]
        exact ih h (k + 1)
      · rw [if_neg hc, if_neg hc]
        refine ⟨k, ?_⟩
        rw [List.length_append, List.length_singleton]
        push_cast
        rw [Int.add_sub_cancel]

lemma removeTail_empty {line : List Byte} (h : (strip line).length ≤ 1) (k : ℕ) :
    (removeTail line.length (line ++ List.replicate (k + 1) 0)).1 ≤ 0 := by
  induction line using List.reverseRecOn generalizing k with
  | nil => exact (by decide : (-1 : ℤ) ≤ 0)
  | append_singleton line c ih =>
      by_cases hline : line = []
      · rw [hline]
        exact le_rfl
      · rw [removeTail_concat hline]
        rw [strip_concat] at h
        have hpos := List.length_pos_iff.mpr hline
        by_cases hc : isEol c = true
        · rw [if_pos hc] at h ⊢
          exact ih h (k + 1)
        · rw [if_neg hc, List.length_append, List.length_singleton] at h
          omega

lemma untilNul_append {line : List Byte} (h : 0 ∉ line) (k : ℕ) :
    untilNul (line ++ List.replicate (k + 1) 0) = line := by
  rw [untilNul, List.takeWhile_append_of_pos, List.replicate_succ,
    List.takeWhile_cons_of_neg (by simp), List.append_nil]
  intro c hc
  have hne : c ≠ 0 := fun heq => h (heq ▸ hc)
  simpa using hne

lemma strip_subset (line : List Byte) : strip line ⊆ line :=
  (List.rdropWhile_prefix isEol line).subset

/-- **What is imported of a chunk**: what is left of it without its tail, unless
that is a single byte. -/
lemma importedName_eq {line : List Byte} (h : 0 ∉ line) (hone : (strip line).length ≠ 1) :
    importedName (line ++ [0]) = if strip line = [] then none else some (strip line) := by
  have huntil : untilNul (line ++ [0]) = line := untilNul_append h 0
  by_cases hlen : 2 ≤ (strip line).length
  · obtain ⟨j, hj⟩ := removeTail_kept hlen 0
    have hne : strip line ≠ [] := List.length_pos_iff.mp (by omega)
    rw [importedName, huntil, show removeTail line.length (line ++ [0]) = _ from hj, if_neg hne]
    dsimp only
    rw [if_pos (by omega), untilNul_append (fun h0 => h (strip_subset line h0))]
  · have hindex := removeTail_empty (show (strip line).length ≤ 1 by omega) 0
    have hnil : strip line = [] := List.length_eq_zero_iff.mp (by omega)
    rw [importedName, huntil, if_pos hnil]
    exact if_neg (Int.not_lt.mpr hindex)

/-! ### A line -/

/-- A line goes on in the same chunk as long as there is room. -/
lemma fgetsBytes_line {line : List Byte} (h : lineFeed ∉ line) {n : ℕ} (hn : line.length < n)
    (rest : List Byte) :
    fgetsBytes n (line ++ lineFeed :: rest) = (line ++ [lineFeed], rest) := by
  induction line generalizing n with
  | nil =>
      obtain ⟨n, rfl⟩ := Nat.exists_eq_succ_of_ne_zero (Nat.ne_of_gt hn)
      exact if_pos rfl
  | cons c line ih =>
      obtain ⟨n, rfl⟩ := Nat.exists_eq_succ_of_ne_zero (Nat.ne_of_gt (Nat.zero_lt_of_lt hn))
      have hc : c ≠ lineFeed := fun heq => h (heq ▸ List.mem_cons_self)
      rw [List.cons_append, fgetsBytes, if_neg hc,
        ih (fun hl => h (List.mem_cons_of_mem _ hl)) (Nat.lt_of_succ_lt_succ hn)]
      rfl

/-- A line that is longer than the room, or ends with the file. -/
lemma fgetsBytes_part {line : List Byte} (h : lineFeed ∉ line) (n : ℕ) (rest : List Byte)
    (hrest : n ≤ line.length ∨ rest = []) :
    fgetsBytes n (line ++ rest) = (line.take n, line.drop n ++ rest) := by
  induction n generalizing line with
  | zero => rfl
  | succ n ih =>
      cases line with
      | nil =>
          obtain hle | rfl := hrest
          · exact absurd hle (Nat.not_succ_le_zero n)
          · rfl
      | cons c line =>
          have hc : c ≠ lineFeed := fun heq => h (heq ▸ List.mem_cons_self)
          rw [List.cons_append, fgetsBytes, if_neg hc,
            ih (fun hl => h (List.mem_cons_of_mem _ hl))
              (hrest.imp_left Nat.le_of_succ_le_succ)]
          rfl

/-- What follows a line: nothing, or a line feed and more lines. -/
def EndsLine (rest : List Byte) : Prop := rest = [] ∨ ∃ lines, rest = lineFeed :: lines

/-- The chunk that begins with a line, or with a part of it. -/
lemma importDynamicPath_short {line rest : List Byte} (h : lineFeed ∉ line)
    (hlen : line.length < 511) (hrest : EndsLine rest) (hnul : 0 ∉ line)
    (hone : (strip line).length ≠ 1) :
    importDynamicPath (line ++ rest)
      = (if strip line = [] then none else some (strip line)).toList
        ++ importDynamicPath rest.tail := by
  obtain rfl | ⟨lines, rfl⟩ := hrest
  · rw [List.append_nil, List.tail_nil]
    by_cases hline : line = []
    · rw [hline]
      rfl
    · have hchunk := fgetsBytes_part h 511 [] (.inr rfl)
      rw [List.append_nil, List.append_nil, List.take_of_length_le hlen.le,
        List.drop_of_length_le hlen.le] at hchunk
      rw [importDynamicPath_chunk hline hchunk, importedName_eq hnul hone]
  · have hnul' : 0 ∉ line ++ [lineFeed] := fun h0 =>
      (List.mem_append.mp h0).elim hnul fun h0 => absurd (List.mem_singleton.mp h0) (by decide)
    have hstrip : strip (line ++ [lineFeed]) = strip line := by
      rw [strip_concat, if_pos (by decide)]
    have hne : line ++ lineFeed :: lines ≠ [] :=
      List.append_ne_nil_of_right_ne_nil _ (List.cons_ne_nil _ _)
    have hone' : (strip (line ++ [lineFeed])).length ≠ 1 := by rwa [hstrip]
    rw [importDynamicPath_chunk hne (fgetsBytes_line h hlen lines), importedName_eq hnul' hone',
      hstrip, List.tail_cons]

lemma strip_eq_nil {line : List Byte} (h : ∀ c ∈ line, isEol c = true) : strip line = [] :=
  List.rdropWhile_eq_nil_iff.mpr h

lemma ne_zero_of_isEol {c : Byte} (h : isEol c = true) : c ≠ 0 := fun heq => by
  rw [heq] at h
  exact absurd h (by decide)

/-- A long tail is read in chunks in which nothing is found. -/
lemma importDynamicPath_tail {line rest : List Byte} (h : lineFeed ∉ line)
    (heol : ∀ c ∈ line, isEol c = true) (hrest : EndsLine rest) :
    importDynamicPath (line ++ rest) = importDynamicPath rest.tail := by
  induction hn : line.length using Nat.strong_induction_on generalizing line with
  | _ n ih =>
      have hnul : ∀ part ⊆ line, 0 ∉ part := fun part hpart h0 =>
        ne_zero_of_isEol (heol 0 (hpart h0)) rfl
      by_cases hlen : line.length < 511
      · rw [importDynamicPath_short h hlen hrest (hnul line (List.Subset.refl _))
          (by rw [strip_eq_nil heol]; decide), strip_eq_nil heol]
        rfl
      · have hchunk := fgetsBytes_part h 511 rest (.inl (by omega))
        have hne : line ++ rest ≠ [] := List.append_ne_nil_of_left_ne_nil
          (List.length_pos_iff.mp (by omega)) _
        have htake : strip (line.take 511) = [] :=
          strip_eq_nil fun c hc => heol c (List.take_subset _ _ hc)
        have hdrop := ih (line.drop 511).length (by rw [List.length_drop]; omega)
          (fun hc => h (List.drop_subset _ _ hc)) (fun c hc => heol c (List.drop_subset _ _ hc)) rfl
        rw [importDynamicPath_chunk hne hchunk, importedName_eq (hnul _ (List.take_subset _ _))
          (by rw [htake]; decide), htake, hdrop]
        rfl

lemma strip_append {line tail : List Byte} (h : ∀ c ∈ tail, isEol c = true) :
    strip (line ++ tail) = strip line := by
  induction tail using List.reverseRecOn with
  | nil => rw [List.append_nil]
  | append_singleton tail c ih =>
      rw [← List.append_assoc, strip_concat,
        if_pos (h c (List.mem_append_right _ List.mem_cons_self))]
      exact ih fun x hx => h x (List.mem_append_left _ hx)

/-- **One line of the file**, whatever chunks it is read in. -/
theorem importDynamicPath_line {line rest : List Byte} (h : lineFeed ∉ line) (hnul : 0 ∉ line)
    (hrest : EndsLine rest) (hone : (strip line).length ≠ 1) (hfits : (strip line).length ≤ 511) :
    importDynamicPath (line ++ rest)
      = (if strip line = [] then none else some (strip line)).toList
        ++ importDynamicPath rest.tail := by
  by_cases hlen : line.length < 511
  · exact importDynamicPath_short h hlen hrest hnul hone
  · -- the first chunk ends inside the tail of the line
    have hsplit : strip line ++ line.rtakeWhile isEol = line :=
      List.rdropWhile_append_rtakeWhile
    have htail : ∀ c ∈ line.rtakeWhile isEol, isEol c = true := fun c hc =>
      List.mem_rtakeWhile_imp hc
    have htake : line.take 511
        = strip line ++ (line.rtakeWhile isEol).take (511 - (strip line).length) := by
      conv_lhs => rw [← hsplit]
      rw [List.take_append, List.take_of_length_le hfits]
    have hdrop : line.drop 511 = (line.rtakeWhile isEol).drop (511 - (strip line).length) := by
      conv_lhs => rw [← hsplit]
      rw [List.drop_append, List.drop_of_length_le hfits, List.nil_append]
    have hstrip : strip (line.take 511) = strip line := by
      rw [htake, strip_append fun c hc => htail c (List.take_subset _ _ hc)]
      exact List.rdropWhile_idempotent isEol line
    have hchunk := fgetsBytes_part h 511 rest (.inl (by omega))
    have hne : line ++ rest ≠ [] := List.append_ne_nil_of_left_ne_nil
      (List.length_pos_iff.mp (by omega)) _
    have hgoOn : importDynamicPath (line.drop 511 ++ rest) = importDynamicPath rest.tail := by
      refine importDynamicPath_tail (fun hc => h (List.drop_subset _ _ hc)) ?_ hrest
      rw [hdrop]
      exact fun c hc => htail c (List.drop_subset _ _ hc)
    rw [importDynamicPath_chunk hne hchunk, importedName_eq
      (fun h0 => hnul (List.take_subset _ _ h0)) (by rwa [hstrip]), hstrip, hgoOn]

/-! ### The file -/

/-- The lines of a file without their tails. -/
def strippedLines (fp : List Byte) : List (List Byte) := (fp.splitOn lineFeed).map strip

/-- **The manifest is read line by line**: the names that are imported are the
lines that are not empty, in their order. -/
theorem importDynamicPath_eq (fp : CBytes)
    (h : ∀ line ∈ strippedLines fp.bytes,
      line.length = 0 ∨ 2 ≤ line.length ∧ line.length ≤ 511) :
    importDynamicPath fp.bytes = (strippedLines fp.bytes).filter (· ≠ []) := by
  obtain ⟨fp, hnul⟩ := fp
  dsimp only at *
  induction hn : fp.length using Nat.strong_induction_on generalizing fp with
  | _ n ih =>
      by_cases hfeed : lineFeed ∈ fp
      · obtain ⟨line, rest, rfl, hline⟩ := List.eq_append_cons_of_mem hfeed
        have hlines : strippedLines (line ++ lineFeed :: rest)
            = strip line :: strippedLines rest := by
          rw [strippedLines, List.splitOn_append_cons_self_of_not_mem hline, List.map_cons,
            strippedLines]
        rw [hlines] at h ⊢
        have hnulLine : 0 ∉ line := fun h0 => hnul (List.mem_append_left _ h0)
        have hnulRest : 0 ∉ rest := fun h0 =>
          hnul (List.mem_append_right _ (List.mem_cons_of_mem _ h0))
        have hfirst := h _ List.mem_cons_self
        have hrest := ih rest.length
          (by rw [← hn, List.length_append, List.length_cons]; omega) rest
          hnulRest (fun l hl => h l (List.mem_cons_of_mem _ hl)) rfl
        rw [importDynamicPath_line hline hnulLine (.inr ⟨rest, rfl⟩) (by omega) (by omega),
          List.tail_cons, hrest, List.filter_cons]
        by_cases hnil : strip line = []
        · simp [hnil]
        · simp [hnil]
      · have hlines : strippedLines fp = [strip fp] := by
          rw [strippedLines, List.splitOn_eq_singleton hfeed, List.map_singleton]
        rw [hlines] at h ⊢
        have hfirst := h _ List.mem_cons_self
        have hline := importDynamicPath_line hfeed hnul (.inl rfl) (by omega) (by omega)
        rw [List.append_nil, List.tail_nil, importDynamicPath_nil, List.append_nil] at hline
        rw [hline]
        by_cases hnil : strip fp = []
        · simp [hnil]
        · simp [hnil]

/-- Two files, an empty line between them, and no end of the last line. -/
def twoFiles : CBytes :=
  ⟨ascii "role.proto" ++ [13, 10, 13, 10] ++ ascii "proc.proto", by decide⟩

theorem twoFiles_imported :
    importDynamicPath twoFiles.bytes = [ascii "role.proto", ascii "proc.proto"] :=
  (importDynamicPath_eq twoFiles (by decide +kernel)).trans (by decide +kernel)

end PbEntityDb
