import PbEntityDb.Basic
import PbEntityDb.Library.Varint

/-!
The bytes of protobuf: `CodedOutputStream` and `CodedInputStream`.

* What is written is a list of bytes; a stream that is read is the list of the bytes up
  to its current limit.
* `readVarint64Slow` reads a varint byte by byte; `readVarint64FromArray` and
  `readVarint32FromArray` are the unrolled functions for a buffer that cannot run out.
  **They agree**: `fromArray_agrees`.
* `ReadTag` tells a place where a message may end from the tag zero.
* `varintSize` counts the bytes of a varint without writing it.
-/

namespace PbEntityDb

namespace Coded

/-! ### Writing -/

/-- The loop of `WriteVarint32ToArray` and `WriteVarint64ToArray`: seven bits of the
value in each byte, and the bit `0x80` in all but the last. -/
def writeVarint (value : ℕ) : List Byte := Varint.encode 128 (BitVec.ofNat 8) value

/-- `CodedOutputStream::WriteVarint32`. -/
def writeVarint32 (value : BitVec 32) : List Byte := writeVarint value.toNat

/-- `CodedOutputStream::WriteVarint64`. -/
def writeVarint64 (value : BitVec 64) : List Byte := writeVarint value.toNat

/-- `CodedOutputStream::WriteVarint32SignExtended`. -/
def writeVarint32SignExtended (value : BitVec 32) : List Byte :=
  writeVarint64 (value.signExtend 64)

/-- The low `k` bytes of a number, the lowest first. -/
def littleEndian : ℕ → ℕ → List Byte
  | 0, _ => []
  | k + 1, n => BitVec.ofNat 8 n :: littleEndian k (n / 256)

/-- `CodedOutputStream::WriteLittleEndian32`. -/
def writeLittleEndian32 (value : BitVec 32) : List Byte := littleEndian 4 value.toNat

/-- `CodedOutputStream::WriteLittleEndian64`. -/
def writeLittleEndian64 (value : BitVec 64) : List Byte := littleEndian 8 value.toNat

/-- `CodedOutputStream::VarintSize32` and `VarintSize64`: a division by 7 that is made
with a multiplication. -/
def varintSize (value : ℕ) : ℕ := (Nat.log 2 (value ||| 1) * 9 + 73) / 64

/-- `CodedOutputStream::VarintSize32SignExtended`. -/
def varintSize32SignExtended (value : BitVec 32) : ℕ :=
  if value.toInt < 0 then 10 else varintSize value.toNat

/-! ### Reading varints -/

/-- `CodedInputStream::kMaxVarintBytes`. -/
def kMaxVarintBytes : ℕ := 10

/-- The loop of `CodedInputStream::ReadVarint64Slow` behind `count` bytes. -/
def readVarint64SlowFrom (result : BitVec 64) (count : ℕ) :
    List Byte → Option (BitVec 64 × List Byte)
  | [] => none
  | b :: bs =>
      if count = kMaxVarintBytes then none
      else if b &&& 0x80 ≠ 0 then
        readVarint64SlowFrom (result ||| (b &&& 0x7F).setWidth 64 <<< (7 * count)) (count + 1) bs
      else some (result ||| (b &&& 0x7F).setWidth 64 <<< (7 * count), bs)

/-- `CodedInputStream::ReadVarint64Slow`. -/
def readVarint64Slow (bs : List Byte) : Option (BitVec 64 × List Byte) :=
  readVarint64SlowFrom 0 0 bs

/-- The lines of `ReadVarint32FromArray` from the byte with index `i` on, which test its
mark: the bits of five bytes are added up, the others are read over. Without a value, a
byte behind the buffer is read. -/
def readVarint32From (result : BitVec 32) (i : ℕ) :
    List Byte → Option (Option (BitVec 32 × List Byte))
  | [] => none
  | b :: bs =>
      let added := if i < 5 then result + b.setWidth 32 <<< (7 * i) else result
      if b &&& 0x80 = 0 then some (some (added, bs))
      else if i + 1 = kMaxVarintBytes then some none
      else readVarint32From (if i < 4 then added - 0x80#32 <<< (7 * i) else added) (i + 1) bs

/-- `ReadVarint32FromArray`: the caller has seen the mark of the first byte. -/
def readVarint32FromArray : List Byte → Option (Option (BitVec 32 × List Byte))
  | [] => none
  | firstByte :: bs => readVarint32From (firstByte.setWidth 32 - 0x80) 1 bs

/-- The lines of `ReadVarint64FromArray` for the rest of one of its parts, of which there
are `count` bytes more, from the one with index `i` on: the part, whether it ends the
varint, and what follows. -/
def readPart (part : BitVec 32) (i : ℕ) : ℕ → List Byte → Option (BitVec 32 × Bool × List Byte)
  | 0, bs => some (part, false, bs)
  | _ + 1, [] => none
  | count + 1, b :: bs =>
      if b &&& 0x80 = 0 then some (part + b.setWidth 32 <<< (7 * i), true, bs)
      else readPart (part + b.setWidth 32 <<< (7 * i) - 0x80#32 <<< (7 * i)) (i + 1) count bs

/-- The parts put together, at the label `done`. -/
def joinParts (part0 part1 part2 : BitVec 32) : BitVec 64 :=
  part0.setWidth 64 ||| part1.setWidth 64 <<< 28 ||| part2.setWidth 64 <<< 56

/-- `ReadVarint64FromArray`: in pieces of 28, 28 and 14 bits. Without a value, a byte
behind the buffer is read. -/
def readVarint64FromArray (bs : List Byte) : Option (Option (BitVec 64 × List Byte)) := do
  let (part0, done, bs) ← readPart 0 0 4 bs
  if done then return some (joinParts part0 0 0, bs)
  let (part1, done, bs) ← readPart 0 0 4 bs
  if done then return some (joinParts part0 part1 0, bs)
  let (part2, done, bs) ← readPart 0 0 2 bs
  if done then return some (joinParts part0 part1 part2, bs)
  return none

/-- The test for the unrolled functions: a varint cannot run out of the buffer if there
are ten bytes, or if the last one ends a varint. -/
def inBuffer (bs : List Byte) : Bool :=
  kMaxVarintBytes ≤ bs.length || bs.getLast?.any fun b => b &&& 0x80 = 0

/-- `CodedInputStream::ReadVarint64Fallback`. -/
def readVarint64Fallback (bs : List Byte) : Option (BitVec 64 × List Byte) :=
  if inBuffer bs then (readVarint64FromArray bs).join else readVarint64Slow bs

/-- `CodedInputStream::ReadVarint64`. -/
def readVarint64 : List Byte → Option (BitVec 64 × List Byte)
  | [] => readVarint64Fallback []
  | b :: bs => if b < 0x80 then some (b.setWidth 64, bs) else readVarint64Fallback (b :: bs)

/-- `CodedInputStream::ReadVarint32Fallback` and `ReadVarint32Slow`. -/
def readVarint32Fallback (bs : List Byte) : Option (BitVec 32 × List Byte) :=
  if inBuffer bs then (readVarint32FromArray bs).join
  else (readVarint64Fallback bs).map fun r => (r.1.setWidth 32, r.2)

/-- `CodedInputStream::ReadVarint32`. -/
def readVarint32 : List Byte → Option (BitVec 32 × List Byte)
  | [] => readVarint32Fallback []
  | b :: bs => if b < 0x80 then some (b.setWidth 32, bs) else readVarint32Fallback (b :: bs)

/-- `CodedInputStream::ReadVarintSizeAsInt`: a size that is no `int` is refused. -/
def readVarintSizeAsInt (bs : List Byte) : Option (ℕ × List Byte) := do
  let (value, bs) ← readVarint64 bs
  if value.toNat < 2 ^ 31 then return (value.toNat, bs)
  none

/-- What `CodedInputStream::ReadTag` comes upon. -/
inductive TagRead where
  /-- no byte is left: a message may end here, and the tag is zero -/
  | limit
  /-- a tag that is zero, or none that could be read -/
  | zero
  /-- a tag and what follows it -/
  | tag (tag : BitVec 32) (rest : List Byte)

/-- `ReadTagFallback` and `ReadTagSlow` for a stream that is not at its end. -/
def readTagFallback (bs : List Byte) : Option (BitVec 32 × List Byte) :=
  if inBuffer bs then (readVarint32FromArray bs).join
  else (readVarint64 bs).map fun r => (r.1.setWidth 32, r.2)

/-- What was read where a tag should be. -/
def TagRead.ofRead : Option (BitVec 32 × List Byte) → TagRead
  | none => .zero
  | some (value, rest) => if value = 0 then .zero else .tag value rest

/-- `CodedInputStream::ReadTag`. -/
def readTag : List Byte → TagRead
  | [] => .limit
  | b :: bs =>
      .ofRead (if b < 0x80 then some (b.setWidth 32, bs) else readTagFallback (b :: bs))

/-! ### Reading bytes -/

/-- `CodedInputStream::ReadRaw`. -/
def readRaw (size : ℕ) (bs : List Byte) : Option (List Byte × List Byte) :=
  if size ≤ bs.length then some (bs.take size, bs.drop size) else none

/-- `CodedInputStream::ReadString` and `Skip` for a `uint32` that becomes an `int`. -/
def readString (size : BitVec 32) (bs : List Byte) : Option (List Byte × List Byte) :=
  if size.toInt < 0 then none else readRaw size.toNat bs

/-- The number of which these are the bytes. -/
def fromLittleEndian : List Byte → ℕ
  | [] => 0
  | b :: bs => b.toNat + 256 * fromLittleEndian bs

/-- `CodedInputStream::ReadLittleEndian32`. -/
def readLittleEndian32 (bs : List Byte) : Option (BitVec 32 × List Byte) :=
  (readRaw 4 bs).map fun r => (BitVec.ofNat 32 (fromLittleEndian r.1), r.2)

/-- `CodedInputStream::ReadLittleEndian64`. -/
def readLittleEndian64 (bs : List Byte) : Option (BitVec 64 × List Byte) :=
  (readRaw 8 bs).map fun r => (BitVec.ofNat 64 (fromLittleEndian r.1), r.2)

variable {b : Byte} {bs rest : List Byte} {k i : ℕ}

/-! ### Bytes -/

lemma mark_iff (b : Byte) : b &&& 0x80 = 0 ↔ b.toNat < 128 := by
  revert b; decide

lemma toNat_digit (b : Byte) : (b &&& 0x7F).toNat = b.toNat % 128 := by
  revert b; decide

lemma toNat_lt (b : Byte) : b.toNat < 2 * 128 := b.isLt

lemma toNat_ofNat {n : ℕ} (h : n < 2 * 128) : (BitVec.ofNat 8 n).toNat = n :=
  Nat.mod_eq_of_lt h

/-! ### The loop -/

/-- Bits that are put above others. -/
lemma or_shift {s n : ℕ} (hs : s < 64) (hn : n ≤ 64) (hk : k < 2 ^ s) (d : BitVec n) :
    BitVec.ofNat 64 k ||| d.setWidth 64 <<< s = BitVec.ofNat 64 (k + 2 ^ s * d.toNat) := by
  have hpow : 2 ^ 64 = 2 ^ s * 2 ^ (64 - s) := by rw [← pow_add]; congr 1; omega
  have hle : 2 ^ s ≤ 2 ^ 64 := Nat.pow_le_pow_right (by omega) (by omega)
  have hd : d.toNat < 2 ^ 64 := lt_of_lt_of_le d.isLt (Nat.pow_le_pow_right (by omega) hn)
  set A := 2 ^ s
  set B := 2 ^ (64 - s)
  have hmod : d.toNat % B < B := Nat.mod_lt _ (by positivity)
  have hlt : A * (d.toNat % B) + k < A * B := calc
    A * (d.toNat % B) + k < A * (d.toNat % B) + A := by omega
    _ = A * (d.toNat % B + 1) := by ring
    _ ≤ A * B := Nat.mul_le_mul_left _ hmod
  have hsum : (k + A * d.toNat) % (A * B) = A * (d.toNat % B) + k := by
    have hsplit : k + A * d.toNat = A * B * (d.toNat / B) + (A * (d.toNat % B) + k) := by
      conv_lhs => rw [← Nat.div_add_mod d.toNat B]
      ring
    rw [hsplit, Nat.mul_add_mod, Nat.mod_eq_of_lt hlt]
  refine BitVec.eq_of_toNat_eq ?_
  rw [BitVec.toNat_or, BitVec.toNat_shiftLeft, BitVec.toNat_setWidth, BitVec.toNat_ofNat,
    BitVec.toNat_ofNat, Nat.mod_eq_of_lt hd, Nat.mod_eq_of_lt (by omega : k < 2 ^ 64),
    Nat.shiftLeft_eq, Nat.mul_comm, hpow, Nat.mul_mod_mul_left, Nat.or_comm, hsum]
  exact (Nat.two_pow_add_eq_or_of_lt hk _).symm

/-- A digit that is put above the others leaves room for the next one. -/
lemma add_digit_lt (hk : k < 2 ^ (7 * i)) {d : ℕ} (hd : d < 128) :
    k + 2 ^ (7 * i) * d < 2 ^ (7 * (i + 1)) := calc
  k + 2 ^ (7 * i) * d < 2 ^ (7 * i) * (d + 1) := by rw [Nat.mul_succ]; omega
  _ ≤ 2 ^ (7 * i) * 2 ^ 7 := Nat.mul_le_mul_left _ hd
  _ = 2 ^ (7 * (i + 1)) := by rw [← pow_add, Nat.mul_succ]

lemma pow_digit (i v : ℕ) {d : ℕ} : k + 2 ^ (7 * i) * d + 2 ^ (7 * (i + 1)) * v
    = k + 2 ^ (7 * i) * (d + 128 * v) := by
  rw [Nat.mul_succ, pow_add]
  ring

lemma readVarint64SlowFrom_eq {count : ℕ} (hc : count ≤ 10) (hk : k < 2 ^ (7 * count)) :
    readVarint64SlowFrom (BitVec.ofNat 64 k) count bs
      = (Varint.decode 128 BitVec.toNat (10 - count) bs).map fun r =>
          (BitVec.ofNat 64 (k + 2 ^ (7 * count) * r.1), r.2) := by
  induction bs generalizing count k with
  | nil => rw [readVarint64SlowFrom, Varint.decode_nil, Option.map_none]
  | cons b bs ih =>
      rcases hc.eq_or_lt with rfl | hlt
      · rw [readVarint64SlowFrom, if_pos (show 10 = kMaxVarintBytes from rfl), Nat.sub_self,
          Varint.decode_zero, Option.map_none]
      · have hnext : 10 - count = 10 - (count + 1) + 1 := by omega
        rw [readVarint64SlowFrom, if_neg (show count ≠ kMaxVarintBytes from hlt.ne),
          or_shift (by omega) (by omega) hk, toNat_digit, hnext]
        rcases Nat.lt_or_ge b.toNat 128 with hsmall | hlarge
        · rw [if_neg (not_not.mpr ((mark_iff b).mpr hsmall)), Nat.mod_eq_of_lt hsmall,
            Varint.decode_cons_of_lt hsmall, Option.map_some]
        · have hdigit : b.toNat % 128 = b.toNat - 128 := by have := b.isLt; omega
          rw [if_pos (fun h => Nat.not_lt.mpr hlarge ((mark_iff b).mp h)),
            ih (by omega) (add_digit_lt hk (Nat.mod_lt _ (by omega))),
            Varint.decode_cons_of_le hlarge, Option.map_map, hdigit]
          simp only [Function.comp_def, pow_digit]

lemma readVarint64Slow_eq (bs : List Byte) :
    readVarint64Slow bs = (Varint.decode 128 BitVec.toNat 10 bs).map fun r =>
      (BitVec.ofNat 64 r.1, r.2) := by
  have h := @readVarint64SlowFrom_eq bs 0 0 (by omega) (by norm_num)
  simpa [readVarint64Slow] using h

/-! ### The unrolled function of 32 bits -/

/-- What is shifted out does not count. -/
lemma ofNat_add_high (hi : 32 ≤ i) (k d : ℕ) :
    BitVec.ofNat 32 (k + 2 ^ i * d) = BitVec.ofNat 32 k := by
  obtain ⟨j, rfl⟩ := Nat.exists_eq_add_of_le hi
  refine BitVec.eq_of_toNat_eq ?_
  rw [BitVec.toNat_ofNat, BitVec.toNat_ofNat, pow_add, Nat.mul_assoc, Nat.add_mul_mod_self_left]

lemma ofNat_add_shift (s k : ℕ) (d : Byte) :
    BitVec.ofNat 32 k + d.setWidth 32 <<< s = BitVec.ofNat 32 (k + 2 ^ s * d.toNat) := by
  refine BitVec.eq_of_toNat_eq ?_
  have hd : d.toNat < 2 ^ 32 := lt_trans d.isLt (by norm_num)
  rw [BitVec.toNat_add, BitVec.toNat_shiftLeft, BitVec.toNat_setWidth, BitVec.toNat_ofNat,
    BitVec.toNat_ofNat, Nat.mod_eq_of_lt hd, Nat.shiftLeft_eq, ← Nat.add_mod, Nat.mul_comm]

/-- The mark of a byte is taken away again. -/
lemma ofNat_sub_mark (s k : ℕ) {d : ℕ} (hd : 128 ≤ d) :
    BitVec.ofNat 32 (k + 2 ^ s * d) - 0x80#32 <<< s = BitVec.ofNat 32 (k + 2 ^ s * (d - 128)) := by
  have hmark : 0x80#32 <<< s = BitVec.ofNat 32 (2 ^ s * 128) := by
    refine BitVec.eq_of_toNat_eq ?_
    rw [BitVec.toNat_shiftLeft, BitVec.toNat_ofNat, Nat.shiftLeft_eq, Nat.mul_comm]
    rfl
  have hsum : k + 2 ^ s * d = k + 2 ^ s * (d - 128) + 2 ^ s * 128 := by
    rw [Nat.add_assoc, ← Nat.mul_add, Nat.sub_add_cancel hd]
  rw [hmark, hsum, BitVec.ofNat_add (n := 32) (k + 2 ^ s * (d - 128)), BitVec.add_sub_cancel]

/-- The line for one byte. -/
lemma added_eq (i k : ℕ) (b : Byte) :
    (if i < 5 then BitVec.ofNat 32 k + b.setWidth 32 <<< (7 * i) else BitVec.ofNat 32 k)
      = BitVec.ofNat 32 (k + 2 ^ (7 * i) * b.toNat) := by
  split_ifs with hi
  · exact ofNat_add_shift _ _ _
  · exact (ofNat_add_high (by omega) _ _).symm

/-- The line behind a byte with a mark. -/
lemma unmarked_eq (i k : ℕ) {d : ℕ} (hd : 128 ≤ d) :
    (if i < 4 then BitVec.ofNat 32 (k + 2 ^ (7 * i) * d) - 0x80#32 <<< (7 * i)
      else BitVec.ofNat 32 (k + 2 ^ (7 * i) * d))
      = BitVec.ofNat 32 (k + 2 ^ (7 * i) * (d - 128)) := by
  split_ifs with hi
  · exact ofNat_sub_mark _ _ hd
  · -- the mark of the fifth byte is shifted out, and of the others nothing is left
    have hsum : k + 2 ^ (7 * i) * d = k + 2 ^ (7 * i) * (d - 128) + 2 ^ (7 * i + 7) := by
      rw [Nat.add_assoc, pow_add, ← Nat.mul_add, show d - 128 + 2 ^ 7 = d by norm_num; omega]
    rw [hsum, ← Nat.mul_one (2 ^ (7 * i + 7)), ofNat_add_high (by omega)]

lemma readVarint32From_of_some (hi : i ≤ 10) {r : ℕ × List Byte}
    (h : Varint.decode 128 BitVec.toNat (10 - i) bs = some r) :
    readVarint32From (BitVec.ofNat 32 k) i bs
      = some (some (BitVec.ofNat 32 (k + 2 ^ (7 * i) * r.1), r.2)) := by
  induction bs generalizing i k r with
  | nil => rw [Varint.decode_nil] at h; cases h
  | cons b bs ih =>
      rcases hi.eq_or_lt with rfl | hlt
      · cases h
      · have hnext : 10 - i = 10 - (i + 1) + 1 := by omega
        rw [hnext] at h
        rw [readVarint32From, added_eq]
        rcases Nat.lt_or_ge b.toNat 128 with hsmall | hlarge
        · rw [Varint.decode_cons_of_lt hsmall] at h
          obtain rfl := Option.some.inj h
          exact if_pos ((mark_iff b).mpr hsmall)
        · rw [Varint.decode_cons_of_le hlarge] at h
          obtain ⟨r, hr, rfl⟩ := Option.map_eq_some_iff.mp h
          have hmore : i + 1 ≠ kMaxVarintBytes := by
            rintro hten
            rw [hten] at hr
            cases hr
          rw [if_neg fun h => Nat.not_lt.mpr hlarge ((mark_iff b).mp h), if_neg hmore,
            unmarked_eq i k hlarge, ih hlt hr, pow_digit]

lemma readVarint32From_of_none (hi : i < 10) (h : Varint.decode 128 BitVec.toNat (10 - i) bs = none)
    (hlen : 10 - i ≤ bs.length) (result : BitVec 32) :
    readVarint32From result i bs = some none := by
  induction bs generalizing i result with
  | nil => simp at hlen; omega
  | cons b bs ih =>
      have hnext : 10 - i = 10 - (i + 1) + 1 := by omega
      rw [hnext] at h
      rcases Nat.lt_or_ge b.toNat 128 with hsmall | hlarge
      · rw [Varint.decode_cons_of_lt hsmall] at h
        cases h
      · rw [Varint.decode_cons_of_le hlarge, Option.map_eq_none_iff] at h
        rw [readVarint32From, if_neg fun h => Nat.not_lt.mpr hlarge ((mark_iff b).mp h)]
        split_ifs with hten
        · rfl
        all_goals
          have hne : i + 1 ≠ 10 := hten
          rw [List.length_cons] at hlen
          exact ih (by omega) h (by omega) _

/-! ### The unrolled function of 64 bits -/

lemma more_cells (d w count v : ℕ) :
    d + 128 * (w + 2 ^ (7 * count) * v) = d + 128 * w + 2 ^ (7 * (count + 1)) * v := by
  rw [Nat.mul_succ, pow_add]
  ring

/-- What the lines for one part do with the next `count` bytes. -/
lemma readPart_cases (k i count : ℕ) (bs : List Byte) :
    (∃ w rest, w < 2 ^ (7 * count) ∧
      readPart (BitVec.ofNat 32 k) i count bs
        = some (BitVec.ofNat 32 (k + 2 ^ (7 * i) * w), true, rest) ∧
      ∀ j, Varint.decode 128 BitVec.toNat (count + j) bs = some (w, rest)) ∨
    (∃ w rest, w < 2 ^ (7 * count) ∧ bs.length = count + rest.length ∧
      readPart (BitVec.ofNat 32 k) i count bs
        = some (BitVec.ofNat 32 (k + 2 ^ (7 * i) * w), false, rest) ∧
      ∀ j, Varint.decode 128 BitVec.toNat (count + j) bs
        = (Varint.decode 128 BitVec.toNat j rest).map fun r => (w + 2 ^ (7 * count) * r.1, r.2)) ∨
    (bs.length < count ∧ readPart (BitVec.ofNat 32 k) i count bs = none ∧
      ∀ j, Varint.decode 128 BitVec.toNat (count + j) bs = none) := by
  induction count generalizing k i bs with
  | zero => exact .inr (.inl ⟨0, bs, by simp, by simp, by simp [readPart], fun j => by simp⟩)
  | succ count ih =>
      cases bs with
      | nil => exact .inr (.inr ⟨by simp, rfl, fun j => Varint.decode_nil _⟩)
      | cons b bs =>
          have hnext : ∀ j, count + 1 + j = count + j + 1 := fun j => by omega
          rw [readPart, ofNat_add_shift]
          rcases Nat.lt_or_ge b.toNat 128 with hsmall | hlarge
          · refine .inl ⟨b.toNat, bs, ?_, if_pos ((mark_iff b).mpr hsmall), fun j => ?_⟩
            · have := add_digit_lt (k := 0) (i := count) (by positivity) hsmall
              have hpos : 0 < 2 ^ (7 * count) := by positivity
              nlinarith
            · rw [hnext, Varint.decode_cons_of_lt hsmall]
          · have hdigit : b.toNat - 128 < 128 := by have := b.isLt; omega
            have hw : ∀ {w}, w < 2 ^ (7 * count) →
                b.toNat - 128 + 128 * w < 2 ^ (7 * (count + 1)) := by
              intro w hw
              rw [Nat.mul_succ, pow_add]
              omega
            rw [if_neg fun h => Nat.not_lt.mpr hlarge ((mark_iff b).mp h),
              ofNat_sub_mark _ _ hlarge]
            rcases ih (k + 2 ^ (7 * i) * (b.toNat - 128)) (i + 1) bs with
              ⟨w, rest, hlt, hpart, hdecode⟩ | ⟨w, rest, hlt, hlen, hpart, hdecode⟩ |
              ⟨hlen, hpart, hdecode⟩
            · refine .inl ⟨_, rest, hw hlt, by rw [hpart, pow_digit], fun j => ?_⟩
              rw [hnext, Varint.decode_cons_of_le hlarge, hdecode, Option.map_some]
            · refine .inr (.inl ⟨_, rest, hw hlt, by rw [List.length_cons]; omega,
                by rw [hpart, pow_digit], fun j => ?_⟩)
              rw [hnext, Varint.decode_cons_of_le hlarge, hdecode, Option.map_map]
              simp only [Function.comp_def, more_cells]
            · refine .inr (.inr ⟨by simpa using hlen, hpart, fun j => ?_⟩)
              rw [hnext, Varint.decode_cons_of_le hlarge, hdecode, Option.map_none]

/-- The parts put together. -/
lemma joinParts_eq {p q : ℕ} (hp : p < 2 ^ 28) (hq : q < 2 ^ 28) {r : ℕ} (hr : r < 2 ^ 14) :
    joinParts (BitVec.ofNat 32 p) (BitVec.ofNat 32 q) (BitVec.ofNat 32 r)
      = BitVec.ofNat 64 (p + 2 ^ 28 * (q + 2 ^ 28 * r)) := by
  have hwiden : (BitVec.ofNat 32 p).setWidth 64 = BitVec.ofNat 64 p :=
    BitVec.setWidth_ofNat_of_le_of_lt (by omega) (by omega)
  have hqval : (BitVec.ofNat 32 q).toNat = q := Nat.mod_eq_of_lt (by omega)
  have hrval : (BitVec.ofNat 32 r).toNat = r := Nat.mod_eq_of_lt (by omega)
  rw [joinParts, hwiden, or_shift (by omega) (by omega) hp, hqval,
    or_shift (by omega) (by omega) (by omega), hrval]
  congr 1
  ring

/-- The lines for one part, from its first byte on. -/
lemma readPart_zero_cases (count : ℕ) (bs : List Byte) :
    (∃ w rest, w < 2 ^ (7 * count) ∧ readPart 0 0 count bs = some (BitVec.ofNat 32 w, true, rest) ∧
      ∀ j, Varint.decode 128 BitVec.toNat (count + j) bs = some (w, rest)) ∨
    (∃ w rest, w < 2 ^ (7 * count) ∧ bs.length = count + rest.length ∧
      readPart 0 0 count bs = some (BitVec.ofNat 32 w, false, rest) ∧
      ∀ j, Varint.decode 128 BitVec.toNat (count + j) bs
        = (Varint.decode 128 BitVec.toNat j rest).map fun r => (w + 2 ^ (7 * count) * r.1, r.2)) ∨
    (bs.length < count ∧ readPart 0 0 count bs = none ∧
      ∀ j, Varint.decode 128 BitVec.toNat (count + j) bs = none) := by
  simpa using readPart_cases 0 0 count bs

/-- The parts that are read put a varint together. -/
lemma readVarint64FromArray_eq (bs : List Byte) :
    (∃ r, Varint.decode 128 BitVec.toNat 10 bs = some r ∧
      readVarint64FromArray bs = some (some (BitVec.ofNat 64 r.1, r.2))) ∨
    (Varint.decode 128 BitVec.toNat 10 bs = none ∧
      (readVarint64FromArray bs = some none ∨ bs.length < 10)) := by
  have hpow : (2 : ℕ) ^ (7 * 4) = 2 ^ 28 := rfl
  rcases readPart_zero_cases 4 bs with
    ⟨p, rest, hp, hpart, hdecode⟩ | ⟨p, bs₁, hp, hlen, hpart, hdecode⟩ | ⟨hshort, -, hdecode⟩
  · refine .inl ⟨_, hdecode 6, ?_⟩
    have hjoin := joinParts_eq hp (q := 0) (by norm_num) (r := 0) (by norm_num)
    rw [readVarint64FromArray, hpart]
    simpa using hjoin
  · rcases readPart_zero_cases 4 bs₁ with
      ⟨q, rest, hq, hpart₁, hdecode₁⟩ | ⟨q, bs₂, hq, hlen₁, hpart₁, hdecode₁⟩ |
      ⟨hshort, -, hdecode₁⟩
    · refine .inl ⟨(p + 2 ^ 28 * q, rest), by rw [hdecode 6, hdecode₁ 2]; rfl, ?_⟩
      have hjoin := joinParts_eq hp hq (r := 0) (by norm_num)
      rw [readVarint64FromArray, hpart]
      simp only [Option.bind_eq_bind, Option.bind_some, hpart₁]
      simpa using hjoin
    · rcases readPart_zero_cases 2 bs₂ with
        ⟨r, rest, hr, hpart₂, hdecode₂⟩ | ⟨r, bs₃, hr, -, hpart₂, hdecode₂⟩ | ⟨hshort, -, hdecode₂⟩
      · refine .inl ⟨(p + 2 ^ 28 * (q + 2 ^ 28 * r), rest), ?_, ?_⟩
        · rw [hdecode 6, hdecode₁ 2, hdecode₂ 0]
          rfl
        · have hjoin := joinParts_eq hp hq hr
          rw [readVarint64FromArray, hpart]
          simp only [Option.bind_eq_bind, Option.bind_some, hpart₁, hpart₂]
          simpa using hjoin
      · refine .inr ⟨by rw [hdecode 6, hdecode₁ 2, hdecode₂ 0]; rfl, .inl ?_⟩
        rw [readVarint64FromArray, hpart]
        simp only [Option.bind_eq_bind, Option.bind_some, hpart₁, hpart₂]
        rfl
      · exact .inr ⟨by rw [hdecode 6, hdecode₁ 2, hdecode₂ 0]; rfl, .inr (by omega)⟩
    · exact .inr ⟨by rw [hdecode 6, hdecode₁ 2]; rfl, .inr (by omega)⟩
  · exact .inr ⟨hdecode 6, .inr (by omega)⟩

/-! ### Varints, whatever function reads them -/

/-- A varint cannot run out of the buffer. -/
lemma decode_of_inBuffer (h : inBuffer bs = true) :
    10 ≤ bs.length ∨ ∃ r, Varint.decode 128 BitVec.toNat 10 bs = some r := by
  rw [inBuffer, Bool.or_eq_true, decide_eq_true_eq] at h
  rcases h with hlen | hlast
  · exact .inl hlen
  · rcases Nat.lt_or_ge bs.length 10 with hlt | hge
    · refine .inr (Varint.exists_decode ?_ hlt.le)
      obtain ⟨b, hb, hmark⟩ := (Option.any_eq_true _ _).mp hlast
      exact ⟨b, hb, (mark_iff b).mp (of_decide_eq_true hmark)⟩
    · exact .inl hge

lemma readVarint64FromArray_of_inBuffer (h : inBuffer bs = true) :
    readVarint64FromArray bs = some ((Varint.decode 128 BitVec.toNat 10 bs).map fun r =>
      (BitVec.ofNat 64 r.1, r.2)) := by
  rcases readVarint64FromArray_eq bs with ⟨r, hr, harray⟩ | ⟨hnone, harray⟩
  · rw [harray, hr, Option.map_some]
  · rw [hnone, Option.map_none]
    refine harray.resolve_right fun hshort => ?_
    rcases decode_of_inBuffer h with hlen | ⟨r, hr⟩
    · omega
    · rw [hnone] at hr
      cases hr

/-- A first byte with a mark. -/
lemma readVarint32FromArray_cons {b : Byte} (hb : 0x80 ≤ b) (bs : List Byte) :
    readVarint32FromArray (b :: bs) = readVarint32From 0 0 (b :: bs) := by
  have hmark : ¬ b &&& 0x80 = 0 := fun h => Nat.not_lt.mpr hb ((mark_iff b).mp h)
  have hnext : ¬ 0 + 1 = kMaxVarintBytes := by decide
  rw [readVarint32FromArray, readVarint32From, if_neg hmark, if_neg hnext]
  simp

lemma readVarint32FromArray_of_inBuffer {b : Byte} (hb : 0x80 ≤ b)
    (h : inBuffer (b :: bs) = true) :
    readVarint32FromArray (b :: bs)
      = some ((Varint.decode 128 BitVec.toNat 10 (b :: bs)).map fun r =>
          (BitVec.ofNat 32 r.1, r.2)) := by
  rw [readVarint32FromArray_cons hb]
  cases hdecode : Varint.decode 128 BitVec.toNat 10 (b :: bs) with
  | some r =>
      simpa using readVarint32From_of_some (k := 0) (i := 0) (by omega) hdecode
  | none =>
      have hlen : 10 ≤ (b :: bs).length :=
        (decode_of_inBuffer h).resolve_right (by simp [hdecode])
      exact readVarint32From_of_none (by omega) hdecode hlen 0

lemma readVarint64Fallback_eq (bs : List Byte) :
    readVarint64Fallback bs = (Varint.decode 128 BitVec.toNat 10 bs).map fun r =>
      (BitVec.ofNat 64 r.1, r.2) := by
  rw [readVarint64Fallback]
  split_ifs with h
  · rw [readVarint64FromArray_of_inBuffer h, Option.join_some]
  · exact readVarint64Slow_eq bs

/-- **`ReadVarint64`** reads ten cells at most, and keeps 64 bits. -/
lemma readVarint64_eq (bs : List Byte) :
    readVarint64 bs = (Varint.decode 128 BitVec.toNat 10 bs).map fun r =>
      (BitVec.ofNat 64 r.1, r.2) := by
  cases bs with
  | nil => exact readVarint64Fallback_eq []
  | cons b bs =>
      rw [readVarint64, readVarint64Fallback_eq]
      split_ifs with hb
      · have hlt : b.toNat < 128 := hb
        rw [Varint.decode_cons_of_lt hlt, Option.map_some, BitVec.ofNat_toNat]
      · rfl

/-- **`ReadVarint32`** reads ten cells at most, and keeps 32 bits. -/
lemma readVarint32_eq (bs : List Byte) :
    readVarint32 bs = (Varint.decode 128 BitVec.toNat 10 bs).map fun r =>
      (BitVec.ofNat 32 r.1, r.2) := by
  cases bs with
  | nil => rfl
  | cons b bs =>
      rw [readVarint32]
      split_ifs with hb
      · have hlt : b.toNat < 128 := hb
        rw [Varint.decode_cons_of_lt hlt, Option.map_some, BitVec.ofNat_toNat]
      · rw [readVarint32Fallback]
        split_ifs with h
        · rw [readVarint32FromArray_of_inBuffer (BitVec.not_lt.mp hb) h, Option.join_some]
        · rw [readVarint64Fallback_eq, Option.map_map]
          simp only [Function.comp_def, BitVec.setWidth_ofNat_of_le (by omega : 32 ≤ 64)]

/-- **The unrolled functions agree with the loop**: in a buffer that passes the test
they read no byte behind it, and they return what the loop returns. The one of 32 bits
takes it that the first byte has its mark. -/
theorem fromArray_agrees {b : Byte} (h : inBuffer (b :: bs) = true) :
    readVarint64FromArray (b :: bs) = some (readVarint64Slow (b :: bs)) ∧
      (0x80 ≤ b → readVarint32FromArray (b :: bs)
        = some ((readVarint64Slow (b :: bs)).map fun r => (r.1.setWidth 32, r.2))) := by
  refine ⟨by rw [readVarint64FromArray_of_inBuffer h, readVarint64Slow_eq], fun hb => ?_⟩
  rw [readVarint32FromArray_of_inBuffer hb h, readVarint64Slow_eq, Option.map_map]
  simp only [Function.comp_def, BitVec.setWidth_ofNat_of_le (by omega : 32 ≤ 64)]

theorem fromArray_agrees_short :
    readVarint64FromArray [0xAC, 0x02] = some (readVarint64Slow [0xAC, 0x02]) ∧
      readVarint32FromArray [0xAC, 0x02]
        = some ((readVarint64Slow [0xAC, 0x02]).map fun r => (r.1.setWidth 32, r.2)) :=
  ⟨(fromArray_agrees (by decide)).1, (fromArray_agrees (by decide)).2 (by decide)⟩

/-- `ReadTag` where bytes are left. -/
lemma readTag_cons (b : Byte) (bs : List Byte) :
    readTag (b :: bs) = .ofRead (readVarint32 (b :: bs)) := by
  have hfallback : readTagFallback (b :: bs) = readVarint32Fallback (b :: bs) := by
    rw [readTagFallback, readVarint32Fallback, readVarint64_eq, readVarint64Fallback_eq]
  rw [readTag, hfallback, readVarint32]

/-! ### Reading what is written -/

lemma length_writeVarint {n : ℕ} (h : n < 2 ^ 64) : (writeVarint n).length ≤ 10 :=
  Varint.length_encode_le (by omega) (by omega) (lt_trans h (by norm_num))

lemma writeVarint_ne_nil (n : ℕ) : writeVarint n ≠ [] := Varint.encode_ne_nil (by omega) n

lemma readVarint64_write {n : ℕ} (h : n < 2 ^ 64) (rest : List Byte) :
    readVarint64 (writeVarint n ++ rest) = some (BitVec.ofNat 64 n, rest) := by
  rw [readVarint64_eq, writeVarint, Varint.decode_encode (by omega) (fun _ => toNat_ofNat) rest
    (length_writeVarint h), Option.map_some]

lemma readVarint32_write {n : ℕ} (h : n < 2 ^ 64) (rest : List Byte) :
    readVarint32 (writeVarint n ++ rest) = some (BitVec.ofNat 32 n, rest) := by
  rw [readVarint32_eq, writeVarint, Varint.decode_encode (by omega) (fun _ => toNat_ofNat) rest
    (length_writeVarint h), Option.map_some]

lemma readVarintSizeAsInt_write {n : ℕ} (h : n < 2 ^ 31) (rest : List Byte) :
    readVarintSizeAsInt (writeVarint n ++ rest) = some (n, rest) := by
  have hn : n < 2 ^ 64 := by omega
  have hval : (BitVec.ofNat 64 n).toNat = n := Nat.mod_eq_of_lt hn
  rw [readVarintSizeAsInt, readVarint64_write hn]
  simp only [Option.bind_eq_bind, Option.bind_some, hval]
  exact if_pos h

lemma readTag_write {tag : ℕ} (hpos : 0 < tag) (h : tag < 2 ^ 32) (rest : List Byte) :
    readTag (writeVarint tag ++ rest) = .tag (BitVec.ofNat 32 tag) rest := by
  obtain ⟨b, bs, hbs⟩ := List.exists_cons_of_ne_nil (writeVarint_ne_nil tag)
  have hread := readVarint32_write (by omega : tag < 2 ^ 64) rest
  have hne : BitVec.ofNat 32 tag ≠ 0 := fun h0 => by
    have := congrArg BitVec.toNat h0
    rw [BitVec.toNat_ofNat, Nat.mod_eq_of_lt h] at this
    exact hpos.ne' this
  rw [hbs, List.cons_append] at hread ⊢
  rw [readTag_cons, hread]
  exact if_neg hne

lemma ofNat_signExtend (v : BitVec 32) : BitVec.ofNat 32 (v.signExtend 64).toNat = v := by
  rw [BitVec.ofNat_toNat]
  refine BitVec.eq_of_getLsbD_eq fun i hi => ?_
  simp [BitVec.getElem_signExtend, hi, lt_trans hi (by omega : 32 < 64)]

lemma readVarint32_signExtended (v : BitVec 32) (rest : List Byte) :
    readVarint32 (writeVarint32SignExtended v ++ rest) = some (v, rest) := by
  rw [writeVarint32SignExtended, writeVarint64, readVarint32_write (BitVec.isLt _),
    ofNat_signExtend]

lemma length_littleEndian (k n : ℕ) : (littleEndian k n).length = k := by
  induction k generalizing n with
  | zero => rfl
  | succ k ih => rw [littleEndian, List.length_cons, ih]

lemma fromLittleEndian_littleEndian (k n : ℕ) :
    fromLittleEndian (littleEndian k n) = n % 256 ^ k := by
  induction k generalizing n with
  | zero => rw [littleEndian, fromLittleEndian, pow_zero, Nat.mod_one]
  | succ k ih =>
      rw [littleEndian, fromLittleEndian, ih, pow_succ', Nat.mod_mul]
      rfl

lemma readRaw_append (bs rest : List Byte) : readRaw bs.length (bs ++ rest) = some (bs, rest) := by
  rw [readRaw, if_pos (by simp), List.take_left, List.drop_left]

lemma readLittleEndian32_write (v : BitVec 32) (rest : List Byte) :
    readLittleEndian32 (writeLittleEndian32 v ++ rest) = some (v, rest) := by
  have hraw := readRaw_append (writeLittleEndian32 v) rest
  rw [writeLittleEndian32, length_littleEndian] at hraw
  rw [readLittleEndian32, writeLittleEndian32, hraw, Option.map_some,
    fromLittleEndian_littleEndian]
  refine congrArg (fun x => some (x, rest)) (BitVec.eq_of_toNat_eq ?_)
  rw [BitVec.toNat_ofNat]
  exact (Nat.mod_mod _ _).trans (Nat.mod_eq_of_lt v.isLt)

lemma readLittleEndian64_write (v : BitVec 64) (rest : List Byte) :
    readLittleEndian64 (writeLittleEndian64 v ++ rest) = some (v, rest) := by
  have hraw := readRaw_append (writeLittleEndian64 v) rest
  rw [writeLittleEndian64, length_littleEndian] at hraw
  rw [readLittleEndian64, writeLittleEndian64, hraw, Option.map_some,
    fromLittleEndian_littleEndian]
  refine congrArg (fun x => some (x, rest)) (BitVec.eq_of_toNat_eq ?_)
  rw [BitVec.toNat_ofNat]
  exact (Nat.mod_mod _ _).trans (Nat.mod_eq_of_lt v.isLt)

lemma readString_append {bs : List Byte} (h : bs.length < 2 ^ 31) (rest : List Byte) :
    readString (BitVec.ofNat 32 bs.length) (bs ++ rest) = some (bs, rest) := by
  have hval : (BitVec.ofNat 32 bs.length).toNat = bs.length := Nat.mod_eq_of_lt (by omega)
  have hpos : ¬ (BitVec.ofNat 32 bs.length).toInt < 0 := by
    rw [BitVec.toInt_eq_toNat_cond, hval]
    split_ifs <;> omega
  rw [readString, if_neg hpos, hval, readRaw_append]

/-! ### Sizes -/

lemma log_or_one (n : ℕ) : Nat.log 2 (n ||| 1) = Nat.log 2 n := by
  have hor : n ||| 1 = 2 * (n / 2) + 1 := by
    refine Nat.eq_of_testBit_eq fun i => ?_
    cases i with
    | zero => simp
    | succ i =>
        have hone : (2 * (n / 2) + 1) / 2 = n / 2 := by omega
        rw [Nat.testBit_or, Nat.testBit_succ, Nat.testBit_succ, Nat.testBit_succ, hone]
        simp
  rcases Nat.lt_or_ge n 2 with h | h
  · interval_cases n <;> rfl
  · rw [hor, Nat.log_of_one_lt_of_le (by omega) (by omega : 2 ≤ 2 * (n / 2) + 1),
      Nat.log_of_one_lt_of_le (by omega) h]
    congr 2
    omega

/-- **The multiplication counts the bytes.** -/
lemma varintSize_eq {n : ℕ} (h : n < 2 ^ 64) : varintSize n = (writeVarint n).length := by
  have hlog : Nat.log 2 n < 64 := by
    rcases Nat.eq_zero_or_pos n with rfl | hpos
    · norm_num
    · exact Nat.log_lt_of_lt_pow hpos.ne' h
  have hdiv : ∀ l < 64, (l * 9 + 73) / 64 = l / 7 + 1 := by decide
  rw [varintSize, log_or_one, hdiv _ hlog, writeVarint, Varint.length_encode (by omega),
    show 128 = 2 ^ 7 from rfl, Nat.log_pow_left]

lemma varintSize32SignExtended_eq (v : BitVec 32) :
    varintSize32SignExtended v = (writeVarint32SignExtended v).length := by
  rw [varintSize32SignExtended, writeVarint32SignExtended, writeVarint64]
  have hmsb : v.toInt < 0 ↔ v.msb = true := by
    rw [BitVec.msb_eq_toInt, decide_eq_true_iff]
  split_ifs with hneg
  · have hval : 2 ^ 63 ≤ (v.signExtend 64).toNat := by
      rw [BitVec.toNat_signExtend, if_pos (hmsb.mp hneg)]
      omega
    refine le_antisymm ?_ (length_writeVarint (BitVec.isLt _))
    rw [writeVarint, Varint.length_encode (by omega)]
    exact Nat.succ_le_succ (Nat.le_log_of_pow_le (by omega) (le_trans (by norm_num) hval))
  · have hval : (v.signExtend 64).toNat = v.toNat := by
      rw [BitVec.toNat_signExtend, if_neg fun h => hneg (hmsb.mpr h), BitVec.toNat_setWidth]
      have := v.isLt
      omega
    rw [hval]
    exact varintSize_eq (lt_trans v.isLt (by norm_num))

/-! ### What is read away -/

/-- A varint is a front of the stream, and is not shorter than it is written. -/
lemma readVarint64_spec {v : BitVec 64} (h : readVarint64 bs = some (v, rest)) :
    ∃ front, bs = front ++ rest ∧ (writeVarint v.toNat).length ≤ front.length := by
  rw [readVarint64_eq] at h
  obtain ⟨⟨n, rest'⟩, hn, heq⟩ := Option.map_eq_some_iff.mp h
  obtain ⟨rfl, rfl⟩ := Prod.mk.inj heq
  obtain ⟨front, hfront, -, hle⟩ : ∃ front : List Byte, bs = front ++ rest' ∧
      front.length ≤ 10 ∧ (writeVarint n).length ≤ front.length :=
    Varint.decode_spec (by omega) toNat_lt hn
  exact ⟨front, hfront, (Varint.length_encode_mono (by omega) (Nat.mod_le _ _)).trans hle⟩

lemma readVarint32_spec {v : BitVec 32} (h : readVarint32 bs = some (v, rest)) :
    ∃ front, bs = front ++ rest ∧ (writeVarint v.toNat).length ≤ front.length := by
  rw [readVarint32_eq] at h
  obtain ⟨⟨n, rest'⟩, hn, heq⟩ := Option.map_eq_some_iff.mp h
  obtain ⟨rfl, rfl⟩ := Prod.mk.inj heq
  obtain ⟨front, hfront, -, hle⟩ : ∃ front : List Byte, bs = front ++ rest' ∧
      front.length ≤ 10 ∧ (writeVarint n).length ≤ front.length :=
    Varint.decode_spec (by omega) toNat_lt hn
  exact ⟨front, hfront, (Varint.length_encode_mono (by omega) (Nat.mod_le _ _)).trans hle⟩

lemma readTag_spec {tag : BitVec 32} (h : readTag bs = .tag tag rest) :
    tag ≠ 0 ∧ ∃ front, bs = front ++ rest ∧ (writeVarint tag.toNat).length ≤ front.length := by
  cases bs with
  | nil => cases h
  | cons b bs =>
      rw [readTag_cons] at h
      cases hread : readVarint32 (b :: bs) with
      | none => rw [hread] at h; cases h
      | some r =>
          rw [hread, TagRead.ofRead] at h
          split_ifs at h with hzero
          cases h
          exact ⟨hzero, readVarint32_spec hread⟩

lemma readRaw_spec {size : ℕ} {front : List Byte} (h : readRaw size bs = some (front, rest)) :
    bs = front ++ rest ∧ front.length = size := by
  rw [readRaw] at h
  split_ifs at h with hlen
  obtain ⟨rfl, rfl⟩ := Prod.mk.inj (Option.some.inj h)
  exact ⟨(List.take_append_drop size bs).symm, List.length_take_of_le hlen⟩

lemma readString_spec {size : BitVec 32} {front : List Byte}
    (h : readString size bs = some (front, rest)) :
    bs = front ++ rest ∧ front.length = size.toNat ∧ front.length < 2 ^ 31 := by
  rw [readString] at h
  split_ifs at h with hneg
  obtain ⟨hbs, hlen⟩ := readRaw_spec h
  refine ⟨hbs, hlen, ?_⟩
  rw [BitVec.toInt_eq_toNat_cond] at hneg
  split_ifs at hneg <;> omega

lemma readLittleEndian32_spec {v : BitVec 32} (h : readLittleEndian32 bs = some (v, rest)) :
    ∃ front, bs = front ++ rest ∧ front.length = 4 := by
  obtain ⟨⟨front, rest'⟩, hraw, heq⟩ := Option.map_eq_some_iff.mp h
  obtain ⟨-, rfl⟩ := Prod.mk.inj heq
  exact ⟨front, readRaw_spec hraw⟩

lemma readLittleEndian64_spec {v : BitVec 64} (h : readLittleEndian64 bs = some (v, rest)) :
    ∃ front, bs = front ++ rest ∧ front.length = 8 := by
  obtain ⟨⟨front, rest'⟩, hraw, heq⟩ := Option.map_eq_some_iff.mp h
  obtain ⟨-, rfl⟩ := Prod.mk.inj heq
  exact ⟨front, readRaw_spec hraw⟩

end Coded

end PbEntityDb
