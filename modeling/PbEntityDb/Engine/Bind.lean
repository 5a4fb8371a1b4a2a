import Mathlib.Data.List.TakeWhile
import PbEntityDb.Proto.Message
import PbEntityDb.Sql.Statement

/-!
Binding the values of fields to a prepared statement.

* `Leaf.inputValue` is the type switch of `AddOneInputParam`: the argument of
  the `AddInput*Parameter` call it ends in, nothing for a type without a case,
  and the abort of a reflection getter of the wrong type.
* `addInputParams` is the loop over the collected parameters, which ignores
  the result of `AddOneInputParam`.
* `addInputParams_holding` says what such a loop leaves behind, and
  `prepareText_ok` what a statement holds that was prepared and bound.
-/

namespace PbEntityDb

/-- A C string taken from a `std::string`: it ends at the first NUL. -/
def cString (s : Text) : Text := s.takeWhile (· ≠ '\x00')

namespace Leaf

/-- The type switch of `Protobuf2DbEngine::AddOneInputParam`. -/
def inputValue (l : Leaf) : Except Fault (Option BoundValue) :=
  match l.field.type with
  | .enum => do
      let nVal ← l.value.getEnum
      .ok (some (.int nVal))
  | .sfixed64 => do
      let tmVal ← l.value.getInt64
      .ok (some (.timestamp tmVal))
  | .fixed64 | .int64 => do
      let nVal ← l.value.getInt64
      .ok (some (.llong nVal))
  | .uint64 => do
      let nVal ← l.value.getUInt64
      .ok (some (.llong nVal))
  | .fixed32 | .int32 => do
      let nVal ← l.value.getInt32
      .ok (some (.int nVal))
  | .uint32 => do
      let nVal ← l.value.getUInt32
      .ok (some (.int nVal))
  | .string => do
      let str ← l.value.getStringReference
      .ok (some (.string (cString str)))
  | .bytes => do
      let str ← l.value.getStringReference
      .ok (some (.blob str))
  | .double => do
      let dVal ← l.value.getDouble
      .ok (some (.double dVal))
  | .float => do
      let dVal ← l.value.getFloat
      .ok (some (.double dVal))
  | .bool => do
      let b ← l.value.getBool
      .ok (some (.int (if b then 1 else 0)))
  | .group | .message | .sfixed32 | .sint32 | .sint64 => .ok none

/-- The value that `AddOneInputParam` binds, if it returns `true`. -/
def boundValue (l : Leaf) : Option BoundValue :=
  match l.inputValue with
  | .ok v => v
  | .error _ => none

/-- The type has a case in `AddOneInputParam` that returns. -/
def accepted (l : Leaf) : Bool := l.boundValue.isSome

/-- The types read through a getter of the other signedness. -/
def mistyped (l : Leaf) : Bool :=
  match l.field.type with
  | .fixed64 | .fixed32 => true
  | _ => false

end Leaf

/-- `Protobuf2DbEngine::AddOneInputParam`. -/
def addOneInputParam (s : ZdbStatement) (l : Leaf) : Except Fault (Bool × ZdbStatement) := do
  match ← l.inputValue with
  | none => .ok (false, s)
  | some v =>
      let s ← s.addInputParameter v
      .ok (true, s)

/-- The loop over the collected parameters. -/
def addInputParams : ZdbStatement → List Leaf → Except Fault ZdbStatement
  | s, [] => .ok s
  | s, it :: vInParam => do
      let (_, s) ← addOneInputParam s it
      addInputParams s vInParam

/-- The values that the loop binds before it ends or aborts. -/
def boundValues (ls : List Leaf) : List BoundValue :=
  (ls.takeWhile fun l => !l.mistyped).filterMap Leaf.boundValue

namespace Leaf

/-! ### The type switch -/

/-- Only the getters of the two mistyped cases abort. -/
lemma inputValue_eq (l : Leaf) :
    l.inputValue = if l.mistyped then .error .typeMismatch else .ok l.boundValue := by
  obtain ⟨⟨name, type, presence, oneof, defaultValue, htyped, hscalar⟩, hasBit, value, typed⟩ := l
  cases type <;> cases value <;>
    first
      | rfl
      | (exact absurd typed (by simp [Scalar.cppType, FieldType.cppType]))

lemma not_mistyped_of_accepted {l : Leaf} (h : l.accepted = true) : l.mistyped = false := by
  by_contra hm
  rw [Bool.not_eq_false] at hm
  have := l.inputValue_eq
  rw [if_pos hm] at this
  simp [accepted, boundValue, this] at h

/-- An accepted type is one for which the call returns `true`, as long as a
slot is left. -/
lemma accepted_iff (l : Leaf) (sql : Text) {n : ℕ} {vs : List BoundValue} (h : vs.length < n) :
    l.accepted = true ↔ ∃ s, addOneInputParam (.holding sql n vs) l = .ok (true, s) := by
  rw [addOneInputParam, inputValue_eq]
  by_cases hm : l.mistyped = true
  · have hno : ¬ l.accepted = true := fun ha => by simp [not_mistyped_of_accepted ha] at hm
    simp [hm, hno, bind, Except.bind]
  · cases hb : l.boundValue with
    | none => simp [hm, accepted, hb, bind, Except.bind]
    | some v =>
        simp [hm, accepted, hb, bind, Except.bind, ZdbStatement.addInputParameter_holding sql h.le,
          h]

end Leaf

/-! ### The loop -/

lemma boundValues_cons (l : Leaf) (ls : List Leaf) :
    boundValues (l :: ls)
      = if l.mistyped then [] else l.boundValue.toList ++ boundValues ls := by
  by_cases hm : l.mistyped = true
  · simp [boundValues, hm]
  · cases hb : l.boundValue with
    | none => simp [boundValues, hm, hb]
    | some v => simp [boundValues, hm, hb]

/-- **What the loop leaves behind**: it crashes if it runs out of slots, aborts
if it meets a mistyped leaf before, and otherwise has bound every accepted
leaf. -/
theorem addInputParams_holding (sql : Text) {n : ℕ} (vs : List BoundValue) (h : vs.length ≤ n)
    (ls : List Leaf) :
    addInputParams (.holding sql n vs) ls
      = if vs.length + (boundValues ls).length ≤ n then
          if ls.any Leaf.mistyped then .error .typeMismatch
          else .ok (.holding sql n (vs ++ boundValues ls))
        else .error .parameterIndex := by
  induction ls generalizing vs with
  | nil => simp [addInputParams, boundValues, h]
  | cons l ls ih =>
      rw [addInputParams, addOneInputParam, Leaf.inputValue_eq, boundValues_cons]
      by_cases hm : l.mistyped = true
      · simp [hm, h, bind, Except.bind]
      · cases hb : l.boundValue with
        | none => simpa [hm, hb, bind, Except.bind] using ih vs h
        | some v =>
            by_cases hlt : vs.length < n
            · have hlen : (vs ++ [v]).length = vs.length + 1 := List.length_append
              have hrest := ih (vs ++ [v]) (by omega)
              rw [hlen, List.append_assoc, List.singleton_append] at hrest
              have hsum : vs.length + 1 + (boundValues ls).length
                  = vs.length + ((boundValues ls).length + 1) := by omega
              simpa [hm, bind, Except.bind, ZdbStatement.addInputParameter_holding sql h, hlt,
                hsum] using hrest
            · have hfull : ¬ vs.length + ((boundValues ls).length + 1) ≤ n := by omega
              simp [hm, bind, Except.bind, ZdbStatement.addInputParameter_holding sql h, hlt, hfull]

/-- The loop on a new statement. -/
lemma addInputParams_prepared (sql : Text) (n : ℕ) (ls : List Leaf) :
    addInputParams (.holding sql n []) ls
      = if (boundValues ls).length ≤ n then
          if ls.any Leaf.mistyped then .error .typeMismatch
          else .ok (.holding sql n (boundValues ls))
        else .error .parameterIndex := by
  have hrun := addInputParams_holding sql [] (Nat.zero_le n) ls
  rwa [List.length_nil, Nat.zero_add, List.nil_append] at hrun

/-- The number of values bound is the number of accepted leaves in front of
the first mistyped one. -/
lemma length_boundValues (ls : List Leaf) :
    (boundValues ls).length = (ls.takeWhile fun l => !l.mistyped).countP Leaf.accepted := by
  rw [boundValues, List.length_filterMap_eq_countP]
  rfl

/-- Without mistyped leaves every accepted leaf is bound. -/
lemma boundValues_of_not_mistyped {ls : List Leaf} (h : ls.any Leaf.mistyped = false) :
    boundValues ls = ls.filterMap Leaf.boundValue := by
  rw [boundValues, List.takeWhile_eq_self_iff.mpr]
  intro l hl
  simpa using List.any_eq_false.mp h l hl

lemma not_mistyped_of_accepted {ls : List Leaf} (h : ∀ l ∈ ls, l.accepted = true) :
    ls.any Leaf.mistyped = false :=
  List.any_eq_false.mpr fun l hl => by simp [Leaf.not_mistyped_of_accepted (h l hl)]

/-- Accepted leaves are bound one by one. -/
lemma boundValues_of_accepted {ls : List Leaf} (h : ∀ l ∈ ls, l.accepted = true) :
    (boundValues ls).map some = ls.map Leaf.boundValue := by
  rw [boundValues_of_not_mistyped (not_mistyped_of_accepted h)]
  induction ls with
  | nil => rfl
  | cons l ls ih =>
      obtain ⟨v, hv⟩ := Option.isSome_iff_exists.mp (h l List.mem_cons_self)
      have hrest := ih fun l hl => h l (List.mem_cons_of_mem _ hl)
      rw [List.filterMap_cons_some hv, List.map_cons, List.map_cons, hrest, hv]

lemma length_boundValues_of_accepted {ls : List Leaf} (h : ∀ l ∈ ls, l.accepted = true) :
    (boundValues ls).length = ls.length := by
  rw [← List.length_map some, boundValues_of_accepted h, List.length_map]

/-! ### Prepared and bound -/

/-- A text prepared on a new statement, and the leaves bound to it. -/
def prepareText (db : Server) (sql : Text) (ls : List Leaf) : Except Fault (Bool × ZdbStatement) :=
  if db.prepares sql then
    (addInputParams (.holding sql (placeholderCount sql) []) ls).map fun s => (true, s)
  else .ok (false, { ZdbStatement.new with sql := sql })

lemma prepareText_eq (db : Server) (sql : Text) (ls : List Leaf) :
    (do
      let (prepared, s) ←
        (.ok (ZdbStatement.new.prepare db sql) : Except Fault (Bool × ZdbStatement))
      if !prepared then .ok (false, s)
      else
        let s ← addInputParams s ls
        .ok (true, s)) = prepareText db sql ls := by
  rw [prepareText, ZdbStatement.prepare_new]
  by_cases hp : db.prepares sql = true
  · simp only [hp, if_true, bind, Except.bind, Bool.not_true, Bool.false_eq_true, if_false]
    cases addInputParams (.holding sql (placeholderCount sql) []) ls <;> rfl
  · simp [hp, bind, Except.bind]

/-- A statement that comes out prepared and bound. -/
lemma prepareText_ok {db : Server} {sql : Text} {ls : List Leaf} {s : ZdbStatement}
    (h : prepareText db sql ls = .ok (true, s)) :
    db.prepares sql = true ∧ ls.any Leaf.mistyped = false
      ∧ (boundValues ls).length ≤ placeholderCount sql
      ∧ s = .holding sql (placeholderCount sql) (boundValues ls) := by
  rw [prepareText] at h
  by_cases hp : db.prepares sql = true
  · rw [if_pos hp, addInputParams_prepared] at h
    by_cases hle : (boundValues ls).length ≤ placeholderCount sql
    · by_cases hm : ls.any Leaf.mistyped = true
      · simp [hle, hm, Except.map] at h
      · simp only [hle, hm, if_true, Bool.false_eq_true, if_false, Except.map, Except.ok.injEq,
          Prod.mk.injEq, true_and] at h
        exact ⟨hp, by simpa using hm, hle, h.symm⟩
    · simp [hle, Except.map] at h
  · simp [hp] at h

/-- The values go to a prepared statement. -/
lemma prepareText_ne_nullStatement (db : Server) (sql : Text) (ls : List Leaf) :
    prepareText db sql ls ≠ .error .nullStatement := by
  intro h
  rw [prepareText, addInputParams_prepared] at h
  split_ifs at h <;> cases h

end PbEntityDb
