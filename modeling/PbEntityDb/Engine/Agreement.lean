import PbEntityDb.Engine.Parse
import PbEntityDb.Engine.Values
import PbEntityDb.Sql.Placeholders

/-!
Columns, placeholders and bound values of the four statements.

* `ParsePath.Counts` says that a path binds exactly as many values as its text
  has placeholders, and `ParsePath.counts_iff` when it does so: `idle` are the
  placeholders without a value, `surplus` the values without a placeholder.
* `ParsePath.Carries` says that every slot of the prepared statement holds the
  value of a field named like the column at its placeholder, and
  `WritePath.carries_iff` when a write does so.
-/

namespace PbEntityDb

namespace ParsePath

/-- The columns next to the placeholders of a text: for the paths that insert
the names of the column list. -/
def readColumns (p : ParsePath) (sql : Text) : List Text :=
  match p with
  | write .insert | write (.update true) => columnList (tokens sql)
  | select | write (.update false) | write .delete => assigned [] (tokens sql)

lemma readColumns_eq {p : ParsePath} {entity : Message} {vInKey : List Name} {st : Statement}
    (h : p.statement entity vInKey = some st) (sql : Text) :
    p.readColumns sql = st.readColumns sql := by
  rcases p with _ | (_ | (_ | _) | _)
  · cases h; rfl
  · cases h; rfl
  · obtain ⟨-, rfl⟩ := statement_update h
    rfl
  · cases h; rfl
  · cases h; rfl

/-- Every slot holds the value of a field that is named like the column at its placeholder. -/
def SlotsHold (entity : Message) (columns : List Text) (slots : List (Option BoundValue)) : Prop :=
  ∀ (i : ℕ) (slot : Option BoundValue), slots[i]? = some slot →
    ∃ l ∈ leaves entity, columns[i]? = some l.name.chars
      ∧ ∃ v x, slot = some v ∧ l.fieldValue = some x ∧ v.Holds x

/-- The statement that a path returns holds in each column the value of a field with the
column's name. -/
def Carries (p : ParsePath) (db : Server) (entity : Message) (sTableName : Name)
    (vInKey : List Name) : Prop :=
  match p.parse db entity sTableName vInKey with
  | .error _ => False
  | .ok (ok, s) =>
      ok = true → ∀ ps, s.stmt = some ps → SlotsHold entity (p.readColumns s.sql) ps.slots

/-- The statement that a path returns has as many parameters set as its text
has placeholders; no parameter index is out of range on the way. -/
def Counts (p : ParsePath) (db : Server) (entity : Message) (sTableName : Name)
    (vInKey : List Name) : Prop :=
  match p.parse db entity sTableName vInKey with
  -- the process aborts before the function returns
  | .error .typeMismatch => True
  | .error _ => False
  | .ok (ok, s) => ok = true → ∀ ps, s.stmt = some ps → s.inParamIndex = placeholderCount s.sql

end ParsePath

/-- The types that `AddOneInputParam` binds. -/
def FieldType.isBound : FieldType → Bool
  | .enum | .sfixed64 | .int64 | .uint64 | .int32 | .uint32 | .string | .bytes | .double | .float
  | .bool => true
  | .fixed32 | .fixed64 | .sfixed32 | .sint32 | .sint64 | .group | .message => false

lemma Leaf.accepted_eq (l : Leaf) : l.accepted = l.field.type.isBound := by
  obtain ⟨⟨name, type, presence, oneof, defaultValue, htyped, hscalar⟩, hasBit, value, typed⟩ := l
  cases type <;> cases value <;>
    first
      | rfl
      | (exact absurd typed (by simp [Scalar.cppType, FieldType.cppType]))

/-! ### The number of parameters -/

/-- The names of the fields of an entity that have a type which is bound. -/
def boundNames (entity : Message) : List Name :=
  ((leaves entity).filter fun l => l.field.type.isBound).map Leaf.name

/-- Lists exceed each other by the difference of their lengths. -/
lemma length_diff_add {α : Type} [DecidableEq α] (as bs : List α) :
    (as.diff bs).length + bs.length = (bs.diff as).length + as.length := by
  have hunion : ∀ xs ys : List α,
      Multiset.card ((xs : Multiset α) ∪ ys) = (xs.diff ys).length + ys.length := by
    intro xs ys
    rw [Multiset.union_def, Multiset.coe_sub, Multiset.card_add, Multiset.coe_card,
      Multiset.coe_card]
  rw [← hunion, ← hunion, Multiset.union_comm]

/-- Nothing is left if each element comes as often in the other list. -/
lemma diff_length_eq_zero_iff {α : Type} [DecidableEq α] (as bs : List α) :
    (as.diff bs).length = 0 ↔ ∀ x ∈ as, as.count x ≤ bs.count x := by
  rw [← List.subperm_ext_iff, ← Multiset.coe_le, ← tsub_eq_zero_iff_le, Multiset.coe_sub,
    Multiset.coe_eq_zero, List.length_eq_zero_iff]

/-- Only what is in the list can be taken from it. -/
lemma diff_filter_perm {α : Type} [DecidableEq α] (as bs : List α) :
    (as.diff (bs.filter (· ∈ as))).Perm (as.diff bs) := by
  rw [List.perm_iff_count]
  intro x
  rw [List.count_diff, List.count_diff]
  by_cases hx : x ∈ as
  · rw [List.count_filter (by simpa using hx)]
  · rw [List.count_eq_zero_of_not_mem hx, Nat.zero_sub, Nat.zero_sub]

namespace ParsePath

section Balance

variable (p : ParsePath) (entity : Message) (vInKey : List Name)

/-- The keys of a path. A load takes the keys that name a present field at the top of the
entity, as often as they do. -/
def keyNames : List Name :=
  match p with
  | select => (entity.filter Field.isPresent).flatMap fun f => vInKey.filter (· = f.name)
  | write _ => vInKey

/-- The fields that a path sets. -/
def setFields : List Leaf :=
  match p with
  | write .insert | write (.update _) => setLeaves vInKey entity
  | select | write .delete => []

/-- The placeholders without a value: of the keys that name no bound field, and of the
fields that are set and not bound. -/
def idle : ℕ :=
  ((p.keyNames entity vInKey).diff (boundNames entity)).length
    + (p.setFields entity vInKey).countP fun l => !l.field.type.isBound

/-- The values without a placeholder: of the bound fields that share the name of a key. -/
def surplus : ℕ :=
  (((boundNames entity).filter (· ∈ p.keyNames entity vInKey)).diff
    (p.keyNames entity vInKey)).length

/-- Placeholders and values balance: each one without its counterpart makes up for one of the
other kind, or for a placeholder that is cut off. With a `fixed32` or `fixed64` field the
fields in front of it only must find their placeholders. -/
def Balanced (sTableName : Name) (st : Statement) : Prop :=
  if (p.params entity vInKey).any Leaf.mistyped then
    ((p.params entity vInKey).takeWhile fun l => !l.mistyped).countP (fun l => l.field.type.isBound)
      ≤ kept (bufferSize - 1) (st.strides sTableName)
  else p.idle entity vInKey = p.surplus entity vInKey + st.lost sTableName

end Balance

lemma validateKey_eq_keyNames (vInKey : List Name) (entity : Message) :
    validateKey vInKey entity [] = select.keyNames entity vInKey := by
  have hwalk : ∀ (m : Message) (acc : List Name), validateKey vInKey m acc
      = acc ++ (m.filter Field.isPresent).flatMap fun f => vInKey.filter (· = f.name) := by
    intro m
    induction m with
    | nil => intro acc; simp [validateKey]
    | cons f rest ih =>
        intro acc
        rw [validateKey, ih]
        by_cases hp : f.isPresent = true
        · simp [hp, pushNamed_eq]
        · simp [hp]
  exact hwalk entity []

section Counting

variable {p : ParsePath} {entity : Message} {vInKey : List Name}

/-- The leaves that are bound are those of the keys and those that are set. -/
lemma params_perm (p : ParsePath) (entity : Message) (vInKey : List Name) :
    (p.params entity vInKey).Perm
      (leavesNamed (p.keyNames entity vInKey) entity ++ p.setFields entity vInKey) := by
  rcases p with _ | (_ | (_ | _) | _)
  · rw [params, validateKey_eq_keyNames, setFields, List.append_nil]
  · exact .refl _
  · exact List.perm_append_comm
  · exact .refl _
  · rw [params, setFields, List.append_nil]
    exact .refl _

/-- The columns are the keys and the names of the fields that are set. -/
lemma length_columns {st : Statement} (h : p.statement entity vInKey = some st) :
    st.columns.length = (p.keyNames entity vInKey).length + (p.setFields entity vInKey).length := by
  rcases p with _ | (_ | (_ | _) | _)
  · cases h
    rw [Statement.columns, validateKey_eq_keyNames]
    rfl
  · cases h
    simp [Statement.columns, keyNames, setFields, setNames]
  · obtain ⟨-, rfl⟩ := statement_update h
    simp [Statement.columns, keyNames, setFields, setNames, Nat.add_comm]
  · cases h
    simp [Statement.columns, keyNames, setFields, setNames]
  · cases h
    rfl

/-- The statement of a path is no update that sets nothing. -/
lemma statement_ne_update {st : Statement} (h : p.statement entity vInKey = some st)
    (vKey : List Name) : st ≠ .update vKey [] := by
  rcases p with _ | (_ | (_ | _) | _)
  · cases h
    simp
  · cases h
    simp
  · obtain ⟨hset, rfl⟩ := statement_update h
    simp [setNames, hset]
  · cases h
    simp
  · cases h
    simp

/-- The number of leaves of the path that have a bound type. -/
lemma countP_params (p : ParsePath) (entity : Message) (vInKey : List Name) :
    (p.params entity vInKey).countP Leaf.accepted
      = ((boundNames entity).filter (· ∈ p.keyNames entity vInKey)).length
        + (p.setFields entity vInKey).countP fun l => l.field.type.isBound := by
  have hkeys : (leavesNamed (p.keyNames entity vInKey) entity).countP Leaf.accepted
      = ((boundNames entity).filter (· ∈ p.keyNames entity vInKey)).length := by
    rw [leavesNamed, boundNames, List.filter_map, List.length_map, List.filter_filter,
      List.countP_filter, List.countP_eq_length_filter]
    congr 2
    funext l
    rw [Leaf.accepted_eq, Bool.and_comm]
    rfl
  rw [(params_perm p entity vInKey).countP_eq, List.countP_append, hkeys]
  congr 2
  funext l
  exact Leaf.accepted_eq l

/-- **When the values use up the placeholders.** -/
lemma countP_params_iff {sTableName : Name} {st : Statement}
    (h : p.statement entity vInKey = some st) :
    (p.params entity vInKey).countP Leaf.accepted = placeholderCount (st.sent sTableName)
      ↔ p.idle entity vInKey = p.surplus entity vInKey + st.lost sTableName := by
  have hsent := placeholderCount_sent_add_lost sTableName st (statement_ne_update h)
  have hcolumns := length_columns h
  have hparams := countP_params p entity vInKey
  have hdiff := length_diff_add (p.keyNames entity vInKey)
    ((boundNames entity).filter (· ∈ p.keyNames entity vInKey))
  have hset := List.length_eq_countP_add_countP (fun l : Leaf => l.field.type.isBound)
    (l := p.setFields entity vInKey)
  simp only [Bool.not_eq_true] at hset
  rw [(diff_filter_perm _ _).length_eq] at hdiff
  rw [idle, surplus]
  have hidle : (p.setFields entity vInKey).countP (fun l => !l.field.type.isBound)
      = (p.setFields entity vInKey).countP fun l => decide (l.field.type.isBound = false) := by
    refine List.countP_congr fun l _ => ?_
    simp
  omega

end Counting

lemma length_boundValues_of_not_mistyped {ls : List Leaf} (h : ls.any Leaf.mistyped = false) :
    (boundValues ls).length = ls.countP Leaf.accepted := by
  rw [boundValues_of_not_mistyped h, List.length_filterMap_eq_countP]
  rfl

/-- **When the number of parameters is the number of placeholders.** -/
theorem counts_iff (p : ParsePath) (db : Server) (entity : Message) (sTableName : Name)
    (vInKey : List Name) :
    p.Counts db entity sTableName vInKey
      ↔ ∀ st, p.statement entity vInKey = some st →
          st.Fits ∧ (db.prepares (st.sent sTableName) = true →
            p.Balanced entity vInKey sTableName st) := by
  rw [Counts, parse_eq]
  cases hst : p.statement entity vInKey with
  | none => simp [ZdbStatement.new]
  | some st =>
      simp only [Option.some.injEq, forall_eq']
      rw [prepareAndBind]
      by_cases hfits : st.Fits
      · by_cases hp : db.prepares (st.sent sTableName) = true
        · rw [if_pos hfits, if_pos hp, addInputParams_prepared, Balanced]
          by_cases hm : (p.params entity vInKey).any Leaf.mistyped = true
          · have htypes : (fun l : Leaf => l.field.type.isBound) = Leaf.accepted :=
              funext fun l => l.accepted_eq.symm
            rw [if_pos hm, if_pos hm, htypes, ← length_boundValues,
              ← placeholderCount_sent_eq sTableName st (statement_ne_update hst)]
            by_cases hle : (boundValues (p.params entity vInKey)).length
                ≤ placeholderCount (st.sent sTableName)
            · simp [hle, hfits, Except.map]
            · simp [hle, hfits, hp, Except.map]
          · have hlen := length_boundValues_of_not_mistyped (by simpa using hm)
            rw [if_neg hm, if_neg hm, ← countP_params_iff hst, ← hlen]
            by_cases hle : (boundValues (p.params entity vInKey)).length
                ≤ placeholderCount (st.sent sTableName)
            · simp [hle, hfits, hp, Except.map, ZdbStatement.holding]
            · have hne : (boundValues (p.params entity vInKey)).length
                  ≠ placeholderCount (st.sent sTableName) := by omega
              simp [hle, hfits, hp, hne, Except.map]
        · simp [hfits, hp]
      · simp [hfits]

/-- Keys that come once and name one bound field at most balance if each of them names one, and
the fields that are set are bound. -/
theorem balanced_iff_of_nodup (p : ParsePath) (entity : Message) (vInKey : List Name)
    (sTableName : Name) (st : Statement) (hnodup : (p.keyNames entity vInKey).Nodup)
    (hone : ∀ k ∈ p.keyNames entity vInKey, (boundNames entity).count k ≤ 1)
    (htyped : (p.params entity vInKey).any Leaf.mistyped = false)
    (hlost : st.lost sTableName = 0) :
    p.Balanced entity vInKey sTableName st
      ↔ (∀ k ∈ p.keyNames entity vInKey, k ∈ boundNames entity)
        ∧ ∀ l ∈ p.setFields entity vInKey, l.field.type.isBound = true := by
  have hsurplus : p.surplus entity vInKey = 0 := by
    rw [surplus, diff_length_eq_zero_iff]
    intro k hk
    have hkey : k ∈ p.keyNames entity vInKey := by simpa using (List.mem_filter.mp hk).2
    rw [List.count_filter (by simpa using hkey), List.count_eq_one_of_mem hnodup hkey]
    exact hone k hkey
  have hidle : ((p.keyNames entity vInKey).diff (boundNames entity)).length = 0
      ↔ ∀ k ∈ p.keyNames entity vInKey, k ∈ boundNames entity := by
    rw [diff_length_eq_zero_iff]
    refine forall₂_congr fun k hk => ?_
    rw [List.count_eq_one_of_mem hnodup hk, Nat.one_le_iff_ne_zero, Nat.ne_zero_iff_zero_lt,
      List.count_pos_iff]
  rw [Balanced, if_neg (by simp [htyped]), hsurplus, hlost, idle, Nat.add_eq_zero_iff, hidle,
    List.countP_eq_zero]
  simp

end ParsePath

/-- A key that holds zero keeps its placeholder, but nothing is bound to it. -/
theorem not_counts_unset_key :
    ¬ (ParsePath.write .delete).Counts ⟨fun _ => true⟩ (accountEntity 0 7) account [accountId] := by
  have hparse : (ParsePath.write .delete).parse ⟨fun _ => true⟩ (accountEntity 0 7) account
      [accountId]
      = .ok (true, ⟨(Statement.delete [accountId]).text account, some ⟨[none]⟩, 0, 1⟩) := rfl
  rw [ParsePath.Counts, hparse]
  intro h
  exact absurd (h rfl _ rfl) (by decide)

/-! ### Columns and values -/

/-- A parameter bound for `l` holds the value of a field named `k`. -/
def Meets (entity : Message) (k : Name) (l : Leaf) : Prop :=
  l.field.type ≠ .string
    ∧ ∃ l' ∈ leaves entity, l'.name = k ∧ ∃ x, l'.fieldValue = some x ∧ l.signedValue = some x

/-- The keys stand in the order in which the walk meets their leaves, up to equal values. -/
def KeysMeet (entity : Message) (vInKey : List Name) : Prop :=
  List.Forall₂ (Meets entity) vInKey (keyLeaves vInKey entity)

/-- Each key names one leaf of the entity. -/
def NamesOneLeaf (entity : Message) (vInKey : List Name) : Prop :=
  ∀ k ∈ vInKey, ((leaves entity).map Leaf.name).count k = 1

instance (entity : Message) (vInKey : List Name) : Decidable (NamesOneLeaf entity vInKey) :=
  inferInstanceAs (Decidable (∀ k ∈ vInKey, ((leaves entity).map Leaf.name).count k = 1))

lemma mem_leaves_of_mem_leavesNamed {names : List Name} {m : Message} {l : Leaf}
    (h : l ∈ leavesNamed names m) : l ∈ leaves m := (List.mem_filter.mp h).1

lemma mem_leaves_of_mem_setLeaves {vInKey : List Name} {m : Message} {l : Leaf}
    (h : l ∈ setLeaves vInKey m) : l ∈ leaves m := (List.mem_filter.mp h).1

/-- The names of the leaves that the keys name, in walk order, are the keys. -/
lemma keyLeaves_perm {entity : Message} {vInKey : List Name} (hnodup : vInKey.Nodup)
    (hone : NamesOneLeaf entity vInKey) :
    ((keyLeaves vInKey entity).map Leaf.name).Perm vInKey := by
  rw [List.perm_iff_count]
  intro k
  have hfilter : (keyLeaves vInKey entity).map Leaf.name
      = ((leaves entity).map Leaf.name).filter (· ∈ vInKey) := by
    rw [keyLeaves, leavesNamed, List.filter_map]
    rfl
  rw [hfilter]
  by_cases hk : k ∈ vInKey
  · rw [List.count_filter (by simpa using hk), hone k hk, List.count_eq_one_of_mem hnodup hk]
  · rw [List.count_eq_zero_of_not_mem hk, List.count_eq_zero]
    intro hmem
    exact hk (by simpa using (List.mem_filter.mp hmem).2)

/-- Keys that stand in the order of the walk meet their leaves, if these keep their values. -/
lemma keysMeet_of_walk {entity : Message} {vInKey : List Name}
    (h : (keyLeaves vInKey entity).map Leaf.name = vInKey)
    (hvalues : ∀ l ∈ keyLeaves vInKey entity, Meets entity l.name l) : KeysMeet entity vInKey := by
  rw [KeysMeet]
  have hmap : List.Forall₂ (Meets entity) ((keyLeaves vInKey entity).map Leaf.name)
      (keyLeaves vInKey entity) := by
    rw [List.forall₂_map_left_iff, List.forall₂_same]
    exact hvalues
  rwa [h] at hmap

/-- The set columns stand in the order of their leaves. -/
lemma setNames_meet_iff (entity : Message) (vInKey : List Name) :
    List.Forall₂ (Meets entity) (setNames vInKey entity) (setLeaves vInKey entity)
      ↔ ∀ l ∈ setLeaves vInKey entity, Meets entity l.name l := by
  rw [setNames, List.forall₂_map_left_iff, List.forall₂_same]

/-- Slots that are all filled hold their values exactly if column by column the leaves do. -/
lemma slotsHold_iff {entity : Message} {columns : List Name} {ls : List Leaf}
    (hlen : columns.length = ls.length) (haccepted : ∀ l ∈ ls, l.accepted = true) :
    ParsePath.SlotsHold entity (columns.map Name.chars) (ls.map Leaf.boundValue)
      ↔ List.Forall₂ (Meets entity) columns ls := by
  have hbound : ∀ i (hl : i < ls.length), ∃ v, ls[i].boundValue = some v := fun i hl =>
    Option.isSome_iff_exists.mp (haccepted _ (List.getElem_mem hl))
  rw [List.forall₂_iff_get]
  constructor
  · intro h
    refine ⟨hlen, fun i hc hl => ?_⟩
    obtain ⟨l, hmem, hcol, v, x, hslot, hx, hv⟩ := h i (ls[i].boundValue) (by simp [hl])
    have hname : columns[i].chars = l.name.chars := by simpa [hc] using hcol
    obtain ⟨htype, hvalue⟩ := (holds_boundValue hslot x).mp hv
    exact ⟨htype, l, hmem, (Name.chars_injective hname).symm, x, hx, hvalue⟩
  · rintro ⟨-, h⟩ i slot hslot
    have hl : i < ls.length := by
      by_contra hge
      simp [List.getElem?_eq_none (Nat.le_of_not_lt hge)] at hslot
    obtain ⟨htype, l, hmem, hname, x, hx, hvalue⟩ := h i (by omega) hl
    obtain ⟨v, hv⟩ := hbound i hl
    refine ⟨l, hmem, ?_, v, x, ?_, hx, (holds_boundValue hv x).mpr ⟨htype, hvalue⟩⟩
    · simp [hname, show i < columns.length by omega]
    · rw [← hv]
      simpa [hl] using hslot.symm

/-- Lists are related part by part. -/
lemma forall₂_append_iff {α β : Type} {R : α → β → Prop} {as bs : List α} {cs ds : List β}
    (h : as.length = cs.length) :
    List.Forall₂ R (as ++ bs) (cs ++ ds) ↔ List.Forall₂ R as cs ∧ List.Forall₂ R bs ds := by
  refine ⟨fun hall => ?_, fun hall => List.rel_append hall.1 hall.2⟩
  have hfirst := List.forall₂_take_append _ _ _ hall
  have hsecond := List.forall₂_drop_append _ _ _ hall
  rw [← h] at hfirst hsecond
  rw [List.take_left' rfl] at hfirst
  rw [List.drop_left' rfl] at hsecond
  exact ⟨hfirst, hsecond⟩

namespace WritePath

/-- The columns of a write meet their leaves exactly if the keys and the fields that are set
do. -/
lemma forall₂_columns_iff (w : WritePath) {entity : Message} {vInKey : List Name}
    (hnodup : vInKey.Nodup) (hone : NamesOneLeaf entity vInKey) {st : Statement}
    (h : (ParsePath.write w).statement entity vInKey = some st) :
    st.columns.length = ((ParsePath.write w).params entity vInKey).length
      ∧ (List.Forall₂ (Meets entity) st.columns ((ParsePath.write w).params entity vInKey)
        ↔ KeysMeet entity vInKey
          ∧ ∀ l ∈ (ParsePath.write w).setFields entity vInKey, Meets entity l.name l) := by
  have hkeys : vInKey.length = (keyLeaves vInKey entity).length := by
    rw [← (keyLeaves_perm hnodup hone).length_eq, List.length_map]
  have hset : (setNames vInKey entity).length = (setLeaves vInKey entity).length :=
    List.length_map ..
  have hmeet := setNames_meet_iff entity vInKey
  have hinsert : (vInKey ++ setNames vInKey entity).length
        = (keyLeaves vInKey entity ++ setLeaves vInKey entity).length
      ∧ (List.Forall₂ (Meets entity) (vInKey ++ setNames vInKey entity)
          (keyLeaves vInKey entity ++ setLeaves vInKey entity)
        ↔ KeysMeet entity vInKey ∧ ∀ l ∈ setLeaves vInKey entity, Meets entity l.name l) := by
    refine ⟨by simp only [List.length_append]; omega, ?_⟩
    rw [forall₂_append_iff hkeys, hmeet]
    exact Iff.rfl
  rcases w with _ | (_ | _) | _
  · cases h
    exact hinsert
  · obtain ⟨-, rfl⟩ := ParsePath.statement_update h
    change (setNames vInKey entity ++ vInKey).length
        = (setLeaves vInKey entity ++ keyLeaves vInKey entity).length
      ∧ (List.Forall₂ (Meets entity) (setNames vInKey entity ++ vInKey)
          (setLeaves vInKey entity ++ keyLeaves vInKey entity)
        ↔ KeysMeet entity vInKey ∧ ∀ l ∈ setLeaves vInKey entity, Meets entity l.name l)
    refine ⟨by simp only [List.length_append]; omega, ?_⟩
    rw [forall₂_append_iff hset, hmeet, and_comm]
    exact Iff.rfl
  · cases h
    exact hinsert
  · cases h
    refine ⟨hkeys, fun hall => ⟨hall, fun l hl => ?_⟩, fun hall => hall.1⟩
    exact absurd hl List.not_mem_nil

/-- The leaves that a path binds are leaves of the entity. -/
lemma mem_leaves_of_mem_params (w : WritePath) {entity : Message} {vInKey : List Name} {l : Leaf}
    (h : l ∈ (ParsePath.write w).params entity vInKey) : l ∈ leaves entity := by
  have happ : l ∈ keyLeaves vInKey entity ∨ l ∈ setLeaves vInKey entity → l ∈ leaves entity :=
    fun h => h.elim mem_leaves_of_mem_leavesNamed mem_leaves_of_mem_setLeaves
  rcases w with _ | (_ | _) | _
  · exact happ (List.mem_append.mp h)
  · exact happ (List.mem_append.mp h).symm
  · exact happ (List.mem_append.mp h)
  · exact mem_leaves_of_mem_leavesNamed h

/-- **When the columns of a write carry the values of their fields**: the lists have room in
their arrays, and a text that the database accepts has lost no placeholder, lists its keys in
the order of the walk, and no field that is bound is a string, an unsigned number beyond the
signed ones or a time beyond the years of a DATETIME. -/
theorem carries_iff (w : WritePath) (db : Server) (entity : Message) (sTableName : Name)
    (vInKey : List Name) (hnodup : vInKey.Nodup) (hone : NamesOneLeaf entity vInKey)
    (haccepted : ∀ l ∈ leaves entity, l.accepted = true) :
    (ParsePath.write w).Carries db entity sTableName vInKey
      ↔ ∀ st, (ParsePath.write w).statement entity vInKey = some st →
          st.Fits ∧ (db.prepares (st.sent sTableName) = true →
            st.lost sTableName = 0 ∧ KeysMeet entity vInKey
              ∧ ∀ l ∈ (ParsePath.write w).setFields entity vInKey, Meets entity l.name l) := by
  rw [ParsePath.Carries, ParsePath.parse_eq]
  cases hst : (ParsePath.write w).statement entity vInKey with
  | none => simp [ZdbStatement.new]
  | some st =>
      simp only [Option.some.injEq, forall_eq']
      obtain ⟨hlen, hcolumns⟩ := forall₂_columns_iff w hnodup hone hst
      have hparams : ∀ l ∈ (ParsePath.write w).params entity vInKey, l.accepted = true :=
        fun l hl => haccepted l (mem_leaves_of_mem_params w hl)
      have hbound := boundValues_of_accepted hparams
      have hcount : (boundValues ((ParsePath.write w).params entity vInKey)).length
          = st.columns.length := by
        rw [hlen, length_boundValues_of_accepted hparams]
      have hsent := placeholderCount_sent_add_lost sTableName st
        (ParsePath.statement_ne_update hst)
      rw [ParsePath.prepareAndBind]
      by_cases hfits : st.Fits
      · by_cases hp : db.prepares (st.sent sTableName) = true
        · have hnot := not_mistyped_of_accepted hparams
          rw [if_pos hfits, if_pos hp, addInputParams_prepared, hnot, hcount]
          by_cases hlost : st.lost sTableName = 0
          · have hn : placeholderCount (st.sent sTableName) = st.columns.length := by omega
            have hslots : ZdbStatement.filled st.columns.length
                (boundValues ((ParsePath.write w).params entity vInKey))
                  = ((ParsePath.write w).params entity vInKey).map Leaf.boundValue := by
              rw [ZdbStatement.filled_of_length_eq hcount, hbound]
            have hread : (ParsePath.write w).readColumns (st.sent sTableName)
                = st.columns.map Name.chars := by
              rw [ParsePath.readColumns_eq hst, Statement.readColumns_sent sTableName st hn]
            simp only [hn, le_refl, if_true, Except.map, ZdbStatement.holding, Bool.false_eq_true,
              if_false, hslots, hread, Option.some.injEq, forall_eq', slotsHold_iff hlen hparams,
              hcolumns, hfits, hp, hlost, true_and, forall_const]
          · rw [if_neg (by omega)]
            simp [hp, hlost, Except.map]
        · simp [hfits, hp]
      · simp [hfits]

/-- An account with its keys in the order of its fields. -/
theorem carries_keys_in_order :
    (ParsePath.write .insert).Carries ⟨fun _ => true⟩ (accountEntity 1 2) account
      [accountId, accountLevel] := by
  refine (carries_iff .insert _ _ _ _ (by decide) (by decide) (by decide)).mpr ?_
  intro st hst
  cases hst
  have hleaves : keyLeaves [accountId, accountLevel] (accountEntity 1 2)
      = [.ofInt32 accountId 1, .ofInt32 accountLevel 2] := by decide
  refine ⟨by decide, fun _ => ⟨by decide, keysMeet_of_walk (by decide) ?_, ?_⟩⟩
  · intro l hl
    rw [hleaves] at hl
    refine ⟨?_, l, mem_leaves_of_mem_leavesNamed (hleaves ▸ hl), rfl, ?_⟩
    · rcases List.mem_pair.mp hl with rfl | rfl <;> decide
    · rcases List.mem_pair.mp hl with rfl | rfl <;> exact ⟨_, rfl, rfl⟩
  · have hset : setLeaves [accountId, accountLevel] (accountEntity 1 2) = [] := by decide
    intro l hl
    rw [ParsePath.setFields, hset] at hl
    cases hl

/-- With its keys in another order each of them gets the value of the other. -/
theorem not_carries_keys_swapped :
    [accountLevel, accountId].Nodup
      ∧ NamesOneLeaf (accountEntity 1 2) [accountLevel, accountId]
      ∧ (∀ l ∈ leaves (accountEntity 1 2), l.accepted = true)
      ∧ ¬ (ParsePath.write .insert).Carries ⟨fun _ => true⟩ (accountEntity 1 2) account
          [accountLevel, accountId] := by
  refine ⟨by decide, by decide, by decide, ?_⟩
  have hparse : (ParsePath.write .insert).parse ⟨fun _ => true⟩ (accountEntity 1 2) account
      [accountLevel, accountId] = .ok (true, ⟨(Statement.insert [accountLevel, accountId] []).text
        account, some ⟨[some (.int 1), some (.int 2)]⟩, 2, 1⟩) := by rfl
  have hcolumn : (ParsePath.write .insert).readColumns
      ((Statement.insert [accountLevel, accountId] []).text account)
        = [accountLevel.chars, accountId.chars] := by decide
  rw [ParsePath.Carries, hparse]
  intro h
  obtain ⟨l, hl, hname, v, x, hslot, hx, -, hv⟩ := h rfl _ rfl 0 (some (.int 1)) rfl
  rw [hcolumn] at hname
  obtain rfl := Option.some.inj hslot
  rcases List.mem_cons.mp hl with rfl | hl
  · exact absurd hname (by decide)
  · rcases List.mem_singleton.mp hl with rfl
    obtain rfl := Option.some.inj hx
    exact absurd hv (by decide)

end WritePath

end PbEntityDb
