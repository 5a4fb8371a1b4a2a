import PbEntityDb.Engine.Cached
import PbEntityDb.Proto.Wire

/-!
What the records of a load owe to the request and to the rows before them.

`ParseEntityResult` reads all rows into the request itself. `residue` is what a
walk leaves of the record it finds: the repeated fields and the fields of types
without a case, except where a member of the same oneof is written.

* `written_fill_iff`: two walks over one row write the same record exactly if
  they find the same residue.
* `residue_fill`: a walk does not change the residue, so a row shows nothing of
  the rows before it.
* `isolated_iff`: the records of two loads are functions of their rows exactly
  if the two requests have the same residue. Their unknown fields belong to it.
-/

namespace PbEntityDb

/-- One of the fields is written by the walk and takes the place of the member
of the oneof `o`. -/
def overwrites (ds : List FieldDecl) (o : Option ℕ) : Bool :=
  o.isSome && ds.any fun d => d.isWritten && decide (d.oneof = o)

/-- The message in a field, or a new one. -/
def subMessage (pool : Pool) (f : MessageField) : Field → Message
  | .message _ sub => sub
  | _ => emptyMessage pool f.messageType

/-! ### What a walk leaves of a record -/

section Residue

variable (pool : Pool)

/-- What is left of one field; `shared` says that another member of its oneof is
written. -/
def residueField (sub : Text → Message → List Wire) (shared : Bool) : FieldDecl → Field → Wire
  | .leaf d, f => if d.isRead || shared then .absent else f.written
  | .message mf, f =>
      if shared then .absent else .message (sub mf.messageType (subMessage pool mf f))
  | .repeated _, f => f.written
  | .repeatedMessage _, f => f.written

/-- What is left of the fields `ds`, behind the fields `before`. -/
def residueFields (sub : Text → Message → List Wire) (before : List FieldDecl) :
    List FieldDecl → Message → List Wire
  | d :: ds, f :: record =>
      residueField pool sub (overwrites (before ++ ds) d.oneof) d f
        :: residueFields sub (before ++ [d]) ds record
  | _, _ => []

/-- What a walk leaves of a record of a type; without room for it, all of it. -/
def residue : ℕ → Text → Message → List Wire
  | 0, _, record => written record
  | stack + 1, messageType, record =>
      residueFields pool (residue stack) [] (pool messageType) record

end Residue

/-! ### A walk, field by field -/

section Final

variable (pool : Pool) (stray : Stray) (row : List Column)

/-- The field behind a setter for it. -/
def writeField (sub : Text → Message → Message) : FieldDecl → Field → Field
  | .leaf d, f =>
      match readValue stray d (cellNamed row d.name.chars) with
      | none => f
      | some v => .leaf (if h : v.cppType = d.type.cppType then ⟨d, true, v, h⟩ else d.unset)
  | .message mf, f => .message mf (sub mf.messageType (subMessage pool mf f))
  | .repeated _, f => f
  | .repeatedMessage _, f => f

/-- A field behind the setters of other fields. -/
def clearBy (ds : List FieldDecl) (f : Field) : Field :=
  if overwrites ds f.oneof then f.cleared else f

/-- A field behind a walk over the fields `before`, itself and the fields `after`. -/
def finalField (sub : Text → Message → Message) (before after : List FieldDecl) (d : FieldDecl)
    (f : Field) : Field :=
  clearBy after (writeField pool stray row sub d (clearBy before f))

/-- The fields behind a walk over all of them. -/
def finalFields (sub : Text → Message → Message) (before : List FieldDecl) :
    List FieldDecl → Message → Message
  | d :: ds, f :: record =>
      finalField pool stray row sub before ds d f :: finalFields sub (before ++ [d]) ds record
  | _, _ => []

lemma clearBy_nil (f : Field) : clearBy [] f = f := by
  simp [clearBy, overwrites]

lemma oneof_clearBy (ds : List FieldDecl) (f : Field) : (clearBy ds f).oneof = f.oneof := by
  rw [clearBy]
  split
  · exact f.oneof_cleared
  · rfl

lemma cleared_cleared (f : Field) : f.cleared.cleared = f.cleared := by
  cases f <;> rfl

/-- One more setter. -/
lemma clearBy_append (before : List FieldDecl) (d : FieldDecl) (f : Field) :
    clearBy (before ++ [d]) f
      = if d.isWritten then (clearBy before f).clearOneof d.oneof else clearBy before f := by
  have hover : overwrites (before ++ [d]) f.oneof
      = (overwrites before f.oneof
        || (f.oneof.isSome && (d.isWritten && decide (d.oneof = f.oneof)))) := by
    rw [overwrites, overwrites, List.any_append, Bool.and_or_distrib_left]
    simp
  cases hd : d.isWritten with
  | false => simp [clearBy, hover, hd]
  | true =>
      rw [if_pos rfl, Field.clearOneof, oneof_clearBy, clearBy, hover, hd]
      rw [clearBy]
      cases ho : f.oneof with
      | none => cases hdo : d.oneof <;> simp [overwrites]
      | some o =>
          by_cases hsame : d.oneof = some o
          · cases hb : overwrites before (some o) <;> simp [hsame, cleared_cleared]
          · have hother : ¬ some o = d.oneof := fun e => hsame e.symm
            cases hb : overwrites before (some o) <;> simp [hsame, hother]

lemma clearAll_eq_clearBy (ds : List FieldDecl) (f : Field) : clearAll ds [f] = [clearBy ds f] :=
  clearAll_singleton ds f

/-- The setter for the field behind the fields that are done. -/
lemma setAt_done (done : Message) (f g : Field) (record : Message) :
    setAt done.length f (done ++ g :: record)
      = done.map (Field.clearOneof f.oneof) ++ f :: record.map (Field.clearOneof f.oneof) := by
  have hlen : (done.map (Field.clearOneof f.oneof)).length = done.length := List.length_map ..
  rw [setAt, List.map_append, List.set_append_right _ _ (by omega), hlen, Nat.sub_self,
    List.map_cons, List.set_cons_zero]

/-- `MutableMessage` for the field behind the fields that are done. -/
lemma mutableMessage_done (done : Message) (mf : MessageField) (f : Field) (rest : Message) :
    mutableMessage pool done.length mf (done ++ f :: rest) = subMessage pool mf f := by
  rw [mutableMessage, List.getElem?_append_right (le_refl _), Nat.sub_self,
    List.getElem?_cons_zero]
  cases f <;> rfl

/-- What the fields `before` and one more leave of the fields behind them. -/
lemma map_clearBy_concat (before : List FieldDecl) (d : FieldDecl) (record : Message) :
    record.map (clearBy (before ++ [d]))
      = if d.isWritten then (record.map (clearBy before)).map (Field.clearOneof d.oneof)
        else record.map (clearBy before) := by
  by_cases hd : d.isWritten = true
  · rw [if_pos hd, List.map_map]
    refine List.map_congr_left fun g _ => ?_
    rw [clearBy_append, if_pos hd]
    rfl
  · rw [if_neg hd]
    refine List.map_congr_left fun g _ => ?_
    rw [clearBy_append, if_neg hd]

/-- **The loop, field by field.** -/
lemma fillLoop_eq (sub : Text → Message → Message) (before ds : List FieldDecl)
    (done record : Message) (hlen : record.length = ds.length) :
    fillLoop pool stray row sub ds done.length (done ++ record.map (clearBy before))
      = clearAll ds done ++ finalFields pool stray row sub before ds record := by
  induction ds generalizing before done record with
  | nil =>
      rw [List.length_nil, List.length_eq_zero_iff] at hlen
      subst hlen
      simp [fillLoop, clearAll, finalFields]
  | cons d ds ih =>
      cases record with
      | nil => cases hlen
      | cons f record =>
          have hlen' : record.length = ds.length := by simpa using hlen
          have hmap : ∀ o, (done.map (Field.clearOneof o)).length = done.length :=
            fun o => List.length_map ..
          -- a field that is not written
          have hkept : d.isWritten = false →
              fillLoop pool stray row sub ds (done.length + 1)
                  (done ++ (f :: record).map (clearBy before))
                = clearAll (d :: ds) done ++ clearBy ds (clearBy before f)
                  :: finalFields pool stray row sub (before ++ [d]) ds record := by
            intro hd
            have hmapped := map_clearBy_concat before d record
            rw [hd, if_neg (by simp)] at hmapped
            have h := ih (before ++ [d]) (done ++ [clearBy before f]) record hlen'
            rw [List.length_append, clearAll_append, clearAll_eq_clearBy, List.append_assoc,
              List.append_assoc] at h
            rw [List.map_cons, ← hmapped, clearAll, hd, if_neg (by simp)]
            exact h
          -- a field that becomes `g`
          have hwritten : ∀ g : Field, d.isWritten = true → g.oneof = d.oneof →
              fillLoop pool stray row sub ds (done.length + 1)
                  (setAt done.length g (done ++ (f :: record).map (clearBy before)))
                = clearAll (d :: ds) done ++ clearBy ds g
                  :: finalFields pool stray row sub (before ++ [d]) ds record := by
            intro g hd ho
            have hmapped := map_clearBy_concat before d record
            rw [hd, if_pos rfl] at hmapped
            have h := ih (before ++ [d]) (done.map (Field.clearOneof d.oneof) ++ [g]) record hlen'
            rw [List.length_append, hmap, clearAll_append, clearAll_eq_clearBy, List.append_assoc,
              List.append_assoc] at h
            rw [List.map_cons, setAt_done, ho, ← hmapped, clearAll, hd, if_pos rfl]
            exact h
          cases d with
          | leaf d =>
              have hread := readValue_isSome stray d (cellNamed row d.name.chars)
              rw [fillLoop, finalFields, finalField, writeField]
              cases hv : readValue stray d (cellNamed row d.name.chars) with
              | none =>
                  rw [hv] at hread
                  exact hkept hread.symm
              | some v =>
                  rw [hv] at hread
                  refine hwritten _ hread.symm ?_
                  by_cases hty : v.cppType = d.type.cppType
                  · rw [dif_pos hty]
                    rfl
                  · rw [dif_neg hty]
                    rfl
          | message mf =>
              rw [fillLoop, finalFields, finalField, writeField, List.map_cons,
                mutableMessage_done]
              exact hwritten _ rfl rfl
          | repeated name => exact hkept rfl
          | repeatedMessage mf => exact hkept rfl

/-- A walk over a record of its type. -/
lemma fillRecord_succ (stack : ℕ) (messageType : Text) {record : Message}
    (hlen : record.length = (pool messageType).length) :
    fillRecord pool stray row (stack + 1) messageType record
      = finalFields pool stray row (fillRecord pool stray row stack) [] (pool messageType)
          record := by
  have h := fillLoop_eq pool stray row (fillRecord pool stray row stack) [] (pool messageType) []
    record hlen
  have hmap : record.map (clearBy []) = record := by
    rw [List.map_congr_left fun f _ => clearBy_nil f, List.map_id']
  rw [hmap, List.nil_append, List.length_nil] at h
  rw [fillRecord, h]
  have hnil : ∀ ds, clearAll ds [] = [] := by
    intro ds
    induction ds with
    | nil => rfl
    | cons d ds ih => simpa [clearAll] using ih
  rw [hnil, List.nil_append]

end Final

/-! ### Messages of a type stay so -/

section HasDecls

variable {pool : Pool} (stray : Stray) (row : List Column)

lemma length_of_hasDecls {m : Message} {ds : List FieldDecl} (h : HasDecls pool m ds) :
    m.length = ds.length := by
  induction m generalizing ds with
  | nil =>
      rw [HasDecls] at h
      rw [h]
      rfl
  | cons f m ih =>
      rw [HasDecls] at h
      obtain ⟨d, ds, rfl, -, hm⟩ := h
      rw [List.length_cons, List.length_cons, ih hm]

lemma hasDecls_subMessage {mf : MessageField} {f : Field} (h : f.HasDecl pool (.message mf)) :
    HasDecls pool (subMessage pool mf f) (pool mf.messageType) := by
  cases f with
  | message f sub =>
      rw [Field.HasDecl] at h
      obtain ⟨heq, hsub⟩ := h
      cases heq
      exact hsub
  | leaf l => exact hasDecls_empty pool _
  | unset f => exact hasDecls_empty pool _
  | repeated name values => exact hasDecls_empty pool _
  | repeatedMessage f elems => exact hasDecls_empty pool _

lemma hasDecl_clearBy {f : Field} {d : FieldDecl} (h : f.HasDecl pool d) (ds : List FieldDecl) :
    (clearBy ds f).HasDecl pool d := by
  rw [clearBy]
  split
  · exact h.cleared
  · exact h

lemma hasDecl_writeField {sub : Text → Message → Message}
    (hsub : ∀ messageType m, HasDecls pool m (pool messageType) →
      HasDecls pool (sub messageType m) (pool messageType))
    {f : Field} {d : FieldDecl} (h : f.HasDecl pool d) :
    (writeField pool stray row sub d f).HasDecl pool d := by
  cases d with
  | leaf d =>
      rw [writeField]
      split
      · exact h
      · rw [Field.HasDecl]
        split <;> rfl
  | message mf =>
      rw [writeField, Field.HasDecl]
      exact ⟨rfl, hsub _ _ (hasDecls_subMessage h)⟩
  | repeated name => exact h
  | repeatedMessage mf => exact h

lemma hasDecls_finalFields {sub : Text → Message → Message}
    (hsub : ∀ messageType m, HasDecls pool m (pool messageType) →
      HasDecls pool (sub messageType m) (pool messageType))
    {before ds : List FieldDecl} {record : Message} (h : HasDecls pool record ds) :
    HasDecls pool (finalFields pool stray row sub before ds record) ds := by
  induction ds generalizing before record with
  | nil =>
      obtain rfl : record = [] := List.eq_nil_of_length_eq_zero (length_of_hasDecls h)
      exact h
  | cons d ds ih =>
      cases record with
      | nil => exact absurd h not_hasDecls_nil
      | cons f record =>
          obtain ⟨hf, hrecord⟩ := hasDecls_cons.mp h
          refine hasDecls_cons.mpr ⟨?_, ih hrecord⟩
          exact hasDecl_clearBy (hasDecl_writeField stray row hsub (hasDecl_clearBy hf before)) ds

/-- A walk keeps a message of a type one of this type. -/
lemma hasDecls_fill (stack : ℕ) {messageType : Text} {record : Message}
    (h : HasDecls pool record (pool messageType)) :
    HasDecls pool (fillRecord pool stray row stack messageType record) (pool messageType) := by
  induction stack generalizing messageType record with
  | zero => exact h
  | succ stack ih =>
      rw [fillRecord_succ pool stray row stack messageType (length_of_hasDecls h)]
      exact hasDecls_finalFields stray row (fun _ _ hm => ih hm) h

end HasDecls

/-! ### Two walks over one row -/

section TwoWalks

variable {pool : Pool} (stray : Stray) (row : List Column)

lemma overwrites_append (before after : List FieldDecl) (o : Option ℕ) :
    overwrites (before ++ after) o = (overwrites before o || overwrites after o) := by
  rw [overwrites, overwrites, overwrites, List.any_append, Bool.and_or_distrib_left]

lemma clearBy_of_hasDecl {f : Field} {d : FieldDecl} (h : f.HasDecl pool d)
    (ds : List FieldDecl) :
    clearBy ds f = if overwrites ds d.oneof then d.empty else f := by
  rw [clearBy, h.oneof_eq]
  cases ho : overwrites ds d.oneof with
  | false => rfl
  | true =>
      rw [overwrites, Bool.and_eq_true] at ho
      rw [if_pos rfl, if_pos rfl, h.cleared_eq ho.1]

/-- A field behind a walk, in terms of the field that its type declares. -/
lemma finalField_of_hasDecl {sub : Text → Message → Message}
    (hkeep : ∀ messageType m, HasDecls pool m (pool messageType) →
      HasDecls pool (sub messageType m) (pool messageType))
    (before after : List FieldDecl) {d : FieldDecl} {f : Field} (hf : f.HasDecl pool d) :
    finalField pool stray row sub before after d f
      = if overwrites after d.oneof then d.empty
        else writeField pool stray row sub d
          (if overwrites before d.oneof then d.empty else f) := by
  rw [finalField, clearBy_of_hasDecl
    (hasDecl_writeField stray row hkeep (hasDecl_clearBy hf before)), clearBy_of_hasDecl hf]

/-- Two walks over a row write a field alike exactly if they leave the same of it. -/
lemma written_finalField_iff {sub : Text → Message → Message}
    {subResidue : Text → Message → List Wire}
    (hkeep : ∀ messageType m, HasDecls pool m (pool messageType) →
      HasDecls pool (sub messageType m) (pool messageType))
    (hsub : ∀ messageType m m', HasDecls pool m (pool messageType) →
      HasDecls pool m' (pool messageType) →
        (written (sub messageType m) = written (sub messageType m')
          ↔ subResidue messageType m = subResidue messageType m'))
    (before after : List FieldDecl) {d : FieldDecl} {f f' : Field} (hf : f.HasDecl pool d)
    (hf' : f'.HasDecl pool d) :
    (finalField pool stray row sub before after d f).written
        = (finalField pool stray row sub before after d f').written
      ↔ residueField pool subResidue (overwrites (before ++ after) d.oneof) d f
        = residueField pool subResidue (overwrites (before ++ after) d.oneof) d f' := by
  rw [finalField_of_hasDecl stray row hkeep before after hf,
    finalField_of_hasDecl stray row hkeep before after hf', overwrites_append]
  cases d with
  | leaf d =>
      have hread := readValue_isSome stray d (cellNamed row d.name.chars)
      rw [residueField, residueField, ← hread]
      simp only [writeField]
      cases readValue stray d (cellNamed row d.name.chars) with
      | some v => simp
      | none =>
          cases overwrites after (FieldDecl.leaf d).oneof <;>
            cases overwrites before (FieldDecl.leaf d).oneof <;> simp
  | message mf =>
      rw [residueField, residueField]
      simp only [writeField]
      cases overwrites after (FieldDecl.message mf).oneof with
      | true => simp
      | false =>
          cases overwrites before (FieldDecl.message mf).oneof with
          | true => simp
          | false =>
              have hinner := hsub mf.messageType _ _ (hasDecls_subMessage hf)
                (hasDecls_subMessage hf')
              simpa [Field.written] using hinner
  | repeated name => rfl
  | repeatedMessage mf => rfl

lemma written_finalFields_iff {sub : Text → Message → Message}
    {subResidue : Text → Message → List Wire}
    (hkeep : ∀ messageType m, HasDecls pool m (pool messageType) →
      HasDecls pool (sub messageType m) (pool messageType))
    (hsub : ∀ messageType m m', HasDecls pool m (pool messageType) →
      HasDecls pool m' (pool messageType) →
        (written (sub messageType m) = written (sub messageType m')
          ↔ subResidue messageType m = subResidue messageType m'))
    {before ds : List FieldDecl} {m m' : Message} (hm : HasDecls pool m ds)
    (hm' : HasDecls pool m' ds) :
    written (finalFields pool stray row sub before ds m)
        = written (finalFields pool stray row sub before ds m')
      ↔ residueFields pool subResidue before ds m = residueFields pool subResidue before ds m' := by
  induction ds generalizing before m m' with
  | nil =>
      rw [List.eq_nil_of_length_eq_zero (length_of_hasDecls hm),
        List.eq_nil_of_length_eq_zero (length_of_hasDecls hm')]
      exact ⟨fun _ => rfl, fun _ => rfl⟩
  | cons d ds ih =>
      cases m with
      | nil => exact absurd hm not_hasDecls_nil
      | cons f m =>
          cases m' with
          | nil => exact absurd hm' not_hasDecls_nil
          | cons f' m' =>
              obtain ⟨hf, hm⟩ := hasDecls_cons.mp hm
              obtain ⟨hf', hm'⟩ := hasDecls_cons.mp hm'
              have hhead := written_finalField_iff stray row hkeep hsub before ds hf hf'
              rw [finalFields, finalFields, written_cons, written_cons, residueFields,
                residueFields, List.cons.injEq, List.cons.injEq, hhead, ih hm hm']

/-- **Two walks over one row** write the same record exactly if they find the
same residue. -/
theorem written_fill_iff (stack : ℕ) (messageType : Text) {m m' : Message}
    (hm : HasDecls pool m (pool messageType)) (hm' : HasDecls pool m' (pool messageType)) :
    written (fillRecord pool stray row stack messageType m)
        = written (fillRecord pool stray row stack messageType m')
      ↔ residue pool stack messageType m = residue pool stack messageType m' := by
  induction stack generalizing messageType m m' with
  | zero => rfl
  | succ stack ih =>
      rw [fillRecord_succ pool stray row stack messageType (length_of_hasDecls hm),
        fillRecord_succ pool stray row stack messageType (length_of_hasDecls hm')]
      exact written_finalFields_iff stray row (fun _ _ h => hasDecls_fill stray row stack h)
        (fun messageType _ _ h h' => ih messageType h h') hm hm'

/-! ### One walk behind another -/

/-- A walk leaves of a field what was left of it before. -/
lemma residueField_finalField {sub : Text → Message → Message}
    {subResidue : Text → Message → List Wire}
    (hkeep : ∀ messageType m, HasDecls pool m (pool messageType) →
      HasDecls pool (sub messageType m) (pool messageType))
    (hsub : ∀ messageType m, HasDecls pool m (pool messageType) →
      subResidue messageType (sub messageType m) = subResidue messageType m)
    (before after : List FieldDecl) {d : FieldDecl} {f : Field} (hf : f.HasDecl pool d) :
    residueField pool subResidue (overwrites (before ++ after) d.oneof) d
        (finalField pool stray row sub before after d f)
      = residueField pool subResidue (overwrites (before ++ after) d.oneof) d f := by
  rw [finalField_of_hasDecl stray row hkeep before after hf, overwrites_append]
  cases d with
  | leaf d =>
      have hread := readValue_isSome stray d (cellNamed row d.name.chars)
      rw [residueField, residueField, ← hread]
      simp only [writeField]
      cases readValue stray d (cellNamed row d.name.chars) with
      | some v => simp
      | none =>
          cases overwrites after (FieldDecl.leaf d).oneof <;>
            cases overwrites before (FieldDecl.leaf d).oneof <;> simp
  | message mf =>
      rw [residueField, residueField]
      simp only [writeField]
      cases overwrites after (FieldDecl.message mf).oneof with
      | true => simp
      | false =>
          cases overwrites before (FieldDecl.message mf).oneof with
          | true => simp
          | false => simpa [subMessage] using hsub mf.messageType _ (hasDecls_subMessage hf)
  | repeated name => rfl
  | repeatedMessage mf => rfl

lemma residueFields_finalFields {sub : Text → Message → Message}
    {subResidue : Text → Message → List Wire}
    (hkeep : ∀ messageType m, HasDecls pool m (pool messageType) →
      HasDecls pool (sub messageType m) (pool messageType))
    (hsub : ∀ messageType m, HasDecls pool m (pool messageType) →
      subResidue messageType (sub messageType m) = subResidue messageType m)
    {before ds : List FieldDecl} {m : Message} (hm : HasDecls pool m ds) :
    residueFields pool subResidue before ds (finalFields pool stray row sub before ds m)
      = residueFields pool subResidue before ds m := by
  induction ds generalizing before m with
  | nil =>
      rw [List.eq_nil_of_length_eq_zero (length_of_hasDecls hm)]
      rfl
  | cons d ds ih =>
      cases m with
      | nil => exact absurd hm not_hasDecls_nil
      | cons f m =>
          obtain ⟨hf, hm⟩ := hasDecls_cons.mp hm
          rw [finalFields, residueFields, residueFields, ih hm,
            residueField_finalField stray row hkeep hsub before ds hf]

/-- **A walk does not change the residue.** -/
theorem residue_fill (stack : ℕ) (messageType : Text) {m : Message}
    (hm : HasDecls pool m (pool messageType)) :
    residue pool stack messageType (fillRecord pool stray row stack messageType m)
      = residue pool stack messageType m := by
  induction stack generalizing messageType m with
  | zero => rfl
  | succ stack ih =>
      rw [fillRecord_succ pool stray row stack messageType (length_of_hasDecls hm)]
      exact residueFields_finalFields stray row (fun _ _ h => hasDecls_fill stray row stack h)
        (fun messageType _ h => ih messageType h) hm

end TwoWalks

/-! ### Loads -/

section Loads

variable {pool : Pool} (stray : Stray)

lemma length_fillRows (stack : ℕ) (messageType : Text) (record : Message)
    (rows : List (List Column)) :
    (fillRows pool stray stack messageType record rows).length = rows.length := by
  induction rows generalizing record with
  | nil => rfl
  | cons row rows ih => rw [fillRows, List.length_cons, List.length_cons, ih]

/-- The record of a row is a walk over this row, from a record with the residue
of the request. -/
lemma fillRows_get (stack : ℕ) {messageType : Text} {record : Message}
    (hrecord : HasDecls pool record (pool messageType)) {rows : List (List Column)} {k : ℕ}
    {r : Message} (hr : (fillRows pool stray stack messageType record rows)[k]? = some r) :
    ∃ row m, rows[k]? = some row ∧ HasDecls pool m (pool messageType)
      ∧ residue pool stack messageType m = residue pool stack messageType record
      ∧ r = fillRecord pool stray row stack messageType m := by
  induction rows generalizing record k with
  | nil => simp [fillRows] at hr
  | cons row rows ih =>
      rw [fillRows] at hr
      cases k with
      | zero =>
          rw [List.getElem?_cons_zero, Option.some.injEq] at hr
          exact ⟨row, record, rfl, hrecord, rfl, hr.symm⟩
      | succ k =>
          rw [List.getElem?_cons_succ] at hr
          obtain ⟨row', m, hrow', hm, hresidue, rfl⟩ :=
            ih (hasDecls_fill stray row stack hrecord) hr
          refine ⟨row', m, hrow', hm, ?_, rfl⟩
          rw [hresidue, residue_fill stray row stack messageType hrecord]

end Loads

/-- The type can be read with room for `stack` calls: its messages do not nest
deeper, its fields fit in `arrIndex`, and none of them is a `fixed32` or
`fixed64`. -/
def Fits (pool : Pool) (stack : ℕ) (messageType : Text) : Prop :=
  ∃ ws, slots pool stack messageType = some ws ∧ ws.length ≤ arrIndexSize ∧ noFixed ws = true

/-- **Isolation of the rows**: two loads return one record for each of their
rows, and on rows that are the same the same record. -/
def Isolated (pool : Pool) (stray : Stray) (stack : ℕ) (messageType : Text)
    (request request' : Message) (rs rs' : ResultSet) : Prop :=
  ∃ records records',
    parseEntityResult pool stray stack messageType request rs.rows = .ok records
      ∧ parseEntityResult pool stray stack messageType request' rs'.rows = .ok records'
      ∧ records.length = rs.rows.length ∧ records'.length = rs'.rows.length
      ∧ ∀ (k : ℕ) (row : List Column) (r r' : Message), rs.rows[k]? = some row →
        rs'.rows[k]? = some row → records[k]? = some r → records'[k]? = some r' →
          written r = written r'

/-- A type of which a row was read fits. -/
lemma fits_of_parse {pool : Pool} {stray : Stray} {stack : ℕ} {messageType : Text}
    {record : Message} {rows : List (List Column)} {records : List Message}
    (h : parseEntityResult pool stray stack messageType record rows = .ok records)
    (hrows : rows ≠ []) : Fits pool stack messageType := by
  cases rows with
  | nil => exact absurd rfl hrows
  | cons first rows =>
      obtain ⟨⟨r, st⟩, hfirst, -⟩ := bind_ok h
      exact (addFirst_ok pool stray hfirst).2.2

/-- The records of a load are functions of their rows, for types of any fields. -/
lemma isolated_iff_residue (pool : Pool) (stray : Stray) (stack : ℕ) (messageType : Text)
    (request request' : Message) (rs rs' : ResultSet)
    (hrequest : HasDecls pool request (pool messageType))
    (hrequest' : HasDecls pool request' (pool messageType))
    (hcolumns : ∀ d, HasLeaf pool messageType d → d.name.chars ∈ rs.names)
    (hcolumns' : ∀ d, HasLeaf pool messageType d → d.name.chars ∈ rs'.names) :
    Isolated pool stray stack messageType request request' rs rs'
      ↔ rs.rows = [] ∧ rs'.rows = []
        ∨ Fits pool stack messageType
          ∧ ((∃ (k : ℕ) (row : List Column), rs.rows[k]? = some row ∧ rs'.rows[k]? = some row) →
            residue pool stack messageType request = residue pool stack messageType request') := by
  have hresult : Fits pool stack messageType → ∀ (record : Message) (rs : ResultSet),
      (∀ d, HasLeaf pool messageType d → d.name.chars ∈ rs.names) →
        parseEntityResult pool stray stack messageType record rs.rows
          = .ok (fillRows pool stray stack messageType record rs.rows) := by
    rintro ⟨ws, hws, hlen, hfixed⟩ record rs hall
    exact parseEntityResult_fills stray hws hlen hfixed rs (fun d hd _ => hall d hd) record
  constructor
  · rintro ⟨records, records', hparse, hparse', hlen, hlen', hsame⟩
    by_cases hnil : rs.rows = [] ∧ rs'.rows = []
    · exact .inl hnil
    · have hfits : Fits pool stack messageType := by
        by_cases hrows : rs.rows = []
        · exact fits_of_parse hparse' fun h => hnil ⟨hrows, h⟩
        · exact fits_of_parse hparse hrows
      refine .inr ⟨hfits, ?_⟩
      rintro ⟨k, row, hk, hk'⟩
      rw [hresult hfits request rs hcolumns, Except.ok.injEq] at hparse
      rw [hresult hfits request' rs' hcolumns', Except.ok.injEq] at hparse'
      subst hparse
      subst hparse'
      have hget : ∀ {xs : List Message} {rows : List (List Column)}, xs.length = rows.length →
          rows[k]? = some row → ∃ r, xs[k]? = some r := by
        intro xs rows hlength hrow
        have hlt : k < xs.length := by
          rw [hlength]
          exact (List.getElem?_eq_some_iff.mp hrow).1
        exact ⟨_, List.getElem?_eq_getElem hlt⟩
      obtain ⟨r, hr⟩ := hget hlen hk
      obtain ⟨r', hr'⟩ := hget hlen' hk'
      have hwritten := hsame k row r r' hk hk' hr hr'
      obtain ⟨row₁, m, hrow₁, hm, hresidue, rfl⟩ := fillRows_get stray stack hrequest hr
      obtain ⟨row₂, m', hrow₂, hm', hresidue', rfl⟩ := fillRows_get stray stack hrequest' hr'
      rw [hk] at hrow₁
      rw [hk'] at hrow₂
      cases hrow₁
      cases hrow₂
      rw [← hresidue, ← hresidue']
      exact (written_fill_iff stray row stack messageType hm hm').mp hwritten
  · rintro (⟨hnil, hnil'⟩ | ⟨hfits, hresidues⟩)
    · refine ⟨[], [], by rw [hnil]; rfl, by rw [hnil']; rfl, by rw [hnil]; rfl, by rw [hnil']; rfl,
        fun k row r r' hk => ?_⟩
      rw [hnil] at hk
      cases hk
    · refine ⟨_, _, hresult hfits request rs hcolumns, hresult hfits request' rs' hcolumns',
        length_fillRows stray stack messageType request rs.rows,
        length_fillRows stray stack messageType request' rs'.rows, ?_⟩
      intro k row r r' hk hk' hr hr'
      obtain ⟨row₁, m, hrow₁, hm, hresidue, rfl⟩ := fillRows_get stray stack hrequest hr
      obtain ⟨row₂, m', hrow₂, hm', hresidue', rfl⟩ := fillRows_get stray stack hrequest' hr'
      rw [hk] at hrow₁
      rw [hk'] at hrow₂
      cases hrow₁
      cases hrow₂
      refine (written_fill_iff stray row stack messageType hm hm').mpr ?_
      rw [hresidue, hresidue']
      exact hresidues ⟨k, row, hk, hk'⟩

/-! ### Unknown fields -/

/-- A place for unknown fields takes no entry of `arrIndex`. -/
lemma slots_withUnknown (pool : Pool) (stack : ℕ) :
    slots pool.withUnknown stack = slots pool stack := by
  have hloop : ∀ (sub : Text → Option (List FieldDecl)) (ds : List FieldDecl),
      slotLoop sub (ds ++ [.repeated unknownFields]) = slotLoop sub ds := by
    intro sub ds
    induction ds with
    | nil => rfl
    | cons d ds ih =>
        rw [List.cons_append]
        cases d with
        | leaf d => rw [slotLoop, slotLoop, ih]
        | message f => rw [slotLoop, slotLoop, ih]
        | repeated name => rw [slotLoop, slotLoop, ih]
        | repeatedMessage f => rw [slotLoop, slotLoop, ih]
  induction stack with
  | zero => rfl
  | succ stack ih =>
      funext messageType
      rw [slots, slots, ih]
      exact hloop _ _

/-- It is no singular field either. -/
lemma HasLeaf.of_withUnknown {pool : Pool} {messageType : Text} {d : FieldDescriptor}
    (h : HasLeaf pool.withUnknown messageType d) : HasLeaf pool messageType d := by
  induction h with
  | here h => exact .here (by simpa [Pool.withUnknown] using h)
  | inside h _ ih => exact .inside (by simpa [Pool.withUnknown] using h) ih

/-- An account with unknown fields. -/
def unknownAccount (idValue levelValue : BitVec 32) (fields : List Text) : Message :=
  (accountEntity idValue levelValue).withUnknown fields

/-- The type of accounts with a rank. -/
def rankPool : Pool := fun _ => [.leaf (.ofInt32 accountId), .leaf rank]

/-- A request for an account with a rank. -/
def rankRequest (number : BitVec 32) (fields : List Text) : Message :=
  Message.withUnknown [.leaf (.ofInt32 accountId 0), .leaf (rankLeaf number)] fields

end PbEntityDb
