import PbEntityDb.Format.Truncation
import PbEntityDb.Sql.Builder

/-!
The formats of the statement builders.

The builders call `o_snprintf` with formats that have no conversion but `%s`. The model
of the builders takes the text apart into what is in front of an array and what is cut
off; here both are what the formatter does.

* `stringItems` reads such a format, `substituted` is the text it stands for, and
  `printed` is `truncated` for these formats.
* `Statement.call` is the call of each builder, with its format as the source has it.
* `procStores` is what `PrepareStoredProcCall` stores, with the placeholders behind the
  text that `o_snprintf` leaves.
* `sent_printed`: **the builders leave the text that the database is sent**.
-/

namespace PbEntityDb.Format

open Buffer

/-! ### Formats with strings -/

/-- The block for `%s`. -/
def stringItem (s : CString) : Item :=
  .conversion ⟨[], .none, .none, .none, .string (some s)⟩

/-- The items of a format that has only literal characters and `%s`. -/
def stringItems : Text → List CString → Option (List Item)
  | [], [] => some []
  | [], _ :: _ => none
  | '%' :: 's' :: f, s :: args => (stringItems f args).map (stringItem s :: ·)
  | c :: f, args =>
      if h : c ≠ '%' ∧ c ≠ '\x00' then (stringItems f args).map (.literal c h :: ·) else none

/-- The text that such a format stands for. -/
def substituted : Text → List CString → Text
  | '%' :: 's' :: f, s :: args => s.chars ++ substituted f args
  | c :: f, args => c :: substituted f args
  | [], _ => []

/-- What `stringItems` reads. -/
lemma stringItems_spec (abi : Abi) {f : Text} {args : List CString} {items : List Item}
    (h : stringItems f args = some items) :
    (formatOf items).chars = f ∧ argsOf items = args.map (fun s => .string (some s)) ∧
      texts abi .none items = .ok (substituted f args) ∧ ∀ item ∈ items, item.NotThree := by
  induction f, args using stringItems.induct generalizing items with
  | case1 =>
      obtain rfl := Option.some.inj h
      exact ⟨rfl, rfl, rfl, fun _ hitem => absurd hitem List.not_mem_nil⟩
  | case2 => cases h
  | case3 f s args ih =>
      rw [stringItems] at h
      obtain ⟨rest, hrest, rfl⟩ := Option.map_eq_some_iff.mp h
      obtain ⟨hf, hargs, htexts, hno⟩ := ih hrest
      refine ⟨?_, ?_, ?_, List.forall_mem_cons.mpr ⟨trivial, hno⟩⟩
      · change '%' :: 's' :: (formatOf rest).chars = _
        rw [hf]
      · change .string (some s) :: argsOf rest = _
        rw [hargs, List.map_cons]
      · rw [texts, substituted]
        change (texts abi .none rest).bind (fun t => .ok (s.chars ++ t)) = _
        rw [htexts]
        rfl
  | case4 c f args hno hc ih =>
      rw [stringItems.eq_4 _ _ _ hno, dif_pos hc] at h
      obtain ⟨rest, hrest, rfl⟩ := Option.map_eq_some_iff.mp h
      obtain ⟨hf, hargs, htexts, hnothree⟩ := ih hrest
      refine ⟨?_, ?_, ?_, List.forall_mem_cons.mpr ⟨trivial, hnothree⟩⟩
      · change c :: (formatOf rest).chars = _
        rw [hf]
      · exact hargs
      · rw [texts, substituted.eq_2 _ _ _ hno]
        change (texts abi .none rest).bind (fun t => .ok (c :: t)) = _
        rw [htexts]
        rfl
  | case5 c f args hno hc =>
      rw [stringItems.eq_4 _ _ _ hno, dif_neg hc] at h
      cases h

/-- **What a call with such a format leaves.** -/
theorem printed (abi : Abi) {format : CString} {args : List CString}
    (h : (stringItems format.chars args).isSome) {buf : Text} (hbuf : 0 < buf.length) :
    ∃ rest len, vsnprintf abi buf format (args.map fun s => .string (some s))
      = .ok ⟨(substituted format.chars args).take (buf.length - 1) ++ '\x00' :: rest, len,
          false⟩ := by
  obtain ⟨items, hitems⟩ := Option.isSome_iff_exists.mp h
  obtain ⟨hf, hargs, htexts, hno⟩ := stringItems_spec abi hitems
  obtain ⟨rest, len, hcall, -⟩ := vsnprintf_cut hno htexts hbuf []
  have hformat : formatOf items = format := by
    cases format
    cases hf
    rfl
  rw [hformat, hargs, List.append_nil] at hcall
  exact ⟨rest, len, hcall⟩

/-! ### The calls of the builders -/

/-- The format and the arguments of an `o_snprintf`. -/
structure SqlCall where
  format : CString
  args : List CString

/-- The text of a call. -/
def SqlCall.text (call : SqlCall) : Text := substituted call.format.chars call.args

/-- The call has a format that `stringItems` reads. -/
def SqlCall.Strings (call : SqlCall) : Prop := (stringItems call.format.chars call.args).isSome

/-- The call of `PrepareSelect`. -/
def selectCall (sTableName chClause : CString) : SqlCall :=
  if chClause.chars = [] then ⟨⟨"SELECT * FROM `%s`".toList, by decide⟩, [sTableName]⟩
  else ⟨⟨"SELECT * FROM `%s` WHERE %s".toList, by decide⟩, [sTableName, chClause]⟩

/-- The call of `PrepareInsert`. -/
def insertCall (sTableName chField chPlaceholder chDuplicate : CString) : SqlCall :=
  if chDuplicate.chars = [] then
    ⟨⟨"INSERT INTO `%s` (%s) VALUES (%s)".toList, by decide⟩, [sTableName, chField, chPlaceholder]⟩
  else
    ⟨⟨"INSERT INTO `%s` (%s) VALUES (%s) ON DUPLICATE KEY UPDATE %s ".toList, by decide⟩,
      [sTableName, chField, chPlaceholder, chDuplicate]⟩

/-- The call of `PrepareUpdate`. -/
def updateCall (sTableName chField chClause : CString) : SqlCall :=
  if chClause.chars = [] then
    ⟨⟨"UPDATE `%s` SET %s".toList, by decide⟩, [sTableName, chField]⟩
  else
    ⟨⟨"UPDATE `%s` SET %s WHERE %s".toList, by decide⟩, [sTableName, chField, chClause]⟩

/-- The call of `PrepareDelete`. -/
def deleteCall (sTableName chClause : CString) : SqlCall :=
  if chClause.chars = [] then ⟨⟨"DELETE FROM `%s`".toList, by decide⟩, [sTableName]⟩
  else ⟨⟨"DELETE FROM `%s` WHERE %s".toList, by decide⟩, [sTableName, chClause]⟩

/-- The call of `PrepareStoredProcCall`. -/
def procCall (sStoredProcName : CString) : SqlCall :=
  ⟨⟨"CALL %s (".toList, by decide⟩, [sStoredProcName]⟩

section Calls

variable (a b c d : CString)

lemma selectCall_strings : (selectCall a b).Strings := by
  rw [SqlCall.Strings, selectCall]
  split <;> rfl

lemma insertCall_strings : (insertCall a b c d).Strings := by
  rw [SqlCall.Strings, insertCall]
  split <;> rfl

lemma updateCall_strings : (updateCall a b c).Strings := by
  rw [SqlCall.Strings, updateCall]
  split <;> rfl

lemma deleteCall_strings : (deleteCall a b).Strings := by
  rw [SqlCall.Strings, deleteCall]
  split <;> rfl

lemma procCall_strings : (procCall a).Strings := by
  unfold SqlCall.Strings procCall
  rfl

end Calls

/-! ### The arguments of the calls -/

lemma Name.nul_free (k : Name) : '\x00' ∉ k.chars := fun h => by
  have := k.plain _ h
  simp [nameChar] at this

/-- A name as a C string. -/
def nameString (k : Name) : CString := ⟨k.chars, Name.nul_free k⟩

lemma quoted_nul_free (k : Name) : '\x00' ∉ quoted k := by
  rw [quoted, List.mem_cons, List.mem_append, List.mem_singleton, not_or, not_or]
  exact ⟨by decide, Name.nul_free k, by decide⟩

lemma assignment_nul_free (k : Name) : '\x00' ∉ assignment k := by
  rw [assignment, List.mem_append, not_or]
  exact ⟨quoted_nul_free k, by decide⟩

lemma duplicate_nul_free (k : Name) : '\x00' ∉ duplicate k := by
  rw [duplicate, List.mem_append, List.mem_append, List.mem_append, not_or, not_or, not_or]
  exact ⟨⟨⟨quoted_nul_free k, by decide⟩, quoted_nul_free k⟩, by decide⟩

/-- `chClause`. -/
def clauseString (vKey : List Name) : CString :=
  ⟨Statement.clauseText vKey, notMem_sepBy (by decide) assignment_nul_free false vKey⟩

/-- `chField` of `PrepareInsert`. -/
def fieldString (columns : List Name) : CString :=
  ⟨Statement.fieldText columns, notMem_sepBy (by decide) quoted_nul_free false columns⟩

/-- `chPlaceholder`. -/
def placeholderString (n : ℕ) : CString :=
  ⟨Statement.placeholderText n, notMem_sepBy (by decide) (fun _ => by decide) false _⟩

/-- `chDuplicate`. -/
def duplicateString (columns : List Name) : CString :=
  ⟨Statement.duplicateText columns, notMem_sepBy (by decide) duplicate_nul_free false columns⟩

/-- `chField` of `PrepareUpdate`. -/
def assignString (vSet : List Name) : CString :=
  ⟨Statement.assignText vSet, notMem_sepBy (by decide) assignment_nul_free false vSet⟩

/-- The call of the builder of a statement. -/
def statementCall (sTableName : Name) : Statement → SqlCall
  | .select vKey => selectCall (nameString sTableName) (clauseString vKey)
  | .insert vKey vSet =>
      insertCall (nameString sTableName) (fieldString (vKey ++ vSet))
        (placeholderString (vKey.length + vSet.length))
        (duplicateString (duplicateColumns vKey vSet))
  | .update vKey vSet =>
      updateCall (nameString sTableName) (assignString vSet) (clauseString vKey)
  | .delete vKey => deleteCall (nameString sTableName) (clauseString vKey)

/-! ### The text that is sent -/

lemma selectCall_text (t : Name) (clause : CString) :
    (selectCall (nameString t) clause).text = selectFormat t clause.chars := by
  rw [SqlCall.text, selectCall, selectFormat]
  split <;> simp [substituted, nameString, quoted, backquote]

lemma insertCall_text (t : Name) (field placeholder dup : CString) :
    (insertCall (nameString t) field placeholder dup).text
      = insertFormat t field.chars placeholder.chars dup.chars := by
  rw [SqlCall.text, insertCall, insertFormat]
  split <;> simp [substituted, nameString, quoted, backquote]

lemma updateCall_text (t : Name) (field clause : CString) :
    (updateCall (nameString t) field clause).text = updateFormat t field.chars clause.chars := by
  rw [SqlCall.text, updateCall, updateFormat]
  split <;> simp [substituted, nameString, quoted, backquote]

lemma deleteCall_text (t : Name) (clause : CString) :
    (deleteCall (nameString t) clause).text = deleteFormat t clause.chars := by
  rw [SqlCall.text, deleteCall, deleteFormat]
  split <;> simp [substituted, nameString, quoted, backquote]

lemma procCall_text (k : CString) :
    (procCall k).text = "CALL ".toList ++ k.chars ++ " (".toList := by
  unfold SqlCall.text procCall
  simp [substituted]

lemma statementCall_strings (t : Name) (st : Statement) : (statementCall t st).Strings := by
  cases st with
  | select => exact selectCall_strings _ _
  | insert => exact insertCall_strings _ _ _ _
  | update => exact updateCall_strings _ _ _
  | delete => exact deleteCall_strings _ _

lemma statementCall_text (t : Name) (st : Statement) : (statementCall t st).text = st.text t := by
  cases st with
  | select => exact selectCall_text t _
  | insert => exact insertCall_text t _ _ _
  | update => exact updateCall_text t _ _
  | delete => exact deleteCall_text t _

lemma ProcName.nul_free (k : ProcName) : '\x00' ∉ k.chars := fun h => by
  rcases k.identifier _ h with hchar | hchar
  · cases hchar
  · cases hchar

/-- The name of a stored procedure as a C string. -/
def procString (k : ProcName) : CString := ⟨k.chars, ProcName.nul_free k⟩

/-- What `o_snprintf` leaves in `_sql`. -/
def SqlCall.Leaves (abi : Abi) (call : SqlCall) (sql t : Text) : Prop :=
  ∃ rest len, vsnprintf abi sql call.format (call.args.map fun s => .string (some s))
    = .ok ⟨t ++ '\x00' :: rest, len, false⟩

lemma SqlCall.Strings.leaves {call : SqlCall} (h : call.Strings) (abi : Abi) {sql : Text}
    (hsql : sql.length = bufferSize) : call.Leaves abi sql (snprintfSql call.text) := by
  obtain ⟨rest, len, hcall⟩ := printed abi h (show 0 < sql.length by rw [hsql]; decide)
  rw [hsql] at hcall
  exact ⟨rest, len, hcall⟩

/-- What `PrepareStoredProcCall` does to `_sql`: the head, and the stores behind it, which
no one checks. -/
def procStores (abi : Abi) (sql : Text) (sStoredProcName : ProcName) (nParamsCount : ℕ) :
    Except Undefined Text := do
  let call := procCall (procString sStoredProcName)
  let r ← vsnprintf abi sql call.format (call.args.map fun s => .string (some s))
  -- `p += strlen(_sql)`
  let p := (r.buf.takeWhile (· ≠ '\x00')).length
  let out ← Output.copy ⟨r.buf, p⟩ (Statement.placeholderText nParamsCount ++ [')', '\x00'])
  .ok out.buf

/-- The stores are behind the first NUL. -/
lemma procStores_eq (abi : Abi) {sql : Text} (hsql : sql.length = bufferSize) (k : ProcName)
    (n : ℕ) : ∃ rest, (snprintfSql (callHead k)).length + (rest.length + 1) = bufferSize ∧
      procStores abi sql k n
        = ((Output.holding (snprintfSql (callHead k)) ('\x00' :: rest)).copy
            (Statement.placeholderText n ++ [')', '\x00'])).map Output.buf := by
  have htext : (procCall (procString k)).text = callHead k := procCall_text (procString k)
  obtain ⟨rest, len, hcall⟩ := (procCall_strings (procString k)).leaves abi hsql
  rw [htext] at hcall
  have hlength : (snprintfSql (callHead k) ++ '\x00' :: rest).length = sql.length := by
    have hpos : 0 < sql.length := by rw [hsql]; decide
    have hvs := vsnprintf_avoids abi hpos (procCall (procString k)).format
      ((procCall (procString k)).args.map fun s => .string (some s))
    rw [hcall] at hvs
    exact (hvs.result _ rfl).1
  refine ⟨rest, ?_, ?_⟩
  · rw [← hsql, ← hlength, List.length_append, List.length_cons]
  · have hfree : ∀ c ∈ snprintfSql (callHead k), decide (c ≠ '\x00') = true := by
      intro c hc
      have hhead : '\x00' ∉ callHead k := by
        rw [callHead, List.mem_append, List.mem_append, not_or, not_or]
        exact ⟨⟨by decide, ProcName.nul_free k⟩, by decide⟩
      rw [decide_eq_true_iff]
      rintro rfl
      exact hhead (List.mem_of_mem_take hc)
    have hp : ((snprintfSql (callHead k) ++ '\x00' :: rest).takeWhile (· ≠ '\x00')).length
        = (snprintfSql (callHead k)).length := by
      rw [List.takeWhile_append_of_pos hfree, List.takeWhile_cons_of_neg (by simp),
        List.append_nil]
    rw [procStores]
    dsimp only
    rw [hcall]
    change (Output.copy ⟨_, _⟩ _).bind _ = _
    rw [hp]
    rfl

/-- **The builders leave in `_sql` the text that is sent**, whatever stood there before.
The call of a procedure is there as a whole, or a store is behind the array. -/
theorem sent_printed (abi : Abi) {sql : Text} (hsql : sql.length = bufferSize) :
    (∀ (t : Name) (st : Statement), (statementCall t st).Leaves abi sql (st.sent t)) ∧
      ∀ (k : ProcName) (n : ℕ),
        if (callText k n).length < bufferSize then
          ∃ rest, procStores abi sql k n = .ok (callText k n ++ '\x00' :: rest)
        else procStores abi sql k n = .error .store := by
  constructor
  · intro t st
    have hleaves := (statementCall_strings t st).leaves abi hsql
    rwa [statementCall_text] at hleaves
  · intro k n
    obtain ⟨rest, hlength, hstores⟩ := procStores_eq abi hsql k n
    have hcall : (callText k n).length
        = (callHead k).length + (Statement.placeholderText n).length + 1 := by
      rw [callText, List.length_append, List.length_append]
      rfl
    have hhead : (snprintfSql (callHead k)).length = min (bufferSize - 1) (callHead k).length :=
      List.length_take
    have hend : (Statement.placeholderText n ++ [')', '\x00']).length
        = (Statement.placeholderText n).length + 2 := by
      rw [List.length_append]
      rfl
    split_ifs with hfits
    · have hwhole : snprintfSql (callHead k) = callHead k := List.take_of_length_le (by omega)
      rw [hwhole] at hlength hstores
      rw [hstores, Output.copy_holding _ _ (by rw [List.length_cons]; omega)]
      refine ⟨('\x00' :: rest).drop (Statement.placeholderText n ++ [')', '\x00']).length, ?_⟩
      refine congrArg Except.ok ?_
      simp only [callText, Output.holding, List.append_assoc]
      rfl
    · rw [hstores, Output.copy_holding_error _ _ (by rw [List.length_cons]; omega)]
      rfl

/-- A table with a short name. -/
def shortTable : Name := ⟨['t'], List.all_eq_true.mp rfl⟩

/-- Its select, in an array of zeros. -/
theorem sent_printed_select :
    (statementCall shortTable (.select [])).Leaves .lp64 (List.replicate bufferSize '\x00')
      (Statement.sent shortTable (.select [])) :=
  (sent_printed .lp64 List.length_replicate).1 shortTable (.select [])

end PbEntityDb.Format
