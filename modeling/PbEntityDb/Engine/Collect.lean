import PbEntityDb.Proto.Message

/-!
The walks of the engine over a message.

* `collectEntityInputParams` collects the present fields that a key or a set
  column names, `collectEntitySetFields` the names of the present fields that
  are no keys, and `validateKey` is the first loop of `ParseSelect`.
* `collectEntityInputParams_eq` and `collectEntitySetFields_eq` say that the
  two recursive walks visit the leaves of the message, in their order.
* `keyLeaves` and `setLeaves` are the leaves of the two lists; with the set
  columns of the second walk the first one finds exactly these
  (`collectEntityInputParams_setFields`).
-/

namespace PbEntityDb

/-! ### The loops over the name lists -/

/-- The loop over `vInKey` or `vInSet` in `CollectEntityInputParams`: it stops
at the first name that is the field's. -/
def emplaceNamed (l : Leaf) (vOut : List Leaf) : List Name → List Leaf
  | [] => vOut
  | it :: names => if it = l.name then vOut ++ [l] else emplaceNamed l vOut names

/-- The loop for `bIsKey` in `CollectEntitySetFields`. -/
def isKey (sName : Name) : List Name → Bool
  | [] => false
  | it :: vInKey => if it = sName then true else isKey sName vInKey

/-- The loop over `vInKey` in `ParseSelect`, which has no `break`. -/
def pushNamed (sName : Name) (vValidKey : List Name) : List Name → List Name
  | [] => vValidKey
  | sKey :: vInKey =>
      pushNamed sName (if sKey = sName then vValidKey ++ [sKey] else vValidKey) vInKey

lemma emplaceNamed_eq (l : Leaf) (vOut : List Leaf) (names : List Name) :
    emplaceNamed l vOut names = if l.name ∈ names then vOut ++ [l] else vOut := by
  induction names with
  | nil => rfl
  | cons it names ih =>
      by_cases h : it = l.name
      · simp [emplaceNamed, h]
      · simp [emplaceNamed, h, ih, Ne.symm h]

lemma isKey_eq (sName : Name) (vInKey : List Name) :
    isKey sName vInKey = decide (sName ∈ vInKey) := by
  induction vInKey with
  | nil => rfl
  | cons it vInKey ih =>
      by_cases h : it = sName
      · simp [isKey, h]
      · simp [isKey, h, ih, Ne.symm h]

lemma pushNamed_eq (sName : Name) (vValidKey vInKey : List Name) :
    pushNamed sName vValidKey vInKey = vValidKey ++ vInKey.filter (· = sName) := by
  induction vInKey generalizing vValidKey with
  | nil => simp [pushNamed]
  | cons sKey vInKey ih => by_cases h : sKey = sName <;> simp [pushNamed, h, ih]

/-! ### The walks -/

mutual

/-- One field in the loop of `CollectEntityInputParams`. -/
def Field.collectEntityInputParams (vInKey vInSet : List Name) :
    Field → List Leaf × List Leaf → List Leaf × List Leaf
  | .leaf l, (vOutKeyParam, vOutSetParam) =>
      if l.hasField then
        (emplaceNamed l vOutKeyParam vInKey, emplaceNamed l vOutSetParam vInSet)
      else (vOutKeyParam, vOutSetParam)
  | .unset _, out => out
  | .message _ sub, out => collectEntityInputParams vInKey vInSet sub out
  | .repeated _ _, out => out
  | .repeatedMessage _ _, out => out

/-- `Protobuf2DbEngine::CollectEntityInputParams`. -/
def collectEntityInputParams (vInKey vInSet : List Name) :
    List Field → List Leaf × List Leaf → List Leaf × List Leaf
  | [], out => out
  | f :: rest, out =>
      collectEntityInputParams vInKey vInSet rest (f.collectEntityInputParams vInKey vInSet out)

end

mutual

/-- One field in the loop of `CollectEntitySetFields`. -/
def Field.collectEntitySetFields (vInKey : List Name) : Field → List Name → List Name
  | .leaf l, vOut =>
      if l.hasField then (if isKey l.name vInKey then vOut else vOut ++ [l.name]) else vOut
  | .unset _, vOut => vOut
  | .message _ sub, vOut => collectEntitySetFields vInKey sub vOut
  | .repeated _ _, vOut => vOut
  | .repeatedMessage _ _, vOut => vOut

/-- `Protobuf2DbEngine::CollectEntitySetFields`. -/
def collectEntitySetFields (vInKey : List Name) : List Field → List Name → List Name
  | [], vOut => vOut
  | f :: rest, vOut =>
      collectEntitySetFields vInKey rest (f.collectEntitySetFields vInKey vOut)

end

/-- A field is not repeated and present. -/
def Field.isPresent : Field → Bool
  | .leaf l => l.hasField
  | .unset _ => false
  | .message _ _ => true
  | .repeated _ _ => false
  | .repeatedMessage _ _ => false

/-- The first loop of `ParseSelect`, over the fields of the entity itself. -/
def validateKey (vInKey : List Name) : List Field → List Name → List Name
  | [], vValidKey => vValidKey
  | f :: rest, vValidKey =>
      validateKey vInKey rest
        (if f.isPresent then pushNamed f.name vValidKey vInKey else vValidKey)

/-! ### What the walks collect -/

/-- The leaves that a list of names names. -/
def leavesNamed (names : List Name) (m : Message) : List Leaf :=
  (leaves m).filter fun l => l.name ∈ names

/-- The leaves that are keys. -/
abbrev keyLeaves (vInKey : List Name) (m : Message) : List Leaf := leavesNamed vInKey m

/-- The leaves that are no keys. -/
def setLeaves (vInKey : List Name) (m : Message) : List Leaf :=
  (leaves m).filter fun l => l.name ∉ vInKey

lemma leavesNamed_leaf (names : List Name) (l : Leaf) (m : Message) :
    leavesNamed names (.leaf l :: m)
      = (if l.hasField ∧ l.name ∈ names then [l] else []) ++ leavesNamed names m := by
  by_cases h : l.hasField = true
  · by_cases hn : l.name ∈ names <;> simp [leavesNamed, h, hn]
  · simp [leavesNamed, h]

lemma leavesNamed_message (names : List Name) (f : MessageField) (sub m : Message) :
    leavesNamed names (.message f sub :: m) = leavesNamed names sub ++ leavesNamed names m := by
  simp [leavesNamed]

/-- **The walk collects the named leaves**, in the order of the leaves. -/
theorem collectEntityInputParams_eq (vInKey vInSet : List Name) (m : Message)
    (out : List Leaf × List Leaf) :
    collectEntityInputParams vInKey vInSet m out
      = (out.1 ++ leavesNamed vInKey m, out.2 ++ leavesNamed vInSet m) := by
  induction m using Message.ind generalizing out with
  | nil => simp [collectEntityInputParams, leavesNamed]
  | leaf l rest ih =>
      rw [collectEntityInputParams, ih, leavesNamed_leaf, leavesNamed_leaf,
        Field.collectEntityInputParams]
      by_cases h : l.hasField = true
      · by_cases hk : l.name ∈ vInKey <;> by_cases hs : l.name ∈ vInSet <;>
          simp [h, hk, hs, emplaceNamed_eq]
      · simp [h]
  | unset f rest ih =>
      rw [collectEntityInputParams, ih]
      simp [Field.collectEntityInputParams, leavesNamed]
  | message f sub rest ihs ihr =>
      rw [collectEntityInputParams, Field.collectEntityInputParams, ihs, ihr, leavesNamed_message,
        leavesNamed_message, List.append_assoc, List.append_assoc]
  | repeated name values rest ih =>
      rw [collectEntityInputParams, ih]
      simp [Field.collectEntityInputParams, leavesNamed]
  | repeatedMessage f elems rest ih =>
      rw [collectEntityInputParams, ih]
      simp [Field.collectEntityInputParams, leavesNamed]

/-- **The walk for the set columns names the leaves that are no keys.** -/
theorem collectEntitySetFields_eq (vInKey : List Name) (m : Message) (vOut : List Name) :
    collectEntitySetFields vInKey m vOut = vOut ++ (setLeaves vInKey m).map Leaf.name := by
  induction m using Message.ind generalizing vOut with
  | nil => simp [collectEntitySetFields, setLeaves]
  | leaf l rest ih =>
      rw [collectEntitySetFields, ih, Field.collectEntitySetFields]
      by_cases h : l.hasField = true
      · by_cases hk : l.name ∈ vInKey <;> simp [h, hk, isKey_eq, setLeaves]
      · simp [h, setLeaves]
  | unset f rest ih =>
      rw [collectEntitySetFields, ih]
      simp [Field.collectEntitySetFields, setLeaves]
  | message f sub rest ihs ihr =>
      rw [collectEntitySetFields, Field.collectEntitySetFields, ihs, ihr]
      simp [setLeaves]
  | repeated name values rest ih =>
      rw [collectEntitySetFields, ih]
      simp [Field.collectEntitySetFields, setLeaves]
  | repeatedMessage f elems rest ih =>
      rw [collectEntitySetFields, ih]
      simp [Field.collectEntitySetFields, setLeaves]

/-- The names of the set columns name the leaves that are no keys. -/
lemma leavesNamed_setLeaves (vInKey : List Name) (m : Message) :
    leavesNamed ((setLeaves vInKey m).map Leaf.name) m = setLeaves vInKey m := by
  rw [leavesNamed, setLeaves]
  refine List.filter_congr fun l hl => ?_
  rw [decide_eq_decide, List.mem_map]
  refine ⟨?_, fun h => ⟨l, List.mem_filter.mpr ⟨hl, by simpa using h⟩, rfl⟩⟩
  rintro ⟨l', hl', hname⟩
  rw [← hname]
  simpa using (List.mem_filter.mp hl').2

/-- **The two walks agree on the set columns.** -/
theorem collectEntityInputParams_setFields (vInKey : List Name) (m : Message) :
    collectEntityInputParams vInKey (collectEntitySetFields vInKey m []) m ([], [])
      = (keyLeaves vInKey m, setLeaves vInKey m) := by
  rw [collectEntityInputParams_eq, collectEntitySetFields_eq, List.nil_append, List.nil_append,
    List.nil_append, leavesNamed_setLeaves]

lemma leavesNamed_nil (m : Message) : leavesNamed [] m = [] := by simp [leavesNamed]

/-- Every key that passes the validation is one of the keys. -/
lemma mem_validateKey {vInKey : List Name} {m : Message} {k : Name} :
    k ∈ validateKey vInKey m []
      ↔ k ∈ vInKey ∧ ∃ f ∈ m, f.isPresent = true ∧ f.name = k := by
  have hgen : ∀ (m : Message) (acc : List Name), k ∈ validateKey vInKey m acc
      ↔ k ∈ acc ∨ k ∈ vInKey ∧ ∃ f ∈ m, f.isPresent = true ∧ f.name = k := by
    intro m
    induction m with
    | nil => simp [validateKey]
    | cons f rest ih =>
        intro acc
        rw [validateKey, ih]
        by_cases hp : f.isPresent = true
        · rw [if_pos hp, pushNamed_eq]
          simp only [List.mem_append, List.mem_filter, decide_eq_true_eq, List.mem_cons,
            exists_eq_or_imp, hp, true_and]
          constructor
          · rintro ((h | ⟨h, rfl⟩) | ⟨h, hf⟩)
            · exact .inl h
            · exact .inr ⟨h, .inl rfl⟩
            · exact .inr ⟨h, .inr hf⟩
          · rintro (h | ⟨h, rfl | hf⟩)
            · exact .inl (.inl h)
            · exact .inl (.inr ⟨h, rfl⟩)
            · exact .inr ⟨h, hf⟩
        · simp [hp]
  simpa using hgen m []

end PbEntityDb
