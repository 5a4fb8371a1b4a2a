import PbEntityDb.Basic

/-!
A connection of libzdb, over its delegate for MySQL.

* `MysqlConnection`: what the delegate remembers.
* `Connection` with the functions of `Connection.c`; what the server answers is an
  argument of each function that asks it.
* `Use`: the calls that the holder of a connection makes.
* `Connection.Clean`: nothing is left over from a holder. `clean_giveBack`: the
  first half of `ConnectionPool_returnConnection` leaves a clean connection,
  whatever was done to it and whether or not the server could roll back.
-/

namespace PbEntityDb.Zdb

/-- `SQL_DEFAULT_TIMEOUT`. -/
def sqlDefaultTimeout : ℤ := 3000

/-- What the server answers to a statement: nothing to report, or the text of
`mysql_error`. -/
abbrev Answer := Except Text Unit

/-- `Connection_getLastError`, for the text that the delegate has. -/
def getLastError (s : Text) : Text := if s ≠ [] then s else ['?']

/-! ### The delegate -/

/-- The delegate of a connection. -/
structure MysqlConnection where
  maxRows : ℤ := 0
  timeout : ℤ := sqlDefaultTimeout
  deriving DecidableEq, Repr

/-! ### The connection -/

/-- `Connection_S`. The number `id` tells one connection from another; it is not the
address, which may be handed out again once the connection is freed. -/
structure Connection where
  id : ℕ
  maxRows : ℤ := 0
  timeout : ℤ := sqlDefaultTimeout
  isAvailable : Bool := true
  /-- the statements that are prepared, by their texts -/
  prepared : List Text := []
  isInTransaction : ℕ := 0
  lastAccessedTime : ℤ
  /-- the query that the open result set is of -/
  resultSet : Option Text := none
  D : MysqlConnection := {}
  deriving DecidableEq, Repr

namespace Connection

variable (C : Connection)

/-- `Connection_new`, behind a delegate that could connect. -/
def new (id : ℕ) (now : ℤ) : Connection where
  id := id
  lastAccessedTime := now

/-- `Connection_setAvailable`. -/
def setAvailable (now : ℤ) (isAvailable : Bool) : Connection :=
  { C with isAvailable := isAvailable, lastAccessedTime := now }

/-- `Connection_setQueryTimeout`. -/
def setQueryTimeout (ms : ℤ) : Connection := { C with timeout := ms, D.timeout := ms }

/-- `Connection_setMaxRows`. -/
def setMaxRows (max : ℤ) : Connection := { C with maxRows := max, D.maxRows := max }

/-- `ResultSet_free`, when there is a result set. -/
def freeResultSet : Connection := { C with resultSet := none }

/-- `_freePrepared`. -/
def freePrepared : Connection := { C with prepared := [] }

/-- The limits of `Connection_clear`. -/
def clearLimits : Connection :=
  let C := if C.maxRows ≠ 0 then C.setMaxRows 0 else C
  if C.timeout ≠ sqlDefaultTimeout then C.setQueryTimeout sqlDefaultTimeout else C

/-- `Connection_clear`. -/
def clear : Connection := C.freeResultSet.clearLimits.freePrepared

/-- `Connection_beginTransaction`. -/
def beginTransaction : Answer → Except Text Unit × Connection
  | .ok _ => (.ok (), { C with isInTransaction := C.isInTransaction + 1 })
  | .error e => (.error (getLastError e), C)

/-- `Connection_commit`: the counter is set back whatever the server answers. -/
def commit (a : Answer) : Except Text Unit × Connection :=
  (a.mapError getLastError, { C with isInTransaction := 0 })

/-- `Connection_rollback`. -/
def rollback (a : Answer) : Except Text Unit × Connection :=
  let C := if C.isInTransaction ≠ 0 then { C.clear with isInTransaction := 0 } else C
  (a.mapError getLastError, C)

/-- `Connection_execute`. -/
def execute (a : Answer) : Except Text Unit × Connection :=
  (a.mapError getLastError, C.freeResultSet)

/-- `Connection_executeQuery`. -/
def executeQuery (sql : Text) : Answer → Except Text Unit × Connection
  | .ok _ => (.ok (), { C with resultSet := some sql })
  | .error e => (.error (getLastError e), C.freeResultSet)

/-- `Connection_prepareStatement`. -/
def prepareStatement (sql : Text) : Answer → Except Text Unit × Connection
  | .ok _ => (.ok (), { C with prepared := C.prepared ++ [sql] })
  | .error e => (.error (getLastError e), C)

/-- `ConnectionPool_returnConnection` in front of its lock; what `Connection_rollback`
throws is caught there. -/
def giveBack (a : Answer) : Connection :=
  let C := if C.isInTransaction > 0 then (C.rollback a).2 else C
  C.clear

end Connection

/-! ### What a holder does -/

/-- A call that the holder of a connection makes, with the answer of the server. -/
inductive Use where
  | setQueryTimeout (ms : ℕ)
  | setMaxRows (max : ℤ)
  | beginTransaction (a : Answer)
  | commit (a : Answer)
  | rollback (a : Answer)
  | execute (a : Answer)
  | executeQuery (sql : Text) (a : Answer)
  | prepareStatement (sql : Text) (a : Answer)

namespace Connection

variable {C : Connection}

/-- What the holder gets from its call, and the connection behind it. -/
def use (C : Connection) : Use → Except Text Unit × Connection
  | .setQueryTimeout ms => (.ok (), C.setQueryTimeout ms)
  | .setMaxRows max => (.ok (), C.setMaxRows max)
  | .beginTransaction a => C.beginTransaction a
  | .commit a => C.commit a
  | .rollback a => C.rollback a
  | .execute a => C.execute a
  | .executeQuery sql a => C.executeQuery sql a
  | .prepareStatement sql a => C.prepareStatement sql a

@[simp]
lemma setAvailable_id (now : ℤ) (b : Bool) : (C.setAvailable now b).id = C.id := rfl

@[simp]
lemma setAvailable_isAvailable (now : ℤ) (b : Bool) : (C.setAvailable now b).isAvailable = b := rfl

@[simp]
lemma clearLimits_id : C.clearLimits.id = C.id := by
  simp only [clearLimits]
  split_ifs <;> rfl

@[simp]
lemma clearLimits_isAvailable : C.clearLimits.isAvailable = C.isAvailable := by
  simp only [clearLimits]
  split_ifs <;> rfl

@[simp]
lemma clear_id : C.clear.id = C.id := clearLimits_id

@[simp]
lemma clear_isAvailable : C.clear.isAvailable = C.isAvailable := clearLimits_isAvailable

lemma rollback_id (a : Answer) : (C.rollback a).2.id = C.id := by
  simp only [rollback]
  split_ifs
  · exact clear_id
  · rfl

lemma rollback_isAvailable (a : Answer) : (C.rollback a).2.isAvailable = C.isAvailable := by
  simp only [rollback]
  split_ifs
  · exact clear_isAvailable
  · rfl

/-- A holder has no hand in which connection it has. -/
@[simp]
lemma use_id (u : Use) : (C.use u).2.id = C.id := by
  cases u with
  | setQueryTimeout | setMaxRows | commit | execute => rfl
  | rollback a => exact rollback_id a
  | beginTransaction a | executeQuery _ a | prepareStatement _ a => cases a <;> rfl

/-- A holder does not make its connection available. -/
@[simp]
lemma use_isAvailable (u : Use) : (C.use u).2.isAvailable = C.isAvailable := by
  cases u with
  | setQueryTimeout | setMaxRows | commit | execute => rfl
  | rollback a => exact rollback_isAvailable a
  | beginTransaction a | executeQuery _ a | prepareStatement _ a => cases a <;> rfl

@[simp]
lemma giveBack_id (a : Answer) : (C.giveBack a).id = C.id := by
  simp only [giveBack, clear_id]
  split_ifs
  · exact rollback_id a
  · rfl

@[simp]
lemma giveBack_isAvailable (a : Answer) : (C.giveBack a).isAvailable = C.isAvailable := by
  simp only [giveBack, clear_isAvailable]
  split_ifs
  · exact rollback_isAvailable a
  · rfl

/-! ### Clean connections -/

/-- The delegate has the limits of its connection. -/
structure Synced (C : Connection) : Prop where
  maxRows : C.D.maxRows = C.maxRows
  timeout : C.D.timeout = C.timeout

/-- Nothing is left over from a holder. -/
structure Clean (C : Connection) : Prop where
  resultSet : C.resultSet = none
  prepared : C.prepared = []
  isInTransaction : C.isInTransaction = 0
  maxRows : C.maxRows = 0
  timeout : C.timeout = sqlDefaultTimeout

lemma synced_new (id : ℕ) (now : ℤ) : (new id now).Synced := ⟨rfl, rfl⟩

lemma clean_new (id : ℕ) (now : ℤ) : (new id now).Clean := ⟨rfl, rfl, rfl, rfl, rfl⟩

lemma Clean.setAvailable (h : C.Clean) (now : ℤ) (b : Bool) : (C.setAvailable now b).Clean :=
  ⟨h.resultSet, h.prepared, h.isInTransaction, h.maxRows, h.timeout⟩

lemma Synced.setAvailable (h : C.Synced) (now : ℤ) (b : Bool) : (C.setAvailable now b).Synced :=
  ⟨h.maxRows, h.timeout⟩

/-- `Connection_clear` sets a limit back only if the connection has another one, and
yet the delegate has the limits of the connection behind it. -/
lemma Synced.clearLimits (h : C.Synced) : C.clearLimits.Synced := by
  simp only [Connection.clearLimits]
  split_ifs
  · exact ⟨rfl, rfl⟩
  · exact ⟨rfl, h.timeout⟩
  · exact ⟨h.maxRows, rfl⟩
  · exact h

lemma Synced.clear (h : C.Synced) : C.clear.Synced := by
  have hfree : C.freeResultSet.Synced := ⟨h.maxRows, h.timeout⟩
  exact ⟨hfree.clearLimits.maxRows, hfree.clearLimits.timeout⟩

lemma Synced.rollback (h : C.Synced) (a : Answer) : (C.rollback a).2.Synced := by
  simp only [Connection.rollback]
  split_ifs
  · exact ⟨h.clear.maxRows, h.clear.timeout⟩
  · exact h

lemma Synced.use (h : C.Synced) (u : Use) : (C.use u).2.Synced := by
  cases u with
  | setQueryTimeout ms => exact ⟨h.maxRows, rfl⟩
  | setMaxRows max => exact ⟨rfl, h.timeout⟩
  | commit => exact ⟨h.maxRows, h.timeout⟩
  | rollback a => exact h.rollback a
  | execute a => exact ⟨h.maxRows, h.timeout⟩
  | beginTransaction a | executeQuery _ a | prepareStatement _ a =>
      cases a <;> exact ⟨h.maxRows, h.timeout⟩

lemma Synced.giveBack (h : C.Synced) (a : Answer) : (C.giveBack a).Synced := by
  simp only [Connection.giveBack]
  split_ifs
  · exact (h.rollback a).clear
  · exact h.clear

lemma clearLimits_eq :
    C.clearLimits.maxRows = 0 ∧ C.clearLimits.timeout = sqlDefaultTimeout ∧
      C.clearLimits.resultSet = C.resultSet ∧ C.clearLimits.prepared = C.prepared ∧
      C.clearLimits.isInTransaction = C.isInTransaction := by
  simp only [clearLimits]
  split_ifs with hrows htime htime
  · exact ⟨rfl, rfl, rfl, rfl, rfl⟩
  · exact ⟨rfl, not_not.mp htime, rfl, rfl, rfl⟩
  · exact ⟨not_not.mp hrows, rfl, rfl, rfl, rfl⟩
  · exact ⟨not_not.mp hrows, not_not.mp htime, rfl, rfl, rfl⟩

/-- `Connection_clear` leaves nothing over but a transaction. -/
lemma clean_clear (h : C.isInTransaction = 0) : C.clear.Clean := by
  obtain ⟨hrows, htime, hset, -, hcount⟩ := clearLimits_eq (C := C.freeResultSet)
  exact ⟨hset, rfl, hcount.trans h, hrows, htime⟩

/-- A rollback ends the count, if the server could roll back or not. -/
lemma rollback_isInTransaction (a : Answer) : (C.rollback a).2.isInTransaction = 0 := by
  simp only [rollback]
  split_ifs with h
  · rfl
  · exact not_not.mp h

/-- **What is given back is clean.** -/
theorem clean_giveBack (a : Answer) : (C.giveBack a).Clean := by
  simp only [giveBack]
  split_ifs with h
  · exact clean_clear (rollback_isInTransaction a)
  · exact clean_clear (Nat.eq_zero_of_not_pos h)

end Connection

end PbEntityDb.Zdb
