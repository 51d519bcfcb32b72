import Mathlib.Data.List.Dedup
import Skuld.Coordination.Storage
import Skuld.Lib.Sql

/-!
# The coordination database

The tables `running` and `labels` with what SQLite guarantees of them: row ids
are distinct and at most the `AUTOINCREMENT` sequence, which never goes back,
and every label row refers to a row of `running`, because deletions cascade.
`Db` carries these three facts, so that every operation preserves them.

The functions of `coordination.rs` come as what they do to the tables:
`cleanStaleEntries`, `canStart`, `register`.  That a transaction of statements
does exactly this is the subject of `Statements.lean`.

The filter of a candidate becomes a query, and SQLite limits the depth of a query
(`shallow`): `can_start` has no answer for a filter beyond the limit, unless a stored
filter has given one before.
-/

namespace Skuld

open BoolExpr

structure RunningRow where
  id : ℕ
  instanceId : String
  name : String
  serialFilter : String
  deriving DecidableEq

structure LabelRow where
  runningId : ℕ
  label : String
  deriving DecidableEq

structure Db where
  running : List RunningRow
  labels : List LabelRow
  sequence : ℕ
  userVersion : ℕ
  ids_nodup : (running.map RunningRow.id).Nodup
  ids_le : ∀ r ∈ running, r.id ≤ sequence
  labels_ref : ∀ l ∈ labels, ∃ r ∈ running, r.id = l.runningId

namespace Db

theorem ext_data {db db' : Db} (hrunning : db.running = db'.running)
    (hlabels : db.labels = db'.labels) (hsequence : db.sequence = db'.sequence)
    (hversion : db.userVersion = db'.userVersion) : db = db' := by
  cases db
  cases db'
  simp only at hrunning hlabels hsequence hversion
  subst hrunning hlabels hsequence hversion
  rfl

instance : DecidableEq Db := fun db db' =>
  decidable_of_iff (db.running = db'.running ∧ db.labels = db'.labels ∧
      db.sequence = db'.sequence ∧ db.userVersion = db'.userVersion)
    ⟨fun ⟨h, h', h'', h'''⟩ => ext_data h h' h'' h''', fun h => by simp [h]⟩

/-- The tables as `INIT_SQL` creates them. -/
def empty : Db where
  running := []
  labels := []
  sequence := 0
  userVersion := 0
  ids_nodup := .nil
  ids_le r hr := by cases hr
  labels_ref l hl := by cases hl

/-! ## Statements -/

/-- `DELETE FROM running WHERE ..`; the labels of the rows go with them. -/
def deleteWhere (db : Db) (p : RunningRow → Bool) : Db where
  running := db.running.filter fun r => !p r
  labels := db.labels.filter fun l => !db.running.any fun r => p r && r.id = l.runningId
  sequence := db.sequence
  userVersion := db.userVersion
  ids_nodup := db.ids_nodup.sublist (List.filter_sublist.map _)
  ids_le r hr := db.ids_le r (List.mem_of_mem_filter hr)
  labels_ref l hl := by
    rw [List.mem_filter] at hl
    obtain ⟨r, hr, hid⟩ := db.labels_ref l hl.1
    refine ⟨r, List.mem_filter.mpr ⟨hr, ?_⟩, hid⟩
    by_contra hp
    have hany : (db.running.any fun r => p r && r.id = l.runningId) = true :=
      List.any_eq_true.mpr ⟨r, hr, by simpa [hid] using hp⟩
    rw [hany] at hl
    exact absurd hl.2 (by simp)

/-- `INSERT INTO running ..`: the new row has the next id of the sequence. -/
def insertRunning (db : Db) (instanceId name serialFilter : String) : Db where
  running := db.running ++ [⟨db.sequence + 1, instanceId, name, serialFilter⟩]
  labels := db.labels
  sequence := db.sequence + 1
  userVersion := db.userVersion
  ids_nodup := by
    rw [List.map_append, List.nodup_append]
    refine ⟨db.ids_nodup, by simp, fun x hx y hy heq => ?_⟩
    obtain ⟨r, hr, rfl⟩ := List.mem_map.mp hx
    have := db.ids_le r hr
    simp only [List.map_cons, List.map_nil, List.mem_singleton] at hy
    omega
  ids_le r hr := by
    rcases List.mem_append.mp hr with hr | hr
    · exact (db.ids_le r hr).trans (Nat.le_succ _)
    · rw [List.mem_singleton.mp hr]
  labels_ref l hl := by
    obtain ⟨r, hr, hid⟩ := db.labels_ref l hl
    exact ⟨r, List.mem_append.mpr (.inl hr), hid⟩

/-- `INSERT INTO labels ..`; `none` is the failed foreign key. -/
def insertLabel (db : Db) (runningId : ℕ) (label : String) : Option Db :=
  if h : ∃ r ∈ db.running, r.id = runningId then
    some
      { running := db.running
        labels := db.labels ++ [⟨runningId, label⟩]
        sequence := db.sequence
        userVersion := db.userVersion
        ids_nodup := db.ids_nodup
        ids_le := db.ids_le
        labels_ref := fun l hl => by
          rcases List.mem_append.mp hl with hl | hl
          · exact db.labels_ref l hl
          · rw [List.mem_singleton.mp hl]
            exact h }
  else
    none

/-- `UPDATE running SET serial_filter = .. WHERE id = ..`. -/
def updateFilter (db : Db) (id : ℕ) (serialFilter : String) : Db where
  running := db.running.map fun r => if r.id = id then { r with serialFilter } else r
  labels := db.labels
  sequence := db.sequence
  userVersion := db.userVersion
  ids_nodup := by
    have hids : (db.running.map fun r => if r.id = id then { r with serialFilter } else r).map
        RunningRow.id = db.running.map RunningRow.id := by
      rw [List.map_map]
      exact List.map_congr_left fun r _ => by dsimp only [Function.comp]; split_ifs <;> rfl
    rw [hids]
    exact db.ids_nodup
  ids_le r hr := by
    obtain ⟨r', hr', rfl⟩ := List.mem_map.mp hr
    have := db.ids_le r' hr'
    split_ifs <;> exact this
  labels_ref l hl := by
    obtain ⟨r, hr, hid⟩ := db.labels_ref l hl
    refine ⟨_, List.mem_map.mpr ⟨r, hr, rfl⟩, ?_⟩
    split_ifs <;> exact hid

theorem updateFilter_running (db : Db) (id : ℕ) (serialFilter : String) :
    (db.updateFilter id serialFilter).running =
      db.running.map fun r => if r.id = id then { r with serialFilter } else r := rfl

/-- `PRAGMA user_version = ..`. -/
def setUserVersion (db : Db) (userVersion : ℕ) : Db :=
  { db with userVersion }

/-- The labels of a row. -/
def labelNames (db : Db) (id : ℕ) : List String :=
  (db.labels.filter fun l => l.runningId = id).map LabelRow.label

theorem eq_of_id {db : Db} {r r' : RunningRow} (hr : r ∈ db.running) (hr' : r' ∈ db.running)
    (hid : r.id = r'.id) : r = r' :=
  List.inj_on_of_nodup_map db.ids_nodup hr hr' hid

theorem mem_deleteWhere {db : Db} {p : RunningRow → Bool} {r : RunningRow} :
    r ∈ (db.deleteWhere p).running ↔ r ∈ db.running ∧ p r = false := by
  simp [deleteWhere, List.mem_filter]

/-- The rows that stay keep their labels. -/
theorem labelNames_deleteWhere {db : Db} {p : RunningRow → Bool} {r : RunningRow}
    (hr : r ∈ db.running) (hp : p r = false) :
    (db.deleteWhere p).labelNames r.id = db.labelNames r.id := by
  unfold labelNames deleteWhere
  rw [List.filter_filter]
  congr 1
  refine List.filter_congr fun l _ => ?_
  by_cases hid : l.runningId = r.id
  · have hany : (db.running.any fun r' => p r' && r'.id = l.runningId) = false := by
      rw [List.any_eq_false]
      intro r' hr' hdeleted
      rw [Bool.and_eq_true, decide_eq_true_eq] at hdeleted
      rw [eq_of_id hr' hr (hdeleted.2.trans hid), hp] at hdeleted
      cases hdeleted.1
    rw [hany, Bool.not_false, Bool.and_true]
  · simp [hid]

theorem deleteWhere_deleteWhere (db : Db) (p q : RunningRow → Bool) :
    (db.deleteWhere p).deleteWhere q = db.deleteWhere fun r => p r || q r := by
  refine ext_data ?_ ?_ rfl rfl
  · simp only [deleteWhere, List.filter_filter]
    exact List.filter_congr fun r _ => by simp [Bool.and_comm]
  · simp only [deleteWhere, List.filter_filter]
    refine List.filter_congr fun l _ => ?_
    rw [Bool.eq_iff_iff]
    simp only [Bool.and_eq_true, Bool.not_eq_true', List.any_eq_false, List.mem_filter,
      Bool.or_eq_true, decide_eq_true_eq, not_and]
    constructor
    · rintro ⟨hq, hp⟩ r hr (hpr | hqr)
      · exact hp r hr hpr
      · by_cases hpr : p r = true
        · exact hp r hr hpr
        · exact hq r ⟨hr, by simpa using hpr⟩ hqr
    · exact fun h => ⟨fun r hr hqr => h r hr.1 (.inr hqr), fun r hr hpr => h r hr (.inl hpr)⟩

theorem deleteWhere_none {db : Db} {p : RunningRow → Bool} (h : ∀ r ∈ db.running, p r = false) :
    db.deleteWhere p = db := by
  refine ext_data ?_ ?_ rfl rfl
  · exact List.filter_eq_self.mpr fun r hr => by simp [h r hr]
  · refine List.filter_eq_self.mpr fun l _ => ?_
    simp only [Bool.not_eq_true', List.any_eq_false, Bool.and_eq_true, not_and]
    intro r hr hp
    rw [h r hr] at hp
    cases hp

theorem deleteWhere_congr {db : Db} {p q : RunningRow → Bool}
    (h : ∀ r ∈ db.running, p r = q r) : db.deleteWhere p = db.deleteWhere q := by
  refine ext_data ?_ ?_ rfl rfl
  · exact List.filter_congr fun r hr => by rw [h r hr]
  · refine List.filter_congr fun l _ => congrArg _ ?_
    rw [Bool.eq_iff_iff, List.any_eq_true, List.any_eq_true]
    exact exists_congr fun r => and_congr_right fun hr => by rw [h r hr]

end Db

/-! ## Stale entries -/

/-- Rust's `str::parse::<u32>`: an optional `+`, then digits, below `2 ^ 32`. -/
def parseU32 (text : List Char) : Option ℕ :=
  let digits := if text.head? = some '+' then text.tail else text
  if digits ≠ [] ∧ digits.all Char.isDigit = true ∧ Nat.ofDigitChars 10 digits 0 < 2 ^ 32 then
    some (Nat.ofDigitChars 10 digits 0)
  else
    none

/-- The PID of an instance id `{pid}:{timestamp}`. -/
def pidFromInstanceId (instanceId : String) : Option ℕ :=
  parseU32 (instanceId.toList.takeWhile fun c => c ≠ ':')

/-- `instance_id`, the first time a process asks for it. -/
def instanceId (pid timestamp : ℕ) : String :=
  Nat.repr pid ++ ":" ++ Nat.repr timestamp

/-- `kill` is whether `kill(pid, 0)` finds a process. -/
def isPidAlive (kill : ℕ → Bool) (pid : ℕ) : Bool :=
  if pid = 0 ∨ 2 ^ 31 ≤ pid then false else kill pid

theorem pidFromInstanceId_instanceId {pid : ℕ} (h : pid < 2 ^ 32) (timestamp : ℕ) :
    pidFromInstanceId (instanceId pid timestamp) = some pid := by
  have hdigit : ∀ c ∈ Nat.toDigits 10 pid, c.isDigit = true := fun c hc =>
    Nat.isDigit_of_mem_toDigits (by decide) (by decide) hc
  have hpiece : (instanceId pid timestamp).toList.takeWhile (fun c => decide (c ≠ ':')) =
      Nat.toDigits 10 pid := by
    have hcolon : ∀ c ∈ Nat.toDigits 10 pid, decide (c ≠ ':') = true := fun c hc => by
      rw [decide_eq_true_eq]
      rintro rfl
      exact absurd (hdigit _ hc) (by decide)
    simp only [instanceId, Nat.repr_eq_ofList_toDigits, String.toList_append,
      String.toList_ofList, List.append_assoc]
    rw [List.takeWhile_append_of_pos hcolon]
    simp
  rw [pidFromInstanceId, hpiece, parseU32]
  have hplus : (Nat.toDigits 10 pid).head? ≠ some '+' := fun heq =>
    absurd (hdigit '+' (List.mem_of_head? heq)) (by decide)
  simp only [if_neg hplus, Nat.ofDigitChars_ten_toDigits]
  exact if_pos ⟨Nat.toDigits_ne_nil, List.all_eq_true.mpr hdigit, h⟩

/-- An instance whose id has no PID, or one that is not alive. -/
def isStale (kill : ℕ → Bool) (instanceId : String) : Bool :=
  (pidFromInstanceId instanceId).all fun pid => !isPidAlive kill pid

/-- `SELECT DISTINCT instance_id .. WHERE instance_id != ours`, filtered. -/
def staleInstances (kill : ℕ → Bool) (ourInstance : String) (db : Db) : List String :=
  (((db.running.map RunningRow.instanceId).filter fun iid => iid ≠ ourInstance).dedup).filter
    (isStale kill)

def cleanStaleEntries (kill : ℕ → Bool) (ourInstance : String) (db : Db) : Db :=
  (staleInstances kill ourInstance db).foldl
    (fun db iid => db.deleteWhere fun r => r.instanceId = iid) db

theorem foldl_deleteWhere (instances : List String) (db : Db) :
    instances.foldl (fun db iid => db.deleteWhere fun r => r.instanceId = iid) db =
      db.deleteWhere fun r => r.instanceId ∈ instances := by
  induction instances generalizing db with
  | nil => exact (Db.deleteWhere_none fun r _ => by simp).symm
  | cons iid instances ih =>
      rw [List.foldl_cons, ih, Db.deleteWhere_deleteWhere]
      exact Db.deleteWhere_congr fun r _ => by simp

/-- The cleanup deletes exactly the rows of dead foreign instances. -/
theorem cleanStaleEntries_eq (kill : ℕ → Bool) (ourInstance : String) (db : Db) :
    cleanStaleEntries kill ourInstance db =
      db.deleteWhere fun r => r.instanceId ≠ ourInstance && isStale kill r.instanceId := by
  rw [cleanStaleEntries, foldl_deleteWhere]
  refine Db.deleteWhere_congr fun r hr => ?_
  rw [Bool.eq_iff_iff]
  simp only [staleInstances, decide_eq_true_eq, List.mem_filter, List.mem_dedup, List.mem_map,
    Bool.and_eq_true]
  exact ⟨fun h => ⟨h.1.2, h.2⟩, fun h => ⟨⟨⟨r, hr, rfl⟩, h.1⟩, h.2⟩⟩

/-! ## Blocking checks -/

/-- The `WHERE` fragments that `to_sql_expr` emits. -/
inductive SqlCond where
  | existsLabel (name : String)
  | oneEqOne
  | oneEqZero
  | not (inner : SqlCond)
  | and (a b : SqlCond)
  | or (a b : SqlCond)

/-- Whether the condition holds for the row `r` with the id `id`. -/
def SqlCond.holds (labels : List LabelRow) (id : ℕ) : SqlCond → Bool
  | existsLabel name => labels.any fun l => l.runningId = id && l.label = name
  | oneEqOne => true
  | oneEqZero => false
  | not inner => !inner.holds labels id
  | and a b => a.holds labels id && b.holds labels id
  | or a b => a.holds labels id || b.holds labels id

def SqlCond.height : SqlCond → ℕ
  | existsLabel _ => 5
  | oneEqOne | oneEqZero => 2
  | not inner => inner.height + 1
  | and a b | or a b => max a.height b.height + 1

def SqlCond.overhang : SqlCond → ℕ
  | existsLabel _ => 4
  | oneEqOne | oneEqZero => 0
  | not inner => inner.overhang
  | and a b | or a b => max a.overhang b.overhang

/-- The depth of the query with this condition. -/
def SqlCond.queryDepth (c : SqlCond) : ℕ :=
  c.height + 1 + (c.height + c.overhang)

def toSqlExpr : LabelExpr → SqlCond
  | .terminal name => .existsLabel name
  | .const true => .oneEqOne
  | .const false => .oneEqZero
  | .not inner => .not (toSqlExpr inner)
  | .and a b => .and (toSqlExpr a) (toSqlExpr b)
  | .or a b => .or (toSqlExpr a) (toSqlExpr b)

theorem holds_toSqlExpr (e : LabelExpr) (db : Db) (id : ℕ) :
    (toSqlExpr e).holds db.labels id = e.eval fun t => (db.labelNames id).contains t := by
  induction e with
  | terminal name =>
      rw [toSqlExpr, SqlCond.holds, Expr.eval, Bool.eq_iff_iff, List.any_eq_true,
        List.contains_iff_mem, Db.labelNames, List.mem_map]
      simp only [List.mem_filter, Bool.and_eq_true, decide_eq_true_eq, and_assoc]
  | const b => cases b <;> rfl
  | not e ih => simp only [toSqlExpr, SqlCond.holds, Expr.eval, ih]
  | and a b iha ihb => simp only [toSqlExpr, SqlCond.holds, Expr.eval, iha, ihb]
  | or a b iha ihb => simp only [toSqlExpr, SqlCond.holds, Expr.eval, iha, ihb]

section

variable (B : Bdd String)

/-- A stored filter; one that does not parse is skipped with a warning. -/
def filterMatches (myLabels : List Label) (filterStr : String) : Bool :=
  match LabelFilter.parse B filterStr with
  | .ok filter => filter.matches myLabels
  | .error _ => false

/-- The loop over the stored filters, with its early return. -/
def anyFilterMatches (myLabels : List Label) : List String → Bool
  | [] => false
  | filterStr :: filters =>
      if filterMatches B myLabels filterStr then true else anyFilterMatches myLabels filters

/-- The query for a candidate's filter is not too deep for SQLite. -/
def shallow (serialFilter : String) : Bool :=
  match LabelFilter.parse B serialFilter with
  | .ok filter => (toSqlExpr filter.expr).queryDepth ≤ Sql.maxExprDepth
  | .error _ => true

/-- `none` is the panic on a candidate filter that does not parse, or the error of
the query for one that is too deep. -/
def canStart (db : Db) (myLabels : List Label) (mySerialFilter : String) : Option Bool :=
  if (db.running.any fun r => r.serialFilter = serialAll) = true then
    some false
  else if anyFilterMatches B myLabels ((db.running.map RunningRow.serialFilter).filter
      fun s => s ≠ serialNone && s ≠ serialAll) = true then
    some false
  else if mySerialFilter = serialAll then
    some (db.running.length == 0)
  else if mySerialFilter ≠ serialNone ∧ mySerialFilter ≠ serialAll then
    match LabelFilter.parse B mySerialFilter with
    | .error _ => none
    | .ok filter =>
        if Sql.maxExprDepth < (toSqlExpr filter.expr).queryDepth then
          none
        else if (db.running.any fun r => (toSqlExpr filter.expr).holds db.labels r.id) = true then
          some false
        else
          some true
  else
    some true

/-- Whether a serial string excludes a test, given the names of its labels. -/
def blocksNames (serial : String) (names : List String) : Bool :=
  if serial = serialAll then true
  else if serial = serialNone then false
  else match LabelFilter.parse B serial with
    | .ok f => f.matchesNames names
    | .error _ => false

/-- A row and a candidate exclude each other. -/
def Db.conflictsWith (db : Db) (myLabels : List Label) (mySerialFilter : String)
    (r : RunningRow) : Bool :=
  blocks B r.serialFilter myLabels || blocksNames B mySerialFilter (db.labelNames r.id)

end

variable {B : Bdd String}

@[simp] theorem blocksNames_serialNone (names : List String) :
    blocksNames B serialNone names = false := rfl

@[simp] theorem blocksNames_serialAll (names : List String) :
    blocksNames B serialAll names = true := rfl

theorem blocksNames_of_parse {s : String} {f : LabelFilter B}
    (h : LabelFilter.parse B s = .ok f) (names : List String) :
    blocksNames B s names = f.matchesNames names := by
  obtain ⟨hnone, hall⟩ := ne_sentinel_of_parse h
  rw [blocksNames, if_neg hall, if_neg hnone, h]

theorem blocksNames_map (serial : String) (labels : List Label) :
    blocksNames B serial (labels.map Label.name) = blocks B serial labels := by
  unfold blocksNames blocks
  cases LabelFilter.parse B serial <;> simp [LabelFilter.matchesNames_map]

/-- The loop finds out whether a filter of the list excludes the labels. -/
theorem anyFilterMatches_eq (myLabels : List Label) (rows : List RunningRow)
    (hall : ∀ r ∈ rows, r.serialFilter ≠ serialAll) :
    anyFilterMatches B myLabels ((rows.map RunningRow.serialFilter).filter
      fun s => s ≠ serialNone && s ≠ serialAll) =
      rows.any fun r => blocks B r.serialFilter myLabels := by
  induction rows with
  | nil => rfl
  | cons r rows ih =>
      have ih := ih fun r' hr' => hall r' (List.mem_cons_of_mem _ hr')
      have hr := hall r List.mem_cons_self
      rw [List.map_cons, List.any_cons, ← ih]
      by_cases hnone : r.serialFilter = serialNone
      · rw [hnone, blocks_serialNone, Bool.false_or]
        rfl
      · have hkeep : (decide (r.serialFilter ≠ serialNone) && decide (r.serialFilter ≠ serialAll)) =
            true := by rw [decide_eq_true hnone, decide_eq_true hr, Bool.and_self]
        have hblocks : blocks B r.serialFilter myLabels =
            filterMatches B myLabels r.serialFilter := by
          refine (if_neg hr).trans ((if_neg hnone).trans ?_)
          unfold filterMatches
          cases LabelFilter.parse B r.serialFilter <;> rfl
        rw [List.filter_cons, if_pos hkeep, anyFilterMatches, hblocks]
        cases filterMatches B myLabels r.serialFilter <;> rfl

instance (serial : String) : Decidable (IsSerial B serial) :=
  decidable_of_iff _ toStorage_isSome_iff

theorem shallow_of_parse {s : String} {f : LabelFilter B} (h : LabelFilter.parse B s = .ok f) :
    shallow B s = true ↔ (toSqlExpr f.expr).queryDepth ≤ Sql.maxExprDepth := by
  unfold shallow
  rw [h, decide_eq_true_eq]

/-- What is no filter has no query. -/
theorem shallow_of_error {s : String} {e : ParseError} (h : LabelFilter.parse B s = .error e) :
    shallow B s = true := by
  unfold shallow
  rw [h]

theorem shallow_sentinel {s : String} (h : s = serialNone ∨ s = serialAll) :
    shallow B s = true := by
  cases hparse : LabelFilter.parse B s with
  | error e => exact shallow_of_error hparse
  | ok f =>
      obtain ⟨hnone, hall⟩ := ne_sentinel_of_parse hparse
      exact absurd h (not_or.mpr ⟨hnone, hall⟩)

/-- The stored form has the same query, or none: a constant filter is never too deep. -/
theorem shallow_toStorage {s t : String} (h : toStorage B s = some t) :
    shallow B t = shallow B s := by
  by_cases hsentinel : s = serialNone ∨ s = serialAll
  · rw [toStorage, if_pos hsentinel, Option.some.injEq] at h
    rw [h]
  cases hparse : LabelFilter.parse B s with
  | error err => simp [toStorage, hsentinel, hparse] at h
  | ok f =>
      rw [toStorage_of_parse hparse, Option.some.injEq] at h
      have hconst : ∀ b, f.expr = .const b → shallow B s = true := by
        intro b hexpr
        rw [shallow_of_parse hparse, hexpr]
        cases b <;> decide
      split_ifs at h with htaut hcontra
      · rw [shallow_sentinel (.inr h.symm), hconst true (of_decide_eq_true htaut)]
      · rw [shallow_sentinel (.inl h.symm), hconst false (of_decide_eq_true hcontra)]
      · rw [← h, Bool.eq_iff_iff, shallow_of_parse f.parse_toString, shallow_of_parse hparse]

/-- The two checks of the stored filters in one, and the two of the candidate. -/
theorem canStart_eq (db : Db) (myLabels : List Label) (mySerialFilter : String) :
    canStart B db myLabels mySerialFilter =
      if (db.running.any fun r => blocks B r.serialFilter myLabels) = true then
        some false
      else if IsSerial B mySerialFilter ∧ shallow B mySerialFilter = true then
        some (!db.running.any fun r => blocksNames B mySerialFilter (db.labelNames r.id))
      else
        none := by
  unfold canStart
  by_cases hall : (db.running.any fun r => r.serialFilter = serialAll) = true
  · have hblocks : (db.running.any fun r => blocks B r.serialFilter myLabels) = true := by
      obtain ⟨r, hr, heq⟩ := List.any_eq_true.mp hall
      refine List.any_eq_true.mpr ⟨r, hr, ?_⟩
      rw [of_decide_eq_true heq]
      rfl
    rw [if_pos hall, if_pos hblocks]
  · have hne : ∀ r ∈ db.running, r.serialFilter ≠ serialAll := fun r hr heq =>
      hall (List.any_eq_true.mpr ⟨r, hr, decide_eq_true heq⟩)
    rw [if_neg hall, anyFilterMatches_eq myLabels db.running hne]
    by_cases hblocks : (db.running.any fun r => blocks B r.serialFilter myLabels) = true
    · rw [if_pos hblocks, if_pos hblocks]
    · rw [if_neg hblocks, if_neg hblocks]
      by_cases hstar : mySerialFilter = serialAll
      · subst hstar
        have hcandidate : IsSerial B serialAll ∧ shallow B serialAll = true :=
          ⟨.inr (.inl rfl), shallow_sentinel (.inr rfl)⟩
        rw [if_pos rfl, if_pos hcandidate]
        cases db.running <;> rfl
      · by_cases hempty : mySerialFilter = serialNone
        · subst hempty
          have hcandidate : IsSerial B serialNone ∧ shallow B serialNone = true :=
            ⟨.inl rfl, shallow_sentinel (.inl rfl)⟩
          rw [if_neg (by decide), if_neg (by simp), if_pos hcandidate]
          have hnone : (db.running.any fun r => blocksNames B serialNone (db.labelNames r.id)) =
              false := List.any_eq_false.mpr fun r _ => by simp [blocksNames_serialNone]
          rw [hnone]
          rfl
        · rw [if_neg hstar, if_pos ⟨hempty, hstar⟩]
          cases hparse : LabelFilter.parse B mySerialFilter with
          | error err =>
              have hserial : ¬ IsSerial B mySerialFilter := by
                simp [IsSerial, hstar, hempty, hparse]
              rw [if_neg fun h => hserial h.1]
          | ok f =>
              have hnames : ∀ names, blocksNames B mySerialFilter names = f.matchesNames names :=
                fun names => blocksNames_of_parse hparse names
              have hshallow := shallow_of_parse hparse
              dsimp only
              by_cases hdeep : Sql.maxExprDepth < (toSqlExpr f.expr).queryDepth
              · rw [if_pos hdeep, if_neg fun h => by have := hshallow.mp h.2; omega]
              · have hcandidate : IsSerial B mySerialFilter ∧ shallow B mySerialFilter = true :=
                  ⟨.inr (.inr ⟨f, hparse⟩), hshallow.mpr (by omega)⟩
                rw [if_neg hdeep, if_pos hcandidate]
                simp only [holds_toSqlExpr, hnames, LabelFilter.matchesNames]
                cases db.running.any fun r =>
                  f.expr.eval fun t => (db.labelNames r.id).contains t <;> rfl

theorem any_conflictsWith (db : Db) (myLabels : List Label) (mySerialFilter : String) :
    db.running.any (db.conflictsWith B myLabels mySerialFilter) =
      ((db.running.any fun r => blocks B r.serialFilter myLabels) ||
        db.running.any fun r => blocksNames B mySerialFilter (db.labelNames r.id)) := by
  rw [Bool.eq_iff_iff, Bool.or_eq_true]
  simp only [List.any_eq_true, Db.conflictsWith, Bool.or_eq_true, and_or_left, exists_or]

/-- The answer for a candidate, if there is one, is whether no row conflicts with it. -/
theorem eq_of_canStart {db : Db} {myLabels : List Label} {mySerialFilter : String} {start : Bool}
    (h : canStart B db myLabels mySerialFilter = some start) :
    start = !db.running.any (db.conflictsWith B myLabels mySerialFilter) := by
  rw [canStart_eq] at h
  rw [any_conflictsWith]
  split_ifs at h with hblocks hcandidate
  · rw [hblocks, Bool.true_or]
    exact (Option.some.inj h).symm
  · rw [Bool.not_eq_true] at hblocks
    rw [hblocks, Bool.false_or]
    exact (Option.some.inj h).symm

/-- A candidate with a declared filter has an answer unless the filter is too deep. -/
theorem canStart_eq_some {db : Db} {myLabels : List Label} {mySerialFilter : String}
    (h : IsSerial B mySerialFilter) (hshallow : shallow B mySerialFilter = true) :
    canStart B db myLabels mySerialFilter =
      some (!db.running.any (db.conflictsWith B myLabels mySerialFilter)) := by
  have hcandidate := And.intro h hshallow
  rw [canStart_eq, if_pos hcandidate, any_conflictsWith]
  cases db.running.any fun r => blocks B r.serialFilter myLabels <;> rfl

/-- A candidate whose filter is too deep never starts. -/
theorem shallow_of_canStart {db : Db} {myLabels : List Label} {mySerialFilter : String}
    (h : canStart B db myLabels mySerialFilter = some true) :
    shallow B mySerialFilter = true := by
  rw [canStart_eq] at h
  split_ifs at h with hblocks hcandidate
  · cases h
  · exact hcandidate.2

/-! ## Registration -/

/-- The label inserts of `register`; `none` is a failed foreign key. -/
def insertLabels (db : Db) (id : ℕ) : List Label → Option Db
  | [] => some db
  | label :: labels => (db.insertLabel id label.name).bind fun db => insertLabels db id labels

/-- The row id and the tables after both kinds of inserts. -/
def register (db : Db) (instanceId name : String) (labels : List Label) (serialFilter : String) :
    Option (ℕ × Db) :=
  let db' := db.insertRunning instanceId name serialFilter
  let id := db'.sequence
  (insertLabels db' id labels).map fun db'' => (id, db'')

/-- `db'` is `db` with label rows added for the row `id`. -/
structure LabelsAdded (db db' : Db) (id : ℕ) (names : List String) : Prop where
  running_eq : db'.running = db.running
  labels_eq : db'.labels = db.labels ++ names.map fun name => ⟨id, name⟩
  sequence_eq : db'.sequence = db.sequence
  userVersion_eq : db'.userVersion = db.userVersion

theorem insertLabel_spec {db : Db} {id : ℕ} (h : ∃ r ∈ db.running, r.id = id) (label : String) :
    ∃ db', db.insertLabel id label = some db' ∧ LabelsAdded db db' id [label] := by
  unfold Db.insertLabel
  rw [dif_pos h]
  exact ⟨_, rfl, rfl, rfl, rfl, rfl⟩

theorem insertLabels_spec {db : Db} {id : ℕ} (h : ∃ r ∈ db.running, r.id = id)
    (labels : List Label) :
    ∃ db', insertLabels db id labels = some db' ∧
      LabelsAdded db db' id (labels.map Label.name) := by
  induction labels generalizing db with
  | nil => exact ⟨db, rfl, rfl, by simp, rfl, rfl⟩
  | cons label labels ih =>
      obtain ⟨middle, hmiddle, hfirst⟩ := insertLabel_spec h label.name
      obtain ⟨db', hdb', hrest⟩ := ih (hfirst.running_eq ▸ h)
      refine ⟨db', by rw [insertLabels, hmiddle]; exact hdb', ?_, ?_, ?_, ?_⟩
      · rw [hrest.running_eq, hfirst.running_eq]
      · rw [hrest.labels_eq, hfirst.labels_eq]
        simp
      · rw [hrest.sequence_eq, hfirst.sequence_eq]
      · rw [hrest.userVersion_eq, hfirst.userVersion_eq]

/-- What a registration adds: one row with the next id, and one label row for
every label. -/
structure Registered (db db' : Db) (row : RunningRow) (labels : List Label) : Prop where
  id_eq : row.id = db.sequence + 1
  running_eq : db'.running = db.running ++ [row]
  labels_eq : db'.labels = db.labels ++ labels.map fun l => ⟨row.id, l.name⟩
  sequence_eq : db'.sequence = row.id
  userVersion_eq : db'.userVersion = db.userVersion

theorem register_spec (db : Db) (instanceId name : String) (labels : List Label)
    (serialFilter : String) :
    ∃ db', register db instanceId name labels serialFilter = some (db.sequence + 1, db') ∧
      Registered db db' ⟨db.sequence + 1, instanceId, name, serialFilter⟩ labels := by
  have hrow : ∃ r ∈ (db.insertRunning instanceId name serialFilter).running,
      r.id = db.sequence + 1 :=
    ⟨_, List.mem_append.mpr (.inr (List.mem_singleton_self _)), rfl⟩
  obtain ⟨db', hdb', hadded⟩ := insertLabels_spec hrow labels
  refine ⟨db', ?_, rfl, hadded.running_eq, ?_, hadded.sequence_eq, hadded.userVersion_eq⟩
  · exact congrArg (Option.map fun db'' => (db.sequence + 1, db'')) hdb'
  · rw [hadded.labels_eq, List.map_map]
    rfl

namespace Registered

variable {db db' : Db} {row : RunningRow} {labels : List Label}

theorem labelNames_new (h : Registered db db' row labels) :
    db'.labelNames row.id = labels.map Label.name := by
  have hold : db.labels.filter (fun l => l.runningId = row.id) = [] := by
    rw [List.filter_eq_nil_iff]
    intro l hl heq
    obtain ⟨r, hr, hid⟩ := db.labels_ref l hl
    have hle := db.ids_le r hr
    have hrow := h.id_eq
    rw [decide_eq_true_eq] at heq
    omega
  rw [Db.labelNames, h.labels_eq, List.filter_append, hold, List.nil_append,
    List.filter_eq_self.mpr (by simp), List.map_map]
  rfl

theorem labelNames_old (h : Registered db db' row labels) {r : RunningRow} (hr : r ∈ db.running) :
    db'.labelNames r.id = db.labelNames r.id := by
  have hne : row.id ≠ r.id := by
    have := db.ids_le r hr
    have := h.id_eq
    omega
  rw [Db.labelNames, h.labels_eq, List.filter_append, List.map_append]
  have hnew : (labels.map fun l => (⟨row.id, l.name⟩ : LabelRow)).filter
      (fun l => l.runningId = r.id) = [] := by
    rw [List.filter_eq_nil_iff]
    intro l hl heq
    obtain ⟨label, -, rfl⟩ := List.mem_map.mp hl
    exact hne (of_decide_eq_true heq)
  rw [hnew, List.map_nil, List.append_nil]
  rfl

theorem mem_running (h : Registered db db' row labels) {r : RunningRow} :
    r ∈ db'.running ↔ r ∈ db.running ∨ r = row := by
  rw [h.running_eq, List.mem_append, List.mem_singleton]

end Registered

/-! ## An attempt -/

/-- One round of the loop of `coordinate`, as a function of the tables: `none`
is a panic, `some none` a refusal, after which the transaction is rolled back. -/
def attempt (B : Bdd String) (kill : ℕ → Bool) (ourInstance : String) (db : Db) (name : String)
    (labels : List Label) (canonicalFilter : String) : Option (Option (ℕ × Db)) :=
  let cleaned := cleanStaleEntries kill ourInstance db
  match canStart B cleaned labels canonicalFilter with
  | none => none
  | some false => some none
  | some true => (register cleaned ourInstance name labels canonicalFilter).map some

/-- The three outcomes of a transaction. -/
theorem attempt_eq_some_iff {kill : ℕ → Bool} {ourInstance name filter : String} {db : Db}
    {labels : List Label} {outcome : Option (ℕ × Db)}
    (h : attempt B kill ourInstance db name labels filter = some outcome) :
    (outcome = none ∧
      canStart B (cleanStaleEntries kill ourInstance db) labels filter = some false) ∨
    ∃ id db', outcome = some (id, db') ∧
      canStart B (cleanStaleEntries kill ourInstance db) labels filter = some true ∧
      Registered (cleanStaleEntries kill ourInstance db) db' ⟨id, ourInstance, name, filter⟩
        labels := by
  unfold attempt at h
  cases hstart : canStart B (cleanStaleEntries kill ourInstance db) labels filter with
  | none => simp [hstart] at h
  | some start =>
      cases start with
      | false =>
          simp only [hstart, Option.some.injEq] at h
          exact .inl ⟨h.symm, rfl⟩
      | true =>
          obtain ⟨db', hregister, hnew⟩ := register_spec
            (cleanStaleEntries kill ourInstance db) ourInstance name labels filter
          simp only [hstart, hregister, Option.map_some, Option.some.injEq] at h
          exact .inr ⟨_, db', h.symm, rfl, hnew⟩

end Skuld
