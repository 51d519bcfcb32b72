import Skuld.Coordination.Query
import Skuld.Lib.Transaction

/-!
# The loop of `coordinate`, statement by statement

The transaction of `coordinate` is a program of statements, any of which may
fail.  Its parts do to the tables what the functions of `Database.lean` say
(`inTx_cleanStaleEntries`, `inTx_canStart`, `inTx_register`), so a transaction
that comes to its `COMMIT` has made an `attempt` and any other one changes nothing
(`ended_txn`).  The query of a candidate's filter is run as text, which SQLite may
refuse.

Around it, `iteration` is one round of the loop with its three arms, and `loop`
is the rounds themselves.  Between two rounds, other connections may change the
tables.  That the files are still the ones that were opened is not modelled here.
-/

namespace Skuld

open BoolExpr Transaction Transaction.Program

/-- The arguments of `coordinate` in the loop; the filter is the stored form. -/
structure Registrant where
  instanceId : String
  name : String
  labels : List Label
  filter : String

namespace Sql

def deleteInstances : List String → Program Db Unit
  | [] => pure ()
  | iid :: instances => do
      write fun db => some ((), db.deleteWhere fun r => r.instanceId = iid)
      deleteInstances instances

def cleanStaleEntries (kill : ℕ → Bool) (ourInstance : String) : Program Db Unit := do
  let instances ← query fun db : Db =>
    ((db.running.map RunningRow.instanceId).filter fun iid => iid ≠ ourInstance).dedup
  deleteInstances (instances.filter (isStale kill))

def insertLabels (id : ℕ) : List Label → Program Db Unit
  | [] => pure ()
  | label :: labels => do
      write fun db => (db.insertLabel id label.name).map fun db => ((), db)
      insertLabels id labels

def register (c : Registrant) : Program Db ℕ := do
  let id ← write fun db : Db =>
    let db' := db.insertRunning c.instanceId c.name c.filter
    some (db'.sequence, db')
  insertLabels id c.labels
  return id

variable (B : Bdd String)

/-- The query of a candidate's own filter. -/
def anyRowMatches (filter : String) : Program Db Bool :=
  match LabelFilter.parse B filter with
  | .error _ => panic
  | .ok f => read fun db => SqlText.select db (SqlText.blockedQuery f.expr)

def canStart (myLabels : List Label) (mySerialFilter : String) : Program Db Bool := do
  let globalRunning ← query fun db : Db => db.running.any fun r => r.serialFilter = serialAll
  if globalRunning then
    return false
  else
    let filters ← query fun db : Db =>
      (db.running.map RunningRow.serialFilter).filter fun s => s ≠ serialNone && s ≠ serialAll
    if anyFilterMatches B myLabels filters then
      return false
    else if mySerialFilter = serialAll then
      query fun db => db.running.length == 0
    else if mySerialFilter ≠ serialNone ∧ mySerialFilter ≠ serialAll then
      let blocked ← anyRowMatches B mySerialFilter
      return !blocked
    else
      return true

/-- The closure `txn`. -/
def txn (kill : ℕ → Bool) (c : Registrant) : Program Db (Option ℕ) := do
  begin
  cleanStaleEntries kill c.instanceId
  if ← canStart B c.labels c.filter then
    let id ← register c
    commit
    return some id
  else
    rollback
    return none

/-! ## The parts of the transaction -/

theorem inTx_deleteInstances (instances : List String) (db : Db) :
    InTx (deleteInstances instances) db fun _ db' =>
      db' = instances.foldl (fun db iid => db.deleteWhere fun r => r.instanceId = iid) db := by
  induction instances generalizing db with
  | nil => exact .pure rfl
  | cons iid instances ih =>
      apply InTx.bind (Q := fun _ db' => db' = db.deleteWhere fun r => r.instanceId = iid)
      · apply InTx.write
        intro _ db' h
        cases h
        rfl
      · rintro _ db' rfl
        exact ih _

theorem inTx_cleanStaleEntries (kill : ℕ → Bool) (ourInstance : String) (db : Db) :
    InTx (cleanStaleEntries kill ourInstance) db fun _ db' =>
      db' = Skuld.cleanStaleEntries kill ourInstance db := by
  apply InTx.bind
  · exact InTx.query (Q := fun instances db' => db' = db ∧ instances =
      ((db.running.map RunningRow.instanceId).filter fun iid => iid ≠ ourInstance).dedup)
      ⟨rfl, rfl⟩
  · rintro instances db' ⟨rfl, rfl⟩
    exact inTx_deleteInstances _ _

theorem inTx_insertLabels (id : ℕ) (labels : List Label) (db : Db) :
    InTx (insertLabels id labels) db fun _ db' => Skuld.insertLabels db id labels = some db' := by
  induction labels generalizing db with
  | nil => exact .pure rfl
  | cons label labels ih =>
      apply InTx.bind (Q := fun _ db' => db.insertLabel id label.name = some db')
      · apply InTx.write
        intro _ db' h
        obtain ⟨db'', hinsert, heq⟩ := Option.map_eq_some_iff.mp h
        cases heq
        exact hinsert
      · intro _ middle hmiddle
        rw [Skuld.insertLabels, hmiddle]
        exact ih middle

theorem inTx_register (c : Registrant) (db : Db) :
    InTx (register c) db fun id db' =>
      Skuld.register db c.instanceId c.name c.labels c.filter = some (id, db') := by
  let inserted := db.insertRunning c.instanceId c.name c.filter
  apply InTx.bind (Q := fun id db' => id = inserted.sequence ∧ db' = inserted)
  · apply InTx.write
    intro id db' h
    cases h
    exact ⟨rfl, rfl⟩
  · rintro id db' ⟨rfl, rfl⟩
    apply (inTx_insertLabels _ c.labels inserted).bind
    intro _ db' hlabels
    apply InTx.pure
    rw [Skuld.register, hlabels]
    rfl

variable {B : Bdd String}

theorem inTx_anyRowMatches {filter : String} {f : LabelFilter B} (db : Db)
    (hparse : LabelFilter.parse B filter = .ok f) :
    InTx (anyRowMatches B filter) db fun blocked db' => db' = db ∧
      ¬ Sql.maxExprDepth < (toSqlExpr f.expr).queryDepth ∧
      blocked = db.running.any fun r => (toSqlExpr f.expr).holds db.labels r.id := by
  unfold anyRowMatches
  rw [hparse]
  apply InTx.read
  intro blocked hselect
  rw [SqlText.select_blockedQuery db f.names] at hselect
  obtain ⟨hshallow, hblocked⟩ := Option.ite_none_left_eq_some.mp hselect
  exact ⟨rfl, hshallow, (Option.some.inj hblocked).symm⟩

theorem inTx_canStart (myLabels : List Label) (mySerialFilter : String) (db : Db) :
    InTx (canStart B myLabels mySerialFilter) db fun start db' => db' = db ∧
      Skuld.canStart B db myLabels mySerialFilter = some start := by
  apply InTx.bind (Q := fun globalRunning db' => db' = db ∧
    globalRunning = db.running.any fun r => r.serialFilter = serialAll)
  · exact .query ⟨rfl, rfl⟩
  rintro globalRunning db' ⟨rfl, hglobal⟩
  unfold Skuld.canStart
  rw [← hglobal]
  cases globalRunning with
  | true => exact .pure ⟨rfl, rfl⟩
  | false =>
      apply InTx.bind (Q := fun filters db'' => db'' = db' ∧ filters =
        (db'.running.map RunningRow.serialFilter).filter
          fun s => s ≠ serialNone && s ≠ serialAll)
      · exact .query ⟨rfl, rfl⟩
      rintro filters db'' ⟨rfl, rfl⟩
      rw [if_neg Bool.false_ne_true]
      split_ifs with hmatch hall hsome
      · exact .pure ⟨rfl, rfl⟩
      · exact .query ⟨rfl, rfl⟩
      · cases hparse : LabelFilter.parse B mySerialFilter with
        | error err =>
            have hpanic : anyRowMatches B mySerialFilter = panic := by
              unfold anyRowMatches
              rw [hparse]
            rw [hpanic]
            exact InTx.panic.bind (Q := fun _ _ => False) fun _ _ h => h.elim
        | ok f =>
            apply (inTx_anyRowMatches db'' hparse).bind
            rintro blocked db' ⟨rfl, hshallow, hblocked⟩
            apply InTx.pure
            refine ⟨rfl, ?_⟩
            dsimp only
            rw [if_neg hshallow, ← hblocked]
            cases blocked <;> rfl
      · exact .pure ⟨rfl, rfl⟩

/-- A registration, from the tables before it to the tables after it. -/
structure Commits (B : Bdd String) (kill : ℕ → Bool) (c : Registrant) (before after : Db)
    (id : ℕ) : Prop where
  starts : Skuld.canStart B (Skuld.cleanStaleEntries kill c.instanceId before) c.labels c.filter =
    some true
  registered : Registered
    (before.deleteWhere fun r => r.instanceId ≠ c.instanceId && isStale kill r.instanceId) after
    ⟨id, c.instanceId, c.name, c.filter⟩ c.labels

theorem Commits.of_attempt {kill : ℕ → Bool} {c : Registrant} {before after : Db} {id : ℕ}
    (h : attempt B kill c.instanceId before c.name c.labels c.filter = some (some (id, after))) :
    Commits B kill c before after id := by
  rcases attempt_eq_some_iff h with ⟨hnone, -⟩ | ⟨id', after', heq, hstart, hnew⟩
  · cases hnone
  · cases heq
    exact ⟨hstart, cleanStaleEntries_eq kill c.instanceId before ▸ hnew⟩

/-- A transaction makes the attempt, or it changes nothing. -/
theorem ended_txn (kill : ℕ → Bool) (c : Registrant) (s : Session Db) :
    Ended ((txn B kill c).run s) s.conn.committed fun outcome after =>
      match outcome with
      | some id => attempt B kill c.instanceId s.conn.committed c.name c.labels c.filter =
          some (some (id, after))
      | none => after = s.conn.committed := by
  apply Ends.transaction
  apply Ends.bind (inTx_cleanStaleEntries kill c.instanceId _)
  rintro _ cleaned rfl
  apply Ends.bind (inTx_canStart c.labels c.filter _)
  rintro start db' ⟨rfl, hstart⟩
  cases start with
  | true =>
      apply Ends.bind (inTx_register c _)
      intro id after hregister
      apply Ends.commit
      simp [attempt, hstart, hregister]
  | false =>
      apply Ends.rollback
      rfl

end Sql

/-! ## The loop -/

/-- The arm that a round of the loop ends in. -/
inductive Arm where
  | registered (id : ℕ)
  /-- A refusal or a busy error; `rolledBack` is whether the `ROLLBACK` succeeded. -/
  | retry (rolledBack : Bool)
  | panicked
  deriving DecidableEq

/-- The connection is dropped. -/
def dropConn (s : Session Db) : Session Db :=
  { s with conn := ⟨s.conn.committed, none⟩ }

def iteration (B : Bdd String) (kill : ℕ → Bool) (c : Registrant) (s : Session Db) :
    Arm × Session Db :=
  match (Sql.txn B kill c).run s with
  | (.ok (some id), s') => (.registered id, s')
  | (.ok none, s') => (.retry true, s')
  | (.error .busy, s') => (.retry (rollback.run s').1.isOk, (rollback.run s').2)
  | (.error .error, s') => (.panicked, dropConn (rollback.run s').2)
  | (.error .panic, s') => (.panicked, dropConn s')

/-- What happens around a round: what other connections commit before it, and
which processes are alive. -/
structure Surroundings where
  others : Db → Db
  kill : ℕ → Bool

/-- Other connections cannot write while this one is in a transaction. -/
def interfere (others : Db → Db) (s : Session Db) : Session Db :=
  if s.conn.tx = none then { s with conn := ⟨others s.conn.committed, none⟩ } else s

/-- The committed tables before and after a round. -/
structure Round where
  kill : ℕ → Bool
  before : Db
  after : Db

inductive LoopResult where
  | guard (id : ℕ)
  | panicked
  | waiting
  deriving DecidableEq

/-- The first rounds of the loop, at most `fuel` of them. -/
def loop (B : Bdd String) (c : Registrant) :
    ℕ → (ℕ → Surroundings) → Session Db → LoopResult × List Round
  | 0, _, _ => (.waiting, [])
  | fuel + 1, around, s =>
      let s := interfere (around 0).others s
      let round s' := (⟨(around 0).kill, s.conn.committed, s'⟩ : Round)
      match iteration B (around 0).kill c s with
      | (.registered id, s') => (.guard id, [round s'.conn.committed])
      | (.panicked, s') => (.panicked, [round s'.conn.committed])
      | (.retry _, s') =>
          let rest := loop B c fuel (fun n => around (n + 1)) s'
          (rest.1, round s'.conn.committed :: rest.2)

/-- `coordinate` from the open connection on. -/
def coordinate (B : Bdd String) (instanceId name : String) (labels : List Label)
    (serialFilter : String) (fuel : ℕ) (around : ℕ → Surroundings) (s : Session Db) :
    LoopResult × List Round :=
  match toStorage B serialFilter with
  | none => (.panicked, [])
  | some filter => loop B ⟨instanceId, name, labels, filter⟩ fuel around s

variable {B : Bdd String} {kill : ℕ → Bool} {c : Registrant}

namespace Sql.Commits

/-- A registration changes the tables: it takes an id. -/
theorem ne {before after : Db} {id : ℕ} (h : Commits B kill c before after id) :
    after ≠ before := by
  intro heq
  have hsequence : after.sequence = before.sequence + 1 :=
    h.registered.sequence_eq.trans h.registered.id_eq
  rw [heq] at hsequence
  omega

end Sql.Commits

/-- What each arm leaves behind. -/
def Arm.Leaves (B : Bdd String) (kill : ℕ → Bool) (c : Registrant) (before : Db)
    (s' : Session Db) : Arm → Prop
  | .registered id => Sql.Commits B kill c before s'.conn.committed id ∧ s'.conn.tx = none
  | .retry rolledBack => s'.conn.committed = before ∧ (rolledBack = true → s'.conn.tx = none)
  | .panicked => s'.conn.committed = before ∧ s'.conn.tx = none

theorem iteration_leaves (B : Bdd String) (kill : ℕ → Bool) (c : Registrant) (s : Session Db) :
    (iteration B kill c s).1.Leaves B kill c s.conn.committed (iteration B kill c s).2 := by
  have hended := Sql.ended_txn (B := B) kill c s
  unfold iteration
  rcases hrun : (Sql.txn B kill c).run s with ⟨r, s'⟩
  rw [hrun] at hended
  rcases hended with ⟨outcome, rfl, htx, hcommitted⟩ | ⟨fault, rfl, hcommitted⟩
  · cases outcome with
    | some id => exact ⟨.of_attempt hcommitted, htx⟩
    | none => exact ⟨hcommitted, fun _ => htx⟩
  · have hrollback : (rollback.run s').2.conn.committed = s.conn.committed :=
      (committed_run_rollback s').trans hcommitted
    cases fault with
    | busy =>
        refine ⟨hrollback, ?_⟩
        intro hok
        apply tx_of_run_rollback
        cases hresult : (rollback.run s').1 with
        | ok u => rfl
        | error fault =>
            rw [hresult] at hok
            cases hok
    | error => exact ⟨hrollback, rfl⟩
    | panic => exact ⟨hcommitted, rfl⟩

/-- The rounds of a list that changed the tables. -/
def changes (rounds : List Round) : List Round :=
  rounds.filter fun round => round.after ≠ round.before

/-- What the rounds of a loop are. -/
structure RoundsOf (B : Bdd String) (c : Registrant) (out : LoopResult × List Round) : Prop where
  each : ∀ round ∈ out.2, round.after = round.before ∨
    ∃ id, Sql.Commits B round.kill c round.before round.after id
  guard_iff : (∃ id, out.1 = .guard id) ↔ (changes out.2).length = 1

theorem changes_cons_of_eq {round : Round} (h : round.after = round.before) (rounds : List Round) :
    changes (round :: rounds) = changes rounds := by
  simp [changes, h]

theorem changes_cons_of_ne {round : Round} (h : round.after ≠ round.before)
    (rounds : List Round) : changes (round :: rounds) = round :: changes rounds := by
  simp [changes, h]

/-- By induction on the rounds: only the last one can be a registration. -/
theorem loop_rounds (B : Bdd String) (c : Registrant) (fuel : ℕ) (around : ℕ → Surroundings)
    (s : Session Db) :
    RoundsOf B c (loop B c fuel around s) := by
  induction fuel generalizing around s with
  | zero =>
      constructor
      · intro round hround
        cases hround
      · simp [loop, changes]
  | succ fuel ih =>
      have hleaves := iteration_leaves B (around 0).kill c (interfere (around 0).others s)
      unfold loop
      dsimp only
      rcases hround : iteration B (around 0).kill c (interfere (around 0).others s) with ⟨arm, s'⟩
      rw [hround] at hleaves
      cases arm with
      | registered id =>
          obtain ⟨hcommits, -⟩ := hleaves
          constructor
          · intro round hmem
            obtain rfl := List.mem_singleton.mp hmem
            exact .inr ⟨id, hcommits⟩
          · rw [changes_cons_of_ne hcommits.ne]
            simp [changes]
      | panicked =>
          obtain ⟨hsame, -⟩ := hleaves
          constructor
          · intro round hmem
            obtain rfl := List.mem_singleton.mp hmem
            exact .inl hsame
          · rw [changes_cons_of_eq hsame]
            simp [changes]
      | retry rolledBack =>
          obtain ⟨hsame, -⟩ := hleaves
          have hrest := ih (fun n => around (n + 1)) s'
          constructor
          · intro round hmem
            rcases List.mem_cons.mp hmem with rfl | hmem
            · exact .inl hsame
            · exact hrest.each round hmem
          · rw [changes_cons_of_eq hsame]
            exact hrest.guard_iff

/-- Whatever fails: a round registers the test as a whole or changes nothing, a
retry whose `ROLLBACK` succeeded has no transaction open, and a guard is returned
exactly if one round has registered the test. -/
theorem coordinate_atomic (B : Bdd String) (instanceId name : String) (labels : List Label)
    (serialFilter : String) :
    (∀ fuel around s,
      let out := coordinate B instanceId name labels serialFilter fuel around s
      (∀ round ∈ out.2, round.after = round.before ∨
        ∃ filter id, toStorage B serialFilter = some filter ∧
          Sql.Commits B round.kill ⟨instanceId, name, labels, filter⟩ round.before round.after id) ∧
      ((∃ id, out.1 = .guard id) ↔ (changes out.2).length = 1)) ∧
    ∀ kill filter s,
      (iteration B kill ⟨instanceId, name, labels, filter⟩ s).1 = .retry true →
        (iteration B kill ⟨instanceId, name, labels, filter⟩ s).2.conn.tx = none := by
  constructor
  · intro fuel around s
    unfold coordinate
    cases hfilter : toStorage B serialFilter with
    | none =>
        constructor
        · intro round hround
          cases hround
        · simp [changes]
    | some filter =>
        obtain ⟨heach, hguard⟩ :=
          loop_rounds B ⟨instanceId, name, labels, filter⟩ fuel around s
        refine ⟨?_, hguard⟩
        intro round hround
        rcases heach round hround with hsame | ⟨id, hcommits⟩
        · exact .inl hsame
        · exact .inr ⟨filter, id, rfl, hcommits⟩
  · intro kill filter s harm
    have hleaves := iteration_leaves B kill ⟨instanceId, name, labels, filter⟩ s
    rw [harm] at hleaves
    exact hleaves.2 rfl

/-- A test that nothing is in the way of. -/
theorem coordinate_atomic_free :
    (changes (coordinate (shannon String) "7:100" "plain" [] "" 1 (fun _ => ⟨id, fun _ => true⟩)
      ⟨⟨.empty, none⟩, fun _ => .ok⟩).2).length = 1 :=
  ((coordinate_atomic (shannon String) "7:100" "plain" [] "").1 1 _ _).2.mp
    ⟨1, by decide +kernel⟩

end Skuld
