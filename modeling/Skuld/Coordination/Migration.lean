import Skuld.Coordination.Scrub
import Skuld.Lib.Transition

/-!
# Running the migration

Any number of connections run `migrate_schema` on one database.  A step is one
statement of one connection, with its outcome, or the end of a connection, which
rolls its transaction back.  At most one connection has a write transaction; it
works on a copy of the tables, which a `COMMIT` makes the committed tables.

Where a connection is in `migrate_schema` is its `Pc`.  `Inv` says, for the
connection with the transaction, what its copy is at that point (`At`); all
other connections can only wait, read the version or fail.
-/

namespace Skuld

open BoolExpr

/-- The next thing a connection does in `migrate_schema`. -/
inductive Pc where
  /-- `PRAGMA user_version`, outside the transaction. -/
  | readVersion
  /-- `BEGIN IMMEDIATE`. -/
  | acquire (current : ℕ)
  /-- `PRAGMA user_version`, inside the transaction. -/
  | recheck (current : ℕ)
  /-- The query of the scrub. -/
  | readRows
  /-- The loop of the scrub, with the rows to come. -/
  | scrub (rows : List RunningRow)
  /-- `PRAGMA user_version = 1`. -/
  | bump
  /-- `COMMIT`. -/
  | commit
  /-- `ROLLBACK`, after a `COMMIT` that failed. -/
  | rollback
  /-- The call panicked; the connection is still open. -/
  | failed
  /-- The connection is gone. -/
  | closed
  | returned
  deriving DecidableEq

/-- What SQLite makes of a statement.  Some errors roll the transaction back. -/
inductive Outcome where
  | ok
  | busy
  | error (rolledBack : Bool)
  deriving DecidableEq

structure Store where
  committed : Db
  /-- The connection with the write transaction, and its copy of the tables. -/
  tx : Option (ℕ × Db)
  pcs : ℕ → Pc

inductive MigrationEvent where
  | statement (p : ℕ) (outcome : Outcome)
  | close (p : ℕ)

namespace Store

def goto (s : Store) (p : ℕ) (pc : Pc) : Store :=
  { s with pcs := Function.update s.pcs p pc }

/-- The copy of the tables in the transaction of `p`. -/
def work (s : Store) (p : ℕ) : Option Db :=
  match s.tx with
  | some (q, db) => if q = p then some db else none
  | none => none

/-- The transaction of `p`, if it has one, is rolled back. -/
def rollbackOf (s : Store) (p : ℕ) : Store :=
  if (s.work p).isSome = true then { s with tx := none } else s

variable (B : Bdd String)

/-- A statement inside the transaction that succeeds. -/
def txStep (db : Db) : Pc → Option (Db × Pc)
  | .recheck current => some (db,
      if schemaVersion ≤ db.userVersion then .commit
      else if current < 1 then .readRows
      else .bump)
  | .readRows => some (db, .scrub (scrubRows db))
  | .scrub [] => some (db, .bump)
  | .scrub (r :: rows) => some (scrubRow B db r, .scrub rows)
  | .bump => some (db.setUserVersion schemaVersion, .commit)
  | _ => none

/-- Whether there is a statement that can fail. -/
def hasStatement : Pc → Bool
  | .recheck _ | .readRows | .bump => true
  | .scrub (r :: _) => (scrubUpdate B r).isSome
  | _ => false

def succeed (s : Store) (p : ℕ) : Option Store :=
  match s.pcs p with
  | .readVersion => some <| s.goto p <|
      if schemaVersion ≤ s.committed.userVersion then .returned
      else .acquire s.committed.userVersion
  | .acquire current =>
      if s.tx = none then
        some ({ s with tx := some (p, s.committed) }.goto p (.recheck current))
      else
        none
  | .commit => (s.work p).map fun db => { s with committed := db, tx := none }.goto p .returned
  | .rollback => (s.work p).map fun _ => (s.rollbackOf p).goto p .failed
  | pc => (s.work p).bind fun db => (txStep B db pc).map fun next =>
      { s with tx := some (p, next.1) }.goto p next.2

/-- What a failed statement does to the transaction. -/
def afterError (s : Store) (p : ℕ) (rolledBack : Bool) : Store :=
  if rolledBack then s.rollbackOf p else s

def fail (s : Store) (p : ℕ) (rolledBack : Bool) : Option Store :=
  match s.pcs p with
  | .readVersion | .acquire _ => some (s.goto p .failed)
  -- `ROLLBACK` only if the connection is still in its transaction
  | .commit =>
      some ((s.afterError p rolledBack).goto p (if rolledBack then .failed else .rollback))
  | .rollback => some ((s.afterError p rolledBack).goto p .failed)
  | pc => if hasStatement B pc then some ((s.afterError p rolledBack).goto p .failed) else none

def step (s : Store) : MigrationEvent → Option Store
  | .statement p .ok => s.succeed B p
  | .statement p .busy =>
      match s.pcs p with
      -- `retry_busy`
      | .readVersion | .acquire _ => some s
      | _ => s.fail B p false
  | .statement p (.error rolledBack) => s.fail B p rolledBack
  | .close p =>
      match s.pcs p with
      | .returned | .closed => none
      | _ => some ((s.rollbackOf p).goto p .closed)

/-- All connections are before their first statement. -/
def machine (original : Db) : Machine Store MigrationEvent where
  init s := s.committed = original ∧ s.tx = none ∧ ∀ p, s.pcs p = .readVersion
  step := step B

/-! ## The invariant -/

/-- What the copy `db` of the connection with the transaction is. -/
def At (original committed db : Db) : Pc → Prop
  | .recheck _ => db = committed
  | .readRows => committed = original ∧ db = original
  | .scrub rows => committed = original ∧ Scrubbed B original rows db
  | .bump => committed = original ∧ Scrubbed B original [] db
  | .commit => db = migrated B original
  | .rollback | .failed => True
  | _ => False

structure Inv (original : Db) (s : Store) : Prop where
  committed_cases : s.committed = original ∨ s.committed = migrated B original
  current_lt : ∀ p current, s.pcs p = .acquire current ∨ s.pcs p = .recheck current → current < 1
  tx_at : ∀ p db, s.tx = some (p, db) → At B original s.committed db (s.pcs p)
  returned_eq : ∀ p, s.pcs p = .returned → s.committed = migrated B original

/-- What a step does: it keeps the invariant, and the committed tables change to
the migrated ones at most. -/
structure StepsTo (original : Db) (s s' : Store) : Prop where
  inv : Inv B original s'
  committed_eq : s'.committed = s.committed ∨ s'.committed = migrated B original

variable {B} {original : Db} {s s' : Store} {p : ℕ}

theorem work_eq_some {db : Db} : s.work p = some db ↔ s.tx = some (p, db) := by
  unfold work
  cases s.tx with
  | none => simp
  | some owner =>
      obtain ⟨q, db'⟩ := owner
      by_cases hq : q = p <;> simp [hq]

@[simp] theorem rollbackOf_committed : (s.rollbackOf p).committed = s.committed := by
  unfold rollbackOf
  split_ifs <;> rfl

@[simp] theorem rollbackOf_pcs : (s.rollbackOf p).pcs = s.pcs := by
  unfold rollbackOf
  split_ifs <;> rfl

/-- A rollback leaves the transactions of the others. -/
theorem rollbackOf_tx {q : ℕ} {db : Db} (h : (s.rollbackOf p).tx = some (q, db)) :
    q ≠ p ∧ s.tx = some (q, db) := by
  unfold rollbackOf at h
  split_ifs at h with howner
  refine ⟨?_, h⟩
  rintro rfl
  exact howner (by rw [work_eq_some.mpr h, Option.isSome_some])

namespace Inv

/-- `p` moves on to `pc`: what remains to be said of the new state is what is
said of `p`, and that the others have kept what they had. -/
theorem move (h : Inv B original s) {pc : Pc} (hpcs : s'.pcs = Function.update s.pcs p pc)
    (hcommitted : s'.committed = s.committed ∨ s'.committed = migrated B original)
    (hcurrent : ∀ current, pc = .acquire current ∨ pc = .recheck current → current < 1)
    (hat : ∀ db, s'.tx = some (p, db) → At B original s'.committed db pc)
    (hothers : ∀ q db, q ≠ p → s'.tx = some (q, db) →
      s.tx = some (q, db) ∧ s'.committed = s.committed)
    (hreturned : pc = .returned → s'.committed = migrated B original) :
    StepsTo B original s s' where
  committed_eq := hcommitted
  inv :=
    { committed_cases := by
        rcases hcommitted with heq | heq
        · rw [heq]
          exact h.committed_cases
        · exact .inr heq
      current_lt := by
        intro q current hq
        rw [hpcs] at hq
        by_cases hqp : q = p
        · subst hqp
          rw [Function.update_self] at hq
          exact hcurrent current hq
        · rw [Function.update_of_ne hqp] at hq
          exact h.current_lt q current hq
      tx_at := by
        intro q db hq
        rw [hpcs]
        by_cases hqp : q = p
        · subst hqp
          rw [Function.update_self]
          exact hat db hq
        · obtain ⟨htx, heq⟩ := hothers q db hqp hq
          rw [Function.update_of_ne hqp, heq]
          exact h.tx_at q db htx
      returned_eq := by
        intro q hq
        rw [hpcs] at hq
        by_cases hqp : q = p
        · subst hqp
          rw [Function.update_self] at hq
          exact hreturned hq
        · rw [Function.update_of_ne hqp] at hq
          have hmigrated := h.returned_eq q hq
          rcases hcommitted with heq | heq
          · rw [heq, hmigrated]
          · exact heq }

/-- A step outside the transaction. -/
theorem goto (h : Inv B original s) {pc : Pc} (htx : ∀ db, s.tx ≠ some (p, db))
    (hcurrent : ∀ current, pc = .acquire current ∨ pc = .recheck current → current < 1)
    (hreturned : pc = .returned → s.committed = migrated B original) :
    StepsTo B original s (s.goto p pc) := by
  have hpcs : (s.goto p pc).pcs = Function.update s.pcs p pc := rfl
  refine h.move hpcs (.inl rfl) hcurrent ?_ ?_ hreturned
  · intro db hdb
    exact absurd hdb (htx db)
  · intro q db _ hdb
    exact ⟨hdb, rfl⟩

/-- `p` goes on in its transaction. -/
theorem inTx (h : Inv B original s) {db' : Db} {pc : Pc}
    (hcurrent : ∀ current, pc = .acquire current ∨ pc = .recheck current → current < 1)
    (hat : At B original s.committed db' pc) (hreturned : pc ≠ .returned) :
    StepsTo B original s ({ s with tx := some (p, db') }.goto p pc) := by
  have hpcs : ({ s with tx := some (p, db') }.goto p pc).pcs = Function.update s.pcs p pc := rfl
  refine h.move hpcs (.inl rfl) hcurrent ?_ ?_ (absurd · hreturned)
  · intro db'' hdb
    cases hdb
    exact hat
  · intro q db'' hq hdb
    cases hdb
    exact absurd rfl hq

/-- The transaction of `p` ends without a `COMMIT`. -/
theorem rolledBack (h : Inv B original s) {pc : Pc}
    (hpc : pc = .failed ∨ pc = .closed) : StepsTo B original s ((s.rollbackOf p).goto p pc) := by
  have hpcs : ((s.rollbackOf p).goto p pc).pcs = Function.update s.pcs p pc := by
    rw [Store.goto, rollbackOf_pcs]
  refine h.move hpcs (.inl rollbackOf_committed) ?_ ?_ ?_ ?_
  · rintro current (rfl | rfl) <;> simp at hpc
  · intro db hdb
    exact absurd rfl (rollbackOf_tx hdb).1
  · intro q db _ hdb
    exact ⟨(rollbackOf_tx hdb).2, rollbackOf_committed⟩
  · rintro rfl
    simp at hpc

/-- A failed statement that leaves the transaction open. -/
theorem leftOpen (h : Inv B original s) {pc : Pc} (hpc : pc = .failed ∨ pc = .rollback) :
    StepsTo B original s (s.goto p pc) := by
  have hpcs : (s.goto p pc).pcs = Function.update s.pcs p pc := rfl
  refine h.move hpcs (.inl rfl) ?_ ?_ ?_ ?_
  · rintro current (rfl | rfl) <;> simp at hpc
  · intro db _
    rcases hpc with rfl | rfl <;> trivial
  · intro q db _ hdb
    exact ⟨hdb, rfl⟩
  · rintro rfl
    simp at hpc

/-- The version tells the original tables from the migrated ones. -/
theorem committed_eq_migrated (h : Inv B original s) (hversion : original.userVersion = 0)
    (hle : schemaVersion ≤ s.committed.userVersion) : s.committed = migrated B original := by
  rcases h.committed_cases with heq | heq
  · rw [heq, hversion] at hle
    exact absurd hle (by decide)
  · exact heq

theorem committed_eq_original (h : Inv B original s)
    (hlt : ¬ schemaVersion ≤ s.committed.userVersion) : s.committed = original := by
  rcases h.committed_cases with heq | heq
  · exact heq
  · rw [heq] at hlt
    exact absurd (Nat.le_refl schemaVersion) hlt

/-- A statement inside the transaction takes the copy from one point to the next. -/
theorem at_txStep (h : Inv B original s) (hversion : original.userVersion = 0) {db : Db}
    (htx : s.tx = some (p, db)) {next : Db × Pc} (hnext : txStep B db (s.pcs p) = some next) :
    At B original s.committed next.1 next.2 ∧ next.2 ≠ .returned ∧
      ∀ current, next.2 ≠ .acquire current ∧ next.2 ≠ .recheck current := by
  have hat := h.tx_at p db htx
  cases hpc : s.pcs p with
  | recheck current =>
      rw [hpc] at hat hnext
      simp only [txStep, Option.some.injEq] at hnext
      subst hnext
      obtain rfl : db = s.committed := hat
      split_ifs with hle hlt
      · exact ⟨h.committed_eq_migrated hversion hle, by simp⟩
      · exact ⟨⟨h.committed_eq_original hle, h.committed_eq_original hle⟩, by simp⟩
      · exact absurd (h.current_lt p current (.inr hpc)) hlt
  | readRows =>
      rw [hpc] at hat hnext
      simp only [txStep, Option.some.injEq] at hnext
      subst hnext
      obtain ⟨hcommitted, rfl⟩ := hat
      exact ⟨⟨hcommitted, .start db⟩, by simp⟩
  | scrub rows =>
      rw [hpc] at hat hnext
      cases rows with
      | nil =>
          simp only [txStep, Option.some.injEq] at hnext
          subst hnext
          exact ⟨hat, by simp⟩
      | cons r rows =>
          simp only [txStep, Option.some.injEq] at hnext
          subst hnext
          exact ⟨⟨hat.1, hat.2.next⟩, by simp⟩
  | bump =>
      rw [hpc] at hat hnext
      simp only [txStep, Option.some.injEq] at hnext
      subst hnext
      exact ⟨hat.2.setUserVersion, by simp⟩
  | _ =>
      rw [hpc] at hnext
      simp [txStep] at hnext

/-- A connection outside the transaction does not have it. -/
theorem tx_ne (h : Inv B original s) (hpc : ∀ committed db, ¬ At B original committed db (s.pcs p))
    (db : Db) : s.tx ≠ some (p, db) := by
  intro htx
  exact hpc _ _ (h.tx_at p db htx)

/-- The `COMMIT` of the migration. -/
theorem commit (h : Inv B original s) {db : Db} (htx : s.tx = some (p, db))
    (hpc : s.pcs p = .commit) :
    StepsTo B original s ({ s with committed := db, tx := none }.goto p .returned) := by
  have hdb : db = migrated B original := by
    have hat := h.tx_at p db htx
    rw [hpc] at hat
    exact hat
  have hpcs : ({ s with committed := db, tx := none }.goto p .returned).pcs =
      Function.update s.pcs p .returned := rfl
  refine h.move hpcs (.inr hdb) (by simp) ?_ ?_ fun _ => hdb
  · intro db' hnone
    cases hnone
  · intro q db' _ hnone
    cases hnone

theorem succeed (h : Inv B original s) (hversion : original.userVersion = 0)
    (hstep : s.succeed B p = some s') : StepsTo B original s s' := by
  unfold Store.succeed at hstep
  split at hstep
  · rename_i hpc
    cases hstep
    have htx := h.tx_ne (p := p) (by simp [hpc, At])
    split_ifs with hle
    · exact h.goto htx (by simp) fun _ => h.committed_eq_migrated hversion hle
    · refine h.goto htx ?_ (by simp)
      rintro current (heq | heq)
      · cases heq
        exact Nat.lt_of_not_le hle
      · cases heq
  · rename_i current hpc
    obtain ⟨-, heq⟩ := Option.ite_none_right_eq_some.mp hstep
    cases heq
    refine h.inTx ?_ rfl (by simp)
    rintro current' (heq | heq)
    · cases heq
    · cases heq
      exact h.current_lt p current (.inl hpc)
  · rename_i hpc
    obtain ⟨db, hdb, heq⟩ := Option.map_eq_some_iff.mp hstep
    cases heq
    exact h.commit (work_eq_some.mp hdb) hpc
  · obtain ⟨db, -, heq⟩ := Option.map_eq_some_iff.mp hstep
    cases heq
    exact h.rolledBack (.inl rfl)
  · obtain ⟨db, hdb, heq⟩ := Option.bind_eq_some_iff.mp hstep
    obtain ⟨next, hnext, heq⟩ := Option.map_eq_some_iff.mp heq
    cases heq
    obtain ⟨hat, hreturned, hcurrent⟩ := h.at_txStep hversion (work_eq_some.mp hdb) hnext
    refine h.inTx ?_ hat hreturned
    intro current hpc
    exact (hpc.elim (hcurrent current).1 (hcurrent current).2).elim

theorem fail (h : Inv B original s) {rolledBack : Bool} (hstep : s.fail B p rolledBack = some s') :
    StepsTo B original s s' := by
  have hfailed : StepsTo B original s
      ((s.afterError p rolledBack).goto p .failed) := by
    unfold afterError
    split_ifs
    · exact h.rolledBack (.inl rfl)
    · exact h.leftOpen (.inl rfl)
  unfold Store.fail at hstep
  split at hstep
  · cases hstep
    exact h.leftOpen (.inl rfl)
  · cases hstep
    exact h.leftOpen (.inl rfl)
  · cases hstep
    cases rolledBack with
    | true => exact h.rolledBack (.inl rfl)
    | false => exact h.leftOpen (.inr rfl)
  · cases hstep
    exact hfailed
  · obtain ⟨-, heq⟩ := Option.ite_none_right_eq_some.mp hstep
    cases heq
    exact hfailed

theorem step (h : Inv B original s) (hversion : original.userVersion = 0) {e : MigrationEvent}
    (hstep : s.step B e = some s') : StepsTo B original s s' := by
  cases e with
  | statement p outcome =>
      cases outcome with
      | ok => exact h.succeed hversion hstep
      | busy =>
          simp only [Store.step] at hstep
          split at hstep
          · cases hstep
            exact ⟨h, .inl rfl⟩
          · cases hstep
            exact ⟨h, .inl rfl⟩
          · exact h.fail hstep
      | error rolledBack => exact h.fail hstep
  | close p =>
      simp only [Store.step] at hstep
      split at hstep
      · cases hstep
      · cases hstep
      · cases hstep
        exact h.rolledBack (.inr rfl)

theorem of_init (hinit : (machine B original).init s) : Inv B original s := by
  obtain ⟨hcommitted, htx, hpcs⟩ := hinit
  constructor
  · exact .inl hcommitted
  · simp [hpcs]
  · simp [htx]
  · simp [hpcs]

end Inv

theorem inv_of_reached (hversion : original.userVersion = 0) (h : (machine B original).Reached s) :
    Inv B original s :=
  Machine.Inductive.reached
    ⟨Inv.of_init, fun hinv _ hstep => (hinv.step hversion hstep).inv⟩ h

/-- Along a run, the version never decreases. -/
theorem userVersion_le_of_run (hversion : original.userVersion = 0) {events : List MigrationEvent}
    (h : Inv B original s) (hrun : (machine B original).run s events = some s') :
    s.committed.userVersion ≤ s'.committed.userVersion := by
  induction events generalizing s with
  | nil =>
      cases hrun
      exact Nat.le_refl _
  | cons e events ih =>
      obtain ⟨middle, hstep, hrun⟩ := Option.bind_eq_some_iff.mp hrun
      have hsteps := h.step hversion hstep
      calc s.committed.userVersion
          ≤ middle.committed.userVersion := by
            rcases hsteps.committed_eq with heq | heq
            · rw [heq]
            · rw [heq]
              rcases h.committed_cases with heq | heq
              · rw [heq, hversion]
                exact Nat.zero_le _
              · rw [heq]
        _ ≤ s'.committed.userVersion := ih hsteps.inv hrun

/-- The migration happens as a whole or not at all, and no decision depends on
whether it has happened. -/
theorem migration_atomic {original : Db} (hversion : original.userVersion = 0) :
    (∀ s, (machine B original).Reached s →
      s.committed = original ∨ s.committed = migrated B original) ∧
    (∀ s events s', (machine B original).Reached s → (machine B original).run s events = some s' →
      s.committed.userVersion ≤ s'.committed.userVersion) ∧
    (∀ s p, (machine B original).Reached s → s.pcs p = .returned →
      schemaVersion ≤ s.committed.userVersion) ∧
    scrubSerialFiltersV1 B (migrated B original) = migrated B original ∧
    ∀ labels filter,
      canStart B (migrated B original) labels filter = canStart B original labels filter := by
  refine ⟨?_, ?_, ?_, scrubSerialFiltersV1_migrated original, canStart_migrated original⟩
  · intro s hs
    exact (inv_of_reached hversion hs).committed_cases
  · intro s events s' hs hrun
    exact userVersion_le_of_run hversion (inv_of_reached hversion hs) hrun
  · intro s p hs hp
    rw [(inv_of_reached hversion hs).returned_eq p hp]
    exact Nat.le_refl _

/-- Rows that an older version may have left. -/
def legacyDb : Db where
  running :=
    [⟨1, "7:100", "a", "fast | !fast"⟩, ⟨2, "7:100", "b", "fast |"⟩, ⟨4, "8:100", "c", "*"⟩]
  labels := [⟨1, "db"⟩, ⟨4, "fast"⟩]
  sequence := 4
  userVersion := 0
  ids_nodup := by decide
  ids_le := by decide
  labels_ref := by decide

theorem migration_atomic_legacy :
    (∀ s, (machine (shannon String) legacyDb).Reached s →
      s.committed = legacyDb ∨ s.committed = migrated (shannon String) legacyDb) ∧
    ∀ labels filter, canStart (shannon String) (migrated (shannon String) legacyDb) labels filter =
      canStart (shannon String) legacyDb labels filter := by
  obtain ⟨hcommitted, -, -, -, hdecisions⟩ :=
    migration_atomic (B := shannon String) (show legacyDb.userVersion = 0 from rfl)
  exact ⟨hcommitted, hdecisions⟩

end Store

end Skuld
