import Mathlib.Tactic.Common
import Skuld.Lib.Transition

/-!
# A moved database

A connection keeps writing to the files it opened, whatever their paths name by
now.  `DbIdentity` records the files, `hasMoved` compares the paths with the
record, and the checks of a trial stand between its writes.

The trial is a machine whose steps are the checks, file lookups and statements of
`open_db`, `coordinate`, the body and the drop of the guard, in the order of the
source (`afterCheck`, `afterOk`, `afterBusy`).  Between any two steps an adversary
may, once and for good, make a path name another file than the connection has
open (`Strike`).

The last check of the drop would do by itself, since the change is permanent:
what matters is that the record is of the connection's own files
(`Inv.identity_own`), that it is complete by then (`Inv.identity_complete`), and
that a panic of the drop is not lost while the thread is unwinding (`raise`).
-/

namespace Skuld

/-- Device and inode. -/
structure FileIdentity where
  dev : ℕ
  ino : ℕ
  deriving DecidableEq

/-- The paths that are looked up: the caller's, SQLite's own name for the main
file, and that name with `-wal` and `-shm`. -/
inductive DbPath where
  | caller
  | sqlite
  | wal
  | shm
  deriving DecidableEq

/-- What each path names; `none` if it names nothing. -/
abbrev Fs := DbPath → Option FileIdentity

structure Companions where
  wal : FileIdentity
  shm : FileIdentity
  deriving DecidableEq

structure DbIdentity where
  main : FileIdentity
  companions : Option Companions
  deriving DecidableEq

/-- `SQLITE_FCNTL_HAS_MOVED`: SQLite compares inodes only. -/
def hasMovedViaFcntl (fs : Fs) (own : FileIdentity) : Bool :=
  (fs .sqlite).map FileIdentity.ino ≠ some own.ino

def Companions.hasMoved (c : Companions) (fs : Fs) : Bool :=
  fs .wal ≠ some c.wal || fs .shm ≠ some c.shm

/-- `own` is the main file that the connection has open. -/
def DbIdentity.hasMoved (identity : DbIdentity) (fs : Fs) (own : FileIdentity) : Bool :=
  hasMovedViaFcntl fs own || fs .caller ≠ some identity.main ||
    identity.companions.any fun c => c.hasMoved fs

/-- Where a trial is.  The lookups carry what they compare with. -/
inductive TrialPc where
  -- `record_main`
  | mainFd
  | sqlitePath (main : FileIdentity)
  | callerPath (main : FileIdentity)
  -- `ensure_schema_locked`
  | initCheck
  | initSplit
  | initSql
  | initAfter
  | initAfterSplit
  -- `migrate_schema`
  | version
  | lockCheck
  | lock
  | lockedCheck
  | recheck
  | earlyCommit
  | scrubRead
  | scrubLoop
  | updateCheck
  | update
  | bumpCheck
  | bump
  | bumpedCheck
  | commit
  | committedCheck
  -- the end of `open_db`
  | schemaSplit
  | companionFds
  | walPath (c : Companions)
  | shmPath (c : Companions)
  | openSplit
  -- `coordinate`
  | toStorage
  | loopCheck
  | txn
  | registeredCheck
  | body
  -- the drop of the guard
  | dropCheck
  | delete
  | lastCheck
  | done
  deriving DecidableEq

namespace TrialPc

/-- Where a check goes on that finds nothing moved. -/
def afterCheck : TrialPc → Option TrialPc
  | initCheck => some initSplit
  | initAfter => some initAfterSplit
  | lockCheck => some lock
  | lockedCheck => some recheck
  | updateCheck => some update
  | bumpCheck => some bump
  | bumpedCheck => some commit
  | committedCheck => some schemaSplit
  | loopCheck => some txn
  | registeredCheck => some body
  | dropCheck => some delete
  | lastCheck => some done
  | _ => none

/-- Where a statement goes on that succeeds, or a check of the init lock.  `answer`
is whether the schema is up to date (`version`, `recheck`), whether there is another
row to update (`scrubLoop`), or whether the test was registered (`txn`). -/
def afterOk (answer : Bool) : TrialPc → Option TrialPc
  | initSplit => some initSql
  | initSql => some initAfter
  | initAfterSplit => some version
  | version => some (if answer then schemaSplit else lockCheck)
  | lock => some lockedCheck
  | recheck => some (if answer then earlyCommit else scrubRead)
  | earlyCommit => some schemaSplit
  | scrubRead => some scrubLoop
  | scrubLoop => some (if answer then updateCheck else bumpCheck)
  | update => some scrubLoop
  | bump => some bumpedCheck
  | commit => some committedCheck
  | schemaSplit => some companionFds
  | openSplit => some toStorage
  | toStorage => some loopCheck
  | txn => some (if answer then registeredCheck else loopCheck)
  | delete => some lastCheck
  | _ => none

/-- Where a busy error is retried. -/
def afterBusy : TrialPc → Option TrialPc
  | initSql => some initCheck
  | version => some version
  | lock => some lockCheck
  | txn => some loopCheck
  | delete => some dropCheck
  | _ => none

/-- Whether there is something that can fail. -/
def canFail (pc : TrialPc) : Bool :=
  (pc.afterOk true).isSome && pc ≠ scrubLoop

/-- Lookups of a file that has been read off the connection. -/
def pending : TrialPc → Bool
  | sqlitePath _ | callerPath _ | walPath _ | shmPath _ => true
  | _ => false

/-- The main file has been recorded. -/
def opened : TrialPc → Bool
  | mainFd | sqlitePath _ | callerPath _ | done => false
  | _ => true

/-- The companions have been recorded too. -/
def recorded : TrialPc → Bool
  | openSplit | toStorage | loopCheck | txn | registeredCheck | body | dropCheck | delete
  | lastCheck => true
  | _ => false

/-- Inside the drop of the guard. -/
def inDrop : TrialPc → Bool
  | dropCheck | delete | lastCheck => true
  | _ => false

end TrialPc

structure TrialRun where
  pc : TrialPc
  fs : Fs
  /-- The files that the connection has open. -/
  main : FileIdentity
  companions : Option Companions
  /-- The record. -/
  identity : Option DbIdentity
  /-- The thread is unwinding. -/
  unwinding : Bool
  /-- The thread panicked in Skuld, not in the body. -/
  raised : Bool
  violations : List String
  /-- The adversary has struck. -/
  struck : Bool

inductive TrialEvent where
  | strike (fs : Fs)
  /-- SQLite opens the companions, creating what is missing. -/
  | openCompanions (c : Companions) (fs : Fs)
  /-- A check or a lookup. -/
  | look
  | ok (answer : Bool)
  | busy
  | fail (message : String)
  | body (panics : Bool)

namespace TrialRun

/-- Some path does not name the file that the connection has open. -/
def Moved (t : TrialRun) (fs : Fs) : Prop :=
  hasMovedViaFcntl fs t.main = true ∨ fs .caller ≠ some t.main ∨
    ∃ c ∈ t.companions, c.hasMoved fs = true

instance (t : TrialRun) (fs : Fs) : Decidable (t.Moved fs) :=
  inferInstanceAs (Decidable (_ ∨ _ ∨ _))

def downgradedWarningMessage (message : String) : String :=
  "[skuld] warning: coordination DB cleanup panicked while already unwinding from another " ++
    "panic (not re-raised, to avoid aborting the process): " ++ message

/-- A panic in Skuld.  Once there is a guard, unwinding drops it; in that drop a
panic becomes a recorded warning. -/
def raise (t : TrialRun) (message : String) : TrialRun :=
  if t.pc.inDrop then
    if t.unwinding then
      { t with violations := t.violations ++ [downgradedWarningMessage message], pc := .done }
    else
      { t with raised := true, pc := .done }
  else if t.pc = .registeredCheck then
    { t with raised := true, unwinding := true, pc := .dropCheck }
  else
    { t with raised := true, pc := .done }

/-- `path` is how messages show the caller's path. -/
def movedMessage (path : String) : String :=
  "skuld coordination DB " ++ path ++ " was deleted or replaced mid-run"

def hasMoved (t : TrialRun) : Bool :=
  t.identity.any fun identity => identity.hasMoved t.fs t.main

/-- The checks and the lookups. -/
def look (path : String) (t : TrialRun) : Option TrialRun :=
  match t.pc with
  | .mainFd => some { t with pc := .sqlitePath t.main }
  | .sqlitePath main => some <|
      if t.fs .sqlite = some main then { t with pc := .callerPath main }
      else t.raise "SQLite's own path no longer names the file the connection has open"
  | .callerPath main => some <|
      if t.fs .caller = some main then
        { t with identity := some ⟨main, none⟩, pc := .initCheck }
      else t.raise "the path disagreed with the connection just opened through it"
  | .companionFds => some <|
      match t.companions with
      | some c => { t with pc := .walPath c }
      | none => t.raise "the connection has no shared-memory file open"
  | .walPath c => some <|
      if t.fs .wal = some c.wal then { t with pc := .shmPath c }
      else t.raise "the -wal companion is missing or not the file this connection has open"
  | .shmPath c => some <|
      if t.fs .shm = some c.shm then
        { t with identity := t.identity.map fun id => ⟨id.main, some c⟩, pc := .openSplit }
      else t.raise "the -shm companion is missing or not the file this connection has open"
  | pc => pc.afterCheck.map fun next =>
      if t.hasMoved then t.raise (movedMessage path) else { t with pc := next }

/-- The adversary's step. -/
def Strike (t : TrialRun) (fs : Fs) : Prop :=
  t.struck = false ∧ t.pc ≠ .done ∧ t.Moved fs

instance (t : TrialRun) (fs : Fs) : Decidable (t.Strike fs) :=
  inferInstanceAs (Decidable (_ ∧ _ ∧ _))

def step (path : String) (t : TrialRun) : TrialEvent → Option TrialRun
  | .strike fs => if t.Strike fs then some { t with fs, struck := true } else none
  | .openCompanions c fs =>
      if t.pc = .initSql ∧ t.companions = none ∧ fs .caller = t.fs .caller ∧
          fs .sqlite = t.fs .sqlite then
        some { t with companions := some c, fs }
      else
        none
  | .look => t.look path
  | .ok answer =>
      -- `PRAGMA journal_mode = WAL` opens the companions
      if t.pc = .initSql ∧ t.companions = none then none
      else (t.pc.afterOk answer).map fun next => { t with pc := next }
  | .busy =>
      match t.pc.afterBusy with
      | some next => some { t with pc := next }
      | none => if t.pc.canFail then some (t.raise "database is locked") else none
  | .fail message => if t.pc.canFail then some (t.raise message) else none
  | .body panics =>
      if t.pc = .body then some { t with unwinding := panics, pc := .dropCheck } else none

/-- SQLite has just opened the main file. -/
def machine (path : String) : Machine TrialRun TrialEvent where
  init t := t.pc = .mainFd ∧ t.fs .caller = some t.main ∧ t.fs .sqlite = some t.main ∧
    t.companions = none ∧ t.identity = none ∧ t.unwinding = false ∧ t.raised = false ∧
    t.violations = [] ∧ t.struck = false
  step := step path

end TrialRun

/-! ## The conclusion of the run -/

structure Conclusion where
  numFailed : ℕ

def Conclusion.hasFailed (c : Conclusion) : Bool :=
  0 < c.numFailed

def failOnViolations (conclusion : Conclusion) (violations : List String) : Conclusion :=
  if !violations.isEmpty then
    { conclusion with numFailed := conclusion.numFailed + violations.length }
  else
    conclusion

theorem hasFailed_failOnViolations {violations : List String} (h : violations ≠ [])
    (conclusion : Conclusion) : (failOnViolations conclusion violations).hasFailed = true := by
  have hlength : 0 < violations.length := List.length_pos_of_ne_nil h
  rw [failOnViolations, if_pos (by simpa using h), Conclusion.hasFailed, decide_eq_true_eq]
  exact Nat.add_pos_right _ hlength

/-! ## The invariant -/

namespace TrialPc

variable {pc next : TrialPc}

/-- A move to `next` is a move forward: the record is no further than it was. -/
structure Forward (pc next : TrialPc) : Prop where
  not_pending : next.pending = false
  opened : next.opened = true → pc.opened = true
  recorded : next.recorded = true → pc.recorded = true

theorem forward_afterCheck (h : pc.afterCheck = some next) : Forward pc next := by
  cases pc <;> cases h <;> constructor <;> decide

theorem forward_afterOk {answer : Bool} (h : pc.afterOk answer = some next) : Forward pc next := by
  cases pc <;> cases answer <;> cases h <;> constructor <;> decide

theorem forward_afterBusy (h : pc.afterBusy = some next) : Forward pc next := by
  cases pc <;> cases h <;> constructor <;> decide

/-- Only the last check leads to the end. -/
theorem eq_lastCheck_of_afterCheck (h : pc.afterCheck = some .done) : pc = .lastCheck := by
  cases pc <;> cases h
  rfl

theorem afterOk_ne_done {answer : Bool} : pc.afterOk answer ≠ some .done := by
  intro h
  cases pc <;> cases answer <;> cases h

theorem afterBusy_ne_done : pc.afterBusy ≠ some .done := by
  intro h
  cases pc <;> cases h

end TrialPc

namespace TrialRun

structure Inv (t : TrialRun) : Prop where
  identity_own : ∀ identity, t.identity = some identity →
    identity.main = t.main ∧ ∀ c, identity.companions = some c → t.companions = some c
  main_pending : ∀ main, t.pc = .sqlitePath main ∨ t.pc = .callerPath main → main = t.main
  companions_pending : ∀ c, t.pc = .walPath c ∨ t.pc = .shmPath c → t.companions = some c
  identity_opened : t.pc.opened = true → ∃ identity, t.identity = some identity
  identity_complete : t.pc.recorded = true →
    ∃ c, t.identity = some ⟨t.main, some c⟩ ∧ t.companions = some c
  moved : t.struck = true → t.Moved t.fs
  noticed : t.pc = .done → t.struck = true → t.raised = true ∨ t.violations ≠ []

namespace Inv

variable {t t' : TrialRun}

/-- With a complete record, a check sees every move. -/
theorem hasMoved (h : Inv t) (hrecorded : t.pc.recorded = true) (hmoved : t.Moved t.fs) :
    t.hasMoved = true := by
  obtain ⟨c, hidentity, hcompanions⟩ := h.identity_complete hrecorded
  rw [TrialRun.hasMoved, hidentity, Option.any_some, DbIdentity.hasMoved]
  rcases hmoved with hfcntl | hcaller | ⟨c', hc', hcompanion⟩
  · rw [hfcntl]
    rfl
  · simp [hcaller]
  · rw [hcompanions] at hc'
    cases hc'
    simp [hcompanion]

theorem goto (h : Inv t) {next : TrialPc} (hnext : t.pc.Forward next)
    (hnoticed : next = .done → t.struck = true → t.raised = true ∨ t.violations ≠ []) :
    Inv { t with pc := next } where
  identity_own := h.identity_own
  main_pending main hpc := by
    have hpending := hnext.not_pending
    rcases hpc with rfl | rfl <;> cases hpending
  companions_pending c hpc := by
    have hpending := hnext.not_pending
    rcases hpc with rfl | rfl <;> cases hpending
  identity_opened hopened := h.identity_opened (hnext.opened hopened)
  identity_complete hrecorded := h.identity_complete (hnext.recorded hrecorded)
  moved := h.moved
  noticed := hnoticed

/-- The end of the trial, when it does not go unnoticed. -/
theorem finish (h : Inv t) {raised unwinding : Bool} {violations : List String}
    (hnoticed : raised = true ∨ violations ≠ []) :
    Inv { t with raised, unwinding, violations, pc := .done } where
  identity_own := h.identity_own
  main_pending main hpc := by
    rcases hpc with hpc | hpc <;> cases hpc
  companions_pending c hpc := by
    rcases hpc with hpc | hpc <;> cases hpc
  identity_opened hopened := by cases hopened
  identity_complete hrecorded := by cases hrecorded
  moved := h.moved
  noticed _ _ := hnoticed

theorem raise (h : Inv t) (message : String) : Inv (t.raise message) := by
  unfold TrialRun.raise
  split_ifs with hdrop hunwinding hregistered
  · exact h.finish (.inr (by simp))
  · exact h.finish (.inl rfl)
  · have hrecorded := h.identity_complete (by rw [hregistered]; rfl)
    have hopened := h.identity_opened (by rw [hregistered]; rfl)
    exact
      { identity_own := h.identity_own
        main_pending := by simp
        companions_pending := by simp
        identity_opened := fun _ => hopened
        identity_complete := fun _ => hrecorded
        moved := h.moved
        noticed := by simp }
  · exact h.finish (.inl rfl)

/-- A check either finds a move or may assume that there was none. -/
theorem check (h : Inv t) {path : String} {next : TrialPc} (hnext : t.pc.afterCheck = some next) :
    Inv (if t.hasMoved then t.raise (movedMessage path) else { t with pc := next }) := by
  split_ifs with hmoved
  · exact h.raise _
  · apply h.goto (TrialPc.forward_afterCheck hnext)
    rintro rfl hstruck
    have hrecorded : t.pc.recorded = true := by
      rw [TrialPc.eq_lastCheck_of_afterCheck hnext]
      rfl
    exact absurd (h.hasMoved hrecorded (h.moved hstruck)) hmoved

/-- The main file is recorded when the caller's path names it. -/
theorem recordMain (h : Inv t) {main : FileIdentity} (hpc : t.pc = .callerPath main) :
    Inv { t with identity := some ⟨main, none⟩, pc := .initCheck } where
  identity_own identity heq := by
    cases heq
    exact ⟨h.main_pending main (.inr hpc), fun c hc => by cases hc⟩
  main_pending := by simp
  companions_pending := by simp
  identity_opened _ := ⟨_, rfl⟩
  identity_complete hrecorded := by cases hrecorded
  moved := h.moved
  noticed := by simp

/-- The companions are recorded when both paths name them. -/
theorem recordCompanions (h : Inv t) {c : Companions} (hpc : t.pc = .shmPath c) :
    Inv { t with
      identity := t.identity.map fun id => ⟨id.main, some c⟩
      pc := .openSplit } := by
  have hc : t.companions = some c := h.companions_pending c (.inr hpc)
  obtain ⟨identity, hidentity⟩ := h.identity_opened (by rw [hpc]; rfl)
  have hmain := (h.identity_own identity hidentity).1
  rw [hidentity, Option.map_some, hmain]
  exact
    { identity_own := by
        intro identity' heq
        cases heq
        refine ⟨rfl, ?_⟩
        intro c' hc'
        cases hc'
        exact hc
      main_pending := by simp
      companions_pending := by simp
      identity_opened := fun _ => ⟨_, rfl⟩
      identity_complete := fun _ => ⟨c, rfl, hc⟩
      moved := h.moved
      noticed := by simp }

/-- A lookup comes with the file of the connection it is about. -/
theorem lookup (h : Inv t) {next : TrialPc} (hrecorded : next.recorded = false)
    (hdone : next ≠ .done) (hopened : next.opened = true → t.pc.opened = true)
    (hmain : ∀ main, next = .sqlitePath main ∨ next = .callerPath main → main = t.main)
    (hcompanions : ∀ c, next = .walPath c ∨ next = .shmPath c → t.companions = some c) :
    Inv { t with pc := next } where
  identity_own := h.identity_own
  main_pending := hmain
  companions_pending := hcompanions
  identity_opened hnext := h.identity_opened (hopened hnext)
  identity_complete hnext := by
    rw [hrecorded] at hnext
    cases hnext
  moved := h.moved
  noticed hnext := absurd hnext hdone

theorem look (h : Inv t) {path : String} (hstep : t.look path = some t') : Inv t' := by
  unfold TrialRun.look at hstep
  split at hstep
  · cases hstep
    exact h.lookup rfl (by simp) (by simp [TrialPc.opened]) (by simp) (by simp)
  · rename_i main hpc
    cases hstep
    split_ifs
    · have hmain := h.main_pending main (.inl hpc)
      exact h.lookup rfl (by simp) (by simp [TrialPc.opened]) (by simp [hmain]) (by simp)
    · exact h.raise _
  · rename_i main hpc
    cases hstep
    split_ifs
    · exact h.recordMain hpc
    · exact h.raise _
  · rename_i hpc
    cases hstep
    have hopened : t.pc.opened = true := by rw [hpc]; rfl
    cases hc : t.companions with
    | none => exact h.raise _
    | some c =>
        have hwal : Inv { t with pc := .walPath c } :=
          h.lookup rfl (by simp) (fun _ => hopened) (by simp) (by simp [hc])
        rw [hc] at hwal
        exact hwal
  · rename_i c hpc
    cases hstep
    have hopened : t.pc.opened = true := by rw [hpc]; rfl
    split_ifs
    · have hc := h.companions_pending c (.inl hpc)
      exact h.lookup rfl (by simp) (fun _ => hopened) (by simp) (by simp [hc])
    · exact h.raise _
  · rename_i c hpc
    cases hstep
    split_ifs
    · exact h.recordCompanions hpc
    · exact h.raise _
  · obtain ⟨next, hnext, heq⟩ := Option.map_eq_some_iff.mp hstep
    cases heq
    exact h.check hnext

/-- SQLite creates companions only; what has been struck stays so. -/
theorem openCompanions (h : Inv t) {c : Companions} {fs : Fs} (hpc : t.pc = .initSql)
    (hnone : t.companions = none) (hcaller : fs .caller = t.fs .caller)
    (hsqlite : fs .sqlite = t.fs .sqlite) : Inv { t with companions := some c, fs } where
  identity_own identity heq := by
    obtain ⟨hmain, hcompanions⟩ := h.identity_own identity heq
    refine ⟨hmain, ?_⟩
    intro c' hc'
    have := hcompanions c' hc'
    rw [hnone] at this
    cases this
  main_pending := h.main_pending
  companions_pending c' hc' := by
    have := h.companions_pending c' hc'
    rw [hnone] at this
    cases this
  identity_opened := h.identity_opened
  identity_complete hrecorded := by
    rw [hpc] at hrecorded
    cases hrecorded
  moved hstruck := by
    rcases h.moved hstruck with hmoved | hmoved | ⟨c', hc', -⟩
    · have hfcntl : hasMovedViaFcntl fs t.main = true := by
        rw [hasMovedViaFcntl, hsqlite]
        exact hmoved
      exact .inl hfcntl
    · have hpath : fs .caller ≠ some t.main := hcaller ▸ hmoved
      exact .inr (.inl hpath)
    · rw [hnone] at hc'
      cases hc'
  noticed hdone := by
    rw [hpc] at hdone
    cases hdone

theorem body (h : Inv t) (hpc : t.pc = .body) (panics : Bool) :
    Inv { t with unwinding := panics, pc := .dropCheck } where
  identity_own := h.identity_own
  main_pending := by simp
  companions_pending := by simp
  identity_opened _ := h.identity_opened (by rw [hpc]; rfl)
  identity_complete _ := h.identity_complete (by rw [hpc]; rfl)
  moved := h.moved
  noticed := by simp

theorem strike (h : Inv t) {fs : Fs} (hstrike : t.Strike fs) :
    Inv { t with fs, struck := true } where
  identity_own := h.identity_own
  main_pending := h.main_pending
  companions_pending := h.companions_pending
  identity_opened := h.identity_opened
  identity_complete := h.identity_complete
  moved _ := hstrike.2.2
  noticed hdone := absurd hdone hstrike.2.1

theorem step (h : Inv t) {path : String} {e : TrialEvent} (hstep : t.step path e = some t') :
    Inv t' := by
  cases e with
  | strike fs =>
      obtain ⟨hstrike, heq⟩ := Option.ite_none_right_eq_some.mp hstep
      cases heq
      exact h.strike hstrike
  | openCompanions c fs =>
      obtain ⟨⟨hpc, hnone, hcaller, hsqlite⟩, heq⟩ := Option.ite_none_right_eq_some.mp hstep
      cases heq
      exact h.openCompanions hpc hnone hcaller hsqlite
  | look => exact h.look hstep
  | ok answer =>
      obtain ⟨-, hstep⟩ := Option.ite_none_left_eq_some.mp hstep
      obtain ⟨next, hnext, heq⟩ := Option.map_eq_some_iff.mp hstep
      cases heq
      apply h.goto (TrialPc.forward_afterOk hnext)
      rintro rfl
      exact absurd hnext TrialPc.afterOk_ne_done
  | busy =>
      simp only [TrialRun.step] at hstep
      split at hstep
      · rename_i next hnext
        cases hstep
        apply h.goto (TrialPc.forward_afterBusy hnext)
        rintro rfl
        exact absurd hnext TrialPc.afterBusy_ne_done
      · obtain ⟨-, heq⟩ := Option.ite_none_right_eq_some.mp hstep
        cases heq
        exact h.raise _
  | fail message =>
      obtain ⟨-, heq⟩ := Option.ite_none_right_eq_some.mp hstep
      cases heq
      exact h.raise _
  | body panics =>
      obtain ⟨hpc, heq⟩ := Option.ite_none_right_eq_some.mp hstep
      cases heq
      exact h.body hpc panics

theorem of_init {path : String} (hinit : (machine path).init t) : Inv t := by
  obtain ⟨hpc, -, -, -, hidentity, -, -, -, hstruck⟩ := hinit
  constructor <;> simp [hpc, hidentity, hstruck, TrialPc.opened, TrialPc.recorded]

end Inv

theorem inv_of_reached {path : String} {t : TrialRun} (h : (machine path).Reached t) : Inv t :=
  Machine.Inductive.reached ⟨Inv.of_init, fun hinv _ hstep => hinv.step hstep⟩ h

/-- The record is of the files that the connection has open, and a trial whose
database was moved before its last check does not succeed: Skuld panics, or it has
recorded what it did not raise while the body unwinds, and the runner fails the run. -/
theorem moved_never_unnoticed {path : String} {t : TrialRun} (h : (machine path).Reached t) :
    (∀ identity, t.identity = some identity → identity.main = t.main ∧
      ∀ c, identity.companions = some c → t.companions = some c) ∧
    (t.pc = .done → t.struck = true → t.raised = true ∨
      (t.violations ≠ [] ∧
        ∀ conclusion, (failOnViolations conclusion t.violations).hasFailed = true)) := by
  have hinv := inv_of_reached h
  refine ⟨hinv.identity_own, ?_⟩
  intro hdone hstruck
  rcases hinv.noticed hdone hstruck with hraised | hviolations
  · exact .inl hraised
  · exact .inr ⟨hviolations, hasFailed_failOnViolations hviolations⟩

/-- The connection's files at their paths. -/
def ownFs : Fs
  | .caller | .sqlite => some ⟨1, 10⟩
  | .wal => some ⟨1, 11⟩
  | .shm => some ⟨1, 12⟩

def opening : TrialRun :=
  { pc := .mainFd, fs := fun p => if p = .caller ∨ p = .sqlite then some ⟨1, 10⟩ else none
    main := ⟨1, 10⟩, companions := none, identity := none, unwinding := false, raised := false
    violations := [], struck := false }

/-- The `-wal` file is deleted while the body runs, and the body panics. -/
def walDeletedRun : List TrialEvent :=
  [.look, .look, .look, .look, .ok true, .openCompanions ⟨⟨1, 11⟩, ⟨1, 12⟩⟩ ownFs, .ok true, .look,
    .ok true, .ok true, .ok true, .look, .look, .look, .ok true, .ok true, .look, .busy, .look,
    .ok true, .look, .strike (fun p => if p = .wal then none else ownFs p), .body true, .look]

theorem moved_never_unnoticed_wal :
    ∃ t, (machine "\"db\"").run opening walDeletedRun = some t ∧ t.raised = false ∧
      t.violations ≠ [] ∧ (failOnViolations ⟨0⟩ t.violations).hasFailed = true := by
  have hfacts : ((machine "\"db\"").run opening walDeletedRun).map (fun t =>
      decide (t.pc = .done ∧ t.struck = true ∧ t.raised = false)) = some true := by
    decide +kernel
  obtain ⟨t, hrun, hfacts⟩ := Option.map_eq_some_iff.mp hfacts
  obtain ⟨hdone, hstruck, hraised⟩ := of_decide_eq_true hfacts
  have hreached : (machine "\"db\"").Reached t :=
    Machine.Reached.of_run (.init ⟨rfl, rfl, rfl, rfl, rfl, rfl, rfl, rfl, rfl⟩) hrun
  refine ⟨t, hrun, hraised, ?_⟩
  rcases (moved_never_unnoticed hreached).2 hdone hstruck with hpanic | ⟨hviolations, hfails⟩
  · rw [hraised] at hpanic
    cases hpanic
  · exact ⟨hviolations, hfails ⟨0⟩⟩

end TrialRun

end Skuld
