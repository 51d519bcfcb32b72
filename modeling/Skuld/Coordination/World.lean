import Skuld.Coordination.Database
import Skuld.Lib.Transition

/-!
# Processes at the database

Any number of processes, each with any number of threads, share one database.
A thread calls `coordinate`, makes attempts until one of them registers it, and
later drops the guard; a process may crash at any point.  An attempt is one
transaction (`attempt`), so the steps of the world are the transactions, in any
order.

A process is known to the others by the instance id in its rows only.  Whether
a PID is alive is up to the operating system: an attempt comes with the answers
`kill` that it gets, and the one thing asked of them is that a running process
is never reported dead.  A PID may be given out again.
-/

namespace Skuld

open BoolExpr

/-- One incarnation of a process. -/
structure Process where
  pid : ℕ
  timestamp : ℕ
  deriving DecidableEq

def Process.instanceId (p : Process) : String :=
  Skuld.instanceId p.pid p.timestamp

/-- A thread in the loop of `coordinate`; the filter is the stored form. -/
structure Call where
  process : Process
  name : String
  labels : List Label
  filter : String
  deriving DecidableEq

/-- A `TestRegistration` whose `DELETE` has not been committed yet. -/
structure Guard where
  call : Call
  id : ℕ
  deriving DecidableEq

/-- The row a guard stands for. -/
def Guard.row (g : Guard) : RunningRow :=
  ⟨g.id, g.call.process.instanceId, g.call.name, g.call.filter⟩

structure World where
  db : Db
  started : List Process
  alive : List Process
  calls : List Call
  guards : List Guard
  deriving DecidableEq

inductive Event where
  | start (p : Process)
  | call (p : Process) (name : String) (labels : List Label) (serial : String)
  | attempt (c : Call) (kill : ℕ → Bool)
  | busy (c : Call)
  | fail (c : Call)
  | delete (g : Guard)
  | deleteBusy (g : Guard)
  | deleteFails (g : Guard)
  | crash (p : Process)

/-- `g` has its row, and the row has its labels. -/
structure Guard.Held (g : Guard) (db : Db) : Prop where
  row_mem : g.row ∈ db.running
  labelNames_eq : db.labelNames g.id = g.call.labels.map Label.name

/-- Neither of two guards excludes the other. -/
structure Guard.Apart (B : Bdd String) (g h : Guard) : Prop where
  id_ne : g.id ≠ h.id
  left : blocks B g.call.filter h.call.labels = false
  right : blocks B h.call.filter g.call.labels = false

namespace World

/-- No running process is reported dead. -/
def Truthful (w : World) (kill : ℕ → Bool) : Prop :=
  ∀ p ∈ w.alive, kill p.pid = true

instance (w : World) (kill : ℕ → Bool) : Decidable (w.Truthful kill) :=
  inferInstanceAs (Decidable (∀ p ∈ w.alive, kill p.pid = true))

/-- PIDs are positive and below `2 ^ 31`, and an instance id is given out once. -/
def Fresh (w : World) (p : Process) : Prop :=
  0 < p.pid ∧ p.pid < 2 ^ 31 ∧ p.instanceId ∉ w.started.map Process.instanceId

instance (w : World) (p : Process) : Decidable (w.Fresh p) :=
  inferInstanceAs (Decidable (_ ∧ _ ∧ _))

/-- The effect of an attempt, given what its transaction did. -/
def afterAttempt (w : World) (c : Call) : Option (Option (ℕ × Db)) → World
  | none => { w with calls := w.calls.erase c }
  | some none => w
  | some (some (id, db)) =>
      { w with db, calls := w.calls.erase c, guards := ⟨c, id⟩ :: w.guards }

def crash (w : World) (p : Process) : World :=
  { w with
    alive := w.alive.filter fun q => q ≠ p
    calls := w.calls.filter fun c => c.process ≠ p
    guards := w.guards.filter fun g => g.call.process ≠ p }

def step (B : Bdd String) (w : World) : Event → Option World
  | .start p =>
      if w.Fresh p then
        some { w with started := p :: w.started, alive := p :: w.alive }
      else
        none
  | .call p name labels serial =>
      if p ∈ w.alive then
        (toStorage B serial).map fun filter =>
          { w with calls := ⟨p, name, labels, filter⟩ :: w.calls }
      else
        none
  | .attempt c kill =>
      if c ∈ w.calls ∧ w.Truthful kill then
        some (w.afterAttempt c
          (attempt B kill c.process.instanceId w.db c.name c.labels c.filter))
      else
        none
  | .busy c => if c ∈ w.calls then some w else none
  | .fail c => if c ∈ w.calls then some { w with calls := w.calls.erase c } else none
  | .delete g =>
      if g ∈ w.guards then
        some { w with db := w.db.deleteWhere fun r => r.id = g.id, guards := w.guards.erase g }
      else
        none
  | .deleteBusy g => if g ∈ w.guards then some w else none
  -- the drop panics, or warns if its thread is unwinding; the row stays
  | .deleteFails g =>
      if g ∈ w.guards then some { w with guards := w.guards.erase g } else none
  | .crash p => if p ∈ w.alive then some (w.crash p) else none

/-- No process yet, and a database without rows. -/
def machine (B : Bdd String) : Machine World Event where
  init w := w.db.running = [] ∧ w.started = [] ∧ w.alive = [] ∧ w.calls = [] ∧ w.guards = []
  step := step B

/-- What holds in every state reached. -/
structure Inv (B : Bdd String) (w : World) : Prop where
  alive_started : ∀ p ∈ w.alive, p ∈ w.started
  started_pid : ∀ p ∈ w.started, 0 < p.pid ∧ p.pid < 2 ^ 31
  started_nodup : (w.started.map Process.instanceId).Nodup
  rows_started : ∀ r ∈ w.db.running, ∃ p ∈ w.started, r.instanceId = p.instanceId
  calls_alive : ∀ c ∈ w.calls, c.process ∈ w.alive ∧ IsStored B c.filter
  guards_alive : ∀ g ∈ w.guards, g.call.process ∈ w.alive
  guards_held : ∀ g ∈ w.guards, g.Held w.db
  guards_apart : w.guards.Pairwise (Guard.Apart B)

end World

/-! ## The rows of the guards -/

variable {B : Bdd String}

theorem Guard.Held.deleteWhere {g : Guard} {db : Db} (h : g.Held db) {p : RunningRow → Bool}
    (hp : p g.row = false) : g.Held (db.deleteWhere p) where
  row_mem := Db.mem_deleteWhere.mpr ⟨h.row_mem, hp⟩
  labelNames_eq := (Db.labelNames_deleteWhere h.row_mem hp).trans h.labelNames_eq

theorem Guard.Held.registered {g : Guard} {db db' : Db} {row : RunningRow} {labels : List Label}
    (h : g.Held db) (hnew : Registered db db' row labels) : g.Held db' where
  row_mem := hnew.mem_running.mpr (.inl h.row_mem)
  labelNames_eq := (hnew.labelNames_old h.row_mem).trans h.labelNames_eq

/-- A row that passed the check is apart from the new guard. -/
theorem Guard.Held.apart {g : Guard} {db : Db} (h : g.Held db) {c : Call} {id : ℕ}
    (hid : g.id ≤ db.sequence) (hnew : id = db.sequence + 1)
    (hconflict : db.conflictsWith B c.labels c.filter g.row = false) :
    Guard.Apart B ⟨c, id⟩ g := by
  obtain ⟨hleft, hright⟩ := Bool.or_eq_false_iff.mp hconflict
  refine ⟨by simp only; omega, ?_, hleft⟩
  rw [← hright, ← blocksNames_map]
  exact congrArg (blocksNames B c.filter) h.labelNames_eq.symm

theorem Guard.Apart.symm {g h : Guard} (hgh : Guard.Apart B g h) : Guard.Apart B h g :=
  ⟨hgh.id_ne.symm, hgh.right, hgh.left⟩

/-- Only `"*"` excludes everything, so guards that are apart do not have it. -/
theorem Guard.Apart.ne_serialAll {g h : Guard} (hgh : Guard.Apart B g h) :
    g.call.filter ≠ serialAll ∧ h.call.filter ≠ serialAll := by
  constructor
  · intro hall
    have hblocks := hgh.left
    rw [hall, blocks_serialAll] at hblocks
    cases hblocks
  · intro hall
    have hblocks := hgh.right
    rw [hall, blocks_serialAll] at hblocks
    cases hblocks

end Skuld
