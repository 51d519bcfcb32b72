import Mathlib.Logic.Function.Basic
import Skuld.Lib.Transition
import Skuld.Fixture.Registry

/-!
# The fixture runtime

Values of process scope live in one store behind a lock, values of test scope in
a list of their thread; a value of variable scope belongs to the handle of the
caller, and its end is not followed here.  Setup runs outside the lock: a thread
looks the name up, builds a value, and looks again before it stores the value.

The machine has the threads of a test binary, interleaved at every acquisition
and release of the lock; between the two nobody else can touch the store, so a
critical section is one step.  A setup first requests the declared dependencies,
then its body may request more, and then it succeeds or fails.  The environment
chooses the requests, the ends of the setups and casts, and through `panics`
which values panic in their `Drop`.
-/

namespace Skuld

structure ProcessEntry where
  name : String
  ptr : ℕ
  deriving DecidableEq

structure ProcessFixtureStore where
  index : String → Option ℕ
  entries : List ProcessEntry

structure TestEntry where
  name : String
  ptr : ℕ
  deriving DecidableEq

/-- A value that a setup has returned: values are numbered in the order of their
creation.  `got` are the values that the setup was given. -/
structure Creation where
  fixture : FixtureDef
  got : List ℕ
  thread : ℕ
  scope : ℕ

/-- A setup that has not returned, with the dependencies it has still to request. -/
structure RunningSetup where
  fixture : FixtureDef
  deps : List String
  got : List ℕ

/-- Where a thread stands in the innermost call for a fixture. -/
inductive FixtureCall where
  /-- In no call: the innermost running setup goes on, or the test. -/
  | idle
  /-- Before the first lookup. -/
  | lookup (d : FixtureDef)
  /-- Holds the lock for the first lookup. -/
  | firstLock (d : FixtureDef)
  /-- The setup has returned a value. -/
  | created (d : FixtureDef) (raw : ℕ)
  /-- Holds the lock for the second lookup. -/
  | secondLock (d : FixtureDef) (raw : ℕ)
  /-- The value is found or stored, and the caller casts it. -/
  | cast (d : FixtureDef) (ptr : ℕ)

structure TestThread where
  setups : List RunningSetup
  call : FixtureCall
  testFixtures : List TestEntry
  currentTest : Option String
  /-- The thread owns a `TestScope`. -/
  inScope : Bool
  /-- How many scopes the thread has entered. -/
  scopes : ℕ

structure Runtime where
  store : ProcessFixtureStore
  lock : Option ℕ
  poisoned : Bool
  threads : ℕ → TestThread
  created : List Creation
  /-- The values whose `Drop` has run, in this order. -/
  dropped : List ℕ
  /-- What the calls of `ensure_process_fixture` have returned. -/
  returned : List (String × ℕ)

/-- The public functions that request a fixture. -/
inductive Entrance where
  | warmUp
  | fixtureGet
  | fixture
  deriving DecidableEq

inductive RuntimeAction where
  | enterTestScope (test : String)
  | request (entrance : Entrance) (name : String)
  /-- The next step of the code, where the code decides it. -/
  | advance
  | setupEnds (ok : Bool)
  | castEnds (ok : Bool)
  | dropTestScope
  deriving DecidableEq

/-! ## The pop loops -/

/-- What a pop loop has dropped and what it has left, as it ends or panics. -/
structure Reclaimed (α : Type) where
  dropped : List α
  left : List α
  panicked : Bool

/-- `while let Some(entry) = entries.pop()`, over the entries in the order in
which they are popped.  A panic in `Drop` leaves the loop (and ends the process, if
the thread was unwinding already). -/
def popLoop {α : Type} (panics : α → Bool) : List α → Reclaimed α
  | [] => { dropped := [], left := [], panicked := false }
  | x :: rest =>
      if panics x then
        { dropped := [x], left := rest, panicked := true }
      else
        let r := popLoop panics rest
        { r with dropped := x :: r.dropped }

section PopLoop

variable {α : Type} (panics : α → Bool)

theorem popLoop_append (entries : List α) :
    (popLoop panics entries).dropped ++ (popLoop panics entries).left = entries := by
  induction entries with
  | nil => rfl
  | cons x rest ih =>
      rw [popLoop]
      split_ifs
      · rfl
      · exact congrArg (x :: ·) ih

variable {panics}

theorem popLoop_panicked_eq_false {entries : List α} :
    (popLoop panics entries).panicked = false ↔ ∀ x ∈ entries, panics x = false := by
  induction entries with
  | nil => simp [popLoop]
  | cons x rest ih =>
      rw [popLoop, List.forall_mem_cons]
      split_ifs with hx
      · simp [hx]
      · simpa [hx] using ih

/-- The loop empties the list unless a value before the last one panics. -/
theorem popLoop_left_eq_nil {entries : List α} :
    (popLoop panics entries).left = [] ↔ ∀ x ∈ entries.dropLast, panics x = false := by
  induction entries with
  | nil => simp [popLoop]
  | cons x rest ih =>
      rw [popLoop]
      cases rest with
      | nil => by_cases hx : panics x = true <;> simp [hx, popLoop]
      | cons y rest =>
          rw [List.dropLast_cons_cons, List.forall_mem_cons]
          split_ifs with hx
          · simp [hx]
          · simpa [hx] using ih

theorem popLoop_of_safe {entries : List α} (h : ∀ x ∈ entries, panics x = false) :
    popLoop panics entries = { dropped := entries, left := [], panicked := false } := by
  induction entries with
  | nil => rfl
  | cons x rest ih =>
      rw [List.forall_mem_cons] at h
      simp [popLoop, h.1, ih h.2]

theorem popLoop_left_of_not_panicked {entries : List α}
    (h : (popLoop panics entries).panicked = false) : (popLoop panics entries).left = [] :=
  popLoop_left_eq_nil.mpr fun x hx =>
    popLoop_panicked_eq_false.mp h x (List.dropLast_subset _ hx)

end PopLoop

namespace Runtime

def setThread (s : Runtime) (p : ℕ) (t : TestThread) : Runtime :=
  { s with threads := Function.update s.threads p t }

def goto (s : Runtime) (p : ℕ) (call : FixtureCall) : Runtime :=
  s.setThread p { s.threads p with call }

def release (s : Runtime) : Runtime :=
  { s with lock := none }

/-- A panic of the thread, out of all calls and setups it is in.  It poisons the
lock if the thread holds it. -/
def unwind (s : Runtime) (p : ℕ) : Runtime :=
  { s.setThread p { s.threads p with setups := [], call := .idle } with
    lock := if s.lock = some p then none else s.lock
    poisoned := s.poisoned || decide (s.lock = some p) }

/-- `store_mutex.lock().unwrap()`: waits for the lock, panics if it is poisoned. -/
def acquire (s : Runtime) (p : ℕ) (call : FixtureCall) : Option Runtime :=
  match s.lock with
  | some _ => none
  | none =>
      if s.poisoned then some (s.unwind p) else some { s.goto p call with lock := some p }

/-- The call of `def.setup` begins. -/
def runSetup (s : Runtime) (p : ℕ) (d : FixtureDef) : Runtime :=
  let t := s.threads p
  let setup : RunningSetup := { fixture := d, deps := d.deps, got := [] }
  s.setThread p { t with setups := setup :: t.setups, call := .idle }

/-- `ensure_test_fixture` or `ensure_process_fixture` returns the value. -/
def ensured (s : Runtime) (p : ℕ) (d : FixtureDef) (ptr : ℕ) : Runtime :=
  { s.goto p (.cast d ptr) with
    returned := if d.scope = .process then s.returned ++ [(d.name, ptr)] else s.returned }

/-- The innermost setup returns a new value. -/
def create (s : Runtime) (p : ℕ) (d : FixtureDef) (got : List ℕ) (rest : List RunningSetup) :
    Runtime :=
  let t := s.threads p
  let raw := s.created.length
  { s.setThread p { t with setups := rest, call := .created d raw } with
    created := s.created ++ [{ fixture := d, got, thread := p, scope := t.scopes }] }

def pushTest (s : Runtime) (p : ℕ) (d : FixtureDef) (raw : ℕ) : Runtime :=
  let t := s.threads p
  s.setThread p { t with testFixtures := t.testFixtures ++ [{ name := d.name, ptr := raw }] }

def pushProcess (s : Runtime) (d : FixtureDef) (raw : ℕ) : Runtime :=
  { s with store :=
    { index := Function.update s.store.index d.name (some s.store.entries.length)
      entries := s.store.entries ++ [{ name := d.name, ptr := raw }] } }

def drop (s : Runtime) (i : ℕ) : Runtime :=
  { s with dropped := s.dropped ++ [i] }

/-- `fixture_handle.cast` succeeds, and the caller goes on with the value. -/
def give (s : Runtime) (p ptr : ℕ) : Runtime :=
  let t := s.threads p
  let next (f : RunningSetup) := { f with deps := f.deps.tail, got := f.got ++ [ptr] }
  s.setThread p { t with setups := t.setups.modifyHead next, call := .idle }

/-- The beginning of `warm_up`, `fixture_get` and `fixture`. -/
def request (registry : Registry) (s : Runtime) (p : ℕ) (entrance : Entrance) (name : String) :
    Runtime :=
  let outside := (s.threads p).currentTest.isNone
  if entrance = .fixture ∧ outside then
    s.unwind p
  else
    match registry.get name with
    | none => s.unwind p
    | some d =>
        match entrance with
        | .warmUp => if d.scope = .process then s.goto p (.lookup d) else s
        | .fixtureGet =>
            if d.scope ≠ .process ∧ outside then s.unwind p else s.goto p (.lookup d)
        | .fixture => if d.scope = .variable then s.unwind p else s.goto p (.lookup d)

/-- The first lookup, in `ensure_test_fixture` and `ensure_process_fixture`;
there is none in `get_variable`. -/
def lookup (s : Runtime) (p : ℕ) (d : FixtureDef) : Option Runtime :=
  match d.scope with
  | .variable => some (s.runSetup p d)
  | .test =>
      match (s.threads p).testFixtures.find? fun e => e.name = d.name with
      | some e => some (s.ensured p d e.ptr)
      | none => some (s.runSetup p d)
  | .process => s.acquire p (.firstLock d)

def firstLock (s : Runtime) (p : ℕ) (d : FixtureDef) : Runtime :=
  match s.store.index d.name with
  | some idx =>
      match s.store.entries[idx]? with
      | some e => (s.ensured p d e.ptr).release
      | none => s.unwind p
  | none => (s.runSetup p d).release

/-- After the setup. -/
def keep (s : Runtime) (p : ℕ) (d : FixtureDef) (raw : ℕ) : Option Runtime :=
  match d.scope with
  | .variable => some (s.ensured p d raw)
  | .test => some ((s.pushTest p d raw).ensured p d raw)
  | .process => s.acquire p (.secondLock d raw)

def secondLock (panics : ℕ → Bool) (s : Runtime) (p : ℕ) (d : FixtureDef) (raw : ℕ) : Runtime :=
  match s.store.index d.name with
  | some idx =>
      -- the race is lost: `Box::from_raw(raw)` is dropped under the lock
      if panics raw then
        (s.drop raw).unwind p
      else
        match s.store.entries[idx]? with
        | some e => ((s.drop raw).ensured p d e.ptr).release
        | none => (s.drop raw).unwind p
  | none => ((s.pushProcess d raw).ensured p d raw).release

def enter (s : Runtime) (p : ℕ) (test : String) : Runtime :=
  let t := s.threads p
  s.setThread p { t with currentTest := some test, inScope := true, scopes := t.scopes + 1 }

def popTests (panics : ℕ → Bool) (t : TestThread) : Reclaimed TestEntry :=
  popLoop (fun e => panics e.ptr) t.testFixtures.reverse

/-- `TestScope::drop`. -/
def leave (panics : ℕ → Bool) (s : Runtime) (p : ℕ) : Runtime :=
  let t := s.threads p
  let r := popTests panics t
  let left : TestThread :=
    { t with
      testFixtures := r.left.reverse
      currentTest := if r.panicked then t.currentTest else none
      inScope := false }
  { s.setThread p left with
    dropped := s.dropped ++ r.dropped.map TestEntry.ptr }

def step (registry : Registry) (panics : ℕ → Bool) (s : Runtime) (e : ℕ × RuntimeAction) :
    Option Runtime :=
  let p := e.1
  let t := s.threads p
  match t.call, t.setups, e.2 with
  | .idle, [], .enterTestScope test =>
      if t.currentTest.isNone then some (s.enter p test) else some (s.unwind p)
  | .idle, [], .dropTestScope => if t.inScope then some (s.leave panics p) else none
  | .idle, [], .request entrance name => some (s.request registry p entrance name)
  | .idle, ⟨_, [], _⟩ :: _, .request entrance name => some (s.request registry p entrance name)
  | .idle, ⟨_, dep :: _, _⟩ :: _, .advance => some (s.request registry p .fixtureGet dep)
  | .idle, ⟨d, [], got⟩ :: rest, .setupEnds ok =>
      some (if ok then s.create p d got rest else s.unwind p)
  | .lookup d, _, .advance => s.lookup p d
  | .firstLock d, _, .advance => some (s.firstLock p d)
  | .created d raw, _, .advance => s.keep p d raw
  | .secondLock d raw, _, .advance => some (s.secondLock panics p d raw)
  | .cast _ ptr, _, .castEnds ok => some (if ok then s.give p ptr else s.unwind p)
  | _, _, _ => none

/-- No value exists, and no test has begun. -/
def start : Runtime where
  store := { index := fun _ => none, entries := [] }
  lock := none
  poisoned := false
  threads _ :=
    { setups := [], call := .idle, testFixtures := [], currentTest := none, inScope := false,
      scopes := 0 }
  created := []
  dropped := []
  returned := []

/-- The threads of a test binary, from its start. -/
def machine (registry : Registry) (panics : ℕ → Bool) : Machine Runtime (ℕ × RuntimeAction) where
  init s := s = start
  step := step registry panics

def popEntries (panics : ℕ → Bool) (s : Runtime) : Reclaimed ProcessEntry :=
  popLoop (fun e => panics e.ptr) s.store.entries.reverse

/-- `cleanup_process_fixtures`.  It waits for the lock; on a poisoned one it
panics before the loop. -/
def cleanupProcessFixtures (panics : ℕ → Bool) (s : Runtime) : Option Runtime :=
  match s.lock with
  | some _ => none
  | none =>
      if s.poisoned then
        some s
      else
        let r := popEntries panics s
        some { s with
          store :=
            { index := if r.panicked then s.store.index else fun _ => none
              entries := r.left.reverse }
          poisoned := r.panicked
          dropped := s.dropped ++ r.dropped.map ProcessEntry.ptr }

theorem cleanupProcessFixtures_eq_some {panics : ℕ → Bool} {s s' : Runtime}
    (h : cleanupProcessFixtures panics s = some s') :
    s.poisoned = true ∧ s' = s ∨ s.poisoned = false ∧
      s'.store.entries = (popEntries panics s).left.reverse ∧
      s'.dropped = s.dropped ++ (popEntries panics s).dropped.map ProcessEntry.ptr := by
  unfold cleanupProcessFixtures at h
  split at h
  · cases h
  split_ifs at h with hpoisoned
  · exact .inl ⟨hpoisoned, (Option.some.inj h).symm⟩
  · rw [← Option.some.inj h]
    exact .inr ⟨Bool.not_eq_true _ ▸ hpoisoned, rfl, rfl⟩

end Runtime

end Skuld
