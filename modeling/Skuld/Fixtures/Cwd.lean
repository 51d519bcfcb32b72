import Mathlib.Data.List.Basic
import Mathlib.Tactic.Common

/-!
# The working directory guard

A `CwdGuard` keeps a stack of directories with the original one at the bottom.
`set` pushes the current directory before it tries the change, and `back` pops
before it tries the change, so a failed change is not taken back from the stack.
The bottom entry can be popped like any other, by a `back` that has no move to
undo.

What the operating system answers is part of each call: the error of
`current_dir`, and the error of `set_current_dir` or the directory that it
leads to.  A saved directory is what `current_dir` returned, so a change to it
leads there.
-/

namespace Skuld.Cwd

variable {PathBuf IoError : Type*}

inductive Panic (PathBuf IoError : Type*) where
  | failedToGetCurrentDir (e : IoError)
  | failedToSetCurrentDir (path : PathBuf) (e : IoError)
  | noPreviousDirectory
  | poisonError

abbrev Outcome (PathBuf IoError : Type*) := Except (Panic PathBuf IoError) Unit

inductive NewError (IoError : Type*) where
  | failedToGetCurrentDir (e : IoError)

/-- `CwdGuard`, with the newest entry of the stack first. -/
structure CwdGuard (PathBuf : Type*) where
  stack : List PathBuf
  poisoned : Bool

/-- The current directory of the process, and the guard. -/
structure Process (PathBuf : Type*) where
  cwd : PathBuf
  guard : CwdGuard PathBuf

/-- `CwdGuard::new`, where the current directory is `cwd`. -/
def CwdGuard.new (cwd : PathBuf) : Option IoError → Except (NewError IoError) (CwdGuard PathBuf)
  | some e => .error (.failedToGetCurrentDir e)
  | none => .ok { stack := [cwd], poisoned := false }

namespace Process

def set (s : Process PathBuf) (path : PathBuf) (current : Option IoError)
    (change : Except IoError PathBuf) : Process PathBuf × Outcome PathBuf IoError :=
  match current with
  | some e => (s, .error (.failedToGetCurrentDir e))
  | none =>
      if s.guard.poisoned then
        (s, .error .poisonError)
      else
        let guard := { s.guard with stack := s.cwd :: s.guard.stack }
        match change with
        | .error e => ({ s with guard }, .error (.failedToSetCurrentDir path e))
        | .ok dir => ({ cwd := dir, guard }, .ok ())

/-- `expect` panics while the lock is held, and poisons it. -/
def back (s : Process PathBuf) (change : Option IoError) :
    Process PathBuf × Outcome PathBuf IoError :=
  if s.guard.poisoned then
    (s, .error .poisonError)
  else
    match s.guard.stack with
    | [] => ({ s with guard := { s.guard with poisoned := true } }, .error .noPreviousDirectory)
    | prev :: stack =>
        let guard := { s.guard with stack }
        match change with
        | some e => ({ s with guard }, .error (.failedToSetCurrentDir prev e))
        | none => ({ cwd := prev, guard }, .ok ())

/-- The current directory after `drop`, whose change may fail. -/
def drop (s : Process PathBuf) (change : Option IoError) : PathBuf × Outcome PathBuf IoError :=
  if s.guard.poisoned then
    (s.cwd, .error .poisonError)
  else
    match s.guard.stack.getLast? with
    | none => (s.cwd, .ok ())
    | some original =>
        match change with
        | some _ => (s.cwd, .ok ())
        | none => (original, .ok ())

end Process

/-- A call, with the answers it gets. -/
inductive Call (PathBuf IoError : Type*) where
  | set (path : PathBuf) (current : Option IoError) (change : Except IoError PathBuf)
  | back (change : Option IoError)

def step (s : Process PathBuf) :
    Call PathBuf IoError → Process PathBuf × Outcome PathBuf IoError
  | .set path current change => s.set path current change
  | .back change => s.back change

/-! ## What the guard should do -/

/-- The moves that the guard can undo: all entries but the original directory. -/
def CwdGuard.undoable (guard : CwdGuard PathBuf) : List PathBuf :=
  guard.stack.dropLast

section

variable (moves : List PathBuf) (s : Process PathBuf)

/-- The directories that were current before the successful calls of `set` that
are not undone, after one more call. -/
def movesAfter (call : Call PathBuf IoError) : List PathBuf :=
  match (step s call).2 with
  | .error _ => moves
  | .ok _ =>
      match call with
      | .set .. => s.cwd :: moves
      | .back .. => moves.tail

/-- `back` panics when there is no move to undo, and else returns, or tries to
return, to where the last one started. -/
def BackIsRight (change : Option IoError) : Prop :=
  ((s.back change).2 = .error .noPreviousDirectory ↔ moves = []) ∧
    ∀ prev rest, moves = prev :: rest →
      match change with
      | none => (s.back change).2 = .ok () ∧ (s.back change).1.cwd = prev
      | some e => (s.back change).2 = .error (.failedToSetCurrentDir prev e)

/-- A call whose directory change fails leaves everything as it was. -/
def FailureIsHarmless (call : Call PathBuf IoError) : Prop :=
  ∀ path e, (step s call).2 = .error (.failedToSetCurrentDir path e) →
    (step s call).1.cwd = s.cwd ∧ (step s call).1.guard.undoable = s.guard.undoable

def CallIsRight (call : Call PathBuf IoError) : Prop :=
  FailureIsHarmless s call ∧
    match call with
    | .set .. => True
    | .back change => BackIsRight moves s change

/-- `drop` does not panic, and goes back to the start if it can. -/
def DropRestores (start : PathBuf) (leave : Option IoError) : Prop :=
  (s.drop leave).2 = .ok () ∧ (leave = none → (s.drop leave).1 = start)

end

/-- Each call does what it should, and so does `drop` at the end of the run. -/
def BehavesAsStack (start : PathBuf) (leave : Option IoError) :
    List PathBuf → Process PathBuf → List (Call PathBuf IoError) → Prop
  | _, s, [] => DropRestores s start leave
  | moves, s, call :: calls =>
      CallIsRight moves s call ∧
        BehavesAsStack start leave (movesAfter moves s call) (step s call).1 calls

/-! ## When it does -/

/-- The directory change of the call succeeds, if it gets that far, and there is
a move that it can undo if it is `back`. -/
def Call.Orderly (depth : ℕ) : Call PathBuf IoError → Prop
  | .set _ (some _) _ => True
  | .set _ none change => ∃ dir, change = .ok dir
  | .back change => 0 < depth ∧ change = none

/-- How many moves can be undone after an orderly call. -/
def Call.depthAfter (depth : ℕ) : Call PathBuf IoError → ℕ
  | .set _ (some _) _ => depth
  | .set _ none _ => depth + 1
  | .back _ => depth - 1

def Orderly : ℕ → List (Call PathBuf IoError) → Prop
  | _, [] => True
  | depth, call :: calls => call.Orderly depth ∧ Orderly (call.depthAfter depth) calls

/-- The stack holds the moves over the original directory. -/
structure Inv (start : PathBuf) (moves : List PathBuf) (s : Process PathBuf) : Prop where
  stack : s.guard.stack = moves ++ [start]
  poisoned : s.guard.poisoned = false

variable {start : PathBuf} {moves : List PathBuf} {s : Process PathBuf}

theorem Inv.new {cwd : PathBuf} {current : Option IoError} {guard : CwdGuard PathBuf}
    (h : CwdGuard.new cwd current = .ok guard) : Inv cwd [] { cwd, guard } := by
  cases current with
  | some e => cases h
  | none =>
      cases h
      exact ⟨rfl, rfl⟩

theorem Inv.undoable (h : Inv start moves s) : s.guard.undoable = moves := by
  rw [CwdGuard.undoable, h.stack, List.dropLast_concat]

theorem Inv.drop (h : Inv start moves s) (leave : Option IoError) :
    DropRestores s start leave := by
  have hlast : s.guard.stack.getLast? = some start := by
    rw [h.stack, List.getLast?_concat]
  rw [DropRestores, Process.drop, h.poisoned, hlast]
  cases leave with
  | none => exact ⟨rfl, fun _ => rfl⟩
  | some e => exact ⟨rfl, fun hnone => nomatch hnone⟩

variable {path prev : PathBuf} {rest : List PathBuf} {change : Option IoError}

/-! ### One call -/

theorem Inv.set_error (h : Inv start moves s) (e : IoError) :
    s.set path none (.error e) =
      ({ s with guard := { s.guard with stack := s.cwd :: moves ++ [start] } },
        .error (.failedToSetCurrentDir path e)) := by
  rw [Process.set, h.poisoned, h.stack]
  rfl

theorem Inv.set_ok (h : Inv start moves s) (dir : PathBuf) :
    s.set path (none : Option IoError) (.ok dir) =
      ({ cwd := dir, guard := { s.guard with stack := s.cwd :: moves ++ [start] } }, .ok ()) := by
  rw [Process.set, h.poisoned, h.stack]
  rfl

/-- With no move to undo, `back` goes to the original directory. -/
theorem Inv.back_nil (h : Inv start [] s) :
    s.back change = match change with
      | some e => ({ s with guard := { s.guard with stack := [] } },
          .error (.failedToSetCurrentDir start e))
      | none => ({ cwd := start, guard := { s.guard with stack := [] } }, .ok ()) := by
  rw [Process.back, h.poisoned, h.stack]
  rfl

theorem Inv.back_cons (h : Inv start (prev :: rest) s) :
    s.back change = match change with
      | some e => ({ s with guard := { s.guard with stack := rest ++ [start] } },
          .error (.failedToSetCurrentDir prev e))
      | none => ({ cwd := prev, guard := { s.guard with stack := rest ++ [start] } }, .ok ()) := by
  rw [Process.back, h.poisoned, h.stack]
  rfl

theorem Inv.set_right_iff (h : Inv start moves s) {current : Option IoError}
    {change : Except IoError PathBuf} :
    CallIsRight moves s (.set path current change) ↔
      (Call.set path current change).Orderly moves.length := by
  cases current with
  | some e =>
      have hnone : FailureIsHarmless s (.set path (some e) change) := fun path e' herror => by
        cases herror
      exact ⟨fun _ => trivial, fun _ => ⟨hnone, trivial⟩⟩
  | none =>
      cases change with
      | error e =>
          -- the directory that was pushed is one more move
          have hpushed : (s.set path none (.error e)).1.guard.undoable = s.cwd :: moves := by
            rw [h.set_error, CwdGuard.undoable, List.dropLast_concat]
          constructor
          · rintro ⟨hharmless, -⟩
            have hkept := (hharmless path e (by rw [step, h.set_error])).2
            rw [step, hpushed, h.undoable] at hkept
            exact absurd hkept (List.cons_ne_self _ _)
          · rintro ⟨dir, hdir⟩
            cases hdir
      | ok dir =>
          have hnone : FailureIsHarmless s (.set path none (.ok dir) : Call PathBuf IoError) := by
            intro path' e herror
            rw [step, h.set_ok] at herror
            cases herror
          exact ⟨fun _ => ⟨dir, rfl⟩, fun _ => ⟨hnone, trivial⟩⟩

theorem Inv.back_right_iff (h : Inv start moves s) :
    CallIsRight moves s (.back change) ↔
      (Call.back change : Call PathBuf IoError).Orderly moves.length := by
  cases moves with
  | nil =>
      constructor
      · rintro ⟨-, hpanics, -⟩
        have hpanic := hpanics.mpr rfl
        rw [h.back_nil] at hpanic
        cases change with
        | none => cases hpanic
        | some e => cases hpanic
      · rintro ⟨hdepth, -⟩
        exact absurd hdepth (Nat.lt_irrefl 0)
  | cons prev rest =>
      cases change with
      | some e =>
          -- the directory that was popped is one move less
          have hpopped : (s.back (some e)).1.guard.undoable = rest := by
            rw [h.back_cons, CwdGuard.undoable, List.dropLast_concat]
          constructor
          · rintro ⟨hharmless, -⟩
            have hkept := (hharmless prev e (by rw [step, h.back_cons])).2
            rw [step, hpopped, h.undoable] at hkept
            exact absurd hkept.symm (List.cons_ne_self _ _)
          · rintro ⟨-, hchange⟩
            cases hchange
      | none =>
          have hback : s.back (none : Option IoError) =
              ({ cwd := prev, guard := { s.guard with stack := rest ++ [start] } }, .ok ()) :=
            h.back_cons
          have hnone : FailureIsHarmless s (.back (none : Option IoError)) := by
            intro path e herror
            rw [step, hback] at herror
            cases herror
          refine ⟨fun _ => ⟨Nat.succ_pos _, rfl⟩, fun _ => ⟨hnone, ?_, fun prev' rest' heq => ?_⟩⟩
          · rw [hback]
            constructor
            · exact fun herror => by cases herror
            · exact fun hnil => by cases hnil
          · cases heq
            rw [hback]
            exact ⟨rfl, rfl⟩

theorem Inv.right_iff (h : Inv start moves s) (call : Call PathBuf IoError) :
    CallIsRight moves s call ↔ call.Orderly moves.length := by
  cases call with
  | set path current change => exact h.set_right_iff
  | back change => exact h.back_right_iff

/-- An orderly call moves the stack with the moves. -/
theorem Inv.step (h : Inv start moves s) {call : Call PathBuf IoError}
    (horderly : call.Orderly moves.length) :
    Inv start (movesAfter moves s call) (step s call).1 ∧
      (movesAfter moves s call).length = call.depthAfter moves.length := by
  cases call with
  | set path current change =>
      cases current with
      | some e => exact ⟨h, rfl⟩
      | none =>
          obtain ⟨dir, rfl⟩ := horderly
          rw [movesAfter, Cwd.step, h.set_ok]
          exact ⟨⟨rfl, h.poisoned⟩, rfl⟩
  | back change =>
      obtain ⟨hdepth, rfl⟩ := horderly
      cases moves with
      | nil => exact absurd hdepth (Nat.lt_irrefl 0)
      | cons prev rest =>
          rw [movesAfter, Cwd.step, h.back_cons]
          exact ⟨⟨rfl, h.poisoned⟩, rfl⟩

/-! ### The run -/

theorem Inv.behavesAsStack_iff (h : Inv start moves s) (leave : Option IoError)
    (calls : List (Call PathBuf IoError)) :
    BehavesAsStack start leave moves s calls ↔ Orderly moves.length calls := by
  induction calls generalizing moves s with
  | nil => exact ⟨fun _ => trivial, fun _ => h.drop leave⟩
  | cons call calls ih =>
      rw [BehavesAsStack, Cwd.Orderly, h.right_iff]
      refine and_congr_right fun horderly => ?_
      obtain ⟨hinv, hlength⟩ := h.step horderly
      rw [ih hinv, hlength]

/-- The guard behaves like a stack, and restores, in the runs whose directory
changes succeed and where `back` is not called without a move to undo, and in no
others. -/
theorem cwd_guard_behaves_as_stack_iff {cwd : PathBuf} {current : Option IoError}
    {guard : CwdGuard PathBuf} (hnew : CwdGuard.new cwd current = .ok guard)
    (leave : Option IoError) (calls : List (Call PathBuf IoError)) :
    BehavesAsStack cwd leave [] { cwd, guard } calls ↔ Orderly 0 calls :=
  (Inv.new hnew).behavesAsStack_iff leave calls

/-- A run with a move there and one back. -/
theorem cwd_guard_behaves_as_stack_there_and_back :
    BehavesAsStack "/start" (none : Option String) []
      { cwd := "/start", guard := ⟨["/start"], false⟩ }
      [.set "elsewhere" none (.ok "/start/elsewhere"), .back none] := by
  have hnew : CwdGuard.new "/start" (none : Option String) = .ok ⟨["/start"], false⟩ := rfl
  refine (cwd_guard_behaves_as_stack_iff hnew none _).mpr ⟨⟨_, rfl⟩, ⟨?_, rfl⟩, trivial⟩
  exact Nat.succ_pos 0

/-- The first `back` of a new guard returns. -/
theorem cwd_guard_behaves_as_stack_first_back :
    CwdGuard.new "/start" (none : Option String) = .ok ⟨["/start"], false⟩ ∧
      (Process.back ⟨"/start", ⟨["/start"], false⟩⟩ (none : Option String)).2 = .ok () ∧
      ¬ BehavesAsStack "/start" (none : Option String) []
        { cwd := "/start", guard := ⟨["/start"], false⟩ } [.back none] := by
  refine ⟨rfl, rfl, ?_⟩
  rintro ⟨⟨-, hpanics, -⟩, -⟩
  have hpanic := hpanics.mpr rfl
  cases hpanic

end Skuld.Cwd
