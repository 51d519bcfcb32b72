import Mathlib.Data.List.Basic
import Mathlib.Tactic.Common
import Skuld.Lib.UndoLog

/-!
# The environment guard

An `EnvGuard` logs the value of a variable before it tries to change it, and
`drop` gives the values back in reverse order.  A call with a bad value is logged
and undone like any other.  A call with a bad key is logged too, but its entry
cannot be undone: `drop` panics there, and the entries before it are not undone
either.

Nothing panics while the lock on the log is held, so it is never poisoned and
has no place in the model.
-/

namespace Skuld.Env

/-- The bytes of a string of the operating system. -/
abbrev OsString := List UInt8

def osStr (s : String) : OsString :=
  s.toUTF8.data.toList

/-- A value that a variable can have. -/
structure Value where
  bytes : OsString
  no_nul : 0 ∉ bytes
  deriving DecidableEq

abbrev Environment := OsString → Option Value

/-- The name of a variable that can be set: not empty, and without `=` or NUL. -/
def ValidName (name : OsString) : Prop :=
  name ≠ [] ∧ 61 ∉ name ∧ 0 ∉ name

instance (name : OsString) : Decidable (ValidName name) :=
  inferInstanceAs (Decidable (_ ∧ _ ∧ _))

inductive Panic where
  | failedToSet (name value : OsString)
  | failedToRemove (name : OsString)
  deriving DecidableEq

/-! ## The standard library -/

/-- `std::env::set_var`. -/
def setVar (env : Environment) (name value : OsString) : Except Panic Environment :=
  if ValidName name then
    if h : 0 ∈ value then
      .error (.failedToSet name value)
    else
      .ok (Function.update env name (some ⟨value, h⟩))
  else
    .error (.failedToSet name value)

/-- `std::env::remove_var`. -/
def removeVar (env : Environment) (name : OsString) : Except Panic Environment :=
  if ValidName name then .ok (Function.update env name none) else .error (.failedToRemove name)

/-- `std::env::var_os`. -/
def varOs (env : Environment) (name : OsString) : Option Value :=
  env name

/-! ## The guard -/

/-- The stack of an `EnvGuard`, with the newest entry first: keys, and the values
that they had. -/
abbrev Original := List (String × Option Value)

/-- The environment of the process, and the guard. -/
structure Process where
  env : Environment
  original : Original

namespace Process

/-- `EnvGuard::new`. -/
def new (env : Environment) : Process :=
  { env, original := [] }

def set (s : Process) (key value : String) : Process × Except Panic Unit :=
  let old := varOs s.env (osStr key)
  let original := (key, old) :: s.original
  match setVar s.env (osStr key) (osStr value) with
  | .error panic => ({ s with original }, .error panic)
  | .ok env => ({ env, original }, .ok ())

def remove (s : Process) (key : String) : Process × Except Panic Unit :=
  let old := varOs s.env (osStr key)
  let original := (key, old) :: s.original
  match removeVar s.env (osStr key) with
  | .error panic => ({ s with original }, .error panic)
  | .ok env => ({ env, original }, .ok ())

end Process

/-- The body of the loop of `drop`. -/
def restore (env : Environment) : String × Option Value → Except Panic Environment
  | (key, some val) => setVar env (osStr key) val.bytes
  | (key, none) => removeVar env (osStr key)

/-- The loop of `drop`, which a panic ends. -/
def restoreAll : Original → Environment → Environment × Except Panic Unit
  | [], env => (env, .ok ())
  | entry :: original, env =>
      match restore env entry with
      | .error panic => (env, .error panic)
      | .ok env => restoreAll original env

def Process.drop (s : Process) : Environment × Except Panic Unit :=
  restoreAll s.original s.env

inductive Call where
  | set (key value : String)
  | remove (key : String)

def Call.key : Call → String
  | .set key _ => key
  | .remove key => key

/-- The state after a call, which may have panicked. -/
def step (s : Process) : Call → Process
  | .set key value => (s.set key value).1
  | .remove key => (s.remove key).1

def run (s : Process) (calls : List Call) : Process :=
  calls.foldl step s

/-- `drop` does not panic, and every variable is as it was at the start. -/
def Restores (env : Environment) (calls : List Call) : Prop :=
  (run (.new env) calls).drop.2 = .ok () ∧
    ∀ name, varOs (run (.new env) calls).drop.1 name = varOs env name

/-! ## Undoing -/

variable {env : Environment} {s : Process} {key : String} {old : Option Value}

/-- A value that a variable had is no reason to panic. -/
theorem restore_valid (hkey : ValidName (osStr key)) :
    restore env (key, old) = .ok (Function.update env (osStr key) old) := by
  cases old with
  | none => rw [restore, removeVar, if_pos hkey]
  | some val => rw [restore, setVar, if_pos hkey, dif_neg val.no_nul]

theorem restore_invalid (env : Environment) (old : Option Value) (hkey : ¬ ValidName (osStr key)) :
    ∃ panic, restore env (key, old) = .error panic := by
  cases old with
  | none => exact ⟨_, by rw [restore, removeVar, if_neg hkey]⟩
  | some val => exact ⟨_, by rw [restore, setVar, if_neg hkey]⟩

theorem restoreAll_ok_iff {original : Original} :
    (restoreAll original env).2 = .ok () ↔ ∀ entry ∈ original, ValidName (osStr entry.1) := by
  induction original generalizing env with
  | nil => simp [restoreAll]
  | cons entry original ih =>
      obtain ⟨key, old⟩ := entry
      rw [List.forall_mem_cons]
      by_cases hkey : ValidName (osStr key)
      · rw [restoreAll, restore_valid hkey]
        exact ih.trans (iff_and_self.mpr fun _ => hkey)
      · obtain ⟨panic, hpanic⟩ := restore_invalid env old hkey
        rw [restoreAll, hpanic]
        constructor
        · intro h
          cases h
        · exact fun h => absurd h.1 hkey

theorem restoreAll_eq_undo {original : Original}
    (hvalid : ∀ entry ∈ original, ValidName (osStr entry.1)) :
    (restoreAll original env).1 = UndoLog.undo osStr original env := by
  induction original generalizing env with
  | nil => rfl
  | cons entry original ih =>
      obtain ⟨key, old⟩ := entry
      rw [List.forall_mem_cons] at hvalid
      rw [restoreAll, restore_valid hvalid.1, UndoLog.undo]
      exact ih hvalid.2

/-! ## Logging -/

/-- A call logs its key with the value that the variable has, and then changes
that variable or nothing. -/
theorem step_eq (s : Process) (call : Call) :
    (step s call).original = (call.key, s.env (osStr call.key)) :: s.original ∧
      ((step s call).env = s.env ∨
        ∃ value, (step s call).env = Function.update s.env (osStr call.key) value) := by
  cases call with
  | set key value =>
      rw [step, Process.set, setVar]
      split_ifs with hkey hvalue
      · exact ⟨rfl, .inl rfl⟩
      · exact ⟨rfl, .inr ⟨_, rfl⟩⟩
      · exact ⟨rfl, .inl rfl⟩
  | remove key =>
      rw [step, Process.remove, removeVar]
      split_ifs with hkey
      · exact ⟨rfl, .inr ⟨_, rfl⟩⟩
      · exact ⟨rfl, .inl rfl⟩

theorem undo_step (s : Process) (call : Call) :
    UndoLog.undo osStr (step s call).original (step s call).env =
      UndoLog.undo osStr s.original s.env := by
  obtain ⟨hlog, henv | ⟨value, henv⟩⟩ := step_eq s call
  · rw [hlog, henv, UndoLog.undo_skip]
  · rw [hlog, henv, UndoLog.undo_write]

theorem undo_run (s : Process) (calls : List Call) :
    UndoLog.undo osStr (run s calls).original (run s calls).env =
      UndoLog.undo osStr s.original s.env := by
  induction calls generalizing s with
  | nil => rfl
  | cons call calls ih => exact (ih (step s call)).trans (undo_step s call)

theorem keys_run (s : Process) (calls : List Call) :
    (run s calls).original.map Prod.fst =
      (calls.map Call.key).reverse ++ s.original.map Prod.fst := by
  induction calls generalizing s with
  | nil => rfl
  | cons call calls ih =>
      calc (run (step s call) calls).original.map Prod.fst
          = (calls.map Call.key).reverse ++ (step s call).original.map Prod.fst := ih _
        _ = ((call :: calls).map Call.key).reverse ++ s.original.map Prod.fst := by
            rw [(step_eq s call).1]
            simp

theorem mem_original_run (env : Environment) (calls : List Call) :
    (∀ entry ∈ (run (.new env) calls).original, ValidName (osStr entry.1)) ↔
      ∀ call ∈ calls, ValidName (osStr call.key) := by
  have hkeys : (run (.new env) calls).original.map Prod.fst = (calls.map Call.key).reverse := by
    rw [keys_run, Process.new, List.map_nil, List.append_nil]
  calc (∀ entry ∈ (run (.new env) calls).original, ValidName (osStr entry.1))
      ↔ ∀ key ∈ (run (.new env) calls).original.map Prod.fst, ValidName (osStr key) := by
        rw [List.forall_mem_map]
    _ ↔ ∀ call ∈ calls, ValidName (osStr call.key) := by
        simp [hkeys]

/-- The guard restores the environment if and only if every key that it was
called with can be the name of a variable. -/
theorem env_guard_restores_iff (env : Environment) (calls : List Call) :
    Restores env calls ↔ ∀ call ∈ calls, ValidName (osStr call.key) := by
  rw [← mem_original_run env]
  constructor
  · exact fun h => restoreAll_ok_iff.mp h.1
  · intro hvalid
    refine ⟨restoreAll_ok_iff.mpr hvalid, fun name => ?_⟩
    have hundo : (run (.new env) calls).drop.1 = env := by
      calc (run (.new env) calls).drop.1
          = UndoLog.undo osStr (run (.new env) calls).original (run (.new env) calls).env :=
            restoreAll_eq_undo hvalid
        _ = env := undo_run (.new env) calls
    rw [hundo]

/-- The call with the empty key has been caught, and yet the variable that was
set before it stays. -/
theorem env_guard_restores_empty_key :
    (run (.new fun _ => none) [.set "VAR" "1", .set "" "2"]).drop.2 ≠ .ok () ∧
      varOs (run (.new fun _ => none) [.set "VAR" "1", .set "" "2"]).drop.1 (osStr "VAR") =
        some ⟨osStr "1", by decide⟩ ∧
      ¬ Restores (fun _ => none) [.set "VAR" "1", .set "" "2"] := by
  have hpanics : (run (.new fun _ => none) [.set "VAR" "1", .set "" "2"]).drop.2 ≠ .ok () := by
    decide
  exact ⟨hpanics, by decide, fun h => hpanics h.1⟩

end Skuld.Env
