import Mathlib.Logic.Function.Basic

/-!
# Undo logs

Before a place is written its value goes into a log.  Giving the values back,
the newest first, undoes all writes: `undo_write` takes one write off the log,
and `undo_skip` one that did not happen.  The log may name the places in its own
way.
-/

namespace UndoLog

variable {ι κ ν : Type*} [DecidableEq κ] {name : ι → κ}

/-- Gives the old values back.  The log has the newest entry first. -/
def undo (name : ι → κ) : List (ι × ν) → (κ → ν) → κ → ν
  | [], m => m
  | (i, old) :: log, m => undo name log (Function.update m (name i) old)

theorem undo_write (log : List (ι × ν)) (m : κ → ν) (i : ι) (value : ν) :
    undo name ((i, m (name i)) :: log) (Function.update m (name i) value) = undo name log m := by
  rw [undo, Function.update_idem, Function.update_eq_self]

theorem undo_skip (log : List (ι × ν)) (m : κ → ν) (i : ι) :
    undo name ((i, m (name i)) :: log) m = undo name log m := by
  rw [undo, Function.update_eq_self]

end UndoLog
