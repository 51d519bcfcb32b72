import Mathlib.Data.Nat.Find
import Mathlib.Logic.Function.Basic

/-!
# Descriptor tables

A process has a finite table of descriptors, each of which names an open file.
`dup` and `pipe` take the lowest descriptors that are free, `dup2` a given one;
each of them may fail, which the caller passes as `ok = false` and which leaves
the table as it was.
-/

structure Descriptors (File : Type*) where
  file : ℕ → Option File
  finite : ∃ bound, ∀ fd, bound ≤ fd → file fd = none

namespace Descriptors

variable {File : Type*} {t t' : Descriptors File} {fd fd' : ℕ} {x y : Option File}

@[ext]
theorem ext (h : ∀ fd, t.file fd = t'.file fd) : t = t' := by
  cases t
  cases t'
  congr
  exact funext h

def set (t : Descriptors File) (fd : ℕ) (x : Option File) : Descriptors File where
  file := Function.update t.file fd x
  finite := by
    obtain ⟨bound, hbound⟩ := t.finite
    refine ⟨max bound (fd + 1), fun other hother => ?_⟩
    rw [Function.update_of_ne (by omega)]
    exact hbound other (by omega)

def close (t : Descriptors File) (fd : ℕ) : Descriptors File :=
  t.set fd none

theorem exists_free (t : Descriptors File) : ∃ fd, t.file fd = none := by
  obtain ⟨bound, hbound⟩ := t.finite
  exact ⟨bound, hbound bound le_rfl⟩

def lowestFree (t : Descriptors File) : ℕ :=
  Nat.find t.exists_free

def dup (t : Descriptors File) (old : ℕ) (ok : Bool) : Option (ℕ × Descriptors File) :=
  if ok ∧ (t.file old).isSome then
    some (t.lowestFree, t.set t.lowestFree (t.file old))
  else
    none

def dup2 (t : Descriptors File) (old new : ℕ) (ok : Bool) : Option (Descriptors File) :=
  if ok ∧ (t.file old).isSome then some (t.set new (t.file old)) else none

/-- The two ends of a pipe: where it is read and where it is written. -/
def pipe (t : Descriptors File) (readEnd writeEnd : File) (ok : Bool) :
    Option (ℕ × ℕ × Descriptors File) :=
  if ok then
    let reader := t.lowestFree
    let t := t.set reader (some readEnd)
    some (reader, t.lowestFree, t.set t.lowestFree (some writeEnd))
  else
    none

theorem file_set (t : Descriptors File) (fd : ℕ) (x : Option File) (other : ℕ) :
    (t.set fd x).file other = if other = fd then x else t.file other :=
  Function.update_apply ..

@[simp]
theorem file_set_self : (t.set fd x).file fd = x :=
  Function.update_self ..

theorem file_set_of_ne (h : fd' ≠ fd) : (t.set fd x).file fd' = t.file fd' :=
  Function.update_of_ne h ..

theorem file_close (t : Descriptors File) (fd other : ℕ) :
    (t.close fd).file other = if other = fd then none else t.file other :=
  file_set ..

theorem file_lowestFree (t : Descriptors File) : t.file t.lowestFree = none :=
  Nat.find_spec t.exists_free

/-- A descriptor in use is not the one that is handed out. -/
theorem ne_lowestFree (h : (t.file fd).isSome = true) : fd ≠ t.lowestFree := by
  rintro rfl
  rw [file_lowestFree] at h
  cases h

/-- A descriptor that is opened and closed again leaves no trace. -/
theorem close_set (h : t.file fd = none) : (t.set fd x).close fd = t := by
  refine ext fun other => ?_
  rw [file_close, file_set]
  split_ifs with heq
  · rw [heq, h]
  · rfl

end Descriptors
