import Mathlib.Tactic.Common
import Mathlib.Data.List.Basic

/-!
# Lists of texts with a terminator

Writing a list of texts one after the other, each with the same terminator
behind it, loses where a text ends that has the terminator in it.  What is kept
are the pieces: the texts cut at every terminator (`terminated_inj`).
-/

namespace Delimited

variable {α : Type*} [DecidableEq α]

/-- The texts, each with the terminator behind it. -/
def terminated (sep : α) (texts : List (List α)) : List α :=
  texts.flatMap (· ++ [sep])

/-- The texts cut at every terminator. -/
def pieces (sep : α) (texts : List (List α)) : List (List α) :=
  texts.flatMap (List.splitOn sep)

variable {sep : α}

theorem splitOn_terminated (texts : List (List α)) :
    (terminated sep texts).splitOn sep = pieces sep texts ++ [[]] := by
  induction texts with
  | nil => simp [terminated, pieces]
  | cons text texts ih =>
      have hcons : terminated sep (text :: texts) = text ++ sep :: terminated sep texts := by
        simp [terminated]
      rw [hcons, List.splitOn_append_cons_self, ih, pieces, pieces, List.flatMap_cons,
        List.append_assoc]

/-- Two lists are written the same exactly if they have the same pieces. -/
theorem terminated_inj {texts texts' : List (List α)} :
    terminated sep texts = terminated sep texts' ↔ pieces sep texts = pieces sep texts' := by
  constructor
  · intro h
    have hsplit := congrArg (List.splitOn sep) h
    rw [splitOn_terminated, splitOn_terminated] at hsplit
    exact List.append_cancel_right hsplit
  · intro h
    have hself : [sep].intercalate ((terminated sep texts).splitOn sep) = terminated sep texts :=
      List.intercalate_splitOn sep
    rw [← hself, splitOn_terminated, h, ← splitOn_terminated, List.intercalate_splitOn]

/-- Without a terminator in them the texts are the pieces. -/
theorem pieces_eq_self {texts : List (List α)} (h : ∀ text ∈ texts, sep ∉ text) :
    pieces sep texts = texts := by
  induction texts with
  | nil => rfl
  | cons text texts ih =>
      rw [List.forall_mem_cons] at h
      rw [pieces, List.flatMap_cons, ← pieces, ih h.2, List.splitOn_eq_singleton h.1,
        List.singleton_append]

end Delimited
