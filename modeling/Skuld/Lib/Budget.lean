import Mathlib.Tactic.Common
import Mathlib.Algebra.BigOperators.Group.List.Basic
import Mathlib.Algebra.Order.Group.Nat
import Mathlib.Algebra.GroupWithZero.Nat

/-!
# Cutting a list to a budget

Every element has a cost, and the list is cut before the first element that no
longer fits.  Of the prefixes that fit the cut is the longest one
(`prefix_takeWithin`), since costs only add up.
-/

namespace Budget

variable {α : Type*}

/-- The elements that fit, `used` of the budget being spent already. -/
def takeWithin (cost : α → ℕ) (budget : ℕ) : ℕ → List α → List α
  | _, [] => []
  | used, a :: l =>
      if used + cost a > budget then [] else a :: takeWithin cost budget (used + cost a) l

variable {cost : α → ℕ} {budget : ℕ}

theorem takeWithin_prefix_self (used : ℕ) (l : List α) : takeWithin cost budget used l <+: l := by
  induction l generalizing used with
  | nil => exact List.nil_prefix
  | cons a l ih =>
      rw [takeWithin]
      split_ifs with h
      · exact List.nil_prefix
      · exact List.cons_prefix_cons.mpr ⟨rfl, ih _⟩

theorem sum_takeWithin_le {used : ℕ} (hused : used ≤ budget) (l : List α) :
    used + ((takeWithin cost budget used l).map cost).sum ≤ budget := by
  induction l generalizing used with
  | nil => simpa [takeWithin] using hused
  | cons a l ih =>
      rw [takeWithin]
      split_ifs with h
      · simpa using hused
      · have hrest := ih (Nat.le_of_not_lt h)
        rw [List.map_cons, List.sum_cons]
        omega

/-- Every prefix that fits is a prefix of the cut. -/
theorem prefix_takeWithin {used : ℕ} {l p : List α} (hp : p <+: l)
    (hfits : used + (p.map cost).sum ≤ budget) : p <+: takeWithin cost budget used l := by
  induction p generalizing used l with
  | nil => exact List.nil_prefix
  | cons a p ih =>
      cases l with
      | nil => simp at hp
      | cons b l =>
          obtain ⟨rfl, htail⟩ := List.cons_prefix_cons.mp hp
          rw [List.map_cons, List.sum_cons] at hfits
          rw [takeWithin, if_neg (by omega)]
          exact List.cons_prefix_cons.mpr ⟨rfl, ih htail (by omega)⟩

end Budget
