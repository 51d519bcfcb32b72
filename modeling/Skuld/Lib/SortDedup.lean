import Mathlib.Data.List.Sort

/-!
# Sorted lists without repetition

`sort` followed by `dedup`, the way a vector is turned into a sorted set.  The
result is strictly increasing and has the members of the input, and these two
facts determine it: two lists with the same members give the same result.
-/

namespace SortDedup

variable {α : Type*}

/-- Drops every element that equals the one after it. -/
def dedup [DecidableEq α] : List α → List α
  | [] => []
  | a :: l => if l.head? = some a then dedup l else a :: dedup l

theorem mem_dedup [DecidableEq α] {l : List α} {x : α} : x ∈ dedup l ↔ x ∈ l := by
  induction l with
  | nil => rfl
  | cons a l ih =>
      rw [dedup]
      split_ifs with h
      · have ha : a ∈ l := List.mem_of_head? h
        rw [ih, List.mem_cons]
        exact ⟨.inr, fun hx => hx.elim (fun heq => heq ▸ ha) id⟩
      · rw [List.mem_cons, List.mem_cons, ih]

variable [LinearOrder α]

theorem pairwise_dedup {l : List α} (h : l.Pairwise (· ≤ ·)) : (dedup l).Pairwise (· < ·) := by
  induction l with
  | nil => exact .nil
  | cons a l ih =>
      obtain ⟨ha, hl⟩ := List.pairwise_cons.mp h
      rw [dedup]
      split_ifs with hhead
      · exact ih hl
      · refine List.pairwise_cons.mpr ⟨fun b hb => ?_, ih hl⟩
        rw [mem_dedup] at hb
        refine lt_of_le_of_ne (ha b hb) fun heq => hhead ?_
        -- `a` occurs in `l`, and the head of `l` is at most `a`
        cases l with
        | nil => cases hb
        | cons c l =>
            have hca : c ≤ a := by
              rcases List.mem_cons.mp hb with rfl | hb
              exacts [heq.ge, heq ▸ (List.pairwise_cons.mp hl).1 b hb]
            rw [List.head?_cons, le_antisymm hca (ha c List.mem_cons_self)]

def sortDedup (l : List α) : List α :=
  dedup (l.insertionSort (· ≤ ·))

@[simp] theorem mem_sortDedup {l : List α} {x : α} : x ∈ sortDedup l ↔ x ∈ l := by
  rw [sortDedup, mem_dedup, List.mem_insertionSort]

theorem pairwise_sortDedup (l : List α) : (sortDedup l).Pairwise (· < ·) :=
  pairwise_dedup (List.pairwise_insertionSort (· ≤ ·) l)

/-- A strictly increasing list is determined by its members. -/
theorem eq_of_pairwise_lt {l l' : List α} (h : l.Pairwise (· < ·)) (h' : l'.Pairwise (· < ·))
    (hmem : ∀ x, x ∈ l ↔ x ∈ l') : l = l' :=
  ((List.perm_ext_iff_of_nodup (h.imp ne_of_lt) (h'.imp ne_of_lt)).mpr hmem).eq_of_pairwise
    (fun _ _ _ _ hab hba => absurd (hab.trans hba) (lt_irrefl _)) h h'

end SortDedup
