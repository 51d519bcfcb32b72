import Mathlib.Logic.Relation
import Mathlib.Tactic.Common
import Mathlib.Data.List.Basic

/-!
# Union-find

What a union-find structure over `n` elements offers, whatever its
representation: at the start every element is its own class, and a union joins
two classes and changes no other.  `find` gives the same representative exactly
for the elements of one class; which element that is, is not said.

`find_unions` is the law of a whole run: after a list of unions the classes are
those of the equivalence relation that the list generates.
-/

structure UnionFind where
  State : ℕ → Type
  new : (n : ℕ) → State n
  union : {n : ℕ} → State n → Fin n → Fin n → State n
  find : {n : ℕ} → State n → Fin n → Fin n
  find_new : ∀ {n : ℕ} (i : Fin n), find (new n) i = i
  find_union : ∀ {n : ℕ} (u : State n) (a b i j : Fin n),
    find (union u a b) i = find (union u a b) j ↔ find u i = find u j ∨
      (find u i = find u a ∧ find u b = find u j) ∨ (find u i = find u b ∧ find u a = find u j)

namespace UnionFind

/-- The representatives themselves as the state. -/
def naive : UnionFind where
  State n := Fin n → Fin n
  new _ := id
  union u a b i := if u i = u a then u b else u i
  find u i := u i
  find_new _ := rfl
  find_union u a b i j := by
    dsimp only
    split_ifs with hi hj hj
    · simp [hi, hj]
    · constructor
      · exact fun h => .inr (.inl ⟨hi, h⟩)
      · rintro (h | ⟨-, h⟩ | ⟨h, h'⟩)
        exacts [absurd (h.symm.trans hi) hj, h, absurd h'.symm hj]
    · constructor
      · exact fun h => .inr (.inr ⟨h, hj.symm⟩)
      · rintro (h | ⟨h, -⟩ | ⟨h, -⟩)
        exacts [absurd (h.trans hj) hi, absurd h hi, h]
    · constructor
      · exact .inl
      · rintro (h | ⟨h, -⟩ | ⟨-, h⟩)
        exacts [h, absurd h hi, absurd h.symm hj]

variable (U : UnionFind) {n : ℕ}

/-- One union after the other. -/
def unions (u : U.State n) (pairs : List (Fin n × Fin n)) : U.State n :=
  pairs.foldl (fun u p => U.union u p.1 p.2) u

/-- An equivalence holds of what it holds of the generators. -/
theorem eqvGen_le {α : Type*} {r s : α → α → Prop} (hs : Equivalence s)
    (h : ∀ a b, r a b → s a b) {a b : α} (hab : Relation.EqvGen r a b) : s a b :=
  hs.eqvGen_iff.mp (Relation.EqvGen.mono (fun a b => h a b) _ _ hab)

/-- The classes after some unions: what the classes before and the pairs generate. -/
theorem find_unions_iff (u : U.State n) (pairs : List (Fin n × Fin n)) (i j : Fin n) :
    U.find (U.unions u pairs) i = U.find (U.unions u pairs) j ↔
      Relation.EqvGen (fun a b => U.find u a = U.find u b ∨ (a, b) ∈ pairs) i j := by
  induction pairs generalizing u with
  | nil =>
      constructor
      · exact fun h => .rel _ _ (.inl h)
      · refine eqvGen_le (s := fun a b => U.find u a = U.find u b)
          ⟨fun _ => rfl, Eq.symm, Eq.trans⟩ fun a b h => ?_
        exact h.resolve_right List.not_mem_nil
  | cons p pairs ih =>
      have hold : ∀ {a b}, U.find u a = U.find u b →
          Relation.EqvGen (fun a b => U.find u a = U.find u b ∨ (a, b) ∈ p :: pairs) a b :=
        fun h => .rel _ _ (.inl h)
      have hp : Relation.EqvGen (fun a b => U.find u a = U.find u b ∨ (a, b) ∈ p :: pairs)
          p.1 p.2 := .rel _ _ (.inr List.mem_cons_self)
      refine (ih (U.union u p.1 p.2)).trans ⟨?_, ?_⟩
      · refine eqvGen_le (Relation.EqvGen.is_equivalence _) fun a b h => ?_
        rw [U.find_union] at h
        rcases h with (h | ⟨ha, hb⟩ | ⟨ha, hb⟩) | h
        · exact hold h
        · exact .trans _ _ _ (hold ha) (.trans _ _ _ hp (hold hb))
        · exact .trans _ _ _ (hold ha) (.trans _ _ _ (.symm _ _ hp) (hold hb))
        · exact .rel _ _ (.inr (List.mem_cons_of_mem _ h))
      · refine eqvGen_le (Relation.EqvGen.is_equivalence _) fun a b h => .rel _ _ ?_
        rw [U.find_union]
        rcases h with h | h
        · exact .inl (.inl h)
        · rcases List.mem_cons.mp h with rfl | h
          · exact .inl (.inr (.inl ⟨rfl, rfl⟩))
          · exact .inr h

/-- From single elements on, the pairs alone generate the classes. -/
theorem find_unions (pairs : List (Fin n × Fin n)) (i j : Fin n) :
    U.find (U.unions (U.new n) pairs) i = U.find (U.unions (U.new n) pairs) j ↔
      Relation.EqvGen (fun a b => (a, b) ∈ pairs) i j := by
  rw [find_unions_iff]
  constructor
  · refine eqvGen_le (Relation.EqvGen.is_equivalence _) fun a b h => ?_
    rcases h with h | h
    · rw [U.find_new, U.find_new] at h
      exact h ▸ .refl _
    · exact .rel _ _ h
  · exact eqvGen_le (Relation.EqvGen.is_equivalence _) fun _ _ h => .rel _ _ (.inr h)

end UnionFind
