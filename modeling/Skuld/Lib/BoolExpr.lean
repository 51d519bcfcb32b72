import Mathlib.Tactic.Common
import Mathlib.Order.Lattice
import Mathlib.Data.List.Basic

/-!
# Boolean expressions and canonical forms

Expressions over variables of any type, their value under an assignment, and
the variables a value depends on.  Two expressions are equivalent when they have
the same value everywhere; a *canonical form* picks one expression for each
class.

`Bdd` states what a decision-diagram package offers for that purpose: the
expression read back from the diagram of `e`, with the variables seeded in
increasing order.  Its fields are the laws that users of the package rely on.
`shannon` is an instance: it expands on the variables in order, skips the ones
the function ignores and simplifies at every node, so that the laws are not
empty promises.
-/

namespace BoolExpr

/-- Boolean expressions over the variables `T`. -/
inductive Expr (T : Type*) where
  | terminal (t : T)
  | const (b : Bool)
  | not (e : Expr T)
  | and (a b : Expr T)
  | or (a b : Expr T)
  deriving DecidableEq

namespace Expr

variable {T : Type*}

/-- The value of an expression under an assignment. -/
def eval (ρ : T → Bool) : Expr T → Bool
  | terminal t => ρ t
  | const b => b
  | not e => !e.eval ρ
  | and a b => a.eval ρ && b.eval ρ
  | or a b => a.eval ρ || b.eval ρ

/-- The variables of an expression, from left to right, with repetitions. -/
def terminals : Expr T → List T
  | terminal t => [t]
  | const _ => []
  | not e => e.terminals
  | and a b => a.terminals ++ b.terminals
  | or a b => a.terminals ++ b.terminals

/-- The expression with its variables renamed. -/
def map {U : Type*} (f : T → U) : Expr T → Expr U
  | terminal t => terminal (f t)
  | const b => const b
  | not e => not (e.map f)
  | and a b => and (a.map f) (b.map f)
  | or a b => or (a.map f) (b.map f)

theorem terminals_map {U : Type*} (f : T → U) (e : Expr T) :
    (e.map f).terminals = e.terminals.map f := by
  induction e with
  | terminal t => rfl
  | const b => rfl
  | not e ih => exact ih
  | and a b iha ihb => simp only [map, terminals, iha, ihb, List.map_append]
  | or a b iha ihb => simp only [map, terminals, iha, ihb, List.map_append]

theorem eval_map {U : Type*} (f : T → U) (e : Expr T) (ρ : U → Bool) :
    (e.map f).eval ρ = e.eval fun t => ρ (f t) := by
  induction e with
  | terminal t => rfl
  | const b => rfl
  | not e ih => simp only [map, eval, ih]
  | and a b iha ihb => simp only [map, eval, iha, ihb]
  | or a b iha ihb => simp only [map, eval, iha, ihb]

/-- Equal under every assignment. -/
def Equiv (e e' : Expr T) : Prop :=
  ∀ ρ, e.eval ρ = e'.eval ρ

theorem Equiv.symm {e e' : Expr T} (h : e.Equiv e') : e'.Equiv e :=
  fun ρ => (h ρ).symm

theorem Equiv.trans {e e' e'' : Expr T} (h : e.Equiv e') (h' : e'.Equiv e'') : e.Equiv e'' :=
  fun ρ => (h ρ).trans (h' ρ)

/-- The value depends on the expression's own variables only. -/
theorem eval_congr {e : Expr T} {ρ ρ' : T → Bool} (h : ∀ t ∈ e.terminals, ρ t = ρ' t) :
    e.eval ρ = e.eval ρ' := by
  induction e with
  | terminal t => exact h t (List.mem_singleton_self t)
  | const b => rfl
  | not e ih => simp only [eval, ih h]
  | and a b iha ihb =>
      simp only [terminals, List.mem_append] at h
      simp only [eval, iha fun t ht => h t (.inl ht), ihb fun t ht => h t (.inr ht)]
  | or a b iha ihb =>
      simp only [terminals, List.mem_append] at h
      simp only [eval, iha fun t ht => h t (.inl ht), ihb fun t ht => h t (.inr ht)]

/-- Equal up to the association of chains of one operator. -/
inductive Reassoc : Expr T → Expr T → Prop where
  | refl e : Reassoc e e
  | trans {e e' e''} : Reassoc e e' → Reassoc e' e'' → Reassoc e e''
  | not {e e'} : Reassoc e e' → Reassoc (not e) (not e')
  | and {a a' b b'} : Reassoc a a' → Reassoc b b' → Reassoc (and a b) (and a' b')
  | or {a a' b b'} : Reassoc a a' → Reassoc b b' → Reassoc (or a b) (or a' b')
  | and_assoc a b c : Reassoc (and a (and b c)) (and (and a b) c)
  | or_assoc a b c : Reassoc (or a (or b c)) (or (or a b) c)

theorem Reassoc.equiv {e e' : Expr T} (h : Reassoc e e') : e.Equiv e' := by
  intro ρ
  induction h with
  | refl e => rfl
  | trans _ _ ih ih' => exact ih.trans ih'
  | not _ ih => simp only [eval, ih]
  | and _ _ iha ihb => simp only [eval, iha, ihb]
  | or _ _ iha ihb => simp only [eval, iha, ihb]
  | and_assoc a b c => simp only [eval, Bool.and_assoc]
  | or_assoc a b c => simp only [eval, Bool.or_assoc]

/-- Association changes no variable and no order of variables. -/
theorem Reassoc.terminals_eq {e e' : Expr T} (h : Reassoc e e') : e'.terminals = e.terminals := by
  induction h with
  | refl e => rfl
  | trans _ _ ih ih' => rw [ih', ih]
  | not _ ih => exact ih
  | and _ _ iha ihb => simp only [terminals, iha, ihb]
  | or _ _ iha ihb => simp only [terminals, iha, ihb]
  | and_assoc a b c => simp only [terminals, List.append_assoc]
  | or_assoc a b c => simp only [terminals, List.append_assoc]

variable [DecidableEq T]

/-- The assignment `ρ` with `t` set to `b`. -/
def set (ρ : T → Bool) (t : T) (b : Bool) : T → Bool :=
  fun u => if u = t then b else ρ u

@[simp] theorem set_same (ρ : T → Bool) (t : T) (b : Bool) : set ρ t b t = b := by
  simp [set]

theorem set_of_ne {ρ : T → Bool} {t u : T} {b : Bool} (h : u ≠ t) : set ρ t b u = ρ u := by
  simp [set, h]

theorem set_eq_self (ρ : T → Bool) (t : T) : set ρ t (ρ t) = ρ := by
  funext u
  by_cases h : u = t
  · rw [h, set_same]
  · rw [set_of_ne h]

theorem set_set (ρ : T → Bool) (t : T) (b b' : Bool) : set (set ρ t b) t b' = set ρ t b' := by
  funext u
  by_cases h : u = t
  · rw [h, set_same, set_same]
  · rw [set_of_ne h, set_of_ne h, set_of_ne h]

theorem set_comm {ρ : T → Bool} {t u : T} (h : t ≠ u) (b b' : Bool) :
    set (set ρ t b) u b' = set (set ρ u b') t b := by
  funext v
  by_cases hu : v = u
  · subst hu
    rw [set_same, set_of_ne (Ne.symm h), set_same]
  · by_cases ht : v = t
    · subst ht
      rw [set_of_ne hu, set_same, set_same]
    · rw [set_of_ne hu, set_of_ne ht, set_of_ne ht, set_of_ne hu]

/-- Some assignment tells `t` from its negation. -/
def DependsOn (e : Expr T) (t : T) : Prop :=
  ∃ ρ, e.eval (set ρ t true) ≠ e.eval (set ρ t false)

theorem DependsOn.mem_terminals {e : Expr T} {t : T} (h : e.DependsOn t) : t ∈ e.terminals := by
  obtain ⟨ρ, hρ⟩ := h
  by_contra hmem
  refine hρ (eval_congr fun u hu => ?_)
  have hne : u ≠ t := fun heq => hmem (heq ▸ hu)
  rw [set_of_ne hne, set_of_ne hne]

/-- `e` with the constant `b` for the variable `t`. -/
def assign (t : T) (b : Bool) : Expr T → Expr T
  | terminal u => if u = t then const b else terminal u
  | const c => const c
  | not e => not (e.assign t b)
  | and a c => and (a.assign t b) (c.assign t b)
  | or a c => or (a.assign t b) (c.assign t b)

theorem eval_assign (e : Expr T) (t : T) (b : Bool) (ρ : T → Bool) :
    (e.assign t b).eval ρ = e.eval (set ρ t b) := by
  induction e with
  | terminal u =>
      by_cases h : u = t
      · simp [assign, eval, h]
      · simp [assign, eval, h, set_of_ne h]
  | const c => rfl
  | not e ih => simp only [assign, eval, ih]
  | and a c iha ihc => simp only [assign, eval, iha, ihc]
  | or a c iha ihc => simp only [assign, eval, iha, ihc]

theorem mem_terminals_assign {e : Expr T} {t u : T} {b : Bool} :
    u ∈ (e.assign t b).terminals ↔ u ∈ e.terminals ∧ u ≠ t := by
  induction e with
  | terminal v =>
      by_cases h : v = t
      · simp [assign, terminals, h]
      · simp only [assign, h, if_false, terminals, List.mem_singleton]
        exact ⟨fun hu => ⟨hu, hu ▸ h⟩, fun hu => hu.1⟩
  | const c => simp [assign, terminals]
  | not e ih => simpa [assign, terminals] using ih
  | and a c iha ihc => simp only [assign, terminals, List.mem_append, iha, ihc, or_and_right]
  | or a c iha ihc => simp only [assign, terminals, List.mem_append, iha, ihc, or_and_right]

theorem Equiv.assign {e e' : Expr T} (h : e.Equiv e') (t : T) (b : Bool) :
    (e.assign t b).Equiv (e'.assign t b) := fun ρ => by
  rw [eval_assign, eval_assign, h]

/-- A variable outside the expression can be assigned without changing it. -/
theorem assign_equiv_of_notMem {e : Expr T} {t : T} (h : t ∉ e.terminals) (b : Bool) :
    (e.assign t b).Equiv e := fun ρ => by
  rw [eval_assign]
  exact eval_congr fun u hu => set_of_ne fun heq => h (heq ▸ hu)

end Expr

open BoolExpr.Expr

/-! ## Decision diagrams -/

variable {T : Type*} [LinearOrder T]

/-- The order a diagram is seeded with: increasing, with every variable of `e`. -/
structure Seeded (order : List T) (e : Expr T) : Prop where
  sorted : order.Pairwise (· < ·)
  covers : ∀ t ∈ e.terminals, t ∈ order

variable (T) in
/-- A decision-diagram package, as far as canonical forms use it: `roundTrip
order e` declares the variables `order` in a fresh diagram, builds the diagram
of `e` and reads an expression back from it.  The expression read back has the
same value, uses only variables that matter, is the constant for a constant
function and the variable for a single variable, and is determined by the
function alone. -/
structure Bdd where
  roundTrip : List T → Expr T → Expr T
  eval_roundTrip : ∀ {order e}, Seeded order e → (roundTrip order e).Equiv e
  dependsOn_of_mem : ∀ {order e t}, Seeded order e → t ∈ (roundTrip order e).terminals →
    e.DependsOn t
  roundTrip_const : ∀ {order e b}, Seeded order e → e.Equiv (.const b) →
    roundTrip order e = .const b
  roundTrip_terminal : ∀ {order e t}, Seeded order e → e.Equiv (.terminal t) →
    roundTrip order e = .terminal t
  roundTrip_congr : ∀ {order order' e e'}, Seeded order e → Seeded order' e' → e.Equiv e' →
    roundTrip order e = roundTrip order' e'

theorem Seeded.assign {t : T} {order : List T} {e : Expr T} (h : Seeded (t :: order) e) (b : Bool) :
    Seeded order (e.assign t b) where
  sorted := (List.pairwise_cons.mp h.sorted).2
  covers u hu := by
    rw [mem_terminals_assign] at hu
    exact (List.mem_cons.mp (h.covers u hu.1)).resolve_left hu.2

/-- A variable below the whole order does not occur. -/
theorem Seeded.notMem_of_lt {t : T} {order : List T} {e : Expr T} (h : Seeded order e)
    (hlt : ∀ u ∈ order, t < u) : t ∉ e.terminals :=
  fun hmem => lt_irrefl t (hlt t (h.covers t hmem))

/-! ## Shannon expansion -/

section Branch

variable {T : Type*}

/-- `if t then hi else lo`, simplified where a branch is constant. -/
def branch (t : T) : Expr T → Expr T → Expr T
  | .const true, .const false => .terminal t
  | .const false, .const true => .not (.terminal t)
  | .const true, lo => .or (.terminal t) lo
  | .const false, lo => .and (.not (.terminal t)) lo
  | hi, .const true => .or (.not (.terminal t)) hi
  | hi, .const false => .and (.terminal t) hi
  | hi, lo => .or (.and (.terminal t) hi) (.and (.not (.terminal t)) lo)

theorem eval_branch (t : T) (hi lo : Expr T) (ρ : T → Bool) :
    (branch t hi lo).eval ρ = if ρ t then hi.eval ρ else lo.eval ρ := by
  unfold branch
  split <;> cases h : ρ t <;> simp [eval, h]

theorem mem_terminals_branch {t u : T} {hi lo : Expr T}
    (h : u ∈ (branch t hi lo).terminals) : u = t ∨ u ∈ hi.terminals ∨ u ∈ lo.terminals := by
  unfold branch at h
  split at h <;> simp only [terminals, List.mem_append, List.mem_singleton] at h <;> tauto

end Branch

/-- Expand `e` on the variables of the order, dropping those that do not matter. -/
def expand : List T → Expr T → Expr T
  | [], e => .const (e.eval fun _ => false)
  | t :: order, e =>
      let hi := expand order (e.assign t true)
      let lo := expand order (e.assign t false)
      if hi = lo then hi else branch t hi lo

theorem eval_of_terminals_nil {e : Expr T} (h : Seeded [] e) (ρ : T → Bool) :
    e.eval ρ = e.eval fun _ => false :=
  eval_congr fun t ht => absurd (h.covers t ht) List.not_mem_nil

theorem eval_expand {order : List T} {e : Expr T} (h : Seeded order e) :
    (expand order e).Equiv e := by
  induction order generalizing e with
  | nil => exact fun ρ => (eval_of_terminals_nil h ρ).symm
  | cons t order ih =>
      intro ρ
      have hset : ∀ b, (expand order (e.assign t b)).eval ρ = e.eval (set ρ t b) := fun b => by
        rw [ih (h.assign b), eval_assign]
      have hρ : e.eval ρ = if ρ t then e.eval (set ρ t true) else e.eval (set ρ t false) := by
        conv_lhs => rw [← set_eq_self ρ t]
        cases ρ t <;> rfl
      rw [expand]
      split_ifs with heq
      · have hsame := hset false
        rw [← heq, hset true] at hsame
        rw [hset true, hρ, hsame]
        cases ρ t <;> rfl
      · rw [eval_branch, hset true, hset false, hρ]

/-- Expansion sees the function only, on one order. -/
theorem expand_congr_order {order : List T} {e e' : Expr T} (h : e.Equiv e') :
    expand order e = expand order e' := by
  induction order generalizing e e' with
  | nil => rw [expand, expand, h]
  | cons t order ih => simp only [expand, ih (h.assign t true), ih (h.assign t false)]

/-- A variable that does not matter for the function can be assigned at will. -/
theorem assign_equiv_of_equiv {e e' : Expr T} {t : T} (h : e.Equiv e') (ht : t ∉ e'.terminals)
    (b : Bool) : (e.assign t b).Equiv e' :=
  (h.assign t b).trans (assign_equiv_of_notMem ht b)

/-- Expansion drops such a variable from the order. -/
theorem expand_cons_of_equiv {order : List T} {e e' : Expr T} {t : T} (h : e.Equiv e')
    (ht : t ∉ e'.terminals) : expand (t :: order) e = expand order (e.assign t true) := by
  have hsame : expand order (e.assign t false) = expand order (e.assign t true) :=
    expand_congr_order
      ((assign_equiv_of_equiv h ht false).trans (assign_equiv_of_equiv h ht true).symm)
  simp only [expand, hsame, if_true]

/-- Expansion is determined by the function, whatever the orders: the smaller
of the two first variables is irrelevant to both, or they agree on it. -/
theorem expand_congr {order order' : List T} {e e' : Expr T} (hs : Seeded order e)
    (hs' : Seeded order' e') (h : e.Equiv e') : expand order e = expand order' e' := by
  induction order generalizing order' e e' with
  | nil =>
      induction order' generalizing e' with
      | nil => rw [expand, expand, h]
      | cons t' order' ih =>
          have ht' : t' ∉ e.terminals := fun hmem => List.not_mem_nil (hs.covers t' hmem)
          rw [expand_cons_of_equiv h.symm ht']
          exact ih (hs'.assign true) (assign_equiv_of_equiv h.symm ht' true).symm
  | cons t order ih =>
      have ht := List.pairwise_cons.mp hs.sorted
      induction order' generalizing e e' with
      | nil =>
          have hmem : t ∉ e'.terminals := fun hmem => List.not_mem_nil (hs'.covers t hmem)
          rw [expand_cons_of_equiv h hmem]
          exact ih (hs.assign true) hs' (assign_equiv_of_equiv h hmem true)
      | cons t' order' ih' =>
          have ht' := List.pairwise_cons.mp hs'.sorted
          rcases lt_trichotomy t t' with hlt | rfl | hlt
          · have hmem : t ∉ e'.terminals := hs'.notMem_of_lt fun u hu => by
              rcases List.mem_cons.mp hu with rfl | hu
              exacts [hlt, lt_trans hlt (ht'.1 u hu)]
            rw [expand_cons_of_equiv h hmem]
            exact ih (hs.assign true) hs' (assign_equiv_of_equiv h hmem true)
          · simp only [expand, ih (hs.assign true) (hs'.assign true) (h.assign t true),
              ih (hs.assign false) (hs'.assign false) (h.assign t false)]
          · have hmem : t' ∉ e.terminals := hs.notMem_of_lt fun u hu => by
              rcases List.mem_cons.mp hu with rfl | hu
              exacts [hlt, lt_trans hlt (ht.1 u hu)]
            rw [expand_cons_of_equiv h.symm hmem]
            exact ih' hs (hs'.assign true) (assign_equiv_of_equiv h.symm hmem true).symm

/-- A variable that matters after an assignment is another one and matters before. -/
theorem dependsOn_of_assign {e : Expr T} {t u : T} {b : Bool} (h : (e.assign t b).DependsOn u) :
    e.DependsOn u := by
  obtain ⟨ρ, hρ⟩ := h
  rw [eval_assign, eval_assign] at hρ
  have hne : u ≠ t := by
    rintro rfl
    rw [set_set, set_set] at hρ
    exact hρ rfl
  refine ⟨set ρ t b, ?_⟩
  rwa [set_comm hne.symm, set_comm hne.symm]

theorem dependsOn_of_mem_expand {order : List T} {e : Expr T} {u : T}
    (hu : u ∈ (expand order e).terminals) : e.DependsOn u := by
  induction order generalizing e with
  | nil => simp [expand, terminals] at hu
  | cons t order ih =>
      rw [expand] at hu
      split_ifs at hu with heq
      · exact dependsOn_of_assign (ih hu)
      · rcases mem_terminals_branch hu with rfl | hu | hu
        · by_contra hnot
          have hsame : ∀ ρ, e.eval (set ρ u true) = e.eval (set ρ u false) := fun ρ => by
            by_contra hne
            exact hnot ⟨ρ, hne⟩
          exact heq (expand_congr_order fun ρ => by rw [eval_assign, eval_assign, hsame])
        · exact dependsOn_of_assign (ih hu)
        · exact dependsOn_of_assign (ih hu)

theorem expand_const (order : List T) (b : Bool) : expand order (.const b) = .const b := by
  induction order with
  | nil => rfl
  | cons t order ih => simp only [expand, assign, ih, if_true]

/-! ### Conjunctions -/

/-- All of the variables. -/
def Expr.conj {T : Type*} : List T → Expr T
  | [] => .const true
  | [t] => .terminal t
  | t :: u :: ts => .and (.terminal t) (conj (u :: ts))

theorem eval_conj {T : Type*} (ts : List T) (ρ : T → Bool) : (conj ts).eval ρ = ts.all ρ := by
  induction ts using conj.induct with
  | case1 => rfl
  | case2 t => exact (Bool.and_true _).symm
  | case3 t u ts ih => exact congrArg (ρ t && ·) ih

theorem terminals_conj {T : Type*} (ts : List T) : (conj ts).terminals = ts := by
  induction ts using conj.induct with
  | case1 => rfl
  | case2 t => rfl
  | case3 t u ts ih => rw [conj, terminals, ih]; rfl

theorem branch_conj {T : Type*} (t u : T) (ts : List T) :
    branch t (conj (u :: ts)) (.const false) = conj (t :: u :: ts) := by
  cases ts <;> rfl

/-- The conjunction of the variables in their order is read back as it is. -/
theorem expand_conj {order : List T} (horder : order.Pairwise (· < ·)) :
    expand order (conj order) = conj order := by
  induction order using conj.induct with
  | case1 => rfl
  | case2 t => simp [conj, expand, assign, eval, branch]
  | case3 t u ts ih =>
      obtain ⟨hlt, hrest⟩ := List.pairwise_cons.mp horder
      have hnotin : t ∉ u :: ts := fun hmem => lt_irrefl t (hlt t hmem)
      have hsame : ∀ (ρ : T → Bool) (b : Bool), (u :: ts).all (set ρ t b) = (u :: ts).all ρ := by
        intro ρ b
        rw [Bool.eq_iff_iff, List.all_eq_true, List.all_eq_true]
        refine forall₂_congr fun v hv => ?_
        have hne : v ≠ t := fun heq => hnotin (heq ▸ hv)
        rw [set_of_ne hne]
      have htrue : ((conj (t :: u :: ts)).assign t true).Equiv (conj (u :: ts)) := fun ρ => by
        rw [eval_assign, eval_conj, eval_conj, List.all_cons, set_same, Bool.true_and, hsame]
      have hfalse : ((conj (t :: u :: ts)).assign t false).Equiv (.const false) := fun ρ => by
        rw [eval_assign, eval_conj, List.all_cons, set_same, Bool.false_and]
        rfl
      have hne : conj (u :: ts) ≠ .const false := by
        intro heq
        have hterminals := congrArg terminals heq
        rw [terminals_conj] at hterminals
        cases hterminals
      rw [expand]
      simp only [expand_congr_order htrue, ih hrest, expand_congr_order hfalse, expand_const,
        if_neg hne, branch_conj]

theorem seeded_const (b : Bool) : Seeded ([] : List T) (.const b) where
  sorted := .nil
  covers t ht := by simp [terminals] at ht

theorem seeded_terminal (t : T) : Seeded [t] (.terminal t) where
  sorted := List.pairwise_singleton _ _
  covers _ hu := hu

variable (T) in
/-- The package that reads the expression back by Shannon expansion. -/
def shannon : Bdd T where
  roundTrip := expand
  eval_roundTrip := eval_expand
  dependsOn_of_mem _ := dependsOn_of_mem_expand
  roundTrip_const hs h := expand_congr hs (seeded_const _) h
  roundTrip_terminal hs h := by
    rw [expand_congr hs (seeded_terminal _) h]
    simp [expand, assign, eval, branch]
  roundTrip_congr := expand_congr

end BoolExpr
