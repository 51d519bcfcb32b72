import Mathlib.Tactic.Common
import Mathlib.Data.List.Basic

/-!
# Computations that may fail

Rules for programs in `Except` and `Option`: how a bind succeeds or fails, when a
test is not run, and what a loop over a list does.  The rules for `foldlM` have an
invariant `P` of the state; the round that needs it gets it.
-/

namespace Loop

variable {ε α β σ : Type*}

theorem exists_of_bind_eq_ok {ε α β : Type*} {x : Except ε α} {f : α → Except ε β} {b : β}
    (h : x.bind f = .ok b) : ∃ a, x = .ok a ∧ f a = .ok b := by
  cases x with
  | error e => cases h
  | ok a => exact ⟨a, rfl, h⟩

theorem bind_ne_error {x : Except ε α} {f : α → Except ε β} {e : ε} (hx : x ≠ .error e)
    (hf : ∀ a, x = .ok a → f a ≠ .error e) : x.bind f ≠ .error e := by
  cases x with
  | error e' => exact fun h => hx (congrArg _ (Except.error.inj h))
  | ok a => exact hf a rfl

theorem map_ne_error {x : Except ε α} {f : α → β} {e : ε} (hx : x ≠ .error e) :
    x.map f ≠ .error e := by
  cases x with
  | error e' => exact fun h => hx (congrArg _ (Except.error.inj h))
  | ok a => exact fun h => by cases h

/-! ## Short circuits -/

section

variable {m : Type → Type*} [Monad m] [LawfulMonad m]

theorem pure_orM (b : Bool) (x : m Bool) : (pure b <||> x) = if b then pure true else x := by
  cases b <;> simp [orM, toBool]

theorem pure_andM (b : Bool) (x : m Bool) : (pure b <&&> x) = if b then x else pure false := by
  cases b <;> simp [andM, toBool]

end

/-! ## Loops without a state -/

theorem forM_ok_iff {f : α → Except ε Unit} {list : List α} :
    forM list f = .ok () ↔ ∀ x ∈ list, f x = .ok () := by
  induction list with
  | nil => simp [pure, Except.pure]
  | cons x list ih =>
      rw [List.forM_cons]
      cases hx : f x with
      | error e => simp [hx, bind, Except.bind]
      | ok u => simpa [hx, bind, Except.bind] using ih

theorem forM_ne_error {f : α → Except ε Unit} {list : List α} {e : ε}
    (h : ∀ x ∈ list, f x ≠ .error e) : forM list f ≠ .error e := by
  induction list with
  | nil => exact fun h => by cases h
  | cons x list ih =>
      rw [List.forM_cons]
      exact bind_ne_error (h x List.mem_cons_self)
        fun _ _ => ih fun y hy => h y (List.mem_cons_of_mem _ hy)

/-! ## Loops with a state -/

section

variable {ε : Type*} {α σ : Type*} {step : σ → α → Except ε σ} {P : σ → Prop} {list : List α}
  {s s' : σ}

/-- What every round keeps, the loop keeps. -/
theorem foldlM_inv (hstep : ∀ {s x s'}, x ∈ list → P s → step s x = .ok s' → P s') (hs : P s)
    (h : list.foldlM step s = .ok s') : P s' := by
  induction list generalizing s with
  | nil =>
      cases h
      exact hs
  | cons x list ih =>
      rw [List.foldlM_cons] at h
      obtain ⟨middle, hmiddle, h⟩ := exists_of_bind_eq_ok h
      exact ih (fun hy => hstep (List.mem_cons_of_mem _ hy)) (hstep List.mem_cons_self hs hmiddle) h

/-- What a round establishes of its element, and every round keeps, holds in the
end of every element. -/
theorem foldlM_forall {Q : α → σ → Prop}
    (hstep : ∀ {s x s'}, P s → step s x = .ok s' → P s' ∧ Q x s' ∧ ∀ y, Q y s → Q y s')
    (hs : P s) (h : list.foldlM step s = .ok s') :
    P s' ∧ (∀ x ∈ list, Q x s') ∧ ∀ y, Q y s → Q y s' := by
  induction list generalizing s with
  | nil =>
      cases h
      exact ⟨hs, by simp, fun _ hy => hy⟩
  | cons x list ih =>
      rw [List.foldlM_cons] at h
      obtain ⟨middle, hmiddle, h⟩ := exists_of_bind_eq_ok h
      obtain ⟨hP, hx, hkeep⟩ := hstep hs hmiddle
      obtain ⟨hP', hall, hkeep'⟩ := ih hP h
      refine ⟨hP', fun y hy => ?_, fun y hy => hkeep' y (hkeep y hy)⟩
      rcases List.mem_cons.mp hy with rfl | hy
      exacts [hkeep' y hx, hall y hy]

theorem foldlM_ne_error {e : ε}
    (hstep : ∀ {s x s'}, x ∈ list → P s → step s x = .ok s' → P s')
    (hne : ∀ {s x}, x ∈ list → P s → step s x ≠ .error e) (hs : P s) :
    list.foldlM step s ≠ .error e := by
  induction list generalizing s with
  | nil => exact fun h => by cases h
  | cons x list ih =>
      rw [List.foldlM_cons]
      refine bind_ne_error (hne List.mem_cons_self hs) fun middle hmiddle => ?_
      exact ih (fun hy => hstep (List.mem_cons_of_mem _ hy))
        (fun hy => hne (List.mem_cons_of_mem _ hy)) (hstep List.mem_cons_self hs hmiddle)

/-- A loop whose rounds succeed, and keep what makes them succeed, succeeds. -/
theorem foldlM_ok (hstep : ∀ {s x}, x ∈ list → P s → ∃ s', step s x = .ok s' ∧ P s') (hs : P s) :
    ∃ s', list.foldlM step s = .ok s' ∧ P s' := by
  induction list generalizing s with
  | nil => exact ⟨s, rfl, hs⟩
  | cons x list ih =>
      obtain ⟨middle, hmiddle, hP⟩ := hstep List.mem_cons_self hs
      rw [List.foldlM_cons, hmiddle]
      exact ih (fun hy => hstep (List.mem_cons_of_mem _ hy)) hP

/-- A loop that collects one value for every element that it keeps. -/
theorem foldlM_collects {keep : α → Bool} {R : α → β → Prop} {out : σ → List β}
    (hstep : ∀ s, ∀ x ∈ list, ∃ s', step s x = .ok s' ∧
      if keep x then ∃ y, R x y ∧ out s' = out s ++ [y] else out s' = out s) (s : σ) :
    ∃ s' ys, list.foldlM step s = .ok s' ∧ out s' = out s ++ ys ∧
      List.Forall₂ R (list.filter keep) ys := by
  induction list generalizing s with
  | nil => exact ⟨s, [], rfl, (List.append_nil _).symm, .nil⟩
  | cons x list ih =>
      obtain ⟨middle, hmiddle, hout⟩ := hstep s x List.mem_cons_self
      obtain ⟨s', ys, hs', hys, hall⟩ := ih (fun s y hy => hstep s y (List.mem_cons_of_mem _ hy))
        middle
      have hloop : (x :: list).foldlM step s = .ok s' := by
        rw [List.foldlM_cons, hmiddle]
        exact hs'
      by_cases hkeep : keep x = true
      · rw [if_pos hkeep] at hout
        obtain ⟨y, hy, hout⟩ := hout
        refine ⟨s', y :: ys, hloop, ?_, ?_⟩
        · rw [hys, hout, List.append_assoc, List.singleton_append]
        · rw [List.filter_cons_of_pos hkeep]
          exact .cons hy hall
      · rw [if_neg hkeep] at hout
        exact ⟨s', ys, hloop, hout ▸ hys, (List.filter_cons_of_neg hkeep).symm ▸ hall⟩

end

/-- A loop in `Option` that never gives up is the pure loop. -/
theorem foldlM_eq_some {step : σ → α → Option σ} {f : σ → α → σ} {list : List α}
    (h : ∀ s, ∀ x ∈ list, step s x = some (f s x)) (s : σ) :
    list.foldlM step s = some (list.foldl f s) := by
  induction list generalizing s with
  | nil => rfl
  | cons x list ih =>
      rw [List.foldlM_cons, h s x List.mem_cons_self]
      exact ih (fun s y hy => h s y (List.mem_cons_of_mem _ hy)) _

end Loop
