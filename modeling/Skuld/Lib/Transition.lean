import Mathlib.Tactic.Common
import Mathlib.Data.List.Basic

/-!
# Machines and their runs

A machine has initial states and a partial step: `step s e = none` means that
the event `e` cannot happen in the state `s`.  Every choice that the environment
makes is in the event, so that a run is a list of events.

`ReachedVia ok s` says that some run leads to `s` in which every step meets the
condition `ok`; `Reached` is the case without a condition.  The rule for both is
`Inductive.reached`: a property of the initial states that every step preserves
holds in every state reached.  `exists_leaves` is the rule for a property that does
not last: where a run ends outside, one of its steps has left it.
`exists_run_of_variant` is the rule for progress: if some step always brings a number
down, then some run brings it to zero.  `length_le_of_variant` is the rule for an end: if
every step brings it down, no run is longer than that.
-/

structure Machine (σ ε : Type*) where
  init : σ → Prop
  step : σ → ε → Option σ

namespace Machine

variable {σ ε : Type*} (M : Machine σ ε)

inductive ReachedVia (ok : σ → ε → Prop) : σ → Prop
  | init {s : σ} (hinit : M.init s) : ReachedVia ok s
  | step {s s' : σ} {e : ε} (hs : ReachedVia ok s) (hok : ok s e) (hstep : M.step s e = some s') :
      ReachedVia ok s'

def Reached (s : σ) : Prop :=
  M.ReachedVia (fun _ _ => True) s

/-- A property that holds initially, and that steps meeting `ok` preserve. -/
structure Inductive (ok : σ → ε → Prop) (I : σ → Prop) : Prop where
  init : ∀ {s}, M.init s → I s
  step : ∀ {s e s'}, I s → ok s e → M.step s e = some s' → I s'

/-- The state after a list of events, if all of them can happen. -/
def run : σ → List ε → Option σ
  | s, [] => some s
  | s, e :: events => (M.step s e).bind fun s' => run s' events

/-- A run from `s` that stays in `I` and leaves it with `e`, from `v` to `v'`. -/
structure Leaves (I : σ → Prop) (s : σ) (before : List ε) (v : σ) (e : ε) (v' : σ) : Prop where
  run : M.run s before = some v
  inside : ∀ part, part <+: before → ∃ u, M.run s part = some u ∧ I u
  step : M.step v e = some v'
  outside : ¬ I v'

variable {M} {ok : σ → ε → Prop} {I : σ → Prop}

theorem run_append (s : σ) (first second : List ε) :
    M.run s (first ++ second) = (M.run s first).bind fun s' => M.run s' second := by
  induction first generalizing s with
  | nil => rfl
  | cons e first ih =>
      rw [List.cons_append, run, run, Option.bind_assoc]
      exact congrArg _ (funext fun s' => ih s')

theorem run_singleton (s : σ) (e : ε) : M.run s [e] = M.step s e := by
  rw [run]
  cases M.step s e <;> rfl

/-- What every step preserves, a run preserves. -/
theorem run_preserves (hstep : ∀ {s e s'}, I s → M.step s e = some s' → I s') {events : List ε}
    {s s' : σ} (hs : I s) (hrun : M.run s events = some s') : I s' := by
  induction events generalizing s with
  | nil =>
      rw [run, Option.some.injEq] at hrun
      exact hrun ▸ hs
  | cons e events ih =>
      rw [run, Option.bind_eq_some_iff] at hrun
      obtain ⟨middle, hmiddle, hrun⟩ := hrun
      exact ih (hstep hs hmiddle) hrun

theorem Leaves.mem {s v v' : σ} {before : List ε} {e : ε} (h : M.Leaves I s before v e v') :
    I v := by
  obtain ⟨u, hrun, hu⟩ := h.inside before (List.prefix_refl _)
  exact Option.some.inj (hrun.symm.trans h.run) ▸ hu

theorem exists_leaves {events : List ε} {s s' : σ} (hs : I s) (hs' : ¬ I s')
    (hrun : M.run s events = some s') :
    ∃ before e after v v', events = before ++ e :: after ∧ M.Leaves I s before v e v' ∧
      M.run v' after = some s' := by
  induction events generalizing s with
  | nil =>
      rw [run, Option.some.injEq] at hrun
      exact absurd (hrun ▸ hs) hs'
  | cons e events ih =>
      rw [run, Option.bind_eq_some_iff] at hrun
      obtain ⟨middle, hstep, hrun⟩ := hrun
      by_cases hmiddle : I middle
      · obtain ⟨before, e', after, v, v', rfl, hleaves, hafter⟩ := ih hmiddle hrun
        have hrunFrom : ∀ part, M.run s (e :: part) = M.run middle part := fun part => by
          rw [run, hstep, Option.bind_some]
        refine ⟨e :: before, e', after, v, v', rfl, ⟨?_, fun part hpart => ?_, hleaves.step,
          hleaves.outside⟩, hafter⟩
        · rw [hrunFrom, hleaves.run]
        · cases part with
          | nil => exact ⟨s, rfl, hs⟩
          | cons first part =>
              obtain ⟨rfl, hrest⟩ := List.cons_prefix_cons.mp hpart
              rw [hrunFrom]
              exact hleaves.inside part hrest
      · refine ⟨[], e, events, s, middle, rfl, ⟨rfl, fun part hpart => ?_, hstep, hmiddle⟩, hrun⟩
        rw [List.prefix_nil.mp hpart]
        exact ⟨s, rfl, hs⟩

theorem exists_run_of_variant {P : ε → Prop} (variant : σ → ℕ)
    (hstep : ∀ s, I s → variant s ≠ 0 →
      ∃ e s', P e ∧ M.step s e = some s' ∧ I s' ∧ variant s' < variant s)
    {s : σ} (hs : I s) :
    ∃ events s', (∀ e ∈ events, P e) ∧ M.run s events = some s' ∧ I s' ∧ variant s' = 0 := by
  induction hv : variant s using Nat.strongRecOn generalizing s with
  | ind n ih =>
      by_cases hzero : variant s = 0
      · exact ⟨[], s, by simp, rfl, hs, hzero⟩
      · obtain ⟨e, middle, he, hmiddle, hI, hlt⟩ := hstep s hs hzero
        obtain ⟨events, s', hevents, hrun, hs'⟩ := ih _ (hv ▸ hlt) hI rfl
        refine ⟨e :: events, s', List.forall_mem_cons.mpr ⟨he, hevents⟩, ?_, hs'⟩
        rw [run, hmiddle, Option.bind_some]
        exact hrun

theorem length_le_of_variant {P : ε → Prop} (variant : σ → ℕ)
    (hstep : ∀ {s e s'}, I s → P e → M.step s e = some s' → I s' ∧ variant s' < variant s)
    {events : List ε} {s s' : σ} (hs : I s) (hevents : ∀ e ∈ events, P e)
    (hrun : M.run s events = some s') : I s' ∧ variant s' + events.length ≤ variant s := by
  induction events generalizing s with
  | nil =>
      rw [run, Option.some.injEq] at hrun
      exact ⟨hrun ▸ hs, by simp [hrun]⟩
  | cons e events ih =>
      rw [List.forall_mem_cons] at hevents
      rw [run, Option.bind_eq_some_iff] at hrun
      obtain ⟨middle, hmiddle, hrun⟩ := hrun
      obtain ⟨hI, hlt⟩ := hstep hs hevents.1 hmiddle
      obtain ⟨hs', hle⟩ := ih hI hevents.2 hrun
      exact ⟨hs', by rw [List.length_cons]; omega⟩

theorem Inductive.reached (h : M.Inductive ok I) {s : σ} (hs : M.ReachedVia ok s) : I s := by
  induction hs with
  | init hinit => exact h.init hinit
  | step _ hok hstep ih => exact h.step ih hok hstep

/-- A stricter condition reaches fewer states. -/
theorem ReachedVia.mono {ok' : σ → ε → Prop} (hok : ∀ s e, ok s e → ok' s e) {s : σ}
    (hs : M.ReachedVia ok s) : M.ReachedVia ok' s := by
  induction hs with
  | init hinit => exact .init hinit
  | step _ h hstep ih => exact .step ih (hok _ _ h) hstep

theorem ReachedVia.reached {s : σ} (hs : M.ReachedVia ok s) : M.Reached s :=
  hs.mono fun _ _ _ => trivial

variable (M ok) in
/-- The machine that refuses the events that do not meet `ok`. -/
def restrict [∀ s e, Decidable (ok s e)] : Machine σ ε where
  init := M.init
  step s e := if ok s e then M.step s e else none

theorem ReachedVia.of_run [∀ s e, Decidable (ok s e)] {events : List ε} {s s' : σ}
    (hs : M.ReachedVia ok s) (hrun : (M.restrict ok).run s events = some s') :
    M.ReachedVia ok s' := by
  induction events generalizing s with
  | nil =>
      rw [run, Option.some.injEq] at hrun
      exact hrun ▸ hs
  | cons e events ih =>
      rw [run, Option.bind_eq_some_iff] at hrun
      obtain ⟨middle, hstep, hrun⟩ := hrun
      obtain ⟨hok, hstep⟩ := Option.ite_none_right_eq_some.mp hstep
      exact ih (.step hs hok hstep) hrun

theorem Reached.of_run {events : List ε} {s s' : σ} (hs : M.Reached s)
    (hrun : M.run s events = some s') : M.Reached s' := by
  have hrestrict : M.restrict (fun _ _ => True) = M := by
    cases M
    simp [restrict]
  apply ReachedVia.of_run hs
  rw [hrestrict]
  exact hrun

end Machine
