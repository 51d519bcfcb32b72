import Mathlib.Tactic.Common
import Mathlib.Data.List.Basic

/-!
# Transducers

A machine that reads a list one symbol at a time, emits some output at each step
and can get stuck.  A lexer is one: its states are the kinds of token that can be
under way.  Runs compose (`Runs.append`), so a text can be cut wherever the state
at the cut is known.
-/

namespace Transducer

variable {σ α τ : Type*} (step : σ → α → Option (σ × List τ))

/-- The state after the whole input and everything emitted on the way. -/
def run : σ → List α → Option (σ × List τ)
  | m, [] => some (m, [])
  | m, a :: l => do
      let r ← step m a
      let r' ← run r.1 l
      some (r'.1, r.2 ++ r'.2)

/-- From `m` the machine reads `l`, emits `out` and ends in `m'`. -/
def Runs (m : σ) (l : List α) (out : List τ) (m' : σ) : Prop :=
  run step m l = some (m', out)

instance [DecidableEq σ] [DecidableEq τ] (m : σ) (l : List α) (out : List τ) (m' : σ) :
    Decidable (Runs step m l out m') :=
  inferInstanceAs (Decidable (run step m l = some (m', out)))

variable {step}

theorem Runs.nil (m : σ) : Runs step m [] [] m := rfl

theorem Runs.cons {m m₁ m₂ : σ} {a : α} {l : List α} {out out' : List τ}
    (ha : step m a = some (m₁, out)) (hl : Runs step m₁ l out' m₂) :
    Runs step m (a :: l) (out ++ out') m₂ := by
  rw [Runs] at hl
  simp [Runs, run, ha, hl]

theorem Runs.single {m m' : σ} {a : α} {out : List τ} (h : step m a = some (m', out)) :
    Runs step m [a] out m' := by
  have := Runs.cons h (Runs.nil m')
  rwa [List.append_nil] at this

theorem Runs.append {m m₁ m₂ : σ} {l l' : List α} {out out' : List τ}
    (hl : Runs step m l out m₁) (hl' : Runs step m₁ l' out' m₂) :
    Runs step m (l ++ l') (out ++ out') m₂ := by
  induction l generalizing m out with
  | nil =>
      obtain ⟨rfl, rfl⟩ : m = m₁ ∧ [] = out := by simpa [Runs, run] using hl
      exact hl'
  | cons a l ih =>
      obtain ⟨r, hr, hrest⟩ := Option.bind_eq_some_iff.mp hl
      obtain ⟨r', hr', hout⟩ := Option.bind_eq_some_iff.mp hrest
      obtain ⟨rfl, rfl⟩ : r'.1 = m₁ ∧ r.2 ++ r'.2 = out := by simpa using hout
      rw [List.append_assoc]
      exact Runs.cons hr (ih hr')

end Transducer
