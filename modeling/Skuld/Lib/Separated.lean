import Skuld.Lib.Loop
import Mathlib.Data.List.Nodup
import Mathlib.Data.List.Perm.Basic

/-!
# Lists with separators

A parser for elements with separators between them, and possibly one at the end, as a
loop over the elements that changes a state.  `Reads` is what it accepts.

In `keyed` the elements are settings, `key value`, and no key may come twice.  The result
is then the same in whatever order the settings come (`foldl_perm`), if settings with
different keys commute.
-/

namespace Separated

variable {ε τ σ α : Type}

/-- What the loop needs of the tokens. -/
structure Tokens (ε τ : Type) where
  isEmpty : τ → Bool
  length : τ → ℕ
  separator : τ → Except ε τ
  outOfRounds : ε
  separator_le : ∀ {input rest}, separator input = .ok rest → length rest ≤ length input

section

variable (S : Tokens ε τ) (element : σ → τ → Except ε (σ × τ))

def separated : ℕ → σ → τ → Except ε σ
  | 0, _, _ => .error S.outOfRounds
  | rounds + 1, s, input =>
      if S.isEmpty input then .ok s
      else do
        let (s, input) ← element s input
        if S.isEmpty input then return s
        let input ← S.separator input
        separated rounds s input

inductive Reads : σ → τ → σ → Prop
  | nil {s input} (hempty : S.isEmpty input = true) : Reads s input s
  | last {s input s' rest} (hinput : S.isEmpty input = false)
      (helement : element s input = .ok (s', rest)) (hempty : S.isEmpty rest = true) :
      Reads s input s'
  | cons {s input s' rest after s''} (hinput : S.isEmpty input = false)
      (helement : element s input = .ok (s', rest)) (hrest : S.isEmpty rest = false)
      (hseparator : S.separator rest = .ok after) (hafter : Reads s' after s'') :
      Reads s input s''

/-- Every element takes a token. -/
def Consumes : Prop :=
  ∀ {s input s' rest}, element s input = .ok (s', rest) → S.length rest < S.length input

variable {S element}

theorem reads_of_separated {rounds : ℕ} {s s' : σ} {input : τ}
    (h : separated S element rounds s input = .ok s') : Reads S element s input s' := by
  induction rounds generalizing s input with
  | zero => cases h
  | succ rounds ih =>
      rw [separated] at h
      split_ifs at h with hempty
      · cases h
        exact .nil hempty
      · have hinput : S.isEmpty input = false := by simpa using hempty
        obtain ⟨⟨middle, rest⟩, helement, h⟩ := Loop.exists_of_bind_eq_ok h
        dsimp only at h
        split_ifs at h with hrest
        · cases h
          exact .last hinput helement hrest
        · obtain ⟨after, hseparator, h⟩ := Loop.exists_of_bind_eq_ok h
          exact .cons hinput helement (by simpa using hrest) hseparator (ih h)

theorem separated_of_reads (hconsumes : Consumes S element) {s s' : σ} {input : τ}
    (h : Reads S element s input s') {rounds : ℕ} (hrounds : S.length input < rounds) :
    separated S element rounds s input = .ok s' := by
  induction h generalizing rounds with
  | nil hempty =>
      cases rounds with
      | zero => omega
      | succ rounds => rw [separated, if_pos hempty]
  | last hinput helement hempty =>
      cases rounds with
      | zero => omega
      | succ rounds =>
          rw [separated, if_neg (by simp [hinput])]
          simp only [helement, hempty, if_true, bind, Except.bind, pure, Except.pure]
  | cons hinput helement hrest hseparator _ ih =>
      cases rounds with
      | zero => omega
      | succ rounds =>
          have hlt := hconsumes helement
          have hle := S.separator_le hseparator
          simp only [separated, hinput, helement, hrest, hseparator, bind, Except.bind]
          exact ih (by omega)

/-- The rounds are enough, so that what the loop accepts does not depend on them. -/
theorem separated_eq_ok_iff (hconsumes : Consumes S element) {rounds : ℕ} {s s' : σ} {input : τ}
    (hrounds : S.length input < rounds) :
    separated S element rounds s input = .ok s' ↔ Reads S element s input s' :=
  ⟨reads_of_separated, fun h => separated_of_reads hconsumes h hrounds⟩

/-- The loop fails only as an element or a separator does. -/
theorem separated_ne_error (hconsumes : Consumes S element) {e : ε}
    (helement : ∀ s input, element s input ≠ .error e)
    (hseparator : ∀ input, S.separator input ≠ .error e) {rounds : ℕ} {s : σ}
    {input : τ} (hrounds : S.length input < rounds) :
    separated S element rounds s input ≠ .error e := by
  induction rounds generalizing s input with
  | zero => omega
  | succ rounds ih =>
      rw [separated]
      split_ifs with hempty
      · exact fun h => by cases h
      · refine Loop.bind_ne_error (helement s input) fun ⟨middle, rest⟩ hmiddle => ?_
        dsimp only
        split_ifs with hrest
        · exact fun h => by cases h
        · refine Loop.bind_ne_error (hseparator rest) fun after hafter => ih ?_
          have hlt := hconsumes hmiddle
          have hle := S.separator_le hafter
          omega

end

/-! ## Settings -/

section

variable (S : Tokens ε τ) (key : τ → Except ε (String × τ)) (value : String → τ → Except ε (α × τ))
  (duplicate : String → ε) (apply : σ → α → σ)

/-- A setting whose key has not come yet. -/
def keyed : σ × List String → τ → Except ε ((σ × List String) × τ) :=
  fun (s, seen) input => do
    let (k, input) ← key input
    if k ∈ seen then .error (duplicate k)
    else
      let (a, input) ← value k input
      return ((apply s a, seen ++ [k]), input)

/-- One setting, whatever came before. -/
def setting (input : τ) : Except ε ((String × α) × τ) := do
  let (k, input) ← key input
  let (a, input) ← value k input
  return ((k, a), input)

/-- The settings of a list. -/
inductive Settings : τ → List (String × α) → Prop
  | nil {input} (hempty : S.isEmpty input = true) : Settings input []
  | last {input x rest} (hinput : S.isEmpty input = false)
      (hsetting : setting key value input = .ok (x, rest)) (hempty : S.isEmpty rest = true) :
      Settings input [x]
  | cons {input x rest after l} (hinput : S.isEmpty input = false)
      (hsetting : setting key value input = .ok (x, rest)) (hrest : S.isEmpty rest = false)
      (hseparator : S.separator rest = .ok after) (hafter : Settings after l) :
      Settings input (x :: l)

variable {S key value duplicate apply}

theorem setting_eq_ok_iff {input rest : τ} {k : String} {a : α} :
    setting key value input = .ok ((k, a), rest) ↔
      ∃ middle, key input = .ok (k, middle) ∧ value k middle = .ok (a, rest) := by
  constructor
  · intro h
    obtain ⟨⟨k', middle⟩, hkey, h⟩ := Loop.exists_of_bind_eq_ok h
    obtain ⟨⟨a', rest'⟩, hvalue, h⟩ := Loop.exists_of_bind_eq_ok h
    cases h
    exact ⟨middle, hkey, hvalue⟩
  · intro ⟨middle, hkey, hvalue⟩
    simp [setting, hkey, hvalue, bind, Except.bind, pure, Except.pure]

theorem keyed_eq_ok_iff {s s' : σ} {seen seen' : List String} {input rest : τ} :
    keyed key value duplicate apply (s, seen) input = .ok ((s', seen'), rest) ↔
      ∃ k a, setting key value input = .ok ((k, a), rest) ∧ k ∉ seen ∧ s' = apply s a ∧
        seen' = seen ++ [k] := by
  constructor
  · intro h
    obtain ⟨⟨k, middle⟩, hkey, h⟩ := Loop.exists_of_bind_eq_ok h
    dsimp only at h
    split_ifs at h with hseen
    obtain ⟨⟨a, rest'⟩, hvalue, h⟩ := Loop.exists_of_bind_eq_ok h
    cases h
    exact ⟨k, a, setting_eq_ok_iff.mpr ⟨middle, hkey, hvalue⟩, hseen, rfl, rfl⟩
  · rintro ⟨k, a, hsetting, hseen, rfl, rfl⟩
    obtain ⟨middle, hkey, hvalue⟩ := setting_eq_ok_iff.mp hsetting
    simp [keyed, hkey, hseen, hvalue, bind, Except.bind, pure, Except.pure]

theorem keyed_ne_error {e : ε} (hkey : ∀ input, key input ≠ .error e)
    (hvalue : ∀ k input, value k input ≠ .error e) (hduplicate : ∀ k, duplicate k ≠ e)
    (s : σ × List String) (input : τ) : keyed key value duplicate apply s input ≠ .error e := by
  refine Loop.bind_ne_error (hkey input) fun ⟨k, middle⟩ _ => ?_
  dsimp only
  split_ifs with hseen
  · exact fun h => hduplicate k (Except.error.inj h)
  · exact Loop.bind_ne_error (hvalue k middle) fun _ _ h => by cases h

theorem nodup_snoc {seen : List String} {k : String} (hseen : seen.Nodup) (hk : k ∉ seen) :
    (seen ++ [k]).Nodup := by
  rw [← List.concat_eq_append]
  exact hseen.concat hk

/-- A run over settings with fresh keys, none of them twice, is the fold over them. -/
theorem reads_keyed_iff {s s' : σ} {seen seen' : List String} {input : τ} (hseen : seen.Nodup) :
    Reads S (keyed key value duplicate apply) (s, seen) input (s', seen') ↔
      ∃ l, Settings S key value input l ∧ (seen ++ l.map Prod.fst).Nodup ∧
        s' = (l.map Prod.snd).foldl apply s ∧ seen' = seen ++ l.map Prod.fst := by
  constructor
  · intro h
    generalize hstart : (s, seen) = start at h
    generalize hend : (s', seen') = final at h
    induction h generalizing s seen with
    | nil hempty =>
        subst hstart
        cases hend
        exact ⟨[], .nil hempty, by simpa using hseen, rfl, (List.append_nil _).symm⟩
    | last hinput helement hempty =>
        subst hstart
        subst hend
        obtain ⟨k, a, hsetting, hk, rfl, rfl⟩ := keyed_eq_ok_iff.mp helement
        exact ⟨[(k, a)], .last hinput hsetting hempty, nodup_snoc hseen hk, rfl, rfl⟩
    | @cons _ _ middle _ _ _ hinput helement hrest hseparator _ ih =>
        subst hstart
        obtain ⟨s₁, seen₁⟩ := middle
        obtain ⟨k, a, hsetting, hk, rfl, rfl⟩ := keyed_eq_ok_iff.mp helement
        obtain ⟨l, hl, hnodup, hfold, hkeys⟩ := ih (nodup_snoc hseen hk) rfl hend
        rw [List.append_assoc, List.singleton_append] at hnodup hkeys
        exact ⟨(k, a) :: l, .cons hinput hsetting hrest hseparator hl, hnodup, hfold, hkeys⟩
  · rintro ⟨l, hl, hnodup, rfl, rfl⟩
    induction hl generalizing s seen with
    | nil hempty =>
        rw [List.map_nil, List.map_nil, List.append_nil]
        exact .nil hempty
    | @last _ x _ hinput hsetting hempty =>
        refine .last hinput (keyed_eq_ok_iff.mpr ⟨x.1, x.2, hsetting, ?_, rfl, rfl⟩) hempty
        exact fun hmem => (List.nodup_append.mp hnodup).2.2 x.1 hmem x.1 (by simp) rfl
    | @cons _ x _ _ l hinput hsetting hrest hseparator _ ih =>
        have hx : x.1 ∉ seen :=
          fun hmem => (List.nodup_append.mp hnodup).2.2 x.1 hmem x.1 (by simp) rfl
        have hkeys : seen ++ (x :: l).map Prod.fst = (seen ++ [x.1]) ++ l.map Prod.fst := by simp
        rw [hkeys] at hnodup ⊢
        exact .cons hinput (keyed_eq_ok_iff.mpr ⟨x.1, x.2, hsetting, hx, rfl, rfl⟩) hrest
          hseparator (ih (List.nodup_append.mp hnodup).1 hnodup)

theorem consumes_keyed
    (hkey : ∀ {input k rest}, key input = .ok (k, rest) → S.length rest < S.length input)
    (hvalue : ∀ {k input a rest}, value k input = .ok (a, rest) → S.length rest ≤ S.length input) :
    Consumes S (keyed key value duplicate apply) := by
  intro ⟨s, seen⟩ input ⟨s', seen'⟩ rest h
  obtain ⟨k, a, hsetting, -, -, -⟩ := keyed_eq_ok_iff.mp h
  obtain ⟨middle, hmiddle, hrest⟩ := setting_eq_ok_iff.mp hsetting
  exact Nat.lt_of_le_of_lt (hvalue hrest) (hkey hmiddle)

/-- If settings with different keys commute, their order makes no difference. -/
theorem foldl_perm {l l' : List (String × α)} (hperm : l.Perm l')
    (hnodup : (l.map Prod.fst).Nodup)
    (hcomm : ∀ x ∈ l, ∀ y ∈ l, x.1 ≠ y.1 → ∀ s, apply (apply s x.2) y.2 = apply (apply s y.2) x.2)
    (s : σ) : (l.map Prod.snd).foldl apply s = (l'.map Prod.snd).foldl apply s := by
  rw [List.foldl_map, List.foldl_map]
  refine hperm.foldl_eq' (fun x hx y hy s => ?_) s
  by_cases hkeys : x.1 = y.1
  · rw [List.inj_on_of_nodup_map hnodup hx hy hkeys]
  · exact hcomm x hx y hy hkeys s

theorem one_lt_count_of_mem {x : String} {seen more : List String} (hx : x ∈ seen) :
    1 < (seen ++ x :: more).count x := by
  have hpos := List.count_pos_iff.mpr hx
  rw [List.count_append, List.count_cons_self]
  omega

theorem separated_of_mem {input rest : τ} {x : String × α} (hinput : S.isEmpty input = false)
    (hsetting : setting key value input = .ok (x, rest)) {seen : List String} (hx : x.1 ∈ seen)
    (rounds : ℕ) (s : σ) :
    separated S (keyed key value duplicate apply) (rounds + 1) (s, seen) input =
      .error (duplicate x.1) := by
  obtain ⟨middle, hmiddle, -⟩ := setting_eq_ok_iff.mp hsetting
  simp [separated, keyed, hinput, hmiddle, hx, bind, Except.bind]

/-- A list in which a key comes twice is rejected for such a key. -/
theorem separated_duplicate
    (hkey : ∀ {input k rest}, key input = .ok (k, rest) → S.length rest < S.length input)
    (hvalue : ∀ {k input a rest}, value k input = .ok (a, rest) → S.length rest ≤ S.length input)
    {input : τ} {l : List (String × α)} (hl : Settings S key value input l) {seen : List String}
    (hseen : seen.Nodup) (hrepeated : ¬ (seen ++ l.map Prod.fst).Nodup) {rounds : ℕ}
    (hrounds : S.length input < rounds) (s : σ) :
    ∃ k, 1 < (seen ++ l.map Prod.fst).count k ∧
      separated S (keyed key value duplicate apply) rounds (s, seen) input =
        .error (duplicate k) := by
  obtain ⟨n, rfl⟩ : ∃ n, rounds = n + 1 := ⟨rounds - 1, by omega⟩
  induction hl generalizing seen n s with
  | nil => exact absurd (by simpa using hseen) hrepeated
  | @last _ x _ hinput hsetting hempty =>
      by_cases hx : x.1 ∈ seen
      · exact ⟨x.1, one_lt_count_of_mem hx, separated_of_mem hinput hsetting hx n s⟩
      · exact absurd (nodup_snoc hseen hx) hrepeated
  | @cons _ x rest after l hinput hsetting hrest hseparator _ ih =>
      by_cases hx : x.1 ∈ seen
      · exact ⟨x.1, one_lt_count_of_mem hx, separated_of_mem hinput hsetting hx n s⟩
      have helement : keyed key value duplicate apply (s, seen) _ =
          .ok ((apply s x.2, seen ++ [x.1]), rest) :=
        keyed_eq_ok_iff.mpr ⟨x.1, x.2, hsetting, hx, rfl, rfl⟩
      have hlt := consumes_keyed hkey hvalue helement
      have hle := S.separator_le hseparator
      have hkeys : seen ++ (x :: l).map Prod.fst = (seen ++ [x.1]) ++ l.map Prod.fst := by simp
      rw [hkeys] at hrepeated ⊢
      obtain ⟨m, rfl⟩ : ∃ m, n = m + 1 := ⟨n - 1, by omega⟩
      obtain ⟨k, hk, hrun⟩ := ih (nodup_snoc hseen hx) hrepeated (apply s x.2) m (by omega)
      refine ⟨k, hk, ?_⟩
      rw [separated]
      simp only [hinput, helement, hrest, hseparator, bind, Except.bind]
      exact hrun

/-- What the settings are is read by the parser of values. -/
theorem Settings.exists_value {input : τ} {l : List (String × α)}
    (h : Settings S key value input l) {x : String × α} (hx : x ∈ l) :
    ∃ input rest, value x.1 input = .ok (x.2, rest) := by
  induction h with
  | nil => cases hx
  | last _ hsetting =>
      rw [List.mem_singleton.mp hx]
      obtain ⟨middle, -, hvalue⟩ := setting_eq_ok_iff.mp hsetting
      exact ⟨middle, _, hvalue⟩
  | cons _ hsetting _ _ _ ih =>
      rcases List.mem_cons.mp hx with rfl | hx
      · obtain ⟨middle, -, hvalue⟩ := setting_eq_ok_iff.mp hsetting
        exact ⟨middle, _, hvalue⟩
      · exact ih hx

end

end Separated
