import Mathlib.Tactic.Common
import Mathlib.Algebra.Order.Group.Nat
import Mathlib.Data.List.Basic

/-!
# Parsing expression grammars

A grammar gives every rule a body, a parsing expression over characters and
rules, and says whether the rule is reported as a node of the parse tree.
`run` interprets an expression on a suffix of the input: ordered choice, greedy
repetition, negative lookahead.  It takes fuel because a PEG may be left
recursive; `run_mono` makes the fuel irrelevant once it suffices, so that the
semantics used in proofs is `Parses`, "some fuel gives this outcome".

Two parts beyond the interpreter:

* `Exp.spaced` puts a skip rule between the elements of sequences and
  repetitions, which is how a generator with implicit whitespace reads the body
  of a rule that is not atomic;
* `Certificate` is a finite check (ranks for the rules reached before input is
  consumed, repetitions that consume) under which `run` never runs out of the
  fuel `Certificate.fuel`, so that the parser is total.
-/

namespace Peg

/-- Parsing expressions over the rules `N`. -/
inductive Exp (N : Type*) where
  | empty
  | eoi
  | char (p : Char → Bool)
  | lit (w : List Char)
  | insens (w : List Char)
  | rule (n : N)
  | seq (a b : Exp N)
  | alt (a b : Exp N)
  | star (a : Exp N)
  | not (a : Exp N)

/-- How a rule is reported: as a node with its inner nodes, not at all (its
inner nodes take its place), or as a node without inner nodes. -/
inductive Kind where
  | normal
  | silent
  | atomic

/-- A node of the parse tree: the rule, the text it matched, its inner nodes. -/
inductive Pair (N : Type*) where
  | node (rule : N) (text : List Char) (inner : List (Pair N))

/-- What an expression does at a position: it fails, or it succeeds with the
nodes it reports and the rest of the input. -/
inductive Outcome (N : Type*) where
  | fail
  | ok (pairs : List (Pair N)) (rest : List Char)

structure Grammar (N : Type*) where
  kind : N → Kind
  body : N → Exp N

variable {N : Type*}

namespace Exp

/-- The body of a non-atomic rule with the skip rule `ws` allowed between the
elements of every sequence and repetition. -/
def spaced (ws : N) : Exp N → Exp N
  | seq a b => seq (spaced ws a) (seq (star (rule ws)) (spaced ws b))
  | star a => alt (seq (spaced ws a) (star (seq (star (rule ws)) (spaced ws a)))) empty
  | alt a b => alt (spaced ws a) (spaced ws b)
  | not a => not (spaced ws a)
  | e => e

/-- The number of operators, the part of the fuel an expression needs for itself. -/
def size : Exp N → ℕ
  | seq a b => a.size + b.size + 1
  | alt a b => a.size + b.size + 1
  | star a => a.size + 1
  | not a => a.size + 1
  | _ => 1

end Exp

/-- `w` as a prefix of the input, ASCII case ignored. -/
def stripPrefixInsens : List Char → List Char → Option (List Char)
  | [], s => some s
  | _ :: _, [] => none
  | a :: w, c :: s => if a.toLower = c.toLower then stripPrefixInsens w s else none

/-- `w` as a prefix of the input. -/
def stripPrefix : List Char → List Char → Option (List Char)
  | [], s => some s
  | _ :: _, [] => none
  | a :: w, c :: s => if a = c then stripPrefix w s else none

/-- A primitive's outcome: the rest it leaves, if it matches. -/
def ofRest : Option (List Char) → Outcome N
  | none => .fail
  | some rest => .ok [] rest

namespace Grammar

/-- The node a rule reports for having matched `s` up to `rest`. -/
def report (G : Grammar N) (n : N) (s : List Char) (pairs : List (Pair N)) (rest : List Char) :
    List (Pair N) :=
  match G.kind n with
  | .normal => [.node n (s.take (s.length - rest.length)) pairs]
  | .silent => pairs
  | .atomic => [.node n (s.take (s.length - rest.length)) []]

end Grammar

/-- The interpreter.  `none` means that the fuel ran out. -/
def run (G : Grammar N) : ℕ → Exp N → List Char → Option (Outcome N)
  | 0, _, _ => none
  | _ + 1, .empty, s => some (.ok [] s)
  | _ + 1, .eoi, s => some (if s = [] then .ok [] [] else .fail)
  | _ + 1, .char _, [] => some .fail
  | _ + 1, .char p, c :: s => some (if p c then .ok [] s else .fail)
  | _ + 1, .lit w, s => some (ofRest (stripPrefix w s))
  | _ + 1, .insens w, s => some (ofRest (stripPrefixInsens w s))
  | fuel + 1, .rule n, s =>
      match run G fuel (G.body n) s with
      | some (.ok pairs rest) => some (.ok (G.report n s pairs rest) rest)
      | other => other
  | fuel + 1, .seq a b, s =>
      match run G fuel a s with
      | some (.ok pairs rest) =>
          match run G fuel b rest with
          | some (.ok pairs' rest') => some (.ok (pairs ++ pairs') rest')
          | other => other
      | other => other
  | fuel + 1, .alt a b, s =>
      match run G fuel a s with
      | some .fail => run G fuel b s
      | other => other
  | fuel + 1, .star a, s =>
      match run G fuel a s with
      | some .fail => some (.ok [] s)
      | some (.ok pairs rest) =>
          match run G fuel (.star a) rest with
          | some (.ok pairs' rest') => some (.ok (pairs ++ pairs') rest')
          | other => other
      | none => none
  | fuel + 1, .not a, s =>
      match run G fuel a s with
      | some .fail => some (.ok [] s)
      | some (.ok _ _) => some .fail
      | none => none

/-! ## The equations of the interpreter -/

section

variable (G : Grammar N) (fuel : ℕ) (s : List Char)

@[simp] theorem run_zero (e : Exp N) : run G 0 e s = none := rfl

@[simp] theorem run_empty : run G (fuel + 1) .empty s = some (.ok [] s) := rfl

@[simp] theorem run_eoi :
    run G (fuel + 1) .eoi s = some (if s = [] then .ok [] [] else .fail) := rfl

@[simp] theorem run_char_nil (p : Char → Bool) : run G (fuel + 1) (.char p) [] = some .fail := rfl

@[simp] theorem run_char_cons (p : Char → Bool) (c : Char) :
    run G (fuel + 1) (.char p) (c :: s) = some (if p c then .ok [] s else .fail) := rfl

@[simp] theorem run_lit (w : List Char) :
    run G (fuel + 1) (.lit w) s = some (ofRest (stripPrefix w s)) := rfl

@[simp] theorem run_insens (w : List Char) :
    run G (fuel + 1) (.insens w) s = some (ofRest (stripPrefixInsens w s)) := rfl

theorem run_rule (n : N) :
    run G (fuel + 1) (.rule n) s =
      match run G fuel (G.body n) s with
      | some (.ok pairs rest) => some (.ok (G.report n s pairs rest) rest)
      | other => other := rfl

theorem run_seq (a b : Exp N) :
    run G (fuel + 1) (.seq a b) s =
      match run G fuel a s with
      | some (.ok pairs rest) =>
          match run G fuel b rest with
          | some (.ok pairs' rest') => some (.ok (pairs ++ pairs') rest')
          | other => other
      | other => other := rfl

theorem run_alt (a b : Exp N) :
    run G (fuel + 1) (.alt a b) s =
      match run G fuel a s with
      | some .fail => run G fuel b s
      | other => other := rfl

theorem run_star (a : Exp N) :
    run G (fuel + 1) (.star a) s =
      match run G fuel a s with
      | some .fail => some (.ok [] s)
      | some (.ok pairs rest) =>
          match run G fuel (.star a) rest with
          | some (.ok pairs' rest') => some (.ok (pairs ++ pairs') rest')
          | other => other
      | none => none := rfl

theorem run_not (a : Exp N) :
    run G (fuel + 1) (.not a) s =
      match run G fuel a s with
      | some .fail => some (.ok [] s)
      | some (.ok _ _) => some .fail
      | none => none := rfl

end

variable {G : Grammar N}

/-! ## Fuel beyond termination is inert -/

theorem run_mono {fuel : ℕ} {e : Exp N} {s : List Char} {o : Outcome N}
    (h : run G fuel e s = some o) : run G (fuel + 1) e s = some o := by
  induction fuel generalizing e s o with
  | zero => simp at h
  | succ fuel ih =>
      cases e with
      | empty => simpa using h
      | eoi => simpa using h
      | char p => cases s <;> simpa using h
      | lit w => simpa using h
      | insens w => simpa using h
      | rule n =>
          rw [run_rule] at h ⊢
          cases hb : run G fuel (G.body n) s with
          | none => simp [hb] at h
          | some o' => rw [ih hb]; rw [hb] at h; exact h
      | seq a b =>
          rw [run_seq] at h ⊢
          cases ha : run G fuel a s with
          | none => simp [ha] at h
          | some o' =>
              rw [ih ha]
              rw [ha] at h
              cases o' with
              | fail => exact h
              | ok pairs rest =>
                  simp only at h ⊢
                  cases hb : run G fuel b rest with
                  | none => simp [hb] at h
                  | some o'' => rw [ih hb]; rw [hb] at h; exact h
      | alt a b =>
          rw [run_alt] at h ⊢
          cases ha : run G fuel a s with
          | none => simp [ha] at h
          | some o' =>
              rw [ih ha]
              rw [ha] at h
              cases o' with
              | fail => exact ih h
              | ok pairs rest => exact h
      | star a =>
          rw [run_star] at h ⊢
          cases ha : run G fuel a s with
          | none => simp [ha] at h
          | some o' =>
              rw [ih ha]
              rw [ha] at h
              cases o' with
              | fail => exact h
              | ok pairs rest =>
                  simp only at h ⊢
                  cases hb : run G fuel (.star a) rest with
                  | none => simp [hb] at h
                  | some o'' => rw [ih hb]; rw [hb] at h; exact h
      | not a =>
          rw [run_not] at h ⊢
          cases ha : run G fuel a s with
          | none => simp [ha] at h
          | some o' => rw [ih ha]; rw [ha] at h; exact h

theorem run_mono_le {fuel larger : ℕ} {e : Exp N} {s : List Char} {o : Outcome N}
    (h : run G fuel e s = some o) (hle : fuel ≤ larger) : run G larger e s = some o := by
  induction larger, hle using Nat.le_induction with
  | base => exact h
  | succ larger _ ih => exact run_mono ih

/-! ## The fuel-free semantics -/

/-- With enough fuel, `e` has the outcome `o` at `s`. -/
def Parses (G : Grammar N) (e : Exp N) (s : List Char) (o : Outcome N) : Prop :=
  ∃ fuel, run G fuel e s = some o

theorem Parses.of_run {fuel : ℕ} {e : Exp N} {s : List Char} {o : Outcome N}
    (h : run G fuel e s = some o) : Parses G e s o :=
  ⟨fuel, h⟩

theorem Parses.unique {e : Exp N} {s : List Char} {o o' : Outcome N} (h : Parses G e s o)
    (h' : Parses G e s o') : o = o' := by
  obtain ⟨fuel, h⟩ := h
  obtain ⟨fuel', h'⟩ := h'
  have := (run_mono_le h (Nat.le_add_right fuel fuel')).symm.trans
    (run_mono_le h' (Nat.le_add_left fuel' fuel))
  exact Option.some.inj this

/-! ## Rules of the semantics

For every operator: what its outcome follows from, and what follows from it. -/

namespace Parses

variable {a b : Exp N} {s rest : List Char} {pairs : List (Pair N)} {o : Outcome N}

theorem empty : Parses G .empty s (.ok [] s) :=
  ⟨1, rfl⟩

theorem eoi_nil : Parses G .eoi [] (.ok [] []) :=
  ⟨1, rfl⟩

theorem eoi_inv (h : Parses G .eoi s (.ok pairs rest)) : s = [] ∧ pairs = [] := by
  have hrun : Parses G .eoi s (if s = [] then .ok [] [] else .fail) := ⟨1, rfl⟩
  have := h.unique hrun
  split_ifs at this with hs
  cases this
  exact ⟨hs, rfl⟩

theorem lit (w : List Char) : Parses G (.lit w) s (ofRest (stripPrefix w s)) :=
  ⟨1, rfl⟩

theorem insens (w : List Char) : Parses G (.insens w) s (ofRest (stripPrefixInsens w s)) :=
  ⟨1, rfl⟩

theorem rule_ok {n : N} (h : Parses G (G.body n) s (.ok pairs rest)) :
    Parses G (.rule n) s (.ok (G.report n s pairs rest) rest) := by
  obtain ⟨fuel, h⟩ := h
  exact ⟨fuel + 1, by rw [run_rule, h]⟩

theorem rule_fail {n : N} (h : Parses G (G.body n) s .fail) : Parses G (.rule n) s .fail := by
  obtain ⟨fuel, h⟩ := h
  exact ⟨fuel + 1, by rw [run_rule, h]⟩

theorem rule_inv {n : N} (h : Parses G (.rule n) s (.ok pairs rest)) :
    ∃ inner, Parses G (G.body n) s (.ok inner rest) ∧ pairs = G.report n s inner rest := by
  obtain ⟨_ | fuel, h⟩ := h
  · simp at h
  rw [run_rule] at h
  cases hb : run G fuel (G.body n) s with
  | none => simp [hb] at h
  | some o' =>
      rw [hb] at h
      cases o' with
      | fail => simp at h
      | ok inner rest' =>
          simp only [Option.some.injEq, Outcome.ok.injEq] at h
          obtain ⟨rfl, rfl⟩ := h
          exact ⟨inner, ⟨fuel, hb⟩, rfl⟩

theorem seq_ok {pairs' : List (Pair N)} {rest' : List Char} (ha : Parses G a s (.ok pairs rest))
    (hb : Parses G b rest (.ok pairs' rest')) :
    Parses G (.seq a b) s (.ok (pairs ++ pairs') rest') := by
  obtain ⟨fuel, ha⟩ := ha
  obtain ⟨fuel', hb⟩ := hb
  refine ⟨fuel + fuel' + 1, ?_⟩
  rw [run_seq, run_mono_le ha (Nat.le_add_right _ _)]
  simp only
  rw [run_mono_le hb (Nat.le_add_left _ _)]

theorem seq_fail_left (ha : Parses G a s .fail) : Parses G (.seq a b) s .fail := by
  obtain ⟨fuel, ha⟩ := ha
  exact ⟨fuel + 1, by rw [run_seq, ha]⟩

theorem seq_fail_right (ha : Parses G a s (.ok pairs rest)) (hb : Parses G b rest .fail) :
    Parses G (.seq a b) s .fail := by
  obtain ⟨fuel, ha⟩ := ha
  obtain ⟨fuel', hb⟩ := hb
  refine ⟨fuel + fuel' + 1, ?_⟩
  rw [run_seq, run_mono_le ha (Nat.le_add_right _ _)]
  simp only
  rw [run_mono_le hb (Nat.le_add_left _ _)]

theorem seq_inv (h : Parses G (.seq a b) s (.ok pairs rest)) :
    ∃ pairs₁ middle pairs₂, Parses G a s (.ok pairs₁ middle) ∧
      Parses G b middle (.ok pairs₂ rest) ∧ pairs = pairs₁ ++ pairs₂ := by
  obtain ⟨_ | fuel, h⟩ := h
  · simp at h
  rw [run_seq] at h
  cases ha : run G fuel a s with
  | none => simp [ha] at h
  | some o' =>
      rw [ha] at h
      cases o' with
      | fail => simp at h
      | ok pairs₁ middle =>
          simp only at h
          cases hb : run G fuel b middle with
          | none => simp [hb] at h
          | some o'' =>
              rw [hb] at h
              cases o'' with
              | fail => simp at h
              | ok pairs₂ rest' =>
                  simp only [Option.some.injEq, Outcome.ok.injEq] at h
                  obtain ⟨rfl, rfl⟩ := h
                  exact ⟨pairs₁, middle, pairs₂, ⟨fuel, ha⟩, ⟨fuel, hb⟩, rfl⟩

theorem alt_left (ha : Parses G a s (.ok pairs rest)) :
    Parses G (.alt a b) s (.ok pairs rest) := by
  obtain ⟨fuel, ha⟩ := ha
  exact ⟨fuel + 1, by rw [run_alt, ha]⟩

theorem alt_right (ha : Parses G a s .fail) (hb : Parses G b s o) :
    Parses G (.alt a b) s o := by
  obtain ⟨fuel, ha⟩ := ha
  obtain ⟨fuel', hb⟩ := hb
  refine ⟨fuel + fuel' + 1, ?_⟩
  rw [run_alt, run_mono_le ha (Nat.le_add_right _ _)]
  exact run_mono_le hb (Nat.le_add_left _ _)

theorem alt_inv (h : Parses G (.alt a b) s (.ok pairs rest)) :
    Parses G a s (.ok pairs rest) ∨ (Parses G a s .fail ∧ Parses G b s (.ok pairs rest)) := by
  obtain ⟨_ | fuel, h⟩ := h
  · simp at h
  rw [run_alt] at h
  cases ha : run G fuel a s with
  | none => simp [ha] at h
  | some o' =>
      rw [ha] at h
      cases o' with
      | fail => exact .inr ⟨⟨fuel, ha⟩, ⟨fuel, h⟩⟩
      | ok pairs' rest' =>
          simp only [Option.some.injEq, Outcome.ok.injEq] at h
          obtain ⟨rfl, rfl⟩ := h
          exact .inl ⟨fuel, ha⟩

theorem star_stop (ha : Parses G a s .fail) : Parses G (.star a) s (.ok [] s) := by
  obtain ⟨fuel, ha⟩ := ha
  exact ⟨fuel + 1, by rw [run_star, ha]⟩

theorem star_more {pairs' : List (Pair N)} {rest' : List Char} (ha : Parses G a s (.ok pairs rest))
    (hmore : Parses G (.star a) rest (.ok pairs' rest')) :
    Parses G (.star a) s (.ok (pairs ++ pairs') rest') := by
  obtain ⟨fuel, ha⟩ := ha
  obtain ⟨fuel', hmore⟩ := hmore
  refine ⟨fuel + fuel' + 1, ?_⟩
  rw [run_star, run_mono_le ha (Nat.le_add_right _ _)]
  simp only
  rw [run_mono_le hmore (Nat.le_add_left _ _)]

/-- Induction over the rounds of a repetition: it stops where `a` fails, and a
round puts its nodes before those of the rounds after it. -/
theorem star_induction {motive : List Char → List (Pair N) → Prop}
    (h : Parses G (.star a) s (.ok pairs rest)) (stop : Parses G a rest .fail → motive rest [])
    (more : ∀ {s pairs₁ middle pairs₂}, Parses G a s (.ok pairs₁ middle) →
      motive middle pairs₂ → motive s (pairs₁ ++ pairs₂)) :
    motive s pairs := by
  obtain ⟨fuel, h⟩ := h
  induction fuel generalizing s pairs with
  | zero => simp at h
  | succ fuel ih =>
      rw [run_star] at h
      cases ha : run G fuel a s with
      | none => simp [ha] at h
      | some o' =>
          rw [ha] at h
          cases o' with
          | fail =>
              simp only [Option.some.injEq, Outcome.ok.injEq] at h
              obtain ⟨rfl, rfl⟩ := h
              exact stop ⟨fuel, ha⟩
          | ok pairs₁ middle =>
              simp only at h
              cases hb : run G fuel (.star a) middle with
              | none => simp [hb] at h
              | some o'' =>
                  rw [hb] at h
                  cases o'' with
                  | fail => simp at h
                  | ok pairs₂ rest' =>
                      simp only [Option.some.injEq, Outcome.ok.injEq] at h
                      obtain ⟨rfl, rfl⟩ := h
                      exact more ⟨fuel, ha⟩ (ih hb)

theorem not_ok (ha : Parses G a s .fail) : Parses G (.not a) s (.ok [] s) := by
  obtain ⟨fuel, ha⟩ := ha
  exact ⟨fuel + 1, by rw [run_not, ha]⟩

theorem not_fail (ha : Parses G a s (.ok pairs rest)) : Parses G (.not a) s .fail := by
  obtain ⟨fuel, ha⟩ := ha
  exact ⟨fuel + 1, by rw [run_not, ha]⟩

/-- What an expression does that matches one character of a class. -/
def classOutcome (p : Char → Bool) : List Char → Outcome N
  | [] => .fail
  | c :: s => if p c then .ok [] s else .fail

/-- A greedy repetition of a character class takes the longest prefix in the class. -/
theorem star_class {p : Char → Bool} (hclass : ∀ s, Parses G a s (classOutcome p s))
    (s : List Char) : Parses G (.star a) s (.ok [] (s.dropWhile p)) := by
  induction s with
  | nil => exact star_stop (hclass [])
  | cons c s ih =>
      have hc := hclass (c :: s)
      cases hp : p c with
      | true =>
          rw [List.dropWhile_cons_of_pos hp]
          rw [classOutcome, if_pos hp] at hc
          exact star_more hc ih
      | false =>
          rw [List.dropWhile_cons_of_neg (by simp [hp])]
          exact star_stop (by simpa [classOutcome, hp] using hc)

theorem char (p : Char → Bool) (s : List Char) : Parses G (.char p) s (classOutcome p s) :=
  ⟨1, by cases s <;> rfl⟩

end Parses

/-! ## Totality

The input gets shorter along every cycle of rules.  A certificate ranks the
rules so that a rule entered before anything is consumed has a smaller rank. -/

theorem length_stripPrefix {w s rest : List Char} (h : stripPrefix w s = some rest) :
    s.length = w.length + rest.length := by
  induction w generalizing s with
  | nil => simp_all [stripPrefix]
  | cons a w ih =>
      cases s with
      | nil => simp [stripPrefix] at h
      | cons c s =>
          simp only [stripPrefix] at h
          split_ifs at h
          simp only [List.length_cons, ih h]
          omega

theorem length_stripPrefixInsens {w s rest : List Char} (h : stripPrefixInsens w s = some rest) :
    s.length = w.length + rest.length := by
  induction w generalizing s with
  | nil => simp_all [stripPrefixInsens]
  | cons a w ih =>
      cases s with
      | nil => simp [stripPrefixInsens] at h
      | cons c s =>
          simp only [stripPrefixInsens] at h
          split_ifs at h
          simp only [List.length_cons, ih h]
          omega

theorem stripPrefixInsens_eq_some_iff {w s rest : List Char} :
    stripPrefixInsens w s = some rest ↔
      ∃ matched, s = matched ++ rest ∧ matched.map Char.toLower = w.map Char.toLower := by
  induction w generalizing s with
  | nil => simp [stripPrefixInsens]
  | cons a w ih =>
      cases s with
      | nil => simp [stripPrefixInsens]
      | cons c s =>
          rw [stripPrefixInsens]
          split_ifs with hac
          · rw [ih]
            constructor
            · rintro ⟨matched, rfl, hmatched⟩
              exact ⟨c :: matched, rfl, by simp [hmatched, hac]⟩
            · rintro ⟨_ | ⟨c', matched⟩, heq, hmatched⟩
              · simp at hmatched
              · simp only [List.cons_append, List.cons.injEq] at heq
                simp only [List.map_cons, List.cons.injEq] at hmatched
                exact ⟨matched, heq.2, hmatched.2⟩
          · simp only [false_iff, not_exists, not_and]
            rintro (_ | ⟨c', matched⟩) heq hmatched
            · simp at hmatched
            · simp only [List.cons_append, List.cons.injEq] at heq
              simp only [List.map_cons, List.cons.injEq] at hmatched
              exact hac (heq.1 ▸ hmatched.1.symm)

namespace Exp

/-- `e` consumes input whenever it succeeds, given the rules that do. -/
def consumes (nonempty : N → Bool) : Exp N → Bool
  | char _ => true
  | lit w => !w.isEmpty
  | insens w => !w.isEmpty
  | rule n => nonempty n
  | seq a b => a.consumes nonempty || b.consumes nonempty
  | alt a b => a.consumes nonempty && b.consumes nonempty
  | _ => false

/-- The rules `e` can enter before it consumes input rank below `k` (below
`top` after that), and every repetition consumes. -/
def guarded (nonempty : N → Bool) (rank : N → ℕ) (top : ℕ) : ℕ → Exp N → Bool
  | k, rule n => decide (rank n < k)
  | k, seq a b => guarded nonempty rank top k a &&
      guarded nonempty rank top (if a.consumes nonempty then top else k) b
  | k, alt a b => guarded nonempty rank top k a && guarded nonempty rank top k b
  | k, star a => a.consumes nonempty && guarded nonempty rank top k a
  | k, not a => guarded nonempty rank top k a
  | _, _ => true

end Exp

/-- A finite check that the grammar is not left recursive. -/
structure Certificate (G : Grammar N) where
  nonempty : N → Bool
  rank : N → ℕ
  top : ℕ
  width : ℕ
  rank_lt : ∀ n, rank n < top
  consumes : ∀ n, nonempty n = true → (G.body n).consumes nonempty = true
  guarded : ∀ n, (G.body n).guarded nonempty rank top (rank n) = true
  size_le : ∀ n, (G.body n).size ≤ width

namespace Certificate

variable (C : Certificate G)

/-- What an expression of size `size` needs at `length` characters from the
end of the input, when it enters rules below rank `k` only. -/
def need (length k size : ℕ) : ℕ :=
  (length * (C.top + 1) + k) * (C.width + 1) + size

/-- Fuel for any rule on an input of `length` characters. -/
def fuel (length : ℕ) : ℕ :=
  C.need length C.top 1

/-- A rule's body fits in what the rule needs: its rank is smaller. -/
theorem need_body_le (length : ℕ) {rank k : ℕ} (hrank : rank < k) {size : ℕ}
    (hsize : size ≤ C.width) :
    C.need length rank size + 1 ≤ C.need length k 1 := by
  unfold need
  have hmul := Nat.mul_le_mul_right (C.width + 1)
    (show length * (C.top + 1) + rank + 1 ≤ length * (C.top + 1) + k by omega)
  rw [Nat.add_mul _ 1] at hmul
  omega

/-- Consuming a character pays for entering any rule, and for one step more. -/
theorem need_shorter_lt {length shorter k : ℕ} (hshort : shorter < length) (hk : k ≤ C.top)
    (k' size : ℕ) : C.need shorter k size + 1 ≤ C.need length k' size := by
  unfold need
  have hlen := Nat.mul_le_mul_right (C.top + 1) (show shorter + 1 ≤ length from hshort)
  rw [Nat.add_mul _ 1] at hlen
  have hmul := Nat.mul_le_mul_right (C.width + 1)
    (show shorter * (C.top + 1) + k + 1 ≤ length * (C.top + 1) + k' by omega)
  rw [Nat.add_mul _ 1] at hmul
  omega

theorem need_mono {length shorter k size size' : ℕ} (hle : shorter ≤ length)
    (hsize : size ≤ size') :
    C.need shorter k size ≤ C.need length k size' := by
  unfold need
  have hlen := Nat.mul_le_mul_right (C.top + 1) hle
  have := Nat.mul_le_mul_right (C.width + 1)
    (show shorter * (C.top + 1) + k ≤ length * (C.top + 1) + k by omega)
  omega

theorem rest_length {fuel : ℕ} {e : Exp N} {s rest : List Char} {pairs : List (Pair N)}
    (h : run G fuel e s = some (.ok pairs rest)) :
    rest.length ≤ s.length ∧ (e.consumes C.nonempty = true → rest.length < s.length) := by
  induction fuel generalizing e s rest pairs with
  | zero => simp at h
  | succ fuel ih =>
      cases e with
      | empty => simp_all [Exp.consumes]
      | eoi => rw [run_eoi] at h; split_ifs at h <;> simp_all [Exp.consumes]
      | char p =>
          cases s with
          | nil => simp at h
          | cons c s => rw [run_char_cons] at h; split_ifs at h <;> simp_all
      | lit w =>
          cases hw : stripPrefix w s with
          | none => simp [hw, ofRest] at h
          | some rest' =>
              have := length_stripPrefix hw
              simp_all only [run_lit, ofRest, Option.some.injEq, Outcome.ok.injEq]
              cases w <;> simp_all [Exp.consumes]
      | insens w =>
          cases hw : stripPrefixInsens w s with
          | none => simp [hw, ofRest] at h
          | some rest' =>
              have := length_stripPrefixInsens hw
              simp_all only [run_insens, ofRest, Option.some.injEq, Outcome.ok.injEq]
              cases w <;> simp_all [Exp.consumes]
      | rule n =>
          rw [run_rule] at h
          split at h
          · rename_i inner rest' hb
            cases h
            exact ⟨(ih hb).1, fun hn => (ih hb).2 (C.consumes n hn)⟩
          · exact absurd h (by rename_i hne; exact hne _ _)
      | seq a b =>
          rw [run_seq] at h
          split at h
          · rename_i inner middle ha
            split at h
            · rename_i inner' rest' hb
              cases h
              obtain ⟨hale, halt⟩ := ih ha
              obtain ⟨hble, hblt⟩ := ih hb
              refine ⟨hble.trans hale, fun hcons => ?_⟩
              rw [Exp.consumes, Bool.or_eq_true] at hcons
              rcases hcons with hcons | hcons
              · exact hble.trans_lt (halt hcons)
              · exact (hblt hcons).trans_le hale
            · exact absurd h (by rename_i hne; exact hne _ _)
          · exact absurd h (by rename_i hne; exact hne _ _)
      | alt a b =>
          rw [run_alt] at h
          split at h
          · obtain ⟨hle, hlt⟩ := ih h
            refine ⟨hle, fun hcons => hlt ?_⟩
            rw [Exp.consumes, Bool.and_eq_true] at hcons
            exact hcons.2
          · obtain ⟨hle, hlt⟩ := ih h
            refine ⟨hle, fun hcons => hlt ?_⟩
            rw [Exp.consumes, Bool.and_eq_true] at hcons
            exact hcons.1
      | star a =>
          refine ⟨?_, fun hcons => by simp [Exp.consumes] at hcons⟩
          rw [run_star] at h
          split at h
          · cases h
            exact le_rfl
          · rename_i inner middle ha
            split at h
            · rename_i inner' rest' hb
              cases h
              exact (ih hb).1.trans (ih ha).1
            · exact absurd h (by rename_i hne; exact hne _ _)
          · simp at h
      | not a =>
          refine ⟨?_, fun hcons => by simp [Exp.consumes] at hcons⟩
          rw [run_not] at h
          split at h
          · cases h
            exact le_rfl
          · cases h
          · cases h

/-- The interpreter answers whenever it has the fuel the certificate computes. -/
theorem run_ne_none {fuel : ℕ} {e : Exp N} {s : List Char} {k : ℕ} (hk : k ≤ C.top)
    (hguard : e.guarded C.nonempty C.rank C.top k = true) (hsize : e.size ≤ C.width)
    (hfuel : C.need s.length k e.size ≤ fuel) : run G fuel e s ≠ none := by
  induction fuel generalizing e s k with
  | zero =>
      have : 0 < e.size := by cases e <;> simp [Exp.size]
      unfold need at hfuel
      omega
  | succ fuel ih =>
      cases e with
      | empty => simp
      | eoi => simp
      | char p => cases s <;> simp
      | lit w => simp
      | insens w => simp
      | rule n =>
          simp only [Exp.guarded, decide_eq_true_eq] at hguard
          have hbody : run G fuel (G.body n) s ≠ none := by
            refine ih (C.rank_lt n).le (C.guarded n) (C.size_le n) ?_
            have := C.need_body_le s.length hguard (C.size_le n)
            simp only [Exp.size] at hfuel
            omega
          rw [run_rule]
          split <;> simp_all
      | seq a b =>
          simp only [Exp.guarded, Bool.and_eq_true] at hguard
          simp only [Exp.size] at hsize hfuel
          have hneed := C.need_mono (k := k) (le_refl s.length)
            (show a.size ≤ a.size + b.size by omega)
          have hsucc : C.need s.length k (a.size + b.size + 1) =
            C.need s.length k (a.size + b.size) + 1 := rfl
          have ha : run G fuel a s ≠ none := ih hk hguard.1 (by omega) (by omega)
          rw [run_seq]
          split
          · rename_i inner middle hmid
            obtain ⟨hle, hlt⟩ := C.rest_length hmid
            have hb : run G fuel b middle ≠ none := by
              by_cases hcons : a.consumes C.nonempty = true
              · refine ih le_rfl (by simpa [hcons] using hguard.2) (by omega) ?_
                have := C.need_shorter_lt (hlt hcons) le_rfl k b.size
                have := C.need_mono (k := k) (le_refl s.length)
                  (show b.size ≤ a.size + b.size by omega)
                omega
              · refine ih hk (by simpa [hcons] using hguard.2) (by omega) ?_
                have := C.need_mono (k := k) hle (show b.size ≤ a.size + b.size by omega)
                omega
            split <;> simp_all
          · simp_all
      | alt a b =>
          simp only [Exp.guarded, Bool.and_eq_true] at hguard
          simp only [Exp.size] at hsize hfuel
          have hsucc : C.need s.length k (a.size + b.size + 1) =
            C.need s.length k (a.size + b.size) + 1 := rfl
          have hneeda := C.need_mono (k := k) (le_refl s.length)
            (show a.size ≤ a.size + b.size by omega)
          have hneedb := C.need_mono (k := k) (le_refl s.length)
            (show b.size ≤ a.size + b.size by omega)
          have ha : run G fuel a s ≠ none := ih hk hguard.1 (by omega) (by omega)
          have hb : run G fuel b s ≠ none := ih hk hguard.2 (by omega) (by omega)
          rw [run_alt]
          split <;> simp_all
      | star a =>
          simp only [Exp.guarded, Bool.and_eq_true] at hguard
          simp only [Exp.size] at hsize hfuel
          have hsucc : C.need s.length k (a.size + 1) = C.need s.length k a.size + 1 := rfl
          have ha : run G fuel a s ≠ none := ih hk hguard.2 (by omega) (by omega)
          rw [run_star]
          split
          · simp
          · rename_i inner middle hmid
            have hshort : middle.length < s.length := (C.rest_length hmid).2 hguard.1
            have hmore : run G fuel (.star a) middle ≠ none := by
              refine ih hk (by simp [Exp.guarded, hguard]) (by simpa [Exp.size]) ?_
              -- the round's own character pays for the next round
              have := C.need_shorter_lt hshort hk k (a.size + 1)
              simp only [Exp.size]
              omega
            split <;> simp_all
          · simp_all
      | not a =>
          simp only [Exp.guarded] at hguard
          simp only [Exp.size] at hsize hfuel
          have hsucc : C.need s.length k (a.size + 1) = C.need s.length k a.size + 1 := rfl
          have ha : run G fuel a s ≠ none := ih hk hguard (by omega) (by omega)
          rw [run_not]
          split <;> simp_all

/-- Every rule has an outcome within the certificate's fuel. -/
theorem run_rule_ne_none (n : N) (s : List Char) :
    run G (C.fuel s.length) (.rule n) s ≠ none :=
  C.run_ne_none le_rfl (by simpa [Exp.guarded] using C.rank_lt n)
    ((by cases h : G.body n <;> simp [Exp.size] : (Exp.rule n).size ≤ (G.body n).size).trans
      (C.size_le n)) le_rfl

end Certificate

end Peg
