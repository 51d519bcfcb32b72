import Mathlib.Tactic.Common
import Mathlib.Data.List.Basic

/-!
# Expressions with OR, AND and NOT

A recursive-descent reader for the usual three levels, NOT above AND above OR,
the binary ones associating to the left.  Everything tighter is one parser for
operands, which is given the reader of whole expressions for what stands in
parentheses (`Precedence.parse`).

`Reads p stop l b` says that `p` reads the tokens `l` as `b` and leaves alone
what follows, as long as that does not start with a token that continues the
expression.  There is one rule for each level.
-/

namespace Precedence

/-- What is read, and the tokens that are left. -/
abbrev Parser (τ β : Type*) := List τ → Option (β × List τ)

variable {τ β : Type*}

/-- The operators and what they build. -/
structure Syntax (τ β : Type*) where
  isOr : τ → Bool
  isAnd : τ → Bool
  isNot : τ → Bool
  or : β → β → β
  and : β → β → β
  not : β → β

section

variable (isOp : τ → Bool) (comb : β → β → β) (p : Parser τ β)

/-- The operands that follow `left`. -/
def chain : ℕ → β → Parser τ β
  | 0, _, _ => none
  | _ + 1, left, [] => some (left, [])
  | fuel + 1, left, t :: ts =>
      if isOp t then (p ts).bind fun r => chain fuel (comb left r.1) r.2
      else some (left, t :: ts)

/-- One or more operands with a left-associative operator between them.  Each
operator is a token, which bounds their number. -/
def leftAssoc : Parser τ β := fun ts =>
  (p ts).bind fun r => chain isOp comb p (r.2.length + 1) r.1 r.2

end

/-- An operand behind any number of NOTs. -/
def unary (isNot : τ → Bool) (not : β → β) (p : Parser τ β) : Parser τ β
  | [] => p []
  | t :: ts => if isNot t then (unary isNot not p ts).map fun r => (not r.1, r.2) else p (t :: ts)

variable (S : Syntax τ β)

def expr (p : Parser τ β) : Parser τ β :=
  leftAssoc S.isOr S.or (leftAssoc S.isAnd S.and (unary S.isNot S.not p))

/-- What `p` reads, with a closing token behind it. -/
def closed (isClose : τ → Bool) (p : Parser τ β) : Parser τ β := fun ts =>
  (p ts).bind fun r =>
    match r.2 with
    | t :: rest => if isClose t then some (r.1, rest) else none
    | [] => none

/-- Expressions nested at most `fuel` deep. -/
def parse (operand : Parser τ β → Parser τ β) : ℕ → Parser τ β
  | 0 => fun _ => none
  | fuel + 1 => expr S (operand (parse operand fuel))

/-- The expression that all of the tokens form.  No text nests deeper than it is
long. -/
def parseAll (operand : Parser τ β → Parser τ β) (ts : List τ) : Option β :=
  match parse S operand (ts.length + 1) ts with
  | some (b, []) => some b
  | _ => none

/-! ## Reading -/

/-- No token that continues an expression comes first. -/
def Stops (cont : τ → Bool) (rest : List τ) : Prop :=
  ∀ t ∈ rest.head?, cont t = false

theorem stops_nil (cont : τ → Bool) : Stops cont [] := by
  simp [Stops]

theorem stops_cons {cont : τ → Bool} {t : τ} {ts : List τ} (h : cont t = false) :
    Stops cont (t :: ts) := by
  simpa [Stops] using h

theorem Stops.imp {cont cont' : τ → Bool} (himp : ∀ t, cont t = true → cont' t = true)
    {rest : List τ} (h : Stops cont' rest) : Stops cont rest := by
  intro t ht
  have := h t ht
  by_contra hcont
  rw [himp t (by simpa using hcont)] at this
  cases this

def Reads (p : Parser τ β) (cont : τ → Bool) (l : List τ) (b : β) : Prop :=
  ∀ rest, Stops cont rest → p (l ++ rest) = some (b, rest)

variable {isOp cont : τ → Bool} {comb : β → β → β} {p : Parser τ β}

/-- An operator, the operand behind it and its value. -/
structure Segment (τ β : Type*) where
  op : τ
  operand : List τ
  value : β

def Segment.tokens (s : Segment τ β) : List τ := s.op :: s.operand

/-- A segment that `chain` reads. -/
structure Segment.Good (isOp cont : τ → Bool) (p : Parser τ β) (s : Segment τ β) : Prop where
  isOp : isOp s.op = true
  stops : cont s.op = false
  reads : Reads p cont s.operand s.value

theorem stops_segments {segments : List (Segment τ β)}
    (hgood : ∀ s ∈ segments, s.Good isOp cont p) {rest : List τ} (hrest : Stops cont rest) :
    Stops cont (segments.flatMap Segment.tokens ++ rest) := by
  cases segments with
  | nil => exact hrest
  | cons s segments => exact stops_cons (hgood s List.mem_cons_self).stops

theorem chain_segments {segments : List (Segment τ β)}
    (hgood : ∀ s ∈ segments, s.Good isOp cont p) {rest : List τ} (hcont : Stops cont rest)
    (hop : Stops isOp rest) {fuel : ℕ} (hfuel : segments.length < fuel) (left : β) :
    chain isOp comb p fuel left (segments.flatMap Segment.tokens ++ rest) =
      some ((segments.map Segment.value).foldl comb left, rest) := by
  induction segments generalizing fuel left with
  | nil =>
      obtain ⟨fuel, rfl⟩ := Nat.exists_eq_add_one_of_ne_zero (Nat.ne_of_gt hfuel)
      cases rest with
      | nil => rfl
      | cons t rest =>
          have ht : isOp t = false := hop t rfl
          simp [chain, ht]
  | cons s segments ih =>
      obtain ⟨fuel, rfl⟩ := Nat.exists_eq_add_of_le' (Nat.one_le_of_lt hfuel)
      obtain ⟨hs, hsegments⟩ := List.forall_mem_cons.mp hgood
      have hread := hs.reads _ (stops_segments hsegments hcont)
      rw [List.flatMap_cons, Segment.tokens, List.cons_append, List.cons_append, List.append_assoc,
        chain, if_pos hs.isOp, hread]
      exact ih hsegments (by simpa using hfuel) (comb left s.value)

theorem length_le_flatMap (segments : List (Segment τ β)) :
    segments.length ≤ (segments.flatMap Segment.tokens).length := by
  induction segments with
  | nil => exact Nat.le_refl 0
  | cons s segments ih =>
      rw [List.flatMap_cons, List.length_append, List.length_cons, Segment.tokens,
        List.length_cons]
      omega

theorem reads_leftAssoc {l : List τ} {b : β} (hl : Reads p cont l b)
    {segments : List (Segment τ β)} (hgood : ∀ s ∈ segments, s.Good isOp cont p) :
    Reads (leftAssoc isOp comb p) (fun t => cont t || isOp t)
      (l ++ segments.flatMap Segment.tokens)
      ((segments.map Segment.value).foldl comb b) := by
  intro rest hrest
  have hcont : Stops cont rest := hrest.imp fun t ht => by simp [ht]
  have hop : Stops isOp rest := hrest.imp fun t ht => by simp [ht]
  have hread := hl _ (stops_segments hgood hcont)
  rw [leftAssoc, List.append_assoc, hread]
  apply chain_segments hgood hcont hop
  have := length_le_flatMap segments
  rw [List.length_append]
  omega

theorem reads_single {l : List τ} {b : β} (hl : Reads p cont l b) :
    Reads (leftAssoc isOp comb p) (fun t => cont t || isOp t) l b := by
  have hgood : ∀ s ∈ ([] : List (Segment τ β)), s.Good isOp cont p := by simp
  simpa using reads_leftAssoc hl hgood

theorem reads_pair {op : τ} {l l' : List τ} {a b : β} (hop : isOp op = true)
    (hcont : cont op = false) (hl : Reads p cont l a) (hl' : Reads p cont l' b) :
    Reads (leftAssoc isOp comb p) (fun t => cont t || isOp t) (l ++ op :: l') (comb a b) := by
  have hgood : ∀ s ∈ [(⟨op, l', b⟩ : Segment τ β)], s.Good isOp cont p := by
    simpa using ⟨hop, hcont, hl'⟩
  simpa [Segment.tokens] using reads_leftAssoc hl hgood

theorem reads_unary_not {isNot : τ → Bool} {not : β → β} {t : τ} {l : List τ} {b : β}
    (ht : isNot t = true) (hl : Reads (unary isNot not p) cont l b) :
    Reads (unary isNot not p) cont (t :: l) (not b) := by
  intro rest hrest
  rw [List.cons_append, unary, if_pos ht, hl rest hrest, Option.map_some]

theorem reads_unary_operand {isNot : τ → Bool} {not : β → β} {t : τ} {l : List τ} {b : β}
    (ht : isNot t = false) (hl : Reads p cont (t :: l) b) :
    Reads (unary isNot not p) cont (t :: l) b := by
  intro rest hrest
  rw [List.cons_append, unary, if_neg (by simp [ht]), ← List.cons_append, hl rest hrest]

theorem closed_eq {isClose : τ → Bool} {t : τ} (ht : isClose t = true) (hcont : cont t = false)
    {l : List τ} {b : β} (hl : Reads p cont l b) (rest : List τ) :
    closed isClose p (l ++ t :: rest) = some (b, rest) := by
  rw [closed, hl _ (stops_cons hcont)]
  exact if_pos ht

/-! ## Whole expressions -/

variable {S}

/-- The operands of OR stop at OR and at what continues an operand or an AND. -/
def Syntax.continues (S : Syntax τ β) (cont : τ → Bool) (t : τ) : Bool :=
  (cont t || S.isAnd t) || S.isOr t

theorem reads_expr {l : List τ} {b : β} (hl : Reads (unary S.isNot S.not p) cont l b) :
    Reads (expr S p) (S.continues cont) l b :=
  reads_single (reads_single hl)

theorem reads_and {op : τ} {l l' : List τ} {a b : β} (hop : S.isAnd op = true)
    (hcont : cont op = false) (hl : Reads (unary S.isNot S.not p) cont l a)
    (hl' : Reads (unary S.isNot S.not p) cont l' b) :
    Reads (expr S p) (S.continues cont) (l ++ op :: l') (S.and a b) :=
  reads_single (reads_pair hop hcont hl hl')

/-- Operands joined by OR, in order. -/
theorem reads_or_chain {op : τ} {l : List τ} {b : β} {operands : List (List τ × β)}
    (hop : S.isOr op = true) (hcont : cont op = false) (hand : S.isAnd op = false)
    (hl : Reads (unary S.isNot S.not p) cont l b)
    (hoperands : ∀ o ∈ operands, Reads (unary S.isNot S.not p) cont o.1 o.2) :
    Reads (expr S p) (S.continues cont) (l ++ operands.flatMap fun o => op :: o.1)
      ((operands.map Prod.snd).foldl S.or b) := by
  have hgood : ∀ s ∈ operands.map (fun o => (⟨op, o.1, o.2⟩ : Segment τ β)), s.Good S.isOr
      (fun t => cont t || S.isAnd t) (leftAssoc S.isAnd S.and (unary S.isNot S.not p)) := by
    intro s hs
    obtain ⟨o, ho, rfl⟩ := List.mem_map.mp hs
    exact ⟨hop, by simp [hcont, hand], reads_single (hoperands o ho)⟩
  have hor : Reads (expr S p) _ _ _ := reads_leftAssoc (reads_single hl) hgood
  rw [List.flatMap_map, List.map_map] at hor
  exact hor

theorem reads_or {op : τ} {l l' : List τ} {a b : β} (hop : S.isOr op = true)
    (hcont : cont op = false) (hand : S.isAnd op = false)
    (hl : Reads (unary S.isNot S.not p) cont l a)
    (hl' : Reads (unary S.isNot S.not p) cont l' b) :
    Reads (expr S p) (S.continues cont) (l ++ op :: l') (S.or a b) :=
  reads_pair hop (by simp [hcont, hand]) (reads_single hl) (reads_single hl')

theorem parseAll_eq {operand : Parser τ β → Parser τ β} {cont : τ → Bool} {l : List τ} {b : β}
    (hl : Reads (expr S (operand (parse S operand l.length))) cont l b) :
    parseAll S operand l = some b := by
  have hread := hl [] (stops_nil cont)
  rw [List.append_nil] at hread
  rw [parseAll, parse, hread]

end Precedence
