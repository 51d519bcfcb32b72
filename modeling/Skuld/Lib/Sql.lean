import Mathlib.Data.Int.Notation
import Skuld.Lib.Precedence
import Skuld.Lib.Transducer

/-!
# A fragment of SQL

The expressions of SQL that are made of integers, texts, columns, `=`, the three
logical operators and `EXISTS (SELECT … FROM table name WHERE …)`, as text, as
syntax trees and as values over a database.  Precedence is that of SQL: `=` binds
tighter than NOT, NOT tighter than AND, AND tighter than OR.

A subquery sees the columns of its own table first and then those of the queries
around it.  Where SQL would convert between integers and texts, there is no
value.

A query is refused if its expression is too deep (`prepare`).
-/

namespace Sql

/-! ## Tokens -/

inductive Token where
  | kwSelect
  | kwFrom
  | kwWhere
  | kwExists
  | kwAnd
  | kwOr
  | kwNot
  | word (w : String)
  | number (n : ℕ)
  | text (s : List Char)
  | lpar
  | rpar
  | eq
  | dot
  deriving DecidableEq

/-- What is under way.  After a quote inside a text, another quote belongs to the
text and anything else ends it. -/
inductive LexState where
  | idle
  | word (w : List Char)
  | number (n : ℕ)
  | text (s : List Char)
  | quote (s : List Char)
  deriving DecidableEq

def isIdentStart (c : Char) : Bool :=
  c.isAlpha || c = '_'

def isIdentChar (c : Char) : Bool :=
  c.isAlphanum || c = '_'

/-- Keywords and identifiers do not depend on case. -/
def tokenOfWord (w : List Char) : Token :=
  let lower := String.ofList (w.map Char.toLower)
  if lower = "select" then .kwSelect
  else if lower = "from" then .kwFrom
  else if lower = "where" then .kwWhere
  else if lower = "exists" then .kwExists
  else if lower = "and" then .kwAnd
  else if lower = "or" then .kwOr
  else if lower = "not" then .kwNot
  else .word lower

def startToken (c : Char) : Option (LexState × List Token) :=
  if c = '(' then some (.idle, [.lpar])
  else if c = ')' then some (.idle, [.rpar])
  else if c = '=' then some (.idle, [.eq])
  else if c = '.' then some (.idle, [.dot])
  else if c.isWhitespace then some (.idle, [])
  else if c = '\'' then some (.text [], [])
  else if c.isDigit then some (.number (c.toNat - '0'.toNat), [])
  else if isIdentStart c then some (.word [c], [])
  else none

/-- Ends the token under way and goes on with `c`. -/
def endToken (t : Token) (c : Char) : Option (LexState × List Token) :=
  (startToken c).map fun r => (r.1, t :: r.2)

def lexStep : LexState → Char → Option (LexState × List Token)
  | .idle, c => startToken c
  | .word w, c => if isIdentChar c then some (.word (w ++ [c]), []) else endToken (tokenOfWord w) c
  | .number n, c =>
      if c.isDigit then some (.number (10 * n + (c.toNat - '0'.toNat)), [])
      else if isIdentStart c then none
      else endToken (.number n) c
  | .text s, c => if c = '\'' then some (.quote s, []) else some (.text (s ++ [c]), [])
  | .quote s, c => if c = '\'' then some (.text (s ++ [c]), []) else endToken (.text s) c

/-- A blank at the end completes the last token. -/
def lex (s : List Char) : Option (List Token) :=
  match Transducer.run lexStep .idle (s ++ [' ']) with
  | some (.idle, ts) => some ts
  | _ => none

/-! ## Expressions -/

inductive Expr where
  | number (n : ℕ)
  | text (s : String)
  | column (table : Option String) (name : String)
  | existsIn (result : Expr) (table : String) (name : Option String) (cond : Expr)
  | eq (a b : Expr)
  | not (a : Expr)
  | and (a b : Expr)
  | or (a b : Expr)
  deriving DecidableEq

def operators : Precedence.Syntax Token Expr where
  isOr t := t = .kwOr
  isAnd t := t = .kwAnd
  isNot t := t = .kwNot
  or := .or
  and := .and
  not := .not

/-- What follows `EXISTS (SELECT`. -/
def subquery (rec : Precedence.Parser Token Expr) : Precedence.Parser Token Expr := fun ts =>
  (rec ts).bind fun result =>
    match result.2 with
    | .kwFrom :: .word table :: .word name :: .kwWhere :: ts =>
        (rec ts).map fun cond => (.existsIn result.1 table (some name) cond.1, cond.2)
    | .kwFrom :: .word table :: .kwWhere :: ts =>
        (rec ts).map fun cond => (.existsIn result.1 table none cond.1, cond.2)
    | _ => none

def primary (rec : Precedence.Parser Token Expr) : Precedence.Parser Token Expr
  | .number n :: ts => some (.number n, ts)
  | .text s :: ts => some (.text (String.ofList s), ts)
  | .word table :: .dot :: .word name :: ts => some (.column (some table) name, ts)
  | .word name :: ts => some (.column none name, ts)
  | .kwExists :: .lpar :: .kwSelect :: ts => Precedence.closed (· = .rpar) (subquery rec) ts
  | .lpar :: ts => Precedence.closed (· = .rpar) rec ts
  | _ => none

def operand (rec : Precedence.Parser Token Expr) : Precedence.Parser Token Expr :=
  Precedence.leftAssoc (· = .eq) .eq (primary rec)

def parse (s : String) : Option Expr :=
  (lex s.toList).bind (Precedence.parseAll operators operand)

/-- `SELECT` with one expression and no table. -/
def parseSelect (s : String) : Option Expr :=
  match lex s.toList with
  | some (.kwSelect :: ts) => Precedence.parseAll operators operand ts
  | _ => none

example : parse "NOT a = 'it''s' OR (1=0 AND r.b = 12)" = some
    (.or (.not (.eq (.column none "a") (.text "it's")))
      (.and (.eq (.number 1) (.number 0)) (.eq (.column (some "r") "b") (.number 12)))) := by
  decide +kernel

/-! ## Depth -/

/-- The height of the tree.  A qualified column counts as an operator with two
operands, and a subquery as one whose operands are its result and its condition. -/
def Expr.height : Expr → ℕ
  | .number _ | .text _ | .column none _ => 1
  | .column (some _) _ => 2
  | .existsIn result _ _ cond => max result.height cond.height + 1
  | .eq a b | .and a b | .or a b => max a.height b.height + 1
  | .not a => a.height + 1

/-- How far the subqueries of an expression go beyond it: the names in a subquery are
resolved while those of the expressions around it are, so that the heights add up. -/
def Expr.overhang : Expr → ℕ
  | .number _ | .text _ | .column _ _ => 0
  | .existsIn result _ _ cond =>
      max (result.height + result.overhang) (cond.height + cond.overhang)
  | .eq a b | .and a b | .or a b => max a.overhang b.overhang
  | .not a => a.overhang

def Expr.depth (e : Expr) : ℕ :=
  e.height + e.overhang

/-- `SQLITE_MAX_EXPR_DEPTH`. -/
def maxExprDepth : ℕ := 1000

/-- `sqlite3_prepare`, which refuses an expression that is too deep. -/
def prepare (s : String) : Option Expr :=
  (parseSelect s).filter fun e => e.depth ≤ maxExprDepth

/-! ## Values -/

inductive Value where
  | int (n : ℤ)
  | text (s : String)
  deriving DecidableEq

def Value.ofBool (b : Bool) : Value :=
  .int (if b then 1 else 0)

def Value.truth : Value → Option Bool
  | .int n => some (n ≠ 0)
  | .text _ => none

def Value.equal : Value → Value → Option Bool
  | .int m, .int n => some (m = n)
  | .text s, .text t => some (s = t)
  | _, _ => none

abbrev Row := String → Option Value

/-- The row a query is at, under the name its table has there. -/
structure Scope where
  name : String
  row : Row

/-- The innermost scope that has the column. -/
def lookup (scopes : List Scope) (table : Option String) (name : String) : Option Value :=
  scopes.findSome? fun scope =>
    if table.getD scope.name = scope.name then scope.row name else none

def eval (tables : String → Option (List Row)) : List Scope → Expr → Option Value
  | _, .number n => some (.int n)
  | _, .text s => some (.text s)
  | scopes, .column table name => lookup scopes table name
  | scopes, .existsIn _ table name cond => do
      let rows ← tables table
      let found ← rows.mapM fun row =>
        (eval tables (⟨name.getD table, row⟩ :: scopes) cond).bind Value.truth
      some (.ofBool (found.any id))
  | scopes, .eq a b => do
      let x ← eval tables scopes a
      let y ← eval tables scopes b
      (x.equal y).map .ofBool
  | scopes, .not a => do
      let x ← (eval tables scopes a).bind Value.truth
      some (.ofBool !x)
  | scopes, .and a b => do
      let x ← (eval tables scopes a).bind Value.truth
      let y ← (eval tables scopes b).bind Value.truth
      some (.ofBool (x && y))
  | scopes, .or a b => do
      let x ← (eval tables scopes a).bind Value.truth
      let y ← (eval tables scopes b).bind Value.truth
      some (.ofBool (x || y))

/-! ## Reading text -/

abbrev Lexes := Transducer.Runs lexStep

theorem lex_eq {s : List Char} {ts : List Token} (h : Lexes .idle (s ++ [' ']) ts .idle) :
    lex s = some ts := by
  rw [lex, h]

/-- Nothing in a text without quotes ends it. -/
theorem lexes_text {name : List Char} (hname : '\'' ∉ name) (s : List Char) :
    Lexes (.text s) name [] (.text (s ++ name)) := by
  induction name generalizing s with
  | nil => simpa using Transducer.Runs.nil (LexState.text s)
  | cons c name ih =>
      obtain ⟨hc, hrest⟩ := not_or.mp (mt List.mem_cons.mpr hname)
      have hstep : lexStep (.text s) c = some (.text (s ++ [c]), []) := by
        rw [lexStep, if_neg (Ne.symm hc)]
      have := (Transducer.Runs.single hstep).append (ih hrest (s ++ [c]))
      rwa [List.append_assoc, List.singleton_append] at this

/-! ## Reading expressions -/

open Precedence

/-- What continues a comparison, or a column. -/
abbrev tight (t : Token) : Bool :=
  t = .dot || t = .eq

variable {rec : Parser Token Expr} {cont : Token → Bool}

theorem reads_number (n : ℕ) : Reads (primary rec) cont [.number n] (.number n) := by
  intro rest _
  rfl

theorem reads_text (s : List Char) :
    Reads (primary rec) cont [.text s] (.text (String.ofList s)) := by
  intro rest _
  rfl

theorem reads_column (name : String) :
    Reads (primary rec) (fun t => t = .dot) [.word name] (.column none name) := by
  intro rest hrest
  cases rest with
  | nil => rfl
  | cons t rest =>
      have hdot : t ≠ .dot := by simpa [Stops] using hrest
      rw [List.singleton_append, primary]
      intro table rest' h
      exact hdot (List.cons.inj h).1

theorem reads_qualified (table name : String) :
    Reads (primary rec) cont [.word table, .dot, .word name] (.column (some table) name) := by
  intro rest _
  rfl

theorem reads_paren {inner : Token → Bool} (hinner : inner .rpar = false) {l : List Token}
    {b : Expr} (hl : Reads rec inner l b) :
    Reads (primary rec) cont (.lpar :: (l ++ [.rpar])) b := by
  intro rest _
  have hclosed : closed (fun t : Token => t = .rpar) rec (l ++ .rpar :: rest) = some (b, rest) :=
    closed_eq rfl hinner hl rest
  rw [List.cons_append, List.append_assoc, List.singleton_append, primary, hclosed]

/-- The name that the table goes by in a subquery. -/
def nameTokens : Option String → List Token
  | some name => [.word name]
  | none => []

theorem reads_existsIn {inner : Token → Bool} (hfrom : inner .kwFrom = false)
    (hrpar : inner .rpar = false) {result cond : List Token} {r c : Expr} (table : String)
    (name : Option String) (hresult : Reads rec inner result r) (hcond : Reads rec inner cond c) :
    Reads (primary rec) cont (.kwExists :: .lpar :: .kwSelect :: (result ++
      .kwFrom :: .word table :: (nameTokens name ++ .kwWhere :: (cond ++ [.rpar]))))
      (.existsIn r table name c) := by
  have hsub : Reads (subquery rec) inner
      (result ++ .kwFrom :: .word table :: (nameTokens name ++ .kwWhere :: cond))
      (.existsIn r table name c) := by
    intro rest hrest
    rw [subquery, List.append_assoc, List.cons_append, hresult _ (stops_cons hfrom)]
    cases name with
    | some name => simp [nameTokens, hcond rest hrest]
    | none => simp [nameTokens, hcond rest hrest]
  intro rest _
  have hclosed : closed (fun t : Token => t = .rpar) (subquery rec) (_ ++ .rpar :: rest) =
    some (.existsIn r table name c, rest) := closed_eq rfl hrpar hsub rest
  simpa [primary] using hclosed

/-! Given fuel for the parentheses: what stands under NOT, what stands beside `=`,
and a whole expression. -/

abbrev ReadsUnary (fuel : ℕ) : List Token → Expr → Prop :=
  Reads (unary operators.isNot operators.not
    (operand (Precedence.parse operators operand fuel))) tight

abbrev ReadsPrimary (fuel : ℕ) : List Token → Expr → Prop :=
  Reads (primary (Precedence.parse operators operand fuel)) fun t => t = .dot

abbrev ReadsExpr (fuel : ℕ) : List Token → Expr → Prop :=
  Reads (Precedence.parse operators operand fuel) (operators.continues tight)

variable {fuel : ℕ} {t : Token} {l l' : List Token} {a b : Expr}

theorem readsUnary_primary (ht : t ≠ .kwNot) (hl : ReadsPrimary fuel (t :: l) b) :
    ReadsUnary fuel (t :: l) b :=
  reads_unary_operand (decide_eq_false ht) (reads_single hl)

theorem readsUnary_eq (ht : t ≠ .kwNot) (hl : ReadsPrimary fuel (t :: l) a)
    (hl' : ReadsPrimary fuel l' b) : ReadsUnary fuel (t :: l ++ .eq :: l') (.eq a b) :=
  reads_unary_operand (decide_eq_false ht) (reads_pair rfl rfl hl hl')

theorem ReadsUnary.not (hl : ReadsUnary fuel l a) : ReadsUnary fuel (.kwNot :: l) (.not a) :=
  reads_unary_not rfl hl

theorem ReadsUnary.expr (hl : ReadsUnary fuel l a) : ReadsExpr (fuel + 1) l a :=
  reads_expr hl

theorem ReadsUnary.and (hl : ReadsUnary fuel l a) (hl' : ReadsUnary fuel l' b) :
    ReadsExpr (fuel + 1) (l ++ .kwAnd :: l') (.and a b) :=
  reads_and rfl rfl hl hl'

theorem ReadsUnary.or (hl : ReadsUnary fuel l a) (hl' : ReadsUnary fuel l' b) :
    ReadsExpr (fuel + 1) (l ++ .kwOr :: l') (.or a b) :=
  reads_or rfl rfl rfl hl hl'

theorem ReadsExpr.paren (hl : ReadsExpr fuel l a) :
    ReadsUnary fuel (.lpar :: (l ++ [.rpar])) a :=
  readsUnary_primary (by decide) (reads_paren rfl hl)

theorem ReadsExpr.existsIn (hl : ReadsExpr fuel l a) (table : String) (name : Option String)
    (hl' : ReadsExpr fuel l' b) :
    ReadsUnary fuel (.kwExists :: .lpar :: .kwSelect :: (l ++
      .kwFrom :: .word table :: (nameTokens name ++ .kwWhere :: (l' ++ [.rpar]))))
      (.existsIn a table name b) :=
  readsUnary_primary (by decide) (reads_existsIn rfl rfl table name hl hl')

theorem ReadsUnary.parseAll (hl : ReadsUnary l.length l a) :
    Precedence.parseAll operators operand l = some a :=
  parseAll_eq (reads_expr hl)

/-! ## Evaluation -/

section

variable {tables : String → Option (List Row)} {scopes : List Scope} {a b : Expr} {x y : Bool}

@[simp] theorem truth_ofBool (x : Bool) : (Value.ofBool x).truth = some x := by
  cases x <;> rfl

theorem eval_eq {v w : Value} (ha : eval tables scopes a = some v)
    (hb : eval tables scopes b = some w) (hequal : v.equal w = some x) :
    eval tables scopes (.eq a b) = some (.ofBool x) := by
  simp [eval, ha, hb, hequal]

theorem eval_not (ha : eval tables scopes a = some (.ofBool x)) :
    eval tables scopes (.not a) = some (.ofBool !x) := by
  simp [eval, ha]

theorem eval_and (ha : eval tables scopes a = some (.ofBool x))
    (hb : eval tables scopes b = some (.ofBool y)) :
    eval tables scopes (.and a b) = some (.ofBool (x && y)) := by
  simp [eval, ha, hb]

theorem eval_or (ha : eval tables scopes a = some (.ofBool x))
    (hb : eval tables scopes b = some (.ofBool y)) :
    eval tables scopes (.or a b) = some (.ofBool (x || y)) := by
  simp [eval, ha, hb]

theorem mapM_map_eq_some {α β γ : Type*} {g : α → β} {f : β → Option γ} {h : α → γ} {l : List α}
    (hf : ∀ a ∈ l, f (g a) = some (h a)) : (l.map g).mapM f = some (l.map h) := by
  induction l with
  | nil => rfl
  | cons a l ih =>
      obtain ⟨ha, hl⟩ := List.forall_mem_cons.mp hf
      simp [ha, ih hl]

/-- A subquery finds a row exactly if its condition is true of one. -/
theorem eval_existsIn {α : Type*} {toRow : α → Row} {l : List α} {found : α → Bool}
    {table : String} {name : Option String} (result : Expr)
    (htable : tables table = some (l.map toRow))
    (hcond : ∀ r ∈ l, eval tables (⟨name.getD table, toRow r⟩ :: scopes) a =
      some (.ofBool (found r))) :
    eval tables scopes (.existsIn result table name a) = some (.ofBool (l.any found)) := by
  have hrows := mapM_map_eq_some (f := fun row =>
    (eval tables (⟨name.getD table, row⟩ :: scopes) a).bind Value.truth) fun r hr => by
      rw [hcond r hr, Option.bind_some, truth_ofBool]
  simp [eval, htable, hrows]

end

end Sql
