import Skuld.Coordination.Database
import Skuld.Lib.Sql

/-!
# The SQL of a filter

`to_sql_expr` prints a label expression as an SQL condition, with no escapes and
parentheses around AND and OR only.  The text reads back as one expression with
the shape of the label expression (`parse_toSqlExpr`): the names are words, so
that none of them ends its quote, and whatever stands under NOT, AND or OR has
parentheses around it or binds tighter.

In `Database` the condition is a tree from the start; `select_blockedQuery` says
that the text means that tree, and is refused exactly if the tree is too deep.
-/

namespace Skuld.SqlText

open BoolExpr

def toSqlExpr : LabelExpr → String
  | .terminal name =>
      "EXISTS (SELECT 1 FROM labels WHERE running_id = r.id AND label = '" ++ name ++ "')"
  | .const true => "1=1"
  | .const false => "1=0"
  | .not inner => "NOT (" ++ toSqlExpr inner ++ ")"
  | .and a b => "(" ++ toSqlExpr a ++ " AND " ++ toSqlExpr b ++ ")"
  | .or a b => "(" ++ toSqlExpr a ++ " OR " ++ toSqlExpr b ++ ")"

/-! The equations as `rfl`: to unfold the definition is to evaluate its literals. -/

section

variable (name : String) (e e' : LabelExpr)

theorem toSqlExpr_terminal : toSqlExpr (.terminal name) =
    "EXISTS (SELECT 1 FROM labels WHERE running_id = r.id AND label = '" ++ name ++ "')" := rfl

theorem toSqlExpr_not : toSqlExpr (.not e) = "NOT (" ++ toSqlExpr e ++ ")" := rfl

theorem toSqlExpr_and :
    toSqlExpr (.and e e') = "(" ++ toSqlExpr e ++ " AND " ++ toSqlExpr e' ++ ")" := rfl

theorem toSqlExpr_or :
    toSqlExpr (.or e e') = "(" ++ toSqlExpr e ++ " OR " ++ toSqlExpr e' ++ ")" := rfl

end

/-- The query of `can_start` for the candidate's own filter. -/
def blockedQuery (e : LabelExpr) : String :=
  "SELECT EXISTS (SELECT 1 FROM running r WHERE " ++ toSqlExpr e ++ ")"

theorem blockedQuery_eq (e : LabelExpr) : blockedQuery e =
    "SELECT EXISTS (SELECT 1 FROM running r WHERE " ++ toSqlExpr e ++ ")" := rfl

/-! ## The tables -/

def runningToRow (r : RunningRow) : Sql.Row
  | "id" => some (.int r.id)
  | "instance_id" => some (.text r.instanceId)
  | "name" => some (.text r.name)
  | "serial_filter" => some (.text r.serialFilter)
  | _ => none

def labelToRow (l : LabelRow) : Sql.Row
  | "running_id" => some (.int l.runningId)
  | "label" => some (.text l.label)
  | _ => none

def tables (running : List RunningRow) (labels : List LabelRow) : String → Option (List Sql.Row)
  | "running" => some (running.map runningToRow)
  | "labels" => some (labels.map labelToRow)
  | _ => none

/-- The labels that are stored for a row of `running`. -/
def storedLabels (labels : List LabelRow) (id : ℕ) : List String :=
  (labels.filter fun l => l.runningId = id).map LabelRow.label

/-! ## Lexing -/

/-- The tokens of the condition. -/
def exprTokens : LabelExpr → List Sql.Token
  | .terminal name =>
      [.kwExists, .lpar, .kwSelect, .number 1, .kwFrom, .word "labels", .kwWhere,
        .word "running_id", .eq, .word "r", .dot, .word "id", .kwAnd, .word "label", .eq,
        .text name.toList, .rpar]
  | .const true => [.number 1, .eq, .number 1]
  | .const false => [.number 1, .eq, .number 0]
  | .not inner => .kwNot :: .lpar :: (exprTokens inner ++ [.rpar])
  | .and a b => .lpar :: (exprTokens a ++ .kwAnd :: exprTokens b ++ [.rpar])
  | .or a b => .lpar :: (exprTokens a ++ .kwOr :: exprTokens b ++ [.rpar])

/-- What stands behind a condition inside a query. -/
inductive Delimiter : Char → List Sql.Token → Prop
  | blank : Delimiter ' ' []
  | rpar : Delimiter ')' [.rpar]

theorem Delimiter.lexes {d : Char} {out : List Sql.Token} (h : Delimiter d out) :
    Sql.Lexes .idle [d] out .idle := by
  cases h with
  | blank => rfl
  | rpar => rfl

theorem quote_notMem_of_isLabelName {name : String} (h : IsLabelName name) :
    '\'' ∉ name.toList := by
  obtain ⟨first, rest, hname, hfirst, hrest, -⟩ := isLabelName_iff.mp h
  rw [hname, List.mem_cons, not_or]
  constructor
  · rintro rfl
    exact absurd hfirst (by decide)
  · intro hmem
    exact absurd (List.all_eq_true.mp hrest _ hmem) (by decide)

/-- The condition is lexed up to the character behind it, which ends a number. -/
theorem lexes_expr {e : LabelExpr} (hnames : LabelNames e) {d : Char} {out : List Sql.Token}
    (hd : Delimiter d out) :
    Sql.Lexes .idle ((toSqlExpr e).toList ++ [d]) (exprTokens e ++ out) .idle := by
  induction e generalizing d out with
  | terminal name =>
      have hopen : Sql.Lexes .idle
          "EXISTS (SELECT 1 FROM labels WHERE running_id = r.id AND label = '".toList
          [.kwExists, .lpar, .kwSelect, .number 1, .kwFrom, .word "labels", .kwWhere,
            .word "running_id", .eq, .word "r", .dot, .word "id", .kwAnd, .word "label", .eq]
          (.text []) := by decide +kernel
      have hname := Sql.lexes_text
        (quote_notMem_of_isLabelName (hnames name (List.mem_singleton_self name))) []
      have hclose : Sql.Lexes (.text name.toList) "')".toList [.text name.toList, .rpar] .idle :=
        rfl
      have hall := ((hopen.append hname).append hclose).append hd.lexes
      simpa [toSqlExpr_terminal, exprTokens] using hall
  | const b =>
      cases hd with
      | blank => cases b <;> rfl
      | rpar => cases b <;> rfl
  | not inner ih =>
      have hopen : Sql.Lexes .idle "NOT (".toList [.kwNot, .lpar] .idle := by decide +kernel
      have hall := (hopen.append (ih hnames .rpar)).append hd.lexes
      simpa [toSqlExpr_not, exprTokens] using hall
  | and a b iha ihb =>
      obtain ⟨ha, hb⟩ := labelNames_and.mp hnames
      have hopen : Sql.Lexes .idle "(".toList [.lpar] .idle := rfl
      have hand : Sql.Lexes .idle "AND ".toList [.kwAnd] .idle := by decide +kernel
      have hall := (((hopen.append (iha ha .blank)).append hand).append (ihb hb .rpar)).append
        hd.lexes
      simpa [toSqlExpr_and, exprTokens] using hall
  | or a b iha ihb =>
      obtain ⟨ha, hb⟩ := labelNames_or.mp hnames
      have hopen : Sql.Lexes .idle "(".toList [.lpar] .idle := rfl
      have hor : Sql.Lexes .idle "OR ".toList [.kwOr] .idle := by decide +kernel
      have hall := (((hopen.append (iha ha .blank)).append hor).append (ihb hb .rpar)).append
        hd.lexes
      simpa [toSqlExpr_or, exprTokens] using hall

/-! ## Parsing -/

/-- The tree of the condition. -/
def condition : LabelExpr → Sql.Expr
  | .terminal name =>
      .existsIn (.number 1) "labels" none
        (.and (.eq (.column none "running_id") (.column (some "r") "id"))
          (.eq (.column none "label") (.text name)))
  | .const b => .eq (.number 1) (.number (if b then 1 else 0))
  | .not inner => .not (condition inner)
  | .and a b => .and (condition a) (condition b)
  | .or a b => .or (condition a) (condition b)

/-- How deep the parentheses are nested. -/
def nesting : LabelExpr → ℕ
  | .terminal _ => 1
  | .const _ => 0
  | .not inner => nesting inner + 1
  | .and a b => max (nesting a) (nesting b) + 1
  | .or a b => max (nesting a) (nesting b) + 1

theorem nesting_le_length (e : LabelExpr) : nesting e ≤ (exprTokens e).length := by
  induction e with
  | terminal name => simp [nesting, exprTokens]
  | const b => exact Nat.zero_le _
  | not inner ih =>
      simp only [nesting, exprTokens, List.length_cons, List.length_append]
      omega
  | and a b iha ihb =>
      simp only [nesting, exprTokens, List.length_cons, List.length_append]
      omega
  | or a b iha ihb =>
      simp only [nesting, exprTokens, List.length_cons, List.length_append]
      omega

theorem readsUnary_exprTokens {e : LabelExpr} {fuel : ℕ} (hfuel : nesting e ≤ fuel) :
    Sql.ReadsUnary fuel (exprTokens e) (condition e) := by
  induction e generalizing fuel with
  | terminal name =>
      obtain ⟨fuel, rfl⟩ := Nat.exists_eq_add_of_le' hfuel
      have hone : Sql.ReadsUnary fuel [.number 1] (.number 1) :=
        Sql.readsUnary_primary (by decide) (Sql.reads_number 1)
      have hid : Sql.ReadsUnary fuel _ _ := Sql.readsUnary_eq (by decide)
        (Sql.reads_column "running_id") (Sql.reads_qualified "r" "id")
      have hlabel : Sql.ReadsUnary fuel _ _ := Sql.readsUnary_eq (by decide)
        (Sql.reads_column "label") (Sql.reads_text name.toList)
      have := hone.expr.existsIn "labels" none (hid.and hlabel)
      rwa [String.ofList_toList] at this
  | const b =>
      cases b with
      | true => exact Sql.readsUnary_eq (by decide) (Sql.reads_number 1) (Sql.reads_number 1)
      | false => exact Sql.readsUnary_eq (by decide) (Sql.reads_number 1) (Sql.reads_number 0)
  | not inner ih =>
      obtain ⟨fuel, rfl⟩ := Nat.exists_eq_add_of_le' (Nat.one_le_of_lt hfuel)
      exact (ih (Nat.le_of_succ_le_succ hfuel)).expr.paren.not
  | and a b iha ihb =>
      obtain ⟨fuel, rfl⟩ := Nat.exists_eq_add_of_le' (Nat.one_le_of_lt hfuel)
      obtain ⟨ha, hb⟩ := max_le_iff.mp (Nat.le_of_succ_le_succ hfuel)
      exact ((iha ha).and (ihb hb)).paren
  | or a b iha ihb =>
      obtain ⟨fuel, rfl⟩ := Nat.exists_eq_add_of_le' (Nat.one_le_of_lt hfuel)
      obtain ⟨ha, hb⟩ := max_le_iff.mp (Nat.le_of_succ_le_succ hfuel)
      exact ((iha ha).or (ihb hb)).paren

theorem parse_toSqlExpr {e : LabelExpr} (hnames : LabelNames e) :
    Sql.parse (toSqlExpr e) = some (condition e) := by
  have hlex := lexes_expr hnames .blank
  rw [List.append_nil] at hlex
  rw [Sql.parse, Sql.lex_eq hlex, Option.bind_some]
  exact (readsUnary_exprTokens (nesting_le_length e)).parseAll

/-- The tree of the query of `can_start`. -/
def blockedTree (e : LabelExpr) : Sql.Expr :=
  .existsIn (.number 1) "running" (some "r") (condition e)

/-- The tokens of the query, behind its first word. -/
def blockedTokens (e : LabelExpr) : List Sql.Token :=
  .kwExists :: .lpar :: .kwSelect :: .number 1 :: .kwFrom :: .word "running" :: .word "r" ::
    .kwWhere :: (exprTokens e ++ [.rpar])

theorem lexes_blockedQuery {e : LabelExpr} (hnames : LabelNames e) :
    Sql.Lexes .idle ((blockedQuery e).toList ++ [' ']) (.kwSelect :: blockedTokens e) .idle := by
  have hopen : Sql.Lexes .idle "SELECT EXISTS (SELECT 1 FROM running r WHERE ".toList
      [.kwSelect, .kwExists, .lpar, .kwSelect, .number 1, .kwFrom, .word "running", .word "r",
        .kwWhere] .idle := by decide +kernel
  have hall := (hopen.append (lexes_expr hnames .rpar)).append Delimiter.blank.lexes
  rw [← List.append_assoc, List.append_nil] at hall
  have htext : (blockedQuery e).toList = "SELECT EXISTS (SELECT 1 FROM running r WHERE ".toList ++
      (toSqlExpr e).toList ++ [')'] := by
    simp only [blockedQuery_eq, String.toList_append]
    rfl
  rw [htext]
  exact hall

theorem readsUnary_blockedTokens {e : LabelExpr} {fuel : ℕ} (hfuel : nesting e < fuel) :
    Sql.ReadsUnary fuel (blockedTokens e) (blockedTree e) := by
  obtain ⟨fuel, rfl⟩ := Nat.exists_eq_add_of_le' (Nat.one_le_of_lt hfuel)
  have hone : Sql.ReadsUnary fuel [.number 1] (.number 1) :=
    Sql.readsUnary_primary (by decide) (Sql.reads_number 1)
  exact hone.expr.existsIn "running" (some "r")
    (readsUnary_exprTokens (Nat.le_of_lt_succ hfuel)).expr

theorem parseSelect_blockedQuery {e : LabelExpr} (hnames : LabelNames e) :
    Sql.parseSelect (blockedQuery e) = some (blockedTree e) := by
  have hlength : nesting e < (blockedTokens e).length := by
    have := nesting_le_length e
    simp only [blockedTokens, List.length_cons, List.length_append]
    omega
  rw [Sql.parseSelect, Sql.lex_eq (lexes_blockedQuery hnames)]
  exact (readsUnary_blockedTokens hlength).parseAll

/-! ## Evaluation -/

theorem eval_condition (running : List RunningRow) (labels : List LabelRow) (e : LabelExpr)
    (r : RunningRow) :
    Sql.eval (tables running labels) [⟨"r", runningToRow r⟩] (condition e) =
      some (.ofBool (e.eval fun t => (storedLabels labels r.id).contains t)) := by
  induction e with
  | terminal name =>
      have hfound : (storedLabels labels r.id).contains name =
          labels.any fun l => decide ((l.runningId : ℤ) = r.id) && decide (l.label = name) := by
        rw [Bool.eq_iff_iff]
        simp [storedLabels, and_assoc]
      rw [Expr.eval, hfound]
      apply Sql.eval_existsIn (.number 1) rfl
      intro l _
      exact Sql.eval_and (Sql.eval_eq rfl rfl rfl) (Sql.eval_eq rfl rfl rfl)
  | const b => cases b <;> rfl
  | not inner ih => exact Sql.eval_not ih
  | and a b iha ihb => exact Sql.eval_and iha ihb
  | or a b iha ihb => exact Sql.eval_or iha ihb

theorem eval_blockedTree (running : List RunningRow) (labels : List LabelRow) (e : LabelExpr) :
    Sql.eval (tables running labels) [] (blockedTree e) = some
      (.ofBool (running.any fun r => e.eval fun t => (storedLabels labels r.id).contains t)) := by
  apply Sql.eval_existsIn (.number 1) rfl
  intro r _
  exact eval_condition running labels e r

/-! ## Depth -/

theorem height_condition (e : LabelExpr) : (condition e).height = (Skuld.toSqlExpr e).height := by
  induction e with
  | terminal name => rfl
  | const b => cases b <;> rfl
  | not inner ih => exact congrArg (· + 1) ih
  | and a b iha ihb => simp only [condition, Sql.Expr.height, Skuld.toSqlExpr, SqlCond.height,
      iha, ihb]
  | or a b iha ihb => simp only [condition, Sql.Expr.height, Skuld.toSqlExpr, SqlCond.height,
      iha, ihb]

theorem overhang_condition (e : LabelExpr) :
    (condition e).overhang = (Skuld.toSqlExpr e).overhang := by
  induction e with
  | terminal name => rfl
  | const b => cases b <;> rfl
  | not inner ih => exact ih
  | and a b iha ihb => simp only [condition, Sql.Expr.overhang, Skuld.toSqlExpr,
      SqlCond.overhang, iha, ihb]
  | or a b iha ihb => simp only [condition, Sql.Expr.overhang, Skuld.toSqlExpr,
      SqlCond.overhang, iha, ihb]

theorem one_le_height (c : SqlCond) : 1 ≤ c.height := by
  cases c with
  | existsLabel name => exact Nat.one_le_of_lt (Nat.lt_succ_self 4)
  | oneEqOne | oneEqZero => exact Nat.one_le_of_lt (Nat.lt_succ_self 1)
  | not inner => exact Nat.succ_le_succ (Nat.zero_le _)
  | and a b | or a b => exact Nat.succ_le_succ (Nat.zero_le _)

theorem depth_blockedTree (e : LabelExpr) :
    (blockedTree e).depth = (Skuld.toSqlExpr e).queryDepth := by
  have hheight := one_le_height (Skuld.toSqlExpr e)
  simp only [Sql.Expr.depth, blockedTree, Sql.Expr.height, Sql.Expr.overhang, height_condition,
    overhang_condition, SqlCond.queryDepth]
  omega

/-- SQLite runs a query without a table on the tables. -/
def select (db : Db) (text : String) : Option Bool := do
  let tree ← Sql.prepare text
  let value ← Sql.eval (tables db.running db.labels) [] tree
  value.truth

/-- The text of the query decides what `canStart` asks. -/
theorem select_blockedQuery (db : Db) {e : LabelExpr} (hnames : LabelNames e) :
    select db (blockedQuery e) =
      if Sql.maxExprDepth < (Skuld.toSqlExpr e).queryDepth then none
      else some (db.running.any fun r => (Skuld.toSqlExpr e).holds db.labels r.id) := by
  have heval : Sql.eval (tables db.running db.labels) [] (blockedTree e) =
      some (.ofBool (db.running.any fun r => (Skuld.toSqlExpr e).holds db.labels r.id)) := by
    rw [eval_blockedTree]
    simp only [holds_toSqlExpr]
    rfl
  rw [select, Sql.prepare, parseSelect_blockedQuery hnames]
  by_cases hdeep : Sql.maxExprDepth < (Skuld.toSqlExpr e).queryDepth
  · have hrefused : ¬ (blockedTree e).depth ≤ Sql.maxExprDepth := by
      rw [depth_blockedTree]
      omega
    rw [if_pos hdeep, Option.filter_some, decide_eq_false hrefused]
    rfl
  · have hprepared : (blockedTree e).depth ≤ Sql.maxExprDepth := by
      rw [depth_blockedTree]
      omega
    rw [if_neg hdeep, Option.filter_some, decide_eq_true hprepared, if_pos rfl]
    simp only [Option.bind_eq_bind, Option.bind_some, heval, Sql.truth_ofBool]

/-! ## Main theorem -/

/-- The text of a filter is one condition of its shape, true of a row exactly if the
labels that are stored for the row satisfy the filter; the query of `can_start` asks
whether there is such a row. -/
theorem toSqlExpr_means_expr (e : LabelExpr) (hnames : LabelNames e) :
    Sql.parse (toSqlExpr e) = some (condition e) ∧
    Sql.parseSelect (blockedQuery e) = some (blockedTree e) ∧
    ∀ (running : List RunningRow) (labels : List LabelRow),
      (∀ r : RunningRow,
        Sql.eval (tables running labels) [⟨"r", runningToRow r⟩] (condition e) =
          some (.ofBool (e.eval fun t => (storedLabels labels r.id).contains t))) ∧
      Sql.eval (tables running labels) [] (blockedTree e) = some
        (.ofBool (running.any fun r => e.eval fun t => (storedLabels labels r.id).contains t)) :=
  ⟨parse_toSqlExpr hnames, parseSelect_blockedQuery hnames, fun running labels =>
    ⟨eval_condition running labels e, eval_blockedTree running labels e⟩⟩

theorem toSqlExpr_means_expr_negation :
    Sql.parse (toSqlExpr (.not (.or (.terminal "docker") (.const false)))) =
      some (condition (.not (.or (.terminal "docker") (.const false)))) := by
  have hname : IsLabelName "docker" := by
    rw [isLabelName_iff]
    exact ⟨'d', "ocker".toList, by decide, by decide, by decide, by decide, by decide⟩
  exact (toSqlExpr_means_expr (.not (.or (.terminal "docker") (.const false)))
    (by simpa [LabelNames, Expr.terminals] using hname)).1

end Skuld.SqlText
