import Skuld.Lib.Peg
import Skuld.Label.Basic

/-!
# The filter grammar and its reader

`label.pest` as a grammar of `Peg`, rule by rule as the file writes it; pest
puts `WHITESPACE` between the elements of every rule that is not atomic, which
`Exp.spaced` does.  `buildExpr` folds the parse tree into a label expression,
and `parseRawLabelExpr` is the two in a row.

The interpreter's fuel is no restriction: `labelCertificate` bounds it for every
input, so a failed parse is pest's own rejection (`parseRawLabelExpr_eq_ok_iff`).
-/

namespace Skuld

open BoolExpr Peg

/-- The rules of `label.pest`, and pest's own `EOI`. -/
inductive Rule where
  | whitespace
  | label
  | boolLit
  | input
  | expr
  | orExpr
  | andExpr
  | notExpr
  | neg
  | primary
  | eoi
  deriving DecidableEq

namespace Rule

/-- `_{ }` is silent, `@{ }` atomic. -/
def kind : Rule → Kind
  | whitespace => .silent
  | label => .atomic
  | boolLit => .atomic
  | _ => .normal

/-- The bodies as the grammar file has them.  `SOI` matches the empty text at
the start of the input, the only place where `input` is tried. -/
def written : Rule → Exp Rule
  | whitespace => .alt (.lit [' ']) (.alt (.lit ['\t']) (.lit ['\r']))
  | label => .seq (.char isWordStart) (.star (.char isWordChar))
  | boolLit => .seq (.alt (.insens ['t', 'r', 'u', 'e']) (.insens ['f', 'a', 'l', 's', 'e']))
      (.not (.char isWordChar))
  | input => .seq .empty (.seq (.rule expr) (.rule eoi))
  | expr => .rule orExpr
  | orExpr => .seq (.rule andExpr) (.star (.seq (.lit ['|']) (.rule andExpr)))
  | andExpr => .seq (.rule notExpr) (.star (.seq (.lit ['&']) (.rule notExpr)))
  | notExpr => .alt (.rule neg) (.rule primary)
  | neg => .seq (.lit ['!']) (.rule notExpr)
  | primary => .alt (.seq (.lit ['(']) (.seq (.rule expr) (.lit [')'])))
      (.alt (.rule boolLit) (.rule label))
  | eoi => .eoi

end Rule

def labelGrammar : Grammar Rule where
  kind := Rule.kind
  body n :=
    match n.kind with
    | .normal => n.written.spaced .whitespace
    | _ => n.written

def labelCertificate : Certificate labelGrammar where
  nonempty n := n != .eoi
  rank
    | .input => 6
    | .expr => 5
    | .orExpr => 4
    | .andExpr => 3
    | .notExpr => 2
    | .primary => 1
    | _ => 0
  top := 7
  width := 30
  rank_lt n := by cases n <;> decide
  consumes n := by cases n <;> decide
  guarded n := by cases n <;> decide
  size_le n := by cases n <;> decide

/-! ## From the parse tree to the expression -/

/-- `pest` stands for the message `invalid label expression: ..` with pest's own
report in it, `unexpectedRule` for `unexpected rule: ..`, `unwrapNone` for the
panic of an `unwrap` or `expect`. -/
inductive ParseError where
  | pest
  | unexpectedRule (rule : Rule)
  | unwrapNone
  deriving DecidableEq

/-- Rust's `to_ascii_lowercase`. -/
def toAsciiLowercase (text : List Char) : List Char :=
  text.map Char.toLower

/-- Rust's `eq_ignore_ascii_case`. -/
def eqIgnoreAsciiCase (a b : List Char) : Bool :=
  toAsciiLowercase a == toAsciiLowercase b

mutual

def buildExpr : Pair Rule → Except ParseError LabelExpr
  | .node rule text inner =>
      match rule with
      | .expr => buildNext inner
      | .orExpr => buildChain .or inner
      | .andExpr => buildChain .and inner
      | .notExpr => buildNext inner
      | .neg => do
          let e ← buildNext inner
          return .not e
      | .primary => buildNext inner
      | .boolLit => .ok (.const (eqIgnoreAsciiCase text ['t', 'r', 'u', 'e']))
      | .label => .ok (.terminal (String.ofList (toAsciiLowercase text)))
      | rule => .error (.unexpectedRule rule)

/-- `build_expr(pair.into_inner().next().unwrap())`. -/
def buildNext : List (Pair Rule) → Except ParseError LabelExpr
  | [] => .error .unwrapNone
  | pair :: _ => buildExpr pair

/-- The first inner node, then the loop over the others. -/
def buildChain (op : LabelExpr → LabelExpr → LabelExpr) :
    List (Pair Rule) → Except ParseError LabelExpr
  | [] => .error .unwrapNone
  | pair :: rest => do
      let left ← buildExpr pair
      buildLoop op left rest

/-- `for right_pair in inner { left = op(left, build_expr(right_pair)?) }`. -/
def buildLoop (op : LabelExpr → LabelExpr → LabelExpr) (left : LabelExpr) :
    List (Pair Rule) → Except ParseError LabelExpr
  | [] => .ok left
  | pair :: rest => do
      let right ← buildExpr pair
      buildLoop op (op left right) rest

end

/-- `input_pair.into_inner().find(|p| p.as_rule() == Rule::expr)`. -/
def findExpr : List (Pair Rule) → Option (Pair Rule)
  | [] => none
  | .node rule text inner :: rest =>
      if rule = .expr then some (.node rule text inner) else findExpr rest

def parseRawLabelExpr (input : String) : Except ParseError LabelExpr :=
  let s := input.toList
  match run labelGrammar (labelCertificate.fuel s.length) (.rule .input) s with
  | some (.ok (.node _ _ inner :: _) _) =>
      match findExpr inner with
      | some pair => buildExpr pair
      | none => .error .unwrapNone
  | some (.ok [] _) => .error .unwrapNone
  | _ => .error .pest

example : parseRawLabelExpr "A | !true_ & (b)" =
    .ok (.or (.terminal "a") (.and (.not (.terminal "true_")) (.terminal "b"))) := by
  decide +kernel

end Skuld
