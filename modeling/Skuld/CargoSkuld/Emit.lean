import Skuld.CargoSkuld.Groups
import Skuld.Lib.Precedence
import Skuld.Lib.Transducer

/-!
# Nextest filters

`filter_for_group` writes the members of a group as a filter for nextest.  The
reader of such filters follows nextest's syntax: `binary_id(=text)` and
`test(=text)`, where the text runs to the first `)` or `,` that is not escaped,
joined by `and`, `or`, `not` and parentheses.

The lexer keeps a text apart from everything around it, and an escaped name
leaves it inside the text (`runs_escape`), so that the reader finds one clause
for each name that was written (`read_filterForGroup`).
-/

namespace Skuld

open BoolExpr

/-! ## The writer -/

def escapeChar : Char → List Char
  | '\n' => ['\\', 'n']
  | '\r' => ['\\', 'r']
  | '\t' => ['\\', 't']
  | '\\' => ['\\', '\\']
  | '/' => ['\\', '/']
  | ')' => ['\\', ')']
  | ',' => ['\\', ',']
  | other => [other]

def escapeNextestName (name : String) : String :=
  String.ofList (name.toList.flatMap escapeChar)

def memberFilter (member : TestKey) : String :=
  "(binary_id(=" ++ escapeNextestName (ofLex member).1 ++ ") and test(=" ++
    escapeNextestName (ofLex member).2 ++ "))"

def filterForGroup (group : TestGroup) : String :=
  " or ".intercalate (group.members.map memberFilter)

/-! ## The reader -/

namespace Filterset

inductive Matcher where
  | binaryId
  | test
  deriving DecidableEq

/-- `binary_id(=text)` or `test(=text)`. -/
structure Clause where
  matcher : Matcher
  text : List Char
  deriving DecidableEq

inductive Token where
  | lpar
  | rpar
  | or
  | and
  | not
  | clause (c : Clause)
  deriving DecidableEq

/-- What is under way.  Behind the name of a matcher and `(` there has to be a
`=`, and then the text begins. -/
inductive LexState where
  | idle
  | word (w : List Char)
  | opened (m : Matcher)
  | text (m : Matcher) (t : List Char)
  | escape (m : Matcher) (t : List Char)
  deriving DecidableEq

def matcherOfWord (w : List Char) : Option Matcher :=
  if w = "binary_id".toList then some .binaryId
  else if w = "test".toList then some .test
  else none

def tokenOfWord (w : List Char) : Option Token :=
  if w = "or".toList then some .or
  else if w = "and".toList then some .and
  else if w = "not".toList then some .not
  else none

def unescape : Char → Option Char
  | 'n' => some '\n'
  | 'r' => some '\r'
  | 't' => some '\t'
  | '\\' => some '\\'
  | '/' => some '/'
  | ')' => some ')'
  | ',' => some ','
  | _ => none

def startToken (c : Char) : Option (LexState × List Token) :=
  if c = '(' then some (.idle, [.lpar])
  else if c = ')' then some (.idle, [.rpar])
  else if c.isWhitespace then some (.idle, [])
  else if isWordStart c then some (.word [c], [])
  else none

def lexStep : LexState → Char → Option (LexState × List Token)
  | .idle, c => startToken c
  | .word w, c =>
      if isWordChar c then some (.word (w ++ [c]), [])
      else
        match matcherOfWord w with
        | some m => if c = '(' then some (.opened m, []) else none
        | none => do
            let t ← tokenOfWord w
            let r ← startToken c
            some (r.1, t :: r.2)
  | .opened m, c => if c = '=' then some (.text m [], []) else none
  | .text m t, c =>
      if c = ')' then some (.idle, [.clause ⟨m, t⟩])
      else if c = ',' then none
      else if c = '\\' then some (.escape m t, [])
      else some (.text m (t ++ [c]), [])
  | .escape m t, c => (unescape c).map fun d => (.text m (t ++ [d]), [])

/-- A blank at the end completes a word that is under way. -/
def lex (s : List Char) : Option (List Token) :=
  match Transducer.run lexStep .idle (s ++ [' ']) with
  | some (.idle, ts) => some ts
  | _ => none

def operators : Precedence.Syntax Token (Expr Clause) where
  isOr t := t = .or
  isAnd t := t = .and
  isNot t := t = .not
  or := .or
  and := .and
  not := .not

def operand (rec : Precedence.Parser Token (Expr Clause)) : Precedence.Parser Token (Expr Clause)
  | .lpar :: ts => Precedence.closed (· = .rpar) rec ts
  | .clause c :: ts => some (.terminal c, ts)
  | _ => none

def read (s : String) : Option (Expr Clause) :=
  (lex s.toList).bind (Precedence.parseAll operators operand)

/-- Whether the clause selects the test. -/
def Clause.selects (c : Clause) (test : TestKey) : Bool :=
  match c.matcher with
  | .binaryId => c.text = (ofLex test).1.toList
  | .test => c.text = (ofLex test).2.toList

example : read "(binary_id(=a\\)b) and test(=or)) or test(= x\\\\)" =
    some (.or (.and (.terminal ⟨.binaryId, "a)b".toList⟩) (.terminal ⟨.test, "or".toList⟩))
      (.terminal ⟨.test, " x\\".toList⟩)) := by decide +kernel

/-! ## Lexing -/

abbrev Lexes := Transducer.Runs lexStep

/-- An escaped name leaves the lexer in the text, which the name is added to. -/
theorem runs_escape (m : Matcher) (t name : List Char) :
    Lexes (.text m t) (name.flatMap escapeChar) [] (.text m (t ++ name)) := by
  induction name generalizing t with
  | nil => simpa using Transducer.Runs.nil (LexState.text m t)
  | cons c name ih =>
      have hc : Lexes (.text m t) (escapeChar c) [] (.text m (t ++ [c])) := by
        unfold escapeChar
        split
        case h_8 hn hr ht hbackslash hslash hparen hcomma =>
          have hstep : lexStep (.text m t) c = some (.text m (t ++ [c]), []) := by
            rw [lexStep, if_neg hparen, if_neg hcomma, if_neg hbackslash]
          exact Transducer.Runs.single hstep
        all_goals rfl
      rw [List.flatMap_cons]
      have := hc.append (ih (t ++ [c]))
      rwa [List.append_assoc, List.singleton_append] at this

/-- The tokens of one member. -/
def memberTokens (member : TestKey) : List Token :=
  [.lpar, .clause ⟨.binaryId, (ofLex member).1.toList⟩, .and,
    .clause ⟨.test, (ofLex member).2.toList⟩, .rpar]

theorem toList_memberFilter (member : TestKey) : (memberFilter member).toList =
    "(binary_id(=".toList ++ (ofLex member).1.toList.flatMap escapeChar ++
      ") and test(=".toList ++ (ofLex member).2.toList.flatMap escapeChar ++ "))".toList := by
  have hfilter : memberFilter member = "(binary_id(=" ++ escapeNextestName (ofLex member).1 ++
    ") and test(=" ++ escapeNextestName (ofLex member).2 ++ "))" := rfl
  rw [hfilter]
  simp only [String.toList_append, escapeNextestName, String.toList_ofList]

theorem lexes_member (member : TestKey) :
    Lexes .idle (memberFilter member).toList (memberTokens member) .idle := by
  have hopen : Lexes .idle "(binary_id(=".toList [.lpar] (.text .binaryId []) := by decide +kernel
  have hand : Lexes .idle " and test(=".toList [.and] (.text .test []) := by decide +kernel
  have hclose : ∀ m t, Lexes (.text m t) [')'] [.clause ⟨m, t⟩] .idle := by
    intro m t
    rfl
  have hrpar : Lexes .idle [')'] [.rpar] .idle := rfl
  have hall := ((((hopen.append (runs_escape .binaryId [] (ofLex member).1.toList)).append
    (hclose _ _)).append hand).append (runs_escape .test [] (ofLex member).2.toList)).append
      ((hclose _ _).append hrpar)
  rw [toList_memberFilter]
  simpa [memberTokens] using hall

theorem toList_intercalate_cons (sep s : String) (l : List String) :
    (sep.intercalate (s :: l)).toList = s.toList ++ l.flatMap fun t => sep.toList ++ t.toList := by
  induction l generalizing s with
  | nil => simp
  | cons t l ih => simp [ih]

theorem lexes_members (member : TestKey) (members : List TestKey) :
    Lexes .idle ((memberFilter member).toList ++
        members.flatMap fun m => " or ".toList ++ (memberFilter m).toList)
      (memberTokens member ++ members.flatMap fun m => .or :: memberTokens m) .idle := by
  apply (lexes_member member).append
  induction members with
  | nil => exact Transducer.Runs.nil _
  | cons m members ih =>
      have hor : Lexes .idle " or ".toList [.or] .idle := by decide +kernel
      rw [List.flatMap_cons, List.flatMap_cons]
      exact (hor.append (lexes_member m)).append ih

theorem lex_filterForGroup {group : TestGroup} {member : TestKey} {members : List TestKey}
    (h : group.members = member :: members) : lex (filterForGroup group).toList =
      some (memberTokens member ++ members.flatMap fun m => .or :: memberTokens m) := by
  have hblank : Lexes .idle [' '] [] .idle := rfl
  have hall := (lexes_members member members).append hblank
  have htext : (filterForGroup group).toList = (memberFilter member).toList ++
      members.flatMap fun m => " or ".toList ++ (memberFilter m).toList := by
    rw [filterForGroup, h, List.map_cons, toList_intercalate_cons, List.flatMap_map]
  rw [List.append_nil, ← htext] at hall
  rw [lex, hall]

/-! ## Parsing -/

/-- What one member is read as. -/
def memberExpr (member : TestKey) : Expr Clause :=
  .and (.terminal ⟨.binaryId, (ofLex member).1.toList⟩)
    (.terminal ⟨.test, (ofLex member).2.toList⟩)

/-- The disjunction over the members, in order. -/
def disjunction : (members : List TestKey) → members ≠ [] → Expr Clause
  | member :: members, _ => (members.map memberExpr).foldl .or (memberExpr member)

/-- Nothing continues an operand. -/
abbrev noToken (_ : Token) : Bool := false

theorem reads_clause {rec : Precedence.Parser Token (Expr Clause)} (c : Clause) :
    Precedence.Reads (Precedence.unary operators.isNot operators.not (operand rec)) noToken
      [.clause c] (.terminal c) := by
  apply Precedence.reads_unary_operand rfl
  intro rest _
  rfl

theorem reads_member {fuel : ℕ} (hfuel : 0 < fuel) (member : TestKey) :
    Precedence.Reads (Precedence.unary operators.isNot operators.not
      (operand (Precedence.parse operators operand fuel))) noToken
      (memberTokens member) (memberExpr member) := by
  obtain ⟨fuel, rfl⟩ := Nat.exists_eq_add_one_of_ne_zero (Nat.ne_of_gt hfuel)
  apply Precedence.reads_unary_operand rfl
  intro rest _
  have hop : operators.isAnd .and = true := rfl
  have hand : Precedence.Reads (Precedence.parse operators operand (fuel + 1)) _ _ _ :=
    Precedence.reads_and hop rfl (reads_clause ⟨.binaryId, (ofLex member).1.toList⟩)
      (reads_clause ⟨.test, (ofLex member).2.toList⟩)
  have hclosed : Precedence.closed (fun t : Token => t = .rpar) _ (_ ++ .rpar :: rest) =
    some (memberExpr member, rest) := Precedence.closed_eq rfl rfl hand rest
  exact hclosed

theorem parseAll_members (member : TestKey) (members : List TestKey) :
    Precedence.parseAll operators operand
        (memberTokens member ++ members.flatMap fun m => .or :: memberTokens m) =
      some ((members.map memberExpr).foldl .or (memberExpr member)) := by
  set l := memberTokens member ++ members.flatMap fun m => .or :: memberTokens m with hl
  have hlength : 0 < l.length := by
    rw [hl, List.length_append]
    exact Nat.add_pos_left (Nat.zero_lt_succ _) _
  have hoperands : ∀ o ∈ members.map (fun m => (memberTokens m, memberExpr m)),
      Precedence.Reads (Precedence.unary operators.isNot operators.not
        (operand (Precedence.parse operators operand l.length))) noToken o.1 o.2 := by
    intro o ho
    obtain ⟨m, -, rfl⟩ := List.mem_map.mp ho
    exact reads_member hlength m
  have hop : operators.isOr .or = true := rfl
  have hchain := Precedence.reads_or_chain hop rfl rfl (reads_member hlength member) hoperands
  rw [List.flatMap_map, List.map_map, ← hl] at hchain
  exact Precedence.parseAll_eq hchain

/-! ## Meaning -/

theorem eval_memberExpr (member test : TestKey) :
    (memberExpr member).eval (fun c => c.selects test) = decide (test ∈ [member]) := by
  have hiff : test = member ↔
      (ofLex member).1 = (ofLex test).1 ∧ (ofLex member).2 = (ofLex test).2 := by
    rw [← Prod.ext_iff, ofLex_inj]
    exact eq_comm
  rw [Bool.eq_iff_iff]
  simp [memberExpr, Expr.eval, Clause.selects, hiff, String.toList_inj]

theorem eval_foldl_or {T : Type*} (ρ : T → Bool) (es : List (Expr T)) (e : Expr T) :
    (es.foldl .or e).eval ρ = (e.eval ρ || es.any (Expr.eval ρ)) := by
  induction es generalizing e with
  | nil => simp
  | cons e' es ih => rw [List.foldl_cons, ih, Expr.eval, List.any_cons, Bool.or_assoc]

theorem eval_disjunction {members : List TestKey} (hne : members ≠ []) (test : TestKey) :
    (disjunction members hne).eval (fun c => c.selects test) = decide (test ∈ members) := by
  cases members with
  | nil => exact absurd rfl hne
  | cons member members =>
      have hany : (members.map memberExpr).any (Expr.eval fun c => c.selects test) =
          decide (test ∈ members) := by
        rw [List.any_map, Bool.eq_iff_iff]
        simp [Function.comp_def, eval_memberExpr]
      rw [disjunction, eval_foldl_or, eval_memberExpr, hany]
      simp

/-! ## What a filter selects -/

theorem escapeNextestName_injective : Function.Injective escapeNextestName := by
  intro name name' h
  have hescaped : name.toList.flatMap escapeChar = name'.toList.flatMap escapeChar :=
    String.ofList_injective h
  have hname := runs_escape .test [] name.toList
  have hname' := runs_escape .test [] name'.toList
  rw [hescaped] at hname
  have := Option.some_inj.mp (hname.symm.trans hname')
  rw [← String.toList_inj]
  simpa using this

/-- The filter of a group reads as one clause for each binary id and one for each
name, in the order of the members, and selects the members. -/
theorem read_filterForGroup :
    Function.Injective escapeNextestName ∧
      ∀ (group : TestGroup) (hne : group.members ≠ []),
        read (filterForGroup group) = some (disjunction group.members hne) ∧
        ∀ test : TestKey, (disjunction group.members hne).eval (fun c => c.selects test) =
          decide (test ∈ group.members) := by
  refine ⟨escapeNextestName_injective, fun group hne => ⟨?_, eval_disjunction hne⟩⟩
  obtain ⟨name, members⟩ := group
  cases members with
  | nil => exact absurd rfl hne
  | cons member members =>
      rw [read, lex_filterForGroup rfl, Option.bind_some]
      exact parseAll_members member members

/-- Names that try to end their clause. -/
def trickyMembers : List TestKey :=
  [toLex ("a)", ") or test(=x"), toLex ("", "\\")]

theorem read_filterForGroup_tricky :
    read (filterForGroup ⟨"group", trickyMembers⟩) =
      some (disjunction trickyMembers (List.cons_ne_nil _ _)) :=
  (read_filterForGroup.2 ⟨"group", trickyMembers⟩ (List.cons_ne_nil _ _)).1

end Filterset

end Skuld
