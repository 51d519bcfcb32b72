import Skuld.Label.Language

/-!
# Printing

`fmtExpr` prints an expression with the parentheses that precedence requires,
and with none inside a chain of one operator, however the chain is nested.  The
round trip goes through the tokens: `reads_fmtExpr` says which tokens the text
consists of, `derives_fmtTokens` that they are a phrase, and the expression that
the phrase stands for is the printed one up to the association of chains.
-/

namespace Skuld

open BoolExpr

/-- Precedence of the outermost operator. -/
def myPrec : LabelExpr → ℕ
  | .or _ _ => 0
  | .and _ _ => 1
  | .not _ | .terminal _ | .const _ => 2

def withParens (needsParens : Bool) (text : String) : String :=
  if needsParens then "(" ++ text ++ ")" else text

def fmtExpr (expr : LabelExpr) (minPrec : ℕ) : String :=
  withParens (myPrec expr < minPrec) <|
    match expr with
    | .terminal name => name
    | .const true => "true"
    | .const false => "false"
    | .not inner => "!" ++ fmtExpr inner 2
    | .and a b => fmtExpr a 1 ++ " & " ++ fmtExpr b 1
    | .or a b => fmtExpr a 0 ++ " | " ++ fmtExpr b 0

def formatExpr (expr : LabelExpr) : String :=
  fmtExpr expr 0

example : formatExpr (.and (.terminal "a") (.and (.or (.terminal "b") (.const true))
    (.not (.terminal "c")))) = "a & (b | true) & !c" := by
  decide

/-! ## The tokens of the printed text -/

def parenTokens (needsParens : Bool) (ts : List Token) : List Token :=
  if needsParens then .lpar :: ts ++ [.rpar] else ts

def fmtTokens (expr : LabelExpr) (minPrec : ℕ) : List Token :=
  parenTokens (myPrec expr < minPrec) <|
    match expr with
    | .terminal name => [.name name.toList]
    | .const b => [.bool b]
    | .not inner => .bang :: fmtTokens inner 2
    | .and a b => fmtTokens a 1 ++ .amp :: fmtTokens b 1
    | .or a b => fmtTokens a 0 ++ .bar :: fmtTokens b 0

variable {s rest : List Char}

/-- A whole word before a text that does not continue it. -/
theorem reads_word {c : Char} {word : List Char} (hstart : isWordStart c = true)
    (hword : ∀ d ∈ word, isWordChar d = true) (hs : s.head?.any isWordChar = false) :
    Reads (c :: word ++ s) [wordToken (c :: word)] s := by
  obtain ⟨htake, hdrop⟩ := takeWhile_append_stop hs word
  have := Reads.word hstart (word ++ s)
  rwa [htake, hdrop, List.takeWhile_eq_self_iff.mpr hword, List.dropWhile_eq_nil_iff.mpr hword,
    List.nil_append] at this

theorem lower_eq_self {word : List Char} (h : word.all (fun b => !b.isUpper) = true) :
    lower word = word := by
  induction word with
  | nil => rfl
  | cons c word ih =>
      rw [List.all_cons, Bool.and_eq_true] at h
      rw [lower, List.map_cons, Char.toLower_eq_of_not_isUpper (by simpa using h.1), ← lower,
        ih h.2]

theorem wordToken_eq_name {word : List Char}
    (h : String.ofList (lower word) ∉ reservedLabelNames) : wordToken word = .name word := by
  rw [wordToken, if_neg, if_neg]
  · exact fun hfalse => h (hfalse ▸ by decide)
  · exact fun htrue => h (htrue ▸ by decide)

theorem wordToken_of_isLabelName {name : String} (h : IsLabelName name) :
    lower name.toList = name.toList ∧ wordToken name.toList = .name name.toList := by
  obtain ⟨first, rest, hname, -, -, hreserved, hlower⟩ := isLabelName_iff.mp h
  have hself : lower name.toList = name.toList := lower_eq_self (hname ▸ hlower)
  refine ⟨hself, wordToken_eq_name ?_⟩
  rwa [hself, String.ofList_toList]

theorem reads_name {name : String} (h : IsLabelName name) (hs : s.head?.any isWordChar = false) :
    Reads (name.toList ++ s) [.name name.toList] s := by
  have htoken := (wordToken_of_isLabelName h).2
  obtain ⟨first, rest, hname, hfirst, hrest, -, -⟩ := isLabelName_iff.mp h
  rw [hname] at htoken ⊢
  rw [← htoken]
  exact reads_word hfirst (List.all_eq_true.mp hrest) hs

theorem reads_const (b : Bool) (hs : s.head?.any isWordChar = false) :
    Reads ((if b then "true" else "false").toList ++ s) [.bool b] s := by
  cases b with
  | true => exact reads_word (c := 't') rfl (List.all_eq_true.mp rfl) hs
  | false => exact reads_word (c := 'f') rfl (List.all_eq_true.mp rfl) hs

theorem reads_withParens {needsParens : Bool} {text : String} {ts : List Token}
    (h : ∀ s : List Char, s.head?.any isWordChar = false → Reads (text.toList ++ s) ts s)
    (hs : s.head?.any isWordChar = false) :
    Reads ((withParens needsParens text).toList ++ s) (parenTokens needsParens ts) s := by
  cases needsParens with
  | false => exact h s hs
  | true =>
      simpa [withParens, parenTokens, String.toList_append] using (h (')' :: s) rfl).paren

/-- Two operands with ` op ` between them. -/
theorem reads_binary {left right op : String} {c : Char} {t : Token} {ts us : List Token}
    (hop : op.toList = [' ', c, ' ']) (hsymbol : symbol c = some t)
    (hleft : ∀ s : List Char, s.head?.any isWordChar = false → Reads (left.toList ++ s) ts s)
    (hright : Reads (right.toList ++ s) us s) :
    Reads ((left ++ op ++ right).toList ++ s) (ts ++ t :: us) s := by
  have hmiddle : Reads (' ' :: c :: ' ' :: (right.toList ++ s)) (t :: us) s :=
    (Reads.blank rfl _).trans ((Reads.symbol hsymbol _).trans ((Reads.blank rfl _).trans hright))
  have := (hleft (' ' :: c :: ' ' :: (right.toList ++ s)) rfl).trans hmiddle
  simpa [String.toList_append, hop] using this

/-- The printed text consists of the tokens, whatever follows it. -/
theorem reads_fmtExpr {e : LabelExpr} (hnames : LabelNames e) (minPrec : ℕ) (s : List Char)
    (hs : s.head?.any isWordChar = false) :
    Reads ((fmtExpr e minPrec).toList ++ s) (fmtTokens e minPrec) s := by
  induction e generalizing minPrec s with
  | terminal name =>
      rw [fmtExpr, fmtTokens]
      exact reads_withParens (fun s hs => reads_name (hnames name (by simp [Expr.terminals])) hs) hs
  | const b =>
      cases b <;> rw [fmtExpr, fmtTokens]
      exacts [reads_withParens (fun s hs => reads_const false hs) hs,
        reads_withParens (fun s hs => reads_const true hs) hs]
  | not inner ih =>
      rw [fmtExpr, fmtTokens]
      refine reads_withParens (fun s hs => ?_) hs
      have := (Reads.symbol (c := '!') rfl _).trans (ih hnames 2 s hs)
      simpa [String.toList_append] using this
  | and a b iha ihb =>
      rw [fmtExpr, fmtTokens]
      obtain ⟨ha, hb⟩ := labelNames_and.mp hnames
      exact reads_withParens
        (fun s hs => reads_binary rfl rfl (fun s hs => iha ha 1 s hs) (ihb hb 1 s hs)) hs
  | or a b iha ihb =>
      rw [fmtExpr, fmtTokens]
      obtain ⟨ha, hb⟩ := labelNames_or.mp hnames
      exact reads_withParens
        (fun s hs => reads_binary rfl rfl (fun s hs => iha ha 0 s hs) (ihb hb 0 s hs)) hs

/-! ## The phrase -/

/-- The nonterminal whose phrases need no parentheses at a precedence. -/
def levelOf : ℕ → Level
  | 0 => .expr
  | 1 => .term
  | _ => .factor

/-- A phrase is a phrase of every level at which it needs no parentheses. -/
theorem derives_parenTokens {prec minPrec : ℕ} {ts : List Token} {e : LabelExpr} (hprec : prec ≤ 2)
    (hminPrec : minPrec ≤ 2) (h : Derives (levelOf prec) ts e) :
    Derives (levelOf minPrec) (parenTokens (prec < minPrec) ts) e := by
  have hterm : ∀ {ts e}, Derives .factor ts e → Derives .expr ts e := fun h => .ofTerm (.ofFactor h)
  have hcases : ∀ n, n ≤ 2 → n = 0 ∨ n = 1 ∨ n = 2 := fun n _ => by omega
  rcases hcases prec hprec with rfl | rfl | rfl <;>
    rcases hcases minPrec hminPrec with rfl | rfl | rfl
  · exact h
  · exact .ofFactor (.paren h)
  · exact .paren h
  · exact .ofTerm h
  · exact h
  · exact .paren (.ofTerm h)
  · exact hterm h
  · exact .ofFactor h
  · exact h

/-- An operator level whose operator may be reassociated. -/
structure AssocLevel extends OpLevel where
  assoc : ∀ a b c, Expr.Reassoc (op a (op b c)) (op (op a b) c)
  congr : ∀ {a a' b b'}, Expr.Reassoc a a' → Expr.Reassoc b b' → Expr.Reassoc (op a b) (op a' b')

def orAssoc : AssocLevel where
  toOpLevel := orLevel
  assoc := .or_assoc
  congr := .or

def andAssoc : AssocLevel where
  toOpLevel := andLevel
  assoc := .and_assoc
  congr := .and

namespace AssocLevel

variable (L : AssocLevel)

theorem fold_congr {x y : LabelExpr} (h : Expr.Reassoc x y)
    (operands : List (List Token × LabelExpr)) :
    Expr.Reassoc (L.fold x operands) (L.fold y operands) := by
  induction operands generalizing x y with
  | nil => exact h
  | cons operand operands ih => exact ih (L.congr h (.refl _))

/-- An operand before a chain moves to its start. -/
theorem op_fold (a b : LabelExpr) (operands : List (List Token × LabelExpr)) :
    Expr.Reassoc (L.op a (L.fold b operands)) (L.fold (L.op a b) operands) := by
  induction operands generalizing b with
  | nil => exact .refl _
  | cons operand operands ih => exact (ih _).trans (L.fold_congr (L.assoc a b operand.2) operands)

/-- Two phrases with the operator between them are a phrase: the second one's
chain goes on from the first. -/
theorem derives_append {ts us : List Token} {a b : LabelExpr} (ha : Derives L.here ts a)
    (hb : L.Chain us b) :
    ∃ e, Derives L.here (ts ++ L.token :: us) e ∧ Expr.Reassoc (L.op a b) e := by
  obtain ⟨us₀, b₀, operands, hfirst, hoperands, rfl, rfl⟩ := hb
  refine ⟨L.fold (L.op a b₀) operands, ?_, L.op_fold a b₀ operands⟩
  simpa using L.derives_fold (L.step ha hfirst) hoperands

end AssocLevel

theorem derives_fmtTokens {e : LabelExpr} (hnames : LabelNames e) {minPrec : ℕ}
    (hminPrec : minPrec ≤ 2) :
    ∃ e', Derives (levelOf minPrec) (fmtTokens e minPrec) e' ∧ Expr.Reassoc e e' := by
  induction e generalizing minPrec with
  | terminal name =>
      refine ⟨.terminal name, ?_, .refl _⟩
      have hself := (wordToken_of_isLabelName (hnames name (by simp [Expr.terminals]))).1
      have := Derives.name name.toList
      rw [hself, String.ofList_toList] at this
      exact derives_parenTokens le_rfl hminPrec this
  | const b => exact ⟨.const b, derives_parenTokens le_rfl hminPrec (.bool b), .refl _⟩
  | not inner ih =>
      obtain ⟨e', he', hassoc⟩ := ih hnames le_rfl
      exact ⟨.not e', derives_parenTokens le_rfl hminPrec (.not he'), .not hassoc⟩
  | and a b iha ihb =>
      obtain ⟨ha, hb⟩ := labelNames_and.mp hnames
      obtain ⟨a', hda, hassoca⟩ := iha ha (show 1 ≤ 2 by omega)
      obtain ⟨b', hdb, hassocb⟩ := ihb hb (show 1 ≤ 2 by omega)
      obtain ⟨e', hde, hassoc⟩ := andAssoc.derives_append hda (Derives.chain_and hdb)
      exact ⟨e', derives_parenTokens (show 1 ≤ 2 by omega) hminPrec hde,
        (Expr.Reassoc.and hassoca hassocb).trans hassoc⟩
  | or a b iha ihb =>
      obtain ⟨ha, hb⟩ := labelNames_or.mp hnames
      obtain ⟨a', hda, hassoca⟩ := iha ha (show 0 ≤ 2 by omega)
      obtain ⟨b', hdb, hassocb⟩ := ihb hb (show 0 ≤ 2 by omega)
      obtain ⟨e', hde, hassoc⟩ := orAssoc.derives_append hda (Derives.chain_or hdb)
      exact ⟨e', derives_parenTokens (show 0 ≤ 2 by omega) hminPrec hde,
        (Expr.Reassoc.or hassoca hassocb).trans hassoc⟩

/-- The printed text parses, to the expression up to association. -/
theorem parseRawLabelExpr_formatExpr {e : LabelExpr} (hnames : LabelNames e) :
    ∃ e', parseRawLabelExpr (formatExpr e) = .ok e' ∧ Expr.Reassoc e e' := by
  obtain ⟨e', he', hassoc⟩ := derives_fmtTokens hnames (show 0 ≤ 2 by omega)
  refine ⟨e', parseRawLabelExpr_eq_ok_iff.mpr ⟨_, ?_, he'⟩, hassoc⟩
  have := (reads_fmtExpr hnames 0 [] rfl).tokens_eq
  rwa [List.append_nil] at this

end Skuld
