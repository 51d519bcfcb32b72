import Skuld.Lib.SortDedup
import Skuld.Label.Format

/-!
# Canonical filters

`canonicalize` sends an expression through the decision-diagram package and
sorts the children of every operator.  Whatever the package returns, sorting
keeps values and variables, so that the package's laws carry over: the canonical
form is determined by the Boolean function, over the labels it depends on.

A `LabelFilter` holds an expression in canonical form over label names.  Every
way to make one goes through `canonicalize`, except `From<Label>`, whose single
terminal is canonical already.
-/

namespace Skuld

open BoolExpr SortDedup

/-! ## Canonicalization -/

def sortPair (a b : LabelExpr) : LabelExpr × LabelExpr :=
  if formatExpr a ≤ formatExpr b then (a, b) else (b, a)

def sortChildren : LabelExpr → LabelExpr
  | .not x => .not (sortChildren x)
  | .and a b =>
      let (lo, hi) := sortPair (sortChildren a) (sortChildren b)
      .and lo hi
  | .or a b =>
      let (lo, hi) := sortPair (sortChildren a) (sortChildren b)
      .or lo hi
  | leaf => leaf

theorem sortPair_cases (a b : LabelExpr) : sortPair a b = (a, b) ∨ sortPair a b = (b, a) := by
  unfold sortPair
  split_ifs <;> simp

theorem eval_sortChildren (e : LabelExpr) : (sortChildren e).Equiv e := by
  intro ρ
  induction e with
  | terminal t => rfl
  | const b => rfl
  | not e ih => simp only [sortChildren, Expr.eval, ih]
  | and a b iha ihb =>
      rcases sortPair_cases (sortChildren a) (sortChildren b) with h | h <;>
        simp [sortChildren, h, Expr.eval, iha, ihb, Bool.and_comm]
  | or a b iha ihb =>
      rcases sortPair_cases (sortChildren a) (sortChildren b) with h | h <;>
        simp [sortChildren, h, Expr.eval, iha, ihb, Bool.or_comm]

theorem mem_terminals_sortChildren {e : LabelExpr} {t : String} :
    t ∈ (sortChildren e).terminals ↔ t ∈ e.terminals := by
  induction e with
  | terminal t => rfl
  | const b => rfl
  | not e ih => exact ih
  | and a b iha ihb =>
      rcases sortPair_cases (sortChildren a) (sortChildren b) with h | h <;>
        simp [sortChildren, h, Expr.terminals, iha, ihb, or_comm]
  | or a b iha ihb =>
      rcases sortPair_cases (sortChildren a) (sortChildren b) with h | h <;>
        simp [sortChildren, h, Expr.terminals, iha, ihb, or_comm]

section

variable (B : Bdd String)

def canonicalize (expr : LabelExpr) : LabelExpr :=
  let terms := sortDedup (collectTerminals expr)
  if terms = [] then
    .const (expr.eval fun _ => false)
  else
    sortChildren (B.roundTrip terms expr)

/-- The terminals as `canonicalize` seeds the diagram with them. -/
theorem seeded_sortDedup (e : LabelExpr) : Seeded (sortDedup (collectTerminals e)) e where
  sorted := pairwise_sortDedup _
  covers _ ht := mem_sortDedup.mpr ht

variable {B}

theorem terminals_eq_nil {e : LabelExpr} (h : sortDedup (collectTerminals e) = []) :
    e.terminals = [] := by
  refine List.eq_nil_iff_forall_not_mem.mpr fun t ht => ?_
  have : t ∈ sortDedup (collectTerminals e) := mem_sortDedup.mpr ht
  rw [h] at this
  cases this

theorem equiv_const_of_terminals {e : LabelExpr} (h : e.terminals = []) :
    e.Equiv (.const (e.eval fun _ => false)) :=
  fun _ => Expr.eval_congr fun t ht => by rw [h] at ht; cases ht

theorem canonicalize_const {e : LabelExpr} {b : Bool} (h : e.Equiv (.const b)) :
    canonicalize B e = .const b := by
  rw [canonicalize]
  split_ifs with hterms
  · rw [h]
    rfl
  · rw [B.roundTrip_const (seeded_sortDedup e) h]
    rfl

theorem eval_canonicalize (e : LabelExpr) : (canonicalize B e).Equiv e := by
  rw [canonicalize]
  split_ifs with hterms
  · exact (equiv_const_of_terminals (terminals_eq_nil hterms)).symm
  · exact (eval_sortChildren _).trans (B.eval_roundTrip (seeded_sortDedup e))

/-- The canonical form is determined by the function. -/
theorem canonicalize_congr {e e' : LabelExpr} (h : e.Equiv e') :
    canonicalize B e = canonicalize B e' := by
  by_cases hterms : sortDedup (collectTerminals e) = []
  · have hconst := equiv_const_of_terminals (terminals_eq_nil hterms)
    rw [canonicalize_const hconst, canonicalize_const (h.symm.trans hconst)]
  · by_cases hterms' : sortDedup (collectTerminals e') = []
    · have hconst := equiv_const_of_terminals (terminals_eq_nil hterms')
      rw [canonicalize_const hconst, canonicalize_const (h.trans hconst)]
    · simp only [canonicalize, if_neg hterms, if_neg hterms',
        B.roundTrip_congr (seeded_sortDedup e) (seeded_sortDedup e') h]

theorem canonicalize_idem (e : LabelExpr) :
    canonicalize B (canonicalize B e) = canonicalize B e :=
  canonicalize_congr (eval_canonicalize e)

theorem canonicalize_terminal (t : String) :
    canonicalize B (.terminal t) = .terminal t := by
  have hne : ¬ sortDedup (collectTerminals (.terminal t)) = [] := by
    simp [sortDedup, collectTerminals, Expr.terminals, dedup]
  rw [canonicalize]
  simp only [if_neg hne, B.roundTrip_terminal (seeded_sortDedup (.terminal t)) fun _ => rfl]
  rfl

/-- Only labels that matter occur in the canonical form. -/
theorem dependsOn_of_mem_canonicalize {e : LabelExpr} {t : String}
    (h : t ∈ (canonicalize B e).terminals) : e.DependsOn t := by
  rw [canonicalize] at h
  split_ifs at h with hterms
  · simp [Expr.terminals] at h
  · exact B.dependsOn_of_mem (seeded_sortDedup e) (mem_terminals_sortChildren.mp h)

theorem labelNames_canonicalize {e : LabelExpr} (h : LabelNames e) :
    LabelNames (canonicalize B e) :=
  fun t ht => h t (dependsOn_of_mem_canonicalize ht).mem_terminals

end

/-! ## The names in a parsed expression -/

theorem isLabelName_lower {c : Char} {word : List Char} (hstart : isWordStart c = true)
    (hword : word.all isWordChar = true) (htoken : ∀ b, wordToken (c :: word) ≠ .bool b) :
    IsLabelName (String.ofList (lower (c :: word))) := by
  have hkeyword : lower (c :: word) ≠ ['t', 'r', 'u', 'e'] ∧
      lower (c :: word) ≠ ['f', 'a', 'l', 's', 'e'] := by
    constructor
    all_goals
      intro heq
      unfold wordToken at htoken
      simp [heq] at htoken
  refine isLabelName_iff.mpr ⟨c.toLower, lower word, String.toList_ofList, ?_, ?_, ?_, ?_⟩
  · rwa [isWordStart_toLower]
  · simpa [lower, List.all_map, Function.comp_def, isWordChar_toLower] using hword
  · intro hmem
    simp only [reservedLabelNames, List.mem_cons, List.not_mem_nil, or_false] at hmem
    rcases hmem with heq | heq
    · exact hkeyword.1 (String.toList_ofList.symm.trans (congrArg String.toList heq))
    · exact hkeyword.2 (String.toList_ofList.symm.trans (congrArg String.toList heq))
  · simp [lower]

/-- Every name token of a text is a label name in lower case. -/
theorem isLabelName_of_tokens {s : List Char} {ts : List Token} (h : tokens s = some ts) :
    ∀ t ∈ tokenNames ts, IsLabelName t := by
  induction s using tokens.induct generalizing ts with
  | case1 => simp_all [tokens_nil, tokenNames]
  | case2 c s hblank ih =>
      rw [tokens_blank hblank] at h
      exact ih h
  | case3 c s hblank hstart ih =>
      rw [tokens_word hstart, Option.map_eq_some_iff] at h
      obtain ⟨us, hus, rfl⟩ := h
      intro x hx
      rcases mem_tokenNames_cons.mp hx with ⟨word, htoken, rfl⟩ | hx
      · have heq : c :: s.takeWhile isWordChar = word := by
          unfold wordToken at htoken
          split_ifs at htoken
          exact Token.name.inj htoken
        exact heq ▸ isLabelName_lower hstart List.all_takeWhile (by simp [htoken])
      · exact ih hus x hx
  | case4 c s hblank hstart t hsymbol ih =>
      rw [tokens_symbol hsymbol, Option.map_eq_some_iff] at h
      obtain ⟨us, hus, rfl⟩ := h
      intro x hx
      rcases mem_tokenNames_cons.mp hx with ⟨word, rfl, -⟩ | hx
      · simpa using symbol_cases hsymbol
      · exact ih hus x hx
  | case5 c s hblank hstart hsymbol =>
      rw [tokens, if_neg hblank, if_neg hstart] at h
      simp [hsymbol] at h

/-- The terminals of a parsed expression can be label names. -/
theorem labelNames_of_parse {input : String} {e : LabelExpr} (h : parseRawLabelExpr input = .ok e) :
    LabelNames e := by
  obtain ⟨ts, htokens, hts⟩ := parseRawLabelExpr_eq_ok_iff.mp h
  rw [LabelNames, hts.terminals_eq]
  exact isLabelName_of_tokens htokens

/-- A label name parses to itself. -/
theorem parseRawLabelExpr_of_isLabelName {name : String} (h : IsLabelName name) :
    parseRawLabelExpr name = .ok (.terminal name) := by
  refine parseRawLabelExpr_eq_ok_iff.mpr ⟨[.name name.toList], ?_, ?_⟩
  · have hreads := reads_name h (s := []) rfl
    rw [List.append_nil] at hreads
    exact hreads.tokens_eq
  · have hname := Derives.name name.toList
    rw [(wordToken_of_isLabelName h).1, String.ofList_toList] at hname
    exact .ofTerm (.ofFactor hname)

/-! ## Filters -/

/-- A filter: an expression over label names in canonical form. -/
structure LabelFilter (B : Bdd String) where
  expr : LabelExpr
  names : LabelNames expr
  canonical : canonicalize B expr = expr
  deriving DecidableEq

/-- Not `unexpectedRule` nor a panic, by `eq_pest_of_parseRawLabelExpr`. -/
def parseLabelExpr (B : Bdd String) (input : String) : Except ParseError LabelExpr :=
  (parseRawLabelExpr input).map (canonicalize B)

namespace LabelFilter

variable {B : Bdd String}

/-- The filter with the canonical form of an expression. -/
def ofExpr (B : Bdd String) (expr : LabelExpr) (h : LabelNames expr) : LabelFilter B where
  expr := canonicalize B expr
  names := labelNames_canonicalize h
  canonical := canonicalize_idem expr

/-- `LabelFilter::parse`: the expression of `parseLabelExpr` (`expr_of_parse`). -/
def parse (B : Bdd String) (input : String) : Except ParseError (LabelFilter B) :=
  match h : parseRawLabelExpr input with
  | .ok expr => .ok (ofExpr B expr (labelNames_of_parse h))
  | .error err => .error err

/-- `From<Label>`: a single terminal is canonical already. -/
def ofLabel (label : Label) : LabelFilter B where
  expr := .terminal label.name
  names t ht := by
    rw [List.mem_singleton.mp ht]
    exact label.valid
  canonical := canonicalize_terminal label.name

def not (f : LabelFilter B) : LabelFilter B :=
  ofExpr B (.not f.expr) f.names

def and (f g : LabelFilter B) : LabelFilter B :=
  ofExpr B (.and f.expr g.expr) (labelNames_and.mpr ⟨f.names, g.names⟩)

def or (f g : LabelFilter B) : LabelFilter B :=
  ofExpr B (.or f.expr g.expr) (labelNames_or.mpr ⟨f.names, g.names⟩)

def «matches» (f : LabelFilter B) (labels : List Label) : Bool :=
  matchesExpr f.expr labels

def matchesNames (f : LabelFilter B) (names : List String) : Bool :=
  f.expr.eval fun t => names.contains t

def isTautology (f : LabelFilter B) : Bool :=
  f.expr = .const true

def isContradiction (f : LabelFilter B) : Bool :=
  f.expr = .const false

def toString (f : LabelFilter B) : String :=
  fmtExpr f.expr 0

/-! ## What filters match -/

theorem ext_expr {f g : LabelFilter B} (h : f.expr = g.expr) : f = g := by
  cases f
  cases g
  cases h
  rfl

theorem matches_ofExpr (expr : LabelExpr) (h : LabelNames expr) (labels : List Label) :
    (ofExpr B expr h).matches labels = matchesExpr expr labels :=
  eval_canonicalize expr _

theorem matches_ofLabel (label : Label) (labels : List Label) :
    (ofLabel (B := B) label).matches labels = labels.any fun l => l.name = label.name :=
  rfl

theorem matches_not (f : LabelFilter B) (labels : List Label) :
    f.not.matches labels = !f.matches labels :=
  matches_ofExpr (.not f.expr) _ labels

theorem matches_and (f g : LabelFilter B) (labels : List Label) :
    (f.and g).matches labels = (f.matches labels && g.matches labels) :=
  matches_ofExpr (.and f.expr g.expr) _ labels

theorem matches_or (f g : LabelFilter B) (labels : List Label) :
    (f.or g).matches labels = (f.matches labels || g.matches labels) :=
  matches_ofExpr (.or f.expr g.expr) _ labels

/-- Matching the names of a label list is matching the list. -/
theorem matchesNames_map (f : LabelFilter B) (labels : List Label) :
    f.matchesNames (labels.map Label.name) = f.matches labels := by
  refine Expr.eval_congr fun t _ => ?_
  rw [Bool.eq_iff_iff, List.contains_iff_mem, List.mem_map, List.any_eq_true]
  simp only [decide_eq_true_eq]

/-- A filter is the canonical form of any expression with its values. -/
theorem eq_of_equiv {f : LabelFilter B} {e : LabelExpr} (h : e.Equiv f.expr) :
    f.expr = canonicalize B e := by
  rw [canonicalize_congr h, f.canonical]

/-- Equality is equality on every label list. -/
theorem eq_iff_matches {f g : LabelFilter B} :
    f = g ↔ ∀ labels, f.matches labels = g.matches labels := by
  constructor
  · rintro rfl _
    rfl
  · intro h
    have hequiv : f.expr.Equiv g.expr := (equiv_iff_matchesExpr f.names g.names).mpr h
    exact ext_expr (by rw [eq_of_equiv hequiv.symm, g.canonical])

theorem expr_eq_const_iff {f : LabelFilter B} {b : Bool} :
    f.expr = .const b ↔ ∀ labels, f.matches labels = b := by
  constructor
  · intro h labels
    rw [«matches», h]
    rfl
  · intro h
    have hconst : LabelNames (.const b) := fun t ht => by cases ht
    have hequiv := (equiv_iff_matchesExpr f.names hconst).mpr h
    rw [← f.canonical, canonicalize_const hequiv]

theorem isTautology_iff {f : LabelFilter B} :
    f.isTautology = true ↔ ∀ labels, f.matches labels = true := by
  rw [isTautology, decide_eq_true_eq, expr_eq_const_iff]

theorem isContradiction_iff {f : LabelFilter B} :
    f.isContradiction = true ↔ ∀ labels, f.matches labels = false := by
  rw [isContradiction, decide_eq_true_eq, expr_eq_const_iff]

/-! ## Parsing and printing -/

theorem parse_of_raw {input : String} {e : LabelExpr} (h : parseRawLabelExpr input = .ok e) :
    parse B input = .ok (ofExpr B e (labelNames_of_parse h)) := by
  unfold parse
  split
  · rename_i e' h'
    cases h.symm.trans h'
    rfl
  · rename_i err h'
    cases h.symm.trans h'

theorem parse_error_iff {input : String} {err : ParseError} :
    parse B input = .error err ↔ parseRawLabelExpr input = .error err := by
  unfold parse
  split
  · rename_i e h
    simp [h]
  · rename_i err' h
    simp [h]

theorem parse_eq_ok_iff {input : String} {f : LabelFilter B} :
    parse B input = .ok f ↔ ∃ e, parseRawLabelExpr input = .ok e ∧ e.Equiv f.expr := by
  constructor
  · intro h
    cases hraw : parseRawLabelExpr input with
    | error err => simp [parse_error_iff.mpr hraw] at h
    | ok e =>
        rw [parse_of_raw hraw, Except.ok.injEq] at h
        exact ⟨e, rfl, h ▸ (eval_canonicalize e).symm⟩
  · rintro ⟨e, hraw, hequiv⟩
    rw [parse_of_raw hraw, Except.ok.injEq]
    exact ext_expr (eq_of_equiv hequiv).symm

/-- `parse` is `parseLabelExpr` with the invariants of its result. -/
theorem expr_of_parse (input : String) :
    (parse B input).map expr = parseLabelExpr B input := by
  cases h : parseRawLabelExpr input with
  | error err => rw [parse_error_iff.mpr h, parseLabelExpr, h]; rfl
  | ok e => rw [parse_of_raw h, parseLabelExpr, h]; rfl

/-- A printed filter parses to itself. -/
theorem parse_toString (f : LabelFilter B) : parse B f.toString = .ok f := by
  obtain ⟨e, hraw, hassoc⟩ := parseRawLabelExpr_formatExpr f.names
  exact parse_eq_ok_iff.mpr ⟨e, hraw, hassoc.equiv.symm⟩

end LabelFilter

/-! ## Selections -/

/-- `SKULD_LABELS`, parsed once. -/
structure LabelSelection (B : Bdd String) where
  filter : LabelFilter B
  names : List String

namespace LabelSelection

variable {B : Bdd String}

def parse (B : Bdd String) (input : String) : Except ParseError (LabelSelection B) :=
  match h : parseRawLabelExpr input with
  | .error err => .error err
  | .ok raw => .ok
      { filter := .ofExpr B raw (labelNames_of_parse h)
        names := sortDedup (collectTerminals raw) }

theorem parse_of_raw {input : String} {e : LabelExpr} (h : parseRawLabelExpr input = .ok e) :
    parse B input = .ok ⟨.ofExpr B e (labelNames_of_parse h), sortDedup (collectTerminals e)⟩ := by
  unfold parse
  split
  · rename_i err h'
    cases h.symm.trans h'
  · rename_i e' h'
    cases h.symm.trans h'
    rfl

theorem parse_error_iff {input : String} {err : ParseError} :
    parse B input = .error err ↔ parseRawLabelExpr input = .error err := by
  cases h : parseRawLabelExpr input with
  | ok e => simp [parse_of_raw h]
  | error err' =>
      unfold parse
      split
      · rename_i h'
        rw [h] at h'
        rw [h']
        simp
      · rename_i h'
        cases h.symm.trans h'

theorem names_of_parse {input : String} {selection : LabelSelection B}
    (h : parse B input = .ok selection) : ∃ e, parseRawLabelExpr input = .ok e ∧
      selection.names = sortDedup (collectTerminals e) := by
  cases hraw : parseRawLabelExpr input with
  | error err => simp [parse_error_iff.mpr hraw] at h
  | ok e =>
      rw [parse_of_raw hraw, Except.ok.injEq] at h
      exact ⟨e, rfl, by rw [← h]⟩

end LabelSelection

end Skuld
