import Skuld.Label.Filter

/-!
# Filters: the guarantees

What the rest of the program relies on when it passes filters around as text:
the parser accepts its language and nothing else, its terminals are the label
names, printing loses nothing, and equality of filters is equality of what they
match.
-/

namespace Skuld

open BoolExpr SortDedup

/-- The parser returns an expression exactly for the sentences of the grammar,
and then the expression of their derivation; a selection keeps the names of the
text, sorted and without repetition. -/
theorem parser_accepts_language (B : Bdd String) (input : String) :
    (∀ e, parseRawLabelExpr input = .ok e ↔
      ∃ ts, tokens input.toList = some ts ∧ Derives .expr ts e) ∧
    (∀ err, parseRawLabelExpr input = .error err → err = .pest) ∧
    (∀ err, LabelSelection.parse B input = .error err ↔ parseRawLabelExpr input = .error err) ∧
    (∀ selection, LabelSelection.parse B input = .ok selection →
      selection.names.Pairwise (· < ·) ∧
      ∀ name, name ∈ selection.names ↔
        ∃ ts, tokens input.toList = some ts ∧ name ∈ tokenNames ts) := by
  refine ⟨fun e => parseRawLabelExpr_eq_ok_iff, fun err => eq_pest_of_parseRawLabelExpr,
    fun err => LabelSelection.parse_error_iff, fun selection h => ?_⟩
  obtain ⟨e, hraw, hnames⟩ := LabelSelection.names_of_parse h
  obtain ⟨ts, htokens, hts⟩ := parseRawLabelExpr_eq_ok_iff.mp hraw
  refine ⟨hnames ▸ pairwise_sortDedup _, fun name => ?_⟩
  rw [hnames, mem_sortDedup, collectTerminals, hts.terminals_eq]
  constructor
  · exact fun hname => ⟨ts, htokens, hname⟩
  · rintro ⟨us, hus, hname⟩
    rw [htokens, Option.some.injEq] at hus
    exact hus ▸ hname

/-- The name that cancels out of the filter is still selected. -/
theorem parser_accepts_language_cancelled :
    ∃ selection, LabelSelection.parse (shannon String) "b | B | !b" = .ok selection ∧
      selection.names.Pairwise (· < ·) ∧ "b" ∈ selection.names := by
  have hraw : parseRawLabelExpr "b | B | !b" = .ok (.or (.or (.terminal "b") (.terminal "b"))
      (.not (.terminal "b"))) := by decide +kernel
  obtain ⟨ts, htokens, hts⟩ := parseRawLabelExpr_eq_ok_iff.mp hraw
  have hname : "b" ∈ tokenNames ts := hts.terminals_eq ▸ (by decide)
  have hselection := LabelSelection.parse_of_raw (B := shannon String) hraw
  obtain ⟨-, -, -, hnames⟩ := parser_accepts_language (shannon String) "b | B | !b"
  obtain ⟨hsorted, hmem⟩ := hnames _ hselection
  exact ⟨_, hselection, hsorted, (hmem "b").mpr ⟨ts, htokens, hname⟩⟩

/-- The names that labels may have are the texts that parse to themselves, and a
filter has no other terminals. -/
theorem label_iff_terminal :
    (∀ s, (∃ label, Label.new s = .ok label) ↔ parseRawLabelExpr s = .ok (.terminal s)) ∧
    (∀ label : Label, parseRawLabelExpr label.name = .ok (.terminal label.name)) ∧
    ∀ input e, parseRawLabelExpr input = .ok e → ∀ t ∈ e.terminals,
      ∃ label, Label.new t = .ok label ∧ label.name = t := by
  have hterminals : ∀ input e, parseRawLabelExpr input = .ok e → ∀ t ∈ e.terminals,
      ∃ label, Label.new t = .ok label ∧ label.name = t := by
    intro input e hparse t ht
    obtain ⟨label, hlabel⟩ := Label.new_eq_ok_iff.mpr (labelNames_of_parse hparse t ht)
    exact ⟨label, hlabel, Label.name_of_new hlabel⟩
  refine ⟨fun s => ?_, fun label => parseRawLabelExpr_of_isLabelName label.valid, hterminals⟩
  constructor
  · exact fun hlabel => parseRawLabelExpr_of_isLabelName (Label.new_eq_ok_iff.mp hlabel)
  · intro hparse
    obtain ⟨label, hlabel, -⟩ := hterminals s _ hparse s (by simp [Expr.terminals])
    exact ⟨label, hlabel⟩

theorem label_iff_terminal_shouted :
    ∃ label, Label.new "fast_2" = .ok label ∧ label.name = "fast_2" :=
  label_iff_terminal.2.2 "!FAST_2 | (slow & True)"
    (.or (.not (.terminal "fast_2")) (.and (.terminal "slow") (.const true))) (by decide +kernel)
    "fast_2" (by simp [Expr.terminals])

/-- What `fmtExpr` prints parses, to the same expression up to the association
of chains; a filter parses to itself. -/
theorem print_parse (B : Bdd String) :
    (∀ e, LabelNames e → ∃ e', parseRawLabelExpr (formatExpr e) = .ok e' ∧ Expr.Reassoc e e' ∧
      ∀ labels, matchesExpr e' labels = matchesExpr e labels) ∧
    ∀ f : LabelFilter B, LabelFilter.parse B f.toString = .ok f := by
  refine ⟨fun e hnames => ?_, LabelFilter.parse_toString⟩
  obtain ⟨e', hparse, hassoc⟩ := parseRawLabelExpr_formatExpr hnames
  exact ⟨e', hparse, hassoc, fun labels => (hassoc.equiv _).symm⟩

/-- A chain nested to the right comes back nested to the left. -/
theorem print_parse_chain :
    ∃ e', parseRawLabelExpr "a | b | !c & (true | _d)" = .ok e' ∧
      ∀ labels, matchesExpr e' labels = matchesExpr (.or (.terminal "a") (.or (.terminal "b")
        (.and (.not (.terminal "c")) (.or (.const true) (.terminal "_d"))))) labels := by
  have hnames : LabelNames (.or (.terminal "a") (.or (.terminal "b")
      (.and (.not (.terminal "c")) (.or (.const true) (.terminal "_d"))))) := by
    unfold LabelNames
    decide
  obtain ⟨e', hparse, -, hmatches⟩ := (print_parse (shannon String)).1 _ hnames
  exact ⟨e', hparse, hmatches⟩

namespace LabelFilter

/-- Equality of filters is equality on every label list, and the operations
mean what they say. -/
theorem eq_iff_and_operators (B : Bdd String) :
    (∀ f g : LabelFilter B, f = g ↔ ∀ labels, f.matches labels = g.matches labels) ∧
    (∀ (f : LabelFilter B) labels, f.not.matches labels = !f.matches labels) ∧
    (∀ (f g : LabelFilter B) labels,
      (f.and g).matches labels = (f.matches labels && g.matches labels)) ∧
    (∀ (f g : LabelFilter B) labels,
      (f.or g).matches labels = (f.matches labels || g.matches labels)) ∧
    (∀ label labels, (ofLabel label : LabelFilter B).matches labels = true ↔ label ∈ labels) ∧
    (∀ input err, parse B input = .error err ↔ parseRawLabelExpr input = .error err) ∧
    (∀ input e, parseRawLabelExpr input = .ok e → ∃ f, parse B input = .ok f ∧
      ∀ labels, f.matches labels = matchesExpr e labels) ∧
    (∀ f : LabelFilter B, f.isTautology = true ↔ ∀ labels, f.matches labels = true) ∧
    (∀ f : LabelFilter B, f.isContradiction = true ↔ ∀ labels, f.matches labels = false) := by
  refine ⟨fun f g => eq_iff_matches, matches_not, matches_and, matches_or, fun label labels => ?_,
    fun input err => parse_error_iff, fun input e h => ?_, fun f => isTautology_iff,
    fun f => isContradiction_iff⟩
  · rw [matches_ofLabel, List.any_eq_true]
    constructor
    · rintro ⟨l, hl, heq⟩
      exact Label.ext_name (of_decide_eq_true heq) ▸ hl
    · exact fun hl => ⟨label, hl, by simp⟩
  · exact ⟨_, parse_of_raw h, matches_ofExpr e _⟩

/-- `a | !a`, however it is written, is the filter that matches everything. -/
theorem eq_iff_and_operators_excluded_middle :
    ∃ f g, parse (shannon String) "a | !a" = .ok f ∧ parse (shannon String) "TRUE" = .ok g ∧
      f = g ∧ f.isTautology = true := by
  obtain ⟨heq, -, -, -, -, -, hparse, htaut, -⟩ := eq_iff_and_operators (shannon String)
  obtain ⟨f, hf, hmatches⟩ := hparse "a | !a" (.or (.terminal "a") (.not (.terminal "a")))
    (by decide +kernel)
  obtain ⟨g, hg, hmatches'⟩ := hparse "TRUE" (.const true) (by decide +kernel)
  have hall : ∀ labels, f.matches labels = true := fun labels => by
    rw [hmatches]
    simp [matchesExpr, Expr.eval]
  refine ⟨f, g, hf, hg, (heq f g).mpr fun labels => ?_, (htaut f).mpr hall⟩
  rw [hall, hmatches']
  rfl

end LabelFilter

end Skuld
