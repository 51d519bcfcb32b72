import Mathlib.Data.List.DropRight
import Skuld.Label.Grammar
import Skuld.Label.Tokens

/-!
# What the leaves of the grammar read

The rules of `label.pest` without recursion: blanks, single characters and
words.  The two atomic rules compete for a word, and `parses_word` says how that
ends for every text: the first rule that `primary` tries on a word takes all of
it, as a boolean literal exactly when the word is one.  For the literal this
rests on its lookahead, without which `truely` would be read as `true`.
-/

namespace Skuld

open BoolExpr Peg

variable {s rest : List Char} {pairs : List (Pair Rule)}

/-! ## Blanks -/

/-- What pest puts between the elements of a rule. -/
abbrev skip : Exp Rule :=
  .star (.rule .whitespace)

theorem parses_whitespace (s : List Char) :
    Parses labelGrammar (.rule .whitespace) s (Parses.classOutcome isBlank s) := by
  refine ⟨4, ?_⟩
  cases s with
  | nil => rfl
  | cons c s =>
      by_cases h1 : c = ' '
      · subst h1; rfl
      by_cases h2 : c = '\t'
      · subst h2; rfl
      by_cases h3 : c = '\r'
      · subst h3; rfl
      have hlit : ∀ d, c ≠ d → stripPrefix [d] (c :: s) = none := fun d hd => by
        simp [stripPrefix, Ne.symm hd]
      simp [run, labelGrammar, Rule.kind, Rule.written, Parses.classOutcome, isBlank, hlit, ofRest,
        h1, h2, h3]

theorem parses_skip (s : List Char) :
    Parses labelGrammar skip s (.ok [] (s.dropWhile isBlank)) :=
  Parses.star_class parses_whitespace s

theorem skip_inv (h : Parses labelGrammar skip s (.ok pairs rest)) :
    pairs = [] ∧ rest = s.dropWhile isBlank := by
  have := h.unique (parses_skip s)
  rwa [Outcome.ok.injEq] at this

/-- Two elements with blanks between them. -/
theorem spaced_ok {a b : Exp Rule} {middle : List Char} {pairs' : List (Pair Rule)}
    (ha : Parses labelGrammar a s (.ok pairs middle))
    (hb : Parses labelGrammar b (middle.dropWhile isBlank) (.ok pairs' rest)) :
    Parses labelGrammar (.seq a (.seq skip b)) s (.ok (pairs ++ pairs') rest) :=
  .seq_ok ha ((parses_skip middle).seq_ok hb)

theorem spaced_inv {a b : Exp Rule}
    (h : Parses labelGrammar (.seq a (.seq skip b)) s (.ok pairs rest)) :
    ∃ pairs₁ middle pairs₂, Parses labelGrammar a s (.ok pairs₁ middle) ∧
      Parses labelGrammar b (middle.dropWhile isBlank) (.ok pairs₂ rest) ∧
      pairs = pairs₁ ++ pairs₂ := by
  obtain ⟨pairs₁, middle, pairs', ha, hrest, rfl⟩ := h.seq_inv
  obtain ⟨pairs₀, middle', pairs₂, hskip, hb, rfl⟩ := hrest.seq_inv
  obtain ⟨rfl, rfl⟩ := skip_inv hskip
  exact ⟨pairs₁, middle, pairs₂, ha, hb, rfl⟩

theorem dropWhile_isBlank_idem (s : List Char) :
    (s.dropWhile isBlank).dropWhile isBlank = s.dropWhile isBlank :=
  List.dropWhile_idempotent isBlank s

/-! ## Characters -/

theorem parses_lit (c : Char) (s : List Char) :
    Parses labelGrammar (.lit [c]) (c :: s) (.ok [] s) := by
  have := Parses.lit (G := labelGrammar) (s := c :: s) [c]
  simpa [stripPrefix, ofRest] using this

theorem parses_lit_fail {c : Char} (h : s.head? ≠ some c) :
    Parses labelGrammar (.lit [c]) s .fail := by
  have := Parses.lit (G := labelGrammar) (s := s) [c]
  cases s with
  | nil => simpa [stripPrefix, ofRest] using this
  | cons d s =>
      have hne : ¬ c = d := fun heq => h (by rw [heq, List.head?_cons])
      simpa [stripPrefix, ofRest, hne] using this

theorem lit_inv {c : Char} (h : Parses labelGrammar (.lit [c]) s (.ok pairs rest)) :
    pairs = [] ∧ s = c :: rest := by
  by_cases hs : s.head? = some c
  · obtain ⟨s', rfl⟩ : ∃ s', s = c :: s' := by
      cases s with
      | nil => cases hs
      | cons d s' => exact ⟨s', by rw [List.head?_cons, Option.some.injEq] at hs; rw [hs]⟩
    have := h.unique (parses_lit c s')
    rw [Outcome.ok.injEq] at this
    exact ⟨this.1, by rw [this.2]⟩
  · cases h.unique (parses_lit_fail hs)

/-! ## Words -/

/-- The node of a word: `primary` tries `bool_lit` before `label`. -/
def wordPair (word : List Char) : Pair Rule :=
  match wordToken word with
  | .bool _ => .node .boolLit word []
  | _ => .node .label word []

/-- A word is read as a whole, any other text not at all. -/
def wordOutcome : List Char → Outcome Rule
  | [] => .fail
  | c :: s =>
      if isWordStart c then
        .ok [wordPair (c :: s.takeWhile isWordChar)] (s.dropWhile isWordChar)
      else
        .fail

theorem take_word (c : Char) (s : List Char) :
    (c :: s).take ((c :: s).length - (s.dropWhile isWordChar).length) =
      c :: s.takeWhile isWordChar := by
  have hsplit := List.takeWhile_append_dropWhile (p := isWordChar) (l := s)
  have hlen := congrArg List.length hsplit
  rw [List.length_append] at hlen
  have hcount : (c :: s).length - (s.dropWhile isWordChar).length =
      (c :: s.takeWhile isWordChar).length := by
    simp only [List.length_cons]
    omega
  calc (c :: s).take ((c :: s).length - (s.dropWhile isWordChar).length)
      = (c :: s.takeWhile isWordChar ++ s.dropWhile isWordChar).take
          (c :: s.takeWhile isWordChar).length := by rw [hcount, List.cons_append, hsplit]
    _ = c :: s.takeWhile isWordChar := List.take_left

/-- `label` reads any word. -/
theorem parses_label {c : Char} (h : isWordStart c = true) (s : List Char) :
    Parses labelGrammar (.rule .label) (c :: s)
      (.ok [.node .label (c :: s.takeWhile isWordChar) []] (s.dropWhile isWordChar)) := by
  have hbody : Parses labelGrammar (labelGrammar.body .label) (c :: s)
      (.ok ([] ++ []) (s.dropWhile isWordChar)) := by
    have hchar := Parses.char (G := labelGrammar) isWordStart (c :: s)
    rw [Parses.classOutcome, if_pos h] at hchar
    exact hchar.seq_ok (.star_class (Parses.char isWordChar) s)
  have := Parses.rule_ok hbody
  rwa [Grammar.report, show labelGrammar.kind .label = .atomic from rfl, take_word] at this

theorem parses_label_fail (h : s.head?.all (fun c => !isWordStart c) = true) :
    Parses labelGrammar (.rule .label) s .fail := by
  refine .rule_fail (.seq_fail_left ?_)
  have := Parses.char (G := labelGrammar) isWordStart s
  cases s with
  | nil => exact this
  | cons c s => simp_all [Parses.classOutcome]

/-- What follows a word does not continue it. -/
theorem head?_dropWhile_isWordChar (s : List Char) :
    (s.dropWhile isWordChar).head?.any isWordChar = false := by
  have := List.head?_dropWhile_not isWordChar s
  cases h : (s.dropWhile isWordChar).head? with
  | none => rfl
  | some c => simpa [h] using this

/-- A keyword is a prefix of a text exactly if it is one of the word the text
starts with. -/
theorem stripPrefixInsens_word {keyword word rest left : List Char}
    (hkeyword : (lower keyword).all isWordChar = true)
    (hrest : rest.head?.any isWordChar = false) :
    stripPrefixInsens keyword (word ++ rest) = some left ↔
      ∃ matched more, word = matched ++ more ∧ left = more ++ rest ∧
        lower matched = lower keyword := by
  rw [stripPrefixInsens_eq_some_iff]
  constructor
  · rintro ⟨matched, heq, hmatched⟩
    rcases List.append_eq_append_iff.mp heq with ⟨more, rfl, hmore⟩ | ⟨more, rfl, hmore⟩
    · -- the match would go on into the text behind the word
      cases more with
      | nil => exact ⟨word, [], by simp, by simpa using hmore.symm, by simpa [lower] using hmatched⟩
      | cons c more =>
          have hc : isWordChar c = false := by simpa [hmore] using hrest
          have hlow : c.toLower ∈ lower keyword := by
            rw [lower, ← hmatched]
            simp
          rw [← isWordChar_toLower, List.all_eq_true.mp hkeyword _ hlow] at hc
          cases hc
    · exact ⟨matched, more, rfl, hmore, hmatched⟩
  · rintro ⟨matched, more, rfl, rfl, hmatched⟩
    exact ⟨matched, by simp, hmatched⟩

/-- What the keywords of `bool_lit` leave. -/
def keywordLeft (s : List Char) : Option (List Char) :=
  (stripPrefixInsens ['t', 'r', 'u', 'e'] s).or (stripPrefixInsens ['f', 'a', 'l', 's', 'e'] s)

theorem keywordLeft_word {word rest left : List Char} (hrest : rest.head?.any isWordChar = false) :
    keywordLeft (word ++ rest) = some left ↔ ∃ matched more, word = matched ++ more ∧
      left = more ++ rest ∧
      (lower matched = ['t', 'r', 'u', 'e'] ∨ lower matched = ['f', 'a', 'l', 's', 'e']) := by
  have htrue : stripPrefixInsens ['t', 'r', 'u', 'e'] (word ++ rest) = some left ↔ _ :=
    stripPrefixInsens_word (by decide) hrest
  have hfalse : stripPrefixInsens ['f', 'a', 'l', 's', 'e'] (word ++ rest) = some left ↔ _ :=
    stripPrefixInsens_word (by decide) hrest
  rw [keywordLeft, Option.or_eq_some_iff, htrue, hfalse]
  constructor
  · rintro (⟨matched, more, hword, hleft, hmatched⟩ | ⟨-, matched, more, hword, hleft, hmatched⟩)
    · exact ⟨matched, more, hword, hleft, .inl hmatched⟩
    · exact ⟨matched, more, hword, hleft, .inr hmatched⟩
  · rintro ⟨matched, more, hword, hleft, hmatched | hmatched⟩
    · exact .inl ⟨matched, more, hword, hleft, hmatched⟩
    · refine .inr ⟨?_, matched, more, hword, hleft, hmatched⟩
      by_contra hsome
      obtain ⟨left', hleft'⟩ := Option.ne_none_iff_exists'.mp hsome
      obtain ⟨matched', more', hword', -, hmatched'⟩ :=
        (stripPrefixInsens_word (by decide) hrest).mp hleft'
      -- one word would start with both keywords
      have hlower := congrArg lower (hword.symm.trans hword')
      simp only [lower, List.map_append] at hlower hmatched hmatched'
      rw [hmatched, hmatched'] at hlower
      simp at hlower

theorem parses_keyword (s : List Char) : Parses labelGrammar
    (.alt (.insens ['t', 'r', 'u', 'e']) (.insens ['f', 'a', 'l', 's', 'e'])) s
    (ofRest (keywordLeft s)) := by
  have htrue := Parses.insens (G := labelGrammar) (s := s) ['t', 'r', 'u', 'e']
  have hfalse := Parses.insens (G := labelGrammar) (s := s) ['f', 'a', 'l', 's', 'e']
  unfold keywordLeft
  cases hstrip : stripPrefixInsens ['t', 'r', 'u', 'e'] s with
  | some left => exact .alt_left (by simpa [hstrip, ofRest] using htrue)
  | none => exact .alt_right (by simpa [hstrip, ofRest] using htrue) hfalse

/-- `bool_lit` reads a keyword that no word character follows. -/
theorem parses_boolLit_body {left : List Char} (h : keywordLeft s = some left)
    (hleft : left.head?.any isWordChar = false) :
    Parses labelGrammar (labelGrammar.body .boolLit) s (.ok [] left) := by
  have hkeyword := parses_keyword s
  have hnext := Parses.char (G := labelGrammar) isWordChar left
  have hfail : Parses labelGrammar (.char isWordChar) left .fail := by
    cases left with
    | nil => exact hnext
    | cons c left => rwa [Parses.classOutcome, if_neg (by simpa using hleft)] at hnext
  rw [h] at hkeyword
  exact hkeyword.seq_ok (.not_ok hfail)

theorem parses_boolLit_body_fail
    (h : ∀ left, keywordLeft s = some left → left.head?.any isWordChar = true) :
    Parses labelGrammar (labelGrammar.body .boolLit) s .fail := by
  have hkeyword := parses_keyword s
  cases hleft : keywordLeft s with
  | none => exact .seq_fail_left (by simpa [hleft, ofRest] using hkeyword)
  | some left =>
      have hnext := Parses.char (G := labelGrammar) isWordChar left
      have hword := h left hleft
      cases left with
      | nil => cases hword
      | cons c left =>
          rw [Parses.classOutcome, if_pos (by simpa using hword)] at hnext
          exact .seq_fail_right (by simpa [hleft, ofRest] using hkeyword) (.not_fail hnext)

/-- A keyword starts like a word. -/
theorem isWordStart_of_keywordLeft {c : Char} {left : List Char}
    (h : keywordLeft (c :: s) = some left) : isWordStart c = true := by
  rw [← isWordStart_toLower]
  rcases Option.or_eq_some_iff.mp h with h | ⟨-, h⟩
  all_goals
    obtain ⟨_ | ⟨d, matched⟩, heq, hmatched⟩ := stripPrefixInsens_eq_some_iff.mp h
    · simp at hmatched
    · simp only [List.map_cons, List.cons.injEq] at hmatched
      rw [(List.cons.inj heq).1, hmatched.1]
      decide

/-- The word is a keyword, whatever the case of its letters. -/
def IsKeyword (word : List Char) : Prop :=
  lower word = ['t', 'r', 'u', 'e'] ∨ lower word = ['f', 'a', 'l', 's', 'e']

theorem wordPair_of_keyword {word : List Char} (h : IsKeyword word) :
    wordPair word = .node .boolLit word [] := by
  unfold wordPair wordToken
  rcases h with h | h <;> simp [h]

theorem wordPair_of_not_keyword {word : List Char} (h : ¬ IsKeyword word) :
    wordPair word = .node .label word [] := by
  rw [IsKeyword, not_or] at h
  unfold wordPair wordToken
  simp [h.1, h.2]

theorem keywordLeft_cons {c : Char} {left : List Char} :
    keywordLeft (c :: s) = some left ↔ ∃ matched more,
      c :: s.takeWhile isWordChar = matched ++ more ∧ left = more ++ s.dropWhile isWordChar ∧
        IsKeyword matched := by
  have hsplit : c :: s = c :: s.takeWhile isWordChar ++ s.dropWhile isWordChar := by
    rw [List.cons_append, List.takeWhile_append_dropWhile]
  exact hsplit ▸ keywordLeft_word (head?_dropWhile_isWordChar s)

/-- `bool_lit` reads any keyword. -/
theorem parses_boolLit {c : Char} (h : IsKeyword (c :: s.takeWhile isWordChar)) :
    Parses labelGrammar (.rule .boolLit) (c :: s)
      (.ok [.node .boolLit (c :: s.takeWhile isWordChar) []] (s.dropWhile isWordChar)) := by
  have hleft : keywordLeft (c :: s) = some (s.dropWhile isWordChar) :=
    keywordLeft_cons.mpr ⟨_, [], (List.append_nil _).symm, rfl, h⟩
  have := Parses.rule_ok (parses_boolLit_body hleft (head?_dropWhile_isWordChar s))
  rwa [Grammar.report, show labelGrammar.kind .boolLit = .atomic from rfl, take_word] at this

/-- `bool_lit` reads no word that only starts with a keyword. -/
theorem parses_boolLit_fail {c : Char} (hstart : isWordStart c = true)
    (h : ¬ IsKeyword (c :: s.takeWhile isWordChar)) :
    Parses labelGrammar (.rule .boolLit) (c :: s) .fail := by
  refine .rule_fail (parses_boolLit_body_fail fun left hleft => ?_)
  obtain ⟨matched, more, hword, rfl, hmatched⟩ := keywordLeft_cons.mp hleft
  cases more with
  | nil =>
      rw [List.append_nil] at hword
      exact absurd (hword ▸ hmatched) h
  | cons d more =>
      have hall : (c :: s.takeWhile isWordChar).all isWordChar = true := by
        rw [List.all_cons, isWordChar_of_isWordStart hstart, List.all_takeWhile, Bool.and_self]
      rw [hword, List.all_append, List.all_cons, Bool.and_eq_true, Bool.and_eq_true] at hall
      simpa using hall.2.1

/-- A text that starts a word is read up to the end of the word: as a literal
if the word is one, else as a label. -/
theorem parses_word (s : List Char) :
    Parses labelGrammar (.alt (.rule .boolLit) (.rule .label)) s (wordOutcome s) := by
  cases s with
  | nil =>
      exact .alt_right (.rule_fail (parses_boolLit_body_fail fun _ h => by simp [keywordLeft,
        stripPrefixInsens] at h)) (parses_label_fail rfl)
  | cons c s =>
      by_cases hstart : isWordStart c = true
      · rw [wordOutcome, if_pos hstart]
        by_cases hkeyword : IsKeyword (c :: s.takeWhile isWordChar)
        · rw [wordPair_of_keyword hkeyword]
          exact .alt_left (parses_boolLit hkeyword)
        · rw [wordPair_of_not_keyword hkeyword]
          exact .alt_right (parses_boolLit_fail hstart hkeyword) (parses_label hstart s)
      · rw [wordOutcome, if_neg hstart]
        refine .alt_right (.rule_fail (parses_boolLit_body_fail fun left h => ?_))
          (parses_label_fail (by simpa using hstart))
        exact absurd (isWordStart_of_keywordLeft h) hstart

end Skuld
