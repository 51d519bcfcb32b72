import Skuld.Label.Words

/-!
# The parser accepts exactly its language

Soundness: what a rule of `label.pest` reads is a phrase of its nonterminal, and
the tree built from the node is the expression the phrase derives.
Completeness: where the tokens of a text start with a phrase, and the token
after it does not go on with it, the rule reads that phrase.

Both go by the length of what is read.  Inside a length, `not_expr` comes first,
`and_expr` and `or_expr` are then the same argument about a chain of operands
(`ChainRule`), and `expr` only wraps `or_expr`.
-/

namespace Skuld

open BoolExpr Peg

variable {s rest : List Char} {pairs : List (Pair Rule)}

/-! ## Phrases -/

/-- What a rule for `level` does when it succeeds: one node, for a phrase. -/
def Phrase (level : Level) (s : List Char) (pairs : List (Pair Rule)) (rest : List Char) : Prop :=
  ∃ pair ts e, pairs = [pair] ∧ buildExpr pair = .ok e ∧ Derives level ts e ∧ Reads s ts rest

def Sound (rule : Rule) (level : Level) (s : List Char) : Prop :=
  ∀ pairs rest, Parses labelGrammar (.rule rule) s (.ok pairs rest) → Phrase level s pairs rest

/-- What may come after a phrase: nothing that would make it longer. -/
def Follow : Level → List Token → Prop
  | .expr, us => us.head? ≠ some .bar ∧ us.head? ≠ some .amp
  | .term, us => us.head? ≠ some .amp
  | .factor, _ => True

def Complete (rule : Rule) (level : Level) (ts : List Token) (e : LabelExpr) : Prop :=
  ∀ s us, s.dropWhile isBlank = s → tokens s = some (ts ++ us) → Follow level us →
    ∃ pair rest, Parses labelGrammar (.rule rule) s (.ok [pair] rest) ∧
      buildExpr pair = .ok e ∧ tokens rest = some us

theorem rule_normal {rule : Rule} (hkind : rule.kind = .normal)
    (h : Parses labelGrammar (labelGrammar.body rule) s (.ok pairs rest)) :
    Parses labelGrammar (.rule rule) s
      (.ok [.node rule (s.take (s.length - rest.length)) pairs] rest) := by
  have hrule := h.rule_ok
  rwa [Grammar.report, show labelGrammar.kind rule = .normal from hkind] at hrule

theorem rule_normal_inv {rule : Rule} (hkind : rule.kind = .normal)
    (h : Parses labelGrammar (.rule rule) s (.ok pairs rest)) :
    ∃ text inner, Parses labelGrammar (labelGrammar.body rule) s (.ok inner rest) ∧
      pairs = [.node rule text inner] := by
  obtain ⟨inner, hbody, rfl⟩ := h.rule_inv
  refine ⟨s.take (s.length - rest.length), inner, hbody, ?_⟩
  rw [Grammar.report, show labelGrammar.kind rule = .normal from hkind]

/-- A node that only stands for what is in it. -/
theorem Phrase.wrap {rule : Rule} {level : Level} (h : Phrase level s pairs rest)
    (hrule : ∀ text inner, buildExpr (.node rule text inner) = buildNext inner)
    (text : List Char) : Phrase level s [.node rule text pairs] rest := by
  obtain ⟨pair, ts, e, rfl, hbuild, hts, hreads⟩ := h
  exact ⟨_, ts, e, rfl, (hrule _ _).trans hbuild, hts, hreads⟩

theorem length_rest_le {e : Exp Rule} (h : Parses labelGrammar e s (.ok pairs rest)) :
    rest.length ≤ s.length := by
  obtain ⟨fuel, h⟩ := h
  exact (labelCertificate.rest_length h).1

theorem length_dropWhile_le (p : Char → Bool) (s : List Char) :
    (s.dropWhile p).length ≤ s.length :=
  (List.dropWhile_suffix p).length_le

/-! ## Words as phrases -/

def wordExpr (word : List Char) : LabelExpr :=
  match wordToken word with
  | .bool b => .const b
  | _ => .terminal (String.ofList (lower word))

theorem derives_word (word : List Char) : Derives .factor [wordToken word] (wordExpr word) := by
  unfold wordExpr wordToken
  split_ifs
  · exact .bool true
  · exact .bool false
  · exact .name word

theorem buildExpr_wordPair (word : List Char) :
    buildExpr (wordPair word) = .ok (wordExpr word) := by
  unfold wordPair wordExpr wordToken
  split_ifs with htrue hfalse
  · have : eqIgnoreAsciiCase word ['t', 'r', 'u', 'e'] = true := by
      unfold eqIgnoreAsciiCase toAsciiLowercase
      rw [← lower, htrue]
      decide
    simp [buildExpr, this]
  · have : eqIgnoreAsciiCase word ['t', 'r', 'u', 'e'] = false := by
      unfold eqIgnoreAsciiCase toAsciiLowercase
      rw [← lower, hfalse]
      decide
    simp [buildExpr, this]
  · simp [buildExpr, toAsciiLowercase, lower]

theorem wordOutcome_sound (h : wordOutcome s = .ok pairs rest) : Phrase .factor s pairs rest := by
  cases s with
  | nil => cases h
  | cons c s =>
      rw [wordOutcome] at h
      split_ifs at h with hstart
      cases h
      exact ⟨_, _, _, rfl, buildExpr_wordPair _, derives_word _, .word hstart s⟩

/-! ## Chains of operands -/

/-- A rule `operand ~ (op ~ operand)*` whose node is folded from the left. -/
structure ChainRule extends OpLevel where
  rule : Rule
  operandRule : Rule
  kind_eq : rule.kind = .normal
  written_eq : rule.written =
    .seq (.rule operandRule) (.star (.seq (.lit [char]) (.rule operandRule)))
  buildExpr_eq : ∀ text inner, buildExpr (.node rule text inner) = buildChain op inner
  follow_operand : ∀ {us}, Follow here us → Follow operand us
  follow_token : ∀ us, Follow operand (token :: us)
  follow_stop : ∀ {us}, Follow here us → us.head? ≠ some token

def orRule : ChainRule where
  toOpLevel := orLevel
  rule := .orExpr
  operandRule := .andExpr
  kind_eq := rfl
  written_eq := rfl
  buildExpr_eq _ _ := by rw [buildExpr]; rfl
  follow_operand h := h.2
  follow_token us := by simp [Follow, orLevel]
  follow_stop h := h.1

def andRule : ChainRule where
  toOpLevel := andLevel
  rule := .andExpr
  operandRule := .notExpr
  kind_eq := rfl
  written_eq := rfl
  buildExpr_eq _ _ := by rw [buildExpr]; rfl
  follow_operand _ := trivial
  follow_token _ := trivial
  follow_stop h := h

namespace ChainRule

variable (L : ChainRule)

/-- One operator with the operand after it. -/
def round : Exp Rule :=
  .seq (.lit [L.char]) (.seq skip (.rule L.operandRule))

theorem body_eq : labelGrammar.body L.rule = .seq (.rule L.operandRule)
    (.seq skip (.alt (.seq L.round (.star (.seq skip L.round))) .empty)) := by
  simp only [labelGrammar, L.kind_eq, L.written_eq, Exp.spaced, round]

theorem round_sound {n : ℕ} (hop : ∀ s : List Char, s.length < n → Sound L.operandRule L.operand s)
    (hs : s.length ≤ n) (h : Parses labelGrammar L.round s (.ok pairs rest)) :
    ∃ pair us b, pairs = [pair] ∧ buildExpr pair = .ok b ∧ Derives L.operand us b ∧
      Reads s (L.token :: us) rest := by
  obtain ⟨pairs₁, middle, pairs₂, hlit, hoperand, rfl⟩ := spaced_inv h
  obtain ⟨rfl, rfl⟩ := lit_inv hlit
  have hlen := length_dropWhile_le isBlank middle
  obtain ⟨pair, us, b, rfl, hbuild, hus, hreads⟩ :=
    hop _ (by simp only [List.length_cons] at hs; omega) _ _ hoperand
  refine ⟨pair, us, b, rfl, hbuild, hus, ?_⟩
  exact ((Reads.symbol L.symbol_char middle).trans (.blanks middle)).trans hreads

/-- The rounds after the first operand: a list of phrases, folded onto any tree. -/
def Rounds (s : List Char) (pairs : List (Pair Rule)) (rest : List Char) : Prop :=
  ∃ operands : List (List Token × LabelExpr), (∀ x ∈ operands, Derives L.operand x.1 x.2) ∧
    Reads s (L.tail operands) rest ∧
    ∀ left, buildLoop L.op left pairs = .ok (L.fold left operands)

theorem rounds_nil (s : List Char) : L.Rounds s [] s :=
  ⟨[], by simp, by simp [Reads, OpLevel.tail], fun left => by simp [buildLoop, OpLevel.fold]⟩

theorem rounds_cons {n : ℕ} {middle : List Char} {pairs' : List (Pair Rule)}
    (hop : ∀ s : List Char, s.length < n → Sound L.operandRule L.operand s) (hs : s.length ≤ n)
    (hround : Parses labelGrammar L.round s (.ok pairs middle)) (h : L.Rounds middle pairs' rest) :
    L.Rounds s (pairs ++ pairs') rest := by
  obtain ⟨pair, us, b, rfl, hbuild, hus, hreads⟩ := L.round_sound hop hs hround
  obtain ⟨operands, hops, htail, hloop⟩ := h
  refine ⟨(us, b) :: operands, ?_, hreads.trans htail, fun left => ?_⟩
  · simpa [hus] using hops
  · simp only [List.singleton_append, buildLoop, hbuild]
    exact hloop _

theorem rounds_sound {n : ℕ}
    (hop : ∀ s : List Char, s.length < n → Sound L.operandRule L.operand s) (hs : s.length ≤ n)
    (h : Parses labelGrammar (.star (.seq skip L.round)) s (.ok pairs rest)) :
    L.Rounds s pairs rest := by
  refine Parses.star_induction (motive := fun s pairs => s.length ≤ n → L.Rounds s pairs rest)
    h (fun _ _ => L.rounds_nil rest) (fun {s _ middle _} hmore ih hs => ?_) hs
  obtain ⟨pairs₀, middle₀, pairs₁, hskip, hround, rfl⟩ := hmore.seq_inv
  obtain ⟨rfl, rfl⟩ := skip_inv hskip
  have hlen := length_dropWhile_le isBlank s
  have hmiddle := length_rest_le hround
  obtain ⟨operands, hops, htail, hloop⟩ :=
    L.rounds_cons hop (by omega) hround (ih (by omega))
  exact ⟨operands, hops, (Reads.blanks s).trans htail, hloop⟩

theorem sound {n : ℕ} (hop : ∀ s : List Char, s.length ≤ n → Sound L.operandRule L.operand s)
    (hs : s.length ≤ n) : Sound L.rule L.here s := by
  intro pairs rest h
  obtain ⟨text, inner, hbody, rfl⟩ := rule_normal_inv L.kind_eq h
  rw [body_eq] at hbody
  obtain ⟨pairs₁, middle, pairs₂, hfirst, hmore, rfl⟩ := spaced_inv hbody
  obtain ⟨pair, ts, e, rfl, hbuild, hts, hreads⟩ := hop s hs _ _ hfirst
  have hlen := length_rest_le hfirst
  have hlen' := length_dropWhile_le isBlank middle
  have hop' : ∀ s : List Char, s.length < n → Sound L.operandRule L.operand s :=
    fun s hs => hop s (by omega)
  have hrounds : L.Rounds (middle.dropWhile isBlank) pairs₂ rest := by
    rcases hmore.alt_inv with hmore | ⟨-, hempty⟩
    · obtain ⟨pairs₃, middle', pairs₄, hround, hstar, rfl⟩ := hmore.seq_inv
      have hmiddle' := length_rest_le hround
      exact L.rounds_cons hop' (by omega) hround (L.rounds_sound hop' (by omega) hstar)
    · cases hempty.unique .empty
      exact L.rounds_nil _
  obtain ⟨operands, hops, htail, hloop⟩ := hrounds
  refine ⟨_, ts ++ L.tail operands, L.fold e operands, rfl, ?_, ?_, ?_⟩
  · rw [L.buildExpr_eq, List.singleton_append, buildChain, hbuild]
    exact hloop e
  · exact L.derives_fold (L.base hts) hops
  · simpa using (hreads.trans (.blanks middle)).trans htail

end ChainRule

/-! ## Soundness -/

theorem sound_expr (h : Sound .orExpr .expr s) : Sound .expr .expr s := by
  intro pairs rest hparse
  obtain ⟨text, inner, hbody, rfl⟩ := rule_normal_inv rfl hparse
  exact (h _ _ hbody).wrap (fun _ _ => by rw [buildExpr]) text

/-- `primary`: a parenthesised expression or a word. -/
theorem sound_primary {n : ℕ} (hexpr : ∀ s : List Char, s.length < n → Sound .expr .expr s)
    (hs : s.length ≤ n) : Sound .primary .factor s := by
  intro pairs rest h
  obtain ⟨text, inner, hbody, rfl⟩ := rule_normal_inv rfl h
  refine Phrase.wrap ?_ (fun _ _ => by rw [buildExpr]) text
  rcases hbody.alt_inv with hparen | ⟨-, hword⟩
  · obtain ⟨pairs₁, middle, pairs₂, hopen, hmore, rfl⟩ := spaced_inv hparen
    obtain ⟨rfl, rfl⟩ := lit_inv hopen
    obtain ⟨pairs₃, middle', pairs₄, hinner, hclose, rfl⟩ := spaced_inv hmore
    obtain ⟨rfl, hrest⟩ := lit_inv hclose
    have hlen := length_dropWhile_le isBlank middle
    obtain ⟨pair, ts, e, rfl, hbuild, hts, hreads⟩ :=
      hexpr _ (by simp only [List.length_cons] at hs; omega) _ _ hinner
    refine ⟨pair, .lpar :: ts ++ [.rpar], e, rfl, hbuild, .paren hts, ?_⟩
    have hopened : Reads ('(' :: middle) [.lpar] (middle.dropWhile isBlank) :=
      (Reads.symbol rfl middle).trans (.blanks middle)
    have hclosed : Reads middle' [.rpar] rest :=
      (Reads.blanks middle').trans (hrest ▸ Reads.symbol rfl rest)
    simpa using (hopened.trans hreads).trans hclosed
  · exact wordOutcome_sound ((parses_word s).unique hword)

/-- `not_expr`: a negated `not_expr` or a `primary`. -/
theorem sound_notExpr {n : ℕ} (hexpr : ∀ s : List Char, s.length < n → Sound .expr .expr s)
    (hneg : ∀ s : List Char, s.length < n → Sound .notExpr .factor s) (hs : s.length ≤ n) :
    Sound .notExpr .factor s := by
  intro pairs rest h
  obtain ⟨text, inner, hbody, rfl⟩ := rule_normal_inv rfl h
  refine Phrase.wrap ?_ (fun _ _ => by rw [buildExpr]) text
  rcases hbody.alt_inv with hbang | ⟨-, hprimary⟩
  · obtain ⟨text', inner, hneg', rfl⟩ := rule_normal_inv rfl hbang
    obtain ⟨pairs₁, middle, pairs₂, hlit, hoperand, rfl⟩ := spaced_inv hneg'
    obtain ⟨rfl, rfl⟩ := lit_inv hlit
    have hlen := length_dropWhile_le isBlank middle
    obtain ⟨pair, ts, e, rfl, hbuild, hts, hreads⟩ :=
      hneg _ (by simp only [List.length_cons] at hs; omega) _ _ hoperand
    refine ⟨_, .bang :: ts, .not e, rfl, ?_, .not hts, ?_⟩
    · simp [buildExpr, buildNext, hbuild, bind, Except.bind, pure, Except.pure]
    · have hbang : Reads ('!' :: middle) [.bang] (middle.dropWhile isBlank) :=
        (Reads.symbol rfl middle).trans (.blanks middle)
      exact hbang.trans hreads
  · exact sound_primary hexpr hs _ _ hprimary

theorem sound_of_notExpr {n : ℕ}
    (hnot : ∀ s : List Char, s.length ≤ n → Sound .notExpr .factor s) (hs : s.length ≤ n) :
    Sound .expr .expr s :=
  sound_expr (orRule.sound (fun _ hs => andRule.sound hnot hs) hs)

/-- Everything the parser reads is a phrase. -/
theorem sound_rules (n : ℕ) : ∀ s : List Char, s.length ≤ n →
    Sound .notExpr .factor s ∧ Sound .expr .expr s := by
  induction n with
  | zero =>
      have hnot : ∀ s : List Char, s.length ≤ 0 → Sound .notExpr .factor s := fun s hs =>
        sound_notExpr (fun _ h => absurd h (by omega)) (fun _ h => absurd h (by omega)) hs
      exact fun s hs => ⟨hnot s hs, sound_of_notExpr hnot hs⟩
  | succ n ih =>
      have hnot : ∀ s : List Char, s.length ≤ n + 1 → Sound .notExpr .factor s := fun s hs =>
        sound_notExpr (fun s hs => (ih s (by omega)).2) (fun s hs => (ih s (by omega)).1) hs
      exact fun s hs => ⟨hnot s hs, sound_of_notExpr hnot hs⟩

/-! ## Completeness -/

theorem wordToken_ne_symbol {c : Char} {t : Token} (h : symbol c = some t) (word : List Char) :
    wordToken word ≠ t := by
  unfold wordToken
  rcases symbol_cases h with ⟨-, rfl⟩ | ⟨-, rfl⟩ | ⟨-, rfl⟩ | ⟨-, rfl⟩ | ⟨-, rfl⟩ <;>
    split_ifs <;> simp

theorem symbol_inj {c c' : Char} {t : Token} (h : symbol c = some t) (h' : symbol c' = some t) :
    c = c' := by
  rcases symbol_cases h with ⟨rfl, rfl⟩ | ⟨rfl, rfl⟩ | ⟨rfl, rfl⟩ | ⟨rfl, rfl⟩ | ⟨rfl, rfl⟩ <;>
    simpa [eq_comm] using symbol_cases h'

/-- A text whose first token is a symbol starts with it. -/
theorem tokens_symbol_inv {c : Char} {t : Token} {ts : List Token} (hsymbol : symbol c = some t)
    (hs : s.dropWhile isBlank = s) (h : tokens s = some (t :: ts)) :
    ∃ rest, s = c :: rest ∧ tokens rest = some ts := by
  rcases tokens_cons_inv hs h with ⟨c', rest, rfl, hsymbol', hrest⟩ | ⟨_, _, _, _, hword, _⟩
  · rw [symbol_inj hsymbol hsymbol']
    exact ⟨rest, rfl, hrest⟩
  · exact absurd hword.symm (wordToken_ne_symbol hsymbol _)

/-- A text whose first token is not the symbol does not start with it. -/
theorem head?_ne_of_tokens {c : Char} {t : Token} {ts : List Token} (hsymbol : symbol c = some t)
    (h : tokens s = some ts) (hhead : ts.head? ≠ some t) : s.head? ≠ some c := by
  intro hc
  cases s with
  | nil => cases hc
  | cons d s =>
      rw [List.head?_cons, Option.some.injEq] at hc
      rw [hc, tokens_symbol hsymbol, Option.map_eq_some_iff] at h
      obtain ⟨us, -, rfl⟩ := h
      exact hhead rfl

namespace ChainRule

variable (L : ChainRule) {us vs : List Token} {b : LabelExpr}

theorem round_complete (hop : Complete L.operandRule L.operand us b)
    (hs : s.dropWhile isBlank = s) (htokens : tokens s = some (L.token :: (us ++ vs)))
    (hfollow : Follow L.operand vs) :
    ∃ pair rest, Parses labelGrammar L.round s (.ok [pair] rest) ∧ buildExpr pair = .ok b ∧
      tokens rest = some vs := by
  obtain ⟨middle, rfl, hmiddle⟩ := tokens_symbol_inv L.symbol_char hs htokens
  obtain ⟨pair, rest, hoperand, hbuild, hrest⟩ := hop (middle.dropWhile isBlank) vs
    (dropWhile_isBlank_idem middle) (by rw [tokens_dropWhile_isBlank, hmiddle]) hfollow
  exact ⟨pair, rest, spaced_ok (parses_lit L.char middle) hoperand, hbuild, hrest⟩

theorem round_fail (htokens : tokens s = some vs) (hhead : vs.head? ≠ some L.token) :
    Parses labelGrammar L.round s .fail :=
  .seq_fail_left (parses_lit_fail (head?_ne_of_tokens L.symbol_char htokens hhead))

theorem follow_tail (operands : List (List Token × LabelExpr)) (h : Follow L.here vs) :
    Follow L.operand (L.tail operands ++ vs) := by
  cases operands with
  | nil => exact L.follow_operand h
  | cons operand operands => exact L.follow_token _

/-- The rounds go on to the last operand and stop there. -/
theorem rounds_complete {operands : List (List Token × LabelExpr)}
    (hop : ∀ x ∈ operands, Complete L.operandRule L.operand x.1 x.2) (s : List Char)
    (htokens : tokens s = some (L.tail operands ++ vs)) (hfollow : Follow L.here vs) :
    ∃ pairs rest, Parses labelGrammar (.star (.seq skip L.round)) s (.ok pairs rest) ∧
      tokens rest = some vs ∧
      ∀ left, buildLoop L.op left pairs = .ok (L.fold left operands) := by
  induction operands generalizing s with
  | nil =>
      have hfail := L.round_fail (s := s.dropWhile isBlank)
        (by rwa [tokens_dropWhile_isBlank]) (L.follow_stop hfollow)
      exact ⟨[], s, .star_stop ((parses_skip s).seq_fail_right hfail), htokens,
        fun left => by simp [buildLoop, OpLevel.fold]⟩
  | cons operand operands ih =>
      obtain ⟨us, b⟩ := operand
      obtain ⟨pair, middle, hround, hbuild, hmiddle⟩ :=
        L.round_complete (hop _ List.mem_cons_self) (dropWhile_isBlank_idem s)
          (by rw [tokens_dropWhile_isBlank, htokens, OpLevel.tail, List.append_assoc]; rfl)
          (L.follow_tail operands hfollow)
      obtain ⟨pairs, rest, hstar, hrest, hloop⟩ :=
        ih (fun x hx => hop x (List.mem_cons_of_mem _ hx)) middle hmiddle
      refine ⟨[] ++ [pair] ++ pairs, rest, ((parses_skip s).seq_ok hround).star_more hstar, hrest,
        fun left => ?_⟩
      simp only [List.nil_append, List.singleton_append, buildLoop, hbuild]
      exact hloop _

/-- The same for the body of the rule, where the blanks before the first round
are skipped whether or not there is one. -/
theorem tail_complete {operands : List (List Token × LabelExpr)}
    (hop : ∀ x ∈ operands, Complete L.operandRule L.operand x.1 x.2) (hs : s.dropWhile isBlank = s)
    (htokens : tokens s = some (L.tail operands ++ vs)) (hfollow : Follow L.here vs) :
    ∃ pairs rest, Parses labelGrammar (.alt (.seq L.round (.star (.seq skip L.round))) .empty) s
        (.ok pairs rest) ∧ tokens rest = some vs ∧
      ∀ left, buildLoop L.op left pairs = .ok (L.fold left operands) := by
  cases operands with
  | nil =>
      have hfail := L.round_fail htokens (L.follow_stop hfollow)
      exact ⟨[], s, .alt_right (.seq_fail_left hfail) .empty, htokens,
        fun left => by simp [buildLoop, OpLevel.fold]⟩
  | cons operand operands =>
      obtain ⟨us, b⟩ := operand
      obtain ⟨pair, middle, hround, hbuild, hmiddle⟩ :=
        L.round_complete (hop _ List.mem_cons_self) hs
          (by rw [htokens, OpLevel.tail, List.append_assoc]; rfl)
          (L.follow_tail operands hfollow)
      obtain ⟨pairs, rest, hstar, hrest, hloop⟩ :=
        L.rounds_complete (fun x hx => hop x (List.mem_cons_of_mem _ hx)) middle hmiddle hfollow
      refine ⟨[pair] ++ pairs, rest, .alt_left (hround.seq_ok hstar), hrest, fun left => ?_⟩
      simp only [List.singleton_append, buildLoop, hbuild]
      exact hloop _

theorem complete {ts : List Token} {e : LabelExpr} (h : L.Chain ts e)
    (hop : ∀ us b, us.length ≤ ts.length → Derives L.operand us b →
      Complete L.operandRule L.operand us b) : Complete L.rule L.here ts e := by
  obtain ⟨ts₀, e₀, operands, hfirst, hoperands, rfl, rfl⟩ := h
  intro s vs hs htokens hfollow
  rw [List.length_append] at hop
  have hop' : ∀ x ∈ operands, Complete L.operandRule L.operand x.1 x.2 := fun x hx => by
    have := L.length_le_tail hx
    exact hop x.1 x.2 (by omega) (hoperands x hx)
  obtain ⟨pair, middle, hfirst, hbuild, hmiddle⟩ := hop ts₀ e₀ (by omega) hfirst s
    (L.tail operands ++ vs) hs (by rw [htokens, List.append_assoc]) (L.follow_tail operands hfollow)
  obtain ⟨pairs, rest, hmore, hrest, hloop⟩ := L.tail_complete hop'
    (dropWhile_isBlank_idem middle) (by rwa [tokens_dropWhile_isBlank]) hfollow
  have hrule := rule_normal L.kind_eq (L.body_eq ▸ spaced_ok hfirst hmore)
  refine ⟨_, rest, hrule, ?_, hrest⟩
  rw [L.buildExpr_eq, List.singleton_append, buildChain, hbuild]
  exact hloop e₀

end ChainRule

theorem head?_eq_of_tokens_symbol {c d : Char} {t : Token} {ts : List Token}
    (hsymbol : symbol c = some t) (hs : s.dropWhile isBlank = s) (h : tokens s = some (t :: ts))
    (hne : c ≠ d) : s.head? ≠ some d := by
  obtain ⟨rest, rfl, -⟩ := tokens_symbol_inv hsymbol hs h
  simpa using hne

/-- A `primary` that no `!` precedes is a `not_expr`. -/
theorem notExpr_of_primary {pair : Pair Rule} {e : LabelExpr} (hbang : s.head? ≠ some '!')
    (h : Parses labelGrammar (labelGrammar.body .primary) s (.ok [pair] rest))
    (hbuild : buildExpr pair = .ok e) :
    ∃ pair', Parses labelGrammar (.rule .notExpr) s (.ok [pair'] rest) ∧
      buildExpr pair' = .ok e := by
  have hneg : Parses labelGrammar (.rule .neg) s .fail :=
    .rule_fail (.seq_fail_left (parses_lit_fail hbang))
  have hbody : Parses labelGrammar (labelGrammar.body .notExpr) s _ :=
    .alt_right hneg (rule_normal rfl h)
  exact ⟨_, rule_normal rfl hbody, by simp only [buildExpr, buildNext, hbuild]⟩

theorem complete_word {t : Token} {us : List Token} (hs : s.dropWhile isBlank = s)
    (htokens : tokens s = some (t :: us)) (hword : ∀ c, symbol c ≠ some t) :
    ∃ word pair rest, t = wordToken word ∧
      Parses labelGrammar (.rule .notExpr) s (.ok [pair] rest) ∧
      buildExpr pair = .ok (wordExpr word) ∧ tokens rest = some us := by
  rcases tokens_cons_inv hs htokens with ⟨c, _, _, hc, _⟩ | ⟨c, s', rfl, hstart, rfl, hrest⟩
  · exact absurd hc (hword c)
  · have hne : ∀ d t, symbol d = some t → (c :: s').head? ≠ some d := fun d t hd heq => by
      rw [List.head?_cons, Option.some.injEq] at heq
      have := isWordChar_of_isWordStart hstart
      rw [heq, symbol_isWordChar hd] at this
      cases this
    have hparse := parses_word (c :: s')
    rw [wordOutcome, if_pos hstart] at hparse
    have hprimary : Parses labelGrammar (labelGrammar.body .primary) (c :: s') _ :=
      .alt_right (.seq_fail_left (parses_lit_fail (hne '(' .lpar rfl))) hparse
    obtain ⟨pair, hnot, hbuild⟩ :=
      notExpr_of_primary (hne '!' .bang rfl) hprimary (buildExpr_wordPair _)
    exact ⟨_, pair, _, rfl, hnot, hbuild, hrest⟩

theorem complete_expr {ts : List Token} {e : LabelExpr} (h : Complete .orExpr .expr ts e) :
    Complete .expr .expr ts e := by
  intro s us hs htokens hfollow
  obtain ⟨pair, rest, hor, hbuild, hrest⟩ := h s us hs htokens hfollow
  have hrule : Parses labelGrammar (.rule .expr) s _ := rule_normal rfl hor
  exact ⟨_, rest, hrule, by simp only [buildExpr, buildNext, hbuild], hrest⟩

theorem complete_not {ts : List Token} {e : LabelExpr} (h : Complete .notExpr .factor ts e) :
    Complete .notExpr .factor (.bang :: ts) (.not e) := by
  intro s us hs htokens _
  obtain ⟨middle, rfl, hmiddle⟩ := tokens_symbol_inv (c := '!') rfl hs htokens
  obtain ⟨pair, rest, hoperand, hbuild, hrest⟩ := h (middle.dropWhile isBlank) us
    (dropWhile_isBlank_idem middle) (by rw [tokens_dropWhile_isBlank, hmiddle]; rfl) trivial
  have hneg : Parses labelGrammar (labelGrammar.body .neg) ('!' :: middle) _ :=
    spaced_ok (parses_lit '!' middle) hoperand
  have hbody : Parses labelGrammar (labelGrammar.body .notExpr) ('!' :: middle) _ :=
    .alt_left (rule_normal rfl hneg)
  refine ⟨_, rest, rule_normal rfl hbody, ?_, hrest⟩
  simp [buildExpr, buildNext, hbuild, bind, Except.bind, pure, Except.pure]

theorem complete_paren {ts : List Token} {e : LabelExpr} (h : Complete .expr .expr ts e) :
    Complete .notExpr .factor (.lpar :: ts ++ [.rpar]) e := by
  intro s us hs htokens _
  have hbang : s.head? ≠ some '!' := head?_eq_of_tokens_symbol (c := '(') rfl hs htokens (by decide)
  obtain ⟨middle, rfl, hmiddle⟩ := tokens_symbol_inv (c := '(') rfl hs htokens
  obtain ⟨pair, middle', hinner, hbuild, hmiddle'⟩ := h (middle.dropWhile isBlank) (.rpar :: us)
    (dropWhile_isBlank_idem middle) (by rw [tokens_dropWhile_isBlank, hmiddle]; simp)
    (by simp [Follow])
  obtain ⟨rest, hclose, hrest⟩ := tokens_symbol_inv (c := ')') rfl (dropWhile_isBlank_idem middle')
    (by rwa [tokens_dropWhile_isBlank])
  have hprimary : Parses labelGrammar (labelGrammar.body .primary) ('(' :: middle) _ :=
    .alt_left (spaced_ok (parses_lit '(' middle)
      (spaced_ok hinner (hclose ▸ parses_lit ')' rest)))
  obtain ⟨pair', hnot, hbuild'⟩ := notExpr_of_primary hbang hprimary hbuild
  exact ⟨pair', rest, hnot, hbuild', hrest⟩

/-- Every phrase is read where nothing makes it longer. -/
theorem complete_rules (n : ℕ) : ∀ ts e, ts.length ≤ n →
    (Derives .factor ts e → Complete .notExpr .factor ts e) ∧
      (Derives .expr ts e → Complete .expr .expr ts e) := by
  -- inside a length: factors first, then the two chains
  have hchains : ∀ n, (∀ ts e, ts.length ≤ n → Derives .factor ts e →
      Complete .notExpr .factor ts e) → ∀ ts e, ts.length ≤ n →
      Derives .expr ts e → Complete .expr .expr ts e := fun n hfactor ts e hts h =>
    complete_expr <| orRule.complete h.chain_or fun us b hus hb =>
      andRule.complete hb.chain_and fun vs c hvs hc => hfactor vs c (by omega) hc
  induction n with
  | zero =>
      intro ts e hts
      have hnil : ts = [] := List.length_eq_zero_iff.mp (by omega)
      exact ⟨fun h => absurd hnil h.ne_nil, fun h => absurd hnil h.ne_nil⟩
  | succ n ih =>
      have hfactor : ∀ ts e, ts.length ≤ n + 1 → Derives .factor ts e →
          Complete .notExpr .factor ts e := by
        intro ts e hts h
        cases h with
        | not h => exact complete_not ((ih _ _ (by simp at hts; omega)).1 h)
        | paren h => exact complete_paren ((ih _ _ (by simp at hts; omega)).2 h)
        | bool b =>
            intro s us hs htokens _
            obtain ⟨word, pair, rest, hword, hnot, hbuild, hrest⟩ :=
              complete_word hs htokens fun c hc => by simpa using symbol_cases hc
            exact ⟨pair, rest, hnot, by rw [hbuild, wordExpr, ← hword], hrest⟩
        | name word =>
            intro s us hs htokens _
            obtain ⟨word', pair, rest, hword, hnot, hbuild, hrest⟩ :=
              complete_word hs htokens fun c hc => by simpa using symbol_cases hc
            have heq : word = word' := by
              unfold wordToken at hword
              split_ifs at hword
              exact Token.name.inj hword
            exact ⟨pair, rest, hnot, by rw [hbuild, wordExpr, ← hword, heq], hrest⟩
      exact fun ts e hts => ⟨hfactor ts e hts, hchains (n + 1) hfactor ts e hts⟩

/-! ## The parser -/

theorem input_sound (h : Parses labelGrammar (.rule .input) s (.ok pairs rest)) :
    ∃ text pair more ts e, pairs = [.node .input text (pair :: more)] ∧
      findExpr (pair :: more) = some pair ∧ buildExpr pair = .ok e ∧ Derives .expr ts e ∧
      tokens s = some ts := by
  obtain ⟨text, inner, hbody, rfl⟩ := rule_normal_inv rfl h
  obtain ⟨pairs₀, middle₀, pairs', hsoi, hmore, rfl⟩ := spaced_inv hbody
  cases hsoi.unique .empty
  obtain ⟨pairs₁, middle, pairs₂, hexpr, heoi, rfl⟩ := spaced_inv hmore
  obtain ⟨pair, ts, e, rfl, hbuild, hts, hreads⟩ := (sound_rules _ _ le_rfl).2 _ _ hexpr
  obtain ⟨text', inner', -, hpair⟩ := rule_normal_inv rfl hexpr
  obtain ⟨eoi, hend, -⟩ := heoi.rule_inv
  obtain ⟨hnil, -⟩ := hend.eoi_inv
  refine ⟨_, pair, pairs₂, ts, e, rfl, ?_, hbuild, hts, ?_⟩
  · rw [(List.cons.inj hpair).1, findExpr, if_pos rfl]
  · have hall := (Reads.blanks s).trans (hreads.trans (.blanks middle))
    rw [hnil] at hall
    simpa using hall.tokens_eq

theorem input_complete {ts : List Token} {e : LabelExpr} (htokens : tokens s = some ts)
    (h : Derives .expr ts e) :
    ∃ text pair more, Parses labelGrammar (.rule .input) s
      (.ok [.node .input text (pair :: more)] []) ∧ findExpr (pair :: more) = some pair ∧
      buildExpr pair = .ok e := by
  obtain ⟨pair, rest, hexpr, hbuild, hrest⟩ := (complete_rules _ ts e le_rfl).2 h
    (s.dropWhile isBlank) [] (dropWhile_isBlank_idem s)
    (by rw [tokens_dropWhile_isBlank, htokens, List.append_nil]) (by simp [Follow])
  obtain ⟨text, inner, -, hpair⟩ := rule_normal_inv rfl hexpr
  have hnil : rest.dropWhile isBlank = [] :=
    eq_nil_of_tokens (dropWhile_isBlank_idem rest) (by rwa [tokens_dropWhile_isBlank])
  have heoi := Parses.rule_ok (show Parses labelGrammar (labelGrammar.body .eoi) [] _ from .eoi_nil)
  have hbody : Parses labelGrammar (labelGrammar.body .input) s _ :=
    spaced_ok .empty (spaced_ok hexpr (hnil ▸ heoi))
  have hrule := rule_normal rfl hbody
  rw [List.nil_append, List.singleton_append, hnil] at hrule
  refine ⟨_, pair, _, hrule, ?_, hbuild⟩
  rw [(List.cons.inj hpair).1, findExpr, if_pos rfl]

/-- The parser returns exactly the expression that the text derives. -/
theorem parseRawLabelExpr_eq_ok_iff {input : String} {e : LabelExpr} :
    parseRawLabelExpr input = .ok e ↔
      ∃ ts, tokens input.toList = some ts ∧ Derives .expr ts e := by
  obtain ⟨o, ho⟩ := Option.ne_none_iff_exists'.mp
    (labelCertificate.run_rule_ne_none .input input.toList)
  constructor
  · intro h
    cases o with
    | fail => simp [parseRawLabelExpr, ho] at h
    | ok pairs rest =>
        obtain ⟨text, pair, more, ts, e', rfl, hfind, hbuild, hts, htokens⟩ :=
          input_sound (.of_run ho)
        simp only [parseRawLabelExpr, ho, hfind, hbuild, Except.ok.injEq] at h
        exact ⟨ts, htokens, h ▸ hts⟩
  · rintro ⟨ts, htokens, hts⟩
    obtain ⟨text, pair, more, hparse, hfind, hbuild⟩ := input_complete htokens hts
    rw [(Parses.of_run ho).unique hparse] at ho
    simp only [parseRawLabelExpr, ho, hfind, hbuild]

/-- What the parser rejects it rejects with pest's report: no `unwrap` fails. -/
theorem eq_pest_of_parseRawLabelExpr {input : String} {err : ParseError}
    (h : parseRawLabelExpr input = .error err) : err = .pest := by
  obtain ⟨o, ho⟩ := Option.ne_none_iff_exists'.mp
    (labelCertificate.run_rule_ne_none .input input.toList)
  cases o with
  | fail => simpa [parseRawLabelExpr, ho, eq_comm] using h
  | ok pairs rest =>
      obtain ⟨text, pair, more, ts, e, rfl, hfind, hbuild, -⟩ := input_sound (.of_run ho)
      simp [parseRawLabelExpr, ho, hfind, hbuild] at h

end Skuld
