import Skuld.Label.Basic

/-!
# The filter language

What a filter text means, independently of how it is parsed.  `tokens` splits a
text into symbols and maximal words and drops blanks between them; `Derives` is
the unambiguous grammar

```text
E -> E '|' T | T      T -> T '&' F | F      F -> '!' F | '(' E ')' | bool | name
```

with the expression each derivation stands for.  The two left-recursive levels
have one shape, a chain of operands folded from the left; `Derives.chain_or` and
`Derives.chain_and` make that chain explicit.
-/

namespace Skuld

open BoolExpr

/-! ## Tokens -/

inductive Token where
  | bar
  | amp
  | bang
  | lpar
  | rpar
  | bool (b : Bool)
  | name (word : List Char)
  deriving DecidableEq

/-- Space, tab or carriage return. -/
def isBlank (c : Char) : Bool :=
  c = ' ' || c = '\t' || c = '\r'

def symbol : Char → Option Token
  | '|' => some .bar
  | '&' => some .amp
  | '!' => some .bang
  | '(' => some .lpar
  | ')' => some .rpar
  | _ => none

def lower (word : List Char) : List Char :=
  word.map Char.toLower

/-- A word equal to `true` or `false`, ASCII case ignored, is a bool, any other
word a name. -/
def wordToken (word : List Char) : Token :=
  if lower word = ['t', 'r', 'u', 'e'] then .bool true
  else if lower word = ['f', 'a', 'l', 's', 'e'] then .bool false
  else .name word

/-- The tokens of a text; `none` if some character starts no token. -/
def tokens : List Char → Option (List Token)
  | [] => some []
  | c :: s =>
      if isBlank c then tokens s
      else if isWordStart c then
        (tokens (s.dropWhile isWordChar)).map (wordToken (c :: s.takeWhile isWordChar) :: ·)
      else
        match symbol c with
        | some t => (tokens s).map (t :: ·)
        | none => none
termination_by s => s.length
decreasing_by
  all_goals simp only [List.length_cons]
  all_goals have := (List.dropWhile_suffix (l := s) isWordChar).length_le
  all_goals omega

theorem tokens_nil : tokens [] = some [] := by
  rw [tokens]

theorem tokens_blank {c : Char} {s : List Char} (h : isBlank c = true) :
    tokens (c :: s) = tokens s := by
  rw [tokens, if_pos h]

theorem isBlank_of_isWordStart {c : Char} (h : isWordStart c = true) : isBlank c = false := by
  by_contra hb
  simp only [isBlank, Bool.not_eq_false, Bool.or_eq_true, decide_eq_true_eq] at hb
  rcases hb with (rfl | rfl) | rfl <;> simp [isWordStart, Char.isAlpha, Char.isUpper,
    Char.isLower] at h

theorem tokens_word {c : Char} {s : List Char} (h : isWordStart c = true) :
    tokens (c :: s) = (tokens (s.dropWhile isWordChar)).map
      (wordToken (c :: s.takeWhile isWordChar) :: ·) := by
  rw [tokens, if_neg (by simp [isBlank_of_isWordStart h]), if_pos h]

theorem symbol_cases {c : Char} {t : Token} (h : symbol c = some t) :
    (c = '|' ∧ t = .bar) ∨ (c = '&' ∧ t = .amp) ∨ (c = '!' ∧ t = .bang) ∨ (c = '(' ∧ t = .lpar) ∨
      (c = ')' ∧ t = .rpar) := by
  unfold symbol at h
  split at h <;> simp_all

theorem symbol_isWordChar {c : Char} {t : Token} (h : symbol c = some t) :
    isWordChar c = false := by
  rcases symbol_cases h with ⟨rfl, -⟩ | ⟨rfl, -⟩ | ⟨rfl, -⟩ | ⟨rfl, -⟩ | ⟨rfl, -⟩ <;> decide

theorem symbol_isBlank {c : Char} {t : Token} (h : symbol c = some t) : isBlank c = false := by
  rcases symbol_cases h with ⟨rfl, -⟩ | ⟨rfl, -⟩ | ⟨rfl, -⟩ | ⟨rfl, -⟩ | ⟨rfl, -⟩ <;> decide

theorem isWordChar_of_isWordStart {c : Char} (h : isWordStart c = true) : isWordChar c = true := by
  simp only [isWordStart, isWordChar, Char.isAlphanum, Bool.or_eq_true] at h ⊢
  tauto

theorem tokens_symbol {c : Char} {t : Token} {s : List Char} (h : symbol c = some t) :
    tokens (c :: s) = (tokens s).map (t :: ·) := by
  have hword : isWordStart c = false := by
    by_contra hstart
    have := isWordChar_of_isWordStart (by simpa using hstart)
    rw [symbol_isWordChar h] at this
    cases this
  rw [tokens, if_neg (by simp [symbol_isBlank h]), if_neg (by simp [hword])]
  simp only [h]

/-- Dropping leading blanks changes no token. -/
theorem tokens_dropWhile_isBlank (s : List Char) : tokens (s.dropWhile isBlank) = tokens s := by
  induction s with
  | nil => rfl
  | cons c s ih =>
      cases h : isBlank c with
      | true => rw [List.dropWhile_cons_of_pos h, ih, tokens_blank h]
      | false => rw [List.dropWhile_cons_of_neg (by simp [h])]

theorem isBlank_of_dropWhile_eq {c : Char} {s : List Char}
    (hs : (c :: s).dropWhile isBlank = c :: s) : isBlank c = false := by
  by_contra hb
  rw [List.dropWhile_cons_of_pos (by simpa using hb)] at hs
  have := (List.dropWhile_suffix (l := s) isBlank).length_le
  rw [hs, List.length_cons] at this
  omega

/-- A text without tokens is blank. -/
theorem eq_nil_of_tokens {s : List Char} (hs : s.dropWhile isBlank = s) (h : tokens s = some []) :
    s = [] := by
  cases s with
  | nil => rfl
  | cons c s =>
      rw [tokens, if_neg (by simp [isBlank_of_dropWhile_eq hs])] at h
      split_ifs at h
      · simp at h
      · split at h <;> simp at h

/-- A text that starts with a token and not with a blank starts with the
token's symbol or with its word. -/
theorem tokens_cons_inv {s : List Char} {t : Token} {ts : List Token}
    (hs : s.dropWhile isBlank = s) (h : tokens s = some (t :: ts)) :
    (∃ c rest, s = c :: rest ∧ symbol c = some t ∧ tokens rest = some ts) ∨
      ∃ c rest, s = c :: rest ∧ isWordStart c = true ∧
        t = wordToken (c :: rest.takeWhile isWordChar) ∧
        tokens (rest.dropWhile isWordChar) = some ts := by
  cases s with
  | nil => simp [tokens_nil] at h
  | cons c rest =>
      rw [tokens, if_neg (by simp [isBlank_of_dropWhile_eq hs])] at h
      split_ifs at h with hstart
      · rw [Option.map_eq_some_iff] at h
        obtain ⟨us, hus, heq⟩ := h
        rw [List.cons.injEq] at heq
        exact .inr ⟨c, rest, rfl, hstart, heq.1.symm, heq.2 ▸ hus⟩
      · split at h
        · rename_i t' ht'
          rw [Option.map_eq_some_iff] at h
          obtain ⟨us, hus, heq⟩ := h
          rw [List.cons.injEq] at heq
          exact .inl ⟨c, rest, rfl, heq.1 ▸ ht', heq.2 ▸ hus⟩
        · cases h

theorem takeWhile_append_stop {p : Char → Bool} {s : List Char} (hs : s.head?.any p = false)
    (word : List Char) :
    (word ++ s).takeWhile p = word.takeWhile p ∧
      (word ++ s).dropWhile p = word.dropWhile p ++ s := by
  induction word with
  | nil =>
      cases s with
      | nil => simp
      | cons c s => simp [show p c = false by simpa using hs]
  | cons c word ih =>
      cases hc : p c with
      | true => simp [hc, ih]
      | false => simp [hc]

/-- From `s` to `rest` the tokens `ts` are read. -/
def Reads (s : List Char) (ts : List Token) (rest : List Char) : Prop :=
  tokens s = (tokens rest).map (ts ++ ·)

namespace Reads

variable {s middle rest : List Char} {ts us : List Token}

theorem trans (h : Reads s ts middle) (h' : Reads middle us rest) : Reads s (ts ++ us) rest := by
  unfold Reads at *
  rw [h, h', Option.map_map]
  congr 1
  funext vs
  simp

theorem blanks (s : List Char) : Reads s [] (s.dropWhile isBlank) := by
  unfold Reads
  rw [tokens_dropWhile_isBlank]
  simp

theorem symbol {c : Char} {t : Token} (h : symbol c = some t) (s : List Char) :
    Reads (c :: s) [t] s :=
  tokens_symbol h

theorem word {c : Char} (h : isWordStart c = true) (s : List Char) :
    Reads (c :: s) [wordToken (c :: s.takeWhile isWordChar)] (s.dropWhile isWordChar) :=
  tokens_word h

theorem blank {c : Char} (hblank : isBlank c = true) (s : List Char) : Reads (c :: s) [] s := by
  rw [Reads, tokens_blank hblank]
  simp

/-- The tokens of a text, before a text that does not continue its last word. -/
theorem append {a : List Char} (h : tokens a = some ts)
    (hs : s.head?.any isWordChar = false) : Reads (a ++ s) ts s := by
  induction a using tokens.induct generalizing ts with
  | case1 =>
      rw [tokens_nil, Option.some.injEq] at h
      simp [← h, Reads]
  | case2 c a hblank ih =>
      rw [tokens_blank hblank] at h
      exact (tokens_blank hblank).trans (ih h)
  | case3 c a hblank hstart ih =>
      rw [tokens_word hstart, Option.map_eq_some_iff] at h
      obtain ⟨us, hus, rfl⟩ := h
      obtain ⟨htake, hdrop⟩ := takeWhile_append_stop hs a
      have hword := word hstart (a ++ s)
      rw [htake, hdrop] at hword
      exact hword.trans (ih hus)
  | case4 c a hblank hstart t hsymbol ih =>
      rw [tokens_symbol hsymbol, Option.map_eq_some_iff] at h
      obtain ⟨us, hus, rfl⟩ := h
      exact (symbol hsymbol (a ++ s)).trans (ih hus)
  | case5 c a hblank hstart hsymbol =>
      rw [tokens, if_neg hblank, if_neg hstart] at h
      simp [hsymbol] at h

theorem paren {text : List Char} (h : Reads (text ++ ')' :: s) ts (')' :: s)) :
    Reads ('(' :: (text ++ ')' :: s)) (.lpar :: ts ++ [.rpar]) s := by
  have hopen : Reads ('(' :: (text ++ ')' :: s)) [.lpar] (text ++ ')' :: s) := symbol rfl _
  exact hopen.trans (h.trans (symbol rfl s))

theorem tokens_eq (h : Reads s ts []) : tokens s = some ts := by
  unfold Reads at h
  rw [h, tokens_nil]
  simp

end Reads

/-- The lowercased names among the tokens. -/
def tokenNames : List Token → List String
  | [] => []
  | .name word :: ts => String.ofList (lower word) :: tokenNames ts
  | _ :: ts => tokenNames ts

theorem mem_tokenNames_cons {t : Token} {ts : List Token} {x : String} :
    x ∈ tokenNames (t :: ts) ↔
      (∃ word, t = .name word ∧ x = String.ofList (lower word)) ∨ x ∈ tokenNames ts := by
  cases t <;> simp [tokenNames]

theorem tokenNames_append (ts us : List Token) :
    tokenNames (ts ++ us) = tokenNames ts ++ tokenNames us := by
  induction ts with
  | nil => rfl
  | cons t ts ih => cases t <;> simp [tokenNames, ih]

/-! ## The grammar -/

/-- The nonterminals `E`, `T` and `F`. -/
inductive Level where
  | expr
  | term
  | factor

/-- The token list derives from the nonterminal, and stands for the expression. -/
inductive Derives : Level → List Token → LabelExpr → Prop where
  | or {ts us a b} : Derives .expr ts a → Derives .term us b →
      Derives .expr (ts ++ .bar :: us) (.or a b)
  | ofTerm {ts a} : Derives .term ts a → Derives .expr ts a
  | and {ts us a b} : Derives .term ts a → Derives .factor us b →
      Derives .term (ts ++ .amp :: us) (.and a b)
  | ofFactor {ts a} : Derives .factor ts a → Derives .term ts a
  | not {ts a} : Derives .factor ts a → Derives .factor (.bang :: ts) (.not a)
  | paren {ts a} : Derives .expr ts a → Derives .factor (.lpar :: ts ++ [.rpar]) a
  | bool b : Derives .factor [.bool b] (.const b)
  | name word : Derives .factor [.name word] (.terminal (String.ofList (lower word)))

/-- The terminals are the names among the tokens, in order. -/
theorem Derives.terminals_eq {level : Level} {ts : List Token} {e : LabelExpr}
    (h : Derives level ts e) : e.terminals = tokenNames ts := by
  induction h with
  | or _ _ iha ihb => simp [Expr.terminals, tokenNames_append, tokenNames, iha, ihb]
  | ofTerm _ ih => exact ih
  | and _ _ iha ihb => simp [Expr.terminals, tokenNames_append, tokenNames, iha, ihb]
  | ofFactor _ ih => exact ih
  | not _ ih => simpa [Expr.terminals, tokenNames] using ih
  | paren _ ih => simpa [tokenNames, tokenNames_append] using ih
  | bool b => rfl
  | name word => rfl

theorem Derives.ne_nil {level : Level} {ts : List Token} {e : LabelExpr}
    (h : Derives level ts e) : ts ≠ [] := by
  induction h with
  | ofTerm _ ih => exact ih
  | ofFactor _ ih => exact ih
  | _ => simp

/-! ## Chains

A level of binary operators: operands of the level above, folded from the left. -/

/-- One operator level: the grammar rules it consists of. -/
structure OpLevel where
  op : LabelExpr → LabelExpr → LabelExpr
  token : Token
  char : Char
  here : Level
  operand : Level
  symbol_char : symbol char = some token
  base : ∀ {ts a}, Derives operand ts a → Derives here ts a
  step : ∀ {ts us a b}, Derives here ts a → Derives operand us b →
    Derives here (ts ++ token :: us) (op a b)

def orLevel : OpLevel where
  op := .or
  token := .bar
  char := '|'
  here := .expr
  operand := .term
  symbol_char := rfl
  base := .ofTerm
  step := .or

def andLevel : OpLevel where
  op := .and
  token := .amp
  char := '&'
  here := .term
  operand := .factor
  symbol_char := rfl
  base := .ofFactor
  step := .and

namespace OpLevel

variable (L : OpLevel)

/-- The operands after the first, each behind the operator. -/
def tail : List (List Token × LabelExpr) → List Token
  | [] => []
  | (ts, _) :: operands => L.token :: ts ++ tail operands

/-- The left fold of the operands. -/
def fold (first : LabelExpr) : List (List Token × LabelExpr) → LabelExpr
  | [] => first
  | (_, b) :: operands => fold (L.op first b) operands

theorem tail_append (operands more : List (List Token × LabelExpr)) :
    L.tail (operands ++ more) = L.tail operands ++ L.tail more := by
  induction operands with
  | nil => rfl
  | cons operand operands ih => simp [tail, ih]

theorem fold_append (first : LabelExpr) (operands more : List (List Token × LabelExpr)) :
    L.fold first (operands ++ more) = L.fold (L.fold first operands) more := by
  induction operands generalizing first with
  | nil => rfl
  | cons operand operands ih => simp [fold, ih]

theorem length_le_tail {operands : List (List Token × LabelExpr)} {x : List Token × LabelExpr}
    (h : x ∈ operands) : x.1.length ≤ (L.tail operands).length := by
  induction operands with
  | nil => cases h
  | cons operand operands ih =>
      rw [tail, List.length_append, List.length_cons]
      rcases List.mem_cons.mp h with rfl | h
      · omega
      · have := ih h
        omega

theorem derives_fold {ts : List Token} {first : LabelExpr} (h : Derives L.here ts first)
    {operands : List (List Token × LabelExpr)}
    (hops : ∀ x ∈ operands, Derives L.operand x.1 x.2) :
    Derives L.here (ts ++ L.tail operands) (L.fold first operands) := by
  induction operands generalizing ts first with
  | nil => simpa [tail, fold] using h
  | cons operand operands ih =>
      have := ih (L.step h (hops _ List.mem_cons_self))
        fun x hx => hops x (List.mem_cons_of_mem _ hx)
      simpa [tail, fold] using this

/-- A chain of operands at this level. -/
def Chain (ts : List Token) (e : LabelExpr) : Prop :=
  ∃ ts₀ e₀ operands, Derives L.operand ts₀ e₀ ∧ (∀ x ∈ operands, Derives L.operand x.1 x.2) ∧
    ts = ts₀ ++ L.tail operands ∧ e = L.fold e₀ operands

theorem Chain.single {ts : List Token} {e : LabelExpr} (h : Derives L.operand ts e) :
    L.Chain ts e :=
  ⟨ts, e, [], h, by simp, by simp [tail], rfl⟩

/-- One operand more at the end of a chain. -/
theorem Chain.snoc {ts us : List Token} {a b : LabelExpr} (c : L.Chain ts a)
    (h : Derives L.operand us b) : L.Chain (ts ++ L.token :: us) (L.op a b) := by
  obtain ⟨ts₀, e₀, operands, hfirst, hoperands, rfl, rfl⟩ := c
  refine ⟨ts₀, e₀, operands ++ [(us, b)], hfirst, fun x hx => ?_, ?_, ?_⟩
  · rcases List.mem_append.mp hx with hx | hx
    · exact hoperands x hx
    · rw [List.mem_singleton] at hx
      exact hx ▸ h
  · simp [tail_append, tail]
  · rw [fold_append]
    rfl

end OpLevel

theorem Derives.chain_or {ts : List Token} {e : LabelExpr} (h : Derives .expr ts e) :
    orLevel.Chain ts e := by
  generalize hlevel : Level.expr = level at h
  induction h with
  | or _ hb iha _ => exact (iha rfl).snoc orLevel hb
  | ofTerm h => exact .single orLevel h
  | _ => cases hlevel

theorem Derives.chain_and {ts : List Token} {e : LabelExpr} (h : Derives .term ts e) :
    andLevel.Chain ts e := by
  generalize hlevel : Level.term = level at h
  induction h with
  | and _ hb iha _ => exact (iha rfl).snoc andLevel hb
  | ofFactor h => exact .single andLevel h
  | _ => cases hlevel

end Skuld
