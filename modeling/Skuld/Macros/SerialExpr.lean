import Skuld.Label.Filter
import Skuld.Lib.Loop

/-!
# The `serial` argument at compile time

`parse_serial_expr` is a recursive descent over Rust tokens that prints the text
of the filter as it goes and collects the identifiers that the expansion checks.
The filter itself is parsed from that text, by another parser, when the tests
run.

The descent is written over what it builds.  With `textBuilder` it is the code;
with `treeBuilder` the same descent builds the expression that it follows.  A
statement about both goes by one induction over the descent, `agree_serialDescent`,
for any relation between the two results that every step of the builders keeps.
-/

namespace Skuld

open BoolExpr

/-! ## Rust tokens -/

/-- The text of a Rust identifier: its ASCII characters are those of a word, and
it does not start with a digit. -/
def IsIdentText (text : List Char) : Prop :=
  (∀ c ∈ text, isWordChar c = true ∨ 128 ≤ c.toNat) ∧
    ∃ c rest, text = c :: rest ∧ (isWordStart c = true ∨ 128 ≤ c.toNat)

theorem isIdentText_word {c : Char} {rest : List Char} (hstart : isWordStart c = true)
    (hrest : rest.all isWordChar = true) : IsIdentText (c :: rest) := by
  refine ⟨fun d hd => .inl ?_, c, rest, rfl, .inl hstart⟩
  rcases List.mem_cons.mp hd with rfl | hd
  · exact isWordChar_of_isWordStart hstart
  · exact List.all_eq_true.mp hrest d hd

structure Ident where
  raw : Bool
  text : String
  valid : IsIdentText text.toList
  deriving DecidableEq

/-- `Ident::to_string`. -/
def Ident.toString (i : Ident) : String :=
  if i.raw then "r#" ++ i.text else i.text

/-- A sequence of token trees.  `other` is any tree that the descent does not
know: a literal, a lifetime, a group in brackets or braces. -/
inductive TokenStream where
  | nil
  | ident (i : Ident) (rest : TokenStream)
  | punct (c : Char) (rest : TokenStream)
  | paren (content rest : TokenStream)
  | other (rest : TokenStream)
  deriving DecidableEq

namespace TokenStream

def length : TokenStream → ℕ
  | nil => 0
  | ident _ rest | punct _ rest | paren _ rest | other rest => rest.length + 1

/-- How deep its parentheses are nested. -/
def depth : TokenStream → ℕ
  | nil => 0
  | ident _ rest | punct _ rest | other rest => rest.depth
  | paren content rest => max (content.depth + 1) rest.depth

/-- `peek` and `parse` of a punctuation character. -/
def dropPunct (op : Char) : TokenStream → Option TokenStream
  | punct c rest => if c = op then some rest else none
  | _ => none

theorem dropPunct_eq_some {op : Char} {input rest : TokenStream}
    (h : input.dropPunct op = some rest) :
    rest.length < input.length ∧ rest.depth = input.depth := by
  cases input with
  | punct c rest' =>
      rw [dropPunct] at h
      split_ifs at h
      cases h
      exact ⟨Nat.lt_succ_self _, rfl⟩
  | _ => cases h

end TokenStream

/-! ## The descent -/

inductive SerialError where
  | expectedIdent
  | unexpectedToken
  | outOfFuel
  deriving DecidableEq

/-- What the descent does with the parts of an expression. -/
structure Builder (α : Type) where
  or : α → α → α
  and : α → α → α
  not : α → α
  paren : α → α
  ident : Ident → α

def textBuilder : Builder String where
  or left right := left ++ " | " ++ right
  and left right := left ++ " & " ++ right
  not inner := "!" ++ inner
  paren inner := "(" ++ inner ++ ")"
  ident := Ident.toString

def treeBuilder : Builder (Expr Ident) where
  or := .or
  and := .and
  not := .not
  paren := id
  ident := .terminal

/-- The rest of the input and the identifiers so far go through every function
of the descent. -/
abbrev SerialParser (α : Type) :=
  TokenStream → List Ident → Except SerialError (α × TokenStream × List Ident)

section

variable {α : Type}

/-- The loop of `parse_serial_or` and `parse_serial_and`.  A round consumes the
operator, so that there are fewer rounds than tokens. -/
def operandLoop (op : Char) (join : α → α → α) (operand : SerialParser α) : ℕ → α → SerialParser α
  | 0, _, _, _ => .error .outOfFuel
  | rounds + 1, left, input, labels =>
      match input.dropPunct op with
      | none => .ok (left, input, labels)
      | some input => do
          let (right, input, labels) ← operand input labels
          operandLoop op join operand rounds (join left right) input labels

def parseOperands (op : Char) (join : α → α → α) (operand : SerialParser α) : SerialParser α :=
  fun input labels => do
    let (left, input, labels) ← operand input labels
    operandLoop op join operand (input.length + 1) left input labels

variable (acceptAsIdent : String → Bool) (B : Builder α)

def parseSerialOr (parseSerialAnd : SerialParser α) : SerialParser α :=
  parseOperands '|' B.or parseSerialAnd

def parseSerialAnd (parseSerialNot : SerialParser α) : SerialParser α :=
  parseOperands '&' B.and parseSerialNot

def parseSerialNot (parseSerialPrimary : SerialParser α) : SerialParser α
  | .punct c input, labels =>
      if c = '!' then do
        let (inner, input, labels) ← parseSerialNot parseSerialPrimary input labels
        .ok (B.not inner, input, labels)
      else
        parseSerialPrimary (.punct c input) labels
  | input, labels => parseSerialPrimary input labels

/-- `Ident::parse` accepts the identifiers that are no keywords. -/
def parseSerialPrimary (parseSerialOr : SerialParser α) : SerialParser α
  | .paren content input, labels => do
      let (inner, content, labels) ← parseSerialOr content labels
      -- tokens left between the parentheses make the macro fail
      if content = .nil then .ok (B.paren inner, input, labels) else .error .unexpectedToken
  | .ident ident input, labels =>
      if acceptAsIdent ident.toString then
        .ok (B.ident ident, input, labels ++ [ident])
      else
        .error .expectedIdent
  | _, _ => .error .expectedIdent

/-- The four functions, as often as parentheses can nest. -/
def serialDescent : ℕ → SerialParser α
  | 0 => fun _ _ => .error .outOfFuel
  | depth + 1 =>
      parseSerialOr B (parseSerialAnd B (parseSerialNot B
        (parseSerialPrimary acceptAsIdent B (serialDescent depth))))

/-- The result with what follows the expression, which belongs to the caller. -/
def parseSerialExpr (input : TokenStream) :
    Except SerialError (α × TokenStream × List Ident) :=
  serialDescent acceptAsIdent B (input.depth + 1) input []

end

/-! ## Two builders -/

section

variable {α β : Type} {acceptAsIdent : String → Bool} {B : Builder α} {C : Builder β}

/-- A relation between what two builders make of the same expression, given its
identifiers and the level of its outermost operator. -/
structure Builder.Keeps (acceptAsIdent : String → Bool) (B : Builder α) (C : Builder β)
    (R : Level → List Ident → α → β → Prop) : Prop where
  or : ∀ {xs ys a a' b b'}, R .expr xs a a' → R .term ys b b' →
    R .expr (xs ++ ys) (B.or a b) (C.or a' b')
  ofTerm : ∀ {xs a a'}, R .term xs a a' → R .expr xs a a'
  and : ∀ {xs ys a a' b b'}, R .term xs a a' → R .factor ys b b' →
    R .term (xs ++ ys) (B.and a b) (C.and a' b')
  ofFactor : ∀ {xs a a'}, R .factor xs a a' → R .term xs a a'
  not : ∀ {xs a a'}, R .factor xs a a' → R .factor xs (B.not a) (C.not a')
  paren : ∀ {xs a a'}, R .expr xs a a' → R .factor xs (B.paren a) (C.paren a')
  ident : ∀ {i}, acceptAsIdent i.toString = true → R .factor [i] (B.ident i) (C.ident i)

/-- A result of `P` comes with a result of `Q`: both consume the same tokens and
collect the same identifiers, those of the expression they return. -/
def SerialParser.Agree (P : SerialParser α) (Q : SerialParser β)
    (R : List Ident → α → β → Prop) : Prop :=
  ∀ ⦃input labels a rest labels'⦄, P input labels = .ok (a, rest, labels') →
    ∃ b xs, Q input labels = .ok (b, rest, labels') ∧ labels' = labels ++ xs ∧ R xs a b ∧
      rest.length < input.length ∧ rest.depth ≤ input.depth

/-- The rounds of a loop; `xs` are the identifiers of the operands before. -/
theorem agree_operandLoop {op : Char} {join : α → α → α} {join' : β → β → β}
    {operand : SerialParser α} {operand' : SerialParser β} {R S : List Ident → α → β → Prop}
    (hoperand : operand.Agree operand' S)
    (hjoin : ∀ {xs ys a a' b b'}, R xs a a' → S ys b b' → R (xs ++ ys) (join a b) (join' a' b'))
    {rounds : ℕ} {left a : α} {left' : β} {input rest : TokenStream}
    {labels labels' xs : List Ident} (hleft : R xs left left')
    (h : operandLoop op join operand rounds left input labels = .ok (a, rest, labels')) :
    ∃ b ys, operandLoop op join' operand' rounds left' input labels = .ok (b, rest, labels') ∧
      labels' = labels ++ ys ∧ R (xs ++ ys) a b ∧ rest.length ≤ input.length ∧
      rest.depth ≤ input.depth := by
  induction rounds generalizing left left' input labels xs with
  | zero => cases h
  | succ rounds ih =>
      rw [operandLoop] at h ⊢
      cases hdrop : input.dropPunct op with
      | none =>
          simp only [hdrop] at h
          cases h
          exact ⟨left', [], rfl, by simp, by simpa using hleft, le_rfl, le_rfl⟩
      | some after =>
          simp only [hdrop] at h
          obtain ⟨⟨right, middle, labels₁⟩, hright, h⟩ := Loop.exists_of_bind_eq_ok h
          obtain ⟨right', ys, hright', rfl, hS, hlength, hdepth⟩ := hoperand hright
          dsimp only at h
          obtain ⟨b, zs, hb, rfl, hR, hlength', hdepth'⟩ := ih (hjoin hleft hS) h
          obtain ⟨hlt, heq⟩ := TokenStream.dropPunct_eq_some hdrop
          refine ⟨b, ys ++ zs, ?_, by simp, by simpa using hR, by omega, by omega⟩
          simp only [hright', bind, Except.bind]
          exact hb

theorem agree_parseOperands {op : Char} {join : α → α → α} {join' : β → β → β}
    {P : SerialParser α} {Q : SerialParser β} {R S : List Ident → α → β → Prop}
    (hPQ : P.Agree Q S) (hfirst : ∀ {xs a a'}, S xs a a' → R xs a a')
    (hjoin : ∀ {xs ys a a' b b'}, R xs a a' → S ys b b' → R (xs ++ ys) (join a b) (join' a' b')) :
    (parseOperands op join P).Agree (parseOperands op join' Q) R := by
  intro input labels a rest labels' h
  obtain ⟨⟨left, middle, labels₁⟩, hleft, h⟩ := Loop.exists_of_bind_eq_ok h
  obtain ⟨left', xs, hleft', rfl, hS, hlength, hdepth⟩ := hPQ hleft
  obtain ⟨b, ys, hb, rfl, hR, hlength', hdepth'⟩ := agree_operandLoop hPQ hjoin (hfirst hS) h
  refine ⟨b, xs ++ ys, ?_, by simp, hR, by omega, by omega⟩
  simp only [parseOperands, hleft', bind, Except.bind]
  exact hb

variable {R : Level → List Ident → α → β → Prop}

theorem agree_parseSerialPrimary (hkeeps : B.Keeps acceptAsIdent C R) {P : SerialParser α}
    {Q : SerialParser β} (hPQ : P.Agree Q (R .expr)) :
    (parseSerialPrimary acceptAsIdent B P).Agree (parseSerialPrimary acceptAsIdent C Q)
      (R .factor) := by
  intro input labels a rest labels' h
  cases input with
  | paren content input =>
      obtain ⟨⟨inner, left, labels₁⟩, hinner, h⟩ := Loop.exists_of_bind_eq_ok h
      dsimp only at h
      split_ifs at h with hleft
      cases h
      obtain ⟨inner', xs, hinner', hlabels, hR, -, -⟩ := hPQ hinner
      refine ⟨C.paren inner', xs, ?_, hlabels, hkeeps.paren hR, Nat.lt_succ_self _,
        le_max_right _ _⟩
      simp [parseSerialPrimary, hinner', bind, Except.bind, hleft]
  | ident i input =>
      rw [parseSerialPrimary] at h
      split_ifs at h with haccept
      cases h
      refine ⟨C.ident i, [i], ?_, rfl, hkeeps.ident haccept, Nat.lt_succ_self _, le_rfl⟩
      rw [parseSerialPrimary, if_pos haccept]
  | _ => cases h

theorem agree_parseSerialNot (hkeeps : B.Keeps acceptAsIdent C R) {P : SerialParser α}
    {Q : SerialParser β} (hPQ : P.Agree Q (R .factor)) :
    (parseSerialNot B P).Agree (parseSerialNot C Q) (R .factor) := by
  intro input
  induction input with
  | punct c input ih =>
      intro labels a rest labels' h
      rw [parseSerialNot] at h ⊢
      split_ifs at h ⊢ with hbang
      · obtain ⟨⟨inner, middle, labels₁⟩, hinner, h⟩ := Loop.exists_of_bind_eq_ok h
        cases h
        obtain ⟨inner', xs, hinner', hlabels, hR, hlength, hdepth⟩ := ih hinner
        refine ⟨C.not inner', xs, ?_, hlabels, hkeeps.not hR, Nat.lt_succ_of_lt hlength, hdepth⟩
        simp [hinner', bind, Except.bind]
      · exact hPQ h
  | _ => exact fun _ _ _ _ h => hPQ h

theorem agree_parseSerialAnd (hkeeps : B.Keeps acceptAsIdent C R) {P : SerialParser α}
    {Q : SerialParser β} (hPQ : P.Agree Q (R .factor)) :
    (parseSerialAnd B P).Agree (parseSerialAnd C Q) (R .term) :=
  agree_parseOperands hPQ hkeeps.ofFactor hkeeps.and

theorem agree_parseSerialOr (hkeeps : B.Keeps acceptAsIdent C R) {P : SerialParser α}
    {Q : SerialParser β} (hPQ : P.Agree Q (R .term)) :
    (parseSerialOr B P).Agree (parseSerialOr C Q) (R .expr) :=
  agree_parseOperands hPQ hkeeps.ofTerm hkeeps.or

theorem agree_serialDescent (hkeeps : B.Keeps acceptAsIdent C R) (depth : ℕ) :
    (serialDescent acceptAsIdent B depth).Agree (serialDescent acceptAsIdent C depth)
      (R .expr) := by
  induction depth with
  | zero => exact fun _ _ _ _ _ h => by cases h
  | succ depth ih =>
      have hprimary := agree_parseSerialPrimary hkeeps ih
      have hnot := agree_parseSerialNot hkeeps hprimary
      exact agree_parseSerialOr hkeeps (agree_parseSerialAnd hkeeps hnot)

end

/-! ## The fuel of the descent is enough -/

section

variable {α : Type} {acceptAsIdent : String → Bool} {B : Builder α}

/-- A parser that ends on streams whose parentheses are nested less deep. -/
def SerialParser.Ends (P : SerialParser α) (depth : ℕ) : Prop :=
  ∀ input labels, input.depth < depth → P input labels ≠ .error .outOfFuel

theorem keeps_true : B.Keeps acceptAsIdent B fun _ _ _ _ => True := by
  constructor <;> intros <;> trivial

theorem ends_operandLoop {op : Char} {join : α → α → α} {operand : SerialParser α}
    {S : List Ident → α → α → Prop} (hoperand : operand.Agree operand S) {depth : ℕ}
    (hends : operand.Ends depth) {rounds : ℕ} {left : α} {input : TokenStream}
    {labels : List Ident} (hrounds : input.length < rounds) (hdepth : input.depth < depth) :
    operandLoop op join operand rounds left input labels ≠ .error .outOfFuel := by
  induction rounds generalizing left input labels with
  | zero => omega
  | succ rounds ih =>
      rw [operandLoop]
      cases hdrop : input.dropPunct op with
      | none => exact fun h => by cases h
      | some after =>
          obtain ⟨hlt, heq⟩ := TokenStream.dropPunct_eq_some hdrop
          refine Loop.bind_ne_error (hends after labels (by omega)) ?_
          rintro ⟨right, middle, labels'⟩ hright
          obtain ⟨-, -, -, -, -, hlength, hdepth'⟩ := hoperand hright
          exact ih (by omega) (by omega)

theorem ends_parseOperands {op : Char} {join : α → α → α} {operand : SerialParser α}
    {S : List Ident → α → α → Prop} (hoperand : operand.Agree operand S) {depth : ℕ}
    (hends : operand.Ends depth) : (parseOperands op join operand).Ends depth := by
  intro input labels hdepth
  refine Loop.bind_ne_error (hends input labels hdepth) ?_
  rintro ⟨left, middle, labels'⟩ hleft
  obtain ⟨-, -, -, -, -, -, hdepth'⟩ := hoperand hleft
  exact ends_operandLoop hoperand hends (Nat.lt_succ_self _) (hdepth'.trans_lt hdepth)

theorem ends_parseSerialPrimary {P : SerialParser α} {depth : ℕ} (hP : P.Ends depth) :
    (parseSerialPrimary acceptAsIdent B P).Ends (depth + 1) := by
  intro input labels hdepth
  cases input with
  | paren content input =>
      refine Loop.bind_ne_error (hP content labels ?_) ?_
      · have := le_max_left (content.depth + 1) input.depth
        rw [TokenStream.depth] at hdepth
        omega
      · rintro ⟨inner, left, labels'⟩ -
        dsimp only
        split_ifs <;> simp
  | ident i input =>
      rw [parseSerialPrimary]
      split_ifs <;> simp
  | _ => exact fun h => by cases h

theorem ends_parseSerialNot {P : SerialParser α} {depth : ℕ} (hP : P.Ends depth) :
    (parseSerialNot B P).Ends depth := by
  intro input
  induction input with
  | punct c input ih =>
      intro labels hdepth
      rw [parseSerialNot]
      split_ifs
      · exact Loop.bind_ne_error (ih labels hdepth) fun _ _ h => by cases h
      · exact hP _ _ hdepth
  | _ => exact hP _

theorem ends_serialDescent (depth : ℕ) : (serialDescent acceptAsIdent B depth).Ends depth := by
  induction depth with
  | zero => exact fun input labels hdepth => by omega
  | succ depth ih =>
      have hkeeps : B.Keeps acceptAsIdent B fun _ _ _ _ => True := keeps_true
      have hprimary := agree_parseSerialPrimary hkeeps (agree_serialDescent hkeeps depth)
      have hnot := agree_parseSerialNot hkeeps hprimary
      exact ends_parseOperands (agree_parseSerialAnd hkeeps hnot)
        (ends_parseOperands hnot (ends_parseSerialNot (ends_parseSerialPrimary ih)))

/-- `outOfFuel` is no answer of the macro. -/
theorem parseSerialExpr_ne_outOfFuel (input : TokenStream) :
    parseSerialExpr acceptAsIdent B input ≠ .error .outOfFuel :=
  ends_serialDescent (input.depth + 1) input [] (Nat.lt_succ_self _)

end

/-! ## The printed text -/

/-- The terminal that the filter has for an identifier: its text in lower case. -/
def Ident.terminal (i : Ident) : String :=
  String.ofList (lower i.toString.toList)

theorem lt_of_isWordChar {c : Char} (h : isWordChar c = true) : c.toNat < 128 := by
  simp only [isWordChar, Char.isAlphanum, Char.isAlpha, Char.isUpper, Char.isLower, Char.isDigit,
    Bool.or_eq_true, Bool.and_eq_true, decide_eq_true_eq, ge_iff_le, UInt32.le_iff_toNat_le] at h
  rcases h with ((h | h) | h) | rfl
  · exact lt_of_le_of_lt h.2 (by decide)
  · exact lt_of_le_of_lt h.2 (by decide)
  · exact lt_of_le_of_lt h.2 (by decide)
  · decide

/-- An identifier that the filter grammar reads as a name. -/
structure Ident.Plain (i : Ident) : Prop where
  not_raw : i.raw = false
  ascii : ∀ c ∈ i.text.toList, c.toNat < 128
  not_bool : String.ofList (lower i.text.toList) ∉ reservedLabelNames

theorem Ident.Plain.toString_eq {i : Ident} (h : i.Plain) : i.toString = i.text := by
  rw [Ident.toString, h.not_raw, if_neg Bool.false_ne_true]

variable {rest : List Char}

/-- A plain identifier is read as one name. -/
theorem reads_plain {i : Ident} (h : i.Plain) (hrest : rest.head?.any isWordChar = false) :
    Reads (i.toString.toList ++ rest) [.name i.text.toList] rest := by
  obtain ⟨hword, c, tail, htext, hstart⟩ := i.valid
  have hascii := h.ascii
  rw [h.toString_eq, ← wordToken_eq_name h.not_bool]
  rw [htext] at hword hascii ⊢
  refine reads_word (hstart.resolve_right ?_) (fun d hd => (hword d ?_).resolve_right ?_) hrest
  · exact Nat.not_le.mpr (hascii c List.mem_cons_self)
  · exact List.mem_cons_of_mem _ hd
  · exact Nat.not_le.mpr (hascii d (List.mem_cons_of_mem _ hd))

/-- The text that the descent prints for an expression is read as a phrase that
stands for it, whatever follows. -/
def PrintsTree (level : Level) (ids : List Ident) (text : String) (tree : Expr Ident) : Prop :=
  tree.terminals = ids ∧ ((∀ i ∈ ids, i.Plain) → ∃ ts, Derives level ts (tree.map Ident.terminal) ∧
    ∀ rest : List Char, rest.head?.any isWordChar = false → Reads (text.toList ++ rest) ts rest)

theorem printsTree_binary {here operand : Level} {xs ys : List Ident} {a b op : String} {c : Char}
    {t : Token} {x y : Expr Ident} {node : ∀ {T : Type}, Expr T → Expr T → Expr T}
    (hop : op.toList = [' ', c, ' ']) (hsymbol : symbol c = some t)
    (hnode : ∀ {ts us x y}, Derives here ts x → Derives operand us y →
      Derives here (ts ++ t :: us) (node x y))
    (hterminals : (node x y).terminals = x.terminals ++ y.terminals)
    (hmap : (node x y).map Ident.terminal = node (x.map Ident.terminal) (y.map Ident.terminal))
    (hx : PrintsTree here xs a x) (hy : PrintsTree operand ys b y) :
    PrintsTree here (xs ++ ys) (a ++ op ++ b) (node x y) := by
  obtain ⟨rfl, hx⟩ := hx
  obtain ⟨rfl, hy⟩ := hy
  refine ⟨hterminals, fun hplain => ?_⟩
  obtain ⟨ts, hts, hreads⟩ := hx fun i hi => hplain i (List.mem_append_left _ hi)
  obtain ⟨us, hus, hreads'⟩ := hy fun i hi => hplain i (List.mem_append_right _ hi)
  refine ⟨ts ++ t :: us, hmap ▸ hnode hts hus, fun rest hrest => ?_⟩
  exact reads_binary hop hsymbol hreads (hreads' rest hrest)

theorem keeps_printsTree (acceptAsIdent : String → Bool) :
    textBuilder.Keeps acceptAsIdent treeBuilder PrintsTree where
  or := printsTree_binary rfl rfl .or rfl rfl
  and := printsTree_binary rfl rfl .and rfl rfl
  ofTerm h := ⟨h.1, fun hplain => (h.2 hplain).imp fun _ h => ⟨.ofTerm h.1, h.2⟩⟩
  ofFactor h := ⟨h.1, fun hplain => (h.2 hplain).imp fun _ h => ⟨.ofFactor h.1, h.2⟩⟩
  not := by
    rintro xs a a' ⟨hterminals, h⟩
    refine ⟨hterminals, fun hplain => ?_⟩
    obtain ⟨ts, hts, hreads⟩ := h hplain
    refine ⟨.bang :: ts, .not hts, fun rest hrest => ?_⟩
    have := (Reads.symbol (c := '!') rfl _).trans (hreads rest hrest)
    simpa [textBuilder, String.toList_append] using this
  paren := by
    rintro xs a a' ⟨hterminals, h⟩
    refine ⟨hterminals, fun hplain => ?_⟩
    obtain ⟨ts, hts, hreads⟩ := h hplain
    exact ⟨parenTokens true ts, .paren hts,
      fun rest hrest => @reads_withParens _ true _ _ hreads hrest⟩
  ident := by
    rintro i -
    refine ⟨rfl, fun hplain => ?_⟩
    have hi := hplain i List.mem_cons_self
    have hname := Derives.name i.text.toList
    refine ⟨_, ?_, fun rest hrest => reads_plain hi hrest⟩
    rw [treeBuilder, Expr.map, Ident.terminal, hi.toString_eq]
    exact hname

/-- What the descent prints, for plain identifiers, parses to the tree that the
descent follows. -/
theorem parse_of_parseSerialExpr {acceptAsIdent : String → Bool} {input after : TokenStream}
    {text : String} {labels : List Ident}
    (h : parseSerialExpr acceptAsIdent textBuilder input = .ok (text, after, labels)) :
    ∃ tree, parseSerialExpr acceptAsIdent treeBuilder input = .ok (tree, after, labels) ∧
      tree.terminals = labels ∧ ((∀ i ∈ labels, i.Plain) →
        parseRawLabelExpr text = .ok (tree.map Ident.terminal)) := by
  obtain ⟨tree, ids, htree, rfl, ⟨hterminals, hprints⟩, -, -⟩ :=
    agree_serialDescent (keeps_printsTree acceptAsIdent) _ h
  refine ⟨tree, htree, hterminals, fun hplain => ?_⟩
  obtain ⟨ts, hts, hreads⟩ := hprints hplain
  have := (hreads [] rfl).tokens_eq
  rw [List.append_nil] at this
  exact parseRawLabelExpr_eq_ok_iff.mpr ⟨ts, this, hts⟩

/-- The filter that the tests run with is the expression that the macro saw, and
the identifiers that the macro collected are its terminals. -/
theorem serial_parsers_agree (acceptAsIdent : String → Bool) {input after : TokenStream}
    {text : String} {labels : List Ident}
    (h : parseSerialExpr acceptAsIdent textBuilder input = .ok (text, after, labels))
    (hplain : ∀ i ∈ labels, i.Plain) :
    ∃ tree, parseSerialExpr acceptAsIdent treeBuilder input = .ok (tree, after, labels) ∧
      tree.terminals = labels ∧ parseRawLabelExpr text = .ok (tree.map Ident.terminal) ∧
      (tree.map Ident.terminal).terminals = labels.map Ident.terminal := by
  obtain ⟨tree, htree, hterminals, hparse⟩ := parse_of_parseSerialExpr h
  refine ⟨tree, htree, hterminals, hparse hplain, ?_⟩
  rw [Expr.terminals_map, hterminals]

def slowIdent : Ident :=
  ⟨false, "Slow", isIdentText_word (c := 'S') rfl rfl⟩

/-- `Slow & !(Slow | Slow)`: the parentheses stay in the text. -/
def slowStream : TokenStream :=
  .ident slowIdent (.punct '&' (.punct '!' (.paren
    (.ident slowIdent (.punct '|' (.ident slowIdent .nil))) .nil)))

theorem serial_parsers_agree_slow :
    ∃ tree : Expr Ident, tree.terminals = [slowIdent, slowIdent, slowIdent] ∧
      parseRawLabelExpr "Slow & !(Slow | Slow)" = .ok (tree.map Ident.terminal) := by
  have hword : slowIdent.text.toList.all isWordChar = true := rfl
  have hslow : slowIdent.Plain :=
    ⟨rfl, fun c hc => lt_of_isWordChar (List.all_eq_true.mp hword c hc), by decide +kernel⟩
  have hparse : parseSerialExpr (fun _ => true) textBuilder slowStream =
      .ok ("Slow & !(Slow | Slow)", .nil, [slowIdent, slowIdent, slowIdent]) := rfl
  obtain ⟨tree, -, hterminals, htree, -⟩ :=
    serial_parsers_agree (fun _ => true) hparse (by simpa using hslow)
  exact ⟨tree, hterminals, htree⟩

/-! ## Labels by value and by name -/

/-- No token starts with a character that is neither ASCII nor one of the grammar. -/
theorem tokens_eq_none {c : Char} (h : c = '#' ∨ 128 ≤ c.toNat) (s : List Char) :
    tokens (c :: s) = none := by
  have hword : isWordChar c = false := by
    by_contra hword
    rw [Bool.not_eq_false] at hword
    rcases h with rfl | h
    · cases hword
    · exact absurd h (Nat.not_le.mpr (lt_of_isWordChar hword))
  have hstart : isWordStart c = false := by
    by_contra hstart
    rw [isWordChar_of_isWordStart (by simpa using hstart)] at hword
    cases hword
  have hne : ∀ d : Char, d.toNat < 128 → d ≠ '#' → c ≠ d := by
    rintro d hd hhash rfl
    exact h.elim hhash (Nat.not_le.mpr hd)
  have hblank : isBlank c = false := by
    simp [isBlank, hne ' ' (by decide) (by decide), hne '\t' (by decide) (by decide),
      hne '\r' (by decide) (by decide)]
  have hsymbol : symbol c = none := by
    cases ht : symbol c with
    | none => rfl
    | some t =>
        rcases symbol_cases ht with ⟨hc, -⟩ | ⟨hc, -⟩ | ⟨hc, -⟩ | ⟨hc, -⟩ | ⟨hc, -⟩ <;>
          exact absurd hc (hne _ (by decide) (by decide))
  rw [tokens, if_neg (by simp [hblank]), if_neg (by simp [hstart])]
  simp only [hsymbol]

/-- An identifier is at most one token. -/
theorem tokens_ident {i : Ident} {ts : List Token} (h : tokens i.toString.toList = some ts) :
    ts = [wordToken i.toString.toList] := by
  -- what follows the leading word of the text starts no token
  have hall : ∀ {c : Char} {s : List Char}, isWordStart c = true →
      (∀ d ∈ s, isWordChar d = true ∨ d = '#' ∨ 128 ≤ d.toNat) → tokens (c :: s) = some ts →
      ts = [wordToken (c :: s)] := by
    intro c s hstart hs h
    rw [tokens_word hstart] at h
    cases hdrop : s.dropWhile isWordChar with
    | nil =>
        rw [hdrop, tokens_nil] at h
        have htake := List.takeWhile_append_dropWhile (p := isWordChar) (l := s)
        rw [hdrop, List.append_nil] at htake
        rw [htake] at h
        exact (Option.some.inj h).symm
    | cons d s' =>
        have hd : d ∈ s := (List.dropWhile_suffix isWordChar).subset (hdrop ▸ List.mem_cons_self)
        have hnot : ¬ isWordChar d = true := by
          have := List.head_dropWhile_not isWordChar (l := s) (by simp [hdrop])
          simpa [hdrop] using this
        rw [hdrop, tokens_eq_none ((hs d hd).resolve_left hnot)] at h
        cases h
  obtain ⟨hword, c, tail, htext, hstart⟩ := i.valid
  cases hraw : i.raw with
  | true =>
      have htoString : i.toString.toList = 'r' :: '#' :: i.text.toList := by
        rw [Ident.toString, hraw, if_pos rfl, String.toList_append]
        rfl
      rw [htoString] at h ⊢
      refine hall rfl (fun d hd => ?_) h
      rcases List.mem_cons.mp hd with rfl | hd
      · exact .inr (.inl rfl)
      · exact (hword d hd).imp_right .inr
  | false =>
      have htoString : i.toString.toList = c :: tail := by
        rw [Ident.toString, hraw, if_neg Bool.false_ne_true, htext]
      rw [htoString] at h ⊢
      rcases hstart with hstart | hstart
      · refine hall hstart (fun d hd => ?_) h
        exact (hword d (htext ▸ List.mem_cons_of_mem _ hd)).imp_right .inr
      · rw [tokens_eq_none (.inr hstart)] at h
        cases h

variable {B : Bdd String}

/-- The filter text means what the expression says of the labels that `env` gives
the identifiers, on every list of labels. -/
def MeansByValue (B : Bdd String) (env : String → Label) (text : String) (tree : Expr Ident) :
    Prop :=
  ∃ f, LabelFilter.parse B text = .ok f ∧
    ∀ labels : List Label, f.matches labels = tree.eval fun i => decide (env i.text ∈ labels)

/-- The identifier is spelled like the label that it stands for, but for ASCII case. -/
def Ident.SpelledAs (i : Ident) (label : Label) : Prop :=
  i.terminal = label.name

theorem Ident.SpelledAs.plain {i : Ident} {label : Label} (h : i.SpelledAs label) : i.Plain := by
  obtain ⟨first, rest, hname, hfirst, hrest, hreserved, -⟩ := isLabelName_iff.mp label.valid
  have hlower : lower i.toString.toList = label.name.toList := by
    rw [← h, Ident.terminal, String.toList_ofList]
  have hword : ∀ c ∈ i.toString.toList, isWordChar c = true := by
    intro c hc
    have hmem : c.toLower ∈ first :: rest := by
      rw [← hname, ← hlower]
      exact List.mem_map_of_mem hc
    rw [← isWordChar_toLower]
    rcases List.mem_cons.mp hmem with heq | hmem
    · exact heq ▸ isWordChar_of_isWordStart hfirst
    · exact List.all_eq_true.mp hrest _ hmem
  have hraw : i.raw = false := by
    by_contra hraw
    rw [Bool.not_eq_false] at hraw
    have := hword '#' (by simp [Ident.toString, hraw])
    cases this
  have htoString : i.toString = i.text := by rw [Ident.toString, hraw, if_neg Bool.false_ne_true]
  refine ⟨hraw, fun c hc => lt_of_isWordChar (hword c (htoString ▸ hc)), ?_⟩
  rw [← htoString, show String.ofList (lower i.toString.toList) = label.name from h]
  exact hreserved

theorem keeps_accepted {α : Type} {b : Builder α} (acceptAsIdent : String → Bool) :
    b.Keeps acceptAsIdent b fun _ ids _ _ => ∀ i ∈ ids, acceptAsIdent i.toString = true where
  or ha hb i hi := (List.mem_append.mp hi).elim (ha i) (hb i)
  ofTerm := id
  and ha hb i hi := (List.mem_append.mp hi).elim (ha i) (hb i)
  ofFactor := id
  not := id
  paren := id
  ident haccept _ hi := List.mem_singleton.mp hi ▸ haccept

/-- Reading identifiers as label names is reading them as labels, where they are
spelled like their labels. -/
theorem meansByValue_of_spelled {acceptAsIdent : String → Bool} {env : String → Label}
    {input after : TokenStream} {text : String} {labels : List Ident} {tree : Expr Ident}
    (htext : parseSerialExpr acceptAsIdent textBuilder input = .ok (text, after, labels))
    (htree : parseSerialExpr acceptAsIdent treeBuilder input = .ok (tree, after, labels))
    (hspelled : ∀ i ∈ labels, i.SpelledAs (env i.text)) : MeansByValue B env text tree := by
  obtain ⟨tree', htree', hterminals, hparse⟩ := parse_of_parseSerialExpr htext
  obtain rfl : tree' = tree := by
    rw [htree, Except.ok.injEq, Prod.mk.injEq] at htree'
    exact htree'.1.symm
  have hraw := hparse fun i hi => (hspelled i hi).plain
  refine ⟨_, LabelFilter.parse_of_raw hraw, fun labels' => ?_⟩
  rw [LabelFilter.matches_ofExpr, matchesExpr, Expr.eval_map]
  refine Expr.eval_congr fun i hi => ?_
  rw [hspelled i (hterminals ▸ hi), Bool.eq_iff_iff, List.any_eq_true, decide_eq_true_eq]
  constructor
  · rintro ⟨l, hl, hname⟩
    exact Label.ext_name (of_decide_eq_true hname) ▸ hl
  · exact fun hmem => ⟨_, hmem, by simp⟩

/-- A single identifier means its label only if it is spelled like it. -/
theorem spelled_of_meansByValue {env : String → Label} {i : Ident}
    (h : MeansByValue B env i.toString (.terminal i)) : i.SpelledAs (env i.text) := by
  obtain ⟨f, hf, hmatches⟩ := h
  obtain ⟨e, hraw, hequiv⟩ := LabelFilter.parse_eq_ok_iff.mp hf
  obtain ⟨ts, htokens, hts⟩ := parseRawLabelExpr_eq_ok_iff.mp hraw
  have hterminals : ∀ t ∈ e.terminals, t = i.terminal := by
    intro t ht
    rw [hts.terminals_eq, tokens_ident htokens] at ht
    rcases mem_tokenNames_cons.mp ht with ⟨word, hword, rfl⟩ | ht
    · unfold wordToken at hword
      split_ifs at hword
      rw [← Token.name.inj hword]
      rfl
    · cases ht
  by_contra hspelled
  -- then the filter sees no difference between the label and no label
  have heq : matchesExpr e [env i.text] = matchesExpr e [] := by
    refine Expr.eval_congr fun t ht => ?_
    rw [hterminals t ht, List.any_cons, List.any_nil, Bool.or_false]
    exact decide_eq_false fun h => hspelled h.symm
  have hone : f.matches [env i.text] = f.matches [] := by
    rw [LabelFilter.matches, LabelFilter.matches]
    exact (hequiv _).symm.trans (heq.trans (hequiv _))
  rw [hmatches, hmatches] at hone
  simp [Expr.eval] at hone

theorem parseSerialExpr_ident {α : Type} {acceptAsIdent : String → Bool} (b : Builder α)
    {i : Ident} (haccept : acceptAsIdent i.toString = true) :
    parseSerialExpr acceptAsIdent b (.ident i .nil) = .ok (b.ident i, .nil, [i]) := by
  simp [parseSerialExpr, serialDescent, parseSerialOr, parseSerialAnd, parseOperands,
    parseSerialNot, parseSerialPrimary, haccept, bind, Except.bind, operandLoop,
    TokenStream.dropPunct]

/-- The identifiers that are written in `serial` arguments mean their labels, in
every expression, iff each of them is spelled like its label. -/
theorem serial_means_labels_iff (B : Bdd String) (acceptAsIdent : String → Bool)
    (env : String → Label) (idents : List Ident) :
    (∀ input after text labels tree,
      parseSerialExpr acceptAsIdent textBuilder input = .ok (text, after, labels) →
      parseSerialExpr acceptAsIdent treeBuilder input = .ok (tree, after, labels) →
      (∀ i ∈ labels, i ∈ idents) → MeansByValue B env text tree) ↔
    ∀ i ∈ idents, acceptAsIdent i.toString = true → i.SpelledAs (env i.text) := by
  constructor
  · intro h i hi haccept
    -- the expression that consists of the identifier
    refine spelled_of_meansByValue (h (.ident i .nil) .nil _ [i] _ ?_ ?_ ?_)
    · exact parseSerialExpr_ident textBuilder haccept
    · exact parseSerialExpr_ident treeBuilder haccept
    · exact fun j hj => List.mem_singleton.mp hj ▸ hi
  · intro h input after text labels tree htext htree hidents
    refine meansByValue_of_spelled htext htree fun i hi => h i (hidents i hi) ?_
    obtain ⟨-, ids, -, rfl, haccepted, -, -⟩ :=
      agree_serialDescent (keeps_accepted acceptAsIdent) _ htext
    exact haccepted i hi

def databaseLabel : Label :=
  ⟨"database", by decide⟩

/-- The alias of `use labels::DATABASE as DB`. -/
def aliasIdent : Ident :=
  ⟨false, "DB", isIdentText_word (c := 'D') rfl rfl⟩

/-- With the alias the filter names a label that no test has. -/
theorem serial_means_labels_alias :
    parseSerialExpr (fun _ => true) textBuilder (.ident aliasIdent .nil) =
      .ok ("DB", .nil, [aliasIdent]) ∧
    parseSerialExpr (fun _ => true) treeBuilder (.ident aliasIdent .nil) =
      .ok (.terminal aliasIdent, .nil, [aliasIdent]) ∧
    ¬ MeansByValue (shannon String) (fun _ => databaseLabel) "DB" (.terminal aliasIdent) := by
  refine ⟨rfl, rfl, fun h => ?_⟩
  have htext : MeansByValue (shannon String) (fun _ => databaseLabel) aliasIdent.toString
      (.terminal aliasIdent) := h
  have hspelled : aliasIdent.terminal = "database" := spelled_of_meansByValue htext
  revert hspelled
  decide +kernel

end Skuld
