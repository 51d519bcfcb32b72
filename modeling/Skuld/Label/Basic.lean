import Mathlib
import Skuld.Lib.BoolExpr

/-!
# Labels and label expressions

A label is a name that `Label::__new` accepts: an ASCII identifier, in lower
case, other than `true` and `false`.  `Label` carries that fact, so that every
label list in the development consists of accepted names.

Label expressions are the `Expr<String>` of the Boolean-expression crate.
`matchesExpr` evaluates one on a label list; `namesOf` goes the other way, from
an assignment on the terminals of an expression to a label list with the same
value, which is how statements about all label lists become statements about
all assignments.
-/

namespace Skuld

open BoolExpr

/-! ## Label names -/

/-- `ASCII_ALPHA | "_"`. -/
def isWordStart (c : Char) : Bool :=
  c.isAlpha || c = '_'

/-- `ASCII_ALPHANUMERIC | "_"`. -/
def isWordChar (c : Char) : Bool :=
  c.isAlphanum || c = '_'

/-- ASCII lower case stays inside the two classes. -/
theorem isWordStart_toLower (c : Char) : isWordStart c.toLower = isWordStart c := by
  cases h : c.isUpper with
  | true => simp [isWordStart, Char.isAlpha, h]
  | false => rw [Char.toLower_eq_of_not_isUpper (by simp [h])]

theorem isWordChar_toLower (c : Char) : isWordChar c.toLower = isWordChar c := by
  cases h : c.isUpper with
  | true => simp [isWordChar, Char.isAlphanum, Char.isAlpha, h]
  | false => rw [Char.toLower_eq_of_not_isUpper (by simp [h])]

/-- Names that the filter grammar parses as boolean literals. -/
def reservedLabelNames : List String :=
  ["true", "false"]

/-- The source loops over the UTF-8 bytes; every byte of a character outside
ASCII is outside the accepted classes, so the loop over characters rejects at
the same place with the same message. -/
def validateLabelName (name : String) : Except String Unit :=
  match name.toList with
  | [] => .error "invalid label name: must not be empty"
  | first :: rest =>
      if !isWordStart first then
        .error "invalid label name: must start with an ASCII letter or underscore"
      else if !rest.all isWordChar then
        .error "invalid label name: must contain only ASCII letters, digits, and underscores"
      else if reservedLabelNames.contains name then
        .error "invalid label name: \"true\" and \"false\" are reserved by the filter grammar"
      else
        .ok ()

def containsNoAsciiUppercase (s : String) : Bool :=
  s.toList.all fun b => !b.isUpper

/-- What `Label::__new` asserts of a name. -/
def IsLabelName (name : String) : Prop :=
  validateLabelName name = .ok () ∧ containsNoAsciiUppercase name = true

instance decidableEqExceptUnit : DecidableEq (Except String Unit) := fun a b =>
  match a, b with
  | .ok (), .ok () => isTrue rfl
  | .error e, .error e' => decidable_of_iff (e = e') (by simp)
  | .ok (), .error _ => isFalse (by simp)
  | .error _, .ok () => isFalse (by simp)

instance (name : String) : Decidable (IsLabelName name) :=
  inferInstanceAs (Decidable (_ ∧ _))

/-- A test label. -/
structure Label where
  name : String
  valid : IsLabelName name
  deriving DecidableEq

/-- `Label::__new`; the panics are the errors. -/
def Label.new (name : String) : Except String Label :=
  match h : validateLabelName name with
  | .error e => .error e
  | .ok () =>
      if h' : containsNoAsciiUppercase name then
        .ok ⟨name, h, h'⟩
      else
        .error "Label::__new requires a canonical-lowercase name"

theorem Label.new_eq_ok_iff {name : String} :
    (∃ label, Label.new name = .ok label) ↔ IsLabelName name := by
  unfold Label.new IsLabelName
  split
  · rename_i e h
    simp [h]
  · rename_i h
    split_ifs with h' <;> simp [h, h']

theorem Label.name_of_new {name : String} {label : Label} (h : Label.new name = .ok label) :
    label.name = name := by
  unfold Label.new at h
  split at h
  · cases h
  · split_ifs at h
    cases h
    rfl

theorem Label.ext_name {l l' : Label} (h : l.name = l'.name) : l = l' := by
  cases l
  cases l'
  cases h
  rfl

/-- An accepted name spelled out: an identifier in lower case that is not reserved. -/
theorem isLabelName_iff {name : String} :
    IsLabelName name ↔ ∃ first rest, name.toList = first :: rest ∧ isWordStart first = true ∧
      rest.all isWordChar = true ∧ name ∉ reservedLabelNames ∧
      (first :: rest).all (fun b => !b.isUpper) = true := by
  unfold IsLabelName validateLabelName containsNoAsciiUppercase
  cases hname : name.toList with
  | nil => simp
  | cons first rest =>
      simp only [List.cons.injEq]
      split_ifs with h1 h2 h3
      · simp_all
      · simp_all
      · simp_all
      · simp_all

/-! ## Label expressions -/

/-- A boolean expression over test labels. -/
abbrev LabelExpr := Expr String

/-- The names of every `Terminal`, from left to right. -/
def collectTerminals (expr : LabelExpr) : List String :=
  expr.terminals

/-- A label is present iff its name is that of a `Terminal`; absent labels
evaluate to `false`. -/
def matchesExpr (expr : LabelExpr) (labels : List Label) : Bool :=
  expr.eval fun t => labels.any fun l => l.name = t

/-- Terminals that labels can have. -/
def LabelNames (expr : LabelExpr) : Prop :=
  ∀ t ∈ expr.terminals, IsLabelName t

theorem labelNames_and {a b : LabelExpr} :
    LabelNames (.and a b) ↔ LabelNames a ∧ LabelNames b := by
  simp only [LabelNames, Expr.terminals, List.mem_append, or_imp, forall_and]

theorem labelNames_or {a b : LabelExpr} :
    LabelNames (.or a b) ↔ LabelNames a ∧ LabelNames b := by
  simp only [LabelNames, Expr.terminals, List.mem_append, or_imp, forall_and]

/-- The label list with the accepted names among `names` that `ρ` selects. -/
def namesOf (ρ : String → Bool) : List String → List Label
  | [] => []
  | t :: names => if h : ρ t = true ∧ IsLabelName t then ⟨t, h.2⟩ :: namesOf ρ names
      else namesOf ρ names

theorem any_namesOf {ρ : String → Bool} {names : List String} {t : String} (hmem : t ∈ names)
    (ht : IsLabelName t) : ((namesOf ρ names).any fun l => l.name = t) = ρ t := by
  have hiff : ∀ names : List String, ((namesOf ρ names).any fun l => l.name = t) = true ↔
      t ∈ names ∧ ρ t = true := by
    intro names
    induction names with
    | nil => simp [namesOf]
    | cons u names ih =>
        rw [namesOf]
        split_ifs with h
        · rw [List.any_cons, Bool.or_eq_true, ih, List.mem_cons, decide_eq_true_eq]
          constructor
          · rintro (rfl | ⟨hmem, hρ⟩)
            exacts [⟨.inl rfl, h.1⟩, ⟨.inr hmem, hρ⟩]
          · rintro ⟨rfl | hmem, hρ⟩
            exacts [.inl rfl, .inr ⟨hmem, hρ⟩]
        · rw [ih, List.mem_cons]
          constructor
          · rintro ⟨hmem, hρ⟩
            exact ⟨.inr hmem, hρ⟩
          · rintro ⟨rfl | hmem, hρ⟩
            exacts [absurd ⟨hρ, ht⟩ h, ⟨hmem, hρ⟩]
  rw [Bool.eq_iff_iff, hiff names]
  exact ⟨fun h => h.2, fun h => ⟨hmem, h⟩⟩

/-- Every assignment is a label list, for an expression over accepted names. -/
theorem matchesExpr_namesOf {expr : LabelExpr} (hnames : LabelNames expr) {names : List String}
    (hsub : ∀ t ∈ expr.terminals, t ∈ names) (ρ : String → Bool) :
    matchesExpr expr (namesOf ρ names) = expr.eval ρ :=
  Expr.eval_congr fun t ht => any_namesOf (hsub t ht) (hnames t ht)

/-- Equivalence is equality on every label list. -/
theorem equiv_iff_matchesExpr {e e' : LabelExpr} (he : LabelNames e) (he' : LabelNames e') :
    e.Equiv e' ↔ ∀ labels, matchesExpr e labels = matchesExpr e' labels := by
  constructor
  · exact fun h labels => h _
  · intro h ρ
    have := h (namesOf ρ (e.terminals ++ e'.terminals))
    rwa [matchesExpr_namesOf he (fun t ht => List.mem_append.mpr (.inl ht)),
      matchesExpr_namesOf he' (fun t ht => List.mem_append.mpr (.inr ht))] at this

end Skuld
