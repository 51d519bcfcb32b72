import Skuld.Lib.Separated
import Skuld.Macros.SerialExpr
import Skuld.Macros.TestBody
import Skuld.Runner.Collect

/-!
# The arguments of the attributes

`#[skuld::test(...)]` and `#[skuld::fixture(...)]` take settings `key`, `key = value` with
commas between them.  Both parsers are the same loop over different settings: a key that
has come before is an error, whatever follows it, and so is one that is not known.

Each setting fills fields of its own, so that the order of the settings makes no
difference (`ParsesSettings.reorder`).
-/

namespace Skuld

open Separated

/-! ## Tokens -/

/-- The tokens of an attribute.  `other` is any token that its parsers do not know. -/
inductive AttrTokens where
  | nil
  | ident (i : Ident) (rest : AttrTokens)
  | punct (c : Char) (rest : AttrTokens)
  | str (value : String) (rest : AttrTokens)
  | paren (content rest : AttrTokens)
  | bracket (content rest : AttrTokens)
  | other (rest : AttrTokens)
  deriving DecidableEq

namespace AttrTokens

def length : AttrTokens → ℕ
  | nil => 0
  | ident _ rest | punct _ rest | str _ rest | paren _ rest | bracket _ rest | other rest =>
      rest.length + 1

def isEmpty : AttrTokens → Bool
  | nil => true
  | _ => false

def drop : ℕ → AttrTokens → AttrTokens
  | 0, input => input
  | _, nil => nil
  | n + 1, ident _ rest | n + 1, punct _ rest | n + 1, str _ rest | n + 1, paren _ rest
  | n + 1, bracket _ rest | n + 1, other rest => rest.drop n

def dropPunct (op : Char) : AttrTokens → Option AttrTokens
  | punct c rest => if c = op then some rest else none
  | _ => none

/-- As the parser of serial expressions sees them. -/
def serialTokens : AttrTokens → TokenStream
  | nil => .nil
  | ident i rest => .ident i rest.serialTokens
  | punct c rest => .punct c rest.serialTokens
  | paren content rest => .paren content.serialTokens rest.serialTokens
  | str _ rest | bracket _ rest | other rest => .other rest.serialTokens

end AttrTokens

/-- The errors at compile time; `expected` is one of the parsers of single tokens. -/
inductive AttrError where
  | expected (what : String)
  | duplicate (key : String)
  | unknown (key keys : String)
  | scope (scope : String)
  | serial (e : SerialError)
  | message (text : String)
  | outOfRounds
  deriving DecidableEq

/-- The texts of the errors that the macros raise themselves. -/
def AttrError.text : AttrError → Option String
  | .duplicate key => some ("duplicate argument `" ++ key ++ "`")
  | .unknown key keys => some ("unknown argument `" ++ key ++ "`; expected " ++ keys)
  | .scope s => some ("unknown scope `" ++ s ++ "`; expected variable, test, or process")
  | .message text => some text
  | .expected _ | .serial _ | .outOfRounds => none

/-! ## The parsers of values -/

def attrStream : Separated.Tokens AttrError AttrTokens where
  isEmpty := AttrTokens.isEmpty
  length := AttrTokens.length
  separator input := (input.dropPunct ',').elim (.error (.expected ",")) .ok
  outOfRounds := .outOfRounds
  separator_le := by
    intro input rest h
    cases input with
    | punct c input =>
        by_cases hc : c = ','
        · simp only [AttrTokens.dropPunct, hc, if_true, Option.elim, Except.ok.injEq] at h
          simp [← h, AttrTokens.length]
        · simp [AttrTokens.dropPunct, hc] at h
    | _ => simp [AttrTokens.dropPunct] at h

def parseEq (input : AttrTokens) : Except AttrError AttrTokens :=
  (input.dropPunct '=').elim (.error (.expected "=")) .ok

def parseLitStr : AttrTokens → Except AttrError (String × AttrTokens)
  | .str value rest => .ok (value, rest)
  | _ => .error (.expected "string literal")

section

variable {P : Type} (acceptAsIdent : String → Bool)
  (parsePath : AttrTokens → Option (P × AttrTokens))

def parseIdent : AttrTokens → Except AttrError (String × AttrTokens)
  | .ident i rest =>
      if acceptAsIdent i.toString then .ok (i.toString, rest) else .error (.expected "identifier")
  | _ => .error (.expected "identifier")

def parsePathValue (input : AttrTokens) : Except AttrError (P × AttrTokens) :=
  (parsePath input).elim (.error (.expected "identifier")) .ok

def pushPath (paths : List P) (input : AttrTokens) :
    Except AttrError (List P × AttrTokens) :=
  (parsePathValue parsePath input).map fun (path, rest) => (paths ++ [path], rest)

/-- `Punctuated::<Path, Token![,]>::parse_terminated`. -/
def parsePaths (content : AttrTokens) : Except AttrError (List P) :=
  separated attrStream (pushPath parsePath) (content.length + 1) [] content

def parseBracketedPaths : AttrTokens → Except AttrError (List P × AttrTokens)
  | .bracket content rest => (parsePaths parsePath content).map fun paths => (paths, rest)
  | _ => .error (.expected "square brackets")

/-- The text and the labels of a serial expression. -/
def parseSerialValue (input : AttrTokens) :
    Except AttrError ((String × List Ident) × AttrTokens) :=
  match parseSerialExpr acceptAsIdent textBuilder input.serialTokens with
  | .error e => .error (.serial e)
  | .ok (text, rest, labels) => .ok ((text, labels), input.drop (input.length - rest.length))

def parseScope (input : AttrTokens) : Except AttrError (String × AttrTokens) := do
  let (scope, input) ← parseIdent acceptAsIdent input
  if scope ≠ "variable" ∧ scope ≠ "test" ∧ scope ≠ "process" then
    .error (.scope scope)
  else
    return (scope, input)

/-- `key = value`, after the key. -/
def parseAssigned {α β : Type} (value : AttrTokens → Except AttrError (α × AttrTokens))
    (arg : α → β) (input : AttrTokens) : Except AttrError (β × AttrTokens) := do
  let (a, input) ← value (← parseEq input)
  return (arg a, input)

/-- `key` or `key = value`, after the key. -/
def parseFlag {α β : Type} (value : AttrTokens → Except AttrError (α × AttrTokens)) (flag : β)
    (arg : α → β) (input : AttrTokens) : Except AttrError (β × AttrTokens) :=
  if (input.dropPunct '=').isSome then parseAssigned value arg input else .ok (flag, input)

/-- The loop of both attributes. -/
def parseSettings {α σ : Type} (value : String → AttrTokens → Except AttrError (α × AttrTokens))
    (set : σ → α → σ) (args : σ) (input : AttrTokens) : Except AttrError σ :=
  (separated attrStream (keyed (parseIdent acceptAsIdent) value .duplicate set)
    (input.length + 1) (args, []) input).map Prod.fst

/-! ## The arguments of a test -/

abbrev IgnoreArg := Ignore

abbrev ShouldPanicArg := ShouldPanic

structure TestArgs (P : Type) where
  requires : List P := []
  name : Option String := none
  labels : Option (List P) := none
  ignore : IgnoreArg := .no
  serial : Option String := none
  serialLabels : List Ident := []
  shouldPanic : ShouldPanicArg := .no
  runtime : Option P := none
  deriving DecidableEq

inductive TestArg (P : Type) where
  | requires (paths : List P)
  | name (value : String)
  | labels (paths : List P)
  | ignore (value : IgnoreArg)
  | serialAll
  | serial (text : String) (labels : List Ident)
  | runtime (path : P)
  | shouldPanic (value : ShouldPanicArg)

def TestArgs.set (args : TestArgs P) : TestArg P → TestArgs P
  | .requires paths => { args with requires := paths }
  | .name value => { args with name := some value }
  | .labels paths => { args with labels := some paths }
  | .ignore value => { args with ignore := value }
  | .serialAll => { args with serial := some "*" }
  | .serial text labels => { args with serial := some text, serialLabels := labels }
  | .runtime path => { args with runtime := some path }
  | .shouldPanic value => { args with shouldPanic := value }

def parseTestArg (key : String) : AttrTokens → Except AttrError (TestArg P × AttrTokens) :=
  if key = "requires" then
    parseAssigned (parseBracketedPaths parsePath) .requires
  else if key = "name" then
    parseAssigned parseLitStr .name
  else if key = "labels" then
    parseAssigned (parseBracketedPaths parsePath) .labels
  else if key = "ignore" then
    parseFlag parseLitStr (.ignore .yes) fun reason => .ignore (.withReason reason)
  else if key = "serial" then
    parseFlag (parseSerialValue acceptAsIdent) .serialAll fun (text, labels) => .serial text labels
  else if key = "runtime" then
    parseAssigned (parsePathValue parsePath) .runtime
  else if key = "should_panic" then
    parseFlag parseLitStr (.shouldPanic .yes) fun text => .shouldPanic (.withMessage text)
  else fun _ =>
    .error (.unknown key "requires, name, labels, ignore, serial, should_panic, or runtime")

def parseTestArgs (input : AttrTokens) : Except AttrError (TestArgs P) :=
  parseSettings acceptAsIdent (parseTestArg acceptAsIdent parsePath) TestArgs.set {} input

/-! ## The arguments of a fixture -/

structure FixtureArgs (P : Type) where
  requires : List P := []
  labels : List P := []
  scope : Option String := none
  name : Option String := none
  deref : Bool := false
  serial : Option String := none
  serialLabels : List Ident := []
  deriving DecidableEq

inductive FixtureArg (P : Type) where
  | requires (paths : List P)
  | labels (paths : List P)
  | scope (value : String)
  | name (value : String)
  | deref
  | serialAll
  | serial (text : String) (labels : List Ident)

def FixtureArgs.set (args : FixtureArgs P) : FixtureArg P → FixtureArgs P
  | .requires paths => { args with requires := paths }
  | .labels paths => { args with labels := paths }
  | .scope value => { args with scope := some value }
  | .name value => { args with name := some value }
  | .deref => { args with deref := true }
  | .serialAll => { args with serial := some "*" }
  | .serial text labels => { args with serial := some text, serialLabels := labels }

def parseFixtureArg (key : String) : AttrTokens → Except AttrError (FixtureArg P × AttrTokens) :=
  if key = "requires" then
    parseAssigned (parseBracketedPaths parsePath) .requires
  else if key = "labels" then
    parseAssigned (parseBracketedPaths parsePath) .labels
  else if key = "scope" then
    parseAssigned (parseScope acceptAsIdent) .scope
  else if key = "name" then
    parseAssigned parseLitStr .name
  else if key = "deref" then fun input =>
    .ok (.deref, input)
  else if key = "serial" then
    parseFlag (parseSerialValue acceptAsIdent) .serialAll fun (text, labels) => .serial text labels
  else fun _ =>
    .error (.unknown key "requires, labels, scope, name, deref, or serial")

def parseFixtureArgs (input : AttrTokens) : Except AttrError (FixtureArgs P) :=
  parseSettings acceptAsIdent (parseFixtureArg acceptAsIdent parsePath) FixtureArgs.set {} input

end

/-! ## Values end where they end -/

namespace AttrTokens

theorem length_of_dropPunct {op : Char} {input rest : AttrTokens}
    (h : input.dropPunct op = some rest) : rest.length < input.length := by
  cases input with
  | punct c input =>
      rw [dropPunct] at h
      split_ifs at h
      cases h
      exact Nat.lt_succ_self _
  | _ => cases h

theorem length_drop (n : ℕ) (input : AttrTokens) : (input.drop n).length = input.length - n := by
  induction n generalizing input with
  | zero => rw [drop, Nat.sub_zero]
  | succ n ih =>
      cases input with
      | nil => simp [drop, length]
      | _ => rw [drop, ih, length, Nat.add_sub_add_right]

end AttrTokens

section

variable {P : Type} {acceptAsIdent : String → Bool}
  {parsePath : AttrTokens → Option (P × AttrTokens)}

/-- A result is read from the front of the input. -/
def Shortens {α : Type} (x : Except AttrError (α × AttrTokens)) (input : AttrTokens) : Prop :=
  ∀ {a rest}, x = .ok (a, rest) → rest.length ≤ input.length

theorem parseEq_lt {input rest : AttrTokens} (h : parseEq input = .ok rest) :
    rest.length < input.length := by
  unfold parseEq at h
  cases hdrop : input.dropPunct '=' with
  | none => simp [hdrop] at h
  | some after =>
      simp only [hdrop, Option.elim, Except.ok.injEq] at h
      exact h ▸ AttrTokens.length_of_dropPunct hdrop

theorem shortens_parseLitStr (input : AttrTokens) : Shortens (parseLitStr input) input := by
  intro value rest h
  cases input with
  | str value' input =>
      cases h
      exact Nat.le_succ _
  | _ => cases h

theorem parseIdent_lt {input rest : AttrTokens} {name : String}
    (h : parseIdent acceptAsIdent input = .ok (name, rest)) : rest.length < input.length := by
  cases input with
  | ident i input =>
      rw [parseIdent] at h
      split_ifs at h
      cases h
      exact Nat.lt_succ_self _
  | _ => cases h

theorem shortens_parseBracketedPaths (input : AttrTokens) :
    Shortens (parseBracketedPaths parsePath input) input := by
  intro paths rest h
  cases input with
  | bracket content input =>
      rw [parseBracketedPaths] at h
      cases hpaths : parsePaths parsePath content with
      | error e => simp [hpaths, Except.map] at h
      | ok paths' =>
          simp only [hpaths, Except.map, Except.ok.injEq, Prod.mk.injEq] at h
          exact h.2 ▸ Nat.le_succ _
  | _ => cases h

theorem shortens_parseSerialValue (input : AttrTokens) :
    Shortens (parseSerialValue acceptAsIdent input) input := by
  intro value rest h
  unfold parseSerialValue at h
  split at h
  · cases h
  · cases h
    rw [AttrTokens.length_drop]
    exact Nat.sub_le _ _

theorem shortens_parseScope (input : AttrTokens) :
    Shortens (parseScope acceptAsIdent input) input := by
  intro scope rest h
  obtain ⟨⟨name, after⟩, hname, h⟩ := Loop.exists_of_bind_eq_ok h
  dsimp only at h
  split_ifs at h
  cases h
  exact (parseIdent_lt hname).le

/-- A path has a token. -/
def TakesTokens (parsePath : AttrTokens → Option (P × AttrTokens)) : Prop :=
  ∀ input path rest, parsePath input = some (path, rest) → rest.length < input.length

theorem parsePathValue_lt (hpath : TakesTokens parsePath) {input rest : AttrTokens} {path : P}
    (h : parsePathValue parsePath input = .ok (path, rest)) : rest.length < input.length := by
  unfold parsePathValue at h
  cases hparse : parsePath input with
  | none => simp [hparse] at h
  | some found =>
      simp only [hparse, Option.elim, Except.ok.injEq] at h
      exact hpath input path rest (h ▸ hparse)

/-- A setting with the key, read from the front of the input. -/
def ReadsArg {β : Type} (key : β → Prop) (x : AttrTokens → Except AttrError (β × AttrTokens)) :
    Prop :=
  ∀ input b rest, x input = .ok (b, rest) → key b ∧ rest.length ≤ input.length

theorem readsArg_parseAssigned {α β : Type} {key : β → Prop}
    {value : AttrTokens → Except AttrError (α × AttrTokens)} {arg : α → β}
    (hvalue : ∀ input, Shortens (value input) input) (hkey : ∀ a, key (arg a)) :
    ReadsArg key (parseAssigned value arg) := by
  intro input b rest h
  obtain ⟨after, heq, h⟩ := Loop.exists_of_bind_eq_ok h
  obtain ⟨⟨a, rest'⟩, ha, h⟩ := Loop.exists_of_bind_eq_ok h
  cases h
  exact ⟨hkey a, (hvalue after ha).trans (parseEq_lt heq).le⟩

theorem readsArg_parseFlag {α β : Type} {key : β → Prop}
    {value : AttrTokens → Except AttrError (α × AttrTokens)} {flag : β} {arg : α → β}
    (hvalue : ∀ input, Shortens (value input) input) (hflag : key flag)
    (hkey : ∀ a, key (arg a)) : ReadsArg key (parseFlag value flag arg) := by
  intro input b rest h
  unfold parseFlag at h
  split_ifs at h with hassigned
  · exact readsArg_parseAssigned hvalue hkey input b rest h
  · cases h
    exact ⟨hflag, le_rfl⟩

end

/-! ## The rounds are enough -/

/-- The errors of a loop that runs out of rounds, which are none of the macros. -/
def AttrError.OutOfFuel : AttrError → Prop
  | .outOfRounds | .serial .outOfFuel => True
  | _ => False

section

variable {P α β : Type} {acceptAsIdent : String → Bool}
  {parsePath : AttrTokens → Option (P × AttrTokens)}

def HasFuel (x : Except AttrError α) : Prop :=
  ∀ e : AttrError, e.OutOfFuel → x ≠ .error e

theorem hasFuel_ok (a : α) : HasFuel (.ok a) :=
  fun _ _ h => by cases h

theorem hasFuel_error {e : AttrError} (he : ¬ e.OutOfFuel) :
    HasFuel (.error e : Except AttrError α) :=
  fun _ hfuel h => he (Except.error.inj h ▸ hfuel)

theorem HasFuel.bind {x : Except AttrError α} {f : α → Except AttrError β} (hx : HasFuel x)
    (hf : ∀ a, HasFuel (f a)) : HasFuel (x >>= f) :=
  fun e he => Loop.bind_ne_error (hx e he) fun a _ => hf a e he

theorem HasFuel.map {x : Except AttrError α} {f : α → β} (hx : HasFuel x) : HasFuel (x.map f) :=
  fun e he => Loop.map_ne_error (hx e he)

theorem hasFuel_elim (o : Option α) {what : String} :
    HasFuel (o.elim (.error (.expected what)) .ok) := by
  cases o with
  | none => exact hasFuel_error id
  | some a => exact hasFuel_ok a

theorem hasFuel_parseLitStr (input : AttrTokens) : HasFuel (parseLitStr input) := by
  cases input with
  | str value rest => exact hasFuel_ok _
  | _ => exact hasFuel_error id

theorem hasFuel_parseIdent (input : AttrTokens) : HasFuel (parseIdent acceptAsIdent input) := by
  cases input with
  | ident i rest =>
      rw [parseIdent]
      split_ifs
      · exact hasFuel_ok _
      · exact hasFuel_error id
  | _ => exact hasFuel_error id

theorem hasFuel_parseScope (input : AttrTokens) : HasFuel (parseScope acceptAsIdent input) := by
  refine (hasFuel_parseIdent input).bind fun ⟨scope, rest⟩ => ?_
  dsimp only
  split_ifs
  · exact hasFuel_error id
  · exact hasFuel_ok _

theorem hasFuel_parseBracketedPaths (hpath : TakesTokens parsePath) (input : AttrTokens) :
    HasFuel (parseBracketedPaths parsePath input) := by
  cases input with
  | bracket content rest =>
      refine HasFuel.map fun e he => separated_ne_error ?_ ?_ ?_ (Nat.lt_succ_self _)
      · intro paths input paths' rest h
        unfold pushPath at h
        cases hvalue : parsePathValue parsePath input with
        | error e => simp [hvalue, Except.map] at h
        | ok found =>
            simp only [hvalue, Except.map, Except.ok.injEq, Prod.mk.injEq] at h
            exact h.2 ▸ parsePathValue_lt hpath hvalue
      · exact fun paths input => HasFuel.map (hasFuel_elim _) e he
      · exact fun input => hasFuel_elim _ e he
  | _ => exact hasFuel_error id

theorem hasFuel_parseSerialValue (input : AttrTokens) :
    HasFuel (parseSerialValue acceptAsIdent input) := by
  unfold parseSerialValue
  cases hparse : parseSerialExpr acceptAsIdent textBuilder input.serialTokens with
  | error e =>
      refine hasFuel_error fun he => ?_
      cases e with
      | outOfFuel => exact parseSerialExpr_ne_outOfFuel _ hparse
      | _ => exact he
  | ok result => exact hasFuel_ok _

theorem hasFuel_parseAssigned {value : AttrTokens → Except AttrError (α × AttrTokens)} {arg : α → β}
    (hvalue : ∀ input, HasFuel (value input)) (input : AttrTokens) :
    HasFuel (parseAssigned value arg input) :=
  (hasFuel_elim _).bind fun after => (hvalue after).bind fun _ => hasFuel_ok _

theorem hasFuel_parseFlag {value : AttrTokens → Except AttrError (α × AttrTokens)} {flag : β}
    {arg : α → β} (hvalue : ∀ input, HasFuel (value input)) (input : AttrTokens) :
    HasFuel (parseFlag value flag arg input) := by
  unfold parseFlag
  split_ifs
  · exact hasFuel_parseAssigned hvalue input
  · exact hasFuel_ok _

theorem hasFuel_parseTestArg (hpath : TakesTokens parsePath) (key : String) (input : AttrTokens) :
    HasFuel (parseTestArg acceptAsIdent parsePath key input) := by
  unfold parseTestArg
  split_ifs
  · exact hasFuel_parseAssigned (hasFuel_parseBracketedPaths hpath) input
  · exact hasFuel_parseAssigned hasFuel_parseLitStr input
  · exact hasFuel_parseAssigned (hasFuel_parseBracketedPaths hpath) input
  · exact hasFuel_parseFlag hasFuel_parseLitStr input
  · exact hasFuel_parseFlag hasFuel_parseSerialValue input
  · exact hasFuel_parseAssigned (fun _ => hasFuel_elim _) input
  · exact hasFuel_parseFlag hasFuel_parseLitStr input
  · exact hasFuel_error id

theorem hasFuel_parseFixtureArg (hpath : TakesTokens parsePath) (key : String)
    (input : AttrTokens) :
    HasFuel (parseFixtureArg acceptAsIdent parsePath key input) := by
  unfold parseFixtureArg
  split_ifs
  · exact hasFuel_parseAssigned (hasFuel_parseBracketedPaths hpath) input
  · exact hasFuel_parseAssigned (hasFuel_parseBracketedPaths hpath) input
  · exact hasFuel_parseAssigned hasFuel_parseScope input
  · exact hasFuel_parseAssigned hasFuel_parseLitStr input
  · exact hasFuel_ok _
  · exact hasFuel_parseFlag hasFuel_parseSerialValue input
  · exact hasFuel_error id

end

/-! ## Settings of their own -/

section

variable {P : Type} {acceptAsIdent : String → Bool}
  {parsePath : AttrTokens → Option (P × AttrTokens)}

def TestArg.key : TestArg P → String
  | .requires _ => "requires"
  | .name _ => "name"
  | .labels _ => "labels"
  | .ignore _ => "ignore"
  | .serialAll | .serial _ _ => "serial"
  | .runtime _ => "runtime"
  | .shouldPanic _ => "should_panic"

def FixtureArg.key : FixtureArg P → String
  | .requires _ => "requires"
  | .labels _ => "labels"
  | .scope _ => "scope"
  | .name _ => "name"
  | .deref => "deref"
  | .serialAll | .serial _ _ => "serial"

theorem TestArgs.set_comm {a b : TestArg P} (h : a.key ≠ b.key) (args : TestArgs P) :
    (args.set a).set b = (args.set b).set a := by
  cases a <;> cases b <;> first | rfl | exact absurd rfl h

theorem FixtureArgs.set_comm {a b : FixtureArg P} (h : a.key ≠ b.key) (args : FixtureArgs P) :
    (args.set a).set b = (args.set b).set a := by
  cases a <;> cases b <;> first | rfl | exact absurd rfl h

theorem readsArg_parseTestArg (hpath : TakesTokens parsePath) (key : String) :
    ReadsArg (fun a => a.key = key) (parseTestArg acceptAsIdent parsePath key) := by
  unfold parseTestArg
  split_ifs with h h h h h h h
  any_goals subst h
  · exact readsArg_parseAssigned shortens_parseBracketedPaths fun _ => rfl
  · exact readsArg_parseAssigned shortens_parseLitStr fun _ => rfl
  · exact readsArg_parseAssigned shortens_parseBracketedPaths fun _ => rfl
  · exact readsArg_parseFlag shortens_parseLitStr rfl fun _ => rfl
  · exact readsArg_parseFlag shortens_parseSerialValue rfl fun _ => rfl
  · exact readsArg_parseAssigned (fun _ _ _ h => (parsePathValue_lt hpath h).le) fun _ => rfl
  · exact readsArg_parseFlag shortens_parseLitStr rfl fun _ => rfl
  · exact nofun

theorem readsArg_parseFixtureArg (key : String) :
    ReadsArg (fun a => a.key = key) (parseFixtureArg acceptAsIdent parsePath key) := by
  unfold parseFixtureArg
  split_ifs with h h h h h h
  any_goals subst h
  · exact readsArg_parseAssigned shortens_parseBracketedPaths fun _ => rfl
  · exact readsArg_parseAssigned shortens_parseBracketedPaths fun _ => rfl
  · exact readsArg_parseAssigned shortens_parseScope fun _ => rfl
  · exact readsArg_parseAssigned shortens_parseLitStr fun _ => rfl
  · intro input b rest h
    cases h
    exact ⟨rfl, le_rfl⟩
  · exact readsArg_parseFlag shortens_parseSerialValue rfl fun _ => rfl
  · exact nofun

/-! ## What the loop accepts -/

/-- What a list of settings means, whatever their order.  The rounds of the loop are
enough. -/
structure ParsesSettings {α σ : Type} (parse : AttrTokens → Except AttrError σ)
    (reads : AttrTokens → List (String × α) → Prop) (set : σ → α → σ) (start : σ) : Prop where
  accepts_iff : ∀ input args, parse input = .ok args ↔
    ∃ l, reads input l ∧ (l.map Prod.fst).Nodup ∧ args = (l.map Prod.snd).foldl set start
  reorder : ∀ {input input' l l'}, reads input l → reads input' l' → l.Perm l' →
    ∀ args, parse input = .ok args → parse input' = .ok args
  duplicate : ∀ {input l}, reads input l → ¬ (l.map Prod.fst).Nodup →
    ∃ k, 1 < (l.map Prod.fst).count k ∧ parse input = .error (.duplicate k)
  hasFuel : ∀ input, HasFuel (parse input)

theorem parsesSettings {α σ : Type} {key : α → String}
    {value : String → AttrTokens → Except AttrError (α × AttrTokens)} {set : σ → α → σ}
    (hvalue : ∀ k, ReadsArg (fun a => key a = k) (value k))
    (hvalueFuel : ∀ k input, HasFuel (value k input))
    (hcomm : ∀ {a b}, key a ≠ key b → ∀ s, set (set s a) b = set (set s b) a) (start : σ) :
    ParsesSettings (parseSettings acceptAsIdent value set start)
      (Settings attrStream (parseIdent acceptAsIdent) value) set start := by
  have hkey : ∀ {input k rest}, parseIdent acceptAsIdent input = .ok (k, rest) →
      attrStream.length rest < attrStream.length input := parseIdent_lt
  have hlength : ∀ {k input a rest}, value k input = .ok (a, rest) →
      attrStream.length rest ≤ attrStream.length input :=
    fun h => (hvalue _ _ _ _ h).2
  have haccepts : ∀ input args, parseSettings acceptAsIdent value set start input = .ok args ↔
      ∃ l, Settings attrStream (parseIdent acceptAsIdent) value input l ∧
        (l.map Prod.fst).Nodup ∧ args = (l.map Prod.snd).foldl set start := by
    intro input args
    have hloop : ∀ seen,
        separated attrStream (keyed (parseIdent acceptAsIdent) value .duplicate set)
          (input.length + 1) (start, []) input = .ok (args, seen) ↔
        ∃ l, Settings attrStream (parseIdent acceptAsIdent) value input l ∧
          ([] ++ l.map Prod.fst).Nodup ∧ args = (l.map Prod.snd).foldl set start ∧
          seen = [] ++ l.map Prod.fst := fun seen =>
      (separated_eq_ok_iff (consumes_keyed hkey hlength) (Nat.lt_succ_self _)).trans
        (reads_keyed_iff .nil)
    unfold parseSettings
    constructor
    · intro h
      cases hrun : separated attrStream (keyed (parseIdent acceptAsIdent) value .duplicate set)
          (input.length + 1) (start, []) input with
      | error e => simp [hrun, Except.map] at h
      | ok result =>
          simp only [hrun, Except.map, Except.ok.injEq] at h
          obtain ⟨l, hl, hnodup, hargs, -⟩ := (hloop result.2).mp (h ▸ hrun)
          exact ⟨l, hl, hnodup, hargs⟩
    · intro ⟨l, hl, hnodup, hargs⟩
      rw [(hloop (l.map Prod.fst)).mpr ⟨l, hl, hnodup, hargs, rfl⟩]
      rfl
  have hduplicate : ∀ {input l}, Settings attrStream (parseIdent acceptAsIdent) value input l →
      ¬ (l.map Prod.fst).Nodup → ∃ k, 1 < (l.map Prod.fst).count k ∧
        parseSettings acceptAsIdent value set start input = .error (.duplicate k) := by
    intro input l hl hrepeated
    have hrun : ∃ k, 1 < ([] ++ l.map Prod.fst).count k ∧
        separated attrStream (keyed (parseIdent acceptAsIdent) value .duplicate set)
          (input.length + 1) (start, []) input = .error (.duplicate k) :=
      separated_duplicate hkey hlength hl .nil hrepeated (Nat.lt_succ_self _) start
    obtain ⟨k, hk, hrun⟩ := hrun
    refine ⟨k, hk, ?_⟩
    unfold parseSettings
    rw [hrun]
    rfl
  have hfuel : ∀ input, HasFuel (parseSettings acceptAsIdent value set start input) := fun input =>
    HasFuel.map fun e he => separated_ne_error (consumes_keyed hkey hlength)
      (keyed_ne_error (fun input => hasFuel_parseIdent input e he)
        (fun k input => hvalueFuel k input e he) (fun k h => by rw [← h] at he; exact he))
      (fun input => hasFuel_elim _ e he) (Nat.lt_succ_self _)
  refine ⟨haccepts, fun {input input' l l'} hl hl' hperm args h => ?_, hduplicate, hfuel⟩
  by_cases hnodup : (l.map Prod.fst).Nodup
  · have hread : ∀ x ∈ l, key x.2 = x.1 := fun x hx => by
      obtain ⟨before, rest, hx⟩ := hl.exists_value hx
      exact (hvalue _ _ _ _ hx).1
    have hfold : parseSettings acceptAsIdent value set start input =
        .ok ((l.map Prod.snd).foldl set start) := (haccepts _ _).mpr ⟨l, hl, hnodup, rfl⟩
    refine (haccepts _ _).mpr ⟨l', hl', (hperm.map Prod.fst).nodup_iff.mp hnodup, ?_⟩
    rw [← Except.ok.inj (hfold.symm.trans h)]
    refine foldl_perm hperm hnodup (fun x hx y hy hne s => hcomm ?_ s) start
    rwa [hread x hx, hread y hy]
  · obtain ⟨k, -, herror⟩ := hduplicate hl hnodup
    cases herror.symm.trans h

/-- Both attributes accept lists of settings with known keys, none of them twice, and the
order of the settings makes no difference. -/
theorem attribute_arguments_spec (acceptAsIdent : String → Bool) (hpath : TakesTokens parsePath) :
    ParsesSettings (parseTestArgs acceptAsIdent parsePath)
        (Settings attrStream (parseIdent acceptAsIdent) (parseTestArg acceptAsIdent parsePath))
        TestArgs.set {} ∧
      ParsesSettings (parseFixtureArgs acceptAsIdent parsePath)
        (Settings attrStream (parseIdent acceptAsIdent) (parseFixtureArg acceptAsIdent parsePath))
        FixtureArgs.set {} :=
  ⟨parsesSettings (readsArg_parseTestArg hpath) (hasFuel_parseTestArg hpath) TestArgs.set_comm {},
    parsesSettings readsArg_parseFixtureArg (hasFuel_parseFixtureArg hpath) FixtureArgs.set_comm {}⟩

end

/-- Paths of one segment. -/
def identPath : AttrTokens → Option (String × AttrTokens)
  | .ident i rest => some (i.toString, rest)
  | _ => none

theorem takesTokens_identPath : TakesTokens identPath := by
  intro input path rest h
  cases input with
  | ident i input =>
      cases h
      exact Nat.lt_succ_self _
  | _ => cases h

def ignoreIdent : Ident := ⟨false, "ignore", isIdentText_word rfl rfl⟩

def serialIdent : Ident := ⟨false, "serial", isIdentText_word rfl rfl⟩

theorem attribute_arguments_spec_reordered :
    parseTestArgs (fun _ => true) identPath
        (.ident serialIdent (.punct ',' (.ident ignoreIdent (.punct ',' .nil)))) =
      .ok { ignore := .yes, serial := some "*" } := by
  have hother : parseTestArgs (fun _ => true) identPath
      (.ident ignoreIdent (.punct ',' (.ident serialIdent .nil))) =
        .ok { ignore := .yes, serial := some "*" } := rfl
  exact (attribute_arguments_spec (fun _ => true) takesTokens_identPath).1.reorder
    (.cons rfl rfl rfl rfl (.last rfl rfl rfl))
    (.cons rfl rfl rfl rfl (.cons rfl rfl rfl rfl (.nil rfl)))
    (.swap ("serial", .serialAll) ("ignore", .ignore .yes) []) _ hother

end Skuld
