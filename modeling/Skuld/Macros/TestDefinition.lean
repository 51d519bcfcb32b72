import Skuld.Macros.Arguments

/-!
# The expansion of a test

`expand_test_def` takes the outer attributes of the function over into the arguments,
collects the fixtures from its parameters and registers the test.

An outer `#[ignore]` or `#[should_panic]` means what the argument of the macro means
(`outer_attributes_spec`): wherever it stands among the attributes, and only if the
setting is not given a second time, by an argument or by another attribute.
-/

namespace Skuld

/-! ## The function -/

/-- What follows the path of an attribute; the value is `none` if it is no string. -/
inductive AttrMeta where
  | path
  | list (tokens : AttrTokens)
  | nameValue (value : Option String)
  deriving DecidableEq

/-- `name` is the path of the attribute if it is one identifier. -/
structure Attribute where
  name : Option String
  content : AttrMeta
  deriving DecidableEq

def Attribute.isIdent (a : Attribute) (name : String) : Bool :=
  a.name == some name

inductive RustType where
  | reference (elem : RustType)
  | other (text : String)
  deriving DecidableEq

inductive Pat where
  | ident (name : String)
  | other (text : String)
  deriving DecidableEq

structure PatType where
  attrs : List Attribute
  pat : Pat
  ty : RustType
  deriving DecidableEq

inductive FnArg where
  | receiver
  | typed (param : PatType)
  deriving DecidableEq

/-- `block` stands for the rest of the function, which goes through unchanged. -/
structure ItemFn where
  attrs : List Attribute
  name : String
  inputs : List FnArg
  isAsync : Bool
  block : String
  deriving DecidableEq

/-! ## Outer attributes -/

section

variable (acceptAsIdent : String → Bool)

def absorbIgnoreAttr (attr : Attribute) : Except AttrError IgnoreArg :=
  match attr.content with
  | .path => .ok .yes
  | .nameValue (some reason) => .ok (.withReason reason)
  | .nameValue none => .error (.message "#[ignore = ...] expects a string literal")
  | .list _ => .error (.message "expected #[ignore] or #[ignore = \"reason\"]")

/-- `syn::parse2`, which expects the end of the tokens after the value. -/
def parse2 {α : Type} (parse : AttrTokens → Except AttrError (α × AttrTokens))
    (tokens : AttrTokens) : Except AttrError α := do
  let (value, rest) ← parse tokens
  if rest.isEmpty then .ok value else .error (.message "unexpected token")

def parseShouldPanicExpected (input : AttrTokens) : Except AttrError (String × AttrTokens) := do
  let (key, input) ← parseIdent acceptAsIdent input
  if key ≠ "expected" then
    .error (.message ("expected `expected`, found `" ++ key ++ "`"))
  else
    parseLitStr (← parseEq input)

def absorbShouldPanicAttr (attr : Attribute) : Except AttrError ShouldPanicArg :=
  match attr.content with
  | .path => .ok .yes
  | .list tokens => (parse2 (parseShouldPanicExpected acceptAsIdent) tokens).map .withMessage
  | .nameValue _ =>
      .error (.message "expected #[should_panic] or #[should_panic(expected = \"message\")]")

structure OuterAttrs where
  ignore : Option Attribute := none
  shouldPanic : Option Attribute := none

def outerAttr (outer : OuterAttrs) (attr : Attribute) : Except AttrError OuterAttrs :=
  if attr.isIdent "test" then
    .error (.message "remove #[test] — #[skuld::test] already registers this function")
  else if attr.isIdent "ignore" then
    if outer.ignore.isSome then .error (.message "duplicate #[ignore] attribute")
    else .ok { outer with ignore := some attr }
  else if attr.isIdent "should_panic" then
    if outer.shouldPanic.isSome then .error (.message "duplicate #[should_panic] attribute")
    else .ok { outer with shouldPanic := some attr }
  else
    .ok outer

/-- Merges an outer attribute with an argument of the macro. -/
def mergeOuter {β : Type} [DecidableEq β] (no : β) (conflict : String)
    (absorb : Attribute → Except AttrError β) (arg : β) : Option Attribute → Except AttrError β
  | none => .ok arg
  | some attr => if arg ≠ no then .error (.message conflict) else absorb attr

def mergeIgnore : IgnoreArg → Option Attribute → Except AttrError IgnoreArg :=
  mergeOuter .no ("conflicting `ignore`: remove either #[ignore] or the `ignore` argument from " ++
    "#[skuld::test(...)]") absorbIgnoreAttr

def mergeShouldPanic : ShouldPanicArg → Option Attribute → Except AttrError ShouldPanicArg :=
  mergeOuter .no ("conflicting `should_panic`: remove either #[should_panic] or the " ++
    "`should_panic` argument from #[skuld::test(...)]") (absorbShouldPanicAttr acceptAsIdent)

/-- The attributes that the function keeps. -/
def keptAttrs (attrs : List Attribute) : List Attribute :=
  attrs.filter fun a => !a.isIdent "ignore" && !a.isIdent "should_panic"

/-! ## Fixtures -/

/-- Parsed info for a `#[fixture]` / `#[fixture(name)]` parameter. -/
structure FixtureParam where
  binding : Pat
  fixtureName : String
  targetTy : RustType
  paramTy : RustType
  deriving DecidableEq

def stripReference : RustType → RustType
  | .reference elem => elem
  | ty => ty

def findFixtureAttr (param : PatType) : Except AttrError (Option Attribute) :=
  match param.attrs.filter (·.isIdent "fixture") with
  | [] => .ok none
  | [attr] => .ok (some attr)
  | _ :: _ :: _ => .error (.message "duplicate #[fixture] attribute")

def parseFixtureNameArg (attr : Attribute) : Except AttrError (Option String) :=
  match attr.content with
  | .path => .ok none
  | .list tokens => (parse2 (parseIdent acceptAsIdent) tokens).map some
  | .nameValue _ => .error (.message "expected #[fixture] or #[fixture(name)]")

/-- The macro panics if the pattern is no identifier. -/
def bindingToName : Pat → Except AttrError String
  | .ident name => .ok name
  | .other _ => .error (.message "#[fixture] parameter must be a simple identifier binding")

def parseFixtureParam (attr : Attribute) (param : PatType) : Except AttrError FixtureParam := do
  let explicit ← parseFixtureNameArg acceptAsIdent attr
  let fixtureName ← explicit.elim (bindingToName param.pat) .ok
  return {
    binding := param.pat
    fixtureName
    targetTy := stripReference param.ty
    paramTy := param.ty }

/-- A parameter of the test, and of the function that is kept. -/
def expandParam (fixtures : List FixtureParam × List FnArg) :
    FnArg → Except AttrError (List FixtureParam × List FnArg)
  | .receiver => .ok (fixtures.1, fixtures.2 ++ [.receiver])
  | .typed param => do
      match ← findFixtureAttr param with
      | none => return (fixtures.1, fixtures.2 ++ [.typed param])
      | some attr =>
          let fixture ← parseFixtureParam acceptAsIdent attr param
          let clean := { param with attrs := param.attrs.filter (!·.isIdent "fixture") }
          return (fixtures.1 ++ [fixture], fixtures.2 ++ [.typed clean])

/-! ## The registered test -/

variable {P : Type} (pathText : P → String)

/-- The body gets the fixtures in their order, binds them and calls the function. -/
structure BodyCode (P : Type) where
  isAsync : Bool
  runtime : Option P
  fixtures : List FixtureParam
  callArgs : List Pat
  shouldPanic : ShouldPanicArg
  deriving DecidableEq

structure TestExpansion (P : Type) where
  function : ItemFn
  serialLabelChecks : List Ident
  name : String
  displayName : Option String
  requires : List (String × P)
  fixtureNames : List String
  ignore : IgnoreArg
  labels : List P
  labelsExplicit : Bool
  serial : String
  shouldPanic : ShouldPanicArg
  body : BodyCode P
  deriving DecidableEq

/-- What follows the outer attributes. -/
def expandMerged (args : TestArgs P) (func : ItemFn) : Except AttrError (TestExpansion P) := do
  let (fixtures, params) ← func.inputs.foldlM (expandParam acceptAsIdent) ([], [])
  if args.runtime.isSome ∧ func.isAsync = false then
    .error (.message ("`runtime = ...` is only valid on an `async fn`, but `" ++ func.name ++
      "` is not async"))
  else
    return {
      function := { func with attrs := keptAttrs func.attrs, inputs := params }
      serialLabelChecks := args.serialLabels
      name := func.name
      displayName := args.name
      requires := args.requires.map fun path => (pathText path, path)
      fixtureNames := fixtures.map FixtureParam.fixtureName
      ignore := args.ignore
      labels := args.labels.getD []
      labelsExplicit := args.labels.isSome
      serial := args.serial.getD ""
      shouldPanic := args.shouldPanic
      body := {
        isAsync := func.isAsync
        runtime := args.runtime
        fixtures
        callArgs := fixtures.map FixtureParam.binding
        shouldPanic := args.shouldPanic } }

def expandTestDef (args : TestArgs P) (func : ItemFn) : Except AttrError (TestExpansion P) := do
  let outer ← func.attrs.foldlM outerAttr {}
  let ignore ← mergeIgnore args.ignore outer.ignore
  let shouldPanic ← mergeShouldPanic acceptAsIdent args.shouldPanic outer.shouldPanic
  expandMerged acceptAsIdent pathText { args with ignore, shouldPanic } func

end

/-! ## Settings given once -/

/-- The value of a setting that is given at most once, and well formed. -/
def GivenOnce {β : Type} (no : β) (settings : List (Except AttrError β)) (v : β) : Prop :=
  settings = [] ∧ v = no ∨ settings = [.ok v]

/-- The setting as an argument of the macro and as outer attributes. -/
def settingsOf {β : Type} [DecidableEq β] (no : β) (name : String)
    (absorb : Attribute → Except AttrError β) (arg : β) (attrs : List Attribute) :
    List (Except AttrError β) :=
  (if arg = no then [] else [.ok arg]) ++ (attrs.filter (·.isIdent name)).map absorb

def ignoreSettings : IgnoreArg → List Attribute → List (Except AttrError IgnoreArg) :=
  settingsOf .no "ignore" absorbIgnoreAttr

def shouldPanicSettings (acceptAsIdent : String → Bool) :
    ShouldPanicArg → List Attribute → List (Except AttrError ShouldPanicArg) :=
  settingsOf .no "should_panic" (absorbShouldPanicAttr acceptAsIdent)

section

variable {β : Type} {no arg v : β} {absorb : Attribute → Except AttrError β} {conflict : String}

theorem givenOnce_nil : GivenOnce no [] v ↔ v = no := by
  simp [GivenOnce]

theorem givenOnce_singleton {setting : Except AttrError β} :
    GivenOnce no [setting] v ↔ setting = .ok v := by
  simp [GivenOnce]

/-- What is given twice is rejected, wherever it is given. -/
theorem not_givenOnce_cons_cons {x y : Except AttrError β} {settings : List (Except AttrError β)} :
    ¬ GivenOnce no (x :: y :: settings) v := by
  simp [GivenOnce]

theorem GivenOnce.perm {settings settings' : List (Except AttrError β)}
    (h : GivenOnce no settings v) (hperm : settings.Perm settings') : GivenOnce no settings' v := by
  rcases h with ⟨rfl, hv⟩ | rfl
  · exact .inl ⟨hperm.nil_eq.symm, hv⟩
  · exact .inr (List.singleton_perm.mp hperm).symm

theorem exists_outer [DecidableEq β] {name : String} {attrs : List Attribute}
    (h : GivenOnce no (settingsOf no name absorb arg attrs) v) :
    ∃ outer : Option Attribute, attrs.filter (·.isIdent name) = outer.toList := by
  unfold settingsOf at h
  cases hattrs : attrs.filter (·.isIdent name) with
  | nil => exact ⟨none, rfl⟩
  | cons a rest =>
      cases rest with
      | nil => exact ⟨some a, rfl⟩
      | cons b rest =>
          rw [hattrs] at h
          split_ifs at h
          · exact absurd h not_givenOnce_cons_cons
          · exact absurd h not_givenOnce_cons_cons

theorem mergeOuter_eq_ok_iff [DecidableEq β] {outer : Option Attribute} :
    mergeOuter no conflict absorb arg outer = .ok v ↔
      GivenOnce no ((if arg = no then [] else [.ok arg]) ++ outer.toList.map absorb) v := by
  by_cases harg : arg = no
  · cases outer with
    | none => simp [mergeOuter, harg, givenOnce_nil, eq_comm]
    | some attr => simp [mergeOuter, harg, givenOnce_singleton]
  · cases outer with
    | none => simp [mergeOuter, harg, givenOnce_singleton]
    | some attr => simp [mergeOuter, harg, not_givenOnce_cons_cons]

end

/-! ## The loop over the attributes -/

theorem Attribute.isIdent_iff {a : Attribute} {name : String} :
    a.isIdent name = true ↔ a.name = some name := by
  simp [isIdent]

theorem Attribute.not_isIdent_of_ne {a : Attribute} {name name' : String}
    (h : a.isIdent name = true) (hne : name ≠ name') : a.isIdent name' = false := by
  rw [isIdent_iff] at h
  simp [isIdent, h, hne]

theorem toList_inj {α : Type} {o o' : Option α} : o.toList = o'.toList ↔ o = o' := by
  cases o <;> cases o' <;> simp

theorem cons_cons_ne_toList {α : Type} {x y : α} {l : List α} (o : Option α) :
    x :: y :: l ≠ o.toList := by
  cases o <;> simp

/-- The loop collects the attributes with the two names, of which there is one each. -/
theorem foldlM_outerAttr_iff {attrs : List Attribute} {start outer : OuterAttrs} :
    attrs.foldlM outerAttr start = .ok outer ↔
      (∀ a ∈ attrs, a.isIdent "test" = false) ∧
        start.ignore.toList ++ attrs.filter (·.isIdent "ignore") = outer.ignore.toList ∧
        start.shouldPanic.toList ++ attrs.filter (·.isIdent "should_panic") =
          outer.shouldPanic.toList := by
  induction attrs generalizing start with
  | nil =>
      have hslots : OuterAttrs.mk start.ignore start.shouldPanic = outer ↔
          start.ignore.toList = outer.ignore.toList ∧
            start.shouldPanic.toList = outer.shouldPanic.toList := by
        obtain ⟨ignore, shouldPanic⟩ := outer
        simp only [OuterAttrs.mk.injEq, toList_inj]
      simpa [pure, Except.pure] using hslots
  | cons a attrs ih =>
      rw [List.foldlM_cons, List.forall_mem_cons]
      cases htest : a.isIdent "test" with
      | true => simp [outerAttr, htest, bind, Except.bind]
      | false =>
      cases hignore : a.isIdent "ignore" with
      | true =>
          have hshouldPanic : a.isIdent "should_panic" = false :=
            Attribute.not_isIdent_of_ne hignore (by decide)
          cases hslot : start.ignore with
          | none => simp [outerAttr, htest, hignore, hslot, hshouldPanic, bind, Except.bind, ih]
          | some b =>
              have hfilter : (a :: attrs).filter (·.isIdent "ignore") =
                  a :: attrs.filter (·.isIdent "ignore") := List.filter_cons_of_pos hignore
              rw [hfilter]
              simp only [outerAttr, htest, hignore, hslot, bind, Except.bind]
              exact iff_of_false nofun fun h => cons_cons_ne_toList outer.ignore h.2.1
      | false =>
          cases hshouldPanic : a.isIdent "should_panic" with
          | true =>
              cases hslot : start.shouldPanic with
              | none => simp [outerAttr, htest, hignore, hslot, hshouldPanic, bind, Except.bind, ih]
              | some b =>
                  have hfilter : (a :: attrs).filter (·.isIdent "should_panic") =
                      a :: attrs.filter (·.isIdent "should_panic") :=
                    List.filter_cons_of_pos hshouldPanic
                  rw [hfilter]
                  simp only [outerAttr, htest, hignore, hshouldPanic, hslot, bind, Except.bind]
                  exact iff_of_false nofun fun h => cons_cons_ne_toList outer.shouldPanic h.2.2
          | false => simp [outerAttr, htest, hignore, hshouldPanic, bind, Except.bind, ih]

/-! ## The expansion -/

variable {acceptAsIdent : String → Bool} {P : Type} {pathText : P → String}

theorem keptAttrs_keptAttrs (attrs : List Attribute) :
    keptAttrs (keptAttrs attrs) = keptAttrs attrs := by
  simp [keptAttrs, List.filter_filter]

/-- Only the kept attributes of the function come through. -/
theorem expandMerged_attrs (args : TestArgs P) (func : ItemFn) (attrs : List Attribute) :
    expandMerged acceptAsIdent pathText args { func with attrs } =
      (expandMerged acceptAsIdent pathText args func).map fun e =>
        { e with function := { e.function with attrs := keptAttrs attrs } } := by
  unfold expandMerged
  cases func.inputs.foldlM (expandParam acceptAsIdent) ([], []) with
  | error e => rfl
  | ok params =>
      dsimp only [bind, Except.bind]
      split_ifs
      · rfl
      · rfl

theorem expandMerged_keptAttrs (args : TestArgs P) (func : ItemFn) :
    expandMerged acceptAsIdent pathText args { func with attrs := keptAttrs func.attrs } =
      expandMerged acceptAsIdent pathText args func := by
  simp only [expandMerged, keptAttrs_keptAttrs]

/-- The attributes are merged into the arguments, each of them given at most once. -/
def Merges (acceptAsIdent : String → Bool) (args : TestArgs P) (attrs : List Attribute)
    (ignore : IgnoreArg) (shouldPanic : ShouldPanicArg) : Prop :=
  (∀ a ∈ attrs, a.isIdent "test" = false) ∧
    GivenOnce .no (ignoreSettings args.ignore attrs) ignore ∧
    GivenOnce .no (shouldPanicSettings acceptAsIdent args.shouldPanic attrs) shouldPanic

theorem expandTestDef_eq_ok_iff {args : TestArgs P} {func : ItemFn} {e : TestExpansion P} :
    expandTestDef acceptAsIdent pathText args func = .ok e ↔
      ∃ ignore shouldPanic, Merges acceptAsIdent args func.attrs ignore shouldPanic ∧
        expandMerged acceptAsIdent pathText { args with ignore, shouldPanic } func = .ok e := by
  constructor
  · intro h
    obtain ⟨outer, houter, h⟩ := Loop.exists_of_bind_eq_ok h
    obtain ⟨ignore, hignore, h⟩ := Loop.exists_of_bind_eq_ok h
    obtain ⟨shouldPanic, hshouldPanic, h⟩ := Loop.exists_of_bind_eq_ok h
    obtain ⟨htest, hignores, hshouldPanics⟩ := foldlM_outerAttr_iff.mp houter
    have hignore := mergeOuter_eq_ok_iff.mp hignore
    have hshouldPanic := mergeOuter_eq_ok_iff.mp hshouldPanic
    rw [← hignores] at hignore
    rw [← hshouldPanics] at hshouldPanic
    exact ⟨ignore, shouldPanic, ⟨htest, hignore, hshouldPanic⟩, h⟩
  · intro ⟨ignore, shouldPanic, ⟨htest, hignore, hshouldPanic⟩, h⟩
    obtain ⟨outerIgnore, hignores⟩ := exists_outer hignore
    obtain ⟨outerShouldPanic, hshouldPanics⟩ := exists_outer hshouldPanic
    have houter : func.attrs.foldlM outerAttr {} = .ok ⟨outerIgnore, outerShouldPanic⟩ :=
      foldlM_outerAttr_iff.mpr ⟨htest, hignores, hshouldPanics⟩
    have hmergeIgnore : mergeIgnore args.ignore outerIgnore = .ok ignore := by
      refine mergeOuter_eq_ok_iff.mpr ?_
      rw [← hignores]
      exact hignore
    have hmergeShouldPanic :
        mergeShouldPanic acceptAsIdent args.shouldPanic outerShouldPanic = .ok shouldPanic := by
      refine mergeOuter_eq_ok_iff.mpr ?_
      rw [← hshouldPanics]
      exact hshouldPanic
    simp only [expandTestDef, houter, hmergeIgnore, hmergeShouldPanic, bind, Except.bind]
    exact h

theorem settingsOf_keptAttrs {β : Type} [DecidableEq β] {no arg v : β} {name : String}
    {absorb : Attribute → Except AttrError β} (hname : name = "ignore" ∨ name = "should_panic")
    (attrs : List Attribute) :
    GivenOnce no (settingsOf no name absorb arg (keptAttrs attrs)) v ↔ v = arg := by
  have hnone : (keptAttrs attrs).filter (·.isIdent name) = [] := by
    refine List.filter_eq_nil_iff.mpr fun a ha => ?_
    have hkept := (List.mem_filter.mp ha).2
    rw [Bool.and_eq_true, Bool.not_eq_true', Bool.not_eq_true'] at hkept
    rcases hname with rfl | rfl
    · simp [hkept.1]
    · simp [hkept.2]
  rw [settingsOf, hnone]
  by_cases harg : arg = no
  · simp [harg, givenOnce_nil]
  · simp [harg, givenOnce_singleton, eq_comm]

theorem merges_keptAttrs {args : TestArgs P} {attrs : List Attribute} {ignore : IgnoreArg}
    {shouldPanic : ShouldPanicArg} :
    Merges acceptAsIdent args (keptAttrs attrs) ignore shouldPanic ↔
      (∀ a ∈ keptAttrs attrs, a.isIdent "test" = false) ∧ ignore = args.ignore ∧
        shouldPanic = args.shouldPanic :=
  and_congr_right' (and_congr (settingsOf_keptAttrs (.inl rfl) attrs)
    (settingsOf_keptAttrs (.inr rfl) attrs))

theorem Merges.perm {args : TestArgs P} {attrs attrs' : List Attribute} {ignore : IgnoreArg}
    {shouldPanic : ShouldPanicArg} (h : Merges acceptAsIdent args attrs ignore shouldPanic)
    (hperm : attrs.Perm attrs') : Merges acceptAsIdent args attrs' ignore shouldPanic where
  left a ha := h.1 a (hperm.mem_iff.mpr ha)
  right := ⟨h.2.1.perm (((hperm.filter _).map _).append_left _),
    h.2.2.perm (((hperm.filter _).map _).append_left _)⟩

/-- Outer attributes and arguments of the macro mean the same, in any order. -/
theorem outer_attributes_spec (acceptAsIdent : String → Bool) (pathText : P → String)
    (args : TestArgs P) (func : ItemFn) (e : TestExpansion P) :
    (expandTestDef acceptAsIdent pathText args func = .ok e ↔
      ∃ ignore shouldPanic, Merges acceptAsIdent args func.attrs ignore shouldPanic ∧
        expandTestDef acceptAsIdent pathText { args with ignore, shouldPanic }
          { func with attrs := keptAttrs func.attrs } = .ok e) ∧
      ∀ attrs, func.attrs.Perm attrs → expandTestDef acceptAsIdent pathText args func = .ok e →
        expandTestDef acceptAsIdent pathText args { func with attrs } =
          .ok { e with function := { e.function with attrs := keptAttrs attrs } } := by
  refine ⟨⟨fun h => ?_, fun ⟨ignore, shouldPanic, hmerges, h⟩ => ?_⟩, fun attrs hperm h => ?_⟩
  · obtain ⟨ignore, shouldPanic, hmerges, h⟩ := expandTestDef_eq_ok_iff.mp h
    refine ⟨ignore, shouldPanic, hmerges, expandTestDef_eq_ok_iff.mpr
      ⟨ignore, shouldPanic, merges_keptAttrs.mpr ⟨fun a ha => ?_, rfl, rfl⟩, ?_⟩⟩
    · exact hmerges.1 a (List.mem_filter.mp ha).1
    · rwa [expandMerged_keptAttrs]
  · obtain ⟨ignore', shouldPanic', hkept, h⟩ := expandTestDef_eq_ok_iff.mp h
    obtain ⟨-, rfl, rfl⟩ := merges_keptAttrs.mp hkept
    rw [expandMerged_keptAttrs] at h
    exact expandTestDef_eq_ok_iff.mpr ⟨_, _, hmerges, h⟩
  · obtain ⟨ignore, shouldPanic, hmerges, h⟩ := expandTestDef_eq_ok_iff.mp h
    refine expandTestDef_eq_ok_iff.mpr ⟨ignore, shouldPanic, hmerges.perm hperm, ?_⟩
    rw [expandMerged_attrs, h]
    rfl

end Skuld
