import Mathlib.Data.List.Infix
import Skuld.Lib.Drops

/-!
# The body of a test

`#[skuld::test]` wraps a test into a closure that enters the test scope, gets the
fixtures, calls the function, and drops everything again.  A test that should panic
has the call in a `catch_unwind`, and the scope and the fixture handles move into it.

The two forms differ only where the panic of the test is concerned.

* **Drops.**  The handles and the scope are dropped at the same point, in the same
  order and with the thread panicking or not as in the plain form, whatever panics;
  every handle goes before the scope.
* **Other panics.**  If the runtime, the scope or a fixture cannot be set up, or if the
  function returns and a `Drop` panics, both forms run alike.
* **Verdict.**  A test that should panic passes exactly if its function panics with an
  expected message and nothing else panics.
-/

namespace Skuld

inductive PanicPayload where
  | str (s : String)
  | string (s : String)
  | other
  deriving DecidableEq

inductive ShouldPanic where
  | no
  | yes
  | withMessage (expected : String)
  deriving DecidableEq

/-- How the function of the test ends; an error comes with its debug text. -/
inductive BodyEnd where
  | returns
  | returnsErr (e : String)
  | panics (payload : PanicPayload)
  deriving DecidableEq

/-- The locals of the closure. -/
inductive TestLocal where
  | runtime
  | runtimeGuard
  | scope
  | handle (i : ℕ)
  deriving DecidableEq

/-- What panics: `build_runtime`, `enter_test_scope` and the calls of `fixture_get`, the
function, and every `Drop` depending on whether its thread is panicking. -/
structure BodyEnv where
  init : TestLocal → Option PanicPayload
  body : BodyEnd
  drop : TestLocal → Bool → Option PanicPayload

abbrev BodyRun := Drops.Run TestLocal PanicPayload

def intoTestResult : BodyEnd → Option PanicPayload
  | .returns => none
  | .returnsErr e => some (.string ("test returned an error: " ++ e))
  | .panics payload => some payload

def PanicPayload.message : PanicPayload → Option String
  | .str s => some s
  | .string s => some s
  | .other => none

/-- `{:?}` of a string is a parameter. -/
def messageCheck (debug : String → String) (shouldPanic : ShouldPanic) (payload : PanicPayload) :
    Option PanicPayload :=
  match shouldPanic with
  | .withMessage expected =>
      match payload.message with
      | none => some (.string ("test panicked as expected, but the panic payload is not a " ++
          "string (expected message containing " ++ debug expected ++ ")"))
      | some msg =>
          if expected.toList <:+: msg.toList then none
          else some (.string ("test panicked as expected, but the message " ++ debug msg ++
            " does not contain " ++ debug expected))
  | _ => none

/-- What goes on after the `catch_unwind`; `none` if nothing panics. -/
def verdict (debug : String → String) (shouldPanic : ShouldPanic) (bodyCompleted : Bool) :
    Option PanicPayload → Option PanicPayload
  | none => some (.str "test did not panic as expected")
  | some payload =>
      if bodyCompleted then some payload else messageCheck debug shouldPanic payload

def runtimePreamble (isAsync : Bool) : List TestLocal :=
  if isAsync then [.runtime, .runtimeGuard] else []

def scopeAndFixtureGets (fixtures : ℕ) : List TestLocal :=
  .scope :: (List.range fixtures).map .handle

/-- The initializers of the closure, in order. -/
def setup (isAsync : Bool) (fixtures : ℕ) : List TestLocal :=
  runtimePreamble isAsync ++ scopeAndFixtureGets fixtures

def plainBody (isAsync : Bool) (fixtures : ℕ) (env : BodyEnv) : BodyRun :=
  match Drops.enter env.init (setup isAsync fixtures) [] with
  | (locals, some payload) => Drops.leave env.drop locals (some payload)
  | (locals, none) => Drops.leave env.drop locals (intoTestResult env.body)

def shouldPanicBody (debug : String → String) (shouldPanic : ShouldPanic) (isAsync : Bool)
    (fixtures : ℕ) (env : BodyEnv) : BodyRun :=
  match Drops.enter env.init (setup isAsync fixtures) [] with
  | (locals, some payload) => Drops.leave env.drop locals (some payload)
  | (_, none) =>
      let result := intoTestResult env.body
      -- the scope and the handles move into the closure of the `catch_unwind`
      Drops.andThen (Drops.leave env.drop (scopeAndFixtureGets fixtures).reverse result)
        fun caught => Drops.leave env.drop (runtimePreamble isAsync).reverse
          (verdict debug shouldPanic result.isNone caught)

/-- The closure that is registered. -/
def bodyExpr (debug : String → String) (shouldPanic : ShouldPanic) (isAsync : Bool)
    (fixtures : ℕ) (env : BodyEnv) : BodyRun :=
  match shouldPanic with
  | .no => plainBody isAsync fixtures env
  | _ => shouldPanicBody debug shouldPanic isAsync fixtures env

/-- A handle or the scope. -/
def TestLocal.inScope : TestLocal → Bool
  | .scope => true
  | .handle _ => true
  | _ => false

variable {debug : String → String} {shouldPanic : ShouldPanic} {isAsync : Bool} {fixtures : ℕ}
  {env : BodyEnv}

theorem bodyExpr_of_ne_no (h : shouldPanic ≠ .no) :
    bodyExpr debug shouldPanic isAsync fixtures env =
      shouldPanicBody debug shouldPanic isAsync fixtures env := by
  cases shouldPanic with
  | no => exact absurd rfl h
  | _ => rfl

theorem setup_reverse (isAsync : Bool) (fixtures : ℕ) :
    (setup isAsync fixtures).reverse =
      (scopeAndFixtureGets fixtures).reverse ++ (runtimePreamble isAsync).reverse :=
  List.reverse_append

theorem inScope_of_mem_runtimePreamble {l : TestLocal} (h : l ∈ runtimePreamble isAsync) :
    l.inScope = false := by
  unfold runtimePreamble at h
  split_ifs at h
  · simp only [List.mem_cons, List.not_mem_nil, or_false] at h
    rcases h with rfl | rfl <;> rfl
  · cases h

/-! ## The two forms -/

/-- An initializer panics, and both forms are unwound with what there is. -/
theorem bodies_of_setup_panics (debug : String → String) (shouldPanic : ShouldPanic)
    (h : ¬ ∀ l ∈ setup isAsync fixtures, env.init l = none) :
    ∃ locals payload, (locals.reverse <+: setup isAsync fixtures) ∧
      plainBody isAsync fixtures env = Drops.leave env.drop locals (some payload) ∧
      shouldPanicBody debug shouldPanic isAsync fixtures env =
        Drops.leave env.drop locals (some payload) := by
  obtain ⟨payload, hpayload⟩ : ∃ payload, (setup isAsync fixtures).findSome? env.init =
      some payload := by
    rw [← Option.ne_none_iff_exists', ne_eq, List.findSome?_eq_none_iff]
    exact h
  have henter : Drops.enter env.init (setup isAsync fixtures) [] =
      (((setup isAsync fixtures).takeWhile fun x => (env.init x).isNone).reverse,
        some payload) := by
    rw [Drops.enter_eq, hpayload, List.append_nil]
  refine ⟨((setup isAsync fixtures).takeWhile fun x => (env.init x).isNone).reverse, payload,
    ?_, ?_, ?_⟩
  · rw [List.reverse_reverse]
    exact List.takeWhile_prefix _
  · rw [plainBody, henter]
  · rw [shouldPanicBody, henter]

/-- All initializers succeed, and the forms go apart after the call. -/
theorem bodies_of_setup_ok (debug : String → String) (shouldPanic : ShouldPanic)
    (hok : ∀ l ∈ setup isAsync fixtures, env.init l = none) :
    plainBody isAsync fixtures env =
        Drops.andThen
          (Drops.leave env.drop (scopeAndFixtureGets fixtures).reverse (intoTestResult env.body))
          (Drops.leave env.drop (runtimePreamble isAsync).reverse) ∧
      shouldPanicBody debug shouldPanic isAsync fixtures env =
        Drops.andThen
          (Drops.leave env.drop (scopeAndFixtureGets fixtures).reverse (intoTestResult env.body))
          fun caught => Drops.leave env.drop (runtimePreamble isAsync).reverse
            (verdict debug shouldPanic (intoTestResult env.body).isNone caught) := by
  have henter := Drops.enter_of_ok hok
  constructor
  · rw [plainBody, henter, setup_reverse]
    exact Drops.leave_append _ _ _
  · rw [shouldPanicBody, henter]

/-- The handles and the scope are dropped alike. -/
theorem filter_inScope_eq (debug : String → String) (shouldPanic : ShouldPanic) (isAsync : Bool)
    (fixtures : ℕ) (env : BodyEnv) :
    (shouldPanicBody debug shouldPanic isAsync fixtures env).1.filter (fun d => d.value.inScope) =
      (plainBody isAsync fixtures env).1.filter fun d => d.value.inScope := by
  by_cases hok : ∀ l ∈ setup isAsync fixtures, env.init l = none
  · obtain ⟨hplain, hcaught⟩ := bodies_of_setup_ok debug shouldPanic hok
    have houter : ∀ inFlight, ∀ d ∈
        (Drops.leave env.drop (runtimePreamble isAsync).reverse inFlight).1,
        d.value.inScope = false := fun inFlight d hd =>
      inScope_of_mem_runtimePreamble (List.mem_reverse.mp (Drops.value_mem_of_mem_leave hd))
    rw [hplain, hcaught, Drops.filter_andThen houter, Drops.filter_andThen]
    exact fun caught => houter _
  · obtain ⟨locals, payload, -, hplain, hcaught⟩ :=
      bodies_of_setup_panics debug shouldPanic hok
    rw [hplain, hcaught]

/-- The function returns, and the forms do the same with a panic of a `Drop`. -/
theorem shouldPanicBody_of_teardown_panics
    (hok : ∀ l ∈ setup isAsync fixtures, env.init l = none)
    (hbody : intoTestResult env.body = none) {l : TestLocal}
    (hl : l ∈ scopeAndFixtureGets fixtures) (hdrop : env.drop l false ≠ none) :
    shouldPanicBody debug shouldPanic isAsync fixtures env = plainBody isAsync fixtures env := by
  obtain ⟨hplain, hcaught⟩ := bodies_of_setup_ok debug shouldPanic hok
  rw [hplain, hcaught, hbody]
  unfold Drops.andThen
  cases hinner : (Drops.leave env.drop (scopeAndFixtureGets fixtures).reverse none).2 with
  | returns =>
      have hsilent := (Drops.leave_returns_iff.mp hinner).2 l (List.mem_reverse.mpr hl)
      exact absurd hsilent hdrop
  | panics payload => rfl
  | aborts => rfl

/-- What it takes to pass. -/
theorem shouldPanicBody_returns_iff :
    (shouldPanicBody debug shouldPanic isAsync fixtures env).2 = .returns ↔
      (∀ l ∈ setup isAsync fixtures, env.init l = none) ∧
      (∃ payload, intoTestResult env.body = some payload ∧
        messageCheck debug shouldPanic payload = none) ∧
      (∀ l ∈ scopeAndFixtureGets fixtures, env.drop l true = none) ∧
      ∀ l ∈ runtimePreamble isAsync, env.drop l false = none := by
  by_cases hok : ∀ l ∈ setup isAsync fixtures, env.init l = none
  · obtain ⟨-, hcaught⟩ := bodies_of_setup_ok debug shouldPanic hok
    rw [hcaught]
    constructor
    · intro hreturns
      unfold Drops.andThen at hreturns
      cases hinner : (Drops.leave env.drop (scopeAndFixtureGets fixtures).reverse
        (intoTestResult env.body)).2 with
      | returns =>
          -- the function has returned, which panics after the `catch_unwind`
          simp only [hinner, verdict] at hreturns
          exact absurd hreturns (Drops.leave_some_ne_returns _ _)
      | aborts => simp [hinner] at hreturns
      | panics payload =>
          simp only [hinner] at hreturns
          obtain ⟨hverdict, houter⟩ := Drops.leave_returns_iff.mp hreturns
          cases hbody : intoTestResult env.body with
          | none => simp [verdict, hbody] at hverdict
          | some payload' =>
              rw [hbody] at hinner
              obtain ⟨rfl, hsilent⟩ := Drops.leave_some_panics_iff.mp hinner
              refine ⟨hok, ⟨payload, rfl, ?_⟩, fun l hl => hsilent l (List.mem_reverse.mpr hl),
                fun l hl => houter l (List.mem_reverse.mpr hl)⟩
              simpa [verdict, hbody] using hverdict
    · intro ⟨_, ⟨payload, hbody, hcheck⟩, hsilent, houter⟩
      have hinner : (Drops.leave env.drop (scopeAndFixtureGets fixtures).reverse
          (intoTestResult env.body)).2 = .panics payload := by
        rw [hbody]
        exact Drops.leave_some_panics_iff.mpr
          ⟨rfl, fun l hl => hsilent l (List.mem_reverse.mp hl)⟩
      have hverdict : verdict debug shouldPanic (intoTestResult env.body).isNone (some payload) =
          none := by
        rw [hbody]
        exact hcheck
      unfold Drops.andThen
      simp only [hinner, hverdict]
      exact Drops.leave_returns_iff.mpr ⟨rfl, fun l hl => houter l (List.mem_reverse.mp hl)⟩
  · obtain ⟨locals, payload, -, -, hcaught⟩ :=
      bodies_of_setup_panics debug shouldPanic hok
    rw [hcaught]
    constructor
    · exact fun hreturns => absurd hreturns (Drops.leave_some_ne_returns _ _)
    · exact fun h => absurd h.1 hok

/-- Unless the process aborts, what has been initialized is dropped the other way round. -/
theorem values_bodyExpr (h : (bodyExpr debug shouldPanic isAsync fixtures env).2 ≠ .aborts) :
    ((bodyExpr debug shouldPanic isAsync fixtures env).1.map Drops.Dropped.value).reverse <+:
      setup isAsync fixtures := by
  by_cases hok : ∀ l ∈ setup isAsync fixtures, env.init l = none
  · obtain ⟨hplain, hcaught⟩ := bodies_of_setup_ok debug shouldPanic hok
    have hvalues : (bodyExpr debug shouldPanic isAsync fixtures env).1.map Drops.Dropped.value =
        (setup isAsync fixtures).reverse := by
      rw [setup_reverse]
      by_cases hno : shouldPanic = .no
      · subst hno
        change (plainBody isAsync fixtures env).1.map _ = _
        change (plainBody isAsync fixtures env).2 ≠ _ at h
        rw [hplain] at h ⊢
        exact Drops.values_andThen h
      · rw [bodyExpr_of_ne_no hno, hcaught] at h ⊢
        exact Drops.values_andThen h
    simp only [hvalues, List.reverse_reverse, List.prefix_rfl]
  · obtain ⟨locals, payload, hprefix, hplain, hcaught⟩ :=
      bodies_of_setup_panics debug shouldPanic hok
    have hrun : bodyExpr debug shouldPanic isAsync fixtures env =
        Drops.leave env.drop locals (some payload) := by
      by_cases hno : shouldPanic = .no
      · subst hno
        exact hplain
      · exact (bodyExpr_of_ne_no hno).trans hcaught
    rw [hrun] at h ⊢
    rw [Drops.values_leave h]
    exact hprefix

/-- Catching the panic changes what the test has to do to pass, and nothing else about
the fixtures, and only a panic of the function counts. -/
theorem shouldPanic_spec (debug : String → String) {shouldPanic : ShouldPanic}
    (h : shouldPanic ≠ .no) (isAsync : Bool) (fixtures : ℕ) (env : BodyEnv) :
    (bodyExpr debug shouldPanic isAsync fixtures env).1.filter (fun d => d.value.inScope) =
        (bodyExpr debug .no isAsync fixtures env).1.filter (fun d => d.value.inScope) ∧
      (∀ form, (bodyExpr debug form isAsync fixtures env).2 ≠ .aborts →
        ((bodyExpr debug form isAsync fixtures env).1.map Drops.Dropped.value).reverse <+:
          setup isAsync fixtures) ∧
      ((∃ l ∈ setup isAsync fixtures, env.init l ≠ none) ∨
        intoTestResult env.body = none ∧
          (∃ l ∈ scopeAndFixtureGets fixtures, env.drop l false ≠ none) →
        bodyExpr debug shouldPanic isAsync fixtures env =
          bodyExpr debug .no isAsync fixtures env) ∧
      ((bodyExpr debug shouldPanic isAsync fixtures env).2 = .returns ↔
        (∀ l ∈ setup isAsync fixtures, env.init l = none) ∧
        (∃ payload, intoTestResult env.body = some payload ∧
          messageCheck debug shouldPanic payload = none) ∧
        (∀ l ∈ scopeAndFixtureGets fixtures, env.drop l true = none) ∧
        ∀ l ∈ runtimePreamble isAsync, env.drop l false = none) := by
  rw [bodyExpr_of_ne_no h]
  change _ = (plainBody isAsync fixtures env).1.filter _ ∧ _ ∧ (_ → _ = plainBody _ _ _) ∧ _
  refine ⟨filter_inScope_eq debug shouldPanic isAsync fixtures env, fun _ => values_bodyExpr,
    fun hcause => ?_, shouldPanicBody_returns_iff⟩
  by_cases hok : ∀ l ∈ setup isAsync fixtures, env.init l = none
  · obtain ⟨hbody, l, hl, hdrop⟩ :=
      hcause.resolve_left fun ⟨l, hl, hpanics⟩ => hpanics (hok l hl)
    exact shouldPanicBody_of_teardown_panics hok hbody hl hdrop
  · obtain ⟨locals, payload, -, hplain, hcaught⟩ :=
      bodies_of_setup_panics debug shouldPanic hok
    rw [hplain, hcaught]

/-- The function panics, and nothing else does. -/
def outOfRange : BodyEnv where
  init _ := none
  body := .panics (.str "index out of range")
  drop _ _ := none

theorem shouldPanic_spec_outOfRange :
    (bodyExpr String.quote (.withMessage "out of range") true 2 outOfRange).2 = .returns := by
  obtain ⟨-, -, -, hreturns⟩ :=
    shouldPanic_spec String.quote (show ShouldPanic.withMessage "out of range" ≠ .no by decide)
      true 2 outOfRange
  exact hreturns.mpr ⟨fun _ _ => rfl, ⟨_, rfl, by decide +kernel⟩, fun _ _ => rfl, fun _ _ => rfl⟩

end Skuld
