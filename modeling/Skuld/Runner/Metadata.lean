import Skuld.Runner.ModuleDefaults

/-!
# The metadata of a fixture

The entry of a fixture shows the labels that a test inherits by using it.  They
are put together from the fixture's own labels and those of a walk from its
dependencies; what a test really inherits comes from one walk from the fixture.
The two agree because a fixture of an accepted graph is not in the closure of its
dependencies, so that the walk below it never misses a name it has already seen.
-/

namespace Skuld

/-- A requirement with the result of its check. -/
structure RequirementInfo where
  name : String
  met : Bool
  reason : Option String
  deriving DecidableEq

def RequirementInfo.fromRequirement (requirement : Requirement) : RequirementInfo :=
  match requirement.eval with
  | .ok () => { name := requirement.name, met := true, reason := none }
  | .error e => { name := requirement.name, met := false, reason := some e }

structure FixtureMetadata where
  name : String
  scope : String
  serial : String
  deps : List String
  /-- Labels a test inherits by using this fixture (own, then dependencies'). -/
  labels : List String
  typeName : String
  requires : List RequirementInfo
  deriving DecidableEq

def FixtureMetadata.fromDef (registry : Registry) (d : FixtureDef) :
    Except (Dfs.Fault String FixtureDef) FixtureMetadata := do
  let labels ← fixtureLabelsOf registry d
  return {
    name := d.name
    scope :=
      match d.scope with
      | .variable => "variable"
      | .test => "test"
      | .process => "process"
    serial := d.serial
    deps := d.deps
    labels := labels.map Label.name
    typeName := d.typeName
    requires := d.requires.map RequirementInfo.fromRequirement }

/-- The entry of a fixture lists the labels that a test would get from it alone. -/
theorem fixtureLabelsOf_eq_inherited {registry : Registry}
    (hvalid : validateFixtureGraph registry = .ok ()) {d : FixtureDef} (hd : d ∈ registry.defs) :
    ∃ labels, fixtureLabelsOf registry d = .ok labels ∧
      collectFixtureLabels registry [d.name] = .ok labels ∧
      (FixtureMetadata.fromDef registry d).map FixtureMetadata.labels =
        .ok (labels.map Label.name) ∧
      ∀ (test : TestDef) (defaults : List ModuleLabels), test.fixtureNames = [d.name] →
        ownLabels test defaults = [] → resolveLabels registry test defaults = .ok labels := by
  obtain ⟨order, -, hcollect, hlabels⟩ := fixtureLabelsOf_eq hvalid hd
  refine ⟨_, hlabels, hcollect, ?_, fun test defaults hfixtures hown => ?_⟩
  · rw [FixtureMetadata.fromDef, hlabels]
    rfl
  · rw [← hfixtures] at hcollect
    rw [resolveLabels_eq hcollect, hown, List.nil_append]

def topFixture : FixtureDef where
  name := "top"
  scope := .test
  requires := [⟨"docker", .error "not running"⟩]
  deps := ["x", "y"]
  labels := [⟨"la", by decide⟩, ⟨"lb", by decide⟩, ⟨"la", by decide⟩]
  typeName := "Top"
  serial := ""

/-- Fixtures that share a dependency and repeat labels. -/
def labelledRegistry : Registry where
  defs :=
    [topFixture,
     { name := "x", scope := .test, requires := [], deps := [], labels := [⟨"lb", by decide⟩],
       typeName := "X", serial := "" },
     { name := "y", scope := .test, requires := [], deps := ["x"], labels := [⟨"lc", by decide⟩],
       typeName := "Y", serial := "" }]
  nodup := by decide

theorem fixtureLabelsOf_eq_inherited_top :
    ∃ labels : List Label,
      resolveLabels labelledRegistry { testIn "krate" with fixtureNames := ["top"] } [] =
        .ok labels ∧
      (FixtureMetadata.fromDef labelledRegistry topFixture).map FixtureMetadata.labels =
        .ok (labels.map Label.name) := by
  have hvalid : validateFixtureGraph labelledRegistry = .ok () := rfl
  obtain ⟨labels, -, -, hmetadata, hresolve⟩ :=
    fixtureLabelsOf_eq_inherited hvalid (d := topFixture) List.mem_cons_self
  exact ⟨labels, hresolve _ [] rfl rfl, hmetadata⟩

example : (FixtureMetadata.fromDef labelledRegistry topFixture).map FixtureMetadata.labels =
    .ok ["la", "lb", "lc"] := by
  rfl

end Skuld
