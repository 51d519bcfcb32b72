import Skuld.Fixture.GraphCheck
import Skuld.Lib.Buckets
import Skuld.Runner.Collect

/-!
# The start of a test run

Before the first test `run_tests` validates what is linked into the binary and what the
environment selects, and then turns the tests into trials.  A failed validation is a
panic that lists all that it finds wrong.

`StartupOutcome` says what the outcome stands for.

* **Accepted.**  The collection cannot panic any more: every serial string it merges
  parses, and the fixture graph is a checked one (`collectTests_ok`).  The trials are
  the selected tests, under names that differ.
* **Rejected.**  The panic names all duplicates with all their origins, all unknown
  labels or all serial strings that do not parse.

The registry of the fixtures is built when the first inventory test asks for it, so that
without such a test nobody checks it.  The checks of the requirements are taken to return
(`Requirement`), and what the command line may end, before a trial is there, is left out.
-/

namespace Skuld

open BoolExpr

structure LabelEntry where
  name : String
  file : String
  line : ℕ
  column : ℕ

/-- What is linked into the test binary. -/
structure Inventory where
  labels : List LabelEntry
  tests : List TestDef
  fixtures : List FixtureDef
  moduleDefaults : List ModuleLabels

/-- `SKULD_LABELS`, as the environment has it. -/
inductive LabelsVar where
  | unset
  | notUnicode
  | set (val : String)

/-- Where a serial string is declared. -/
structure SerialDecl where
  onFixture : Bool
  name : String
  serial : String

/-- The panics, with what their texts name. -/
inductive StartupPanic where
  | labels (duplicates : List (String × List LabelEntry))
  | notUnicode
  | labelExpr (e : ParseError)
  | unknownLabels (unknown declared : List String)
  | serialFilters (invalid : List (SerialDecl × ParseError))
  | trialNames (duplicates : List (String × List String))
  | registry (panic : RegistryPanic)
  | collect (panic : CollectPanic)

/-! ## The runner -/

/-- A runner has only tests whose serial strings parse. -/
structure TestRunner (B : Bdd String) where
  dynamic : List DynTest
  libtestNames : Bool
  requireKnownLabels : Bool
  serial : ∀ d ∈ dynamic, IsSerial B d.serial

namespace TestRunner

variable {B : Bdd String}

def new : TestRunner B where
  dynamic := []
  libtestNames := false
  requireKnownLabels := false
  serial := by simp

/-- The end of `add`, `add_serial` and `add_serial_with`. -/
def push (runner : TestRunner B) (d : DynTest) (h : IsSerial B d.serial) : TestRunner B :=
  { runner with
    dynamic := runner.dynamic ++ [d]
    serial := by
      intro d' hd'
      rcases List.mem_append.mp hd' with hd' | hd'
      · exact runner.serial d' hd'
      · exact List.mem_singleton.mp hd' ▸ h }

def add (runner : TestRunner B) (name : String) (labels : List Label) (ignored : Bool) :
    TestRunner B :=
  runner.push ⟨name, ignored, "", labels⟩ (.inl rfl)

def addSerial (runner : TestRunner B) (name : String) (labels : List Label) (ignored : Bool) :
    TestRunner B :=
  runner.push ⟨name, ignored, "*", labels⟩ (.inr (.inl rfl))

def addSerialWith (runner : TestRunner B) (name : String) (labels : List Label) (ignored : Bool)
    (filter : LabelFilter B) : TestRunner B :=
  runner.push ⟨name, ignored, filter.toString, labels⟩
    (.inr (.inr ⟨filter, LabelFilter.parse_toString filter⟩))

end TestRunner

/-! ## The validations -/

section

variable (B : Bdd String)

def serialDecls (inv : Inventory) : List SerialDecl :=
  inv.tests.map (fun d => ⟨false, d.name, d.serial⟩) ++
    inv.fixtures.map fun d => ⟨true, d.name, d.serial⟩

variable {B}

def trialName (runner : TestRunner B) (d : TestDef) : String :=
  effectiveTrialName d.module d.name d.displayName runner.libtestNames

def collectTrialNameEntries (inv : Inventory) (runner : TestRunner B) : List (String × String) :=
  inv.tests.map (fun d => (trialName runner d, d.module ++ "::" ++ d.name)) ++
    runner.dynamic.map fun d => (d.name, "dynamically-added: " ++ d.name)

theorem nodup_map_name_nil : (([] : List FixtureDef).map FixtureDef.name).Nodup :=
  .nil

end

/-! ## What the validations accept -/

section

variable {B : Bdd String}

/-- A registry of these definitions that passes the check of the fixture graph. -/
def CheckedRegistry (fixtures : List FixtureDef) (registry : Registry) : Prop :=
  registry.defs = fixtures ∧ registry.DepsRegistered ∧ registry.ScopesWiden ∧ registry.Acyclic

structure Accepted (inv : Inventory) (runner : TestRunner B) (var : LabelsVar) : Prop where
  labels_nodup : (inv.labels.map LabelEntry.name).Nodup
  selection : var = .unset ∨ ∃ val selection, var = .set val ∧
    LabelSelection.parse B val = .ok selection ∧ (runner.requireKnownLabels = true →
      ∀ n ∈ selection.names, n ∈ inv.labels.map LabelEntry.name)
  serial : ∀ decl ∈ serialDecls inv, IsSerial B decl.serial
  names_nodup : ((collectTrialNameEntries inv runner).map Prod.fst).Nodup
  registry : inv.tests ≠ [] → ∃ registry, CheckedRegistry inv.fixtures registry

/-- Whether the label filter keeps a registered test. -/
def keepsTest (registry : Registry) (moduleDefaults : List ModuleLabels)
    (labelFilter : Option (LabelFilter B)) (d : TestDef) : Bool :=
  match resolveLabels registry d moduleDefaults with
  | .ok resolved => labelFilter.all fun f => f.matches resolved
  | .error _ => false

def keepsDynamic (labelFilter : Option (LabelFilter B)) (d : DynTest) : Bool :=
  labelFilter.all fun f => f.matches d.labels

def dynamicTrial (d : DynTest) : Trial :=
  ⟨d.name, d.labels, d.serial, d.ignored⟩

/-- A requirement of the test or of a fixture that it reaches fails. -/
def Unavailable (registry : Registry) (d : TestDef) : Prop :=
  ∃ req reason, req.eval = .error reason ∧ (req ∈ d.requires ∨
    ∃ name fixture, registry.graph.Reachable d.fixtureNames name ∧
      registry.get name = some fixture ∧ req ∈ fixture.requires)

/-- The trial of a registered test.  Its serial string parses, and blocks what the test
or one of its fixtures blocks. -/
structure IsTrialOf (registry : Registry) (moduleDefaults : List ModuleLabels)
    (runner : TestRunner B) (d : TestDef) (t : Trial) : Prop where
  name : t.name = trialName runner d
  labels : resolveLabels registry d moduleDefaults = .ok t.labels
  serial : IsSerial B t.serial
  blocks_iff : ∀ labels, blocks B t.serial labels = true ↔
    blocks B d.serial labels = true ∨ FixturesBlock B registry d.fixtureNames labels
  ignored_iff : t.ignored = true ↔ d.ignore ≠ .no ∨ Unavailable registry d

theorem pushTrial_ok {c : Collected} {t : Trial} (h : IsSerial B t.serial) :
    ∃ c', pushTrial B c t = .ok c' ∧ c'.trials = c.trials ++ [t] := by
  unfold pushTrial
  split_ifs with hignored
  · exact ⟨_, rfl, rfl⟩
  · obtain ⟨stored, hstored⟩ := Option.isSome_iff_exists.mp (toStorage_isSome_iff.mpr h)
    rw [hstored]
    exact ⟨_, rfl, rfl⟩

section

variable {registry : Registry} {moduleDefaults : List ModuleLabels}
  {labelFilter : Option (LabelFilter B)}

theorem resolveLabels_ok (h : registry.DepsRegistered) (d : TestDef) :
    ∃ resolved, resolveLabels registry d moduleDefaults = .ok resolved := by
  obtain ⟨order, -, hwalk⟩ := walkFixtureDepsIn_ok h d.fixtureNames
  rw [resolveLabels, collectFixtureLabels, hwalk]
  exact ⟨_, rfl⟩

theorem collectFixtureRequires_ok (h : registry.DepsRegistered) (names : List String) :
    ∃ fixtureRequires, collectFixtureRequires registry names = .ok fixtureRequires ∧
      ∀ req, req ∈ fixtureRequires ↔ ∃ name fixture, registry.graph.Reachable names name ∧
        registry.get name = some fixture ∧ req ∈ fixture.requires := by
  obtain ⟨order, hmem, hwalk⟩ := walkFixtureDepsIn_ok h names
  refine ⟨order.flatMap FixtureDef.requires, ?_, fun req => ?_⟩
  · rw [collectFixtureRequires, hwalk, List.flatMap_eq_foldl]
  · rw [List.mem_flatMap]
    constructor
    · intro ⟨fixture, hfixture, hreq⟩
      obtain ⟨name, hreach, hget⟩ := (hmem fixture).mp hfixture
      exact ⟨name, fixture, hreach, hget, hreq⟩
    · intro ⟨name, fixture, hreach, hget, hreq⟩
      exact ⟨fixture, (hmem fixture).mpr ⟨name, hreach, hget⟩, hreq⟩

/-- A reason is reported exactly for a requirement that fails. -/
theorem reasons_isEmpty_iff {d : TestDef} {reason : Requirement → Option String}
    (hreason : ∀ req, reason req = none ↔ ∀ r, req.eval ≠ .error r)
    {fixtureRequires : List Requirement}
    (hmem : ∀ req, req ∈ fixtureRequires ↔ ∃ name fixture,
      registry.graph.Reachable d.fixtureNames name ∧ registry.get name = some fixture ∧
        req ∈ fixture.requires) :
    ((d.requires ++ fixtureRequires).filterMap reason).isEmpty = true ↔
      ¬ Unavailable registry d := by
  rw [List.isEmpty_iff, List.filterMap_eq_nil_iff]
  constructor
  · intro hnone ⟨req, r, heval, hreq⟩
    have hreq' := hnone req (List.mem_append.mpr (hreq.imp id (hmem req).mpr))
    exact (hreason req).mp hreq' r heval
  · intro hmet req hreq
    refine (hreason req).mpr fun r heval => hmet ⟨req, r, heval, ?_⟩
    exact (List.mem_append.mp hreq).imp id (hmem req).mp

theorem availability_ok (h : registry.DepsRegistered) (d : TestDef) :
    ∃ ignored reason, availability registry d = .ok (ignored, reason) ∧
      (ignored = true ↔ d.ignore ≠ .no ∨ Unavailable registry d) := by
  unfold availability
  split_ifs with hignore
  · exact ⟨true, none, rfl, by simp [hignore]⟩
  obtain ⟨fixtureRequires, hcollect, hmem⟩ := collectFixtureRequires_ok h d.fixtureNames
  rw [hcollect]
  simp only [bind, Except.bind]
  split_ifs with hempty
  · have hmet := (reasons_isEmpty_iff (fun req => by cases req.eval <;> simp) hmem).mp hempty
    exact ⟨false, none, rfl, by simp [not_not.mp hignore, hmet]⟩
  · have hunmet : Unavailable registry d := not_not.mp fun hmet =>
      hempty ((reasons_isEmpty_iff (fun req => by cases req.eval <;> simp) hmem).mpr hmet)
    exact ⟨true, _, rfl, by simp [hunmet]⟩

/-- A round over a registry that the check has accepted. -/
theorem collectInventoryTest_ok (runner : TestRunner B) (h : registry.DepsRegistered)
    (hserial : ∀ d ∈ registry.defs, IsSerial B d.serial) {d : TestDef} (hd : IsSerial B d.serial)
    (c : Collected) :
    ∃ c', collectInventoryTest B registry moduleDefaults runner.libtestNames labelFilter c d =
        .ok c' ∧
      if keepsTest registry moduleDefaults labelFilter d then
        ∃ t, IsTrialOf registry moduleDefaults runner d t ∧ c'.trials = c.trials ++ [t]
      else c'.trials = c.trials := by
  obtain ⟨resolved, hresolved⟩ : ∃ resolved, resolveLabels registry d moduleDefaults =
      .ok resolved := resolveLabels_ok h d
  obtain ⟨merged, hmerged, hfixtures, hblocks⟩ := collectFixtureSerial_ok h hserial d.fixtureNames
  obtain ⟨ignored, reason, havailable, hignored⟩ := availability_ok h d
  obtain ⟨hown, hunion⟩ := isSerial_mergeSerialFilters hd hfixtures
  have hkeeps : keepsTest registry moduleDefaults labelFilter d =
      labelFilter.all fun f => f.matches resolved := by
    rw [keepsTest, hresolved]
  have hskip : (labelFilter.any fun f => !f.matches resolved) =
      !keepsTest registry moduleDefaults labelFilter d := by
    rw [hkeeps]
    cases labelFilter <;> rfl
  unfold collectInventoryTest
  rw [hresolved, hmerged, havailable]
  simp only [Except.mapError, bind, Except.bind]
  rw [hskip]
  cases keepsTest registry moduleDefaults labelFilter d with
  | false => exact ⟨c, rfl, rfl⟩
  | true =>
      obtain ⟨c', hpush, htrials⟩ := pushTrial_ok (c := c)
        (t := ⟨trialName runner d, resolved, mergeSerialFilters d.serial merged, ignored⟩) hown
      have hpush' : pushTrial B c ⟨effectiveTrialName d.module d.name d.displayName
          runner.libtestNames, resolved, mergeSerialFilters d.serial merged, ignored⟩ = .ok c' :=
        hpush
      refine ⟨{ c' with
        unavailable := c'.unavailable ++ reason.toList.map fun r => (trialName runner d, r) },
        ?_, _, ⟨rfl, hresolved, hown, fun labels => ?_, hignored⟩, htrials⟩
      · simp only [Bool.not_true, Bool.false_eq_true, if_false, hpush']
        rfl
      · rw [hunion, Bool.or_eq_true, hblocks]

theorem collectDynamicTest_ok {d : DynTest} (hd : IsSerial B d.serial) (c : Collected) :
    ∃ c', collectDynamicTest B labelFilter c d = .ok c' ∧
      if keepsDynamic labelFilter d then
        ∃ t, dynamicTrial d = t ∧ c'.trials = c.trials ++ [t]
      else c'.trials = c.trials := by
  have hskip : (labelFilter.any fun f => !f.matches d.labels) = !keepsDynamic labelFilter d := by
    cases labelFilter <;> rfl
  unfold collectDynamicTest
  rw [hskip]
  cases keepsDynamic labelFilter d with
  | false => exact ⟨c, rfl, rfl⟩
  | true =>
      obtain ⟨c', hpush, htrials⟩ := pushTrial_ok (c := c)
        (t := dynamicTrial d) hd
      exact ⟨c', hpush, _, rfl, htrials⟩

/-- The collection cannot panic any more, and its trials are the selected tests. -/
theorem collectTests_ok (runner : TestRunner B) (h : registry.DepsRegistered)
    (hserial : ∀ d ∈ registry.defs, IsSerial B d.serial) {inventory : List TestDef}
    (hinventory : ∀ d ∈ inventory, IsSerial B d.serial) :
    ∃ c inventoryTrials, collectTests B registry moduleDefaults runner.libtestNames labelFilter
        inventory runner.dynamic = .ok c ∧
      List.Forall₂ (IsTrialOf registry moduleDefaults runner)
        (inventory.filter (keepsTest registry moduleDefaults labelFilter)) inventoryTrials ∧
      c.trials = inventoryTrials ++
        (runner.dynamic.filter (keepsDynamic labelFilter)).map dynamicTrial := by
  have hdynamic : ∀ c : Collected, ∀ d ∈ runner.dynamic,
      ∃ c', collectDynamicTest B labelFilter c d = .ok c' ∧
        if keepsDynamic labelFilter d then
          ∃ t, dynamicTrial d = t ∧ c'.trials = c.trials ++ [t]
        else c'.trials = c.trials :=
    fun c d hd => collectDynamicTest_ok (runner.serial d hd) c
  obtain ⟨middle, inventoryTrials, hmiddle, htrials, hall⟩ := Loop.foldlM_collects
    (fun c d hd => collectInventoryTest_ok runner h hserial (hinventory d hd) c) ⟨[], [], []⟩
  obtain ⟨c, dynamicTrials, hc, hout, heach⟩ := Loop.foldlM_collects hdynamic middle
  rw [← List.forall₂_map_left_iff, List.forall₂_eq_eq_eq] at heach
  refine ⟨c, inventoryTrials, ?_, hall, ?_⟩
  · rw [collectTests, hmiddle]
    exact hc
  · rw [hout, htrials, List.nil_append, heach]

end

/-! ## The outcome -/

/-- The filter that the value of `SKULD_LABELS` stands for. -/
def IsSelection (var : LabelsVar) (labelFilter : Option (LabelFilter B)) : Prop :=
  (var = .unset ∧ labelFilter = none) ∨ ∃ val selection, var = .set val ∧
    LabelSelection.parse B val = .ok selection ∧ labelFilter = some selection.filter

/-- What the run has after its start. -/
structure Started (inv : Inventory) (runner : TestRunner B) (var : LabelsVar) (c : Collected) :
    Prop where
  accepted : Accepted inv runner var
  trials : ∃ registry, ∃ labelFilter : Option (LabelFilter B), ∃ inventoryTrials,
    (inv.tests ≠ [] → CheckedRegistry inv.fixtures registry) ∧ IsSelection var labelFilter ∧
    c.trials = inventoryTrials ++
      (runner.dynamic.filter (keepsDynamic labelFilter)).map dynamicTrial ∧
    List.Forall₂ (IsTrialOf registry inv.moduleDefaults runner)
      (inv.tests.filter (keepsTest registry inv.moduleDefaults labelFilter)) inventoryTrials
  names_nodup : (c.trials.map Trial.name).Nodup
  serial : ∀ t ∈ c.trials, IsSerial B t.serial
  metadata_nodup : (c.metadata.map NextestTestMetadata.name).Nodup

/-- The panic is about something that is wrong, and says all about it. -/
def StartupPanic.Names (inv : Inventory) (runner : TestRunner B) (var : LabelsVar) :
    StartupPanic → Prop
  | .labels duplicates => Buckets.AllRepeated (inv.labels.map fun e => (e.name, e)) duplicates
  | .notUnicode => var = .notUnicode
  | .labelExpr e => ∃ val, var = .set val ∧ LabelSelection.parse B val = .error e
  | .unknownLabels unknown declared =>
      runner.requireKnownLabels = true ∧ unknown ≠ [] ∧ declared.Pairwise (· < ·) ∧
        (∀ n, n ∈ declared ↔ n ∈ inv.labels.map LabelEntry.name) ∧
        ∃ val selection, var = .set val ∧ LabelSelection.parse B val = .ok selection ∧
          unknown = selection.names.filter fun n => n ∉ declared
  | .serialFilters invalid =>
      invalid ≠ [] ∧ ∀ decl e, (decl, e) ∈ invalid ↔
        decl ∈ serialDecls inv ∧ ¬ IsSerial B decl.serial ∧
          LabelFilter.parse B decl.serial = .error e
  | .trialNames duplicates =>
      Buckets.AllRepeated (collectTrialNameEntries inv runner) duplicates
  | .registry _ => inv.tests ≠ [] ∧ ∀ registry, ¬ CheckedRegistry inv.fixtures registry
  | .collect _ => False

def StartupOutcome (inv : Inventory) (runner : TestRunner B) (var : LabelsVar) :
    Except StartupPanic Collected → Prop
  | .ok c => Started inv runner var c
  | .error panic => ¬ Accepted inv runner var ∧ panic.Names inv runner var

variable {inv : Inventory} {runner : TestRunner B} {var : LabelsVar}

theorem StartupPanic.Names.not_accepted {panic : StartupPanic}
    (h : panic.Names inv runner var) : ¬ Accepted inv runner var := by
  intro haccepted
  cases panic with
  | labels duplicates =>
      refine h.not_nodup ?_
      rw [List.map_map]
      exact haccepted.labels_nodup
  | notUnicode =>
      cases h
      rcases haccepted.selection with hvar | ⟨val, selection, hvar, -⟩
      all_goals cases hvar
  | labelExpr e =>
      obtain ⟨val, rfl, hparse⟩ := h
      obtain ⟨val', selection, hvar, hok, -⟩ := haccepted.selection.resolve_left nofun
      cases hvar
      cases hparse.symm.trans hok
  | unknownLabels unknown declared =>
      obtain ⟨hrequire, hne, -, hdeclared, val, selection, rfl, hparse, rfl⟩ := h
      obtain ⟨val', selection', hvar, hok, hknown⟩ := haccepted.selection.resolve_left nofun
      cases hvar
      cases hparse.symm.trans hok
      refine hne (List.filter_eq_nil_iff.mpr fun n hn => ?_)
      simpa using (hdeclared n).mpr (hknown hrequire n hn)
  | serialFilters invalid =>
      obtain ⟨⟨decl, e⟩, hmem⟩ := List.exists_mem_of_ne_nil invalid h.1
      obtain ⟨hdecl, hserial, -⟩ := (h.2 decl e).mp hmem
      exact hserial (haccepted.serial decl hdecl)
  | trialNames duplicates => exact h.not_nodup haccepted.names_nodup
  | registry panic =>
      obtain ⟨registry, hchecked⟩ := haccepted.registry h.1
      exact h.2 registry hchecked
  | collect panic => exact h

/-! ## The phases -/

/-- A phase that succeeds has `good` results, one that fails is a panic about its cause. -/
def Phase (inv : Inventory) (runner : TestRunner B) (var : LabelsVar) {α : Type}
    (x : Except StartupPanic α) (good : α → Prop) : Prop :=
  match x with
  | .ok a => good a
  | .error panic => panic.Names inv runner var

theorem Phase.bind {α : Type} {x : Except StartupPanic α} {good : α → Prop}
    {f : α → Except StartupPanic Collected} (h : Phase inv runner var x good)
    (hf : ∀ a, good a → StartupOutcome inv runner var (f a)) :
    StartupOutcome inv runner var (x.bind f) := by
  cases x with
  | ok a => exact hf a h
  | error panic => exact ⟨StartupPanic.Names.not_accepted h, h⟩

end

end Skuld
