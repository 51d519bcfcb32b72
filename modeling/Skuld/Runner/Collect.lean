import Skuld.Fixture.Serial

/-!
# Collecting the tests

At startup the runner turns every registered test into a trial, with its
effective name, labels and serial string, and dumps a metadata entry for every
trial that is not ignored.  The trial's labels and serial string are what the
test calls `coordinate` with when it runs; the entry is what the nextest tooling
sees of it.  `Aligned` is the relation between the two lists.
-/

namespace Skuld

open BoolExpr

inductive Ignore where
  | no
  | yes
  | withReason (reason : String)
  deriving DecidableEq

/-- A test registered by the attribute, without its body. -/
structure TestDef where
  name : String
  module : String
  displayName : Option String
  requires : List Requirement
  fixtureNames : List String
  ignore : Ignore
  labels : List Label
  labelsExplicit : Bool
  serial : String

/-- A test added at run time, without its body. -/
structure DynTest where
  name : String
  ignored : Bool
  serial : String
  labels : List Label

/-- Default labels for all tests in a module. -/
structure ModuleLabels where
  module : String
  labels : List Label

/-! ## Labels and names -/

/-- The module itself or an ancestor of it. -/
def covers (d : TestDef) (m : ModuleLabels) : Bool :=
  d.module = m.module ||
    m.module.toList.isPrefixOf d.module.toList &&
      [':', ':'].isPrefixOf (d.module.toList.drop m.module.toList.length)

/-- `max_by_key`: the last of the elements with the largest key. -/
def maxByKey {α : Type} (key : α → ℕ) : List α → Option α
  | [] => none
  | a :: rest =>
      match maxByKey key rest with
      | none => some a
      | some b => if key a ≤ key b then some b else some a

def ownLabels (d : TestDef) (moduleDefaults : List ModuleLabels) : List Label :=
  if d.labelsExplicit then
    d.labels
  else
    match maxByKey (fun m => m.module.utf8ByteSize) (moduleDefaults.filter (covers d)) with
    | some m => m.labels
    | none => d.labels

def resolveLabels (registry : Registry) (d : TestDef) (moduleDefaults : List ModuleLabels) :
    Except (Dfs.Fault String FixtureDef) (List Label) := do
  let inherited ← collectFixtureLabels registry d.fixtureNames
  return pushUnique (pushUnique [] (ownLabels d moduleDefaults)) inherited

/-- What follows the first `::`. -/
def splitOnce : List Char → Option (List Char)
  | ':' :: ':' :: rest => some rest
  | _ :: rest => splitOnce rest
  | [] => none

def effectiveTrialName (module name : String) (displayName : Option String)
    (libtestNames : Bool) : String :=
  match displayName with
  | some d => d
  | none =>
      if !libtestNames then name
      else
        match splitOnce module.toList with
        | some rest => String.ofList rest ++ "::" ++ name
        | none => name

/-! ## Trials and metadata -/

/-- A trial, with what its body calls `coordinate` with. -/
structure Trial where
  name : String
  labels : List Label
  serial : String
  ignored : Bool

structure NextestTestMetadata where
  name : String
  labels : List String
  serialFilter : String
  deriving DecidableEq

/-- What the collection fills in. -/
structure Collected where
  trials : List Trial
  unavailable : List (String × String)
  metadata : List NextestTestMetadata

/-- The panics of the collection: a fixture walk, and a serial string that does
not parse. -/
inductive CollectPanic where
  | walk (fault : Dfs.Fault String FixtureDef)
  | storage (serial : String)

variable (B : Bdd String)

/-- The end of both loops: the metadata entry unless the trial is ignored, then
the trial itself. -/
def pushTrial (c : Collected) (t : Trial) : Except CollectPanic Collected :=
  if t.ignored then
    .ok { c with trials := c.trials ++ [t] }
  else
    match toStorage B t.serial with
    | none => .error (.storage t.serial)
    | some stored => .ok
        { c with
          metadata := c.metadata ++ [⟨t.name, t.labels.map Label.name, stored⟩]
          trials := c.trials ++ [t] }

/-- The ignored flag and the reason for the report. -/
def availability (registry : Registry) (d : TestDef) :
    Except (Dfs.Fault String FixtureDef) (Bool × Option String) :=
  if d.ignore ≠ .no then
    .ok (true, none)
  else do
    let fixtureRequires ← collectFixtureRequires registry d.fixtureNames
    let reasons := (d.requires ++ fixtureRequires).filterMap fun req =>
      match req.eval with
      | .ok () => none
      | .error reason => some reason
    return if reasons.isEmpty then (false, none) else (true, some (String.intercalate "; " reasons))

/-- One round of `collect_inventory_tests`. -/
def collectInventoryTest (registry : Registry) (moduleDefaults : List ModuleLabels)
    (libtestNames : Bool) (labelFilter : Option (LabelFilter B)) (c : Collected) (d : TestDef) :
    Except CollectPanic Collected := do
  let resolved ← (resolveLabels registry d moduleDefaults).mapError .walk
  if labelFilter.any fun f => !f.matches resolved then
    return c
  let trialName := effectiveTrialName d.module d.name d.displayName libtestNames
  let fixtureSerial ← (collectFixtureSerial registry d.fixtureNames).mapError .walk
  let effectiveSerial := mergeSerialFilters d.serial fixtureSerial
  let (ignoredFlag, reason) ← (availability registry d).mapError .walk
  let c ← pushTrial B c ⟨trialName, resolved, effectiveSerial, ignoredFlag⟩
  return { c with unavailable := c.unavailable ++ reason.toList.map fun r => (trialName, r) }

/-- One round of `collect_dynamic_tests`. -/
def collectDynamicTest (labelFilter : Option (LabelFilter B)) (c : Collected) (d : DynTest) :
    Except CollectPanic Collected :=
  if labelFilter.any fun f => !f.matches d.labels then
    .ok c
  else
    pushTrial B c ⟨d.name, d.labels, d.serial, d.ignored⟩

/-- Both loops, as `run_tests` calls them. -/
def collectTests (registry : Registry) (moduleDefaults : List ModuleLabels) (libtestNames : Bool)
    (labelFilter : Option (LabelFilter B)) (inventory : List TestDef) (dynamic : List DynTest) :
    Except CollectPanic Collected := do
  let c ← inventory.foldlM
    (collectInventoryTest B registry moduleDefaults libtestNames labelFilter) ⟨[], [], []⟩
  dynamic.foldlM (collectDynamicTest B labelFilter) c

/-- The entry of a trial. -/
def metadataOf (t : Trial) : Option NextestTestMetadata :=
  (toStorage B t.serial).map fun stored => ⟨t.name, t.labels.map Label.name, stored⟩

/-- The entries are those of the trials that are not ignored, in order. -/
def Aligned (c : Collected) : Prop :=
  c.metadata.map some = (c.trials.filter fun t => !t.ignored).map (metadataOf B)

variable {B}

theorem aligned_pushTrial {c c' : Collected} {t : Trial} (hc : Aligned B c)
    (h : pushTrial B c t = .ok c') : Aligned B c' := by
  unfold pushTrial at h
  unfold Aligned at hc ⊢
  by_cases hignored : t.ignored = true
  · rw [if_pos hignored, Except.ok.injEq] at h
    subst h
    simp [hc, hignored]
  · rw [if_neg hignored] at h
    cases hstored : toStorage B t.serial with
    | none => simp [hstored] at h
    | some stored =>
        simp only [hstored, Except.ok.injEq] at h
        subst h
        simp [hc, hignored, metadataOf, hstored]

theorem aligned_collectDynamicTest {labelFilter : Option (LabelFilter B)} {c c' : Collected}
    {d : DynTest} (hc : Aligned B c) (h : collectDynamicTest B labelFilter c d = .ok c') :
    Aligned B c' := by
  unfold collectDynamicTest at h
  split_ifs at h with hskip
  · rw [Except.ok.injEq] at h
    exact h ▸ hc
  · exact aligned_pushTrial hc h

theorem aligned_collectInventoryTest {registry : Registry} {moduleDefaults : List ModuleLabels}
    {libtestNames : Bool} {labelFilter : Option (LabelFilter B)} {c c' : Collected} {d : TestDef}
    (hc : Aligned B c)
    (h : collectInventoryTest B registry moduleDefaults libtestNames labelFilter c d = .ok c') :
    Aligned B c' := by
  unfold collectInventoryTest at h
  obtain ⟨resolved, -, h⟩ := Loop.exists_of_bind_eq_ok h
  split_ifs at h with hskip
  · cases h
    exact hc
  · obtain ⟨fixtureSerial, -, h⟩ := Loop.exists_of_bind_eq_ok h
    obtain ⟨⟨ignoredFlag, reason⟩, -, h⟩ := Loop.exists_of_bind_eq_ok h
    obtain ⟨pushed, hpushed, h⟩ := Loop.exists_of_bind_eq_ok h
    cases h
    have haligned : Aligned B pushed := aligned_pushTrial hc hpushed
    exact haligned

/-- Both loops fill trials and metadata in step. -/
theorem aligned_collectTests {registry : Registry} {moduleDefaults : List ModuleLabels}
    {libtestNames : Bool} {labelFilter : Option (LabelFilter B)} {inventory : List TestDef}
    {dynamic : List DynTest} {c : Collected}
    (h : collectTests B registry moduleDefaults libtestNames labelFilter inventory dynamic =
      .ok c) :
    Aligned B c := by
  unfold collectTests at h
  obtain ⟨middle, hmiddle, h⟩ := Loop.exists_of_bind_eq_ok h
  have hempty : Aligned B ⟨[], [], []⟩ := rfl
  have hinventory := Loop.foldlM_inv (fun _ => aligned_collectInventoryTest) hempty hmiddle
  exact Loop.foldlM_inv (fun _ => aligned_collectDynamicTest) hinventory h

/-- Some run of the collection dumps the entry `m` for the trial `t`. -/
def Dumps (B : Bdd String) (t : Trial) (m : NextestTestMetadata) : Prop :=
  ∃ registry moduleDefaults libtestNames labelFilter inventory dynamic, ∃ c, ∃ i : ℕ,
    collectTests B registry moduleDefaults libtestNames labelFilter inventory dynamic = .ok c ∧
      (c.trials.filter fun t => !t.ignored)[i]? = some t ∧ c.metadata[i]? = some m

/-- The entry has the trial's labels and its stored serial string. -/
theorem Dumps.entry {t : Trial} {m : NextestTestMetadata} (h : Dumps B t m) :
    ∃ stored, toStorage B t.serial = some stored ∧
      m = ⟨t.name, t.labels.map Label.name, stored⟩ := by
  obtain ⟨registry, moduleDefaults, libtestNames, labelFilter, inventory, dynamic, c, i,
    hcollect, htrial, hentry⟩ := h
  have haligned : (c.metadata.map some)[i]? =
      ((c.trials.filter fun t => !t.ignored).map (metadataOf B))[i]? :=
    congrArg (fun l => l[i]?) (aligned_collectTests hcollect)
  rw [List.getElem?_map, List.getElem?_map, hentry, htrial, Option.map_some, Option.map_some,
    Option.some.injEq, eq_comm, metadataOf, Option.map_eq_some_iff] at haligned
  obtain ⟨stored, hstored, heq⟩ := haligned
  exact ⟨stored, hstored, heq.symm⟩

end Skuld
