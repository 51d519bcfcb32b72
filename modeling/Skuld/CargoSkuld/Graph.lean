import Skuld.Coordination.Depth
import Skuld.Runner.Startup

/-!
# The conflict graph

`cargo skuld` groups tests that must not run at the same time, from the metadata
that the test binaries dump.  Its edges are decided by `conflicts`, on strings in
memory; at run time `canStart` decides on the tables.

Both come down to `blocksNames`: `conflicts_eq` for the graph, `canStart_eq_some`
for the tables.  What remains is that the rows of the tables are those of
registered tests (`Coordinated`), and that every test has an entry (`CompleteDump`), which
shows what its trial registers (`Dumps.entry`).

* **In memory** a filter of any size is evaluated.
* **On the tables** it becomes a query, and SQLite refuses one that is too deep.  The
  graph agrees with the tables about the tests whose filter is not
  (`agreesWithGraph_iff_shallow`).
-/

namespace Skuld

open BoolExpr

structure TestMetadata where
  binaryId : String
  name : String
  labels : List String
  serialFilter : String
  deriving DecidableEq

/-- The entry of a dump, as `collect_metadata` takes it over. -/
def NextestTestMetadata.toTestMetadata (m : NextestTestMetadata) (binaryId : String) :
    TestMetadata :=
  ⟨binaryId, m.name, m.labels, m.serialFilter⟩

section

variable (B : Bdd String)

/-- One direction of the check; `none` is the panic on a filter that does not
parse. -/
def filterHits (serialFilter : String) (labels : List String) : Option Bool :=
  if serialFilter = "" then
    some false
  else
    match LabelFilter.parse B serialFilter with
    | .ok filter => some (filter.matchesNames labels)
    | .error _ => none

def conflicts (a b : TestMetadata) : Option Bool :=
  if a.serialFilter = "*" ∨ b.serialFilter = "*" then
    some true
  else do
    if ← filterHits B a.serialFilter b.labels then
      return true
    if ← filterHits B b.serialFilter a.labels then
      return true
    return false

end

variable {B : Bdd String}

theorem filterHits_eq {serial : String} (h : IsSerial B serial) (hall : serial ≠ serialAll)
    (names : List String) : filterHits B serial names = some (blocksNames B serial names) := by
  rcases h with rfl | rfl | ⟨f, hf⟩
  · rfl
  · exact absurd rfl hall
  · have hnone : serial ≠ "" := (ne_sentinel_of_parse hf).1
    rw [filterHits, if_neg hnone, hf, blocksNames_of_parse hf]

/-- Tests conflict exactly if the filter of one of them excludes the other. -/
theorem conflicts_eq {a b : TestMetadata} (ha : IsSerial B a.serialFilter)
    (hb : IsSerial B b.serialFilter) :
    conflicts B a b =
      some (blocksNames B a.serialFilter b.labels || blocksNames B b.serialFilter a.labels) := by
  unfold conflicts
  split_ifs with hstar
  · rcases hstar with hstar | hstar
    · rw [hstar, show "*" = serialAll from rfl, blocksNames_serialAll, Bool.true_or]
    · rw [hstar, show "*" = serialAll from rfl, blocksNames_serialAll, Bool.or_true]
  · obtain ⟨haall, hball⟩ := not_or.mp hstar
    rw [filterHits_eq ha haall, filterHits_eq hb hball]
    cases blocksNames B a.serialFilter b.labels <;> cases blocksNames B b.serialFilter a.labels <;>
      rfl

theorem conflicts_comm {a b : TestMetadata} (ha : IsSerial B a.serialFilter)
    (hb : IsSerial B b.serialFilter) : conflicts B a b = conflicts B b a := by
  rw [conflicts_eq ha hb, conflicts_eq hb ha, Bool.or_comm]

/-! ## Tables that `coordinate` filled -/

/-- What registrations and deletions of rows make of the empty tables. -/
inductive Coordinated (B : Bdd String) : Db → Prop
  | start {db : Db} (hempty : db.running = []) : Coordinated B db
  | register {db db' : Db} {id : ℕ} {instanceId name serial stored : String} {labels : List Label}
      (hdb : Coordinated B db) (hstored : toStorage B serial = some stored)
      (hregister : register db instanceId name labels stored = some (id, db')) :
      Coordinated B db'
  | delete {db : Db} (p : RunningRow → Bool) (hdb : Coordinated B db) :
      Coordinated B (db.deleteWhere p)

/-- Every row has the stored form of a serial string, and the labels of a test. -/
def Db.RowsRegistered (B : Bdd String) (db : Db) : Prop :=
  ∀ r ∈ db.running, IsStored B r.serialFilter ∧
    ∃ labels : List Label, db.labelNames r.id = labels.map Label.name

theorem Registered.rowsRegistered {db db' : Db} {row : RunningRow} {labels : List Label}
    (h : Registered db db' row labels) (hdb : db.RowsRegistered B)
    (hrow : IsStored B row.serialFilter) : db'.RowsRegistered B := by
  intro r hr
  rcases h.mem_running.mp hr with hr | rfl
  · rw [h.labelNames_old hr]
    exact hdb r hr
  · exact ⟨hrow, labels, h.labelNames_new⟩

theorem Db.RowsRegistered.deleteWhere {db : Db} (h : db.RowsRegistered B) (p : RunningRow → Bool) :
    (db.deleteWhere p).RowsRegistered B := by
  intro r hr
  obtain ⟨hr, hp⟩ := Db.mem_deleteWhere.mp hr
  rw [Db.labelNames_deleteWhere hr hp]
  exact h r hr

theorem Coordinated.rowsRegistered {db : Db} (h : Coordinated B db) : db.RowsRegistered B := by
  induction h with
  | start hempty =>
      intro r hr
      rw [hempty] at hr
      cases hr
  | @register db db' id instanceId name serial stored labels _ hstored hregister ih =>
      obtain ⟨db'', heq, hnew⟩ := register_spec db instanceId name labels stored
      rw [hregister, Option.some.injEq, Prod.mk.injEq] at heq
      obtain ⟨rfl, rfl⟩ := heq
      exact hnew.rowsRegistered ih (toStorage_spec hstored).1
  | delete p _ ih => exact ih.deleteWhere p

/-- A row as the graph would see it. -/
def Db.rowMetadata (db : Db) (binaryId : String) (r : RunningRow) : TestMetadata :=
  ⟨binaryId, r.name, db.labelNames r.id, r.serialFilter⟩

/-- A row and a candidate are in conflict for the graph if they are for the
tables. -/
theorem conflicts_rowMetadata {db : Db} (hdb : db.RowsRegistered B) {r : RunningRow}
    (hr : r ∈ db.running) {filter : String} (hfilter : IsSerial B filter) (labels : List Label)
    (binaryId binaryId' name : String) :
    conflicts B (db.rowMetadata binaryId r)
      ⟨binaryId', name, labels.map Label.name, filter⟩ =
      some (db.conflictsWith B labels filter r) := by
  rw [conflicts_eq (hdb r hr).1.isSerial hfilter, Db.conflictsWith, ← blocksNames_map]
  rfl

/-- A candidate starts exactly if no row is in conflict with it. -/
theorem canStart_iff_conflicts {db : Db} (hdb : db.RowsRegistered B) {filter : String}
    (hfilter : IsSerial B filter) (hshallow : shallow B filter = true) (labels : List Label)
    (binaryId binaryId' name : String) :
    canStart B db labels filter = some true ↔
      ∀ r ∈ db.running, conflicts B (db.rowMetadata binaryId r)
        ⟨binaryId', name, labels.map Label.name, filter⟩ = some false := by
  rw [canStart_eq_some hfilter hshallow, Option.some.injEq, Bool.not_eq_true', List.any_eq_false]
  refine forall₂_congr fun r hr => ?_
  rw [conflicts_rowMetadata hdb hr hfilter, Option.some.injEq, Bool.not_eq_true]

/-! ## Entries -/

/-- The trials are those of the tests that the label filter keeps, and each of them
that is not ignored has its entry. -/
structure CompleteDump (registry : Registry) (moduleDefaults : List ModuleLabels)
    (runner : TestRunner B) (labelFilter : Option (LabelFilter B)) (tests : List TestDef)
    (c : Collected) : Prop where
  trials : ∃ inventoryTrials,
    List.Forall₂ (IsTrialOf registry moduleDefaults runner)
      (tests.filter (keepsTest registry moduleDefaults labelFilter)) inventoryTrials ∧
    c.trials = inventoryTrials ++
      (runner.dynamic.filter (keepsDynamic labelFilter)).map dynamicTrial
  entries : ∀ t ∈ c.trials, t.ignored = false → ∃ m ∈ c.metadata, Dumps B t m

theorem exists_entry {registry : Registry} {moduleDefaults : List ModuleLabels}
    {libtestNames : Bool} {labelFilter : Option (LabelFilter B)} {tests : List TestDef}
    {dynamic : List DynTest} {c : Collected}
    (h : collectTests B registry moduleDefaults libtestNames labelFilter tests dynamic = .ok c)
    {t : Trial} (ht : t ∈ c.trials) (hignored : t.ignored = false) :
    ∃ m ∈ c.metadata, Dumps B t m := by
  have hkept : t ∈ c.trials.filter fun t => !t.ignored :=
    List.mem_filter.mpr ⟨ht, by rw [hignored]; rfl⟩
  obtain ⟨i, htrial⟩ := List.mem_iff_getElem?.mp hkept
  have haligned : (c.metadata.map some)[i]? =
      ((c.trials.filter fun t => !t.ignored).map (metadataOf B))[i]? :=
    congrArg (fun l => l[i]?) (aligned_collectTests h)
  rw [List.getElem?_map, List.getElem?_map, htrial, Option.map_some] at haligned
  obtain ⟨m, hentry, -⟩ := Option.map_eq_some_iff.mp haligned
  exact ⟨m, List.mem_of_getElem? hentry, _, _, _, _, _, _, c, i, h, htrial, hentry⟩

/-- Where all serial strings are declared as they should be, every test has its entry. -/
theorem exists_completeDump (runner : TestRunner B) {registry : Registry}
    (hdeps : registry.DepsRegistered) (hdefs : ∀ d ∈ registry.defs, IsSerial B d.serial)
    {tests : List TestDef} (htests : ∀ d ∈ tests, IsSerial B d.serial)
    (moduleDefaults : List ModuleLabels) (labelFilter : Option (LabelFilter B)) :
    ∃ c, collectTests B registry moduleDefaults runner.libtestNames labelFilter tests
        runner.dynamic = .ok c ∧
      CompleteDump registry moduleDefaults runner labelFilter tests c := by
  obtain ⟨c, inventoryTrials, hcollect, hall, htrials⟩ :=
    @collectTests_ok B registry moduleDefaults labelFilter runner hdeps hdefs tests htests
  exact ⟨c, hcollect, ⟨inventoryTrials, hall, htrials⟩,
    fun t ht hignored => exists_entry hcollect ht hignored⟩

/-! ## The graph and the tables agree -/

/-- Whether `t` can start on tables to which `coordinate` adds the row of
`running`; `none` is a panic or a failed statement. -/
def startsBeside (B : Bdd String) (db : Db) (instanceId : String) (running t : Trial) :
    Option Bool := do
  let stored ← toStorage B running.serial
  let (_, db') ← register db instanceId running.name running.labels stored
  let filter ← toStorage B t.serial
  canStart B db' t.labels filter

theorem startsBeside_eq {db : Db} (hempty : db.running = []) (instanceId : String)
    {running t : Trial} {stored filter : String}
    (hstored : toStorage B running.serial = some stored)
    (hfilter : toStorage B t.serial = some filter) (hshallow : shallow B filter = true) :
    startsBeside B db instanceId running t =
      some (!(blocks B stored t.labels || blocks B filter running.labels)) := by
  obtain ⟨db', hregister, hnew⟩ :=
    register_spec db instanceId running.name running.labels stored
  simp only [startsBeside, hstored, hregister, hfilter, Option.bind_eq_bind, Option.bind_some]
  rw [canStart_eq_some (toStorage_spec hfilter).1.isSerial hshallow, hnew.running_eq, hempty,
    List.nil_append, List.any_cons, List.any_nil, Bool.or_false, Db.conflictsWith,
    hnew.labelNames_new, blocksNames_map]

/-- The answers about a test `t`.  Beside any other test it can start exactly if the
graph has no edge between the two, and on any tables that `coordinate` filled exactly if
the graph has none to a row. -/
structure AgreesWithGraph (B : Bdd String) (t : Trial) : Prop where
  beside : ∀ {t' : Trial} {m m' : NextestTestMetadata}, Dumps B t m → Dumps B t' m' →
    ∀ (binaryId binaryId' instanceId : String) {db : Db}, db.running = [] →
      ∃ conflict,
        conflicts B (m.toTestMetadata binaryId) (m'.toTestMetadata binaryId') = some conflict ∧
        conflicts B (m'.toTestMetadata binaryId') (m.toTestMetadata binaryId) = some conflict ∧
        startsBeside B db instanceId t' t = some (!conflict)
  rows : ∀ {db : Db}, Coordinated B db → ∀ {filter : String},
    toStorage B t.serial = some filter → ∀ binaryId binaryId',
      canStart B db t.labels filter = some true ↔
        ∀ r ∈ db.running, conflicts B (db.rowMetadata binaryId r)
          ⟨binaryId', t.name, t.labels.map Label.name, filter⟩ = some false

theorem agreesWithGraph_of_shallow {t : Trial} (hshallow : shallow B t.serial = true) :
    AgreesWithGraph B t where
  beside {t' m m'} h h' binaryId binaryId' instanceId db hempty := by
    obtain ⟨filter, hfilter, rfl⟩ := h.entry
    obtain ⟨stored, hstored, rfl⟩ := h'.entry
    have hserial := (toStorage_spec hfilter).1.isSerial
    have hserial' := (toStorage_spec hstored).1.isSerial
    refine ⟨blocks B stored t.labels || blocks B filter t'.labels, ?_, ?_,
      startsBeside_eq hempty instanceId hstored hfilter (shallow_toStorage hfilter ▸ hshallow)⟩
    · refine (conflicts_eq hserial hserial').trans ?_
      simp only [NextestTestMetadata.toTestMetadata, blocksNames_map, Bool.or_comm]
    · refine (conflicts_eq hserial' hserial).trans ?_
      simp only [NextestTestMetadata.toTestMetadata, blocksNames_map]
  rows {db} hdb {filter} hfilter binaryId binaryId' :=
    canStart_iff_conflicts hdb.rowsRegistered (toStorage_spec hfilter).1.isSerial
      (shallow_toStorage hfilter ▸ hshallow) t.labels binaryId binaryId' t.name

/-- On empty tables nothing is in conflict, but a query that is too deep fails there, too. -/
theorem AgreesWithGraph.isShallow {t : Trial} (h : AgreesWithGraph B t)
    (hserial : IsSerial B t.serial) : shallow B t.serial = true := by
  obtain ⟨filter, hfilter⟩ := Option.isSome_iff_exists.mp (toStorage_isSome_iff.mpr hserial)
  have hstart := (h.rows (.start (show Db.empty.running = [] from rfl)) hfilter "" "").mpr
    fun r hr => by cases hr
  exact shallow_toStorage hfilter ▸ shallow_of_canStart hstart

/-- Every test that is kept and not ignored has an entry; the tables agree with the graph
about a test exactly if its filter is not too deep; and then either of two tests can start
beside the other or neither. -/
theorem agreesWithGraph_iff_shallow (B : Bdd String) :
    (∀ (runner : TestRunner B) {registry : Registry}, registry.DepsRegistered →
      (∀ d ∈ registry.defs, IsSerial B d.serial) →
      ∀ {tests : List TestDef}, (∀ d ∈ tests, IsSerial B d.serial) → ∀ moduleDefaults labelFilter,
        ∃ c, collectTests B registry moduleDefaults runner.libtestNames labelFilter tests
            runner.dynamic = .ok c ∧
          CompleteDump registry moduleDefaults runner labelFilter tests c) ∧
    (∀ {t : Trial}, IsSerial B t.serial → (AgreesWithGraph B t ↔ shallow B t.serial = true)) ∧
    ∀ {t t' : Trial} {m m' : NextestTestMetadata}, Dumps B t m → Dumps B t' m' →
      shallow B t.serial = true → shallow B t'.serial = true →
        ∀ (instanceId instanceId' : String) {db db' : Db}, db.running = [] → db'.running = [] →
          startsBeside B db instanceId t' t = startsBeside B db' instanceId' t t' := by
  refine ⟨exists_completeDump,
    fun hserial => ⟨fun h => h.isShallow hserial, agreesWithGraph_of_shallow⟩,
    fun h h' hshallow hshallow' instanceId instanceId' db db' hempty hempty' => ?_⟩
  obtain ⟨conflict, hedge, -, hstart⟩ := (agreesWithGraph_of_shallow hshallow).beside h h' "" ""
    instanceId hempty
  obtain ⟨conflict', -, hedge', hstart'⟩ := (agreesWithGraph_of_shallow hshallow').beside h' h "" ""
    instanceId' hempty'
  have hsame : conflict = conflict' := Option.some.inj (hedge.symm.trans hedge')
  rw [hstart, hstart', hsame]

/-- A test that uses the database, and one that must have it for itself. -/
def queryTest : DynTest := ⟨"query", false, "", [⟨"db", rfl, rfl⟩]⟩

def migrateTest : DynTest := ⟨"migrate", false, "db", []⟩

theorem parse_db : LabelFilter.parse (shannon String) "db" =
    .ok (.ofExpr (shannon String) (.terminal "db")
      (labelNames_of_parse (parseRawLabelExpr_of_isLabelName (by decide)))) :=
  LabelFilter.parse_of_raw (parseRawLabelExpr_of_isLabelName (by decide))

def queryRunner : TestRunner (shannon String) where
  dynamic := [queryTest, migrateTest]
  libtestNames := false
  requireKnownLabels := false
  serial d hd := by
    rcases List.mem_pair.mp hd with rfl | rfl
    · exact .inl rfl
    · exact .inr (.inr ⟨_, parse_db⟩)

theorem agreesWithGraph_iff_shallow_query_migrate :
    ∃ c m m', collectTests (shannon String) ⟨[], nodup_map_name_nil⟩ [] false none []
        [queryTest, migrateTest] = .ok c ∧ m ∈ c.metadata ∧ m' ∈ c.metadata ∧
      m.name = "query" ∧ m'.name = "migrate" ∧ ∃ conflict,
        conflicts (shannon String) (m.toTestMetadata "a") (m'.toTestMetadata "b") =
          some conflict ∧
        startsBeside (shannon String) .empty "7:1" (dynamicTrial migrateTest)
          (dynamicTrial queryTest) = some (!conflict) ∧
        startsBeside (shannon String) .empty "7:2" (dynamicTrial queryTest)
          (dynamicTrial migrateTest) = some (!conflict) := by
  obtain ⟨hdumps, hagrees, hsymm⟩ := agreesWithGraph_iff_shallow (shannon String)
  obtain ⟨c, hcollect, ⟨inventoryTrials, hall, htrials⟩, hentries⟩ :=
    @hdumps queryRunner ⟨[], nodup_map_name_nil⟩ (fun d hd => by cases hd)
      (fun d hd => by cases hd) [] (fun d hd => by cases hd) [] none
  have hkept : c.trials = [dynamicTrial queryTest, dynamicTrial migrateTest] := by
    rw [htrials, List.forall₂_nil_left_iff.mp hall]
    rfl
  obtain ⟨m, hm, hentry⟩ := hentries (dynamicTrial queryTest) (by simp [hkept]) rfl
  obtain ⟨m', hm', hentry'⟩ := hentries (dynamicTrial migrateTest) (by simp [hkept]) rfl
  have hquery : shallow (shannon String) (dynamicTrial queryTest).serial = true :=
    shallow_sentinel (.inl rfl)
  have hmigrate : shallow (shannon String) (dynamicTrial migrateTest).serial = true := by
    refine (shallow_of_parse parse_db).mpr ?_
    change (toSqlExpr (canonicalize (shannon String) (.terminal "db"))).queryDepth ≤ _
    rw [canonicalize_terminal]
    decide
  obtain ⟨conflict, hedge, -, hstart⟩ := ((hagrees (.inl rfl)).mpr hquery).beside hentry hentry'
    "a" "b" "7:1" (show Db.empty.running = [] from rfl)
  have hboth := hsymm hentry hentry' hquery hmigrate "7:1" "7:2"
    (show Db.empty.running = [] from rfl) (show Db.empty.running = [] from rfl)
  refine ⟨c, m, m', hcollect, hm, hm', ?_, ?_, conflict, hedge, hstart, hboth ▸ hstart⟩
  · obtain ⟨stored, -, rfl⟩ := hentry.entry
    rfl
  · obtain ⟨stored, -, rfl⟩ := hentry'.entry
    rfl

/-- A test without labels that must not run beside some others. -/
def serialTest (serial : String) : DynTest := ⟨"test", false, serial, []⟩

theorem collectTests_serialTest {serial filter : String} (h : toStorage B serial = some filter) :
    collectTests B ⟨[], nodup_map_name_nil⟩ [] false none [] [serialTest serial] =
      .ok ⟨[dynamicTrial (serialTest serial)], [], [⟨"test", [], filter⟩]⟩ := by
  simp [collectTests, collectDynamicTest, pushTrial, h, serialTest, dynamicTrial, bind,
    Except.bind, pure, Except.pure]

theorem canStart_empty_of_deep {filter : String} (h : ¬ shallow B filter = true)
    (labels : List Label) : canStart B .empty labels filter = none := by
  rw [canStart_eq, show Db.empty.running = [] from rfl, List.any_nil, if_neg Bool.false_ne_true,
    if_neg fun hcandidate => h hcandidate.2]

/-- The graph has an edge to no row of the empty tables, but a test whose filter names 494
labels does not start on them. -/
theorem longSerial_disagrees :
    ∃ c m filter,
      collectTests (shannon String) ⟨[], nodup_map_name_nil⟩ [] false none []
        [serialTest (longSerial 494)] = .ok c ∧
      m ∈ c.metadata ∧ Dumps (shannon String) (dynamicTrial (serialTest (longSerial 494))) m ∧
      toStorage (shannon String) (longSerial 494) = some filter ∧
      canStart (shannon String) .empty [] filter = none ∧
      ¬ AgreesWithGraph (shannon String) (dynamicTrial (serialTest (longSerial 494))) := by
  have hserial := isSerial_longSerial 494
  have hdeep : ¬ shallow (shannon String) (longSerial 494) = true := by
    rw [shallow_longSerial_iff (by decide)]
    decide
  generalize longSerial 494 = serial at hserial hdeep ⊢
  obtain ⟨filter, hfilter⟩ := Option.isSome_iff_exists.mp (toStorage_isSome_iff.mpr hserial)
  have hcollect := collectTests_serialTest hfilter
  obtain ⟨m, hm, hentry⟩ := exists_entry hcollect (List.mem_singleton_self _) rfl
  exact ⟨_, m, filter, hcollect, hm, hentry, hfilter,
    canStart_empty_of_deep (fun h => hdeep (shallow_toStorage hfilter ▸ h)) [],
    fun h => hdeep (h.isShallow hserial)⟩

end Skuld
