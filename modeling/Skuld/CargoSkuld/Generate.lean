import Skuld.CargoSkuld.Collect
import Skuld.CargoSkuld.Emit

/-!
# The tool configuration

`cargo skuld nextest gen` writes one test group and one override for every group of
the conflict graph.  What nextest makes of the file is stated here after its
documentation: a test belongs to the group of the first override whose filter
selects it, and at most `max-threads` tests of a group run at the same time.

* **One override at most.**  The groups are disjoint and a filter selects the members
  of its group only, so that the order of the overrides is of no account
  (`groupOf_toolConfig`).
* **The components.**  Two tests share a group exactly if the conflict graph connects
  them (`toolConfig_spec`).
* **The whole command.**  With all binaries probed the file is the one for the tests
  that the binaries dump (`generate_spec`).
-/

namespace Skuld

open BoolExpr

structure TestGroupDef where
  maxThreads : ℕ
  deriving DecidableEq

structure OverrideEntry where
  filter : String
  testGroup : String
  deriving DecidableEq

/-- The sections of the file, the profile with its list of overrides. -/
structure ToolConfigFile where
  nextestVersion : String
  testGroups : Std.TreeMap String TestGroupDef
  overrides : List OverrideEntry

def minNextestVersion : String := "0.9.85"

/-- What `render_tool_config` serializes. -/
def toolConfig (groups : List TestGroup) : ToolConfigFile where
  nextestVersion := minNextestVersion
  testGroups := groups.foldl (fun defs g => defs.insert g.name ⟨1⟩) ∅
  overrides := groups.map fun g => ⟨filterForGroup g, g.name⟩

section

variable (toToml : ToolConfigFile → String)

def renderToolConfig (groups : List TestGroup) : String :=
  toToml (toolConfig groups)

/-- `none` is a panic of `build_groups`. -/
def generate (B : Bdd String) (U : UnionFind) (blake3Hex : List UInt8 → String)
    (fromJson : String → Except String (List NextestTestMetadata)) (success : Bool)
    (stderr : String) (listed : Except String (Std.TreeMap String DiscoveredBinary))
    (probe : DiscoveredBinary → Probe) : Except String (Option String) := do
  let binaries ← discoverBinaries success stderr listed
  let (metadata, _) ← collectMetadata B fromJson (probed probe binaries)
  return (buildGroups B U blake3Hex metadata).map (renderToolConfig toToml)

end

/-! ## What nextest reads -/

def OverrideEntry.selects (entry : OverrideEntry) (test : TestKey) : Bool :=
  (Filterset.read entry.filter).any fun e => e.eval fun c => c.selects test

namespace ToolConfigFile

def groupOf (config : ToolConfigFile) (test : TestKey) : Option String :=
  (config.overrides.find? fun entry => entry.selects test).map OverrideEntry.testGroup

/-- All filters can be read, and all groups are defined under the name of the tool. -/
structure Loads (config : ToolConfigFile) : Prop where
  filters_read : ∀ entry ∈ config.overrides, (Filterset.read entry.filter).isSome = true
  groups_defined : ∀ entry ∈ config.overrides, entry.testGroup ∈ config.testGroups
  groups_prefixed : ∀ name ∈ config.testGroups, "@tool:skuld:".toList <+: name.toList

/-- The tests may run at the same time. -/
def Admits (config : ToolConfigFile) (running : List TestKey) : Prop :=
  ∀ (name : String) group, config.testGroups[name]? = some group →
    running.countP (fun test => config.groupOf test = some name) ≤ group.maxThreads

end ToolConfigFile

/-! ## The overrides of the groups -/

theorem selects_filterForGroup {g : TestGroup} (hne : g.members ≠ []) (name : String)
    (test : TestKey) :
    OverrideEntry.selects ⟨filterForGroup g, name⟩ test = decide (test ∈ g.members) := by
  have hread : Filterset.read (filterForGroup g) = some (Filterset.disjunction g.members hne) := by
    obtain ⟨groupName, members⟩ := g
    cases members with
    | nil => exact absurd rfl hne
    | cons member members =>
        rw [Filterset.read, Filterset.lex_filterForGroup rfl, Option.bind_some]
        exact Filterset.parseAll_members member members
  rw [OverrideEntry.selects, hread, Option.any_some]
  exact Filterset.eval_disjunction hne test

variable {B : Bdd String} {U : UnionFind} {blake3Hex : List UInt8 → String}
  {tests : List TestMetadata} {groups : List TestGroup}

theorem IsGroup.members_ne_nil {g : TestGroup} (h : IsGroup B blake3Hex tests g) :
    g.members ≠ [] := by
  obtain ⟨-, C, hC, hkeys⟩ := h
  obtain ⟨t, ht⟩ := hC.nonempty
  exact List.ne_nil_of_mem ((hkeys.mem_iff _).mpr ⟨t, ht, rfl⟩)

/-- The members of a group are tests. -/
theorem IsGroup.exists_mem {g : TestGroup} (h : Groupable B blake3Hex tests)
    (hg : IsGroup B blake3Hex tests g) {key : TestKey} (hkey : key ∈ g.members) :
    ∃ t ∈ tests, t.key = key := by
  obtain ⟨-, C, hC, hkeys⟩ := hg
  obtain ⟨t, ht, hkey⟩ := (hkeys.mem_iff key).mp hkey
  exact ⟨t, mem_of_nontrivial h.serial hC ht, hkey⟩

theorem IsGroups.eq_of_name {g g' : TestGroup} (h : IsGroups B blake3Hex tests groups)
    (hg : g ∈ groups) (hg' : g' ∈ groups) (hname : g.name = g'.name) : g = g' := by
  have hnodup : (groups.map TestGroup.name).Nodup :=
    List.pairwise_map.mpr (h.sorted.imp fun hlt => hlt.ne)
  exact List.inj_on_of_nodup_map hnodup hg hg' hname

theorem testGroups_toolConfig (groups : List TestGroup) (name : String) :
    (toolConfig groups).testGroups[name]? =
      if ∃ g ∈ groups, g.name = name then some ⟨1⟩ else none := by
  have hloop : ∀ (l : List TestGroup) (defs : Std.TreeMap String TestGroupDef),
      (l.foldl (fun defs g => defs.insert g.name ⟨1⟩) defs)[name]? =
        if ∃ g ∈ l, g.name = name then some ⟨1⟩ else defs[name]? := by
    intro l
    induction l with
    | nil => exact fun defs => by simp
    | cons g l ih =>
        intro defs
        rw [List.foldl_cons, ih, Std.TreeMap.getElem?_insert]
        simp only [compare_eq_iff_eq, List.exists_mem_cons_iff]
        by_cases hrest : ∃ g ∈ l, g.name = name
        · simp [hrest]
        · by_cases hg : g.name = name <;> simp [hrest, hg]
  rw [toolConfig, hloop]
  simp

/-- The group of a test is the one that has it as a member. -/
theorem groupOf_toolConfig (h : Groupable B blake3Hex tests)
    (hgroups : IsGroups B blake3Hex tests groups) (test : TestKey) (name : String) :
    (toolConfig groups).groupOf test = some name ↔
      ∃ g ∈ groups, g.name = name ∧ test ∈ g.members := by
  have hselects : ∀ g ∈ groups, ∀ name,
      OverrideEntry.selects ⟨filterForGroup g, name⟩ test = decide (test ∈ g.members) :=
    fun g hg name => selects_filterForGroup ((hgroups.mem_iff g).mp hg).members_ne_nil name test
  rw [ToolConfigFile.groupOf, Option.map_eq_some_iff]
  constructor
  · intro ⟨entry, hfind, hname⟩
    obtain ⟨g, hg, rfl⟩ := List.mem_map.mp (List.mem_of_find?_eq_some hfind)
    have hselected := List.find?_some hfind
    exact ⟨g, hg, hname, of_decide_eq_true ((hselects g hg _).symm.trans hselected)⟩
  · intro ⟨g, hg, hname, hmem⟩
    have hsome : ((toolConfig groups).overrides.find? fun entry =>
        entry.selects test).isSome = true := by
      rw [List.find?_isSome]
      exact ⟨_, List.mem_map_of_mem hg, (hselects g hg _).trans (decide_eq_true hmem)⟩
    obtain ⟨entry, hentry⟩ := Option.isSome_iff_exists.mp hsome
    obtain ⟨g', hg', rfl⟩ := List.mem_map.mp (List.mem_of_find?_eq_some hentry)
    have hselected := List.find?_some hentry
    have hmem' : test ∈ g'.members :=
      of_decide_eq_true ((hselects g' hg' _).symm.trans hselected)
    have hsame : g' = g :=
      ((hgroups.mem_iff g').mp hg').eq_of_mem h ((hgroups.mem_iff g).mp hg) hmem' hmem
    exact ⟨_, hentry, hsame ▸ hname⟩

/-- Two tests share a group exactly if the graph connects them. -/
theorem exists_isGroup_iff_reachable (h : Groupable B blake3Hex tests) {a b : TestMetadata}
    (ha : a ∈ tests) (hb : b ∈ tests) (hne : a ≠ b) :
    (∃ g, IsGroup B blake3Hex tests g ∧ a.key ∈ g.members ∧ b.key ∈ g.members) ↔
      (conflictGraph B tests).Reachable a b := by
  have hmem : ∀ {C : (conflictGraph B tests).ConnectedComponent} {members : List TestKey},
      C.supp.Nontrivial → IsKeysOf members C.supp → ∀ t ∈ tests, t.key ∈ members → t ∈ C.supp := by
    intro C members hC hkeys t ht hkey
    obtain ⟨t', ht', heq⟩ := (hkeys.mem_iff _).mp hkey
    have hsame : t' = t :=
      List.inj_on_of_nodup_map h.keys_nodup (mem_of_nontrivial h.serial hC ht') ht heq
    exact hsame ▸ ht'
  constructor
  · intro ⟨g, ⟨_, C, hC, hkeys⟩, hga, hgb⟩
    have haC := hmem hC hkeys a ha hga
    have hbC := hmem hC hkeys b hb hgb
    exact SimpleGraph.ConnectedComponent.exact (haC.trans hbC.symm)
  · intro hreach
    obtain ⟨i, hi, rfl⟩ := List.getElem_of_mem ha
    have hkeys := h.isKeysOf_classOf (U := .naive) ⟨i, hi⟩
    have hbC : b ∈ ((conflictGraph B tests).connectedComponentMk tests[i]).supp :=
      SimpleGraph.ConnectedComponent.sound hreach.symm
    refine ⟨⟨groupName blake3Hex _, _⟩, ⟨rfl, _, ⟨_, rfl, b, hbC, hne⟩, hkeys⟩, ?_, ?_⟩
    · exact (hkeys.mem_iff _).mpr ⟨_, rfl, rfl⟩
    · exact (hkeys.mem_iff _).mpr ⟨b, hbC, rfl⟩

theorem groupName_prefix (members : List TestKey) :
    "@tool:skuld:".toList <+: (groupName blake3Hex members).toList := by
  have hname : groupName blake3Hex members = "@tool:skuld:" ++ ("skuld_group_" ++
      String.ofList ((blake3Hex (memberBytes members)).toList.take 16)) := by
    rw [← String.append_assoc]
    rfl
  rw [hname, String.toList_append]
  exact List.prefix_append _ _

theorem loads_toolConfig (hgroups : IsGroups B blake3Hex tests groups) :
    (toolConfig groups).Loads where
  filters_read entry hentry := by
    obtain ⟨g, hg, rfl⟩ := List.mem_map.mp hentry
    obtain ⟨member, hmember⟩ :=
      List.exists_mem_of_ne_nil _ ((hgroups.mem_iff g).mp hg).members_ne_nil
    have hselects := selects_filterForGroup (List.ne_nil_of_mem hmember) g.name member
    rw [decide_eq_true hmember, OverrideEntry.selects, Option.any_eq_true] at hselects
    obtain ⟨e, hread, -⟩ := hselects
    rw [hread]
    rfl
  groups_defined entry hentry := by
    obtain ⟨g, hg, rfl⟩ := List.mem_map.mp hentry
    rw [Std.TreeMap.mem_iff_isSome_getElem?, testGroups_toolConfig, if_pos ⟨g, hg, rfl⟩]
    rfl
  groups_prefixed name hname := by
    rw [Std.TreeMap.mem_iff_isSome_getElem?, testGroups_toolConfig] at hname
    split_ifs at hname with hg
    · obtain ⟨g, hg, rfl⟩ := hg
      rw [((hgroups.mem_iff g).mp hg).name_eq]
      exact groupName_prefix g.members
    · cases hname

theorem admits_toolConfig_iff (h : Groupable B blake3Hex tests)
    (hgroups : IsGroups B blake3Hex tests groups) {running : List TestKey} :
    (toolConfig groups).Admits running ↔ ∀ g ∈ groups, running.countP (· ∈ g.members) ≤ 1 := by
  have hcount : ∀ g ∈ groups, running.countP (fun test =>
      (toolConfig groups).groupOf test = some g.name) = running.countP (· ∈ g.members) := by
    intro g hg
    refine List.countP_congr fun test _ => ?_
    rw [decide_eq_true_iff, decide_eq_true_iff, groupOf_toolConfig h hgroups]
    constructor
    · intro ⟨g', hg', hname, hmem⟩
      exact hgroups.eq_of_name hg' hg hname ▸ hmem
    · exact fun hmem => ⟨g, hg, rfl, hmem⟩
  constructor
  · intro hadmits g hg
    rw [← hcount g hg]
    exact hadmits g.name ⟨1⟩ (by rw [testGroups_toolConfig, if_pos ⟨g, hg, rfl⟩])
  · intro hone name group hgroup
    rw [testGroups_toolConfig] at hgroup
    split_ifs at hgroup with hexists
    obtain ⟨g, hg, rfl⟩ := hexists
    cases hgroup
    exact (hcount g hg).trans_le (hone g hg)

/-- At most one is counted if no two different ones are. -/
theorem countP_le_one_iff {α : Type*} {l : List α} {p : α → Bool} (hl : l.Nodup) :
    l.countP p ≤ 1 ↔ ∀ a ∈ l, ∀ b ∈ l, a ≠ b → p a = true → p b = false := by
  rw [List.countP_eq_length_filter, ← not_lt, one_lt_length_iff (hl.filter p)]
  simp only [List.mem_filter]
  constructor
  · intro hnot a ha b hb hne hpa
    rw [← Bool.not_eq_true]
    exact fun hpb => hnot ⟨a, ⟨ha, hpa⟩, b, ⟨hb, hpb⟩, hne⟩
  · intro hone ⟨a, ⟨ha, hpa⟩, b, ⟨hb, hpb⟩, hne⟩
    rw [hone a ha b hb hne hpa] at hpb
    cases hpb

/-! ## What the file says about the tests -/

/-- nextest accepts the file, groups two tests exactly if conflicts connect them, and
runs tests at the same time only if they are not connected. -/
structure ToolConfigFile.Describes (config : ToolConfigFile) (B : Bdd String)
    (tests : List TestMetadata) : Prop where
  loads : config.Loads
  shares_iff : ∀ a ∈ tests, ∀ b ∈ tests, a ≠ b →
    ((∃ name, config.groupOf a.key = some name ∧ config.groupOf b.key = some name) ↔
      (conflictGraph B tests).Reachable a b)
  grouped_iff : ∀ key, config.groupOf key ≠ none ↔
    ∃ t ∈ tests, t.key = key ∧ ∃ u ∈ tests, u ≠ t ∧ conflicts B t u = some true
  admits_iff : ∀ running ⊆ tests, running.Nodup →
    (config.Admits (running.map TestMetadata.key) ↔
      running.Pairwise fun a b => ¬ (conflictGraph B tests).Reachable a b)

theorem describes_toolConfig (h : Groupable B blake3Hex tests)
    (hgroups : IsGroups B blake3Hex tests groups) : (toolConfig groups).Describes B tests where
  loads := loads_toolConfig hgroups
  shares_iff a ha b hb hne := by
    rw [← exists_isGroup_iff_reachable h ha hb hne]
    simp only [groupOf_toolConfig h hgroups]
    constructor
    · intro ⟨name, ⟨g, hg, hname, hga⟩, g', hg', hname', hgb⟩
      have hsame : g = g' := hgroups.eq_of_name hg hg' (hname.trans hname'.symm)
      exact ⟨g, (hgroups.mem_iff g).mp hg, hga, hsame ▸ hgb⟩
    · intro ⟨g, hg, hga, hgb⟩
      have hmem := (hgroups.mem_iff g).mpr hg
      exact ⟨g.name, ⟨g, hmem, rfl, hga⟩, g, hmem, rfl, hgb⟩
  grouped_iff key := by
    rw [Option.ne_none_iff_exists']
    simp only [groupOf_toolConfig h hgroups]
    constructor
    · intro ⟨_, g, hg, _, hmem⟩
      have hgroup := (hgroups.mem_iff g).mp hg
      obtain ⟨t, ht, rfl⟩ := hgroup.exists_mem h hmem
      exact ⟨t, ht, rfl, hgroup.exists_conflicts h ht hmem⟩
    · intro ⟨t, ht, hkey, u, hu, hne, hconflict⟩
      obtain ⟨g, hg, hmem, -⟩ := exists_isGroup_of_conflicts h ht hu hne.symm hconflict
      exact ⟨g.name, g, (hgroups.mem_iff g).mpr hg, rfl, hkey ▸ hmem⟩
  admits_iff running hsubset hnodup := by
    have hiff : ∀ a ∈ running, ∀ b ∈ running, a ≠ b →
        ((∃ g ∈ groups, a.key ∈ g.members ∧ b.key ∈ g.members) ↔
          (conflictGraph B tests).Reachable a b) := by
      intro a ha b hb hne
      rw [← exists_isGroup_iff_reachable h (hsubset ha) (hsubset hb) hne]
      simp only [hgroups.mem_iff]
    rw [admits_toolConfig_iff h hgroups]
    simp only [List.countP_map, countP_le_one_iff hnodup]
    constructor
    · intro hone
      refine hnodup.pairwise_of_forall_ne fun a ha b hb hne hreach => ?_
      obtain ⟨g, hg, hga, hgb⟩ := (hiff a ha b hb hne).mpr hreach
      have hout := hone g hg a ha b hb hne (decide_eq_true hga)
      exact of_decide_eq_false hout hgb
    · intro hpairwise g hg a ha b hb hne hga
      refine decide_eq_false fun hgb => ?_
      have hreach := (hiff a ha b hb hne).mp ⟨g, hg, of_decide_eq_true hga, hgb⟩
      have : Std.Symm fun a b => ¬ (conflictGraph B tests).Reachable a b :=
        ⟨fun _ _ hnot hreach => hnot hreach.symm⟩
      exact hpairwise.forall ha hb hne hreach

/-! ## The whole command -/

theorem keys_nodup_probed {fromJson : String → Except String (List NextestTestMetadata)}
    {probe : DiscoveredBinary → Probe} {binaries : List DiscoveredBinary}
    (hids : (binaries.map DiscoveredBinary.binaryId).Nodup)
    (hnames : ∀ binary ∈ binaries,
      (((probe binary).entries fromJson).map NextestTestMetadata.name).Nodup) :
    (((probed probe binaries).flatMap (testsOf B fromJson)).map TestMetadata.key).Nodup := by
  rw [probed, List.flatMap_map, List.map_flatMap, List.nodup_flatMap]
  constructor
  · intro binary hbinary
    have hfilter : (((probe binary).entries fromJson).filter
        (NextestTestMetadata.parses B)).map NextestTestMetadata.name |>.Nodup :=
      (hnames binary hbinary).sublist (List.filter_sublist.map _)
    rw [testsOf, List.map_map]
    refine List.Nodup.of_map (fun key : TestKey => (ofLex key).2) ?_
    rw [List.map_map]
    exact hfilter
  · refine (List.pairwise_map.mp hids).imp fun hne => ?_
    intro key hkey hkey'
    obtain ⟨t, ht, rfl⟩ := List.mem_map.mp hkey
    obtain ⟨t', ht', heq⟩ := List.mem_map.mp hkey'
    obtain ⟨m, -, rfl⟩ := List.mem_map.mp ht
    obtain ⟨m', -, rfl⟩ := List.mem_map.mp ht'
    exact hne (congrArg (fun key : TestKey => (ofLex key).1) heq).symm

/-- The file is about all tests that the binaries dump. -/
theorem generate_spec (toToml : ToolConfigFile → String) (B : Bdd String) (U : UnionFind)
    (blake3Hex : List UInt8 → String)
    (fromJson : String → Except String (List NextestTestMetadata)) (stderr : String)
    {listed : Std.TreeMap String DiscoveredBinary} {probe : DiscoveredBinary → Probe}
    (hsetup : ∀ binary ∈ listed.values, (probe binary).setupError = none)
    (hids : (listed.values.map DiscoveredBinary.binaryId).Nodup)
    (hnames : ∀ binary ∈ listed.values,
      (((probe binary).entries fromJson).map NextestTestMetadata.name).Nodup)
    (hapart : ∀ xs ys,
      IsMembers B ((probed probe listed.values).flatMap (testsOf B fromJson)) xs →
      IsMembers B ((probed probe listed.values).flatMap (testsOf B fromJson)) ys →
        groupName blake3Hex xs = groupName blake3Hex ys → xs = ys) :
    ∃ config, generate toToml B U blake3Hex fromJson true stderr (.ok listed) probe =
        .ok (some (toToml config)) ∧
      config.Describes B ((probed probe listed.values).flatMap (testsOf B fromJson)) := by
  have hprobes : ∀ p ∈ probed probe listed.values, p.2.setupError = none := by
    intro p hp
    obtain ⟨binary, hbinary, rfl⟩ := List.mem_map.mp hp
    exact hsetup binary hbinary
  obtain ⟨warnings, hcollect⟩ : ∃ warnings, collectMetadata B fromJson
      (probed probe listed.values) =
        .ok ((probed probe listed.values).flatMap (testsOf B fromJson), warnings) :=
    (collectMetadata_eq hprobes ([], [])).imp fun _ h => h.2
  have hserial : ∀ t ∈ (probed probe listed.values).flatMap (testsOf B fromJson),
      IsSerial B t.serialFilter := by
    intro t ht
    obtain ⟨_, -, ht⟩ := List.mem_flatMap.mp ht
    exact isSerial_of_mem_testsOf ht
  have hgroupable : Groupable B blake3Hex _ := ⟨hserial, keys_nodup_probed hids hnames, hapart⟩
  obtain ⟨groups, hbuild, hgroups⟩ := buildGroups_spec (U := U) hgroupable
  refine ⟨toolConfig groups, ?_, describes_toolConfig hgroupable hgroups⟩
  have hdiscover : discoverBinaries true stderr (.ok listed) = .ok listed.values := rfl
  calc generate toToml B U blake3Hex fromJson true stderr (.ok listed) probe
      = (collectMetadata B fromJson (probed probe listed.values)).map fun collection =>
          (buildGroups B U blake3Hex collection.1).map (renderToolConfig toToml) := by
        rw [generate, hdiscover]
        rfl
    _ = .ok ((buildGroups B U blake3Hex
          ((probed probe listed.values).flatMap (testsOf B fromJson))).map
            (renderToolConfig toToml)) := by rw [hcollect]; rfl
    _ = .ok (some (toToml (toolConfig groups))) := by rw [hbuild]; rfl

/-- The TOML of a configuration whose texts need no escapes. -/
def sampleToml (config : ToolConfigFile) : String :=
  "[nextest-version]\nrequired = \"" ++ config.nextestVersion ++ "\"\n" ++
    String.join (config.testGroups.toList.map fun (name, group) =>
      "\n[test-groups.\"" ++ name ++ "\"]\nmax-threads = " ++ toString group.maxThreads ++ "\n") ++
    String.join (config.overrides.map fun entry =>
      "\n[[profile.default.overrides]]\nfilter = \"" ++ entry.filter ++ "\"\ntest-group = \"" ++
        entry.testGroup ++ "\"\n")

/-- The dump of the two sample tests. -/
def diskDump : String :=
  "\x7b\"tests\":[\x7b\"name\":\"query\",\"labels\":[\"disk\"],\"serial_filter\":\"\"\x7d," ++
    "\x7b\"name\":\"migrate\",\"labels\":[],\"serial_filter\":\"disk\"\x7d]\x7d"

def diskFromJson (contents : String) : Except String (List NextestTestMetadata) :=
  if contents = diskDump then .ok [⟨"query", ["disk"], ""⟩, ⟨"migrate", [], "disk"⟩]
  else .error "expected value at line 1 column 1"

def diskListed : Std.TreeMap String DiscoveredBinary :=
  (∅ : Std.TreeMap String DiscoveredBinary).insert "app" ⟨"app", "target/debug/deps/app"⟩

theorem generate_spec_disk :
    ∃ config, generate sampleToml (shannon String) .naive sampleBlake3 diskFromJson true ""
        (.ok diskListed) (fun _ => .dumps diskDump) = .ok (some (sampleToml config)) ∧
      config.Describes (shannon String) sampleTests := by
  have hvalues : diskListed.values = [⟨"app", "target/debug/deps/app"⟩] := rfl
  have hentries : (Probe.dumps diskDump).entries diskFromJson =
      [⟨"query", ["disk"], ""⟩, ⟨"migrate", [], "disk"⟩] := by
    rw [Probe.entries, diskFromJson, if_pos rfl]
  have hparses : ∀ m ∈ (Probe.dumps diskDump).entries diskFromJson,
      m.parses (shannon String) = true := by
    intro m hm
    refine parses_iff.mpr (groupable_sampleTests.serial (m.toTestMetadata "app") ?_)
    rw [hentries] at hm
    exact List.mem_map_of_mem (f := fun m => NextestTestMetadata.toTestMetadata m "app") hm
  have htests : (probed (fun _ => .dumps diskDump) diskListed.values).flatMap
      (testsOf (shannon String) diskFromJson) = sampleTests := by
    rw [hvalues, probed, List.map_singleton, List.flatMap_singleton, testsOf,
      List.filter_eq_self.mpr hparses, hentries]
    rfl
  rw [← htests]
  refine generate_spec sampleToml (shannon String) .naive sampleBlake3 diskFromJson "" ?_ ?_ ?_ ?_
  · intro _ _
    rfl
  · rw [hvalues]
    decide
  · intro _ _
    rw [hentries]
    decide
  · rw [htests]
    exact groupable_sampleTests.names_apart

end Skuld
