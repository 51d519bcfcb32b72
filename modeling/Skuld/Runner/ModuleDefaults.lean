import Skuld.Fixture.Closure
import Skuld.Runner.Collect

/-!
# Module defaults

A test without labels of its own takes those of the nearest enclosing module
that has defaults.  The code compares module paths as strings, by prefix and by
length; on paths that is the same as comparing their segments (`covers_iff`),
and of the covering modules the longest is the innermost one.

The defaults come in no particular order, and two of them may name the same
module.  `labels_independent_of_order_iff` says when the order matters: never,
unless the defaults of that one module disagree.
-/

namespace Skuld

/-! ## Module paths -/

/-- The parts of a path between its `::`. -/
def segments : List Char → List (List Char)
  | [] => [[]]
  | ':' :: ':' :: rest => [] :: segments rest
  | c :: rest => (segments rest).modifyHead (c :: ·)

/-- A path as `module_path!` gives it: no single colon in it. -/
def IsModulePath (module : String) : Prop :=
  ∀ segment ∈ segments module.toList, ':' ∉ segment

instance (module : String) : Decidable (IsModulePath module) :=
  inferInstanceAs (Decidable (∀ segment ∈ segments module.toList, ':' ∉ segment))

/-- The module is `inner` or one of its ancestors, segment by segment. -/
def Encloses (module inner : String) : Prop :=
  segments module.toList <+: segments inner.toList

theorem segments_ne_nil (path : List Char) : segments path ≠ [] := by
  induction path using segments.induct with
  | case1 => simp [segments]
  | case2 rest ih => simp [segments]
  | case3 c rest hcolons ih =>
      rw [segments.eq_3 c rest hcolons]
      cases hrest : segments rest with
      | nil => exact absurd hrest ih
      | cons segment segs => simp

theorem intercalate_segments (path : List Char) :
    [':', ':'].intercalate (segments path) = path := by
  induction path using segments.induct with
  | case1 => simp [segments]
  | case2 rest ih =>
      rw [segments]
      cases hrest : segments rest with
      | nil => exact absurd hrest (segments_ne_nil rest)
      | cons segment segs =>
          rw [hrest] at ih
          simp [List.intercalate_cons_cons, ih]
  | case3 c rest hcolons ih =>
      rw [segments.eq_3 c rest hcolons]
      cases hrest : segments rest with
      | nil => exact absurd hrest (segments_ne_nil rest)
      | cons segment segs =>
          rw [hrest] at ih
          rw [List.modifyHead_cons, ← ih]
          cases segs <;> simp [List.intercalate_cons_cons]

/-- What follows `::` after a path are more segments. -/
theorem segments_append {path : List Char} (h : ∀ segment ∈ segments path, ':' ∉ segment)
    (rest : List Char) :
    segments (path ++ ':' :: ':' :: rest) = segments path ++ segments rest := by
  induction path using segments.induct with
  | case1 => rfl
  | case2 path ih =>
      rw [segments, List.forall_mem_cons] at h
      simp only [List.cons_append, segments, ih h.2]
  | case3 c path hcolons ih =>
      rw [segments.eq_3 c path hcolons] at h ⊢
      cases hpath : segments path with
      | nil => exact absurd hpath (segments_ne_nil path)
      | cons segment segs =>
          rw [hpath, List.modifyHead_cons, List.forall_mem_cons] at h
          have hc : c ≠ ':' := by
            rintro rfl
            exact h.1 List.mem_cons_self
          have hih := ih (by
            rw [hpath, List.forall_mem_cons]
            exact ⟨fun hmem => h.1 (List.mem_cons_of_mem _ hmem), h.2⟩)
          rw [List.cons_append, segments.eq_3 _ _ (fun _ heq => absurd heq hc), hih, hpath]
          rfl

/-- Joined segments of a longer path start with those of the shorter one. -/
theorem intercalate_append {segs more : List (List Char)} (hsegs : segs ≠ []) (hmore : more ≠ []) :
    [':', ':'].intercalate (segs ++ more) =
      [':', ':'].intercalate segs ++ ':' :: ':' :: [':', ':'].intercalate more := by
  induction segs with
  | nil => exact absurd rfl hsegs
  | cons segment segs ih =>
      cases segs with
      | nil => simp [List.intercalate_cons_of_ne_nil hmore]
      | cons segment' segs =>
          rw [List.cons_append, List.cons_append, List.intercalate_cons_cons, ← List.cons_append,
            ih (by simp), List.intercalate_cons_cons]
          simp

theorem Encloses.eq_or_append {module inner : String} (h : Encloses module inner) :
    inner = module ∨ ∃ rest, inner.toList = module.toList ++ ':' :: ':' :: rest := by
  obtain ⟨more, hmore⟩ := h
  by_cases hnil : more = []
  · rw [hnil, List.append_nil] at hmore
    refine .inl (String.toList_injective ?_)
    rw [← intercalate_segments inner.toList, ← hmore, intercalate_segments]
  · refine .inr ⟨[':', ':'].intercalate more, ?_⟩
    rw [← intercalate_segments inner.toList, ← hmore,
      intercalate_append (segments_ne_nil _) hnil, intercalate_segments]

theorem encloses_of_append {module inner : String} (hmodule : IsModulePath module)
    {rest : List Char} (h : inner.toList = module.toList ++ ':' :: ':' :: rest) :
    Encloses module inner := by
  rw [Encloses, h, segments_append hmodule]
  exact List.prefix_append _ _

/-- Covering by prefix is enclosing by segments. -/
theorem covers_iff {d : TestDef} {m : ModuleLabels} (hm : IsModulePath m.module) :
    covers d m = true ↔ Encloses m.module d.module := by
  have hcovers : covers d m = true ↔ d.module = m.module ∨
      ∃ rest, d.module.toList = m.module.toList ++ ':' :: ':' :: rest := by
    rw [covers, Bool.or_eq_true, decide_eq_true_eq, Bool.and_eq_true, List.isPrefixOf_iff_prefix,
      List.isPrefixOf_iff_prefix]
    refine or_congr_right ⟨?_, ?_⟩
    · rintro ⟨⟨more, hmore⟩, ⟨rest, hrest⟩⟩
      rw [← hmore, List.drop_left] at hrest
      exact ⟨rest, by rw [← hmore, ← hrest]; rfl⟩
    · rintro ⟨rest, hrest⟩
      rw [hrest, List.drop_left]
      exact ⟨⟨_, rfl⟩, ⟨rest, rfl⟩⟩
  rw [hcovers]
  constructor
  · rintro (heq | ⟨rest, hrest⟩)
    · rw [heq, Encloses]
    · exact encloses_of_append hm hrest
  · exact Encloses.eq_or_append

/-- Of two modules that enclose a third, the one with more segments is the longer
string. -/
theorem Encloses.byteSize_lt {module module' inner : String} (h : Encloses module inner)
    (h' : Encloses module' inner)
    (hlt : (segments module.toList).length < (segments module'.toList).length) :
    module.utf8ByteSize < module'.utf8ByteSize := by
  have hprefix : Encloses module module' := List.prefix_of_prefix_length_le h h' hlt.le
  rcases hprefix.eq_or_append with heq | ⟨rest, hrest⟩
  · rw [heq] at hlt
    exact absurd hlt (lt_irrefl _)
  · have heq : module' = module ++ String.ofList (':' :: ':' :: rest) := by
      rw [← String.toList_inj, String.toList_append, String.toList_ofList, hrest]
    have hpos : 0 < (String.ofList (':' :: ':' :: rest)).utf8ByteSize := by
      refine Nat.pos_of_ne_zero fun hzero => ?_
      rw [String.utf8ByteSize_eq_zero_iff] at hzero
      simpa using congrArg String.toList hzero
    rw [heq, String.utf8ByteSize_append]
    omega

/-! ## The last of the largest -/

section

variable {α : Type} {key : α → ℕ}

theorem maxByKey_eq_none_iff {l : List α} : maxByKey key l = none ↔ l = [] := by
  constructor
  · intro h
    cases l with
    | nil => rfl
    | cons c l =>
        rw [maxByKey] at h
        split at h
        · cases h
        · split_ifs at h
  · rintro rfl
    rfl

theorem maxByKey_spec {l : List α} {a : α} (h : maxByKey key l = some a) :
    a ∈ l ∧ ∀ b ∈ l, key b ≤ key a := by
  induction l generalizing a with
  | nil => cases h
  | cons c l ih =>
      rw [maxByKey] at h
      cases hmax : maxByKey key l with
      | none =>
          rw [hmax, Option.some.injEq] at h
          simp [maxByKey_eq_none_iff.mp hmax, h]
      | some b =>
          obtain ⟨hb, hle⟩ := ih hmax
          simp only [hmax] at h
          split_ifs at h with hcb
          · cases h
            refine ⟨List.mem_cons_of_mem _ hb, List.forall_mem_cons.mpr ⟨hcb, hle⟩⟩
          · cases h
            refine ⟨List.mem_cons_self, List.forall_mem_cons.mpr ⟨le_rfl, fun x hx => ?_⟩⟩
            exact (hle x hx).trans (Nat.le_of_not_le hcb)

theorem maxByKey_concat {l : List α} {a : α} (h : ∀ b ∈ l, key b ≤ key a) :
    maxByKey key (l ++ [a]) = some a := by
  induction l with
  | nil => rfl
  | cons c l ih =>
      rw [List.forall_mem_cons] at h
      rw [List.cons_append, maxByKey, ih h.2]
      exact if_pos h.1

end

/-! ## The default of a test -/

/-- A default of the innermost module around the test that has one. -/
structure IsNearestDefault (d : TestDef) (defaults : List ModuleLabels) (m : ModuleLabels) :
    Prop where
  mem : m ∈ defaults
  encloses : Encloses m.module d.module
  innermost : ∀ m' ∈ defaults, Encloses m'.module d.module →
    (segments m'.module.toList).length ≤ (segments m.module.toList).length

/-- The labels that a test has without its fixtures. -/
inductive IsOwnLabels (d : TestDef) (defaults : List ModuleLabels) : List Label → Prop where
  | explicit : d.labelsExplicit = true → IsOwnLabels d defaults d.labels
  | nearest {m} : d.labelsExplicit = false → IsNearestDefault d defaults m →
      IsOwnLabels d defaults m.labels
  | none : d.labelsExplicit = false → (∀ m ∈ defaults, ¬ Encloses m.module d.module) →
      IsOwnLabels d defaults d.labels

theorem IsNearestDefault.perm {d : TestDef} {defaults defaults' : List ModuleLabels}
    {m : ModuleLabels} (h : IsNearestDefault d defaults m) (hperm : defaults.Perm defaults') :
    IsNearestDefault d defaults' m where
  mem := hperm.mem_iff.mp h.mem
  encloses := h.encloses
  innermost m' hm' := h.innermost m' (hperm.mem_iff.mpr hm')

theorem IsOwnLabels.perm {d : TestDef} {defaults defaults' : List ModuleLabels}
    {own : List Label} (h : IsOwnLabels d defaults own) (hperm : defaults.Perm defaults') :
    IsOwnLabels d defaults' own := by
  cases h with
  | explicit hexplicit => exact .explicit hexplicit
  | nearest hexplicit hm => exact .nearest hexplicit (hm.perm hperm)
  | none hexplicit hnone => exact .none hexplicit fun m hm => hnone m (hperm.mem_iff.mpr hm)

section

variable {d : TestDef} {defaults : List ModuleLabels}
  (hdefaults : ∀ m ∈ defaults, IsModulePath m.module)
include hdefaults

/-- The nearest defaults are the longest of the covering ones. -/
theorem isNearestDefault_iff {m : ModuleLabels} :
    IsNearestDefault d defaults m ↔ m ∈ defaults.filter (covers d) ∧
      ∀ m' ∈ defaults.filter (covers d), m'.module.utf8ByteSize ≤ m.module.utf8ByteSize := by
  have hmem : ∀ m, m ∈ defaults.filter (covers d) ↔
      m ∈ defaults ∧ Encloses m.module d.module := fun m => by
    rw [List.mem_filter]
    exact and_congr_right fun hm => covers_iff (hdefaults m hm)
  simp only [hmem]
  constructor
  · rintro ⟨hm, hencloses, hinner⟩
    refine ⟨⟨hm, hencloses⟩, fun m' ⟨hm', hencloses'⟩ => ?_⟩
    -- `m'` has no more segments, so that its path is a prefix
    have hprefix : Encloses m'.module m.module :=
      List.prefix_of_prefix_length_le hencloses' hencloses (hinner m' hm' hencloses')
    rcases hprefix.eq_or_append with heq | ⟨rest, hrest⟩
    · rw [heq]
    · have heq : m.module = m'.module ++ String.ofList (':' :: ':' :: rest) := by
        rw [← String.toList_inj, String.toList_append, String.toList_ofList, hrest]
      rw [heq, String.utf8ByteSize_append]
      omega
  · rintro ⟨⟨hm, hencloses⟩, hlongest⟩
    refine ⟨hm, hencloses, fun m' hm' hencloses' => ?_⟩
    by_contra hlt
    have hsize := hencloses.byteSize_lt hencloses' (by omega)
    have := hlongest m' ⟨hm', hencloses'⟩
    omega

theorem isOwnLabels_ownLabels : IsOwnLabels d defaults (ownLabels d defaults) := by
  unfold ownLabels
  by_cases hexplicit : d.labelsExplicit = true
  · rw [if_pos hexplicit]
    exact .explicit hexplicit
  · rw [if_neg hexplicit]
    rw [Bool.not_eq_true] at hexplicit
    cases hmax : maxByKey (fun m => m.module.utf8ByteSize) (defaults.filter (covers d)) with
    | none =>
        rw [maxByKey_eq_none_iff, List.filter_eq_nil_iff] at hmax
        exact .none hexplicit fun m hm hencloses =>
          hmax m hm ((covers_iff (hdefaults m hm)).mpr hencloses)
    | some m => exact .nearest hexplicit ((isNearestDefault_iff hdefaults).mpr (maxByKey_spec hmax))

/-- Every nearest default is the one that counts in some order. -/
theorem exists_perm_of_isNearestDefault (hexplicit : d.labelsExplicit = false) {m : ModuleLabels}
    (h : IsNearestDefault d defaults m) :
    ∃ defaults', defaults.Perm defaults' ∧ ownLabels d defaults' = m.labels := by
  obtain ⟨before, after, rfl⟩ := List.append_of_mem h.mem
  obtain ⟨hmem, hlongest⟩ := (isNearestDefault_iff hdefaults).mp h
  have hcovers : covers d m = true := (List.mem_filter.mp hmem).2
  refine ⟨before ++ after ++ [m], ?_, ?_⟩
  · exact List.perm_middle.trans (List.perm_append_singleton m _).symm
  · rw [ownLabels, if_neg (by simp [hexplicit]), List.filter_append,
      List.filter_cons_of_pos hcovers, List.filter_nil, maxByKey_concat fun m' hm' => ?_]
    refine hlongest m' ?_
    simp only [List.filter_append, List.mem_append, List.filter_cons_of_pos hcovers,
      List.mem_cons] at hm' ⊢
    exact hm'.imp_right .inr

end

/-! ## The order of registration -/

theorem resolveLabels_eq {registry : Registry} {d : TestDef} {inherited : List Label}
    (h : collectFixtureLabels registry d.fixtureNames = .ok inherited.eraseDups)
    (defaults : List ModuleLabels) :
    resolveLabels registry d defaults =
      .ok (ownLabels d defaults ++ inherited).eraseDups := by
  rw [resolveLabels, h]
  change Except.ok (pushUnique (pushUnique [] _) inherited.eraseDups) = _
  rw [pushUnique_eraseDups, pushUnique_append, pushUnique_nil]

/-- The effective labels are the test's own and then those of its fixtures, each
once, whatever the order of the defaults. -/
def LabelsDetermined (registry : Registry) (d : TestDef) (defaults : List ModuleLabels)
    (inherited : List Label) : Prop :=
  ∃ own, IsOwnLabels d defaults own ∧ (own ++ inherited).eraseDups.Nodup ∧
    ∀ defaults', defaults.Perm defaults' →
      resolveLabels registry d defaults' = .ok (own ++ inherited).eraseDups

/-- The defaults of the nearest module make no difference to each other, the
labels of the fixtures `inherited` considered. -/
def DefaultsAgree (d : TestDef) (defaults : List ModuleLabels) (inherited : List Label) : Prop :=
  d.labelsExplicit = true ∨ ∀ m m', IsNearestDefault d defaults m → IsNearestDefault d defaults m' →
    (m.labels ++ inherited).eraseDups = (m'.labels ++ inherited).eraseDups

/-- One default for each module. -/
theorem defaultsAgree_of_nodup {d : TestDef} {defaults : List ModuleLabels}
    (hnodup : (defaults.map ModuleLabels.module).Nodup) (inherited : List Label) :
    DefaultsAgree d defaults inherited := by
  refine .inr fun m m' hm hm' => ?_
  have hlength : (segments m.module.toList).length = (segments m'.module.toList).length :=
    le_antisymm (hm'.innermost m hm.mem hm.encloses) (hm.innermost m' hm'.mem hm'.encloses)
  have hsegments : segments m.module.toList = segments m'.module.toList :=
    (List.prefix_of_prefix_length_le hm.encloses hm'.encloses hlength.le).eq_of_length hlength
  have hmodule : m.module = m'.module := String.toList_injective <| by
    rw [← intercalate_segments m.module.toList, hsegments, intercalate_segments]
  rw [List.inj_on_of_nodup_map hnodup hm.mem hm'.mem hmodule]

/-- Whatever counts as the test's own labels, the effective ones are the same. -/
theorem IsOwnLabels.agree {d : TestDef} {defaults : List ModuleLabels}
    {own own' inherited : List Label} (h : IsOwnLabels d defaults own)
    (h' : IsOwnLabels d defaults own') (hagree : DefaultsAgree d defaults inherited) :
    (own ++ inherited).eraseDups = (own' ++ inherited).eraseDups := by
  cases h with
  | explicit hexplicit =>
      cases h' with
      | explicit _ => rfl
      | nearest hfalse _ => simp [hexplicit] at hfalse
      | none _ _ => rfl
  | nearest hexplicit hm =>
      cases h' with
      | explicit htrue => simp [hexplicit] at htrue
      | nearest _ hm' =>
          rcases hagree with htrue | hagree
          · simp [hexplicit] at htrue
          · exact hagree _ _ hm hm'
      | none _ hnone => exact absurd hm.encloses (hnone _ hm.mem)
  | none hexplicit hnone =>
      cases h' with
      | explicit _ => rfl
      | nearest _ hm' => exact absurd hm'.encloses (hnone _ hm'.mem)
      | none _ _ => rfl

/-- The labels of a test do not depend on the order in which the defaults are
registered if and only if the defaults of its nearest module agree. -/
theorem labels_independent_of_order_iff {registry : Registry}
    (hvalid : validateFixtureGraph registry = .ok ()) (d : TestDef)
    (defaults : List ModuleLabels) (hdefaults : ∀ m ∈ defaults, IsModulePath m.module) :
    ∃ order, registry.IsClosure d.fixtureNames order ∧
      (LabelsDetermined registry d defaults (order.flatMap FixtureDef.labels) ↔
        DefaultsAgree d defaults (order.flatMap FixtureDef.labels)) := by
  obtain ⟨order, hclosure, hinherited⟩ :=
    collectFixtureLabels_closure (Registry.depsRegistered_of_validate hvalid) d.fixtureNames
  have hresolve := resolveLabels_eq hinherited
  refine ⟨order, hclosure, ?_, ?_⟩
  · rintro ⟨own, -, -, hsame⟩
    by_cases hexplicit : d.labelsExplicit = true
    · exact .inl hexplicit
    · rw [Bool.not_eq_true] at hexplicit
      refine .inr fun m m' hm hm' => ?_
      have hany : ∀ m, IsNearestDefault d defaults m →
          (m.labels ++ order.flatMap FixtureDef.labels).eraseDups =
            (own ++ order.flatMap FixtureDef.labels).eraseDups := by
        intro m hm
        obtain ⟨defaults', hperm, hown⟩ := exists_perm_of_isNearestDefault hdefaults hexplicit hm
        have := hsame defaults' hperm
        rw [hresolve, hown, Except.ok.injEq] at this
        exact this
      rw [hany m hm, hany m' hm']
  · intro hagree
    have hown := isOwnLabels_ownLabels (d := d) hdefaults
    refine ⟨_, hown, nodup_eraseDups _, fun defaults' hperm => ?_⟩
    rw [hresolve, Except.ok.injEq]
    have hdefaults' : ∀ m ∈ defaults', IsModulePath m.module := fun m hm =>
      hdefaults m (hperm.mem_iff.mpr hm)
    have hown' : IsOwnLabels d defaults (ownLabels d defaults') :=
      (isOwnLabels_ownLabels hdefaults').perm hperm.symm
    exact hown'.agree hown hagree

/-- Two defaults in one module. -/
def clashingDefaults : List ModuleLabels :=
  [⟨"krate", [⟨"smoke", by decide⟩]⟩, ⟨"krate", [⟨"slow", by decide⟩]⟩]

/-- A test without labels in the module. -/
def testIn (module : String) : TestDef where
  name := "t"
  module := module
  displayName := none
  requires := []
  fixtureNames := []
  ignore := .no
  labels := []
  labelsExplicit := false
  serial := ""

theorem labels_depend_on_order :
    validateFixtureGraph ⟨[], .nil⟩ = .ok () ∧ clashingDefaults.Perm clashingDefaults.reverse ∧
      resolveLabels ⟨[], .nil⟩ (testIn "krate") clashingDefaults =
        .ok [⟨"slow", by decide⟩] ∧
      resolveLabels ⟨[], .nil⟩ (testIn "krate") clashingDefaults.reverse =
        .ok [⟨"smoke", by decide⟩] :=
  ⟨rfl, (List.reverse_perm _).symm, rfl, rfl⟩

theorem labels_independent_of_order_iff_nested :
    ∃ inherited, LabelsDetermined ⟨[], .nil⟩ (testIn "krate::net::dns")
      [⟨"krate", [⟨"smoke", by decide⟩]⟩, ⟨"krate::net", [⟨"slow", by decide⟩]⟩] inherited := by
  obtain ⟨order, -, hiff⟩ := labels_independent_of_order_iff
    (show validateFixtureGraph ⟨[], .nil⟩ = .ok () from rfl) (testIn "krate::net::dns")
    [⟨"krate", [⟨"smoke", by decide⟩]⟩, ⟨"krate::net", [⟨"slow", by decide⟩]⟩] (by decide)
  exact ⟨_, hiff.mpr (defaultsAgree_of_nodup (by decide) _)⟩

end Skuld
