import Skuld.Fixture.GraphCheck

/-!
# What a test inherits from its fixtures

The walk over the dependencies calls `visit` on the fixtures of the closure of
its roots, once each and in pre-order (`walk_visits_closure`), so that what is
collected on the way is what these fixtures declare, in that order.

The closure of a fixture is the fixture in front of the closure of its
dependencies (`Registry.IsClosure.eq_cons`), although the one walk has seen the
fixture and the other has not.
-/

namespace Skuld

/-! ## Lists without repetition -/

theorem nodup_pushUnique {dst : List Label} (hdst : dst.Nodup) (src : List Label) :
    (pushUnique dst src).Nodup := by
  unfold pushUnique
  induction src generalizing dst with
  | nil => exact hdst
  | cons label src ih =>
      rw [List.foldl_cons]
      split_ifs with h
      · exact ih hdst
      · refine ih (List.nodup_append.mpr ⟨hdst, List.nodup_singleton label, ?_⟩)
        intro x hx y hy heq
        exact h (List.mem_singleton.mp hy ▸ heq ▸ hx)

/-- What is pushed are the first occurrences of what is not there yet. -/
theorem pushUnique_eq (dst src : List Label) :
    pushUnique dst src = dst ++ (src.filter fun label => label ∉ dst).eraseDups := by
  unfold pushUnique
  induction src generalizing dst with
  | nil => simp
  | cons label src ih =>
      rw [List.foldl_cons]
      split_ifs with h
      · rw [ih, List.filter_cons_of_neg (by simpa using h)]
      · rw [ih, List.filter_cons_of_pos (by simpa using h), List.eraseDups_cons,
          List.append_assoc, List.singleton_append, List.filter_filter]
        congr 3
        refine List.filter_congr fun x _ => ?_
        rw [Bool.and_comm, Bool.eq_iff_iff]
        simp [not_or]

theorem pushUnique_nil (src : List Label) : pushUnique [] src = src.eraseDups := by
  rw [pushUnique_eq]
  simp

theorem pushUnique_append (dst src src' : List Label) :
    pushUnique (pushUnique dst src) src' = pushUnique dst (src ++ src') :=
  (List.foldl_append ..).symm

theorem nodup_eraseDups (labels : List Label) : labels.eraseDups.Nodup :=
  pushUnique_nil labels ▸ nodup_pushUnique .nil labels

theorem mem_pushUnique {dst src : List Label} {label : Label} :
    label ∈ pushUnique dst src ↔ label ∈ dst ∨ label ∈ src := by
  rw [pushUnique_eq, List.mem_append, List.mem_eraseDups, List.mem_filter, decide_eq_true_eq]
  tauto

/-- Repetitions in what is pushed make no difference. -/
theorem pushUnique_eraseDups (dst src : List Label) :
    pushUnique dst src.eraseDups = pushUnique dst src := by
  induction src using List.reverseRecOn with
  | nil => rfl
  | append_singleton src label ih =>
      rw [List.eraseDups_append, ← pushUnique_append, ← pushUnique_append, ih]
      by_cases h : label ∈ src
      · have hmem : label ∈ pushUnique dst src := mem_pushUnique.mpr (.inr h)
        have hnil : [label].removeAll src = [] := by simp [List.removeAll, h]
        rw [hnil, List.eraseDups_nil]
        exact (if_pos hmem).symm
      · have hkeep : [label].removeAll src = [label] := by simp [List.removeAll, h]
        rw [hkeep]
        rfl

/-! ## The walk -/

variable {registry : Registry}

/-- Looking names up and back. -/
theorem Registry.map_name_filterMap (registry : Registry) (names : List String) :
    (names.filterMap registry.graph.lookup).map FixtureDef.name =
      names.filter fun name => (registry.graph.lookup name).isSome := by
  induction names with
  | nil => rfl
  | cons name names ih =>
      cases hget : registry.graph.lookup name with
      | none => simpa [hget] using ih
      | some d =>
          have hname : d.name = name := (Registry.get_eq_some_iff.mp hget).2
          simpa [hget, hname] using ih

/-- The fixtures of the closure of the names, in the order in which a depth-first
traversal from them sees them for the first time. -/
structure Registry.IsClosure (registry : Registry) (names : List String)
    (order : List FixtureDef) : Prop where
  mem_iff : ∀ d, d ∈ order ↔ d ∈ registry.defs ∧ registry.graph.Reachable names d.name
  nodup : order.Nodup
  follows : registry.graph.Follows names [] (order.map FixtureDef.name).reverse
  exhausted : registry.graph.Exhausted names [] (order.map FixtureDef.name).reverse

/-- The walk is a loop over the closure. -/
theorem walkFixtureDepsIn_closure (hdeps : registry.DepsRegistered) (names : List String) :
    ∃ order, registry.IsClosure names order ∧
      ∀ {α : Type} (visit : α → FixtureDef → α) (start : α),
        walkFixtureDepsIn registry names visit start = .ok (order.foldl visit start) := by
  obtain ⟨st, hst⟩ := Registry.walk_ok hdeps names
  obtain ⟨hfollows, hexhausted⟩ := Dfs.Graph.follows_walk hst
  obtain ⟨horder, hvisited⟩ := Dfs.Graph.order_walk hst
  have hnames : (st.order.map FixtureDef.name).reverse = registry.graph.known st.visited := by
    rw [horder, registry.map_name_filterMap, Dfs.Graph.known, List.filter_reverse,
      List.reverse_reverse]
  refine ⟨st.order, ⟨fun d => ?_, ?_, hnames ▸ hfollows, hnames ▸ hexhausted⟩,
    walkFixtureDepsIn_of_walk hst⟩
  · rw [Dfs.Graph.mem_order_walk hst]
    constructor
    · rintro ⟨name, hreach, hget⟩
      obtain ⟨hd, rfl⟩ := Registry.get_eq_some_iff.mp hget
      exact ⟨hd, hreach⟩
    · rintro ⟨hd, hreach⟩
      exact ⟨d.name, hreach, Registry.get_eq_some_iff.mpr ⟨hd, rfl⟩⟩
  · refine List.Nodup.of_map FixtureDef.name (List.nodup_reverse.mp ?_)
    rw [hnames]
    exact hvisited.filter _

theorem foldl_pushUnique (order : List FixtureDef) :
    order.foldl (fun result d => pushUnique result d.labels) [] =
      (order.flatMap FixtureDef.labels).eraseDups := by
  rw [← pushUnique_nil, pushUnique, List.foldl_flatMap]
  rfl

theorem collectFixtureLabels_closure (hdeps : registry.DepsRegistered) (names : List String) :
    ∃ order, registry.IsClosure names order ∧
      collectFixtureLabels registry names = .ok (order.flatMap FixtureDef.labels).eraseDups := by
  obtain ⟨order, hclosure, hwalk⟩ := walkFixtureDepsIn_closure hdeps names
  refine ⟨order, hclosure, ?_⟩
  rw [collectFixtureLabels, hwalk, foldl_pushUnique]

/-- The walk calls `visit` on every registered fixture that the names reach, once,
in the order of a depth-first traversal; the requirements and the labels of a
test are those of these fixtures. -/
theorem walk_visits_closure (hdeps : registry.DepsRegistered) (names : List String) :
    ∃ order, registry.IsClosure names order ∧
      (∀ {α : Type} (visit : α → FixtureDef → α) (start : α),
        walkFixtureDepsIn registry names visit start = .ok (order.foldl visit start)) ∧
      collectFixtureRequires registry names = .ok (order.flatMap FixtureDef.requires) ∧
      ∃ labels, collectFixtureLabels registry names = .ok labels ∧
        labels = (order.flatMap FixtureDef.labels).eraseDups ∧ labels.Nodup ∧
        ∀ label, label ∈ labels ↔ ∃ d ∈ order, label ∈ d.labels := by
  obtain ⟨order, hclosure, hwalk⟩ := walkFixtureDepsIn_closure hdeps names
  have hlabels : collectFixtureLabels registry names =
      .ok (order.flatMap FixtureDef.labels).eraseDups := by
    rw [collectFixtureLabels, hwalk, foldl_pushUnique]
  refine ⟨order, hclosure, hwalk, ?_, _, hlabels, rfl, nodup_eraseDups _, fun label => ?_⟩
  · rw [collectFixtureRequires, hwalk, List.flatMap_eq_foldl]
  · rw [List.mem_eraseDups, List.mem_flatMap]

/-- Two fixtures that depend on each other, which the startup check rejects and
the walk does not mind. -/
def cyclicRegistry : Registry where
  defs :=
    [{ name := "a", scope := .test, requires := [], deps := ["b", "b"], labels := [],
       typeName := "A", serial := "" },
     { name := "b", scope := .test, requires := [], deps := ["a"], labels := [],
       typeName := "B", serial := "" }]
  nodup := by decide

example : walkFixtureDepsIn cyclicRegistry ["missing", "b", "a"]
    (fun seen d => seen ++ [d.name]) [] = .ok ["b", "a"] := by
  rfl

theorem walk_visits_closure_cycle :
    ∃ order, cyclicRegistry.IsClosure ["missing", "b", "a"] order ∧
      collectFixtureRequires cyclicRegistry ["missing", "b", "a"] =
        .ok (order.flatMap FixtureDef.requires) := by
  have hdeps : cyclicRegistry.DepsRegistered := by
    unfold Registry.DepsRegistered
    decide
  obtain ⟨order, hclosure, -, hrequires, -⟩ := walk_visits_closure hdeps ["missing", "b", "a"]
  exact ⟨order, hclosure, hrequires⟩

/-! ## From a fixture and from its dependencies -/

/-- `fixture_labels_of`: what a test inherits by using the fixture. -/
def fixtureLabelsOf (registry : Registry) (d : FixtureDef) :
    Except (Dfs.Fault String FixtureDef) (List Label) := do
  let inherited ← collectFixtureLabels registry d.deps
  return inherited.foldl (fun result label => pushUnique result [label]) (pushUnique [] d.labels)

theorem Registry.filterMap_get_map_name {order : List FixtureDef}
    (h : ∀ d ∈ order, d ∈ registry.defs) :
    (order.map FixtureDef.name).filterMap registry.get = order := by
  rw [List.filterMap_map]
  calc order.filterMap (registry.get ∘ FixtureDef.name)
      = order.filterMap some :=
        List.filterMap_congr fun d hd => Registry.get_eq_some_iff.mpr ⟨h d hd, rfl⟩
    _ = order := List.filterMap_some

/-- In an accepted graph no fixture is in the closure of its dependencies. -/
theorem Registry.not_reachable_deps (hacyclic : registry.Acyclic) {d : FixtureDef}
    (hd : d ∈ registry.defs) : ¬ registry.graph.Reachable d.deps d.name := by
  rintro ⟨dep, hdep, hpath⟩
  have hedge : registry.graph.Edge d.name dep :=
    ⟨d, Registry.get_eq_some_iff.mpr ⟨hd, rfl⟩, hdep⟩
  exact hacyclic d.name (.head' hedge hpath)

/-- The closure of a fixture is the fixture and then the closure of its
dependencies. -/
theorem Registry.IsClosure.eq_cons (hacyclic : registry.Acyclic) {d : FixtureDef}
    (hd : d ∈ registry.defs) {order sub : List FixtureDef}
    (h : registry.IsClosure [d.name] order) (hsub : registry.IsClosure d.deps sub) :
    order = d :: sub := by
  have hget : registry.graph.lookup d.name = some d := Registry.get_eq_some_iff.mpr ⟨hd, rfl⟩
  have hnames : order.map FixtureDef.name = (d :: sub).map FixtureDef.name := by
    rw [← List.reverse_inj, List.map_cons, List.reverse_cons]
    exact h.follows.eq_append hget (Registry.not_reachable_deps hacyclic hd) h.exhausted
      hsub.follows hsub.exhausted
  have hsubmem : ∀ e ∈ d :: sub, e ∈ registry.defs :=
    List.forall_mem_cons.mpr ⟨hd, fun e he => ((hsub.mem_iff e).mp he).1⟩
  calc order
      = (order.map FixtureDef.name).filterMap registry.get :=
        (Registry.filterMap_get_map_name fun e he => ((h.mem_iff e).mp he).1).symm
    _ = ((d :: sub).map FixtureDef.name).filterMap registry.get := by rw [hnames]
    _ = d :: sub := Registry.filterMap_get_map_name hsubmem

/-- The labels of a fixture by its own and its dependencies' are those of the walk
that starts from it. -/
theorem fixtureLabelsOf_eq (hvalid : validateFixtureGraph registry = .ok ()) {d : FixtureDef}
    (hd : d ∈ registry.defs) :
    ∃ order, registry.IsClosure [d.name] order ∧
      collectFixtureLabels registry [d.name] = .ok (order.flatMap FixtureDef.labels).eraseDups ∧
      fixtureLabelsOf registry d = .ok (order.flatMap FixtureDef.labels).eraseDups := by
  have hdeps := Registry.depsRegistered_of_validate hvalid
  have hacyclic := Registry.acyclic_of_validate hvalid
  obtain ⟨order, hclosure, hlabels⟩ := collectFixtureLabels_closure hdeps [d.name]
  obtain ⟨sub, hsub, hsubLabels⟩ := collectFixtureLabels_closure hdeps d.deps
  obtain rfl := hclosure.eq_cons hacyclic hd hsub
  refine ⟨d :: sub, hclosure, hlabels, ?_⟩
  rw [fixtureLabelsOf, hsubLabels]
  change Except.ok (pushUnique (pushUnique [] d.labels)
    (sub.flatMap FixtureDef.labels).eraseDups) = _
  rw [pushUnique_eraseDups, pushUnique_append, pushUnique_nil, List.flatMap_cons]

end Skuld
