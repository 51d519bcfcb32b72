import Skuld.Lib.Dfs
import Skuld.Label.Basic

/-!
# The fixture registry

Fixtures are registered under distinct names and point to their dependencies by
name.  `validateFixtureGraph` is the check at startup; `walkFixtureDepsIn` is
the walk behind everything a test inherits from its fixtures.  Both recurse over
the graph and take fuel here: `validateFixtureGraph_ne_fuel` and
`Registry.walk_ok` say that the fuel is enough, whatever the graph.
-/

namespace Skuld

/-- Fixture lifetime scope, ordered from narrow to wide. -/
inductive FixtureScope where
  | variable
  | test
  | process
  deriving DecidableEq

def FixtureScope.rank : FixtureScope → ℕ
  | «variable» => 0
  | test => 1
  | process => 2

/-- A named precondition check, with what the check returns.  A check that panics is left
out. -/
structure Requirement where
  name : String
  check : Except String Unit

def Requirement.eval (requirement : Requirement) : Except String Unit :=
  requirement.check

structure FixtureDef where
  name : String
  scope : FixtureScope
  requires : List Requirement
  deps : List String
  labels : List Label
  typeName : String
  serial : String

/-- The registry: no name twice, in the order in which the map iterates. -/
structure Registry where
  defs : List FixtureDef
  nodup : (defs.map FixtureDef.name).Nodup

namespace Registry

variable (registry : Registry)

def get (name : String) : Option FixtureDef :=
  registry.defs.find? fun d => d.name = name

variable {registry}

theorem get_eq_some_iff {name : String} {d : FixtureDef} :
    registry.get name = some d ↔ d ∈ registry.defs ∧ d.name = name := by
  have hfound : ∀ d', registry.get name = some d' → d' ∈ registry.defs ∧ d'.name = name :=
    fun d' h => ⟨List.mem_of_find?_eq_some h, by simpa using List.find?_some h⟩
  constructor
  · exact hfound d
  · rintro ⟨hd, rfl⟩
    have hsome : (registry.get d.name).isSome = true :=
      List.find?_isSome.mpr ⟨d, hd, decide_eq_true rfl⟩
    obtain ⟨d', hd'⟩ := Option.isSome_iff_exists.mp hsome
    obtain ⟨hmem, hname⟩ := hfound d' hd'
    rw [hd', List.inj_on_of_nodup_map registry.nodup hmem hd hname]

end Registry

/-! ## The check at startup -/

/-- The panics of the registry, with what their texts name; `fuel` is the
recursion of `detectCycle` going deeper than its fuel. -/
inductive RegistryPanic where
  | duplicate (name prevType newType : String)
  | unregistered (name dep : String)
  | narrower (name : String) (scope : FixtureScope) (dep : String) (depScope : FixtureScope)
  | cycle (name : String)
  | fuel

/-- The two sets of the cycle search. -/
structure CycleSearch where
  visiting : List String
  visited : List String

variable (registry : Registry)

def checkDep (d : FixtureDef) (depName : String) : Except RegistryPanic Unit :=
  match registry.get depName with
  | none => .error (.unregistered d.name depName)
  | some dep =>
      if dep.scope.rank < d.scope.rank then
        .error (.narrower d.name d.scope depName dep.scope)
      else
        .ok ()

def detectCycle : ℕ → CycleSearch → String → Except RegistryPanic CycleSearch
  | 0, _, _ => .error .fuel
  | fuel + 1, search, name =>
      if name ∈ search.visited then .ok search
      else if name ∈ search.visiting then .error (.cycle name)
      else do
        let search := { search with visiting := name :: search.visiting }
        let search ←
          match registry.get name with
          | some d => d.deps.foldlM (detectCycle fuel) search
          | none => pure search
        return { visiting := search.visiting.erase name, visited := name :: search.visited }

/-- More levels than there are names. -/
def cycleFuel : ℕ :=
  registry.defs.length + 1

def validateFixtureGraph : Except RegistryPanic Unit := do
  forM registry.defs fun d => forM d.deps (checkDep registry d)
  forM registry.defs fun d => do
    let _ ← detectCycle registry (cycleFuel registry) { visiting := [], visited := [] } d.name

variable {registry}

/-- The two loops of the check. -/
theorem validateFixtureGraph_eq_ok_iff :
    validateFixtureGraph registry = .ok () ↔
      (∀ d ∈ registry.defs, ∀ dep ∈ d.deps, checkDep registry d dep = .ok ()) ∧
      ∀ d ∈ registry.defs, ∃ s, detectCycle registry (cycleFuel registry)
        { visiting := [], visited := [] } d.name = .ok s := by
  have hdeps : (forM registry.defs fun d => forM d.deps (checkDep registry d)) = .ok () ↔
      ∀ d ∈ registry.defs, ∀ dep ∈ d.deps, checkDep registry d dep = .ok () := by
    rw [Loop.forM_ok_iff]
    exact forall₂_congr fun d _ => Loop.forM_ok_iff
  rw [← hdeps]
  unfold validateFixtureGraph
  cases hloop : forM registry.defs fun d => forM d.deps (checkDep registry d) with
  | error panic => simp [bind, Except.bind]
  | ok u =>
      simp only [true_and, bind, Except.bind]
      rw [Loop.forM_ok_iff]
      refine forall₂_congr fun d _ => ?_
      cases detectCycle registry (cycleFuel registry) { visiting := [], visited := [] } d.name with
      | error panic => simp
      | ok s => simp [pure, Except.pure]

/-- In an accepted graph every dependency has passed its check. -/
theorem checkDep_of_validate (h : validateFixtureGraph registry = .ok ()) {d : FixtureDef}
    (hd : d ∈ registry.defs) {dep : String} (hdep : dep ∈ d.deps) :
    checkDep registry d dep = .ok () :=
  (validateFixtureGraph_eq_ok_iff.mp h).1 d hd dep hdep

/-- In an accepted graph every dependency is registered. -/
theorem get_dep_of_validate (h : validateFixtureGraph registry = .ok ()) {d : FixtureDef}
    (hd : d ∈ registry.defs) {dep : String} (hdep : dep ∈ d.deps) :
    (registry.get dep).isSome = true := by
  have hcheck := checkDep_of_validate h hd hdep
  unfold checkDep at hcheck
  cases hget : registry.get dep with
  | none => simp [hget] at hcheck
  | some dep => rfl

/-! ## The fuel of the cycle search is enough -/

/-- One call below the two guards. -/
theorem detectCycle_succ {fuel : ℕ} {s : CycleSearch} {name : String} (hvisited : name ∉ s.visited)
    (hvisiting : name ∉ s.visiting) :
    detectCycle registry (fuel + 1) s name =
      (((registry.get name).elim [] FixtureDef.deps).foldlM (detectCycle registry fuel)
        { s with visiting := name :: s.visiting }).map fun s' =>
          { visiting := s'.visiting.erase name, visited := name :: s'.visited } := by
  rw [detectCycle, if_neg hvisited, if_neg hvisiting]
  cases registry.get name with
  | none => rfl
  | some d =>
      simp only [Option.elim]
      cases d.deps.foldlM (detectCycle registry fuel) { s with visiting := name :: s.visiting } <;>
        rfl

/-- A search leaves the path as it was. -/
theorem detectCycle_visiting {fuel : ℕ} {s s' : CycleSearch} {name : String}
    (h : detectCycle registry fuel s name = .ok s') : s'.visiting = s.visiting := by
  induction fuel generalizing s s' name with
  | zero => simp [detectCycle] at h
  | succ fuel ih =>
      by_cases hvisited : name ∈ s.visited
      · rw [detectCycle, if_pos hvisited, Except.ok.injEq] at h
        rw [h]
      by_cases hvisiting : name ∈ s.visiting
      · rw [detectCycle, if_neg hvisited, if_pos hvisiting] at h
        cases h
      · rw [detectCycle_succ hvisited hvisiting] at h
        cases hdeps : ((registry.get name).elim [] FixtureDef.deps).foldlM
            (detectCycle registry fuel) { s with visiting := name :: s.visiting } with
        | error panic => simp [hdeps, Except.map] at h
        | ok middle =>
            simp only [hdeps, Except.map, Except.ok.injEq] at h
            have hmiddle : middle.visiting = name :: s.visiting :=
              Loop.foldlM_inv (P := fun s' => s'.visiting = name :: s.visiting)
                (fun _ hs hstep => (ih hstep).trans hs) rfl hdeps
            rw [← h]
            simp [hmiddle]

/-- The registered names that are not on the current path. -/
def offPath (registry : Registry) (visiting : List String) : Finset String :=
  (registry.defs.map FixtureDef.name).toFinset.filter fun name => name ∉ visiting

theorem detectCycle_ne_fuel {fuel : ℕ} {s : CycleSearch} {name : String}
    (hfuel : (offPath registry s.visiting).card < fuel) :
    detectCycle registry fuel s name ≠ .error .fuel := by
  induction fuel generalizing s name with
  | zero => omega
  | succ fuel ih =>
      by_cases hvisited : name ∈ s.visited
      · simp [detectCycle, hvisited]
      by_cases hvisiting : name ∈ s.visiting
      · simp [detectCycle, hvisited, hvisiting]
      · rw [detectCycle_succ hvisited hvisiting]
        have hdeps : ((registry.get name).elim [] FixtureDef.deps).foldlM
            (detectCycle registry fuel) { s with visiting := name :: s.visiting } ≠
              .error .fuel := by
          cases hget : registry.get name with
          | none => exact fun h => by cases h
          | some d =>
              -- `name` joins the path, which leaves one registered name less off it
              have hname : name ∈ (registry.defs.map FixtureDef.name).toFinset := by
                obtain ⟨hd, hdname⟩ := Registry.get_eq_some_iff.mp hget
                exact List.mem_toFinset.mpr (List.mem_map.mpr ⟨d, hd, hdname⟩)
              have hlt : (offPath registry (name :: s.visiting)).card <
                  (offPath registry s.visiting).card := by
                refine Finset.card_lt_card (Finset.ssubset_iff_of_subset ?_ |>.mpr ⟨name, ?_, ?_⟩)
                · intro x hx
                  simp only [offPath, Finset.mem_filter, List.mem_cons, not_or] at hx ⊢
                  exact ⟨hx.1, hx.2.2⟩
                · exact Finset.mem_filter.mpr ⟨hname, hvisiting⟩
                · simp [offPath]
              refine Loop.foldlM_ne_error (P := fun s' => s'.visiting = name :: s.visiting)
                (fun _ hs hstep => (detectCycle_visiting hstep).trans hs) (fun _ hs' => ih ?_) rfl
              rw [hs']
              exact hlt.trans_le (Nat.lt_succ_iff.mp hfuel)
        exact Loop.map_ne_error hdeps

theorem detectCycle_cycleFuel_ne_fuel (d : FixtureDef) :
    detectCycle registry (cycleFuel registry) { visiting := [], visited := [] } d.name ≠
      .error .fuel := by
  refine detectCycle_ne_fuel (Nat.lt_succ_of_le ((Finset.card_filter_le _ _).trans ?_))
  exact (List.toFinset_card_le _).trans (by simp)

/-- The check ends on every graph, cyclic or not. -/
theorem validateFixtureGraph_ne_fuel (registry : Registry) :
    validateFixtureGraph registry ≠ .error .fuel := by
  have hdeps : forM registry.defs (fun d => forM d.deps (checkDep registry d)) ≠ .error .fuel := by
    refine Loop.forM_ne_error fun d _ => Loop.forM_ne_error fun dep _ => ?_
    unfold checkDep
    split
    · simp
    · split_ifs <;> simp
  refine Loop.bind_ne_error hdeps fun _ _ => Loop.forM_ne_error fun d hd => ?_
  exact Loop.bind_ne_error (detectCycle_cycleFuel_ne_fuel d) fun search _ h => by cases h

/-! ## The walk -/

namespace Registry

/-- The fixtures and their dependencies as a graph. -/
def graph (registry : Registry) : Dfs.Graph String FixtureDef where
  lookup := registry.get
  succ := FixtureDef.deps

/-- More levels than there are names to walk over. -/
def walkFuel (registry : Registry) (names : List String) : ℕ :=
  names.length + (registry.defs.flatMap FixtureDef.deps).length + 1

/-- Every dependency is registered. -/
def DepsRegistered (registry : Registry) : Prop :=
  ∀ d ∈ registry.defs, ∀ dep ∈ d.deps, (registry.get dep).isSome = true

theorem depsRegistered_of_validate (h : validateFixtureGraph registry = .ok ()) :
    registry.DepsRegistered :=
  fun _ hd _ hdep => get_dep_of_validate h hd hdep

/-- The walk over a graph without unregistered dependencies ends normally. -/
theorem walk_ok (h : registry.DepsRegistered) (names : List String) :
    ∃ st, registry.graph.walk (registry.walkFuel names) names = .ok st := by
  have hedge : ∀ {x y}, registry.graph.Edge x y → ∃ d ∈ registry.defs, y ∈ d.deps := by
    rintro x y ⟨d, hget, hy⟩
    exact ⟨d, (get_eq_some_iff.mp hget).1, hy⟩
  have hclosed : registry.graph.Closed
      (names ++ registry.defs.flatMap FixtureDef.deps).toFinset := by
    refine ⟨fun hxy => ?_, fun {x y} _ hxy => ?_⟩
    all_goals obtain ⟨d, hd, hy⟩ := hedge hxy
    · exact h d hd _ hy
    · exact List.mem_toFinset.mpr (List.mem_append.mpr (.inr (List.mem_flatMap.mpr ⟨d, hd, hy⟩)))
  refine Dfs.Graph.walk_ok hclosed ?_ ?_
  · exact fun root hroot => List.mem_toFinset.mpr (List.mem_append.mpr (.inl hroot))
  · refine Nat.lt_succ_of_le ((List.toFinset_card_le _).trans ?_)
    rw [List.length_append]

end Registry

/-- `walk_fixture_deps_in`: `visit` on every registered fixture reachable from
`names`, once, in pre-order.  The fault is the assertion on an unregistered
dependency. -/
def walkFixtureDepsIn {α : Type} (registry : Registry) (names : List String)
    (visit : α → FixtureDef → α) (start : α) : Except (Dfs.Fault String FixtureDef) α :=
  (registry.graph.walk (registry.walkFuel names) names).map fun st => st.order.foldl visit start

theorem walkFixtureDepsIn_of_walk {names : List String} {st : Dfs.State String FixtureDef}
    (h : registry.graph.walk (registry.walkFuel names) names = .ok st) {α : Type}
    (visit : α → FixtureDef → α) (start : α) :
    walkFixtureDepsIn registry names visit start = .ok (st.order.foldl visit start) := by
  rw [walkFixtureDepsIn, h]
  rfl

def collectFixtureRequires (registry : Registry) (names : List String) :
    Except (Dfs.Fault String FixtureDef) (List Requirement) :=
  walkFixtureDepsIn registry names (fun result d => result ++ d.requires) []

/-- Each label of `src` unless it is already there. -/
def pushUnique (dst src : List Label) : List Label :=
  src.foldl (fun dst label => if label ∈ dst then dst else dst ++ [label]) dst

def collectFixtureLabels (registry : Registry) (names : List String) :
    Except (Dfs.Fault String FixtureDef) (List Label) :=
  walkFixtureDepsIn registry names (fun result d => pushUnique result d.labels) []

/-- What any walk over an accepted graph folds over: the registered fixtures
reachable from the names. -/
theorem walkFixtureDepsIn_ok (h : registry.DepsRegistered) (names : List String) :
    ∃ order : List FixtureDef,
      (∀ d, d ∈ order ↔ ∃ name, registry.graph.Reachable names name ∧ registry.get name = some d) ∧
      ∀ {α : Type} (visit : α → FixtureDef → α) (start : α),
        walkFixtureDepsIn registry names visit start = .ok (order.foldl visit start) := by
  obtain ⟨st, hst⟩ := Registry.walk_ok h names
  exact ⟨st.order, fun d => Dfs.Graph.mem_order_walk hst, walkFixtureDepsIn_of_walk hst⟩

end Skuld
