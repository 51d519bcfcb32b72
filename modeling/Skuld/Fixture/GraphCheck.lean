import Skuld.Fixture.Registry

/-!
# The graphs that the startup check accepts

`validateFixtureGraph` accepts the registries whose dependencies are registered,
never narrower than what depends on them, and free of cycles, in whatever order
the map iterates.

The cycle search is sound because the names it has finished are closed under
dependencies and lie on no cycle (`Dfs.Graph.Finished`), which survives from one
finished name to the next.  It is complete because every name on the current
path leads to the name that is searched: meeting one of them again closes a
cycle.
-/

namespace Skuld

open Relation

/-- No fixture depends on one of narrower scope. -/
def Registry.ScopesWiden (registry : Registry) : Prop :=
  ∀ d ∈ registry.defs, ∀ name ∈ d.deps, ∀ dep, registry.get name = some dep →
    d.scope.rank ≤ dep.scope.rank

def Registry.Acyclic (registry : Registry) : Prop :=
  ∀ name, ¬ TransGen registry.graph.Edge name name

variable {registry : Registry}

theorem mem_deps_iff_edge {name dep : String} :
    dep ∈ (registry.get name).elim [] FixtureDef.deps ↔ registry.graph.Edge name dep := by
  change _ ↔ ∃ node, registry.get name = some node ∧ dep ∈ node.deps
  cases registry.get name with
  | none => simp
  | some d => simp

/-! ## The cycle search -/

/-- The finished names stay finished, and the searched name joins them. -/
theorem finished_detectCycle {fuel : ℕ} {s s' : CycleSearch} {name : String}
    (h : detectCycle registry fuel s name = .ok s') (hs : registry.graph.Finished s.visited) :
    registry.graph.Finished s'.visited ∧ name ∈ s'.visited ∧
      ∀ x ∈ s.visited, x ∈ s'.visited := by
  induction fuel generalizing s s' name with
  | zero => simp [detectCycle] at h
  | succ fuel ih =>
      by_cases hvisited : name ∈ s.visited
      · rw [detectCycle, if_pos hvisited, Except.ok.injEq] at h
        subst h
        exact ⟨hs, hvisited, fun _ hx => hx⟩
      by_cases hvisiting : name ∈ s.visiting
      · rw [detectCycle, if_neg hvisited, if_pos hvisiting] at h
        cases h
      · rw [detectCycle_succ hvisited hvisiting] at h
        cases hfold : ((registry.get name).elim [] FixtureDef.deps).foldlM
            (detectCycle registry fuel) { s with visiting := name :: s.visiting } with
        | error panic => simp [hfold, Except.map] at h
        | ok middle =>
            simp only [hfold, Except.map, Except.ok.injEq] at h
            -- after the loop every dependency is finished
            obtain ⟨hfinished, hdeps, hsub⟩ := Loop.foldlM_forall
              (P := fun s => registry.graph.Finished s.visited) (Q := fun x s => x ∈ s.visited)
              (fun hs hstep => ih hstep hs) hs hfold
            subst h
            refine ⟨hfinished.cons fun y hedge => hdeps y (mem_deps_iff_edge.mpr hedge),
              List.mem_cons_self, fun x hx => List.mem_cons_of_mem _ (hsub x hx)⟩

/-- Without a cycle the search fails for want of fuel only. -/
theorem detectCycle_ne_error {fuel : ℕ} {s : CycleSearch} {name : String} {panic : RegistryPanic}
    (hacyclic : registry.Acyclic) (hpath : ∀ x ∈ s.visiting, TransGen registry.graph.Edge x name)
    (hpanic : panic ≠ .fuel) : detectCycle registry fuel s name ≠ .error panic := by
  induction fuel generalizing s name with
  | zero =>
      intro h
      rw [detectCycle, Except.error.injEq] at h
      exact hpanic h.symm
  | succ fuel ih =>
      by_cases hvisited : name ∈ s.visited
      · simp [detectCycle, hvisited]
      have hvisiting : name ∉ s.visiting := fun hmem => hacyclic name (hpath name hmem)
      rw [detectCycle_succ hvisited hvisiting]
      refine Loop.map_ne_error ?_
      apply Loop.foldlM_ne_error (P := fun s' => s'.visiting = name :: s.visiting)
      · exact fun _ hs hstep => (detectCycle_visiting hstep).trans hs
      · intro s' dep hdep hs'
        have hedge : registry.graph.Edge name dep := mem_deps_iff_edge.mp hdep
        apply ih
        intro x hx
        rw [hs'] at hx
        rcases List.mem_cons.mp hx with rfl | hx
        exacts [.single hedge, (hpath x hx).tail hedge]
      · rfl

/-! ## The verdict -/

theorem checkDep_eq_ok_iff {d : FixtureDef} {name : String} :
    checkDep registry d name = .ok () ↔
      ∃ dep, registry.get name = some dep ∧ d.scope.rank ≤ dep.scope.rank := by
  unfold checkDep
  cases registry.get name with
  | none => simp
  | some dep => simp

/-- The first loop. -/
theorem checkDep_ok_iff :
    (∀ d ∈ registry.defs, ∀ dep ∈ d.deps, checkDep registry d dep = .ok ()) ↔
      registry.DepsRegistered ∧ registry.ScopesWiden := by
  simp only [checkDep_eq_ok_iff]
  constructor
  · intro h
    refine ⟨fun d hd name hname => ?_, fun d hd name hname dep hget => ?_⟩
    · obtain ⟨dep, hget, -⟩ := h d hd name hname
      rw [hget, Option.isSome_some]
    · obtain ⟨dep', hget', hrank⟩ := h d hd name hname
      obtain rfl : dep' = dep := Option.some.inj (hget'.symm.trans hget)
      exact hrank
  · rintro ⟨hregistered, hwiden⟩ d hd name hname
    obtain ⟨dep, hget⟩ := Option.isSome_iff_exists.mp (hregistered d hd name hname)
    exact ⟨dep, hget, hwiden d hd name hname dep hget⟩

/-- The second loop. -/
theorem detectCycle_ok_iff :
    (∀ d ∈ registry.defs, ∃ s, detectCycle registry (cycleFuel registry)
      { visiting := [], visited := [] } d.name = .ok s) ↔ registry.Acyclic := by
  constructor
  · intro h name hcycle
    -- a name on a cycle has an edge, so it is registered
    obtain ⟨y, ⟨d, hget, -⟩, -⟩ := TransGen.head'_iff.mp hcycle
    obtain ⟨hd, rfl⟩ := Registry.get_eq_some_iff.mp hget
    obtain ⟨s, hs⟩ := h d hd
    obtain ⟨hfinished, hname, -⟩ := finished_detectCycle hs .nil
    exact hfinished.acyclic d.name hname hcycle
  · intro hacyclic d hd
    cases hsearch : detectCycle registry (cycleFuel registry)
        { visiting := [], visited := [] } d.name with
    | ok s => exact ⟨s, rfl⟩
    | error panic =>
        by_cases hpanic : panic = .fuel
        · subst hpanic
          exact absurd hsearch (detectCycle_cycleFuel_ne_fuel d)
        · exact absurd hsearch (detectCycle_ne_error hacyclic (by simp) hpanic)

theorem Registry.acyclic_of_validate (h : validateFixtureGraph registry = .ok ()) :
    registry.Acyclic :=
  detectCycle_ok_iff.mp (validateFixtureGraph_eq_ok_iff.mp h).2

/-- Along a dependency path the scope never narrows. -/
theorem Registry.ScopesWiden.of_path (h : registry.ScopesWiden) {x y : String} {d d' : FixtureDef}
    (hpath : ReflTransGen registry.graph.Edge x y) (hd : registry.get x = some d)
    (hd' : registry.get y = some d') : d.scope.rank ≤ d'.scope.rank := by
  induction hpath generalizing d' with
  | refl =>
      obtain rfl : d = d' := Option.some.inj (hd.symm.trans hd')
      exact le_rfl
  | tail _ hedge ih =>
      obtain ⟨middle, hmiddle, hdep⟩ := hedge
      have hmem := (Registry.get_eq_some_iff.mp hmiddle).1
      exact (ih hmiddle).trans (h middle hmem _ hdep d' hd')

theorem Registry.get_perm {registry' : Registry} (hperm : registry.defs.Perm registry'.defs) :
    registry'.get = registry.get := by
  funext name
  apply Option.ext
  intro d
  rw [Registry.get_eq_some_iff, Registry.get_eq_some_iff, hperm.mem_iff]

/-- The check accepts exactly the graphs with registered dependencies, no
narrower one and no cycle, in every order of the map; it ends on all of them. -/
theorem validateFixtureGraph_ok_iff (registry : Registry) :
    validateFixtureGraph registry ≠ .error .fuel ∧
    (validateFixtureGraph registry = .ok () ↔
      registry.DepsRegistered ∧ registry.ScopesWiden ∧ registry.Acyclic) ∧
    (∀ registry' : Registry, registry.defs.Perm registry'.defs →
      (validateFixtureGraph registry' = .ok () ↔ validateFixtureGraph registry = .ok ())) ∧
    (validateFixtureGraph registry = .ok () → ∀ x y d d',
      ReflTransGen registry.graph.Edge x y → registry.get x = some d → registry.get y = some d' →
        d.scope.rank ≤ d'.scope.rank) := by
  have hiff : ∀ registry : Registry, validateFixtureGraph registry = .ok () ↔
      registry.DepsRegistered ∧ registry.ScopesWiden ∧ registry.Acyclic := fun registry => by
    rw [validateFixtureGraph_eq_ok_iff, checkDep_ok_iff, detectCycle_ok_iff, and_assoc]
  refine ⟨validateFixtureGraph_ne_fuel registry, hiff registry, fun registry' hperm => ?_,
    fun hvalid x y d d' hpath hd hd' => ((hiff registry).mp hvalid).2.1.of_path hpath hd hd'⟩
  have hget := Registry.get_perm hperm
  rw [hiff, hiff]
  unfold Registry.DepsRegistered Registry.ScopesWiden Registry.Acyclic Registry.graph
  simp only [hget, hperm.mem_iff]

/-- Two fixtures that share a dependency of wider scope. -/
def diamondRegistry : Registry where
  defs :=
    [{ name := "top", scope := .variable, requires := [], deps := ["left", "right", "left"],
       labels := [], typeName := "Top", serial := "" },
     { name := "left", scope := .variable, requires := [], deps := ["base"], labels := [],
       typeName := "Left", serial := "" },
     { name := "right", scope := .test, requires := [], deps := ["base"], labels := [],
       typeName := "Right", serial := "" },
     { name := "base", scope := .process, requires := [], deps := [], labels := [],
       typeName := "Base", serial := "" }]
  nodup := by decide

theorem validateFixtureGraph_ok_iff_diamond :
    diamondRegistry.Acyclic ∧ diamondRegistry.ScopesWiden := by
  obtain ⟨-, hiff, -⟩ := validateFixtureGraph_ok_iff diamondRegistry
  obtain ⟨-, hwiden, hacyclic⟩ := hiff.mp rfl
  exact ⟨hacyclic, hwiden⟩

end Skuld
