import Skuld.Fixture.Effects

/-!
# Process fixtures are singletons

Several threads can build the same fixture at once, since setup runs outside the
lock.  One of the values is stored; the others are dropped by the calls that
built them, before anybody else has seen them.  Values are assumed not to panic
in their `Drop`: such a panic would happen under the lock and poison it.
-/

namespace Skuld

/-- The value that only the call has. -/
def FixtureCall.raw : FixtureCall → Option ℕ
  | .created _ raw | .secondLock _ raw => some raw
  | _ => none

/-- No value panics in its `Drop`. -/
def dropsReturn : ℕ → Bool :=
  fun _ => false

namespace Runtime

/-- The value is in the hands of a call of `p` that has not returned. -/
def Holds (s : Runtime) (p i : ℕ) : Prop :=
  (s.threads p).call.raw = some i

def Stored (s : Runtime) (i : ℕ) : Prop :=
  ∃ e ∈ s.store.entries, e.ptr = i

def Unreturned (s : Runtime) (i : ℕ) : Prop :=
  ∀ name, (name, i) ∉ s.returned

/-- What becomes of a value of process scope. -/
inductive Fate (s : Runtime) (i : ℕ) : Prop
  | stored (h : s.Stored i) (alive : i ∉ s.dropped)
  | destroyed (once : s.dropped.count i = 1) (outside : ¬ s.Stored i) (unreturned : s.Unreturned i)
  | held (by_one : ∃! p, s.Holds p i) (alive : i ∉ s.dropped) (outside : ¬ s.Stored i)
      (unreturned : s.Unreturned i)

structure Singletons (registry : Registry) (s : Runtime) : Prop where
  index : ∀ name i,
    s.store.index name = some i ↔ ∃ e : ProcessEntry, s.store.entries[i]? = some e ∧ e.name = name
  one_entry : (s.store.entries.map ProcessEntry.name).Nodup
  same : ∀ name i j, (name, i) ∈ s.returned → (name, j) ∈ s.returned → i = j
  fate : ∀ (i : ℕ) (c : Creation), s.created[i]? = some c → c.fixture.scope = .process → s.Fate i
  dependencies : ∀ (k : ℕ) (e : ProcessEntry), s.store.entries[k]? = some e →
    ∀ d, registry.get e.name = some d → ∀ dep ∈ d.deps,
      ∃ j < k, ∃ e' : ProcessEntry, s.store.entries[j]? = some e' ∧ e'.name = dep

/-- What the invariants of the runtime say more when no `Drop` panics. -/
structure Calm (s : Runtime) : Prop where
  unpoisoned : s.poisoned = false
  accounted : ∀ (i : ℕ) (c : Creation), s.created[i]? = some c → c.fixture.scope = .process →
    s.Stored i ∨ i ∈ s.dropped ∨ ∃ p, s.Holds p i

variable {registry : Registry} {s s' : Runtime} {p : ℕ}

theorem stored_iff {i : ℕ} : s.Stored i ↔ i ∈ s.stored.map Prod.snd := by
  simp [Stored]

/-! ## Without panics in `Drop` -/

/-- A step of `p` that creates nothing, and after which what `p` held is
accounted for. -/
theorem Calm.of_same (h : s.Calm) (hthreads : ∀ q, q ≠ p → s'.threads q = s.threads q)
    (hpoisoned : s'.poisoned = s.poisoned) (hcreated : s'.created = s.created)
    (hentries : s.store.entries ⊆ s'.store.entries) (hdropped : s.dropped ⊆ s'.dropped)
    (hheld : ∀ i, s.Holds p i → (∃ c, s.created[i]? = some c ∧ c.fixture.scope ≠ .process) ∨
      s'.Stored i ∨ i ∈ s'.dropped ∨ s'.Holds p i) :
    s'.Calm where
  unpoisoned := hpoisoned.trans h.unpoisoned
  accounted i c hc hscope := by
    rw [hcreated] at hc
    rcases h.accounted i c hc hscope with ⟨e, he, hptr⟩ | hdrop | ⟨q, hq⟩
    · exact .inl ⟨e, hentries he, hptr⟩
    · exact .inr (.inl (hdropped hdrop))
    · rcases eq_or_ne q p with rfl | hqp
      · rcases hheld i hq with ⟨c', hc', hnot⟩ | hstored | hdrop | hholds
        · obtain rfl := Option.some.inj (hc.symm.trans hc')
          exact absurd hscope hnot
        · exact .inl hstored
        · exact .inr (.inl hdrop)
        · exact .inr (.inr ⟨q, hholds⟩)
      · refine .inr (.inr ⟨q, ?_⟩)
        rw [Holds, hthreads q hqp]
        exact hq

theorem not_holds (hcall : (s.threads p).call.raw = none) {i : ℕ} : ¬ s.Holds p i := fun h => by
  rw [Holds, hcall] at h
  cases h

/-- A step of `p`, which holds no value. -/
theorem Calm.quiet (h : s.Calm) (hraw : (s.threads p).call.raw = none)
    (hthreads : ∀ q, q ≠ p → s'.threads q = s.threads q) (hpoisoned : s'.poisoned = s.poisoned)
    (hcreated : s'.created = s.created) (hentries : s.store.entries ⊆ s'.store.entries)
    (hdropped : s.dropped ⊆ s'.dropped) : s'.Calm :=
  h.of_same hthreads hpoisoned hcreated hentries hdropped fun _ hi => absurd hi (not_holds hraw)

theorem Calm.create (h : s.Calm) {d : FixtureDef} {got : List ℕ} {rest : List RunningSetup}
    (hidle : (s.threads p).call = .idle) : (s.create p d got rest).Calm where
  unpoisoned := h.unpoisoned
  accounted i c hc hscope := by
    rcases getElem?_concat_eq_some.mp hc with hold | ⟨rfl, -⟩
    · rcases h.accounted i c hold hscope with hstored | hdrop | ⟨q, hq⟩
      · exact .inl hstored
      · exact .inr (.inl hdrop)
      · have hqp : q ≠ p := fun heq => not_holds (by rw [heq, hidle]; rfl) hq
        refine .inr (.inr ⟨q, ?_⟩)
        rw [Holds, show (s.create p d got rest).threads q = s.threads q from
          Function.update_of_ne hqp _ _]
        exact hq
    · exact .inr (.inr ⟨p, by simp [Holds, Runtime.create, setThread, FixtureCall.raw]⟩)

theorem Calm.of_effect (h : s.Calm) (hinv : s.Inv registry) (hlock : s.LockOk)
    (heffect : Effect registry dropsReturn s p s') : s'.Calm := by
  have hcallOk := (hinv.threads p).call
  -- a value of another scope need not be accounted for
  have hother {d : FixtureDef} {raw : ℕ} (hcall : (s.threads p).call = .created d raw)
      (hscope : d.scope ≠ .process) {i : ℕ} (hi : s.Holds p i) :
      ∃ c, s.created[i]? = some c ∧ c.fixture.scope ≠ .process := by
    rw [hcall] at hcallOk
    obtain ⟨-, -, c, hc⟩ := hcallOk
    obtain rfl : raw = i := by simpa [Holds, hcall, FixtureCall.raw] using hi
    exact ⟨c, hc.made, by rwa [hc.fixture]⟩
  cases heffect with
  | stay => exact h
  | unwind hcall =>
      have hne : s.lock ≠ some p := by
        rcases hcall with hcall | ⟨d, ptr, hcall⟩ <;> exact hlock.ne (by rw [hcall]; rfl)
      refine h.quiet ?_ setThread_others (by simp [Runtime.unwind, hne]) rfl (List.Subset.refl _)
        (List.Subset.refl _)
      rcases hcall with hcall | ⟨d, ptr, hcall⟩ <;> rw [hcall] <;> rfl
  | poisoned hpoisoned => exact absurd h.unpoisoned (by simp [hpoisoned])
  | lookup hcall | lockFirst hcall | runSetup hcall | miss hcall | cached hcall | hit hcall
  | give hcall | enter hcall =>
      exact h.quiet (by rw [hcall]; rfl) setThread_others rfl rfl
        (List.Subset.refl _) (List.Subset.refl _)
  | lockSecond hcall =>
      refine h.of_same setThread_others rfl rfl (List.Subset.refl _) (List.Subset.refl _)
        fun i hi => .inr (.inr (.inr ?_))
      rw [Holds, hcall] at hi
      simpa [Holds, goto, setThread, FixtureCall.raw] using hi
  | create hidle => exact h.create hidle
  | handOut hcall hscope =>
      exact h.of_same setThread_others rfl rfl (List.Subset.refl _) (List.Subset.refl _)
        fun i hi => .inl (hother hcall (by simp [hscope]) hi)
  | keepTest hcall hscope =>
      refine h.of_same (fun q hq => ?_) rfl rfl (List.Subset.refl _) (List.Subset.refl _)
        fun i hi => .inl (hother hcall (by simp [hscope]) hi)
      simp [Runtime.ensured, goto, pushTest, setThread, hq]
  | keepProcess hcall =>
      refine h.of_same setThread_others rfl rfl (List.subset_append_left _ _) (List.Subset.refl _)
        fun i hi => .inr (.inl ⟨_, List.mem_append_right _ List.mem_cons_self, ?_⟩)
      simpa [Holds, hcall, FixtureCall.raw] using hi
  | @lose d raw e hcall =>
      refine h.of_same setThread_others rfl rfl (List.Subset.refl _) (List.subset_append_left _ _)
        fun i hi => .inr (.inr (.inl ?_))
      obtain rfl : raw = i := by simpa [Holds, hcall, FixtureCall.raw] using hi
      exact List.mem_append_right _ List.mem_cons_self
  | losePanics hcall hpanics => cases hpanics
  | leave hcall =>
      exact h.quiet (by rw [hcall]; rfl) setThread_others rfl rfl (List.Subset.refl _)
        (List.subset_append_left _ _)

theorem calm_start : start.Calm where
  unpoisoned := rfl
  accounted i c hc := by simp [start] at hc

theorem calm_inductive (registry : Registry) :
    (machine registry dropsReturn).Inductive (fun _ _ => True)
      fun s => (s.Inv registry ∧ s.LockOk) ∧ s.Calm where
  init {s} hinit := by
    refine ⟨(inv_inductive registry dropsReturn).init hinit, ?_⟩
    rw [hinit]
    exact calm_start
  step {s e s'} h hok hstep :=
    ⟨(inv_inductive registry dropsReturn).step h.1 hok hstep,
      h.2.of_effect h.1.1 h.1.2 (effect_of_step (a := e.2) h.1.1 hstep)⟩

/-! ## The entries are never replaced or removed -/

theorem entries_prefix_of_effect {panics : ℕ → Bool} (heffect : Effect registry panics s p s') :
    s.store.entries <+: s'.store.entries := by
  cases heffect with
  | keepProcess => exact List.prefix_append _ _
  | _ => exact List.prefix_refl _

theorem entries_prefix_of_run {panics : ℕ → Bool} {events : List (ℕ × RuntimeAction)}
    (h : s.Inv registry) (hrun : (machine registry panics).run s events = some s') :
    s.store.entries <+: s'.store.entries := by
  induction events generalizing s with
  | nil =>
      rw [Machine.run, Option.some.injEq] at hrun
      rw [hrun]
  | cons e events ih =>
      rw [Machine.run, Option.bind_eq_some_iff] at hrun
      obtain ⟨middle, hstep, hrun⟩ := hrun
      have heffect := effect_of_step (a := e.2) h hstep
      exact (entries_prefix_of_effect heffect).trans (ih (h.of_effect heffect) hrun)

/-! ## What becomes of a value -/

theorem Inv.stored_of_returned (h : s.Inv registry) {name : String} {i : ℕ}
    (hreturned : (name, i) ∈ s.returned) : s.Stored i :=
  stored_iff.mpr (List.mem_map_of_mem (h.store.returned _ hreturned))

theorem Inv.alive_of_stored (h : s.Inv registry) {i : ℕ} (hi : s.Stored i) : i ∉ s.dropped := by
  obtain ⟨e, he, rfl⟩ := List.mem_map.mp (stored_iff.mp hi)
  exact h.store.cache.live e he

/-- A value in the hands of a call is nowhere else. -/
theorem Inv.fresh_of_holds (h : s.Inv registry) {i : ℕ} (hi : s.Holds p i) :
    ∃ d c, s.Fresh p (s.threads p) d i c := by
  have hcallOk := (h.threads p).call
  unfold Holds at hi
  cases hcall : (s.threads p).call with
  | created d raw =>
      rw [hcall] at hi hcallOk
      obtain ⟨-, -, c, hc⟩ := hcallOk
      exact ⟨d, c, Option.some.inj hi ▸ hc⟩
  | secondLock d raw =>
      rw [hcall] at hi hcallOk
      obtain ⟨-, -, -, c, hc⟩ := hcallOk
      exact ⟨d, c, Option.some.inj hi ▸ hc⟩
  | _ =>
      rw [hcall] at hi
      cases hi

theorem Inv.holds_unique (h : s.Inv registry) {i q : ℕ} (hp : s.Holds p i) (hq : s.Holds q i) :
    q = p := by
  obtain ⟨d, c, hc⟩ := h.fresh_of_holds hp
  obtain ⟨d', c', hc'⟩ := h.fresh_of_holds hq
  obtain rfl := Option.some.inj (hc.made.symm.trans hc'.made)
  exact hc'.thread.symm.trans hc.thread

theorem fate_of_calm (h : s.Inv registry) (hcalm : s.Calm) {i : ℕ} {c : Creation}
    (hc : s.created[i]? = some c) (hscope : c.fixture.scope = .process) : s.Fate i := by
  rcases hcalm.accounted i c hc hscope with hstored | hdropped | ⟨p, hp⟩
  · exact .stored hstored (h.alive_of_stored hstored)
  · have houtside : ¬ s.Stored i := fun hstored => h.alive_of_stored hstored hdropped
    exact .destroyed (List.count_eq_one_of_mem h.dropped_nodup hdropped) houtside
      fun name hreturned => houtside (h.stored_of_returned hreturned)
  · obtain ⟨d, c', hfresh⟩ := h.fresh_of_holds hp
    have houtside : ¬ s.Stored i := fun hstored => hfresh.not_stored (stored_iff.mp hstored)
    exact .held ⟨p, hp, fun q hq => h.holds_unique hp hq⟩ hfresh.not_dropped houtside
      fun name hreturned => houtside (h.stored_of_returned hreturned)

/-! ## The order of the store -/

/-- An accepted process fixture depends on process fixtures only. -/
theorem scope_of_dep (hvalid : validateFixtureGraph registry = .ok ()) {d dep : FixtureDef}
    (hd : registry.get d.name = some d) (hscope : d.scope = .process)
    (hdep : registry.get dep.name = some dep) (hmem : dep.name ∈ d.deps) :
    dep.scope = .process := by
  have hcheck := checkDep_of_validate hvalid (Registry.get_eq_some_iff.mp hd).1 hmem
  unfold checkDep at hcheck
  rw [hdep] at hcheck
  simp only [hscope] at hcheck
  split_ifs at hcheck with hnarrow
  cases hdepScope : dep.scope with
  | process => rfl
  | test => simp [hdepScope, FixtureScope.rank] at hnarrow
  | «variable» => simp [hdepScope, FixtureScope.rank] at hnarrow

theorem Inv.dependency_before (h : s.Inv registry)
    (hvalid : validateFixtureGraph registry = .ok ()) {k : ℕ} {e : ProcessEntry}
    (hk : s.store.entries[k]? = some e) {d : FixtureDef} (hd : registry.get e.name = some d)
    {dep : String} (hdep : dep ∈ d.deps) :
    ∃ j < k, ∃ e' : ProcessEntry, s.store.entries[j]? = some e' ∧ e'.name = dep := by
  have hmem : (e.name, e.ptr) ∈ s.stored :=
    List.mem_map.mpr ⟨e, List.mem_of_getElem? hk, rfl⟩
  obtain ⟨c, hc, hget, hscope, -⟩ := h.store.cache.made _ hmem
  obtain rfl : d = c.fixture := Option.some.inj (hd.symm.trans hget)
  have hcreation := h.created _ c hc
  -- the value of the dependency that the setup was given
  obtain ⟨g, hg, c', hc', rfl⟩ := hcreation.deps dep hdep
  have hprocess : c'.fixture.scope = .process :=
    scope_of_dep hvalid hcreation.registered hscope (h.created g c' hc').registered hdep
  obtain ⟨j, hj, hjg⟩ := h.store.cache.ordered k e.ptr c c' (by simp [hk]) hc g hg hc' hprocess
  obtain ⟨e', he', rfl⟩ : ∃ e', s.store.entries[j]? = some e' ∧ e'.ptr = g := by
    simpa [List.getElem?_map, Option.map_eq_some_iff] using hjg
  refine ⟨j, hj, e', he', ?_⟩
  obtain ⟨c₀, hc₀, hget', -⟩ := h.store.cache.made (e'.name, e'.ptr)
    (List.mem_map.mpr ⟨e', List.mem_of_getElem? he', rfl⟩)
  obtain rfl := Option.some.inj (hc₀.symm.trans hc')
  exact ((Registry.get_eq_some_iff.mp hget').2).symm

/-- Two positions of one name are one position. -/
theorem StoreOk.position_unique (h : s.StoreOk registry) {j k : ℕ} {name : String}
    (hj : (s.stored.map Prod.fst)[j]? = some name) (hk : (s.stored.map Prod.fst)[k]? = some name) :
    j = k :=
  Option.some.inj (((h.index name j).mpr hj).symm.trans ((h.index name k).mpr hk))

theorem StoreOk.names_nodup (h : s.StoreOk registry) : (s.stored.map Prod.fst).Nodup := by
  refine List.nodup_iff_injective_getElem.mpr fun j k heq => Fin.ext ?_
  exact h.position_unique (List.getElem?_eq_getElem j.isLt)
    ((List.getElem?_eq_getElem k.isLt).trans (congrArg some heq.symm))

theorem StoreOk.eq_of_name_eq (h : s.StoreOk registry) {a b : String × ℕ} (ha : a ∈ s.stored)
    (hb : b ∈ s.stored) (hname : a.1 = b.1) : a = b :=
  List.inj_on_of_nodup_map h.names_nodup ha hb hname

theorem singletons_of_calm (hvalid : validateFixtureGraph registry = .ok ()) (h : s.Inv registry)
    (hcalm : s.Calm) : Singletons registry s where
  index name i := by
    rw [h.store.index]
    simp
  one_entry := by
    have hnodup := h.store.names_nodup
    rwa [List.map_map] at hnodup
  same name i j hi hj :=
    congrArg Prod.snd (h.store.eq_of_name_eq (h.store.returned _ hi) (h.store.returned _ hj) rfl)
  fate i c hc hscope := fate_of_calm h hcalm hc hscope
  dependencies k e hk d hd dep hdep := h.dependency_before hvalid hk hd hdep

/-! ## The cleanup -/

/-- Every value before the values of the fixtures that its own depends on. -/
def DependentsFirst (registry : Registry) (s : Runtime) (order : List ℕ) : Prop :=
  ∀ e ∈ s.store.entries, ∀ e' ∈ s.store.entries, ∀ d, registry.get e.name = some d →
    e'.name ∈ d.deps → [e.ptr, e'.ptr].Sublist order

theorem pair_sublist {α : Type} {l : List α} {j k : ℕ} {x y : α} (hj : l[j]? = some x)
    (hk : l[k]? = some y) (hjk : j < k) : [x, y].Sublist l := by
  have hx : [x].Sublist (l.take k) := by
    refine List.singleton_sublist.mpr (List.mem_of_getElem? (i := j) ?_)
    rw [List.getElem?_take_of_lt hjk, hj]
  have hy : [y].Sublist (l.drop k) := by
    refine List.singleton_sublist.mpr (List.mem_of_getElem? (i := 0) ?_)
    rw [List.getElem?_drop, Nat.add_zero, hk]
  have := hx.append hy
  rwa [List.take_append_drop] at this

theorem dependentsFirst_of_singletons (h : Singletons registry s) :
    DependentsFirst registry s (s.store.entries.map ProcessEntry.ptr).reverse := by
  intro e he e' he' d hd hdep
  obtain ⟨k, hk⟩ := List.mem_iff_getElem?.mp he
  obtain ⟨j, hj, e'', hj', hname⟩ := h.dependencies k e hk d hd _ hdep
  obtain rfl : e'' = e' :=
    List.inj_on_of_nodup_map h.one_entry (List.mem_of_getElem? hj') he' hname
  refine List.sublist_reverse_iff.mpr ?_
  exact pair_sublist (j := j) (k := k) (by simp [hj']) (by simp [hk]) hj

theorem dropped_of_cleanup (hcalm : s.Calm)
    (h : cleanupProcessFixtures dropsReturn s = some s') :
    s'.dropped = s.dropped ++ (s.store.entries.map ProcessEntry.ptr).reverse := by
  rcases cleanupProcessFixtures_eq_some h with ⟨hpoisoned, -⟩ | ⟨-, -, hdropped⟩
  · rw [hcalm.unpoisoned] at hpoisoned
    cases hpoisoned
  · have hpop : popEntries dropsReturn s =
        { dropped := s.store.entries.reverse, left := [], panicked := false } :=
      popLoop_of_safe fun _ _ => rfl
    rw [hdropped, hpop, List.map_reverse]

theorem process_fixtures_are_singletons (hvalid : validateFixtureGraph registry = .ok ())
    (hs : (machine registry dropsReturn).Reached s) :
    Singletons registry s ∧
      (∀ events s', (machine registry dropsReturn).run s events = some s' →
        s.store.entries <+: s'.store.entries) ∧
      ∀ s', cleanupProcessFixtures dropsReturn s = some s' →
        ∃ order, s'.dropped = s.dropped ++ order ∧ DependentsFirst registry s order := by
  obtain ⟨⟨hinv, -⟩, hcalm⟩ := (calm_inductive registry).reached hs
  have hsingletons := singletons_of_calm hvalid hinv hcalm
  refine ⟨hsingletons, fun events s' hrun => entries_prefix_of_run hinv hrun, fun s' hcleanup => ?_⟩
  exact ⟨_, dropped_of_cleanup hcalm hcleanup, dependentsFirst_of_singletons hsingletons⟩

/-! ### A race for a fixture and its dependency -/

/-- A fixture without anything but its dependencies. -/
def bareFixture (name : String) (scope : FixtureScope) (deps : List String) : FixtureDef where
  name := name
  scope := scope
  requires := []
  deps := deps
  labels := []
  typeName := name
  serial := ""

/-- A connection pool for an engine. -/
def poolRegistry : Registry where
  defs := [bareFixture "engine" .process [], bareFixture "pool" .process ["engine"]]
  nodup := by decide

/-- Both threads build the engine and the pool; each wins one of the races. -/
def poolRace : List (ℕ × RuntimeAction) :=
  [(0, .request .warmUp "pool"), (1, .request .fixtureGet "pool"), (0, .advance), (0, .advance),
    (1, .advance), (1, .advance), (0, .advance), (0, .advance), (0, .advance), (1, .advance),
    (1, .advance), (1, .advance), (0, .setupEnds true), (1, .setupEnds true), (1, .advance),
    (1, .advance), (0, .advance), (0, .advance), (0, .castEnds true), (0, .setupEnds true),
    (1, .castEnds true), (1, .setupEnds true), (0, .advance), (0, .advance), (1, .advance),
    (1, .advance)]

theorem process_fixtures_are_singletons_race :
    ∃ s, (machine poolRegistry dropsReturn).Reached s ∧ s.stored = [("engine", 1), ("pool", 2)] ∧
      s.dropped = [0, 3] ∧ Singletons poolRegistry s := by
  obtain ⟨s, hrun, hstored, hdropped⟩ :
      ∃ s, (machine poolRegistry dropsReturn).run start poolRace = some s ∧
        s.stored = [("engine", 1), ("pool", 2)] ∧ s.dropped = [0, 3] := ⟨_, rfl, rfl, rfl⟩
  have hs := Machine.Reached.of_run (.init rfl) hrun
  exact ⟨s, hs, hstored, hdropped, (process_fixtures_are_singletons (by rfl) hs).1⟩

/-- Between its setup and its second lookup a call has a value that is neither
stored nor dropped. -/
theorem process_fixtures_are_singletons_held :
    ¬ ∀ registry, validateFixtureGraph registry = .ok () →
      ∀ s, (machine registry dropsReturn).Reached s →
        ∀ (i : ℕ) (c : Creation), s.created[i]? = some c → c.fixture.scope = .process →
          s.Stored i ∨ s.dropped.count i = 1 ∧ s.Unreturned i := by
  intro h
  obtain ⟨s, hrun, ⟨c, hc, hscope⟩, hentries, hdropped⟩ :
      ∃ s, (machine poolRegistry dropsReturn).run start
          [(0, .request .warmUp "engine"), (0, .advance), (0, .advance), (0, .setupEnds true)] =
            some s ∧ (∃ c, s.created[0]? = some c ∧ c.fixture.scope = .process) ∧
          s.store.entries = [] ∧ s.dropped = [] := ⟨_, rfl, ⟨_, rfl, rfl⟩, rfl, rfl⟩
  have hs := Machine.Reached.of_run (.init rfl) hrun
  rcases h poolRegistry (by rfl) s hs 0 c hc hscope with ⟨e, he, -⟩ | ⟨hcount, -⟩
  · rw [hentries] at he
    cases he
  · rw [hdropped] at hcount
    cases hcount

end Runtime

end Skuld
