import Mathlib.Data.List.Infix
import Mathlib.Data.List.Nodup
import Skuld.Fixture.Runtime

/-!
# Who owns a fixture value

A value has one owner at a time: the call whose setup has returned it, then the
store or the list of the thread.  `Inv` says so for every reachable state of the
runtime, with the order of the two lists: a value comes after the values that
its setup was given.
-/

namespace Skuld

abbrev TestThread.cached (t : TestThread) : List (String × ℕ) :=
  t.testFixtures.map fun e => (e.name, e.ptr)

namespace Runtime

abbrev stored (s : Runtime) : List (String × ℕ) :=
  s.store.entries.map fun e => (e.name, e.ptr)

/-! ## The invariant -/

/-- A value comes after the values of the given scope that its setup was given. -/
def Ordered (s : Runtime) (scope : FixtureScope) (ptrs : List ℕ) : Prop :=
  ∀ (k i : ℕ) (c c' : Creation), ptrs[k]? = some i → s.created[i]? = some c → ∀ g ∈ c.got,
    s.created[g]? = some c' → c'.fixture.scope = scope → ∃ j < k, ptrs[j]? = some g

/-- A list of named values, all of one scope and alive. -/
structure Cache (registry : Registry) (s : Runtime) (scope : FixtureScope) (owned : Creation → Prop)
    (entries : List (String × ℕ)) : Prop where
  made : ∀ e ∈ entries, ∃ c, s.created[e.2]? = some c ∧ registry.get e.1 = some c.fixture ∧
    c.fixture.scope = scope ∧ owned c
  nodup : (entries.map Prod.snd).Nodup
  live : ∀ e ∈ entries, e.2 ∉ s.dropped
  ordered : s.Ordered scope (entries.map Prod.snd)

/-- What holds of every value that has been created. -/
structure CreationOk (registry : Registry) (s : Runtime) (i : ℕ) (c : Creation) : Prop where
  registered : registry.get c.fixture.name = some c.fixture
  got_lt : ∀ g ∈ c.got, g < i
  deps : ∀ dep ∈ c.fixture.deps, ∃ g ∈ c.got, ∃ c',
    s.created[g]? = some c' ∧ c'.fixture.name = dep

/-- The value was created, and it is where the values of its scope are kept. -/
def Kept (s : Runtime) (t : TestThread) (g : ℕ) : Prop :=
  ∃ c, s.created[g]? = some c ∧
    (c.fixture.scope = .process → g ∈ s.stored.map Prod.snd) ∧
    (c.fixture.scope = .test → g ∈ t.cached.map Prod.snd)

/-- The fixture is a registered one that the thread may request. -/
def Requested (registry : Registry) (t : TestThread) (d : FixtureDef) : Prop :=
  registry.get d.name = some d ∧ (d.scope ≠ .process → t.currentTest ≠ none)

structure SetupOk (registry : Registry) (s : Runtime) (t : TestThread) (f : RunningSetup) :
    Prop where
  requested : Requested registry t f.fixture
  deps : ∃ done, f.fixture.deps = done ++ f.deps ∧ ∀ dep ∈ done, ∃ g ∈ f.got, ∃ c,
    s.created[g]? = some c ∧ c.fixture.name = dep
  got : ∀ g ∈ f.got, s.Kept t g

/-- A call for the fixture is the one that the innermost setup is waiting for. -/
def Serves (name : String) (setups : List RunningSetup) : Prop :=
  ∀ f ∈ setups.head?, ∀ dep ∈ f.deps.head?, name = dep

def Nested : List RunningSetup → Prop
  | [] => True
  | f :: rest => Serves f.fixture.name rest ∧ Nested rest

/-- Only the call has the value. -/
structure Fresh (s : Runtime) (p : ℕ) (t : TestThread) (d : FixtureDef) (raw : ℕ) (c : Creation) :
    Prop where
  made : s.created[raw]? = some c
  fixture : c.fixture = d
  thread : c.thread = p
  scope : c.scope = t.scopes
  not_dropped : raw ∉ s.dropped
  not_stored : raw ∉ s.stored.map Prod.snd
  not_cached : raw ∉ t.cached.map Prod.snd
  got : ∀ g ∈ c.got, s.Kept t g

def CallOk (registry : Registry) (s : Runtime) (p : ℕ) (t : TestThread) : FixtureCall → Prop
  | .idle => True
  | .lookup d | .firstLock d => Requested registry t d ∧ Serves d.name t.setups
  | .created d raw =>
      Requested registry t d ∧ Serves d.name t.setups ∧ ∃ c, s.Fresh p t d raw c
  | .secondLock d raw =>
      Requested registry t d ∧ Serves d.name t.setups ∧ d.scope = .process ∧
        ∃ c, s.Fresh p t d raw c
  | .cast d ptr =>
      Serves d.name t.setups ∧ s.Kept t ptr ∧ ∃ c, s.created[ptr]? = some c ∧ c.fixture = d

/-- The value was created for a test-scoped fixture in the current scope of the
thread. -/
def CreatedIn (s : Runtime) (p : ℕ) (t : TestThread) (i : ℕ) : Prop :=
  ∃ c, s.created[i]? = some c ∧ c.fixture.scope = .test ∧ c.thread = p ∧ c.scope = t.scopes

structure ThreadOk (registry : Registry) (s : Runtime) (p : ℕ) (t : TestThread) : Prop where
  cache : s.Cache registry .test (fun c => c.thread = p ∧ c.scope = t.scopes) t.cached
  setups : ∀ f ∈ t.setups, s.SetupOk registry t f
  nested : Nested t.setups
  call : s.CallOk registry p t t.call
  outside : t.currentTest = none → t.testFixtures = []
  inside : t.inScope = true → t.currentTest ≠ none
  complete : t.inScope = true → ∀ i, s.CreatedIn p t i →
    i ∈ t.cached.map Prod.snd ∨ ∃ d, t.call = .created d i
  scopes : ∀ (i : ℕ) (c : Creation), s.created[i]? = some c → c.thread = p → c.scope ≤ t.scopes

structure StoreOk (registry : Registry) (s : Runtime) : Prop where
  cache : s.Cache registry .process (fun _ => True) s.stored
  index : ∀ name i, s.store.index name = some i ↔ (s.stored.map Prod.fst)[i]? = some name
  returned : ∀ r ∈ s.returned, r ∈ s.stored

structure Inv (registry : Registry) (s : Runtime) : Prop where
  store : s.StoreOk registry
  created : ∀ i c, s.created[i]? = some c → s.CreationOk registry i c
  threads : ∀ p, s.ThreadOk registry p (s.threads p)
  dropped_nodup : s.dropped.Nodup
  dropped_made : ∀ i ∈ s.dropped, i < s.created.length

/-! ## What stays true while the runtime grows -/

variable {registry : Registry} {s s' : Runtime} {p q : ℕ} {t t' : TestThread} {d : FixtureDef}

theorem getElem?_concat_eq_some {α : Type} {l : List α} {x y : α} {i : ℕ} :
    (l ++ [x])[i]? = some y ↔ l[i]? = some y ∨ i = l.length ∧ y = x := by
  rcases lt_trichotomy i l.length with hlt | rfl | hgt
  · simp [List.getElem?_append_left hlt, hlt.ne]
  · simp [eq_comm]
  · have hout : (l ++ [x]).length ≤ i := by
      rw [List.length_append, List.length_singleton]
      exact hgt
    simp [List.getElem?_eq_none hout, List.getElem?_eq_none hgt.le, hgt.ne']

theorem created_mono (h : s.created <+: s'.created) {i : ℕ} {c : Creation}
    (hi : s.created[i]? = some c) : s'.created[i]? = some c := by
  obtain ⟨added, hadded⟩ := h
  rw [← hadded, List.getElem?_append_left (List.getElem?_eq_some_iff.mp hi).1, hi]

theorem created_of_lt (h : s.created <+: s'.created) {i : ℕ} (hi : i < s.created.length) :
    s'.created[i]? = s.created[i]? := by
  obtain ⟨added, hadded⟩ := h
  rw [← hadded, List.getElem?_append_left hi]

theorem lt_of_created {i : ℕ} {c : Creation} (hi : s.created[i]? = some c) :
    i < s.created.length :=
  (List.getElem?_eq_some_iff.mp hi).1

theorem Kept.grow {g : ℕ} (h : s.Kept t g) (hcreated : s.created <+: s'.created)
    (hstored : s.stored <+: s'.stored) (hcached : t.cached <+: t'.cached) : s'.Kept t' g := by
  obtain ⟨c, hc, hprocess, htest⟩ := h
  refine ⟨c, created_mono hcreated hc, fun hscope => ?_, fun hscope => ?_⟩
  · exact (hstored.map Prod.snd).subset (hprocess hscope)
  · exact (hcached.map Prod.snd).subset (htest hscope)

theorem SetupOk.grow {f : RunningSetup} (h : s.SetupOk registry t f)
    (hcreated : s.created <+: s'.created) (hstored : s.stored <+: s'.stored)
    (hcached : t.cached <+: t'.cached) (htest : t'.currentTest = t.currentTest) :
    s'.SetupOk registry t' f where
  requested := ⟨h.requested.1, htest ▸ h.requested.2⟩
  deps := by
    obtain ⟨done, hdone, hgot⟩ := h.deps
    refine ⟨done, hdone, fun dep hdep => ?_⟩
    obtain ⟨g, hg, c, hc, hname⟩ := hgot dep hdep
    exact ⟨g, hg, c, created_mono hcreated hc, hname⟩
  got g hg := (h.got g hg).grow hcreated hstored hcached

theorem CreationOk.grow {i : ℕ} {c : Creation} (h : s.CreationOk registry i c)
    (hcreated : s.created <+: s'.created) : s'.CreationOk registry i c where
  registered := h.registered
  got_lt := h.got_lt
  deps dep hdep := by
    obtain ⟨g, hg, c', hc', hname⟩ := h.deps dep hdep
    exact ⟨g, hg, c', created_mono hcreated hc', hname⟩

theorem Inv.lt_of_got (h : s.Inv registry) {i g : ℕ} {c : Creation} (hc : s.created[i]? = some c)
    (hg : g ∈ c.got) : g < s.created.length :=
  ((h.created i c hc).got_lt g hg).trans (lt_of_created hc)

theorem Cache.grow {scope : FixtureScope} {owned : Creation → Prop} {entries : List (String × ℕ)}
    (hinv : s.Inv registry) (h : s.Cache registry scope owned entries)
    (hcreated : s.created <+: s'.created)
    (hlive : ∀ i ∈ s'.dropped, i ∈ s.dropped ∨ i ∉ entries.map Prod.snd) :
    s'.Cache registry scope owned entries where
  made e he := by
    obtain ⟨c, hc, hrest⟩ := h.made e he
    exact ⟨c, created_mono hcreated hc, hrest⟩
  nodup := h.nodup
  live e he hdropped := by
    rcases hlive e.2 hdropped with hold | hnot
    · exact h.live e he hold
    · exact hnot (List.mem_map_of_mem he)
  ordered k i c c' hk hc g hg hc' hscope := by
    obtain ⟨e, he, rfl⟩ := List.mem_map.mp (List.mem_of_getElem? hk)
    obtain ⟨c₀, hc₀, -⟩ := h.made e he
    have hcc : c₀ = c := Option.some.inj ((created_mono hcreated hc₀).symm.trans hc)
    subst hcc
    rw [created_of_lt hcreated (hinv.lt_of_got hc₀ hg)] at hc'
    exact h.ordered k e.2 c₀ c' hk hc₀ g hg hc' hscope

/-- A fresh value goes to the end of the list of its scope. -/
theorem Cache.concat {scope : FixtureScope} {owned : Creation → Prop}
    {entries : List (String × ℕ)} {raw : ℕ} {c : Creation}
    (h : s.Cache registry scope owned entries) (hc : s.created[raw]? = some c)
    (hget : registry.get c.fixture.name = some c.fixture) (hscope : c.fixture.scope = scope)
    (howned : owned c) (hnew : raw ∉ entries.map Prod.snd) (hlive : raw ∉ s.dropped)
    (hgot : ∀ g ∈ c.got, ∀ c', s.created[g]? = some c' → c'.fixture.scope = scope →
      g ∈ entries.map Prod.snd) :
    s.Cache registry scope owned (entries ++ [(c.fixture.name, raw)]) where
  made e he := by
    rcases List.mem_append.mp he with he | he
    · exact h.made e he
    · obtain rfl := List.mem_singleton.mp he
      exact ⟨c, hc, hget, hscope, howned⟩
  nodup := by
    rw [List.map_append]
    refine List.nodup_append.mpr ⟨h.nodup, by simp, fun a ha b hb heq => ?_⟩
    obtain rfl : b = raw := by simpa using hb
    exact hnew (heq ▸ ha)
  live e he := by
    rcases List.mem_append.mp he with he | he
    · exact h.live e he
    · obtain rfl := List.mem_singleton.mp he
      exact hlive
  ordered k i ci c' hk hci g hg hc' hscope' := by
    rw [List.map_append] at hk ⊢
    have hbefore {j : ℕ} (hj : (entries.map Prod.snd)[j]? = some g) :
        (entries.map Prod.snd ++ [raw])[j]? = some g := getElem?_concat_eq_some.mpr (.inl hj)
    rcases getElem?_concat_eq_some.mp hk with hold | ⟨rfl, rfl⟩
    · obtain ⟨j, hj, hjg⟩ := h.ordered k i ci c' hold hci g hg hc' hscope'
      exact ⟨j, hj, hbefore hjg⟩
    · obtain rfl := Option.some.inj (hc.symm.trans hci)
      obtain ⟨j, hj⟩ := List.mem_iff_getElem?.mp (hgot g hg c' hc' hscope')
      exact ⟨j, (List.getElem?_eq_some_iff.mp hj).1, hbefore hj⟩

/-! ## The other threads -/

/-- A step of `p` that other threads can only see in the lists: it creates,
stores and drops values of its own. -/
structure Moves (s s' : Runtime) (p : ℕ) : Prop where
  threads : ∀ q, q ≠ p → s'.threads q = s.threads q
  created : s.created <+: s'.created
  stored : s.stored <+: s'.stored
  creator : ∀ (i : ℕ) (c : Creation), s'.created[i]? = some c →
    s.created[i]? = some c ∨ c.thread = p
  stores : ∀ i ∈ s'.stored.map Prod.snd, i ∈ s.stored.map Prod.snd ∨
    ∃ c, s.created[i]? = some c ∧ c.thread = p
  drops : ∀ i ∈ s'.dropped, i ∈ s.dropped ∨ ∃ c, s.created[i]? = some c ∧ c.thread = p

theorem setThread_others (q : ℕ) (hq : q ≠ p) : (s.setThread p t').threads q = s.threads q :=
  Function.update_of_ne hq _ _

/-- A step that creates and stores nothing. -/
theorem Moves.of_drops (hthreads : ∀ q, q ≠ p → s'.threads q = s.threads q)
    (hcreated : s'.created = s.created) (hstored : s'.stored = s.stored)
    (hdrops : ∀ i ∈ s'.dropped, i ∈ s.dropped ∨ ∃ c, s.created[i]? = some c ∧ c.thread = p) :
    Moves s s' p where
  threads := hthreads
  created := hcreated ▸ List.prefix_refl _
  stored := hstored ▸ List.prefix_refl _
  creator _ _ := hcreated ▸ Or.inl
  stores _ := hstored ▸ Or.inl
  drops := hdrops

/-- The values of the thread `q` are neither stored nor dropped meanwhile. -/
def LeavesAlone (s s' : Runtime) (q : ℕ) : Prop :=
  ∀ (i : ℕ) (c : Creation), s.created[i]? = some c → c.thread = q →
    (i ∈ s'.stored.map Prod.snd → i ∈ s.stored.map Prod.snd) ∧ (i ∈ s'.dropped → i ∈ s.dropped)

theorem Moves.leavesAlone (h : Moves s s' p) (hqp : q ≠ p) : LeavesAlone s s' q := by
  intro i c hc hthread
  have hnot : ¬ ∃ c', s.created[i]? = some c' ∧ c'.thread = p := by
    rintro ⟨c', hc', hp⟩
    obtain rfl := Option.some.inj (hc.symm.trans hc')
    exact hqp (hthread.symm.trans hp)
  exact ⟨fun hi => (h.stores i hi).resolve_right hnot, fun hi => (h.drops i hi).resolve_right hnot⟩

theorem CallOk.grow {call : FixtureCall} (h : s.CallOk registry q t call)
    (hcreated : s.created <+: s'.created) (hstored : s.stored <+: s'.stored)
    (halone : LeavesAlone s s' q) : s'.CallOk registry q t call := by
  have hkept : ∀ {g}, s.Kept t g → s'.Kept t g :=
    fun hg => hg.grow hcreated hstored (List.prefix_refl _)
  have hfresh : ∀ {d raw c}, s.Fresh q t d raw c → s'.Fresh q t d raw c := fun hc =>
    { hc with
      made := created_mono hcreated hc.made
      not_dropped := hc.not_dropped ∘ (halone _ _ hc.made hc.thread).2
      not_stored := hc.not_stored ∘ (halone _ _ hc.made hc.thread).1
      got := fun g hg => hkept (hc.got g hg) }
  cases call with
  | idle => trivial
  | lookup d => exact h
  | firstLock d => exact h
  | created d raw =>
      obtain ⟨hd, hserves, c, hc⟩ := h
      exact ⟨hd, hserves, c, hfresh hc⟩
  | secondLock d raw =>
      obtain ⟨hd, hserves, hscope, c, hc⟩ := h
      exact ⟨hd, hserves, hscope, c, hfresh hc⟩
  | cast d ptr =>
      obtain ⟨hserves, hptr, c, hc, hfixture⟩ := h
      exact ⟨hserves, hkept hptr, c, created_mono hcreated hc, hfixture⟩

theorem ThreadOk.moves (hinv : s.Inv registry) (hmoves : Moves s s' p) (hqp : q ≠ p) :
    s'.ThreadOk registry q (s'.threads q) := by
  have h := hinv.threads q
  rw [hmoves.threads q hqp]
  exact {
    cache := h.cache.grow hinv hmoves.created fun i hi => or_iff_not_imp_right.mpr fun hmem => by
      obtain ⟨e, he, rfl⟩ := List.mem_map.mp (not_not.mp hmem)
      obtain ⟨c, hc, -, -, howned⟩ := h.cache.made e he
      exact (hmoves.leavesAlone hqp e.2 c hc howned.1).2 hi
    setups := fun f hf =>
      (h.setups f hf).grow hmoves.created hmoves.stored (List.prefix_refl _) rfl
    nested := h.nested
    call := h.call.grow hmoves.created hmoves.stored (hmoves.leavesAlone hqp)
    outside := h.outside
    inside := h.inside
    complete := fun hscope i ⟨c, hc, htest, hthread, hscopes⟩ => by
      rcases hmoves.creator i c hc with hold | hmine
      · exact h.complete hscope i ⟨c, hold, htest, hthread, hscopes⟩
      · exact absurd (hthread.symm.trans hmine) hqp
    scopes := fun i c hc hthread => by
      rcases hmoves.creator i c hc with hold | hmine
      · exact h.scopes i c hold hthread
      · exact absurd (hthread.symm.trans hmine) hqp }

/-- The invariant after a step of `p`, from what it is about. -/
theorem Inv.of_moves (hinv : s.Inv registry) (hmoves : Moves s s' p)
    (hstore : s'.StoreOk registry)
    (hcreated : ∀ i c, s'.created[i]? = some c → s.created[i]? = some c ∨
      s'.CreationOk registry i c)
    (hthread : s'.ThreadOk registry p (s'.threads p)) (hnodup : s'.dropped.Nodup) :
    s'.Inv registry where
  store := hstore
  created i c hc := by
    rcases hcreated i c hc with hold | hnew
    · exact (hinv.created i c hold).grow hmoves.created
    · exact hnew
  threads q := by
    rcases eq_or_ne q p with rfl | hqp
    · exact hthread
    · exact ThreadOk.moves hinv hmoves hqp
  dropped_nodup := hnodup
  dropped_made i hi := by
    rcases hmoves.drops i hi with hold | ⟨c, hc, -⟩
    · exact (hinv.dropped_made i hold).trans_le hmoves.created.length_le
    · exact (lt_of_created hc).trans_le hmoves.created.length_le

/-! ## Steps that leave the values alone -/

/-- What a step of `p` may change besides the values. -/
def quiet (s : Runtime) (p : ℕ) (t' : TestThread) (lock : Option ℕ) (poisoned : Bool)
    (returned : List (String × ℕ)) : Runtime :=
  { s.setThread p t' with lock, poisoned, returned }

/-- The thread is where it was in its test. -/
structure SameTest (t t' : TestThread) : Prop where
  testFixtures : t'.testFixtures = t.testFixtures
  currentTest : t'.currentTest = t.currentTest
  inScope : t'.inScope = t.inScope
  scopes : t'.scopes = t.scopes

theorem moves_quiet (s : Runtime) (p : ℕ) (t' : TestThread) (lock : Option ℕ) (poisoned : Bool)
    (returned : List (String × ℕ)) : Moves s (s.quiet p t' lock poisoned returned) p :=
  .of_drops setThread_others rfl rfl fun _ => Or.inl

/-- A thread can leave its call, unless it has a test-scoped value in its hands. -/
def MayLeave (t t' : TestThread) : Prop :=
  ∀ d raw, t.call = .created d raw → d.scope = .test → t'.call = .created d raw

theorem Inv.quiet (h : s.Inv registry) {lock : Option ℕ} {poisoned : Bool}
    {returned : List (String × ℕ)} (hreturned : ∀ r ∈ returned, r ∈ s.stored)
    (htest : SameTest (s.threads p) t') (hsetups : ∀ f ∈ t'.setups, s.SetupOk registry t' f)
    (hnested : Nested t'.setups) (hcall : s.CallOk registry p t' t'.call)
    (hleave : MayLeave (s.threads p) t') :
    (s.quiet p t' lock poisoned returned).Inv registry := by
  have hp := h.threads p
  have hcached : t'.cached = (s.threads p).cached := by
    rw [TestThread.cached, htest.testFixtures]
  have hmoves := moves_quiet s p t' lock poisoned returned
  refine h.of_moves hmoves ?_ (fun i c => Or.inl) ?_ h.dropped_nodup
  · exact ⟨h.store.cache.grow h hmoves.created fun _ => Or.inl, h.store.index, hreturned⟩
  rw [show (s.quiet p t' lock poisoned returned).threads p = t' from Function.update_self ..]
  exact {
    cache := by
      rw [hcached, htest.scopes]
      exact hp.cache.grow h hmoves.created fun _ => Or.inl
    setups := fun f hf =>
      (hsetups f hf).grow hmoves.created hmoves.stored (List.prefix_refl _) rfl
    nested := hnested
    call := hcall.grow hmoves.created hmoves.stored fun _ _ _ _ => ⟨id, id⟩
    outside := by
      rw [htest.currentTest, htest.testFixtures]
      exact hp.outside
    inside := by
      rw [htest.inScope, htest.currentTest]
      exact hp.inside
    complete := fun hscope i ⟨c, hc, hctest, hthread, hscopes⟩ => by
      rw [htest.inScope] at hscope
      rw [htest.scopes] at hscopes
      rw [hcached]
      refine (hp.complete hscope i ⟨c, hc, hctest, hthread, hscopes⟩).imp_right ?_
      rintro ⟨d, hd⟩
      -- the value in the hands of the call is the test-scoped one
      have hcallOk := hp.call
      rw [hd] at hcallOk
      obtain ⟨-, -, c', hc'⟩ := hcallOk
      obtain rfl := Option.some.inj (hc.symm.trans hc'.made)
      exact ⟨d, hleave d i hd (hc'.fixture ▸ hctest)⟩
    scopes := by
      rw [htest.scopes]
      exact hp.scopes }

theorem Inv.unwind (h : s.Inv registry) (hleave : MayLeave (s.threads p) { t with call := .idle }) :
    (s.unwind p).Inv registry :=
  h.quiet h.store.returned ⟨rfl, rfl, rfl, rfl⟩ (fun _ hf => nomatch hf) trivial trivial hleave

theorem mayLeave_of_call {call : FixtureCall} (h : t.call = call)
    (hne : ∀ d raw, call ≠ .created d raw) : MayLeave t t' :=
  fun d raw hcall => absurd (h.symm.trans hcall) (hne d raw)

theorem mayLeave_of_idle (h : t.call = .idle) : MayLeave t t' :=
  mayLeave_of_call h (by simp)

theorem Inv.goto (h : s.Inv registry) (lock : Option ℕ) {call : FixtureCall}
    (hcall : s.CallOk registry p { s.threads p with call } call)
    (hleave : MayLeave (s.threads p) { s.threads p with call }) :
    ({ s.goto p call with lock } : Runtime).Inv registry :=
  h.quiet h.store.returned ⟨rfl, rfl, rfl, rfl⟩ (fun f hf => { (h.threads p).setups f hf with })
    (h.threads p).nested hcall hleave

theorem Inv.runSetup (h : s.Inv registry) (lock : Option ℕ)
    (hd : Requested registry (s.threads p) d) (hserves : Serves d.name (s.threads p).setups)
    (hleave : MayLeave (s.threads p) { s.threads p with call := .idle }) :
    ({ s.runSetup p d with lock } : Runtime).Inv registry := by
  refine h.quiet h.store.returned ⟨rfl, rfl, rfl, rfl⟩ (fun f hf => ?_)
    ⟨hserves, (h.threads p).nested⟩ trivial hleave
  rcases List.mem_cons.mp hf with rfl | hf
  · exact ⟨hd, ⟨[], rfl, fun _ hdep => nomatch hdep⟩, fun _ hg => nomatch hg⟩
  · exact { (h.threads p).setups f hf with }

theorem Inv.ensured (h : s.Inv registry) (lock : Option ℕ) {ptr : ℕ} {c : Creation}
    (hserves : Serves d.name (s.threads p).setups) (hkept : s.Kept (s.threads p) ptr)
    (hc : s.created[ptr]? = some c) (hfixture : c.fixture = d)
    (hstored : d.scope = .process → (d.name, ptr) ∈ s.stored)
    (hleave : MayLeave (s.threads p) { s.threads p with call := .cast d ptr }) :
    ({ s.ensured p d ptr with lock } : Runtime).Inv registry := by
  refine h.quiet (fun r hr => ?_) ⟨rfl, rfl, rfl, rfl⟩
    (fun f hf => { (h.threads p).setups f hf with }) (h.threads p).nested
    ⟨hserves, hkept, c, hc, hfixture⟩ hleave
  simp only [Runtime.ensured] at hr
  split_ifs at hr with hscope
  · rcases List.mem_append.mp hr with hr | hr
    · exact h.store.returned r hr
    · rw [List.mem_singleton.mp hr]
      exact hstored hscope
  · exact h.store.returned r hr

/-- The setup that waited for the value has one dependency less to request. -/
theorem SetupOk.give {f : RunningSetup} (h : s.SetupOk registry t f) {ptr : ℕ} {c : Creation}
    (hname : ∀ dep ∈ f.deps.head?, d.name = dep) (hkept : s.Kept t ptr)
    (hc : s.created[ptr]? = some c) (hfixture : c.fixture = d) :
    s.SetupOk registry t { f with deps := f.deps.tail, got := f.got ++ [ptr] } where
  requested := h.requested
  deps := by
    obtain ⟨done, hdone, hgot⟩ := h.deps
    have hold : ∀ dep ∈ done, ∃ g ∈ f.got ++ [ptr], ∃ c, s.created[g]? = some c ∧
        c.fixture.name = dep := fun dep hdep => by
      obtain ⟨g, hg, hrest⟩ := hgot dep hdep
      exact ⟨g, List.mem_append_left _ hg, hrest⟩
    cases hdeps : f.deps with
    | nil => exact ⟨done, by rw [hdone, hdeps, List.tail_nil], hold⟩
    | cons dep deps =>
        refine ⟨done ++ [dep], by rw [hdone, hdeps, List.tail_cons, List.append_cons], ?_⟩
        intro dep' hdep'
        rcases List.mem_append.mp hdep' with hdep' | hdep'
        · exact hold dep' hdep'
        · rw [List.mem_singleton] at hdep'
          have hdep : d.name = dep := hname dep (by rw [hdeps]; rfl)
          exact ⟨ptr, by simp, c, hc, by rw [hfixture, hdep, hdep']⟩
  got g hg := by
    rcases List.mem_append.mp hg with hg | hg
    · exact h.got g hg
    · rw [List.mem_singleton.mp hg]
      exact hkept

theorem Inv.give (h : s.Inv registry) {ptr : ℕ} (hcall : (s.threads p).call = .cast d ptr) :
    (s.give p ptr).Inv registry := by
  have hp := h.threads p
  have hcallOk := hp.call
  rw [hcall] at hcallOk
  obtain ⟨hserves, hkept, c, hc, hfixture⟩ := hcallOk
  have hsetups := hp.setups
  have hnested := hp.nested
  refine h.quiet h.store.returned ⟨rfl, rfl, rfl, rfl⟩ ?_ ?_ trivial
    (mayLeave_of_call hcall (by simp))
  all_goals
    simp only
    cases hstack : (s.threads p).setups with
    | nil => simp [Nested]
    | cons f rest => ?_
  · intro f' hf'
    rw [hstack] at hsetups hserves
    rcases List.mem_cons.mp hf' with rfl | hf'
    · have hf := (hsetups f List.mem_cons_self).give (d := d) (hserves f rfl) hkept hc hfixture
      exact { hf with }
    · exact { hsetups f' (List.mem_cons_of_mem _ hf') with }
  · rw [hstack] at hnested
    exact hnested

/-! ## Steps that create, keep and drop values -/

theorem Inv.create (h : s.Inv registry) {got : List ℕ} {rest : List RunningSetup}
    (hidle : (s.threads p).call = .idle) (hstack : (s.threads p).setups = ⟨d, [], got⟩ :: rest) :
    (s.create p d got rest).Inv registry := by
  have hp := h.threads p
  have hf := hp.setups _ (hstack ▸ List.mem_cons_self)
  have hnested := hp.nested
  rw [hstack] at hnested
  let t := s.threads p
  let c : Creation := { fixture := d, got, thread := p, scope := t.scopes }
  have hcreated : s.created <+: (s.create p d got rest).created := List.prefix_append _ _
  have hcases : ∀ i ci, (s.create p d got rest).created[i]? = some ci ↔
      s.created[i]? = some ci ∨ i = s.created.length ∧ ci = c :=
    fun i ci => getElem?_concat_eq_some
  have hmoves : Moves s (s.create p d got rest) p :=
    { threads := setThread_others
      created := hcreated
      stored := List.prefix_refl _
      creator := fun i ci hci => ((hcases i ci).mp hci).imp_right fun hnew => by rw [hnew.2]
      stores := fun _ => Or.inl
      drops := fun _ => Or.inl }
  have hkept : ∀ g ∈ got, s.Kept t g := hf.got
  refine h.of_moves hmoves ?_ (fun i ci hci => ((hcases i ci).mp hci).imp_right ?_) ?_
    h.dropped_nodup
  · exact ⟨h.store.cache.grow h hcreated fun _ => Or.inl, h.store.index, h.store.returned⟩
  · rintro ⟨rfl, rfl⟩
    refine ⟨hf.requested.1, fun g hg => ?_, fun dep hdep => ?_⟩
    · obtain ⟨cg, hcg, -⟩ := hkept g hg
      exact lt_of_created hcg
    · obtain ⟨done, hdone, hgot⟩ := hf.deps
      rw [List.append_nil] at hdone
      obtain ⟨g, hg, cg, hcg, hname⟩ := hgot dep (hdone ▸ hdep)
      exact ⟨g, hg, cg, created_mono hcreated hcg, hname⟩
  rw [show (s.create p d got rest).threads p =
    { t with setups := rest, call := .created d s.created.length } from Function.update_self ..]
  have hnotMade : ∀ {scope owned entries}, s.Cache registry scope owned entries →
      s.created.length ∉ entries.map Prod.snd := fun hcache hmem => by
    obtain ⟨e, he, heq⟩ := List.mem_map.mp hmem
    obtain ⟨ce, hce, -⟩ := hcache.made e he
    exact (lt_of_created hce).ne heq
  exact {
    cache := hp.cache.grow h hcreated fun _ => Or.inl
    setups := fun f hf => (hp.setups f (hstack ▸ List.mem_cons_of_mem _ hf)).grow hcreated
      (List.prefix_refl _) (List.prefix_refl _) rfl
    nested := hnested.2
    call := ⟨hf.requested, hnested.1, c, {
      made := (hcases _ _).mpr (.inr ⟨rfl, rfl⟩)
      fixture := rfl
      thread := rfl
      scope := rfl
      not_dropped := fun hmem => (h.dropped_made _ hmem).false
      not_stored := hnotMade h.store.cache
      not_cached := hnotMade hp.cache
      got := fun g hg => (hkept g hg).grow hcreated (List.prefix_refl _) (List.prefix_refl _) }⟩
    outside := hp.outside
    inside := hp.inside
    complete := fun hscope i ⟨ci, hci, htest, hthread, hscopes⟩ => by
      rcases (hcases i ci).mp hci with hold | ⟨rfl, -⟩
      · rcases hp.complete hscope i ⟨ci, hold, htest, hthread, hscopes⟩ with hmem | ⟨d', hd'⟩
        · exact .inl hmem
        · rw [hidle] at hd'
          cases hd'
      · exact .inr ⟨d, rfl⟩
    scopes := fun i ci hci hthread => by
      rcases (hcases i ci).mp hci with hold | ⟨-, rfl⟩
      · exact hp.scopes i ci hold hthread
      · exact le_rfl }

/-- The value goes from the call to the list of the thread. -/
theorem Inv.pushTest (h : s.Inv registry) {raw : ℕ} (hcall : (s.threads p).call = .created d raw)
    (hscope : d.scope = .test) : ((s.pushTest p d raw).goto p .idle).Inv registry := by
  have hp := h.threads p
  have hcallOk := hp.call
  rw [hcall] at hcallOk
  obtain ⟨hd, -, c, hc⟩ := hcallOk
  let t := s.threads p
  let t' : TestThread :=
    { t with testFixtures := t.testFixtures ++ [{ name := d.name, ptr := raw }], call := .idle }
  have hthreads : ((s.pushTest p d raw).goto p .idle).threads = Function.update s.threads p t' := by
    simp [Runtime.pushTest, Runtime.goto, setThread, t', t]
  have hcached : t'.cached = t.cached ++ [(d.name, raw)] := List.map_append
  have hmoves : Moves s ((s.pushTest p d raw).goto p .idle) p :=
    .of_drops (fun q hq => by rw [hthreads, Function.update_of_ne hq]) rfl rfl fun _ => Or.inl
  refine h.of_moves hmoves ?_ (fun _ _ => Or.inl) ?_ h.dropped_nodup
  · exact ⟨h.store.cache.grow h hmoves.created fun _ => Or.inl, h.store.index, h.store.returned⟩
  rw [hthreads, Function.update_self]
  have hcache : s.Cache registry .test (fun c => c.thread = p ∧ c.scope = t.scopes) t'.cached := by
    rw [hcached]
    have := hp.cache.concat hc.made (hc.fixture ▸ hd.1) (hc.fixture ▸ hscope)
      ⟨hc.thread, hc.scope⟩ hc.not_cached hc.not_dropped fun g hg c' hc' hgscope => by
        obtain ⟨cg, hcg, -, htest⟩ := hc.got g hg
        obtain rfl := Option.some.inj (hcg.symm.trans hc')
        exact htest hgscope
    rwa [hc.fixture] at this
  exact {
    cache := hcache.grow h hmoves.created fun _ => Or.inl
    setups := fun f hf => (hp.setups f hf).grow hmoves.created hmoves.stored
      (hcached ▸ List.prefix_append _ _) rfl
    nested := hp.nested
    call := trivial
    outside := fun hnone => absurd hnone (hd.2 (by rw [hscope]; exact fun heq => nomatch heq))
    inside := hp.inside
    complete := fun hin i hi => by
      rw [hcached, List.map_append]
      rcases hp.complete hin i hi with hmem | ⟨d', hd'⟩
      · exact .inl (List.mem_append_left _ hmem)
      · rw [hcall, FixtureCall.created.injEq] at hd'
        exact .inl (List.mem_append_right _ (by simp [hd'.2]))
    scopes := hp.scopes }

/-- The call is over, and what it had in its hands was not for the thread. -/
theorem ThreadOk.idle (h : s.ThreadOk registry p t) (hinv : s.Inv registry)
    (hcreated : s'.created = s.created) (hstored : s.stored <+: s'.stored)
    (hlive : ∀ i ∈ s'.dropped, i ∈ s.dropped ∨ i ∉ t.cached.map Prod.snd)
    (hcall : ∀ d i, t.call ≠ .created d i) :
    s'.ThreadOk registry p { t with call := .idle } where
  cache := h.cache.grow hinv (hcreated ▸ List.prefix_refl _) hlive
  setups f hf :=
    (h.setups f hf).grow (hcreated ▸ List.prefix_refl _) hstored (List.prefix_refl _) rfl
  nested := h.nested
  call := trivial
  outside := h.outside
  inside := h.inside
  complete hin i hi := by
    rw [CreatedIn, hcreated] at hi
    exact (h.complete hin i hi).imp_right fun ⟨d, hd⟩ => absurd hd (hcall d i)
  scopes := hcreated ▸ h.scopes

/-- The value goes from the call to the store. -/
theorem Inv.pushProcess (h : s.Inv registry) {raw : ℕ}
    (hcall : (s.threads p).call = .secondLock d raw) (hnone : s.store.index d.name = none) :
    ((s.pushProcess d raw).goto p .idle).Inv registry := by
  have hp := h.threads p
  have hcallOk := hp.call
  rw [hcall] at hcallOk
  obtain ⟨hd, -, hscope, c, hc⟩ := hcallOk
  have hstored : ((s.pushProcess d raw).goto p .idle).stored = s.stored ++ [(d.name, raw)] :=
    List.map_append
  have hprefix : s.stored <+: ((s.pushProcess d raw).goto p .idle).stored :=
    hstored ▸ List.prefix_append _ _
  have hmoves : Moves s ((s.pushProcess d raw).goto p .idle) p :=
    { threads := setThread_others
      created := List.prefix_refl _
      stored := hprefix
      creator := fun _ _ => Or.inl
      stores := fun i hi => by
        rw [hstored, List.map_append] at hi
        refine (List.mem_append.mp hi).imp_right fun hi => ?_
        obtain rfl : i = raw := by simpa using hi
        exact ⟨c, hc.made, hc.thread⟩
      drops := fun _ => Or.inl }
  have hcache : s.Cache registry .process (fun _ => True) (s.stored ++ [(d.name, raw)]) := by
    have := h.store.cache.concat hc.made (hc.fixture ▸ hd.1) (hc.fixture ▸ hscope) trivial
      hc.not_stored hc.not_dropped fun g hg c' hc' hgscope => by
        obtain ⟨cg, hcg, hprocess, -⟩ := hc.got g hg
        obtain rfl := Option.some.inj (hcg.symm.trans hc')
        exact hprocess hgscope
    rwa [hc.fixture] at this
  refine h.of_moves hmoves ⟨?_, fun name i => ?_, fun r hr => ?_⟩ (fun _ _ => Or.inl) ?_
    h.dropped_nodup
  · rw [hstored]
    exact hcache.grow h hmoves.created fun _ => Or.inl
  · rw [hstored, List.map_append, List.map_singleton, getElem?_concat_eq_some,
      ← h.store.index, List.length_map, List.length_map]
    change Function.update s.store.index d.name (some s.store.entries.length) name = some i ↔ _
    rcases eq_or_ne name d.name with rfl | hname
    · simp [hnone, eq_comm]
    · simp [hname]
  · exact hprefix.subset (h.store.returned r hr)
  rw [show ((s.pushProcess d raw).goto p .idle).threads p =
    { s.threads p with call := .idle } from Function.update_self ..]
  exact hp.idle h rfl hmoves.stored (fun _ => Or.inl) fun d' i hcreated => by
    rw [hcall] at hcreated
    cases hcreated

/-- The value that lost the race goes from the call to nobody. -/
theorem Inv.lose (h : s.Inv registry) {raw : ℕ} (hcall : (s.threads p).call = .secondLock d raw) :
    ((s.drop raw).goto p .idle).Inv registry := by
  have hp := h.threads p
  have hcallOk := hp.call
  rw [hcall] at hcallOk
  obtain ⟨-, -, -, c, hc⟩ := hcallOk
  have hdropped : ∀ i ∈ ((s.drop raw).goto p .idle).dropped, i ∈ s.dropped ∨ i = raw := fun i hi =>
    (List.mem_append.mp hi).imp_right fun hi => List.mem_singleton.mp hi
  have hmoves : Moves s ((s.drop raw).goto p .idle) p := by
    refine .of_drops setThread_others rfl rfl fun i hi => ?_
    exact (hdropped i hi).imp_right fun heq : i = raw => ⟨c, heq ▸ hc.made, hc.thread⟩
  refine h.of_moves hmoves ⟨?_, h.store.index, h.store.returned⟩ (fun _ _ => Or.inl) ?_ ?_
  · exact h.store.cache.grow h hmoves.created fun i hi =>
      (hdropped i hi).imp_right fun heq : i = raw => heq ▸ hc.not_stored
  · rw [show ((s.drop raw).goto p .idle).threads p =
      { s.threads p with call := .idle } from Function.update_self ..]
    refine hp.idle h rfl hmoves.stored (fun i hi => ?_) fun d' i hcreated => ?_
    · exact (hdropped i hi).imp_right fun heq : i = raw => heq ▸ hc.not_cached
    · rw [hcall] at hcreated
      cases hcreated
  · refine List.nodup_append.mpr ⟨h.dropped_nodup, by simp, fun a ha b hb heq => ?_⟩
    obtain rfl : b = raw := by simpa using hb
    exact hc.not_dropped (heq ▸ ha)

theorem Inv.enter (h : s.Inv registry) {test : String} (hidle : (s.threads p).call = .idle)
    (hstack : (s.threads p).setups = []) (hnone : (s.threads p).currentTest = none) :
    (s.enter p test).Inv registry := by
  have hp := h.threads p
  have hmoves : Moves s (s.enter p test) p :=
    .of_drops setThread_others rfl rfl fun _ => Or.inl
  refine h.of_moves hmoves ?_ (fun _ _ => Or.inl) ?_ h.dropped_nodup
  · exact ⟨h.store.cache.grow h hmoves.created fun _ => Or.inl, h.store.index, h.store.returned⟩
  let t' : TestThread :=
    { s.threads p with
      currentTest := some test, inScope := true, scopes := (s.threads p).scopes + 1 }
  rw [show (s.enter p test).threads p = t' from Function.update_self ..]
  have hempty : t'.cached = [] := by simp [t', hp.outside hnone]
  exact {
    cache := by
      rw [hempty]
      exact ⟨by simp, .nil, by simp, fun k i c c' hk => by simp at hk⟩
    setups := fun f hf => absurd hf (by simp [t', hstack])
    nested := by simp [t', hstack, Nested]
    call := by
      rw [show t'.call = .idle from hidle]
      trivial
    outside := fun heq => nomatch heq
    inside := fun _ heq => nomatch heq
    -- the values of the thread were created in earlier scopes
    complete := fun _ i ⟨c, hc, _, hthread, hscopes⟩ => by
      have hle := hp.scopes i c hc hthread
      simp only [t'] at hscopes
      omega
    scopes := fun i c hc hthread => (hp.scopes i c hc hthread).trans (Nat.le_succ _) }

/-- The first values of a list, after some of the others have been dropped. -/
theorem Cache.left {scope : FixtureScope} {owned : Creation → Prop}
    {left reclaimed : List (String × ℕ)} (h : s.Cache registry scope owned (left ++ reclaimed))
    (hcreated : s'.created = s.created)
    (hdropped : ∀ i ∈ s'.dropped, i ∈ s.dropped ∨ i ∈ reclaimed.map Prod.snd) :
    s'.Cache registry scope owned left where
  made e he := by
    rw [hcreated]
    exact h.made e (List.mem_append_left _ he)
  nodup := by
    have := h.nodup
    rw [List.map_append] at this
    exact (List.nodup_append.mp this).1
  live e he hmem := by
    rcases hdropped e.2 hmem with hold | hnew
    · exact h.live e (List.mem_append_left _ he) hold
    · have := h.nodup
      rw [List.map_append] at this
      exact (List.nodup_append.mp this).2.2 e.2 (List.mem_map_of_mem he) e.2 hnew rfl
  ordered k i c c' hk hc g hg hc' hscope := by
    rw [hcreated] at hc hc'
    have hlt := (List.getElem?_eq_some_iff.mp hk).1
    have hbefore {j : ℕ} (hj : j < (left.map Prod.snd).length) :
        ((left ++ reclaimed).map Prod.snd)[j]? = (left.map Prod.snd)[j]? := by
      rw [List.map_append, List.getElem?_append_left hj]
    obtain ⟨j, hj, hjg⟩ := h.ordered k i c c' ((hbefore hlt).trans hk) hc g hg hc' hscope
    exact ⟨j, hj, (hbefore (hj.trans hlt)).symm.trans hjg⟩

theorem leave_threads (panics : ℕ → Bool) (s : Runtime) (p : ℕ) :
    (s.leave panics p).threads p =
      { s.threads p with
        testFixtures := (popTests panics (s.threads p)).left.reverse
        currentTest :=
          if (popTests panics (s.threads p)).panicked then (s.threads p).currentTest else none
        inScope := false } :=
  Function.update_self ..

/-- What `TestScope::drop` does to the list: it drops a last part of it, backwards. -/
theorem leave_spec (panics : ℕ → Bool) (s : Runtime) (p : ℕ) :
    ∃ reclaimed : List (String × ℕ),
      (s.threads p).cached = ((s.leave panics p).threads p).cached ++ reclaimed ∧
      (s.leave panics p).dropped = s.dropped ++ (reclaimed.map Prod.snd).reverse := by
  have happend := popLoop_append (fun e : TestEntry => panics e.ptr)
    (s.threads p).testFixtures.reverse
  refine ⟨(popTests panics (s.threads p)).dropped.reverse.map fun e => (e.name, e.ptr), ?_, ?_⟩
  · rw [leave_threads, TestThread.cached, TestThread.cached, ← List.map_append,
      ← List.reverse_append, popTests, happend, List.reverse_reverse]
  · simp [Runtime.leave, Function.comp_def]

theorem Inv.leave (h : s.Inv registry) {panics : ℕ → Bool} (hidle : (s.threads p).call = .idle)
    (hstack : (s.threads p).setups = []) : (s.leave panics p).Inv registry := by
  have hp := h.threads p
  obtain ⟨reclaimed, hcached, hdropped⟩ := leave_spec panics s p
  have hmem : ∀ i ∈ (s.leave panics p).dropped, i ∈ s.dropped ∨ i ∈ reclaimed.map Prod.snd :=
    fun i hi => by
      rw [hdropped] at hi
      exact (List.mem_append.mp hi).imp_right List.mem_reverse.mp
  have hmine : ∀ i ∈ reclaimed.map Prod.snd, ∃ c, s.created[i]? = some c ∧
      c.fixture.scope = .test ∧ c.thread = p ∧ i ∉ s.dropped := fun i hi => by
    obtain ⟨e, he, rfl⟩ := List.mem_map.mp hi
    have hcachedMem : e ∈ (s.threads p).cached := hcached ▸ List.mem_append_right _ he
    obtain ⟨c, hc, -, hscope, hthread, -⟩ := hp.cache.made e hcachedMem
    exact ⟨c, hc, hscope, hthread, hp.cache.live e hcachedMem⟩
  have hmoves : Moves s (s.leave panics p) p := by
    refine .of_drops setThread_others rfl rfl fun i hi => ?_
    refine (hmem i hi).imp_right fun hi => ?_
    obtain ⟨c, hc, -, hthread, -⟩ := hmine i hi
    exact ⟨c, hc, hthread⟩
  refine h.of_moves hmoves ⟨?_, h.store.index, h.store.returned⟩ (fun _ _ => Or.inl) ?_ ?_
  · -- what is stored is of process scope, what is dropped of test scope
    refine h.store.cache.grow h hmoves.created fun i hi =>
      (hmem i hi).imp_right fun hi hstored => ?_
    obtain ⟨c, hc, htest, -⟩ := hmine i hi
    obtain ⟨e, he, rfl⟩ := List.mem_map.mp hstored
    obtain ⟨c', hc', -, hprocess, -⟩ := h.store.cache.made e he
    obtain rfl := Option.some.inj (hc.symm.trans hc')
    exact nomatch htest.symm.trans hprocess
  · have hcache : (s.leave panics p).Cache registry .test _ ((s.leave panics p).threads p).cached :=
      (hcached ▸ hp.cache).left rfl hmem
    rw [leave_threads] at hcache ⊢
    exact {
      cache := hcache
      setups := fun f hf => absurd hf (by simp [hstack])
      nested := by simp [hstack, Nested]
      call := by
        rw [hidle]
        trivial
      outside := fun hnone => by
        cases hpanicked : (popTests panics (s.threads p)).panicked with
        | false => rw [popTests, popLoop_left_of_not_panicked hpanicked, List.reverse_nil]
        | true =>
            -- the test is still current, so that there was one before
            rw [hpanicked, if_pos rfl] at hnone
            rw [popTests, hp.outside hnone]
            rfl
      inside := fun hin => nomatch hin
      complete := fun hin => nomatch hin
      scopes := hp.scopes }
  · rw [hdropped]
    have hnodup := hp.cache.nodup
    rw [hcached, List.map_append] at hnodup
    refine List.nodup_append.mpr ⟨h.dropped_nodup,
      List.nodup_reverse.mpr (List.nodup_append.mp hnodup).2.1, fun a ha b hb heq => ?_⟩
    obtain ⟨-, -, -, -, hnot⟩ := hmine b (List.mem_reverse.mp hb)
    exact hnot (heq ▸ ha)

end Runtime

end Skuld
