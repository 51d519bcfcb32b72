import Skuld.Fixture.Ownership

/-!
# The steps of the fixture runtime

`Effect` is what a step of a thread can do, with what the later proofs need of
it.  Every effect keeps the invariant, so that it holds in every reachable
state.
-/

namespace Skuld

/-- The call holds the lock of the store. -/
def FixtureCall.locked : FixtureCall → Bool
  | .firstLock _ | .secondLock _ _ => true
  | _ => false

namespace Runtime

variable {registry : Registry} {s s' : Runtime} {p : ℕ} {t t' : TestThread} {d : FixtureDef}

/-! ## What a step can do -/

/-- The effects of a step of `p` on a state that meets the invariant. -/
inductive Effect (registry : Registry) (panics : ℕ → Bool) (s : Runtime) (p : ℕ) : Runtime → Prop
  | stay : Effect registry panics s p s
  | unwind (hcall : (s.threads p).call = .idle ∨ ∃ d ptr, (s.threads p).call = .cast d ptr) :
      Effect registry panics s p (s.unwind p)
  | poisoned (hpoisoned : s.poisoned = true) (hlock : s.lock = none)
      (hcall : ∀ d raw, (s.threads p).call = .created d raw → d.scope = .process) :
      Effect registry panics s p (s.unwind p)
  | lookup {d : FixtureDef} (hidle : (s.threads p).call = .idle)
      (hd : Requested registry (s.threads p) d) (hserves : Serves d.name (s.threads p).setups) :
      Effect registry panics s p (s.goto p (.lookup d))
  | lockFirst {d : FixtureDef} (hcall : (s.threads p).call = .lookup d) (hlock : s.lock = none) :
      Effect registry panics s p { s.goto p (.firstLock d) with lock := some p }
  | lockSecond {d : FixtureDef} {raw : ℕ} (hcall : (s.threads p).call = .created d raw)
      (hscope : d.scope = .process) (hlock : s.lock = none) :
      Effect registry panics s p { s.goto p (.secondLock d raw) with lock := some p }
  | runSetup {d : FixtureDef} (hcall : (s.threads p).call = .lookup d) :
      Effect registry panics s p (s.runSetup p d)
  | miss {d : FixtureDef} (hcall : (s.threads p).call = .firstLock d) :
      Effect registry panics s p (s.runSetup p d).release
  | cached {d : FixtureDef} {e : TestEntry} (hcall : (s.threads p).call = .lookup d)
      (hscope : d.scope = .test) (he : e ∈ (s.threads p).testFixtures) (hname : e.name = d.name) :
      Effect registry panics s p (s.ensured p d e.ptr)
  | hit {d : FixtureDef} {e : ProcessEntry} (hcall : (s.threads p).call = .firstLock d)
      (he : e ∈ s.store.entries) (hname : e.name = d.name) :
      Effect registry panics s p (s.ensured p d e.ptr).release
  | create {d : FixtureDef} {got : List ℕ} {rest : List RunningSetup}
      (hidle : (s.threads p).call = .idle) (hstack : (s.threads p).setups = ⟨d, [], got⟩ :: rest) :
      Effect registry panics s p (s.create p d got rest)
  | handOut {d : FixtureDef} {raw : ℕ} (hcall : (s.threads p).call = .created d raw)
      (hscope : d.scope = .variable) : Effect registry panics s p (s.ensured p d raw)
  | keepTest {d : FixtureDef} {raw : ℕ} (hcall : (s.threads p).call = .created d raw)
      (hscope : d.scope = .test) :
      Effect registry panics s p ((s.pushTest p d raw).ensured p d raw)
  | keepProcess {d : FixtureDef} {raw : ℕ} (hcall : (s.threads p).call = .secondLock d raw)
      (hnone : s.store.index d.name = none) :
      Effect registry panics s p ((s.pushProcess d raw).ensured p d raw).release
  | lose {d : FixtureDef} {raw : ℕ} {e : ProcessEntry}
      (hcall : (s.threads p).call = .secondLock d raw) (he : e ∈ s.store.entries)
      (hname : e.name = d.name) :
      Effect registry panics s p ((s.drop raw).ensured p d e.ptr).release
  | losePanics {d : FixtureDef} {raw : ℕ} (hcall : (s.threads p).call = .secondLock d raw)
      (hpanics : panics raw = true) (hstored : s.store.entries ≠ []) :
      Effect registry panics s p ((s.drop raw).unwind p)
  | give {d : FixtureDef} {ptr : ℕ} (hcall : (s.threads p).call = .cast d ptr) :
      Effect registry panics s p (s.give p ptr)
  | enter {test : String} (hidle : (s.threads p).call = .idle)
      (hstack : (s.threads p).setups = []) (hnone : (s.threads p).currentTest = none) :
      Effect registry panics s p (s.enter p test)
  | leave (hidle : (s.threads p).call = .idle) (hstack : (s.threads p).setups = []) :
      Effect registry panics s p (s.leave panics p)

variable {panics : ℕ → Bool}

/-- An index found in the store is the position of an entry of the name. -/
theorem StoreOk.entry (h : s.StoreOk registry) {name : String} {idx : ℕ}
    (hidx : s.store.index name = some idx) :
    ∃ e ∈ s.store.entries, s.store.entries[idx]? = some e ∧ e.name = name := by
  have hname := (h.index name idx).mp hidx
  rw [List.map_map, List.getElem?_map, Option.map_eq_some_iff] at hname
  obtain ⟨e, he, hname⟩ := hname
  exact ⟨e, List.mem_of_getElem? he, he, hname⟩

theorem effect_of_request (entrance : Entrance) {name : String}
    (hidle : (s.threads p).call = .idle) (hserves : Serves name (s.threads p).setups) :
    Effect registry panics s p (s.request registry p entrance name) := by
  unfold request
  simp only
  split_ifs with houtside
  · exact .unwind (.inl hidle)
  split
  · exact .unwind (.inl hidle)
  next d hget =>
  have hname := (Registry.get_eq_some_iff.mp hget).2
  have hlookup (hscope : d.scope ≠ .process → (s.threads p).currentTest ≠ none) :
      Effect registry panics s p (s.goto p (.lookup d)) :=
    .lookup hidle ⟨hname ▸ hget, hscope⟩ (hname ▸ hserves)
  split
  · split_ifs with hscope
    · exact hlookup fun hnot => absurd hscope hnot
    · exact .stay
  · split_ifs with hscope
    · exact .unwind (.inl hidle)
    · exact hlookup fun hnot hnone => hscope ⟨hnot, by rw [hnone]; rfl⟩
  · split_ifs with hscope
    · exact .unwind (.inl hidle)
    · exact hlookup fun _ hnone => houtside ⟨rfl, by rw [hnone]; rfl⟩

theorem acquire_eq_some {call : FixtureCall} (h : s.acquire p call = some s') :
    s.lock = none ∧ (s.poisoned = true ∧ s' = s.unwind p ∨
      s' = { s.goto p call with lock := some p }) := by
  unfold acquire at h
  split at h
  · cases h
  next hlock =>
  refine ⟨hlock, ?_⟩
  split_ifs at h with hpoisoned
  · exact .inl ⟨hpoisoned, (Option.some.inj h).symm⟩
  · exact .inr (Option.some.inj h).symm

theorem effect_of_lookup (hcall : (s.threads p).call = .lookup d) (h : s.lookup p d = some s') :
    Effect registry panics s p s' := by
  unfold lookup at h
  split at h
  · cases h
    exact .runSetup hcall
  · next hscope =>
    split at h
    · next e he =>
      cases h
      have hname := List.find?_some he
      exact .cached hcall hscope (List.mem_of_find?_eq_some he) (of_decide_eq_true hname)
    · cases h
      exact .runSetup hcall
  · obtain ⟨hlock, ⟨hpoisoned, rfl⟩ | rfl⟩ := acquire_eq_some h
    · exact .poisoned hpoisoned hlock fun d raw hcreated => nomatch hcall.symm.trans hcreated
    · exact .lockFirst hcall hlock

theorem effect_of_keep {raw : ℕ} (hcall : (s.threads p).call = .created d raw)
    (h : s.keep p d raw = some s') : Effect registry panics s p s' := by
  unfold keep at h
  split at h
  · next hscope =>
    cases h
    exact .handOut hcall hscope
  · next hscope =>
    cases h
    exact .keepTest hcall hscope
  · next hscope =>
    obtain ⟨hlock, ⟨hpoisoned, rfl⟩ | rfl⟩ := acquire_eq_some h
    · refine .poisoned hpoisoned hlock fun d' raw' hcreated => ?_
      obtain ⟨rfl, -⟩ := FixtureCall.created.inj (hcall.symm.trans hcreated)
      exact hscope
    · exact .lockSecond hcall hscope hlock

theorem effect_of_firstLock (hstore : s.StoreOk registry)
    (hcall : (s.threads p).call = .firstLock d) :
    Effect registry panics s p (s.firstLock p d) := by
  unfold firstLock
  split
  · next idx hidx =>
    obtain ⟨e, hmem, he, hname⟩ := hstore.entry hidx
    rw [he]
    exact .hit hcall hmem hname
  · exact .miss hcall

theorem effect_of_secondLock (hstore : s.StoreOk registry) {raw : ℕ}
    (hcall : (s.threads p).call = .secondLock d raw) :
    Effect registry panics s p (s.secondLock panics p d raw) := by
  unfold secondLock
  split
  · next idx hidx =>
    obtain ⟨e, hmem, he, hname⟩ := hstore.entry hidx
    split_ifs with hpanics
    · exact .losePanics hcall hpanics (List.ne_nil_of_mem hmem)
    · rw [he]
      exact .lose hcall hmem hname
  · next hnone => exact .keepProcess hcall hnone

theorem effect_of_step {a : RuntimeAction} (hinv : s.Inv registry)
    (h : step registry panics s (p, a) = some s') : Effect registry panics s p s' := by
  unfold step at h
  simp only at h
  split at h
  · next hidle hstack =>
    split_ifs at h with hnone <;> cases h
    · exact .enter hidle hstack (Option.isNone_iff_eq_none.mp hnone)
    · exact .unwind (.inl hidle)
  · next hidle hstack =>
    split_ifs at h
    cases h
    exact .leave hidle hstack
  · next hidle hstack =>
    cases h
    exact effect_of_request _ hidle (by rw [hstack]; exact fun f hf => nomatch hf)
  · next hidle hstack =>
    cases h
    refine effect_of_request _ hidle ?_
    rw [hstack]
    rintro f ⟨⟩ dep hdep
    exact nomatch hdep
  · next hidle hstack =>
    cases h
    refine effect_of_request _ hidle ?_
    rw [hstack]
    rintro f ⟨⟩ dep ⟨⟩
    rfl
  · next hidle hstack =>
    split_ifs at h <;> cases h
    · exact .create hidle hstack
    · exact .unwind (.inl hidle)
  · next hcall => exact effect_of_lookup hcall h
  · next hcall =>
    cases h
    exact effect_of_firstLock hinv.store hcall
  · next hcall => exact effect_of_keep hcall h
  · next hcall =>
    cases h
    exact effect_of_secondLock hinv.store hcall
  · next hcall =>
    split_ifs at h <;> cases h
    · exact .give hcall
    · exact .unwind (.inr ⟨_, _, hcall⟩)
  · cases h

/-! ## The invariant in every reachable state -/

theorem Cache.fixture {scope : FixtureScope} {owned : Creation → Prop}
    {entries : List (String × ℕ)} {e : String × ℕ} (h : s.Cache registry scope owned entries)
    (he : e ∈ entries) (hd : registry.get d.name = some d) (hname : e.1 = d.name) :
    ∃ c, s.created[e.2]? = some c ∧ c.fixture = d ∧ c.fixture.scope = scope := by
  obtain ⟨c, hc, hget, hscope, -⟩ := h.made e he
  rw [hname, hd, Option.some.injEq] at hget
  exact ⟨c, hc, hget.symm, hscope⟩

/-- A value in the store is the value of the fixture of its name. -/
theorem Inv.kept_of_stored (h : s.Inv registry) {e : ProcessEntry} (he : e ∈ s.store.entries)
    (hd : registry.get d.name = some d) (hname : e.name = d.name) (t : TestThread) :
    s.Kept t e.ptr ∧ ∃ c, s.created[e.ptr]? = some c ∧ c.fixture = d := by
  have hmem : (e.name, e.ptr) ∈ s.stored := List.mem_map.mpr ⟨e, he, rfl⟩
  obtain ⟨c, hc, hfixture, hscope⟩ := h.store.cache.fixture hmem hd hname
  refine ⟨⟨c, hc, fun _ => List.mem_map_of_mem hmem, fun htest => ?_⟩, c, hc, hfixture⟩
  exact nomatch htest.symm.trans hscope

theorem Inv.kept_of_cached (h : s.Inv registry) {e : TestEntry}
    (he : e ∈ (s.threads p).testFixtures) (hd : registry.get d.name = some d)
    (hname : e.name = d.name) :
    s.Kept (s.threads p) e.ptr ∧ ∃ c, s.created[e.ptr]? = some c ∧ c.fixture = d := by
  have hmem : (e.name, e.ptr) ∈ (s.threads p).cached := List.mem_map.mpr ⟨e, he, rfl⟩
  obtain ⟨c, hc, hfixture, hscope⟩ := (h.threads p).cache.fixture hmem hd hname
  refine ⟨⟨c, hc, fun hprocess => ?_, fun _ => List.mem_map_of_mem hmem⟩, c, hc, hfixture⟩
  exact nomatch hprocess.symm.trans hscope

/-- The call that returns or panics was in some place before; it does not matter which. -/
theorem ensured_goto (s : Runtime) (p : ℕ) (call : FixtureCall) (d : FixtureDef) (ptr : ℕ) :
    (s.goto p call).ensured p d ptr = s.ensured p d ptr := by
  simp [Runtime.ensured, Runtime.goto, setThread]

theorem unwind_goto (s : Runtime) (p : ℕ) (call : FixtureCall) :
    (s.goto p call).unwind p = s.unwind p := by
  simp only [Runtime.unwind, Runtime.goto, setThread, Function.update_self, Function.update_idem]
  rfl

theorem Inv.of_effect (h : s.Inv registry) (heffect : Effect registry panics s p s') :
    s'.Inv registry := by
  have hcallOk := (h.threads p).call
  cases heffect with
  | stay => exact h
  | unwind hcall =>
      refine h.unwind (t := s.threads p) ?_
      rcases hcall with hcall | ⟨_, _, hcall⟩
      · exact mayLeave_of_idle hcall
      · exact mayLeave_of_call hcall (by simp)
  | poisoned hpoisoned hlock hcall =>
      exact h.unwind (t := s.threads p) fun d raw hcreated htest =>
        nomatch htest.symm.trans (hcall d raw hcreated)
  | lookup hidle hd hserves =>
      exact h.goto s.lock ⟨hd, hserves⟩ (mayLeave_of_idle hidle)
  | lockFirst hcall hlock =>
      rw [hcall] at hcallOk
      exact h.goto _ hcallOk (mayLeave_of_call hcall (by simp))
  | lockSecond hcall hscope hlock =>
      rw [hcall] at hcallOk
      obtain ⟨hd, hserves, c, hc⟩ := hcallOk
      refine h.goto _ ⟨hd, hserves, hscope, c, { hc with }⟩ fun d raw hcreated htest => ?_
      obtain ⟨rfl, -⟩ := FixtureCall.created.inj (hcall.symm.trans hcreated)
      exact nomatch htest.symm.trans hscope
  | runSetup hcall =>
      rw [hcall] at hcallOk
      exact h.runSetup s.lock hcallOk.1 hcallOk.2 (mayLeave_of_call hcall (by simp))
  | miss hcall =>
      rw [hcall] at hcallOk
      exact h.runSetup _ hcallOk.1 hcallOk.2 (mayLeave_of_call hcall (by simp))
  | cached hcall hscope he hname =>
      rw [hcall] at hcallOk
      obtain ⟨hkept, c, hc, hfixture⟩ := h.kept_of_cached he hcallOk.1.1 hname
      exact h.ensured s.lock hcallOk.2 hkept hc hfixture
        (fun hprocess => nomatch hprocess.symm.trans hscope) (mayLeave_of_call hcall (by simp))
  | hit hcall he hname =>
      rw [hcall] at hcallOk
      obtain ⟨hkept, c, hc, hfixture⟩ := h.kept_of_stored he hcallOk.1.1 hname (s.threads p)
      exact h.ensured _ hcallOk.2 hkept hc hfixture
        (fun _ => List.mem_map.mpr ⟨_, he, by rw [hname]⟩) (mayLeave_of_call hcall (by simp))
  | create hidle hstack => exact h.create hidle hstack
  | handOut hcall hscope =>
      rw [hcall] at hcallOk
      obtain ⟨-, hserves, c, hc⟩ := hcallOk
      have hvariable : c.fixture.scope = .variable := hc.fixture ▸ hscope
      have hkept : s.Kept (s.threads p) _ :=
        ⟨c, hc.made, fun heq => (nomatch hvariable.symm.trans heq),
          fun heq => (nomatch hvariable.symm.trans heq)⟩
      refine h.ensured s.lock hserves hkept hc.made hc.fixture
        (fun heq => nomatch heq.symm.trans hscope) ?_
      intro d' raw' hcreated htest
      obtain ⟨rfl, -⟩ := FixtureCall.created.inj (hcall.symm.trans hcreated)
      exact nomatch htest.symm.trans hscope
  | @keepTest d raw hcall hscope =>
      rw [hcall] at hcallOk
      obtain ⟨-, hserves, c, hc⟩ := hcallOk
      have hpush := h.pushTest hcall hscope
      have hthread : ((s.pushTest p d raw).goto p .idle).threads p =
          { s.threads p with
            testFixtures := (s.threads p).testFixtures ++ [{ name := d.name, ptr := raw }]
            call := .idle } := by
        simp [Runtime.pushTest, Runtime.goto, setThread]
      have htest : c.fixture.scope = .test := hc.fixture ▸ hscope
      rw [← ensured_goto _ p .idle]
      exact hpush.ensured s.lock (by rw [hthread]; exact hserves)
        ⟨c, hc.made, fun heq => (nomatch htest.symm.trans heq), fun _ => by simp [hthread]⟩
        hc.made hc.fixture (fun heq => nomatch heq.symm.trans hscope)
        (mayLeave_of_idle (by rw [hthread]))
  | @keepProcess d raw hcall hnone =>
      rw [hcall] at hcallOk
      obtain ⟨-, hserves, hscope, c, hc⟩ := hcallOk
      have hstored : (d.name, raw) ∈ ((s.pushProcess d raw).goto p .idle).stored := by
        simp [Runtime.pushProcess, Runtime.goto, setThread]
      have hprocess : c.fixture.scope = .process := hc.fixture ▸ hscope
      rw [← ensured_goto _ p .idle]
      exact (h.pushProcess hcall hnone).ensured _
        (by simpa [Runtime.pushProcess, Runtime.goto, setThread] using hserves)
        ⟨c, hc.made, fun _ => List.mem_map_of_mem hstored,
          fun heq => (nomatch hprocess.symm.trans heq)⟩
        hc.made hc.fixture (fun _ => hstored)
        (mayLeave_of_idle (by simp [Runtime.goto, setThread]))
  | @lose d raw e hcall he hname =>
      rw [hcall] at hcallOk
      obtain ⟨hd, hserves, hscope, -⟩ := hcallOk
      have hlose := h.lose hcall
      have hthread :
          ((s.drop raw).goto p .idle).threads p = { s.threads p with call := .idle } := by
        simp [Runtime.drop, Runtime.goto, setThread]
      obtain ⟨hkept, c, hc, hfixture⟩ := hlose.kept_of_stored (e := e) he hd.1 hname
        (((s.drop raw).goto p .idle).threads p)
      rw [← ensured_goto _ p .idle]
      exact hlose.ensured _ (by rw [hthread]; exact hserves) hkept hc hfixture
        (fun _ => List.mem_map.mpr ⟨e, he, by rw [hname]⟩) (mayLeave_of_idle (by rw [hthread]))
  | losePanics hcall hpanics hstored =>
      rw [← unwind_goto _ p .idle]
      exact (h.lose hcall).unwind (t := s.threads p)
        (mayLeave_of_idle (by simp [Runtime.drop, Runtime.goto, setThread]))
  | give hcall => exact h.give hcall
  | enter hidle hstack hnone => exact h.enter hidle hstack hnone
  | leave hidle hstack => exact h.leave hidle hstack

/-! ## The lock -/

/-- The lock is held in the critical sections only, and what poisons it is a value
that has lost its race. -/
structure LockOk (s : Runtime) : Prop where
  held : ∀ p, s.lock = some p → (s.threads p).call.locked = true
  poisoned : s.poisoned = true → s.store.entries ≠ []

theorem LockOk.ne (h : s.LockOk) (hcall : (s.threads p).call.locked = false) :
    s.lock ≠ some p := fun hlock => by
  rw [h.held p hlock] at hcall
  cases hcall

theorem LockOk.of_step (h : s.LockOk) (hthreads : ∀ q, q ≠ p → s'.threads q = s.threads q)
    (hlock : s'.lock = none ∨ s'.lock = s.lock ∧ s.lock ≠ some p ∨
      s'.lock = some p ∧ (s'.threads p).call.locked = true)
    (hpoisoned : s'.poisoned = true → s.poisoned = true ∨ s.store.entries ≠ [])
    (hentries : s.store.entries ⊆ s'.store.entries) : s'.LockOk where
  held q hq := by
    rcases hlock with hfree | ⟨hsame, hne⟩ | ⟨hmine, hlocked⟩
    · rw [hfree] at hq
      cases hq
    · rw [hsame] at hq
      have hqp : q ≠ p := fun heq => hne (heq ▸ hq)
      rw [hthreads q hqp]
      exact h.held q hq
    · rw [hmine, Option.some.injEq] at hq
      exact hq ▸ hlocked
  poisoned hpoison hempty := by
    have hbefore : s.store.entries = [] := List.subset_nil.mp (hempty ▸ hentries)
    rcases hpoisoned hpoison with hold | hne
    · exact h.poisoned hold hbefore
    · exact hne hbefore

/-- A step outside the critical sections that leaves the lock as it is. -/
theorem LockOk.quiet (h : s.LockOk) (hcall : (s.threads p).call.locked = false)
    (hthreads : ∀ q, q ≠ p → s'.threads q = s.threads q) (hlock : s'.lock = s.lock)
    (hpoisoned : s'.poisoned = s.poisoned) (hentries : s.store.entries ⊆ s'.store.entries) :
    s'.LockOk :=
  h.of_step hthreads (.inr (.inl ⟨hlock, h.ne hcall⟩)) (fun hp => .inl (hpoisoned ▸ hp)) hentries

/-- The end of a critical section. -/
theorem LockOk.released (h : s.LockOk) (hthreads : ∀ q, q ≠ p → s'.threads q = s.threads q)
    (hlock : s'.lock = none) (hpoisoned : s'.poisoned = s.poisoned)
    (hentries : s.store.entries ⊆ s'.store.entries) : s'.LockOk :=
  h.of_step hthreads (.inl hlock) (fun hp => .inl (hpoisoned ▸ hp)) hentries

theorem LockOk.acquired (h : s.LockOk) {call : FixtureCall} (hcall : call.locked = true) :
    ({ s.goto p call with lock := some p } : Runtime).LockOk :=
  h.of_step setThread_others
    (.inr (.inr ⟨rfl, by simpa [Runtime.goto, setThread] using hcall⟩)) Or.inl (List.Subset.refl _)

theorem LockOk.of_effect (h : s.LockOk) (heffect : Effect registry panics s p s') : s'.LockOk := by
  have hunwind (hne : s.lock ≠ some p) : (s.unwind p).LockOk :=
    h.of_step setThread_others (.inr (.inl ⟨by simp [Runtime.unwind, hne], hne⟩))
      (fun hp => .inl (by simpa [Runtime.unwind, hne] using hp)) (List.Subset.refl _)
  cases heffect with
  | stay => exact h
  | unwind hcall =>
      rcases hcall with hcall | ⟨d, ptr, hcall⟩ <;> exact hunwind (h.ne (by rw [hcall]; rfl))
  | poisoned hpoisoned hlock => exact hunwind (by rw [hlock]; exact fun heq => nomatch heq)
  | lockFirst => exact h.acquired rfl
  | lockSecond => exact h.acquired rfl
  | miss => exact h.released setThread_others rfl rfl (List.Subset.refl _)
  | hit => exact h.released setThread_others rfl rfl (List.Subset.refl _)
  | keepProcess => exact h.released setThread_others rfl rfl (List.subset_append_left _ _)
  | lose => exact h.released setThread_others rfl rfl (List.Subset.refl _)
  | losePanics hcall hpanics hstored =>
      refine h.of_step setThread_others ?_ (fun _ => .inr hstored) (List.Subset.refl _)
      by_cases hmine : s.lock = some p
      · exact .inl (by simp [Runtime.unwind, Runtime.drop, hmine])
      · exact .inr (.inl ⟨by simp [Runtime.unwind, Runtime.drop, hmine], hmine⟩)
  | lookup hcall | runSetup hcall | cached hcall | create hcall | handOut hcall | give hcall
  | enter hcall | leave hcall =>
      exact h.quiet (by rw [hcall]; rfl) setThread_others rfl rfl (List.Subset.refl _)
  | keepTest hcall =>
      refine h.quiet (by rw [hcall]; rfl) (fun q hq => ?_) rfl rfl (List.Subset.refl _)
      simp [Runtime.ensured, Runtime.goto, Runtime.pushTest, setThread, hq]

theorem inv_start (registry : Registry) : start.Inv registry where
  store := ⟨⟨by simp [start], .nil, by simp [start], fun k i c c' hk => by simp [start] at hk⟩,
    by simp [start], by simp [start]⟩
  created i c hc := by simp [start] at hc
  threads p :=
    { cache := ⟨by simp [start], .nil, by simp [start], fun k i c c' hk => by simp [start] at hk⟩
      setups := by simp [start]
      nested := trivial
      call := trivial
      outside := fun _ => rfl
      inside := fun h => nomatch h
      complete := fun h => nomatch h
      scopes := fun i c hc => by simp [start] at hc }
  dropped_nodup := .nil
  dropped_made i hi := by simp [start] at hi

theorem lockOk_start : start.LockOk where
  held p hlock := by simp [start] at hlock
  poisoned hpoisoned := by simp [start] at hpoisoned

theorem inv_inductive (registry : Registry) (panics : ℕ → Bool) :
    (machine registry panics).Inductive (fun _ _ => True) fun s => s.Inv registry ∧ s.LockOk where
  init := by
    rintro s rfl
    exact ⟨inv_start registry, lockOk_start⟩
  step {s e s'} h _ hstep := by
    have heffect := effect_of_step (a := e.2) h.1 hstep
    exact ⟨h.1.of_effect heffect, h.2.of_effect heffect⟩

theorem inv_of_reached (hs : (machine registry panics).Reached s) : s.Inv registry ∧ s.LockOk :=
  (inv_inductive registry panics).reached hs

end Runtime

end Skuld
