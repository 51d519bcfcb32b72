import Skuld.Fixture.Singletons

/-!
# The end of cached fixtures

Both `TestScope::drop` and `cleanup_process_fixtures` pop their values one after
the other, and a value that panics in its `Drop` leaves the loop: the values
below it stay where they are, and what comes after the loop is skipped.

The loops follow the order in which the values were kept.  For the list of a thread
this is the order of their creation, for the store only as far as one thread is
concerned (`CreatorOrder`): a thread can create a value before and store it after the
value of another thread.
-/

namespace Skuld

namespace Runtime

/-- The scope of `p` has been dropped, from `s` to `s'`, and nothing of it is left. -/
structure ScopeTornDown (s s' : Runtime) (p : ℕ) : Prop where
  once : ∀ i, s.CreatedIn p (s.threads p) i → s'.dropped.count i = 1
  order : ∀ i, s.CreatedIn p (s.threads p) i → ∀ c, s.created[i]? = some c → ∀ g ∈ c.got,
    ∀ c', s.created[g]? = some c' → c'.fixture.scope = .test → [i, g].Sublist s'.dropped
  empty : (s'.threads p).testFixtures = []
  cleared : (s'.threads p).currentTest = none

/-- The values of the store have been dropped, in reverse creation order. -/
structure StoreTornDown (s s' : Runtime) : Prop where
  order : ∃ values : List ℕ, s'.dropped = s.dropped ++ values ∧
    values.Perm (s.store.entries.map ProcessEntry.ptr) ∧ values.Pairwise (· > ·)
  once : ∀ e ∈ s.store.entries, s'.dropped.count e.ptr = 1

/-- The values of the store were stored in the order of their creation. -/
def StoredInOrder (s : Runtime) : Prop :=
  (s.store.entries.map ProcessEntry.ptr).Pairwise (· < ·)

/-- Of the values that one thread has created, an older one is stored first. -/
structure CreatorOrder (s : Runtime) : Prop where
  stored : s.store.entries.Pairwise fun e e' => ∀ c c', s.created[e.ptr]? = some c →
    s.created[e'.ptr]? = some c' → c.thread = c'.thread → e.ptr < e'.ptr
  held : ∀ p raw, s.Holds p raw → ∀ e ∈ s.store.entries, ∀ c, s.created[e.ptr]? = some c →
    c.thread = p → e.ptr < raw

variable {registry : Registry} {panics : ℕ → Bool} {s s' : Runtime} {p : ℕ}

/-! ## The scope of a test -/

theorem step_dropTestScope (h : step registry panics s (p, .dropTestScope) = some s') :
    (s.threads p).call = .idle ∧ (s.threads p).setups = [] ∧ (s.threads p).inScope = true ∧
      s' = s.leave panics p := by
  cases hcall : (s.threads p).call <;> cases hstack : (s.threads p).setups <;>
    simp [step, hcall, hstack] at h
  exact ⟨rfl, rfl, h.1, h.2.symm⟩

/-- When a scope ends, its values are those in the list of the thread. -/
theorem Inv.createdIn_iff (h : s.Inv registry) (hidle : (s.threads p).call = .idle)
    (hscope : (s.threads p).inScope = true) {i : ℕ} :
    s.CreatedIn p (s.threads p) i ↔ i ∈ (s.threads p).cached.map Prod.snd := by
  have hp := h.threads p
  constructor
  · intro hi
    refine (hp.complete hscope i hi).resolve_right fun ⟨d, hd⟩ => ?_
    rw [hidle] at hd
    cases hd
  · intro hi
    obtain ⟨e, he, rfl⟩ := List.mem_map.mp hi
    obtain ⟨c, hc, -, htest, howned⟩ := hp.cache.made e he
    exact ⟨c, hc, htest, howned⟩

theorem popTests_panicked_eq_false {t : TestThread} :
    (popTests panics t).panicked = false ↔ ∀ i ∈ t.cached.map Prod.snd, panics i = false := by
  simp [popTests, popLoop_panicked_eq_false]

theorem leave_of_safe (hsafe : ∀ i ∈ (s.threads p).cached.map Prod.snd, panics i = false) :
    (s.leave panics p).dropped = s.dropped ++ ((s.threads p).cached.map Prod.snd).reverse ∧
      ((s.leave panics p).threads p).testFixtures = [] ∧
      ((s.leave panics p).threads p).currentTest = none := by
  have hpop : popTests panics (s.threads p) =
      { dropped := (s.threads p).testFixtures.reverse, left := [], panicked := false } :=
    popLoop_of_safe fun e he => hsafe e.ptr (by simpa using ⟨e, by simpa using he, rfl⟩)
  rw [leave_threads, hpop]
  refine ⟨?_, rfl, rfl⟩
  rw [Runtime.leave, hpop]
  simp [Function.comp_def]

theorem scopeTornDown_iff (h : s.Inv registry)
    (hstep : step registry panics s (p, .dropTestScope) = some s') :
    ScopeTornDown s s' p ↔ ∀ i, s.CreatedIn p (s.threads p) i → panics i = false := by
  obtain ⟨hidle, hstack, hscope, rfl⟩ := step_dropTestScope hstep
  have hp := h.threads p
  have hcreated {i : ℕ} := h.createdIn_iff hidle hscope (i := i)
  constructor
  · intro htorn i hi
    refine popTests_panicked_eq_false.mp ?_ i (hcreated.mp hi)
    -- after a panic the test would still be the current one
    by_contra hpanicked
    have hcleared := htorn.cleared
    rw [leave_threads] at hcleared
    simp only [Bool.not_eq_false] at hpanicked
    rw [hpanicked, if_pos rfl] at hcleared
    exact hp.inside hscope hcleared
  · intro hsafe
    obtain ⟨hdropped, hempty, hcleared⟩ := leave_of_safe fun i hi => hsafe i (hcreated.mpr hi)
    have hnodup : (s.leave panics p).dropped.Nodup := (h.leave hidle hstack).dropped_nodup
    refine ⟨fun i hi => List.count_eq_one_of_mem hnodup ?_, fun i hi c hc g hg c' hc' htest => ?_,
      hempty, hcleared⟩
    · rw [hdropped]
      exact List.mem_append_right _ (List.mem_reverse.mpr (hcreated.mp hi))
    · obtain ⟨k, hk⟩ := List.mem_iff_getElem?.mp (hcreated.mp hi)
      obtain ⟨j, hj, hjg⟩ := hp.cache.ordered k i c c' hk hc g hg hc' htest
      rw [hdropped]
      refine List.Sublist.trans ?_ (List.sublist_append_right _ _)
      exact List.sublist_reverse_iff.mpr (pair_sublist hjg hk hj)

/-! ## The order of the store -/

/-- A step that stores nothing, and after which `p` holds at most a new value. -/
theorem CreatorOrder.of_same (h : s.CreatorOrder) (hinv : s.Inv registry)
    (hthreads : ∀ q, q ≠ p → s'.threads q = s.threads q) (hcreated : s.created <+: s'.created)
    (hentries : s'.store.entries = s.store.entries)
    (hheld : ∀ i, s'.Holds p i → s.Holds p i ∨ i = s.created.length) : s'.CreatorOrder := by
  have hlt : ∀ e ∈ s.store.entries, e.ptr < s.created.length := fun e he => by
    obtain ⟨c, hc, -⟩ := hinv.store.cache.made (e.name, e.ptr) (List.mem_map.mpr ⟨e, he, rfl⟩)
    exact lt_of_created hc
  have hold : ∀ e ∈ s.store.entries, ∀ c, s'.created[e.ptr]? = some c →
      s.created[e.ptr]? = some c := fun e he c hc => by
    rwa [created_of_lt hcreated (hlt e he)] at hc
  constructor
  · rw [hentries]
    refine h.stored.imp_of_mem fun {e e'} he he' hlt c c' hc hc' => ?_
    exact hlt c c' (hold e he c hc) (hold e' he' c' hc')
  · intro q raw hraw e he c hc hthread
    rw [hentries] at he
    have hbefore : s.Holds q raw ∨ raw = s.created.length := by
      rcases eq_or_ne q p with rfl | hqp
      · exact hheld raw hraw
      · rw [Holds, hthreads q hqp] at hraw
        exact .inl hraw
    rcases hbefore with hraw | rfl
    · exact h.held q raw hraw e he c (hold e he c hc) hthread
    · exact hlt e he

/-- A step that creates and stores nothing, and after which `p` holds no value. -/
theorem CreatorOrder.quiet (h : s.CreatorOrder) (hinv : s.Inv registry)
    (hthreads : ∀ q, q ≠ p → s'.threads q = s.threads q) (hcreated : s'.created = s.created)
    (hentries : s'.store.entries = s.store.entries) (hraw : (s'.threads p).call.raw = none) :
    s'.CreatorOrder :=
  h.of_same hinv hthreads (hcreated ▸ List.prefix_refl _) hentries
    fun _ hi => absurd hi (not_holds hraw)

/-- The value of a call is younger than those that its thread has stored. -/
theorem CreatorOrder.keepProcess (h : s.CreatorOrder) (hinv : s.Inv registry) {d : FixtureDef}
    {raw : ℕ} (hcall : (s.threads p).call = .secondLock d raw) :
    ((s.pushProcess d raw).ensured p d raw).release.CreatorOrder := by
  have hholds : s.Holds p raw := by rw [Holds, hcall]; rfl
  have hcallOk := (hinv.threads p).call
  rw [hcall] at hcallOk
  obtain ⟨-, -, -, c₀, hfresh⟩ := hcallOk
  have hentries : ((s.pushProcess d raw).ensured p d raw).release.store.entries =
      s.store.entries ++ [{ name := d.name, ptr := raw }] := rfl
  constructor
  · rw [hentries, List.pairwise_append]
    refine ⟨h.stored, List.pairwise_singleton _ _, fun e he e' he' c c' hc hc' hthread => ?_⟩
    obtain rfl := List.mem_singleton.mp he'
    have hcreator : c'.thread = p := by
      rw [show c' = c₀ from Option.some.inj (hc'.symm.trans hfresh.made)]
      exact hfresh.thread
    exact h.held p raw hholds e he c hc (hthread.trans hcreator)
  · intro q raw' hraw' e he c hc hthread
    have hqp : q ≠ p := by
      rintro rfl
      refine not_holds ?_ hraw'
      simp [Runtime.release, Runtime.ensured, goto, setThread, FixtureCall.raw]
    have hother : ((s.pushProcess d raw).ensured p d raw).release.threads q = s.threads q :=
      setThread_others q hqp
    rw [Holds, hother] at hraw'
    rw [hentries] at he
    rcases List.mem_append.mp he with he | he
    · exact h.held q raw' hraw' e he c hc hthread
    · obtain rfl := List.mem_singleton.mp he
      obtain rfl := Option.some.inj (hc.symm.trans hfresh.made)
      exact absurd (hthread.symm.trans hfresh.thread) hqp

theorem CreatorOrder.of_effect (h : s.CreatorOrder) (hinv : s.Inv registry)
    (heffect : Effect registry panics s p s') : s'.CreatorOrder := by
  cases heffect with
  | stay => exact h
  | create hidle =>
      refine h.of_same hinv setThread_others (List.prefix_append _ _) rfl fun i hi => .inr ?_
      simpa [Holds, Runtime.create, setThread, FixtureCall.raw, eq_comm] using hi
  | lockSecond hcall =>
      refine h.of_same hinv setThread_others (List.prefix_refl _) rfl fun i hi => .inl ?_
      rw [Holds, hcall]
      simpa [Holds, goto, setThread, FixtureCall.raw] using hi
  | keepProcess hcall => exact h.keepProcess hinv hcall
  | keepTest hcall =>
      refine h.quiet (p := p) hinv (fun q hq => ?_) rfl rfl ?_
      · simp [Runtime.ensured, goto, pushTest, setThread, hq]
      · simp [Runtime.ensured, goto, setThread, FixtureCall.raw]
  | leave hidle =>
      refine h.quiet hinv setThread_others rfl rfl ?_
      rw [leave_threads]
      simp [hidle, FixtureCall.raw]
  | enter hidle =>
      refine h.quiet hinv setThread_others rfl rfl ?_
      simp [Runtime.enter, setThread, hidle, FixtureCall.raw]
  | _ =>
      refine h.quiet hinv setThread_others rfl rfl ?_
      simp [Runtime.unwind, Runtime.release, Runtime.runSetup, Runtime.ensured, Runtime.drop,
        Runtime.give, goto, setThread, FixtureCall.raw]

theorem creatorOrder_inductive (registry : Registry) (panics : ℕ → Bool) :
    (machine registry panics).Inductive (fun _ _ => True)
      fun s => (s.Inv registry ∧ s.LockOk) ∧ s.CreatorOrder where
  init {s} hinit := by
    refine ⟨(inv_inductive registry panics).init hinit, ?_⟩
    rw [hinit]
    exact ⟨.nil, fun p raw _ e he => nomatch he⟩
  step {s e s'} h hok hstep :=
    ⟨(inv_inductive registry panics).step h.1 hok hstep,
      h.2.of_effect h.1.1 (effect_of_step (a := e.2) h.1.1 hstep)⟩

/-- With one thread, the values are stored in the order of their creation. -/
theorem CreatorOrder.storedInOrder (h : s.CreatorOrder)
    (hone : ∀ e ∈ s.store.entries, ∃ c, s.created[e.ptr]? = some c ∧ c.thread = p) :
    s.StoredInOrder := by
  rw [StoredInOrder, List.pairwise_map]
  refine h.stored.imp_of_mem fun {e e'} he he' hlt => ?_
  obtain ⟨c, hc, hthread⟩ := hone e he
  obtain ⟨c', hc', hthread'⟩ := hone e' he'
  exact hlt c c' hc hc' (hthread.trans hthread'.symm)

/-! ## The store -/

theorem popEntries_left_eq_nil :
    (popEntries panics s).left = [] ↔ ∀ e ∈ s.store.entries.tail, panics e.ptr = false := by
  rw [popEntries, popLoop_left_eq_nil, List.dropLast_reverse]
  simp

theorem popEntries_dropped_of_left (h : (popEntries panics s).left = []) :
    (popEntries panics s).dropped = s.store.entries.reverse := by
  have hpops := popLoop_append (fun e : ProcessEntry => panics e.ptr) s.store.entries.reverse
  rw [popEntries] at h ⊢
  rwa [h, List.append_nil] at hpops

theorem storeTornDown_iff (h : s.Inv registry) (hlock : s.LockOk)
    (hcleanup : cleanupProcessFixtures panics s = some s') :
    StoreTornDown s s' ↔
      s.poisoned = false ∧ s.StoredInOrder ∧ ∀ e ∈ s.store.entries.tail, panics e.ptr = false := by
  have hpops := popLoop_append (fun e : ProcessEntry => panics e.ptr) s.store.entries.reverse
  rw [← popEntries_left_eq_nil]
  rcases cleanupProcessFixtures_eq_some hcleanup with ⟨hpoisoned, rfl⟩ | ⟨hunpoisoned, -, hdropped⟩
  · -- the lock panics, although the store is not empty
    refine iff_of_false (fun htorn => ?_) (by simp [hpoisoned])
    obtain ⟨values, hvalues, hperm, -⟩ := htorn.order
    obtain rfl : values = [] := by simpa using hvalues
    exact hlock.poisoned hpoisoned (by simpa using hperm.symm.eq_nil)
  constructor
  · rintro ⟨⟨values, hvalues, hperm, hpairwise⟩, -⟩
    have hsame : values = (popEntries panics s).dropped.map ProcessEntry.ptr :=
      List.append_cancel_left (hvalues.symm.trans hdropped)
    have hleft : (popEntries panics s).left = [] := by
      refine List.length_eq_zero_iff.mp ?_
      have hlength := hperm.length_eq
      have htotal := congrArg List.length hpops
      simp only [hsame, popEntries, List.length_append, List.length_map, List.length_reverse] at *
      omega
    refine ⟨hunpoisoned, ?_, hleft⟩
    rw [hsame, popEntries_dropped_of_left hleft, List.map_reverse, List.pairwise_reverse]
      at hpairwise
    exact hpairwise
  · rintro ⟨-, horder, hleft⟩
    have hstoredAll : s'.dropped = s.dropped ++ (s.store.entries.map ProcessEntry.ptr).reverse := by
      rw [hdropped, popEntries_dropped_of_left hleft, List.map_reverse]
    refine ⟨⟨_, hstoredAll, List.reverse_perm _, List.pairwise_reverse.mpr horder⟩, fun e he => ?_⟩
    have hstored : e.ptr ∈ s.stored.map Prod.snd := stored_iff.mp ⟨e, he, rfl⟩
    have halive : e.ptr ∉ s.dropped := h.alive_of_stored (stored_iff.mpr hstored)
    have hptrs : s.store.entries.map ProcessEntry.ptr = s.stored.map Prod.snd := by simp
    rw [hstoredAll, List.count_append, List.count_eq_zero_of_not_mem halive, Nat.zero_add,
      List.count_reverse, hptrs]
    exact List.count_eq_one_of_mem h.store.cache.nodup hstored

/-- Exactly what keeps cached values from being reclaimed in reverse order: a panic in
`Drop` of any value of the test, or of any stored value but the first; and two threads
that store their values in another order than they created them. -/
theorem cached_fixtures_torn_down_iff (hs : (machine registry panics).Reached s) :
    (∀ p s', step registry panics s (p, .dropTestScope) = some s' →
      (ScopeTornDown s s' p ↔ ∀ i, s.CreatedIn p (s.threads p) i → panics i = false)) ∧
    (∀ s', cleanupProcessFixtures panics s = some s' →
      (StoreTornDown s s' ↔
        s.poisoned = false ∧ s.StoredInOrder ∧
          ∀ e ∈ s.store.entries.tail, panics e.ptr = false)) ∧
    ∀ p, (∀ e ∈ s.store.entries, ∃ c, s.created[e.ptr]? = some c ∧ c.thread = p) →
      s.StoredInOrder := by
  obtain ⟨⟨hinv, hlock⟩, horder⟩ := (creatorOrder_inductive registry panics).reached hs
  exact ⟨fun p s' hstep => scopeTornDown_iff hinv hstep,
    fun s' hcleanup => storeTornDown_iff hinv hlock hcleanup,
    fun p hone => horder.storedInOrder hone⟩

/-! ### A test with two fixtures -/

/-- A scratch directory, and a checkout in it. -/
def checkoutRegistry : Registry where
  defs := [bareFixture "scratch" .test [], bareFixture "checkout" .test ["scratch"]]
  nodup := by decide

/-- The test requests the checkout, which requests the directory. -/
def checkoutTest : List (ℕ × RuntimeAction) :=
  [(0, .enterTestScope "clones"), (0, .request .fixtureGet "checkout"), (0, .advance),
    (0, .advance), (0, .advance), (0, .setupEnds true), (0, .advance), (0, .castEnds true),
    (0, .setupEnds true), (0, .advance), (0, .castEnds true)]

theorem cached_fixtures_torn_down_checkout :
    ∃ s s', (machine checkoutRegistry dropsReturn).Reached s ∧
      step checkoutRegistry dropsReturn s (0, .dropTestScope) = some s' ∧
      s'.dropped = [1, 0] ∧ ScopeTornDown s s' 0 := by
  obtain ⟨s, s', hrun, hstep, hdropped⟩ :
      ∃ s s', (machine checkoutRegistry dropsReturn).run start checkoutTest = some s ∧
        step checkoutRegistry dropsReturn s (0, .dropTestScope) = some s' ∧
        s'.dropped = [1, 0] := ⟨_, _, rfl, rfl, rfl⟩
  have hs := Machine.Reached.of_run (.init rfl) hrun
  exact ⟨s, s', hs, hstep, hdropped,
    ((cached_fixtures_torn_down_iff hs).1 0 s' hstep).mpr fun _ _ => rfl⟩

/-- Two fixtures of the process that have nothing to do with each other. -/
def serverRegistry : Registry where
  defs := [bareFixture "server" .process [], bareFixture "cache" .process []]
  nodup := by decide

/-- The server is created before the cache, by another thread, and stored after it. -/
def serverRace : List (ℕ × RuntimeAction) :=
  [(0, .request .warmUp "server"), (1, .request .warmUp "cache"), (0, .advance), (0, .advance),
    (1, .advance), (1, .advance), (0, .setupEnds true), (1, .setupEnds true), (1, .advance),
    (1, .advance), (0, .advance), (0, .advance)]

/-- The checkout panics in its `Drop`, and the directory is never dropped; and the server,
which was created first, is dropped first. -/
theorem cached_fixtures_torn_down_panicking :
    (¬ ∀ registry panics s, validateFixtureGraph registry = .ok () →
      (machine registry panics).Reached s → ∀ p s',
        step registry panics s (p, .dropTestScope) = some s' → ScopeTornDown s s' p) ∧
    ¬ ∀ registry panics s, validateFixtureGraph registry = .ok () →
      (machine registry panics).Reached s → ∀ s',
        cleanupProcessFixtures panics s = some s' → StoreTornDown s s' := by
  constructor
  · intro h
    let panics : ℕ → Bool := fun i => i = 1
    obtain ⟨s, s', hrun, hstep, hcreated, hdropped⟩ :
        ∃ s s', (machine checkoutRegistry panics).run start checkoutTest = some s ∧
          step checkoutRegistry panics s (0, .dropTestScope) = some s' ∧
          s.CreatedIn 0 (s.threads 0) 0 ∧ s'.dropped = [1] :=
      ⟨_, _, rfl, rfl, ⟨_, rfl, rfl, rfl, rfl⟩, rfl⟩
    have hs := Machine.Reached.of_run (.init rfl) hrun
    have honce := (h checkoutRegistry panics s (by rfl) hs 0 s' hstep).once 0 hcreated
    rw [hdropped] at honce
    cases honce
  · intro h
    obtain ⟨s, s', hrun, hcleanup, hnone, hdropped⟩ :
        ∃ s s', (machine serverRegistry dropsReturn).run start serverRace = some s ∧
          cleanupProcessFixtures dropsReturn s = some s' ∧ s.dropped = [] ∧ s'.dropped = [0, 1] :=
      ⟨_, _, rfl, rfl, rfl, rfl⟩
    have hs := Machine.Reached.of_run (.init rfl) hrun
    obtain ⟨values, hvalues, -, hpairwise⟩ :=
      (h serverRegistry dropsReturn s (by rfl) hs s' hcleanup).order
    rw [hdropped, hnone, List.nil_append] at hvalues
    rw [← hvalues] at hpairwise
    revert hpairwise
    decide

end Runtime

end Skuld
