import Skuld.CargoSkuld.Generate
import Skuld.Coordination.Progress

/-!
# Running under the generated file

`cargo skuld nextest run` hands the generated file to nextest, and every test that
nextest starts still calls `coordinate`.  The file is right if these calls never
wait: what it keeps apart is at least what the tables would.

The world is the one of the processes at the database, with a scheduler: a thread
calls `coordinate` only if the file admits its test beside those that have called
before and are not done (`ScheduledBy`).  What is running only ever shrinks between
two calls (`subperm_running_of_step`), so that it is admitted in every state, and
then every attempt registers (`scheduled_never_waits`).
-/

namespace Skuld

open BoolExpr

/-- The entry that the test has dumped, if `binaryOf` is the binary of its process. -/
def Call.metadata (binaryOf : Process → String) (c : Call) : TestMetadata :=
  ⟨binaryOf c.process, c.name, c.labels.map Label.name, c.filter⟩

section

variable (config : ToolConfigFile) (tests : List TestMetadata)

/-- nextest may run the tests at the same time. -/
structure Admitted (running : List TestMetadata) : Prop where
  subset : running ⊆ tests
  nodup : running.Nodup
  admits : config.Admits (running.map TestMetadata.key)

variable {config tests}

theorem Admitted.nil : Admitted config tests [] :=
  ⟨List.nil_subset _, List.nodup_nil, fun _ _ _ => Nat.zero_le _⟩

theorem Admitted.subperm {running less : List TestMetadata} (h : Admitted config tests running)
    (hless : less.Subperm running) : Admitted config tests less where
  subset := List.Subset.trans hless.subset h.subset
  nodup := by
    obtain ⟨l, hperm, hsublist⟩ := hless
    exact hperm.nodup_iff.mp (h.nodup.sublist hsublist)
  admits name group hgroup := by
    have hcount := h.admits name group hgroup
    rw [List.countP_map] at hcount ⊢
    exact (hless.countP_le _).trans hcount

/-- Tests that run at the same time are not in conflict. -/
theorem Admitted.not_conflicts {B : Bdd String} {running : List TestMetadata}
    (h : Admitted config tests running) (hconfig : config.Describes B tests) {a b : TestMetadata}
    (ha : a ∈ running) (hb : b ∈ running) (hne : a ≠ b) : conflicts B a b ≠ some true := by
  intro hconflict
  have hadj : (conflictGraph B tests).Adj a b :=
    (SimpleGraph.fromRel_adj _ a b).mpr ⟨hne, .inl ⟨h.subset ha, h.subset hb, hconflict⟩⟩
  have hpairwise := (hconfig.admits_iff running h.subset h.nodup).mp h.admits
  have : Std.Symm fun a b => ¬ (conflictGraph B tests).Reachable a b :=
    ⟨fun _ _ hnot hreach => hnot hreach.symm⟩
  exact hpairwise.forall ha hb hne hadj.reachable

end

namespace World

/-- The calls of `coordinate` that are not done: their threads wait or have a guard. -/
def pending (w : World) : List Call :=
  w.calls ++ w.guards.map Guard.call

/-- The tests of these calls. -/
def running (binaryOf : Process → String) (w : World) : List TestMetadata :=
  w.pending.map (Call.metadata binaryOf)

/-- A call comes from a test that is admitted beside the running ones; for the rest,
every `DELETE` is committed in the end, and no PID is given out twice. -/
def ScheduledBy (B : Bdd String) (config : ToolConfigFile) (tests : List TestMetadata)
    (binaryOf : Process → String) (w : World) : Event → Prop
  | .call p name labels serial => ∀ filter, toStorage B serial = some filter →
      Admitted config tests
        (Call.metadata binaryOf ⟨p, name, labels, filter⟩ :: w.running binaryOf)
  | e => w.Undisturbed e

variable {B : Bdd String} {config : ToolConfigFile} {tests : List TestMetadata}
  {binaryOf : Process → String} {w w' : World}

theorem ScheduledBy.undisturbed {e : Event} (h : ScheduledBy B config tests binaryOf w e) :
    w.Undisturbed e := by
  cases e with
  | call p name labels serial => trivial
  | _ => exact h

/-! ## What is running -/

theorem subperm_pending_of_attempt (c : Call) (hc : c ∈ w.calls) {kill : ℕ → Bool} :
    (w.afterAttempt c
      (Skuld.attempt B kill c.process.instanceId w.db c.name c.labels c.filter)).pending.Subperm
        w.pending := by
  cases hattempt : Skuld.attempt B kill c.process.instanceId w.db c.name c.labels c.filter with
  | none => exact (List.erase_sublist.append_right _).subperm
  | some outcome =>
      rcases attempt_eq_some_iff hattempt with ⟨rfl, -⟩ | ⟨id, db', rfl, -⟩
      · exact .refl _
      · -- the caller goes over to the guards
        have hperm : (w.calls.erase c ++ c :: w.guards.map Guard.call).Perm w.pending :=
          List.perm_middle.trans ((List.perm_cons_erase hc).symm.append_right _)
        exact hperm.subperm

theorem subperm_pending_of_step {e : Event} (hstep : World.step B w e = some w')
    (he : ∀ p name labels serial, e ≠ .call p name labels serial) :
    w'.pending.Subperm w.pending := by
  cases e with
  | start p =>
      obtain ⟨-, heq⟩ := Option.ite_none_right_eq_some.mp hstep
      cases heq
      exact .refl _
  | call p name labels serial => exact absurd rfl (he p name labels serial)
  | attempt c kill =>
      obtain ⟨⟨hc, -⟩, heq⟩ := Option.ite_none_right_eq_some.mp hstep
      cases heq
      exact subperm_pending_of_attempt c hc
  | busy c =>
      obtain ⟨-, heq⟩ := Option.ite_none_right_eq_some.mp hstep
      cases heq
      exact .refl _
  | fail c =>
      obtain ⟨-, heq⟩ := Option.ite_none_right_eq_some.mp hstep
      cases heq
      exact (List.erase_sublist.append_right _).subperm
  | delete g =>
      obtain ⟨-, heq⟩ := Option.ite_none_right_eq_some.mp hstep
      cases heq
      exact ((List.erase_sublist.map _).append_left _).subperm
  | deleteBusy g =>
      obtain ⟨-, heq⟩ := Option.ite_none_right_eq_some.mp hstep
      cases heq
      exact .refl _
  | deleteFails g =>
      obtain ⟨-, heq⟩ := Option.ite_none_right_eq_some.mp hstep
      cases heq
      exact ((List.erase_sublist.map _).append_left _).subperm
  | crash p =>
      obtain ⟨-, heq⟩ := Option.ite_none_right_eq_some.mp hstep
      cases heq
      exact (List.filter_sublist.append (List.filter_sublist.map _)).subperm

theorem admitted_of_step {e : Event} (h : Admitted config tests (w.running binaryOf))
    (he : ScheduledBy B config tests binaryOf w e) (hstep : World.step B w e = some w') :
    Admitted config tests (w'.running binaryOf) := by
  have hother : (∀ p name labels serial, e ≠ .call p name labels serial) →
      Admitted config tests (w'.running binaryOf) := by
    intro hne
    obtain ⟨l, hperm, hsublist⟩ := subperm_pending_of_step hstep hne
    exact h.subperm ⟨_, hperm.map _, hsublist.map _⟩
  cases e with
  | call p name labels serial =>
      obtain ⟨-, heq⟩ := Option.ite_none_right_eq_some.mp hstep
      obtain ⟨filter, hfilter, heq⟩ := Option.map_eq_some_iff.mp heq
      cases heq
      exact he filter hfilter
  | _ => exact hother fun _ _ _ _ heq => by cases heq

theorem inductive_admitted :
    (machine B).Inductive (ScheduledBy B config tests binaryOf) fun w =>
      Inv B w ∧ w.Accounted ∧ Admitted config tests (w.running binaryOf) where
  init hinit := by
    obtain ⟨hinv, haccounted⟩ := inductive_accounted.init hinit
    obtain ⟨-, -, -, hcalls, hguards⟩ := hinit
    refine ⟨hinv, haccounted, ?_⟩
    rw [running, pending, hcalls, hguards]
    exact .nil
  step h hok hstep :=
    ⟨h.1.step hstep, h.2.1.step h.1 hok.undisturbed hstep, admitted_of_step h.2.2 hok hstep⟩

/-! ## No waiting -/

/-- A test that runs beside another is not in conflict with its row. -/
theorem not_conflictsWith_of_admitted (hconfig : config.Describes B tests)
    (hserial : ∀ t ∈ tests, IsSerial B t.serialFilter) (hinv : Inv B w)
    (h : Admitted config tests (w.running binaryOf)) {c : Call} (hc : c ∈ w.calls) {g : Guard}
    (hg : g ∈ w.guards) : w.db.conflictsWith B c.labels c.filter g.row = false := by
  have hcmem : c.metadata binaryOf ∈ w.running binaryOf :=
    List.mem_map_of_mem (List.mem_append_left _ hc)
  have hgmem : g.call.metadata binaryOf ∈ w.running binaryOf :=
    List.mem_map_of_mem (List.mem_append_right _ (List.mem_map_of_mem hg))
  have hne : g.call.metadata binaryOf ≠ c.metadata binaryOf := by
    have hnodup := h.nodup
    rw [running, pending, List.map_append, List.nodup_append] at hnodup
    exact (hnodup.2.2 _ (List.mem_map_of_mem hc) _
      (List.mem_map_of_mem (List.mem_map_of_mem hg))).symm
  have hconflict := h.not_conflicts hconfig hgmem hcmem hne
  rw [conflicts_eq (hserial _ (h.subset hgmem)) (hserial _ (h.subset hcmem)), ne_eq,
    Option.some.injEq, Bool.not_eq_true] at hconflict
  calc w.db.conflictsWith B c.labels c.filter g.row
      = (blocks B g.call.filter c.labels ||
          blocksNames B c.filter (g.call.labels.map Label.name)) := by
        rw [Db.conflictsWith, Guard.row, (hinv.guards_held g hg).labelNames_eq]
    _ = (blocksNames B g.call.filter (c.labels.map Label.name) ||
          blocksNames B c.filter (g.call.labels.map Label.name)) := by
        rw [blocksNames_map g.call.filter]
    _ = false := hconflict

/-- Under the schedule every attempt registers, unless the filter is too deep for SQLite. -/
theorem scheduled_never_waits (hconfig : config.Describes B tests)
    (hserial : ∀ t ∈ tests, IsSerial B t.serialFilter) {w : World}
    (h : (machine B).ReachedVia (ScheduledBy B config tests binaryOf) w) {c : Call}
    (hc : c ∈ w.calls) (hshallow : shallow B c.filter = true) {kill : ℕ → Bool}
    (hkill : w.Truthful kill)
    (hended : ∀ p ∈ w.started, p ∉ w.alive → kill p.pid = false) :
    ∃ id db', World.step B w (.attempt c kill) =
      some { w with db := db', calls := w.calls.erase c, guards := ⟨c, id⟩ :: w.guards } := by
  obtain ⟨hinv, haccounted, hadmitted⟩ := inductive_admitted.reached h
  obtain ⟨id, db', hstep, -⟩ := hinv.attempt_of_free hc hshallow hkill fun r hr => by
    obtain ⟨hrow, p, hp, hinstance, howner⟩ := hinv.owner_of_cleaned hc hr
    have halive : p ∈ w.alive := by
      by_contra hnot
      rcases howner with halive | hanswer
      · exact hnot halive
      · rw [hended p hp hnot] at hanswer
        cases hanswer
    rcases haccounted.rows r hrow with ⟨g, hg, hid⟩ | hdead
    · have hsame : r = g.row := Db.eq_of_id hrow (hinv.guards_held g hg).row_mem hid.symm
      rw [hsame]
      exact not_conflictsWith_of_admitted hconfig hserial hinv hadmitted hc hg
    · exact absurd hinstance (hdead p halive)
  exact ⟨id, db', hstep⟩

def queryCall : Call :=
  ⟨⟨7, 100⟩, "query", [⟨"disk", rfl, rfl⟩], ""⟩

/-- The query of the sample tests has called `coordinate`. -/
def queryWorld : World :=
  { initial with started := [⟨7, 100⟩], alive := [⟨7, 100⟩], calls := [queryCall] }

theorem reachedVia_query (hconfig : config.Describes (shannon String) sampleTests) :
    (machine (shannon String)).ReachedVia
      (ScheduledBy (shannon String) config sampleTests fun _ => "app") queryWorld := by
  have hadmits : config.Admits ([⟨"app", "query", ["disk"], ""⟩].map TestMetadata.key) :=
    (hconfig.admits_iff _ (by decide) (List.nodup_singleton _)).mpr (List.pairwise_singleton _ _)
  let started : World := { initial with started := [⟨7, 100⟩], alive := [⟨7, 100⟩] }
  have hstart : (machine (shannon String)).step initial (.start ⟨7, 100⟩) = some started := by
    decide +kernel
  have hcall : (machine (shannon String)).step started
      (.call ⟨7, 100⟩ "query" [⟨"disk", rfl, rfl⟩] "") = some queryWorld := by
    decide +kernel
  have hfresh : ScheduledBy (shannon String) config sampleTests (fun _ => "app") initial
      (.start ⟨7, 100⟩) := List.not_mem_nil
  refine .step (.step (.init ⟨rfl, rfl, rfl, rfl, rfl⟩) hfresh hstart) ?_ hcall
  intro filter hfilter
  obtain rfl : "" = filter := Option.some.inj hfilter
  exact ⟨by decide, List.nodup_singleton _, hadmits⟩

theorem scheduled_never_waits_query :
    ∃ id db', step (shannon String) queryWorld (.attempt queryCall queryWorld.osAnswer) =
      some { queryWorld with db := db', calls := [], guards := [⟨queryCall, id⟩] } := by
  obtain ⟨groups, -, hgroups⟩ := buildGroups_spec (U := .naive) groupable_sampleTests
  have hconfig := describes_toolConfig groupable_sampleTests hgroups
  exact scheduled_never_waits hconfig groupable_sampleTests.serial (reachedVia_query hconfig)
    (List.mem_singleton_self _) (shallow_sentinel (.inl rfl)) queryWorld.truthful_osAnswer
    fun p hp hnot => absurd hp hnot

end World

end Skuld
