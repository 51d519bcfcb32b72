import Skuld.Coordination.World

/-!
# Mutual exclusion

No two guards exclude each other, in any state that the processes can reach.
The invariant is `World.Inv`: every guard holds its row, with its labels, and
the guards are pairwise apart.  Of the steps that write, a registration is the
one that matters: cleaning up does not touch the row of a guard, because its
process runs and is not reported dead (`Inv.held_cleaned`), so the check sees
the rows of all guards and the new guard is apart from them (`Inv.register`).

The cleanup judges a process by its PID, so the converse is not true: a refusal
may be due to a row that a crashed process left behind, when its PID is in use
again.  `refused_has_running_blocker` says that this is the only way.
-/

namespace Skuld

open BoolExpr

variable {B : Bdd String}

namespace World

namespace Inv

variable {w : World}

theorem of_init (hinit : (machine B).init w) : Inv B w := by
  obtain ⟨hrows, hstarted, halive, hcalls, hguards⟩ := hinit
  constructor <;> simp [hrows, hstarted, halive, hcalls, hguards]

theorem start (h : Inv B w) {p : Process} (hp : w.Fresh p) :
    Inv B { w with started := p :: w.started, alive := p :: w.alive } where
  alive_started q hq := by
    rcases List.mem_cons.mp hq with rfl | hq
    · exact List.mem_cons_self
    · exact List.mem_cons_of_mem _ (h.alive_started q hq)
  started_pid q hq := by
    rcases List.mem_cons.mp hq with rfl | hq
    · exact ⟨hp.1, hp.2.1⟩
    · exact h.started_pid q hq
  started_nodup := by
    rw [List.map_cons, List.nodup_cons]
    exact ⟨hp.2.2, h.started_nodup⟩
  rows_started r hr := by
    obtain ⟨q, hq, heq⟩ := h.rows_started r hr
    exact ⟨q, List.mem_cons_of_mem _ hq, heq⟩
  calls_alive c hc := ⟨List.mem_cons_of_mem _ (h.calls_alive c hc).1, (h.calls_alive c hc).2⟩
  guards_alive g hg := List.mem_cons_of_mem _ (h.guards_alive g hg)
  guards_held := h.guards_held
  guards_apart := h.guards_apart

theorem call (h : Inv B w) {c : Call} (hp : c.process ∈ w.alive) (hfilter : IsStored B c.filter) :
    Inv B { w with calls := c :: w.calls } where
  alive_started := h.alive_started
  started_pid := h.started_pid
  started_nodup := h.started_nodup
  rows_started := h.rows_started
  calls_alive c' hc' := by
    rcases List.mem_cons.mp hc' with rfl | hc'
    · exact ⟨hp, hfilter⟩
    · exact h.calls_alive c' hc'
  guards_alive := h.guards_alive
  guards_held := h.guards_held
  guards_apart := h.guards_apart

theorem leave (h : Inv B w) (c : Call) : Inv B { w with calls := w.calls.erase c } where
  alive_started := h.alive_started
  started_pid := h.started_pid
  started_nodup := h.started_nodup
  rows_started := h.rows_started
  calls_alive c' hc' := h.calls_alive c' (List.mem_of_mem_erase hc')
  guards_alive := h.guards_alive
  guards_held := h.guards_held
  guards_apart := h.guards_apart

/-- A guard that goes without its row. -/
theorem abandon (h : Inv B w) (g : Guard) : Inv B { w with guards := w.guards.erase g } where
  alive_started := h.alive_started
  started_pid := h.started_pid
  started_nodup := h.started_nodup
  rows_started := h.rows_started
  calls_alive := h.calls_alive
  guards_alive g' hg' := h.guards_alive g' (List.mem_of_mem_erase hg')
  guards_held g' hg' := h.guards_held g' (List.mem_of_mem_erase hg')
  guards_apart := h.guards_apart.sublist List.erase_sublist

/-- A guard that goes with its row: the row of another guard has another id. -/
theorem delete (h : Inv B w) {g : Guard} (hg : g ∈ w.guards) :
    Inv B { w with
      db := w.db.deleteWhere fun r => r.id = g.id
      guards := w.guards.erase g } where
  alive_started := h.alive_started
  started_pid := h.started_pid
  started_nodup := h.started_nodup
  rows_started r hr := h.rows_started r (Db.mem_deleteWhere.mp hr).1
  calls_alive := h.calls_alive
  guards_alive g' hg' := h.guards_alive g' (List.mem_of_mem_erase hg')
  guards_held g' hg' := by
    have hpairwise : (g :: w.guards.erase g).Pairwise (Guard.Apart B) :=
      ((List.perm_cons_erase hg).pairwise_iff Guard.Apart.symm).mp h.guards_apart
    have hapart : Guard.Apart B g g' := List.rel_of_pairwise_cons hpairwise hg'
    apply (h.guards_held g' (List.mem_of_mem_erase hg')).deleteWhere
    exact decide_eq_false hapart.id_ne.symm
  guards_apart := h.guards_apart.sublist List.erase_sublist

theorem crash (h : Inv B w) (p : Process) : Inv B (w.crash p) where
  alive_started q hq := h.alive_started q (List.mem_of_mem_filter hq)
  started_pid := h.started_pid
  started_nodup := h.started_nodup
  rows_started := h.rows_started
  calls_alive c hc := by
    obtain ⟨hc, hne⟩ := List.mem_filter.mp hc
    exact ⟨List.mem_filter.mpr ⟨(h.calls_alive c hc).1, hne⟩, (h.calls_alive c hc).2⟩
  guards_alive g hg := by
    obtain ⟨hg, hne⟩ := List.mem_filter.mp hg
    exact List.mem_filter.mpr ⟨h.guards_alive g hg, hne⟩
  guards_held g hg := h.guards_held g (List.mem_of_mem_filter hg)
  guards_apart := h.guards_apart.sublist List.filter_sublist

/-- The instance of a running process is not stale. -/
theorem not_isStale (h : Inv B w) {kill : ℕ → Bool} (hkill : w.Truthful kill) {p : Process}
    (hp : p ∈ w.alive) : isStale kill p.instanceId = false := by
  obtain ⟨hpos, hlt⟩ := h.started_pid p (h.alive_started p hp)
  have hpid : pidFromInstanceId p.instanceId = some p.pid :=
    pidFromInstanceId_instanceId (by omega) p.timestamp
  have halive : isPidAlive kill p.pid = true := by
    rw [isPidAlive, if_neg (by omega)]
    exact hkill p hp
  simp [isStale, hpid, halive]

/-- Cleaning up leaves the rows of the guards alone. -/
theorem held_cleaned (h : Inv B w) {kill : ℕ → Bool} (hkill : w.Truthful kill)
    (ourInstance : String) {g : Guard} (hg : g ∈ w.guards) :
    g.Held (cleanStaleEntries kill ourInstance w.db) := by
  rw [cleanStaleEntries_eq]
  apply (h.guards_held g hg).deleteWhere
  rw [Bool.and_eq_false_iff]
  exact .inr (h.not_isStale hkill (h.guards_alive g hg))

/-- A registration: the check saw every guard's row. -/
theorem register (h : Inv B w) {kill : ℕ → Bool} (hkill : w.Truthful kill) {c : Call}
    (hc : c ∈ w.calls) {id : ℕ} {db' : Db}
    (hstart : canStart B (cleanStaleEntries kill c.process.instanceId w.db) c.labels c.filter =
      some true)
    (hnew : Registered (cleanStaleEntries kill c.process.instanceId w.db) db'
      ⟨id, c.process.instanceId, c.name, c.filter⟩ c.labels) :
    Inv B { w with db := db', calls := w.calls.erase c, guards := ⟨c, id⟩ :: w.guards } where
  alive_started := h.alive_started
  started_pid := h.started_pid
  started_nodup := h.started_nodup
  rows_started r hr := by
    rcases hnew.mem_running.mp hr with hr | rfl
    · rw [cleanStaleEntries_eq] at hr
      exact h.rows_started r (Db.mem_deleteWhere.mp hr).1
    · exact ⟨c.process, h.alive_started _ (h.calls_alive c hc).1, rfl⟩
  calls_alive c' hc' := h.calls_alive c' (List.mem_of_mem_erase hc')
  guards_alive g hg := by
    rcases List.mem_cons.mp hg with rfl | hg
    · exact (h.calls_alive c hc).1
    · exact h.guards_alive g hg
  guards_held g hg := by
    rcases List.mem_cons.mp hg with rfl | hg
    · exact ⟨hnew.mem_running.mpr (.inr rfl), hnew.labelNames_new⟩
    · exact (h.held_cleaned hkill _ hg).registered hnew
  guards_apart := by
    refine List.pairwise_cons.mpr ⟨fun g hg => ?_, h.guards_apart⟩
    have hheld := h.held_cleaned hkill c.process.instanceId hg
    have hnone := eq_of_canStart hstart
    rw [eq_comm, Bool.not_eq_true', List.any_eq_false] at hnone
    exact hheld.apart (Db.ids_le _ _ hheld.row_mem) hnew.id_eq
      (by simpa using hnone _ hheld.row_mem)

theorem afterAttempt (h : Inv B w) {kill : ℕ → Bool} (hkill : w.Truthful kill) {c : Call}
    (hc : c ∈ w.calls) :
    Inv B (w.afterAttempt c
      (attempt B kill c.process.instanceId w.db c.name c.labels c.filter)) := by
  cases hattempt : attempt B kill c.process.instanceId w.db c.name c.labels c.filter with
  | none => exact h.leave c
  | some outcome =>
      rcases attempt_eq_some_iff hattempt with ⟨rfl, -⟩ | ⟨id, db', rfl, hstart, hnew⟩
      · exact h
      · exact h.register hkill hc hstart hnew

theorem step (h : Inv B w) {e : Event} {w' : World} (hstep : World.step B w e = some w') :
    Inv B w' := by
  cases e with
  | start p =>
      obtain ⟨hp, heq⟩ := Option.ite_none_right_eq_some.mp hstep
      cases heq
      exact h.start hp
  | call p name labels serial =>
      obtain ⟨hp, heq⟩ := Option.ite_none_right_eq_some.mp hstep
      obtain ⟨filter, hfilter, heq⟩ := Option.map_eq_some_iff.mp heq
      cases heq
      exact h.call (c := ⟨p, name, labels, filter⟩) hp (toStorage_spec hfilter).1
  | attempt c kill =>
      obtain ⟨⟨hc, hkill⟩, heq⟩ := Option.ite_none_right_eq_some.mp hstep
      cases heq
      exact h.afterAttempt hkill hc
  | busy c =>
      obtain ⟨-, heq⟩ := Option.ite_none_right_eq_some.mp hstep
      cases heq
      exact h
  | fail c =>
      obtain ⟨-, heq⟩ := Option.ite_none_right_eq_some.mp hstep
      cases heq
      exact h.leave c
  | delete g =>
      obtain ⟨hg, heq⟩ := Option.ite_none_right_eq_some.mp hstep
      cases heq
      exact h.delete hg
  | deleteBusy g =>
      obtain ⟨-, heq⟩ := Option.ite_none_right_eq_some.mp hstep
      cases heq
      exact h
  | deleteFails g =>
      obtain ⟨-, heq⟩ := Option.ite_none_right_eq_some.mp hstep
      cases heq
      exact h.abandon g
  | crash p =>
      obtain ⟨-, heq⟩ := Option.ite_none_right_eq_some.mp hstep
      cases heq
      exact h.crash p

end Inv

theorem inductive_inv : (machine B).Inductive (fun _ _ => True) (Inv B) where
  init := Inv.of_init
  step h _ hstep := h.step hstep

theorem inv_of_reached {w : World} (h : (machine B).Reached w) : Inv B w :=
  inductive_inv.reached h

/-- Every guard has its row, with its labels, and no two guards exclude each
other. -/
theorem mutual_exclusion {w : World} (h : (machine B).Reached w) :
    (∀ g ∈ w.guards, g.row ∈ w.db.running ∧
      w.db.labelNames g.id = g.call.labels.map Label.name) ∧
    w.guards.Pairwise fun g h =>
      g.id ≠ h.id ∧ g.call.filter ≠ serialAll ∧ h.call.filter ≠ serialAll ∧
        blocks B g.call.filter h.call.labels = false ∧
        blocks B h.call.filter g.call.labels = false := by
  have hinv := inv_of_reached h
  constructor
  · intro g hg
    exact ⟨(hinv.guards_held g hg).row_mem, (hinv.guards_held g hg).labelNames_eq⟩
  · apply hinv.guards_apart.imp
    intro g h hgh
    exact ⟨hgh.id_ne, hgh.ne_serialAll.1, hgh.ne_serialAll.2, hgh.left, hgh.right⟩

/-- Nothing has happened yet. -/
def initial : World := ⟨.empty, [], [], [], []⟩

theorem reached_initial : (machine B).Reached initial :=
  .init ⟨rfl, rfl, rfl, rfl, rfl⟩

/-- Two processes with a plain test each; a third test wants to be alone. -/
def sharedRun : List Event :=
  let p : Process := ⟨7, 100⟩
  let q : Process := ⟨8, 100⟩
  let kill := fun pid => pid = 7 || pid = 8
  [.start p, .start q, .call p "a" [⟨"net", rfl, rfl⟩] "", .call q "b" [] "", .call q "c" [] "*",
    .attempt ⟨p, "a", [⟨"net", rfl, rfl⟩], ""⟩ kill, .attempt ⟨q, "b", [], ""⟩ kill,
    .attempt ⟨q, "c", [], "*"⟩ kill]

theorem mutual_exclusion_shared :
    ∃ w, (machine (shannon String)).run initial sharedRun = some w ∧ w.guards.length = 2 ∧
      w.guards.Pairwise fun g h => blocks (shannon String) g.call.filter h.call.labels = false := by
  have hlength : (((machine (shannon String)).run initial sharedRun).map fun w =>
      w.guards.length) = some 2 := by decide +kernel
  obtain ⟨w, hrun, hlength⟩ := Option.map_eq_some_iff.mp hlength
  refine ⟨w, hrun, hlength, ?_⟩
  exact (mutual_exclusion (reached_initial.of_run hrun)).2.imp fun h => h.2.2.2.1

/-! ## Refusals -/

variable (B) in
/-- The check right after the cleanup answers no. -/
def Refused (w : World) (c : Call) (kill : ℕ → Bool) : Prop :=
  canStart B (cleanStaleEntries kill c.process.instanceId w.db) c.labels c.filter = some false

variable (B) in
/-- A row that conflicts with the caller belongs to a running process. -/
def RunningBlocker (w : World) (c : Call) (kill : ℕ → Bool) : Prop :=
  ∃ r ∈ (cleanStaleEntries kill c.process.instanceId w.db).running,
    (cleanStaleEntries kill c.process.instanceId w.db).conflictsWith B c.labels c.filter r = true ∧
      ∃ p ∈ w.alive, r.instanceId = p.instanceId

variable (B) in
/-- No conflicting row was left by an ended process whose PID is in use again. -/
def NoReusedPid (w : World) : Event → Prop
  | .attempt c kill => ∀ r ∈ w.db.running, w.db.conflictsWith B c.labels c.filter r = true →
      ∀ p ∈ w.started, p ∉ w.alive → r.instanceId = p.instanceId → kill p.pid = false
  | _ => True

instance (w : World) : (e : Event) → Decidable (NoReusedPid B w e)
  | .attempt _ _ => List.decidableBAll _ _
  | .start _ | .call .. | .busy _ | .fail _ | .delete _ | .deleteBusy _ | .deleteFails _
  | .crash _ => isTrue trivial

namespace Inv

variable {w : World}

/-- Cleaning up does not change what a row that stays conflicts with. -/
theorem conflictsWith_cleaned {kill : ℕ → Bool} {ourInstance : String} {r : RunningRow}
    (hr : r ∈ (cleanStaleEntries kill ourInstance w.db).running) (labels : List Label)
    (filter : String) :
    (cleanStaleEntries kill ourInstance w.db).conflictsWith B labels filter r =
      w.db.conflictsWith B labels filter r := by
  rw [cleanStaleEntries_eq] at hr ⊢
  obtain ⟨hr, hkept⟩ := Db.mem_deleteWhere.mp hr
  rw [Db.conflictsWith, Db.labelNames_deleteWhere hr hkept, ← Db.conflictsWith]

theorem any_conflictsWith_cleaned {kill : ℕ → Bool} {ourInstance : String} (labels : List Label)
    (filter : String) :
    ((cleanStaleEntries kill ourInstance w.db).running.any
        ((cleanStaleEntries kill ourInstance w.db).conflictsWith B labels filter)) = true ↔
      ∃ r ∈ (cleanStaleEntries kill ourInstance w.db).running,
        w.db.conflictsWith B labels filter r = true := by
  rw [List.any_eq_true]
  refine exists_congr fun r => and_congr_right fun hr => ?_
  rw [conflictsWith_cleaned hr]

theorem conflict_of_refused {c : Call} {kill : ℕ → Bool} (h : Refused B w c kill) :
    ∃ r ∈ (cleanStaleEntries kill c.process.instanceId w.db).running,
      w.db.conflictsWith B c.labels c.filter r = true := by
  have hconflict := eq_of_canStart h
  rw [eq_comm, Bool.not_eq_false'] at hconflict
  exact (any_conflictsWith_cleaned _ _).mp hconflict

/-- An attempt with a filter that is not too deep is refused for a conflict only. -/
theorem refused_iff (h : Inv B w) {c : Call} (hc : c ∈ w.calls)
    (hshallow : shallow B c.filter = true) {kill : ℕ → Bool} :
    Refused B w c kill ↔ ∃ r ∈ (cleanStaleEntries kill c.process.instanceId w.db).running,
      w.db.conflictsWith B c.labels c.filter r = true := by
  rw [Refused, canStart_eq_some (h.calls_alive c hc).2.isSerial hshallow, Option.some.injEq,
    Bool.not_eq_false', any_conflictsWith_cleaned]

/-- A row that survives the cleanup belongs to a running process, or to an ended
one whose PID is in use. -/
theorem owner_of_cleaned (h : Inv B w) {c : Call} (hc : c ∈ w.calls) {kill : ℕ → Bool}
    {r : RunningRow} (hr : r ∈ (cleanStaleEntries kill c.process.instanceId w.db).running) :
    r ∈ w.db.running ∧ ∃ p ∈ w.started, r.instanceId = p.instanceId ∧
      (p ∈ w.alive ∨ kill p.pid = true) := by
  rw [cleanStaleEntries_eq] at hr
  obtain ⟨hr, hkept⟩ := Db.mem_deleteWhere.mp hr
  obtain ⟨p, hp, hinstance⟩ := h.rows_started r hr
  refine ⟨hr, p, hp, hinstance, ?_⟩
  rcases Bool.and_eq_false_iff.mp hkept with hours | hstale
  · -- our own row: instance ids are given out once
    have hcaller : c.process ∈ w.alive := (h.calls_alive c hc).1
    have hsame : p = c.process := by
      apply List.inj_on_of_nodup_map h.started_nodup hp (h.alive_started _ hcaller)
      rw [← hinstance]
      simpa using hours
    exact .inl (hsame ▸ hcaller)
  · have hpid : pidFromInstanceId p.instanceId = some p.pid :=
      pidFromInstanceId_instanceId (by have := h.started_pid p hp; omega) p.timestamp
    rw [hinstance, isStale, hpid, Option.all_some, Bool.not_eq_false', isPidAlive] at hstale
    split_ifs at hstale
    exact .inr hstale

/-- The condition leaves out nothing else: an attempt that does not meet it is
refused, if its query is not. -/
theorem refused_of_reusedPid (h : Inv B w) {c : Call} (hc : c ∈ w.calls)
    (hshallow : shallow B c.filter = true) {kill : ℕ → Bool}
    (hpids : ¬ NoReusedPid B w (.attempt c kill)) : Refused B w c kill := by
  simp only [NoReusedPid, not_forall, Bool.not_eq_false] at hpids
  obtain ⟨r, hr, hconflict, p, hp, -, hinstance, hkill⟩ := hpids
  refine (h.refused_iff hc hshallow).mpr ⟨r, ?_, hconflict⟩
  have hpid := h.started_pid p hp
  have hstale : isStale kill r.instanceId = false := by
    rw [hinstance, isStale, Process.instanceId, pidFromInstanceId_instanceId (by omega),
      Option.all_some, Bool.not_eq_false', isPidAlive, if_neg (by omega), hkill]
  rw [cleanStaleEntries_eq]
  exact Db.mem_deleteWhere.mpr ⟨hr, by rw [hstale, Bool.and_false]⟩

end Inv

/-- A refusal has a running blocker, in every run in which no attempt meets a
conflicting row of an ended process whose PID is in use again. -/
theorem refused_has_running_blocker {w : World}
    (h : (machine B).ReachedVia (NoReusedPid B) w) {c : Call} (hc : c ∈ w.calls)
    {kill : ℕ → Bool} (hpids : NoReusedPid B w (.attempt c kill))
    (hrefused : Refused B w c kill) : RunningBlocker B w c kill := by
  have hinv := inv_of_reached h.reached
  obtain ⟨r, hr, hconflict⟩ := Inv.conflict_of_refused hrefused
  obtain ⟨hrow, p, hp, hinstance, howner⟩ := hinv.owner_of_cleaned hc hr
  refine ⟨r, hr, (Inv.conflictsWith_cleaned hr _ _).trans hconflict, p, ?_, hinstance⟩
  rcases howner with halive | hinUse
  · exact halive
  · by_contra hended
    rw [hpids r hrow hconflict p hp hended hinstance] at hinUse
    cases hinUse

/-- A test that must be alone is running, and another process asks. -/
def blockedRun : List Event :=
  [.start ⟨7, 100⟩, .start ⟨8, 100⟩, .call ⟨7, 100⟩ "alone" [] "*",
    .attempt ⟨⟨7, 100⟩, "alone", [], "*"⟩ (fun _ => true), .call ⟨8, 100⟩ "plain" [] ""]

theorem refused_has_running_blocker_alone :
    ∃ w, (machine (shannon String)).run initial blockedRun = some w ∧
      RunningBlocker (shannon String) w ⟨⟨8, 100⟩, "plain", [], ""⟩ fun _ => true := by
  let caller : Call := ⟨⟨8, 100⟩, "plain", [], ""⟩
  have hfacts : ((((machine (shannon String)).restrict (NoReusedPid (shannon String))).run
      initial blockedRun).map fun w => decide ((machine (shannon String)).run initial blockedRun =
        some w ∧ caller ∈ w.calls ∧
        NoReusedPid (shannon String) w (.attempt caller fun _ => true) ∧
        canStart (shannon String) (cleanStaleEntries (fun _ => true) caller.process.instanceId w.db)
          [] "" = some false)) = some true := by
    decide +kernel
  obtain ⟨w, hrun, hfacts⟩ := Option.map_eq_some_iff.mp hfacts
  obtain ⟨hw, hcall, hpids, hrefused⟩ := of_decide_eq_true hfacts
  refine ⟨w, hw, refused_has_running_blocker ?_ hcall hpids hrefused⟩
  exact Machine.ReachedVia.of_run (.init ⟨rfl, rfl, rfl, rfl, rfl⟩) hrun

/-- A process registers a test that must be alone and crashes; the next process
gets its PID and asks to start a plain test. -/
def reusedPidRun : List Event :=
  [.start ⟨7, 100⟩, .call ⟨7, 100⟩ "alone" [] "*",
    .attempt ⟨⟨7, 100⟩, "alone", [], "*"⟩ fun pid => pid = 7,
    .crash ⟨7, 100⟩, .start ⟨7, 200⟩, .call ⟨7, 200⟩ "plain" [] ""]

/-- Every attempt of the second process is refused, though no other process runs. -/
theorem refused_by_ended_process :
    ¬ ∀ w, (machine (shannon String)).Reached w → ∀ c ∈ w.calls, ∀ kill, w.Truthful kill →
      Refused (shannon String) w c kill → RunningBlocker (shannon String) w c kill := by
  intro hclaim
  have hfacts : (((machine (shannon String)).run initial reusedPidRun).map fun w =>
      decide (⟨⟨7, 200⟩, "plain", [], ""⟩ ∈ w.calls ∧ w.Truthful (fun pid => pid = 7) ∧
        canStart (shannon String) (cleanStaleEntries (fun pid => pid = 7) "7:200" w.db) [] "" =
          some false ∧
        ∀ r ∈ (cleanStaleEntries (fun pid => pid = 7) "7:200" w.db).running, ∀ p ∈ w.alive,
          r.instanceId ≠ p.instanceId)) = some true := by
    decide +kernel
  obtain ⟨w, hrun, hfacts⟩ := Option.map_eq_some_iff.mp hfacts
  obtain ⟨hcall, hkill, hrefused, hended⟩ := of_decide_eq_true hfacts
  have hinstance : (⟨7, 200⟩ : Process).instanceId = "7:200" := by decide +kernel
  obtain ⟨r, hr, -, p, hp, hsame⟩ :=
    hclaim w (reached_initial.of_run hrun) _ hcall _ hkill
      (by rw [Refused, hinstance]; exact hrefused)
  rw [hinstance] at hr
  exact hended r hr p hp hsame

end World

end Skuld
