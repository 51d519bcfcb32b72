import Skuld.Coordination.Exclusion

/-!
# Progress

When can a thread that waits in the loop of `coordinate` still get its turn?  A
row goes away with its guard, or when the cleanup finds its process dead.  What
is left are the rows that nobody deletes any more although their PID is in use
(`Stuck`): a guard lost its row without deleting it, or an ended process left it
and its PID was given out again.

* As long as no process ends, a stuck row stays (`Stuck.step`), and nobody in
  conflict with it registers, whatever else happens (`Stuck.not_starts`).
* Without such a row it is enough that the running tests end: after the `DELETE`s
  of all guards the next attempt registers (`Inv.attempt_registers`), unless the
  filter is too deep for a query, with which nobody ever registers.

Together this says exactly which threads can still register (`registers_iff`).  If
no `DELETE` fails and no PID is given out twice there are no stuck rows, and the
waiting threads can be served in any order (`calls_served_in_any_order`).
-/

namespace Skuld

open BoolExpr

variable {B : Bdd String}

def Event.crashes : Event → Bool
  | .crash _ => true
  | _ => false

namespace World

/-- What `kill` answers if it knows exactly the running processes. -/
def osAnswer (w : World) (pid : ℕ) : Bool :=
  w.alive.any fun p => p.pid = pid

/-- A row without a guard whose PID is in use. -/
structure Stuck (w : World) (r : RunningRow) : Prop where
  row_mem : r ∈ w.db.running
  no_guard : ∀ g ∈ w.guards, g.id ≠ r.id
  in_use : ∃ p ∈ w.started, r.instanceId = p.instanceId ∧ ∃ q ∈ w.alive, q.pid = p.pid

variable {w w' : World} {r : RunningRow}

theorem truthful_osAnswer (w : World) : w.Truthful w.osAnswer := by
  intro p hp
  exact List.any_eq_true.mpr ⟨p, hp, decide_eq_true rfl⟩

/-! ## Stuck rows stay -/

/-- A PID in use is never reported dead. -/
theorem Stuck.not_isStale (hinv : Inv B w) (h : w.Stuck r) {kill : ℕ → Bool}
    (hkill : w.Truthful kill) : isStale kill r.instanceId = false := by
  obtain ⟨p, hp, hinstance, q, hq, hpid⟩ := h.in_use
  obtain ⟨hpos, hlt⟩ := hinv.started_pid p hp
  have hparsed : pidFromInstanceId p.instanceId = some p.pid :=
    pidFromInstanceId_instanceId (by omega) p.timestamp
  have halive : isPidAlive kill p.pid = true := by
    rw [isPidAlive, if_neg (by omega), ← hpid]
    exact hkill q hq
  rw [hinstance, isStale, hparsed, Option.all_some, halive]
  rfl

theorem Stuck.mem_cleaned (hinv : Inv B w) (h : w.Stuck r) {kill : ℕ → Bool}
    (hkill : w.Truthful kill) (ourInstance : String) :
    r ∈ (cleanStaleEntries kill ourInstance w.db).running := by
  rw [cleanStaleEntries_eq]
  refine Db.mem_deleteWhere.mpr ⟨h.row_mem, ?_⟩
  rw [h.not_isStale hinv hkill, Bool.and_false]

theorem labelNames_cleaned {kill : ℕ → Bool} {ourInstance : String}
    (hr : r ∈ (cleanStaleEntries kill ourInstance w.db).running) :
    (cleanStaleEntries kill ourInstance w.db).labelNames r.id = w.db.labelNames r.id := by
  rw [cleanStaleEntries_eq] at hr ⊢
  obtain ⟨hr, hkept⟩ := Db.mem_deleteWhere.mp hr
  exact Db.labelNames_deleteWhere hr hkept

/-- Nobody in conflict with a stuck row can start. -/
theorem Stuck.not_starts (hinv : Inv B w) (h : w.Stuck r) {c : Call} {kill : ℕ → Bool}
    (hkill : w.Truthful kill)
    (hstart : canStart B (cleanStaleEntries kill c.process.instanceId w.db) c.labels c.filter =
      some true) : w.db.conflictsWith B c.labels c.filter r = false := by
  have hnone := eq_of_canStart hstart
  rw [eq_comm, Bool.not_eq_true', List.any_eq_false] at hnone
  have hcleaned := h.mem_cleaned hinv hkill c.process.instanceId
  rw [← Inv.conflictsWith_cleaned hcleaned]
  simpa using hnone r hcleaned

/-- A guard comes from an attempt whose check says yes. -/
theorem new_guard_of_step {e : Event} (hstep : World.step B w e = some w') {g : Guard}
    (hg : g ∈ w'.guards) (hold : g ∉ w.guards) :
    ∃ kill, w.Truthful kill ∧
      canStart B (cleanStaleEntries kill g.call.process.instanceId w.db) g.call.labels
        g.call.filter = some true := by
  cases e with
  | start p =>
      obtain ⟨-, heq⟩ := Option.ite_none_right_eq_some.mp hstep
      cases heq
      exact absurd hg hold
  | call p name labels serial =>
      obtain ⟨-, heq⟩ := Option.ite_none_right_eq_some.mp hstep
      obtain ⟨filter, -, heq⟩ := Option.map_eq_some_iff.mp heq
      cases heq
      exact absurd hg hold
  | attempt c kill =>
      obtain ⟨⟨-, hkill⟩, heq⟩ := Option.ite_none_right_eq_some.mp hstep
      cases heq
      cases hattempt :
          Skuld.attempt B kill c.process.instanceId w.db c.name c.labels c.filter with
      | none =>
          rw [hattempt] at hg
          exact absurd hg hold
      | some outcome =>
          rw [hattempt] at hg
          rcases attempt_eq_some_iff hattempt with ⟨rfl, -⟩ | ⟨id, db', rfl, hstart, -⟩
          · exact absurd hg hold
          · obtain rfl : g = ⟨c, id⟩ := (List.mem_cons.mp hg).resolve_right hold
            exact ⟨kill, hkill, hstart⟩
  | busy c | fail c =>
      obtain ⟨-, heq⟩ := Option.ite_none_right_eq_some.mp hstep
      cases heq
      exact absurd hg hold
  | delete g' | deleteFails g' =>
      obtain ⟨-, heq⟩ := Option.ite_none_right_eq_some.mp hstep
      cases heq
      exact absurd (List.mem_of_mem_erase hg) hold
  | deleteBusy g' =>
      obtain ⟨-, heq⟩ := Option.ite_none_right_eq_some.mp hstep
      cases heq
      exact absurd hg hold
  | crash p =>
      obtain ⟨-, heq⟩ := Option.ite_none_right_eq_some.mp hstep
      cases heq
      exact absurd (List.mem_of_mem_filter hg) hold

/-- Whoever registers has a filter that is not too deep. -/
theorem shallow_of_run {events : List Event} (hrun : (machine B).run w events = some w') :
    ∀ g ∈ w'.guards, g ∉ w.guards → shallow B g.call.filter = true := by
  induction events generalizing w with
  | nil =>
      rw [Machine.run, Option.some.injEq] at hrun
      subst hrun
      exact fun g hg hold => absurd hg hold
  | cons e events ih =>
      rw [Machine.run, Option.bind_eq_some_iff] at hrun
      obtain ⟨middle, hstep, hrun⟩ := hrun
      intro g hg hold
      by_cases hmiddle : g ∈ middle.guards
      · obtain ⟨kill, -, hstart⟩ := new_guard_of_step hstep hmiddle hold
        exact shallow_of_canStart hstart
      · exact ih hrun g hg hmiddle

/-- What an attempt does to a stuck row: nothing. -/
theorem Stuck.attempt (hinv : Inv B w) (h : w.Stuck r) {c : Call} {kill : ℕ → Bool}
    (hkill : w.Truthful kill) {after : World}
    (hafter : after = w.afterAttempt c
      (attempt B kill c.process.instanceId w.db c.name c.labels c.filter)) :
    after.Stuck r ∧ after.db.labelNames r.id = w.db.labelNames r.id := by
  subst hafter
  cases hattempt : Skuld.attempt B kill c.process.instanceId w.db c.name c.labels c.filter with
  | none => exact ⟨⟨h.row_mem, h.no_guard, h.in_use⟩, rfl⟩
  | some outcome =>
      rcases attempt_eq_some_iff hattempt with ⟨rfl, -⟩ | ⟨id, db', rfl, hstart, hnew⟩
      · exact ⟨h, rfl⟩
      · have hcleaned := h.mem_cleaned hinv hkill c.process.instanceId
        refine ⟨⟨hnew.mem_running.mpr (.inl hcleaned), fun g hg => ?_, h.in_use⟩, ?_⟩
        · rcases List.mem_cons.mp hg with rfl | hg
          · have hle := Db.ids_le _ r hcleaned
            have hid := hnew.id_eq
            simp only at hid ⊢
            omega
          · exact h.no_guard g hg
        · exact (hnew.labelNames_old hcleaned).trans (labelNames_cleaned hcleaned)

theorem Stuck.step (hinv : Inv B w) (h : w.Stuck r) {e : Event} (he : e.crashes = false)
    (hstep : World.step B w e = some w') :
    w'.Stuck r ∧ w'.db.labelNames r.id = w.db.labelNames r.id := by
  obtain ⟨p, hp, hinstance, q, hq, hpid⟩ := h.in_use
  cases e with
  | start p' =>
      obtain ⟨-, heq⟩ := Option.ite_none_right_eq_some.mp hstep
      cases heq
      exact ⟨⟨h.row_mem, h.no_guard, p, List.mem_cons_of_mem _ hp, hinstance, q,
        List.mem_cons_of_mem _ hq, hpid⟩, rfl⟩
  | call p' name labels serial =>
      obtain ⟨-, heq⟩ := Option.ite_none_right_eq_some.mp hstep
      obtain ⟨filter, -, heq⟩ := Option.map_eq_some_iff.mp heq
      cases heq
      exact ⟨⟨h.row_mem, h.no_guard, h.in_use⟩, rfl⟩
  | attempt c kill =>
      obtain ⟨⟨-, hkill⟩, heq⟩ := Option.ite_none_right_eq_some.mp hstep
      exact h.attempt hinv hkill (Option.some.inj heq).symm
  | busy c =>
      obtain ⟨-, heq⟩ := Option.ite_none_right_eq_some.mp hstep
      cases heq
      exact ⟨h, rfl⟩
  | fail c =>
      obtain ⟨-, heq⟩ := Option.ite_none_right_eq_some.mp hstep
      cases heq
      exact ⟨⟨h.row_mem, h.no_guard, h.in_use⟩, rfl⟩
  | delete g =>
      obtain ⟨hg, heq⟩ := Option.ite_none_right_eq_some.mp hstep
      cases heq
      have hkept : decide (r.id = g.id) = false := decide_eq_false (h.no_guard g hg).symm
      exact ⟨⟨Db.mem_deleteWhere.mpr ⟨h.row_mem, hkept⟩,
        fun g' hg' => h.no_guard g' (List.mem_of_mem_erase hg'), h.in_use⟩,
        Db.labelNames_deleteWhere h.row_mem hkept⟩
  | deleteBusy g =>
      obtain ⟨-, heq⟩ := Option.ite_none_right_eq_some.mp hstep
      cases heq
      exact ⟨h, rfl⟩
  | deleteFails g =>
      obtain ⟨-, heq⟩ := Option.ite_none_right_eq_some.mp hstep
      cases heq
      exact ⟨⟨h.row_mem, fun g' hg' => h.no_guard g' (List.mem_of_mem_erase hg'), h.in_use⟩, rfl⟩
  | crash p' => cases he

/-- Over a run in which no process ends. -/
theorem Stuck.run {events : List Event} (hinv : Inv B w) (h : w.Stuck r)
    (hcrash : ∀ e ∈ events, e.crashes = false)
    (hrun : (machine B).run w events = some w') :
    w'.Stuck r ∧ ∀ g ∈ w'.guards, g ∉ w.guards →
      w.db.conflictsWith B g.call.labels g.call.filter r = false := by
  induction events generalizing w with
  | nil =>
      rw [Machine.run, Option.some.injEq] at hrun
      subst hrun
      exact ⟨h, fun g hg hold => absurd hg hold⟩
  | cons e events ih =>
      rw [Machine.run, Option.bind_eq_some_iff] at hrun
      obtain ⟨middle, hstep, hrun⟩ := hrun
      obtain ⟨hstuck, hlabels⟩ := h.step hinv (hcrash e List.mem_cons_self) hstep
      obtain ⟨hlast, hguards⟩ := ih (hinv.step hstep) hstuck
        (fun e' he' => hcrash e' (List.mem_cons_of_mem _ he')) hrun
      refine ⟨hlast, fun g hg hold => ?_⟩
      by_cases hmiddle : g ∈ middle.guards
      · -- the check of the new guard saw the stuck row
        obtain ⟨kill, hkill, hstart⟩ := new_guard_of_step hstep hmiddle hold
        exact h.not_starts hinv hkill hstart
      · have hlater := hguards g hg hmiddle
        rwa [Db.conflictsWith, hlabels] at hlater

/-! ## Without stuck rows -/

theorem Inv.run {events : List Event} (hinv : Inv B w)
    (hrun : (machine B).run w events = some w') : Inv B w' :=
  Machine.run_preserves (fun h hstep => h.step hstep) hinv hrun

/-- The `DELETE`s of all guards have been committed. -/
def drained (w : World) : World :=
  { w with
    db := w.db.deleteWhere fun r => w.guards.any fun g => r.id = g.id
    guards := [] }

theorem run_deletes (w : World) :
    (machine B).run w (w.guards.map .delete) = some w.drained := by
  obtain ⟨db, started, alive, calls, guards⟩ := w
  unfold drained
  dsimp only
  induction guards generalizing db with
  | nil =>
      have hnone : db.deleteWhere (fun r => ([] : List Guard).any fun g => r.id = g.id) = db :=
        Db.deleteWhere_none fun r _ => rfl
      rw [hnone]
      rfl
  | cons g guards ih =>
      have hstep : step B ⟨db, started, alive, calls, g :: guards⟩ (.delete g) =
          some ⟨db.deleteWhere fun r => r.id = g.id, started, alive, calls, guards⟩ := by
        rw [step, if_pos List.mem_cons_self, List.erase_cons_head]
      rw [List.map_cons, Machine.run, show (machine B).step = step B from rfl, hstep,
        Option.bind_some, ih, Db.deleteWhere_deleteWhere]
      rfl

theorem Stuck.of_drained (h : w.drained.Stuck r) : w.Stuck r := by
  obtain ⟨hr, hdeleted⟩ := Db.mem_deleteWhere.mp h.row_mem
  refine ⟨hr, fun g hg heq => ?_, h.in_use⟩
  rw [List.any_eq_false] at hdeleted
  exact hdeleted g hg (decide_eq_true heq.symm)

theorem conflictsWith_drained (hr : r ∈ w.drained.db.running) (labels : List Label)
    (filter : String) :
    w.drained.db.conflictsWith B labels filter r = w.db.conflictsWith B labels filter r := by
  obtain ⟨hr, hkept⟩ := Db.mem_deleteWhere.mp hr
  rw [Db.conflictsWith, drained, Db.labelNames_deleteWhere hr hkept, ← Db.conflictsWith]

/-- If no row that the cleanup leaves is in conflict, an attempt registers. -/
theorem Inv.attempt_of_free (hinv : Inv B w) {c : Call} (hc : c ∈ w.calls)
    (hshallow : shallow B c.filter = true) {kill : ℕ → Bool} (hkill : w.Truthful kill)
    (hfree : ∀ r ∈ (cleanStaleEntries kill c.process.instanceId w.db).running,
      w.db.conflictsWith B c.labels c.filter r = false) :
    ∃ id db', World.step B w (.attempt c kill) =
        some { w with db := db', calls := w.calls.erase c, guards := ⟨c, id⟩ :: w.guards } ∧
      Registered (cleanStaleEntries kill c.process.instanceId w.db) db'
        ⟨id, c.process.instanceId, c.name, c.filter⟩ c.labels := by
  have haccepted : ¬ Refused B w c kill := by
    intro hrefused
    obtain ⟨r, hr, hconflict⟩ := Inv.conflict_of_refused hrefused
    rw [hfree r hr] at hconflict
    cases hconflict
  have hstart : canStart B (cleanStaleEntries kill c.process.instanceId w.db) c.labels
      c.filter = some true := by
    rw [Refused, canStart_eq_some (hinv.calls_alive c hc).2.isSerial hshallow] at haccepted
    rw [canStart_eq_some (hinv.calls_alive c hc).2.isSerial hshallow]
    simpa using haccepted
  obtain ⟨db', hregister, hnew⟩ := register_spec
    (cleanStaleEntries kill c.process.instanceId w.db) c.process.instanceId c.name c.labels
    c.filter
  refine ⟨_, db', ?_, hnew⟩
  have hattempt : Skuld.attempt B kill c.process.instanceId w.db c.name c.labels c.filter =
      some (some ((cleanStaleEntries kill c.process.instanceId w.db).sequence + 1, db')) := by
    rw [Skuld.attempt]
    simp only [hstart, hregister, Option.map_some]
  rw [World.step, if_pos ⟨hc, hkill⟩, hattempt, World.afterAttempt]

/-- With no guard and no stuck row in its way, an attempt registers. -/
theorem Inv.attempt_registers (hinv : Inv B w) (hguards : w.guards = []) {c : Call}
    (hc : c ∈ w.calls) (hshallow : shallow B c.filter = true)
    (hfree : ∀ r, w.Stuck r → w.db.conflictsWith B c.labels c.filter r = false) :
    ∃ id db', World.step B w (.attempt c w.osAnswer) =
        some { w with db := db', calls := w.calls.erase c, guards := [⟨c, id⟩] } ∧
      Registered (cleanStaleEntries w.osAnswer c.process.instanceId w.db) db'
        ⟨id, c.process.instanceId, c.name, c.filter⟩ c.labels := by
  rw [← hguards]
  refine hinv.attempt_of_free hc hshallow w.truthful_osAnswer fun r hr => ?_
  obtain ⟨hrow, p, hp, hinstance, howner⟩ := hinv.owner_of_cleaned hc hr
  have huse : ∃ q ∈ w.alive, q.pid = p.pid := by
    rcases howner with halive | hanswer
    · exact ⟨p, halive, rfl⟩
    · obtain ⟨q, hq, hpid⟩ := List.any_eq_true.mp hanswer
      exact ⟨q, hq, of_decide_eq_true hpid⟩
  exact hfree r ⟨hrow, by simp [hguards], p, hp, hinstance, huse⟩

/-- A waiting thread can still register, in some run in which no process ends,
exactly if its filter is not too deep and no stuck row is in conflict with it; and in
all these runs the stuck rows stay. -/
theorem registers_iff {w : World} (h : (machine B).Reached w) :
    (∀ c ∈ w.calls,
      (∃ events w' g, (∀ e ∈ events, e.crashes = false) ∧
        (machine B).run w events = some w' ∧ g ∈ w'.guards ∧ g ∉ w.guards ∧ g.call = c) ↔
      shallow B c.filter = true ∧
        ∀ r, w.Stuck r → w.db.conflictsWith B c.labels c.filter r = false) ∧
    ∀ events w', (∀ e ∈ events, e.crashes = false) → (machine B).run w events = some w' →
      ∀ r, w.Stuck r → w'.Stuck r := by
  have hinv := inv_of_reached h
  refine ⟨fun c hc => ⟨?_, ?_⟩, fun events w' hcrash hrun r hstuck =>
    (hstuck.run hinv hcrash hrun).1⟩
  · rintro ⟨events, w', g, hcrash, hrun, hg, hold, rfl⟩
    exact ⟨shallow_of_run hrun g hg hold,
      fun r hstuck => (hstuck.run hinv hcrash hrun).2 g hg hold⟩
  · intro ⟨hshallow, hfree⟩
    have hdeletes := run_deletes (B := B) w
    have hdrained := hinv.run hdeletes
    obtain ⟨id, db', hstep, hnew⟩ := hdrained.attempt_registers rfl hc hshallow
      fun r hstuck => by
        rw [conflictsWith_drained hstuck.row_mem]
        exact hfree r hstuck.of_drained
    refine ⟨w.guards.map .delete ++ [.attempt c w.drained.osAnswer],
      { w.drained with db := db', calls := w.drained.calls.erase c, guards := [⟨c, id⟩] }, ⟨c, id⟩,
      ?_, ?_, List.mem_singleton_self _, ?_, rfl⟩
    · intro e he
      rcases List.mem_append.mp he with he | he
      · obtain ⟨g, -, rfl⟩ := List.mem_map.mp he
        rfl
      · rw [List.mem_singleton.mp he]
        rfl
    · rw [Machine.run_append, hdeletes, Option.bind_some, Machine.run_singleton]
      exact hstep
    · -- the new id is above those of all rows
      intro hold
      have hle : id ≤ w.db.sequence := w.db.ids_le _ (hinv.guards_held _ hold).row_mem
      have hid : id = w.db.sequence + 1 := by
        have hnewId := hnew.id_eq
        rw [cleanStaleEntries_eq] at hnewId
        exact hnewId
      omega

/-- The row that a crashed process left waits for the process that got its PID, and
the other way around. -/
theorem registers_iff_reused_pid :
    ∃ w, (machine (shannon String)).run initial reusedPidRun = some w ∧
      ¬ ∃ events w' g, (∀ e ∈ events, e.crashes = false) ∧
        (machine (shannon String)).run w events = some w' ∧ g ∈ w'.guards ∧ g ∉ w.guards ∧
        g.call = ⟨⟨7, 200⟩, "plain", [], ""⟩ := by
  let c : Call := ⟨⟨7, 200⟩, "plain", [], ""⟩
  let r : RunningRow := ⟨1, "7:100", "alone", "*"⟩
  have hfacts : (((machine (shannon String)).run initial reusedPidRun).map fun w =>
      decide (c ∈ w.calls ∧ r ∈ w.db.running ∧ w.guards = [] ∧ (⟨7, 100⟩ : Process) ∈ w.started ∧
        (⟨7, 200⟩ : Process) ∈ w.alive ∧ (⟨7, 100⟩ : Process).instanceId = "7:100")) =
        some true := by
    decide +kernel
  obtain ⟨w, hrun, hfacts⟩ := Option.map_eq_some_iff.mp hfacts
  obtain ⟨hc, hr, hguards, hstarted, halive, hinstance⟩ := of_decide_eq_true hfacts
  have hstuck : w.Stuck r :=
    ⟨hr, by simp [hguards], ⟨7, 100⟩, hstarted, hinstance.symm, ⟨7, 200⟩, halive, rfl⟩
  refine ⟨w, hrun, fun hregisters => ?_⟩
  have hfree := (((registers_iff (reached_initial.of_run hrun)).1 c hc).mp hregisters).2 r hstuck
  rw [Db.conflictsWith, show r.serialFilter = serialAll from rfl, blocks_serialAll] at hfree
  cases hfree

/-! ## Runs without stuck rows -/

/-- Every `DELETE` is committed in the end, and no PID is given out twice. -/
def Undisturbed (w : World) : Event → Prop
  | .deleteFails _ => False
  | .start p => p.pid ∉ w.started.map Process.pid
  | _ => True

instance (w : World) : (e : Event) → Decidable (Undisturbed w e)
  | .deleteFails _ => isFalse id
  | .start p => inferInstanceAs (Decidable (p.pid ∉ w.started.map Process.pid))
  | .call .. | .attempt .. | .busy _ | .fail _ | .delete _ | .deleteBusy _ | .crash _ =>
      isTrue trivial

/-- Every row has its guard, or its process has ended. -/
structure Accounted (w : World) : Prop where
  pids_nodup : (w.started.map Process.pid).Nodup
  rows : ∀ r ∈ w.db.running, (∃ g ∈ w.guards, g.id = r.id) ∨
    ∀ p ∈ w.alive, r.instanceId ≠ p.instanceId

theorem Accounted.not_stuck (h : w.Accounted) (hinv : Inv B w) (r : RunningRow) : ¬ w.Stuck r := by
  intro hstuck
  obtain ⟨p, hp, hinstance, q, hq, hpid⟩ := hstuck.in_use
  have hsame : q = p := List.inj_on_of_nodup_map h.pids_nodup (hinv.alive_started q hq) hp hpid
  rcases h.rows r hstuck.row_mem with ⟨g, hg, hid⟩ | hended
  · exact hstuck.no_guard g hg hid
  · exact hended p (hsame ▸ hq) hinstance

theorem Accounted.crash (h : w.Accounted) (hinv : Inv B w) (p : Process) (hp : p ∈ w.alive) :
    (w.crash p).Accounted := by
  refine ⟨h.pids_nodup, fun r hr => ?_⟩
  rcases h.rows r hr with ⟨g, hg, hid⟩ | hended
  · by_cases hcrashed : g.call.process = p
    · -- the row of a guard that is lost with its process
      right
      intro q hq heq
      obtain ⟨hq, hne⟩ := List.mem_filter.mp hq
      have hrow : r = g.row := Db.eq_of_id hr (hinv.guards_held g hg).row_mem hid.symm
      have hsame : q = p := by
        apply List.inj_on_of_nodup_map hinv.started_nodup (hinv.alive_started q hq)
          (hinv.alive_started p hp)
        rw [← heq, hrow, ← hcrashed]
        rfl
      exact of_decide_eq_true hne hsame
    · exact .inl ⟨g, List.mem_filter.mpr ⟨hg, decide_eq_true hcrashed⟩, hid⟩
  · exact .inr fun q hq => hended q (List.mem_of_mem_filter hq)

theorem Accounted.afterAttempt (h : w.Accounted) {c : Call} {kill : ℕ → Bool} :
    (w.afterAttempt c
      (Skuld.attempt B kill c.process.instanceId w.db c.name c.labels c.filter)).Accounted := by
  cases hattempt : Skuld.attempt B kill c.process.instanceId w.db c.name c.labels c.filter with
  | none => exact ⟨h.pids_nodup, h.rows⟩
  | some outcome =>
      rcases attempt_eq_some_iff hattempt with ⟨rfl, -⟩ | ⟨id, db', rfl, -, hnew⟩
      · exact h
      · refine ⟨h.pids_nodup, fun r hr => ?_⟩
        rcases hnew.mem_running.mp hr with hr | rfl
        · rw [cleanStaleEntries_eq] at hr
          refine (h.rows r (Db.mem_deleteWhere.mp hr).1).imp_left ?_
          rintro ⟨g, hg, hid⟩
          exact ⟨g, List.mem_cons_of_mem _ hg, hid⟩
        · exact .inl ⟨⟨c, id⟩, List.mem_cons_self, rfl⟩

theorem Accounted.step (h : w.Accounted) (hinv : Inv B w) {e : Event} (hok : w.Undisturbed e)
    (hstep : World.step B w e = some w') : w'.Accounted := by
  cases e with
  | start p =>
      obtain ⟨hp, heq⟩ := Option.ite_none_right_eq_some.mp hstep
      cases heq
      refine ⟨List.nodup_cons.mpr ⟨hok, h.pids_nodup⟩, fun r hr => (h.rows r hr).imp_right ?_⟩
      intro hended q hq
      rcases List.mem_cons.mp hq with rfl | hq
      · obtain ⟨p', hp', hinstance⟩ := hinv.rows_started r hr
        intro heq
        exact hp.2.2 (List.mem_map.mpr ⟨p', hp', hinstance.symm.trans heq⟩)
      · exact hended q hq
  | call p name labels serial =>
      obtain ⟨-, heq⟩ := Option.ite_none_right_eq_some.mp hstep
      obtain ⟨filter, -, heq⟩ := Option.map_eq_some_iff.mp heq
      cases heq
      exact ⟨h.pids_nodup, h.rows⟩
  | attempt c kill =>
      obtain ⟨-, heq⟩ := Option.ite_none_right_eq_some.mp hstep
      cases heq
      exact h.afterAttempt
  | busy c =>
      obtain ⟨-, heq⟩ := Option.ite_none_right_eq_some.mp hstep
      cases heq
      exact h
  | fail c =>
      obtain ⟨-, heq⟩ := Option.ite_none_right_eq_some.mp hstep
      cases heq
      exact ⟨h.pids_nodup, h.rows⟩
  | delete g =>
      obtain ⟨-, heq⟩ := Option.ite_none_right_eq_some.mp hstep
      cases heq
      refine ⟨h.pids_nodup, fun r hr => ?_⟩
      obtain ⟨hr, hne⟩ := Db.mem_deleteWhere.mp hr
      refine (h.rows r hr).imp_left ?_
      rintro ⟨g', hg', hid⟩
      refine ⟨g', (List.mem_erase_of_ne ?_).mpr hg', hid⟩
      rintro rfl
      exact of_decide_eq_false hne hid.symm
  | deleteBusy g =>
      obtain ⟨-, heq⟩ := Option.ite_none_right_eq_some.mp hstep
      cases heq
      exact h
  | deleteFails g => exact hok.elim
  | crash p =>
      obtain ⟨hp, heq⟩ := Option.ite_none_right_eq_some.mp hstep
      cases heq
      exact h.crash hinv p hp

theorem inductive_accounted :
    (machine B).Inductive Undisturbed fun w => Inv B w ∧ w.Accounted where
  init hinit := by
    have hinv := Inv.of_init hinit
    obtain ⟨hrows, hstarted, -⟩ := hinit
    exact ⟨hinv, by simp [hstarted], by simp [hrows]⟩
  step h hok hstep := ⟨h.1.step hstep, h.2.step h.1 hok hstep⟩

/-- A thread registers and its test ends. -/
def serve (w : World) (c : Call) (id : ℕ) : List Event :=
  [.attempt c w.osAnswer, .delete ⟨c, id⟩]

/-- One thread after the other. -/
theorem run_serve (hinv : Inv B w) (h : w.Accounted) (hguards : w.guards = [])
    (hshallow : ∀ c ∈ w.calls, shallow B c.filter = true) {order : List Call}
    (horder : order.Perm w.calls) :
    ∃ ids : List ℕ, ids.length = order.length ∧ ∃ w', (machine B).run w
        ((order.zip ids).flatMap fun served => w.serve served.1 served.2) = some w' ∧
      w'.calls = [] ∧ w'.guards = [] ∧ w'.alive = w.alive ∧ w'.Accounted := by
  induction order generalizing w with
  | nil => exact ⟨[], rfl, w, rfl, List.nil_perm.mp horder, hguards, rfl, h⟩
  | cons c order ih =>
      have hc : c ∈ w.calls := horder.mem_iff.mp List.mem_cons_self
      obtain ⟨id, db', hattempt, -⟩ := hinv.attempt_registers hguards hc (hshallow c hc)
        fun r hstuck => absurd hstuck (h.not_stuck hinv r)
      set registered : World :=
        { w with db := db', calls := w.calls.erase c, guards := [⟨c, id⟩] } with hregistered
      set ended : World :=
        { registered with db := db'.deleteWhere fun r => r.id = id, guards := [] } with hended
      have hdelete : World.step B registered (.delete ⟨c, id⟩) = some ended := by
        rw [World.step, if_pos (List.mem_singleton_self _), hregistered, List.erase_cons_head]
      have hinv' : Inv B ended := (hinv.step hattempt).step hdelete
      have haccounted : ended.Accounted :=
        (h.step hinv (e := .attempt c w.osAnswer) trivial hattempt).step (hinv.step hattempt)
          (e := .delete ⟨c, id⟩) trivial hdelete
      have hrest : order.Perm ended.calls :=
        (horder.trans (List.perm_cons_erase hc)).cons_inv
      obtain ⟨ids, hlength, w', hrun, hw'⟩ := ih hinv' haccounted rfl
        (fun c' hc' => hshallow c' (List.mem_of_mem_erase hc')) hrest
      refine ⟨id :: ids, by simp [hlength], w', ?_, hw'⟩
      rw [List.zip_cons_cons, List.flatMap_cons, Machine.run_append]
      have hserve : (machine B).run w (w.serve c id) = some ended := by
        rw [serve, Machine.run, show (machine B).step = World.step B from rfl, hattempt,
          Option.bind_some, Machine.run_singleton]
        exact hdelete
      rw [hserve, Option.bind_some]
      exact hrun

/-- Nobody waits for good: when the running tests have ended, the waiting threads
can be served in any order, and no row of a running process is left. -/
theorem calls_served_in_any_order {w : World} (h : (machine B).ReachedVia Undisturbed w)
    (hshallow : ∀ c ∈ w.calls, shallow B c.filter = true) {order : List Call}
    (horder : order.Perm w.calls) :
    ∃ ids : List ℕ, ids.length = order.length ∧ ∃ w', (machine B).run w
        (w.guards.map .delete ++
          (order.zip ids).flatMap fun served => w.serve served.1 served.2) = some w' ∧
      w'.calls = [] ∧ w'.guards = [] ∧
      ∀ r ∈ w'.db.running, ∀ p ∈ w'.alive, r.instanceId ≠ p.instanceId := by
  obtain ⟨hinv, haccounted⟩ := inductive_accounted.reached h
  have hdeletes := run_deletes (B := B) w
  have hdrained : w.drained.Accounted := by
    refine ⟨haccounted.pids_nodup, fun r hr => ?_⟩
    obtain ⟨hr, hdeleted⟩ := Db.mem_deleteWhere.mp hr
    refine .inr ((haccounted.rows r hr).resolve_left ?_)
    rintro ⟨g, hg, hid⟩
    exact List.any_eq_false.mp hdeleted g hg (decide_eq_true hid.symm)
  obtain ⟨ids, hlength, w', hrun, hcalls, hguards, -, hrows⟩ :=
    run_serve (hinv.run hdeletes) hdrained rfl hshallow
      (show order.Perm w.drained.calls from horder)
  refine ⟨ids, hlength, w', ?_, hcalls, hguards, fun r hr => ?_⟩
  · rw [Machine.run_append, hdeletes, Option.bind_some]
    exact hrun
  · refine (hrows.rows r hr).resolve_left ?_
    rintro ⟨g, hg, -⟩
    rw [hguards] at hg
    cases hg

theorem calls_served_in_any_order_blocked :
    ∃ w w' ids, (machine (shannon String)).run initial blockedRun = some w ∧
      (machine (shannon String)).run w (w.guards.map .delete ++
        (w.calls.zip ids).flatMap fun served => w.serve served.1 served.2) = some w' ∧
      w'.calls = [] := by
  have hsome : (((machine (shannon String)).restrict Undisturbed).run initial blockedRun).isSome =
      true := by decide +kernel
  have hsame : (machine (shannon String)).run initial blockedRun =
      ((machine (shannon String)).restrict Undisturbed).run initial blockedRun := by
    decide +kernel
  obtain ⟨w, hrun⟩ := Option.isSome_iff_exists.mp hsome
  have hreached : (machine (shannon String)).ReachedVia Undisturbed w :=
    .of_run (.init ⟨rfl, rfl, rfl, rfl, rfl⟩) hrun
  have hcall : (((machine (shannon String)).restrict Undisturbed).run initial blockedRun).map
      World.calls = some [⟨⟨8, 100⟩, "plain", [], ""⟩] := by decide +kernel
  rw [hrun, Option.map_some, Option.some.injEq] at hcall
  have hshallow : ∀ c ∈ w.calls, shallow (shannon String) c.filter = true := by
    rw [hcall]
    intro c hc
    rw [List.mem_singleton.mp hc]
    exact shallow_sentinel (.inl rfl)
  obtain ⟨ids, -, w', hserved, hcalls, -⟩ :=
    calls_served_in_any_order hreached hshallow (.refl w.calls)
  exact ⟨w, w', ids, hsame.trans hrun, hserved, hcalls⟩

end World

end Skuld
