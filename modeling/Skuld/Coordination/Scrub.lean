import Skuld.Coordination.Database

/-!
# The first migration

Version 1 of the schema stores serial filters in canonical form.  The migration
rewrites the rows of version 0 one by one (`scrubRow`): sentinels are not even
read, a filter that does not parse stays, any other filter is replaced by its
stored form if that is another string.

`migrated` says what this makes of the tables, without the loop.  `Scrubbed`
relates the two in the middle of the loop, for the rows that are still to come.
-/

namespace Skuld

open BoolExpr

def schemaVersion : ℕ := 1

section

variable (B : Bdd String)

/-- The filter that the scrub writes to a row, if it issues an `UPDATE`. -/
def scrubUpdate (r : RunningRow) : Option String :=
  match LabelFilter.parse B r.serialFilter with
  | .ok filter =>
      let canonical :=
        if filter.isTautology then serialAll
        else if filter.isContradiction then serialNone
        else filter.toString
      if canonical ≠ r.serialFilter then some canonical else none
  -- with a warning, if the owner is alive
  | .error _ => none

/-- One round of the loop. -/
def scrubRow (db : Db) (r : RunningRow) : Db :=
  match scrubUpdate B r with
  | some canonical => db.updateFilter r.id canonical
  | none => db

/-- `SELECT .. WHERE serial_filter NOT IN ('', '*')`. -/
def scrubRows (db : Db) : List RunningRow :=
  db.running.filter fun r => r.serialFilter ≠ serialNone && r.serialFilter ≠ serialAll

def scrubSerialFiltersV1 (db : Db) : Db :=
  (scrubRows db).foldl (scrubRow B) db

/-! ## The result -/

/-- A filter with a stored form is replaced by it. -/
def migratedRow (r : RunningRow) : RunningRow :=
  { r with serialFilter := (toStorage B r.serialFilter).getD r.serialFilter }

/-- The tables after the migration. -/
def migrated (db : Db) : Db where
  running := db.running.map (migratedRow B)
  labels := db.labels
  sequence := db.sequence
  userVersion := schemaVersion
  ids_nodup := by
    rw [List.map_map]
    exact db.ids_nodup
  ids_le r hr := by
    obtain ⟨r, hr', rfl⟩ := List.mem_map.mp hr
    exact db.ids_le r hr'
  labels_ref l hl := by
    obtain ⟨r, hr, hid⟩ := db.labels_ref l hl
    exact ⟨migratedRow B r, List.mem_map_of_mem hr, hid⟩

/-- In the loop, before the rounds of `rows`. -/
structure Scrubbed (original : Db) (rows : List RunningRow) (work : Db) : Prop where
  rows_sublist : rows.Sublist (scrubRows original)
  running_eq : work.running = original.running.map fun r => if r ∈ rows then r else migratedRow B r
  labels_eq : work.labels = original.labels
  sequence_eq : work.sequence = original.sequence

end

variable {B : Bdd String}

theorem migratedRow_of_sentinel {r : RunningRow}
    (h : r.serialFilter = serialNone ∨ r.serialFilter = serialAll) : migratedRow B r = r := by
  rw [migratedRow, toStorage, if_pos h, Option.getD_some]

theorem migratedRow_of_not_isSerial {r : RunningRow} (h : ¬ IsSerial B r.serialFilter) :
    migratedRow B r = r := by
  have hnone : toStorage B r.serialFilter = none := by
    rw [← Option.not_isSome_iff_eq_none, toStorage_isSome_iff]
    exact h
  rw [migratedRow, hnone, Option.getD_none]

/-- What the scrub writes is the stored form. -/
theorem migratedRow_of_scrubUpdate {r : RunningRow} {canonical : String}
    (h : scrubUpdate B r = some canonical) :
    migratedRow B r = { r with serialFilter := canonical } := by
  unfold scrubUpdate at h
  cases hparse : LabelFilter.parse B r.serialFilter with
  | error err => simp [hparse] at h
  | ok f =>
      simp only [hparse, Option.ite_none_right_eq_some, Option.some.injEq] at h
      rw [migratedRow, toStorage_of_parse hparse, Option.getD_some, h.2]

/-- Where the scrub writes nothing, the row is in its final form. -/
theorem migratedRow_of_scrubUpdate_none {r : RunningRow} (h : scrubUpdate B r = none) :
    migratedRow B r = r := by
  by_cases hsentinel : r.serialFilter = serialNone ∨ r.serialFilter = serialAll
  · exact migratedRow_of_sentinel hsentinel
  · unfold scrubUpdate at h
    cases hparse : LabelFilter.parse B r.serialFilter with
    | error err =>
        apply migratedRow_of_not_isSerial
        rw [not_or] at hsentinel
        simp [IsSerial, hsentinel, hparse]
    | ok f =>
        simp only [hparse, ite_eq_right_iff, reduceCtorEq, imp_false, not_not] at h
        rw [migratedRow, toStorage_of_parse hparse, Option.getD_some, h]

theorem scrubUpdate_eq_none {r : RunningRow}
    (h : ∀ stored, toStorage B r.serialFilter = some stored → stored = r.serialFilter) :
    scrubUpdate B r = none := by
  unfold scrubUpdate
  cases hparse : LabelFilter.parse B r.serialFilter with
  | error err => rfl
  | ok f =>
      simp only [ite_eq_right_iff, reduceCtorEq, imp_false, not_not]
      exact h _ (toStorage_of_parse hparse)

theorem migratedRow_isSome {r : RunningRow} {stored : String}
    (h : toStorage B (migratedRow B r).serialFilter = some stored) :
    stored = (migratedRow B r).serialFilter := by
  cases hstored : toStorage B r.serialFilter with
  | none =>
      rw [migratedRow, hstored, Option.getD_none, hstored] at h
      cases h
  | some t =>
      rw [migratedRow, hstored, Option.getD_some] at h ⊢
      rw [(toStorage_spec hstored).1.toStorage_eq, Option.some.injEq] at h
      exact h.symm

/-- The new filter excludes what the old one did. -/
theorem blocks_migratedRow (r : RunningRow) (labels : List Label) :
    blocks B (migratedRow B r).serialFilter labels = blocks B r.serialFilter labels := by
  cases hstored : toStorage B r.serialFilter with
  | none => rw [migratedRow, hstored, Option.getD_none]
  | some t => rw [migratedRow, hstored, Option.getD_some, blocks_of_toStorage hstored]

/-! ## The loop -/

namespace Scrubbed

variable {original work : Db} {r : RunningRow} {rows : List RunningRow}

theorem start (original : Db) : Scrubbed B original (scrubRows original) original where
  rows_sublist := List.Sublist.refl _
  running_eq := by
    -- the rows that are not read have a sentinel
    have hkeep : ∀ r ∈ original.running,
        (if r ∈ scrubRows original then r else migratedRow B r) = r := by
      intro r hr
      split_ifs with hread
      · rfl
      · apply migratedRow_of_sentinel
        by_contra hne
        rw [not_or] at hne
        exact hread (List.mem_filter.mpr ⟨hr, by simp [hne]⟩)
    rw [List.map_congr_left hkeep, List.map_id']
  labels_eq := rfl
  sequence_eq := rfl

theorem mem_original (h : Scrubbed B original (r :: rows) work) : r ∈ original.running :=
  List.mem_of_mem_filter (h.rows_sublist.subset List.mem_cons_self)

theorem notMem_tail (h : Scrubbed B original (r :: rows) work) : r ∉ rows := by
  have hnodup : (scrubRows original).Nodup := (List.Nodup.of_map _ original.ids_nodup).filter _
  exact (List.nodup_cons.mp (hnodup.sublist h.rows_sublist)).1

/-- A round without an `UPDATE`. -/
theorem skip (h : Scrubbed B original (r :: rows) work) (hnone : scrubUpdate B r = none) :
    Scrubbed B original rows work where
  rows_sublist := (List.sublist_cons_self r rows).trans h.rows_sublist
  running_eq := by
    rw [h.running_eq]
    refine List.map_congr_left fun x _ => ?_
    by_cases hx : x = r
    · rw [hx, if_pos List.mem_cons_self, if_neg h.notMem_tail,
        migratedRow_of_scrubUpdate_none hnone]
    · simp [hx]
  labels_eq := h.labels_eq
  sequence_eq := h.sequence_eq

/-- A round with an `UPDATE`: it finds the row by its id. -/
theorem update (h : Scrubbed B original (r :: rows) work) {canonical : String}
    (hsome : scrubUpdate B r = some canonical) :
    Scrubbed B original rows (work.updateFilter r.id canonical) where
  rows_sublist := (List.sublist_cons_self r rows).trans h.rows_sublist
  running_eq := by
    rw [Db.updateFilter_running, h.running_eq, List.map_map]
    refine List.map_congr_left fun x hx => ?_
    by_cases hxr : x = r
    · simp [hxr, h.notMem_tail, migratedRow_of_scrubUpdate hsome]
    · have hid : x.id ≠ r.id := fun heq => hxr (Db.eq_of_id hx h.mem_original heq)
      have hid' : (migratedRow B x).id ≠ r.id := hid
      by_cases hmem : x ∈ rows <;> simp [hxr, hid, hid', hmem]
  labels_eq := h.labels_eq
  sequence_eq := h.sequence_eq

theorem next (h : Scrubbed B original (r :: rows) work) :
    Scrubbed B original rows (scrubRow B work r) := by
  unfold scrubRow
  cases hupdate : scrubUpdate B r with
  | none => exact h.skip hupdate
  | some canonical => exact h.update hupdate

/-- After the loop only the version is missing. -/
theorem setUserVersion (h : Scrubbed B original [] work) :
    work.setUserVersion schemaVersion = migrated B original := by
  refine Db.ext_data ?_ h.labels_eq h.sequence_eq rfl
  calc work.running
      = original.running.map (fun r => if r ∈ [] then r else migratedRow B r) := h.running_eq
    _ = original.running.map (migratedRow B) := List.map_congr_left fun r _ => by simp

end Scrubbed

/-- A second scrub finds nothing to do. -/
theorem scrubSerialFiltersV1_migrated (db : Db) :
    scrubSerialFiltersV1 B (migrated B db) = migrated B db := by
  have hnone : ∀ r ∈ scrubRows (migrated B db), scrubUpdate B r = none := by
    intro r hr
    obtain ⟨r', -, rfl⟩ := List.mem_map.mp (List.mem_of_mem_filter hr)
    exact scrubUpdate_eq_none fun stored => migratedRow_isSome
  have hfold : ∀ rows : List RunningRow, (∀ r ∈ rows, scrubUpdate B r = none) →
      rows.foldl (scrubRow B) (migrated B db) = migrated B db := by
    intro rows hrows
    induction rows with
    | nil => rfl
    | cons r rows ih =>
        have hskip : scrubRow B (migrated B db) r = migrated B db := by
          unfold scrubRow
          rw [hrows r List.mem_cons_self]
        rw [List.foldl_cons, hskip]
        exact ih fun r' hr' => hrows r' (List.mem_cons_of_mem _ hr')
  exact hfold _ hnone

/-- The migration changes no decision. -/
theorem canStart_migrated (db : Db) (labels : List Label) (filter : String) :
    canStart B (migrated B db) labels filter = canStart B db labels filter := by
  have hrows : ((migrated B db).running.any fun r => blocks B r.serialFilter labels) =
      db.running.any fun r => blocks B r.serialFilter labels := by
    simp only [migrated, List.any_map, Function.comp_def, blocks_migratedRow]
  have hlabels : ((migrated B db).running.any fun r =>
      blocksNames B filter ((migrated B db).labelNames r.id)) =
      db.running.any fun r => blocksNames B filter (db.labelNames r.id) := by
    rw [migrated, List.any_map]
    rfl
  rw [canStart_eq, canStart_eq, hrows, hlabels]

end Skuld
