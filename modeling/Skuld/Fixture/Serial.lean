import Skuld.Coordination.Storage
import Skuld.Fixture.Registry

/-!
# Inherited serial constraints

A test's own serial string is merged, as text, with those of every fixture it
reaches, and only the result is parsed.  `blocks_mergeSerialFilters` says that
merging two strings is the union of what they block, sentinels included; the
rest is a fold over the walk.  The parentheses in the merged text matter for the
tokens only: each operand is a whole expression between them.
-/

namespace Skuld

open BoolExpr

/-- `""` gives way, `"*"` dominates, two filters are joined by `|`. -/
def mergeSerialFilters (a b : String) : String :=
  if a = "" then b
  else if b = "" then a
  else if a = "*" ∨ b = "*" then "*"
  else "(" ++ a ++ ") | (" ++ b ++ ")"

/-- What the walk does at a fixture. -/
def mergeFixture (merged : String) (d : FixtureDef) : String :=
  if d.serial ≠ "" then mergeSerialFilters merged d.serial else merged

def collectFixtureSerial (registry : Registry) (names : List String) :
    Except (Dfs.Fault String FixtureDef) String :=
  walkFixtureDepsIn registry names mergeFixture ""

/-! ## The merged text -/

theorem parseRawLabelExpr_merge {a b : String} {ea eb : LabelExpr}
    (ha : parseRawLabelExpr a = .ok ea) (hb : parseRawLabelExpr b = .ok eb) :
    parseRawLabelExpr ("(" ++ a ++ ") | (" ++ b ++ ")") = .ok (.or ea eb) := by
  obtain ⟨ts, htokens, hts⟩ := parseRawLabelExpr_eq_ok_iff.mp ha
  obtain ⟨us, hutokens, hus⟩ := parseRawLabelExpr_eq_ok_iff.mp hb
  have htext :
      "(" ++ a ++ ") | (" ++ b ++ ")" = withParens true a ++ " | " ++ withParens true b := by
    rw [← String.toList_inj]
    simp [withParens, String.toList_append]
  have hright : Reads ((withParens true b).toList ++ []) (parenTokens true us) [] :=
    reads_withParens (fun s hs => .append hutokens hs) rfl
  have hall : Reads ((withParens true a ++ " | " ++ withParens true b).toList ++ [])
      (parenTokens true ts ++ .bar :: parenTokens true us) [] :=
    reads_binary rfl rfl (fun s hs => reads_withParens (fun s hs => .append htokens hs) hs) hright
  refine parseRawLabelExpr_eq_ok_iff.mpr ⟨_, ?_,
    .or (.ofTerm (.ofFactor (.paren hts))) (.ofFactor (.paren hus))⟩
  rw [List.append_nil] at hall
  exact htext ▸ hall.tokens_eq

/-! ## What a merged string means -/

variable {B : Bdd String}

theorem isSerial_mergeSerialFilters {a b : String} (ha : IsSerial B a) (hb : IsSerial B b) :
    IsSerial B (mergeSerialFilters a b) ∧ ∀ labels,
      blocks B (mergeSerialFilters a b) labels = (blocks B a labels || blocks B b labels) := by
  unfold mergeSerialFilters
  split_ifs with hanone hbnone hall
  · subst hanone
    exact ⟨hb, fun labels => rfl⟩
  · subst hbnone
    exact ⟨ha, fun labels => (Bool.or_false _).symm⟩
  · refine ⟨.inr (.inl rfl), fun labels => ?_⟩
    have hstar : ∀ labels, blocks B "*" labels = true := blocks_serialAll
    rcases hall with rfl | rfl <;> simp [hstar]
  · rw [not_or] at hall
    obtain ⟨f, hf⟩ := (ha.resolve_left hanone).resolve_left hall.1
    obtain ⟨g, hg⟩ := (hb.resolve_left hbnone).resolve_left hall.2
    obtain ⟨ea, hea, hequiva⟩ := LabelFilter.parse_eq_ok_iff.mp hf
    obtain ⟨eb, heb, hequivb⟩ := LabelFilter.parse_eq_ok_iff.mp hg
    have hmerged : LabelFilter.parse B ("(" ++ a ++ ") | (" ++ b ++ ")") = .ok (f.or g) := by
      refine LabelFilter.parse_eq_ok_iff.mpr ⟨.or ea eb, parseRawLabelExpr_merge hea heb, ?_⟩
      refine Expr.Equiv.trans (fun ρ => ?_) (eval_canonicalize (.or f.expr g.expr)).symm
      simp only [Expr.eval, hequiva ρ, hequivb ρ]
    refine ⟨.inr (.inr ⟨_, hmerged⟩), fun labels => ?_⟩
    rw [blocks_of_parse hmerged, blocks_of_parse hf, blocks_of_parse hg, LabelFilter.matches_or]

/-- One fixture of the walk. -/
theorem isSerial_mergeFixture {merged : String} {d : FixtureDef} (hmerged : IsSerial B merged)
    (hd : IsSerial B d.serial) :
    IsSerial B (mergeFixture merged d) ∧ ∀ labels,
      blocks B (mergeFixture merged d) labels =
        (blocks B merged labels || blocks B d.serial labels) := by
  unfold mergeFixture
  split_ifs with h
  · exact isSerial_mergeSerialFilters hmerged hd
  · rw [not_not] at h
    exact ⟨hmerged, fun labels => by rw [h]; exact (Bool.or_false _).symm⟩

/-- The fixtures of the walk one after the other. -/
theorem isSerial_foldl {order : List FixtureDef} {merged : String} (hmerged : IsSerial B merged)
    (horder : ∀ d ∈ order, IsSerial B d.serial) :
    IsSerial B (order.foldl mergeFixture merged) ∧ ∀ labels,
      blocks B (order.foldl mergeFixture merged) labels = true ↔
        blocks B merged labels = true ∨ ∃ d ∈ order, blocks B d.serial labels = true := by
  induction order generalizing merged with
  | nil => exact ⟨hmerged, fun labels => by simp⟩
  | cons d order ih =>
      obtain ⟨hstep, hblocks⟩ := isSerial_mergeFixture hmerged (horder d List.mem_cons_self)
      obtain ⟨hresult, hall⟩ := ih hstep fun d' hd' => horder d' (List.mem_cons_of_mem _ hd')
      refine ⟨hresult, fun labels => ?_⟩
      rw [List.foldl_cons, hall labels, hblocks labels, Bool.or_eq_true, or_assoc,
        List.exists_mem_cons_iff]

/-- Some fixture that the names reach blocks the labels. -/
def FixturesBlock (B : Bdd String) (registry : Registry) (names : List String)
    (labels : List Label) : Prop :=
  ∃ name d, registry.graph.Reachable names name ∧ registry.get name = some d ∧
    blocks B d.serial labels = true

theorem collectFixtureSerial_ok {registry : Registry} (h : registry.DepsRegistered)
    (hserial : ∀ d ∈ registry.defs, IsSerial B d.serial) (names : List String) :
    ∃ merged, collectFixtureSerial registry names = .ok merged ∧ IsSerial B merged ∧
      ∀ labels, blocks B merged labels = true ↔ FixturesBlock B registry names labels := by
  obtain ⟨order, hmem, hwalk⟩ := walkFixtureDepsIn_ok h names
  have horder : ∀ d ∈ order, IsSerial B d.serial := fun d hd => by
    obtain ⟨name, -, hget⟩ := (hmem d).mp hd
    exact hserial d (Registry.get_eq_some_iff.mp hget).1
  obtain ⟨hresult, hblocks⟩ := isSerial_foldl (B := B) (.inl rfl : IsSerial B "") horder
  refine ⟨_, hwalk _ "", hresult, fun labels => (hblocks labels).trans ?_⟩
  constructor
  · rintro (hnone | ⟨d, hd, hblock⟩)
    · cases hnone
    · obtain ⟨name, hreach, hget⟩ := (hmem d).mp hd
      exact ⟨name, d, hreach, hget, hblock⟩
  · rintro ⟨name, d, hreach, hget, hblock⟩
    exact .inr ⟨d, (hmem d).mpr ⟨name, hreach, hget⟩, hblock⟩

/-! ## The order of declarations -/

/-- The same fixtures, with their dependencies in any order. -/
structure SameUpToOrder (registry registry' : Registry) : Prop where
  forward : ∀ d ∈ registry.defs, ∃ d' ∈ registry'.defs,
    d'.name = d.name ∧ d'.serial = d.serial ∧ d'.deps.Perm d.deps
  backward : ∀ d' ∈ registry'.defs, ∃ d ∈ registry.defs,
    d'.name = d.name ∧ d'.serial = d.serial ∧ d'.deps.Perm d.deps

namespace SameUpToOrder

variable {registry registry' : Registry}

theorem symm (h : SameUpToOrder registry registry') : SameUpToOrder registry' registry where
  forward d' hd' := by
    obtain ⟨d, hd, hname, hserial, hdeps⟩ := h.backward d' hd'
    exact ⟨d, hd, hname.symm, hserial.symm, hdeps.symm⟩
  backward d hd := by
    obtain ⟨d', hd', hname, hserial, hdeps⟩ := h.forward d hd
    exact ⟨d', hd', hname.symm, hserial.symm, hdeps.symm⟩

theorem get (h : SameUpToOrder registry registry') {name : String} {d : FixtureDef}
    (hget : registry.get name = some d) :
    ∃ d', registry'.get name = some d' ∧ d'.serial = d.serial ∧ d'.deps.Perm d.deps := by
  obtain ⟨hd, rfl⟩ := Registry.get_eq_some_iff.mp hget
  obtain ⟨d', hd', hname, hserial, hdeps⟩ := h.forward d hd
  exact ⟨d', Registry.get_eq_some_iff.mpr ⟨hd', hname⟩, hserial, hdeps⟩

theorem edge (h : SameUpToOrder registry registry') {x y : String}
    (hedge : registry.graph.Edge x y) : registry'.graph.Edge x y := by
  obtain ⟨d, hget, hy⟩ := hedge
  obtain ⟨d', hget', -, hdeps⟩ := h.get hget
  exact ⟨d', hget', hdeps.mem_iff.mpr hy⟩

theorem reachable (h : SameUpToOrder registry registry') {names names' : List String}
    (hnames : names.Perm names') {name : String} (hreach : registry.graph.Reachable names name) :
    registry'.graph.Reachable names' name := by
  obtain ⟨root, hroot, hpath⟩ := hreach
  exact ⟨root, hnames.mem_iff.mp hroot, Relation.ReflTransGen.mono (fun _ _ => h.edge) _ _ hpath⟩

theorem fixturesBlock (h : SameUpToOrder registry registry') {names names' : List String}
    (hnames : names.Perm names') {labels : List Label}
    (hblock : FixturesBlock B registry names labels) :
    FixturesBlock B registry' names' labels := by
  obtain ⟨name, d, hreach, hget, hd⟩ := hblock
  obtain ⟨d', hget', hserial, -⟩ := h.get hget
  exact ⟨name, d', h.reachable hnames hreach, hget', by rwa [hserial]⟩

theorem depsRegistered (h : SameUpToOrder registry registry') (hdeps : registry.DepsRegistered) :
    registry'.DepsRegistered := by
  intro d' hd' dep hdep
  obtain ⟨d, hd, -, -, hperm⟩ := h.backward d' hd'
  obtain ⟨target, htarget⟩ := Option.isSome_iff_exists.mp
    (hdeps d hd dep (hperm.mem_iff.mp hdep))
  obtain ⟨target', htarget', -⟩ := h.get htarget
  exact Option.isSome_iff_exists.mpr ⟨target', htarget'⟩

end SameUpToOrder

/-- The stored constraint of a test: what it blocks is what its own string or
one of its fixtures blocks, and it does not depend on any order of declaration. -/
theorem stored_serial_eq_union {registry : Registry}
    (hvalid : validateFixtureGraph registry = .ok ()) {own : String} (hown : IsSerial B own)
    (hserial : ∀ d ∈ registry.defs, IsSerial B d.serial) (names : List String) :
    ∃ merged stored, collectFixtureSerial registry names = .ok merged ∧
      toStorage B (mergeSerialFilters own merged) = some stored ∧
      (∀ labels, blocks B stored labels = true ↔
        blocks B own labels = true ∨ FixturesBlock B registry names labels) ∧
      ∀ registry' names', SameUpToOrder registry registry' → names.Perm names' →
        ∃ merged', collectFixtureSerial registry' names' = .ok merged' ∧
          toStorage B (mergeSerialFilters own merged') = some stored := by
  have hall : ∀ (registry : Registry) names, registry.DepsRegistered →
      (∀ d ∈ registry.defs, IsSerial B d.serial) →
      ∃ merged stored, collectFixtureSerial registry names = .ok merged ∧
        toStorage B (mergeSerialFilters own merged) = some stored ∧ IsStored B stored ∧
        ∀ labels, blocks B stored labels = true ↔
          blocks B own labels = true ∨ FixturesBlock B registry names labels := by
    intro registry names hdeps hserial
    obtain ⟨merged, hmerged, hmergedSerial, hblocks⟩ :=
      collectFixtureSerial_ok hdeps hserial names
    obtain ⟨hboth, hunion⟩ := isSerial_mergeSerialFilters hown hmergedSerial
    obtain ⟨stored, hstored⟩ := Option.isSome_iff_exists.mp (toStorage_isSome_iff.mpr hboth)
    refine ⟨merged, stored, hmerged, hstored, (toStorage_spec hstored).1, fun labels => ?_⟩
    rw [blocks_of_toStorage hstored, hunion, Bool.or_eq_true, hblocks]
  have hdeps := Registry.depsRegistered_of_validate hvalid
  obtain ⟨merged, stored, hmerged, hstored, hIsStored, hblocks⟩ := hall registry names hdeps hserial
  refine ⟨merged, stored, hmerged, hstored, hblocks, fun registry' names' hsame hnames => ?_⟩
  have hserial' : ∀ d ∈ registry'.defs, IsSerial B d.serial := fun d' hd' => by
    obtain ⟨d, hd, -, heq, -⟩ := hsame.backward d' hd'
    exact heq ▸ hserial d hd
  obtain ⟨merged', stored', hmerged', hstored', hIsStored', hblocks'⟩ :=
    hall registry' names' (hsame.depsRegistered hdeps) hserial'
  refine ⟨merged', hmerged', ?_⟩
  rw [hstored', hIsStored'.eq_of_blocks hIsStored fun labels => ?_]
  rw [Bool.eq_iff_iff, hblocks, hblocks']
  exact or_congr_right ⟨hsame.symm.fixturesBlock hnames.symm, hsame.fixturesBlock hnames⟩

/-- Two fixtures, the first of which depends on the second. -/
def chainRegistry : Registry where
  defs :=
    [{ name := "db", scope := .test, requires := [], deps := ["net"], labels := [],
       typeName := "Db", serial := "slow" },
     { name := "net", scope := .process, requires := [], deps := [], labels := [],
       typeName := "Net", serial := "!fast" }]
  nodup := by decide

theorem stored_serial_eq_union_chain :
    ∃ merged stored, collectFixtureSerial chainRegistry ["db"] = .ok merged ∧
      toStorage (shannon String) (mergeSerialFilters "" merged) = some stored ∧
      ∀ labels, blocks (shannon String) stored labels = true ↔
        blocks (shannon String) "" labels = true ∨
          FixturesBlock (shannon String) chainRegistry ["db"] labels := by
  have hslow : IsSerial (shannon String) "slow" :=
    .inr (.inr ⟨_, LabelFilter.parse_of_raw (parseRawLabelExpr_of_isLabelName (by decide))⟩)
  have hfast : IsSerial (shannon String) "!fast" :=
    .inr (.inr ⟨_, LabelFilter.parse_of_raw (e := .not (.terminal "fast")) (by decide +kernel)⟩)
  have hserial : ∀ d ∈ chainRegistry.defs, IsSerial (shannon String) d.serial := by
    intro d hd
    simp only [chainRegistry, List.mem_cons, List.not_mem_nil, or_false] at hd
    rcases hd with rfl | rfl
    exacts [hslow, hfast]
  obtain ⟨merged, stored, hmerged, hstored, hblocks, -⟩ :=
    stored_serial_eq_union (show validateFixtureGraph chainRegistry = .ok () from rfl) (.inl rfl)
      hserial ["db"]
  exact ⟨merged, stored, hmerged, hstored, hblocks⟩

end Skuld
