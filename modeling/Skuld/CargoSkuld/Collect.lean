import Std.Data.TreeMap.Lemmas
import Skuld.CargoSkuld.Graph

/-!
# Probing the test binaries

`cargo skuld` runs every test binary of the workspace with `--list` and reads the
metadata that the binary dumps.  Whatever goes wrong with a binary or with one of
its tests is a warning and leaves out that binary or that test only; a binary that
exits normally and dumps nothing is not one of Skuld's, and left out silently.  Only
where there is no temporary directory or file for a probe, the whole collection fails.

So the collection is the concatenation of what the single binaries contribute, or the
first of these errors, and without a warning nothing that was dumped is missing
(`collectMetadata_spec`).
-/

namespace Skuld

open BoolExpr

structure DiscoveredBinary where
  binaryId : String
  binaryPath : String
  deriving DecidableEq

/-- `cargo nextest list`; `binaries` is what its output is parsed as.  A workspace
without members has no binaries, which cargo reports as a failure. -/
def discoverBinaries (success : Bool) (stderr : String)
    (binaries : Except String (Std.TreeMap String DiscoveredBinary)) :
    Except String (List DiscoveredBinary) :=
  if !success then
    if "the workspace has no members".toList <:+: stderr.toList then .ok []
    else .error ("cargo nextest list failed: " ++ stderr)
  else
    binaries.map Std.TreeMap.values

/-- What comes of running a binary with `--list`. -/
inductive Probe where
  /-- There is no temporary directory, or no file for the output. -/
  | setupFails (e : String)
  | spawnFails (e : String)
  | timesOut
  | waitFails (e : String)
  | fails (code : Option ℤ) (stderr : String)
  /-- A normal exit without a dump. -/
  | noDump
  | unreadable (e : String)
  | dumps (contents : String)
  deriving DecidableEq

/-- A line on stderr. -/
inductive Warning where
  | spawn (binaryPath e : String)
  | timeout (binaryPath : String)
  | wait (binaryPath e : String)
  | exited (binaryPath : String) (code : Option ℤ) (stderr : String)
  | read (binaryPath e : String)
  | malformed (binaryPath e : String)
  | serialFilter (name binaryPath serialFilter : String) (e : ParseError)
  deriving DecidableEq

/-- The binaries that are listed, with what comes of running them. -/
def probed (probe : DiscoveredBinary → Probe) (binaries : List DiscoveredBinary) :
    List (DiscoveredBinary × Probe) :=
  binaries.map fun binary => (binary, probe binary)

section

variable (B : Bdd String) (fromJson : String → Except String (List NextestTestMetadata))

/-- The tests so far, and what has been printed. -/
abbrev Collection := List TestMetadata × List Warning

def collectTest (binary : DiscoveredBinary) (all : Collection) (m : NextestTestMetadata) :
    Collection :=
  if m.serialFilter ≠ "" ∧ m.serialFilter ≠ "*" then
    match LabelFilter.parse B m.serialFilter with
    | .error e =>
        (all.1, all.2 ++ [.serialFilter m.name binary.binaryPath m.serialFilter e])
    | .ok _ => (all.1 ++ [m.toTestMetadata binary.binaryId], all.2)
  else
    (all.1 ++ [m.toTestMetadata binary.binaryId], all.2)

/-- One round of the loop over the binaries. -/
def collectBinary (all : Collection) (probed : DiscoveredBinary × Probe) :
    Except String Collection :=
  let binary := probed.1
  match probed.2 with
  | .setupFails e => .error e
  | .spawnFails e => .ok (all.1, all.2 ++ [.spawn binary.binaryPath e])
  | .timesOut => .ok (all.1, all.2 ++ [.timeout binary.binaryPath])
  | .waitFails e => .ok (all.1, all.2 ++ [.wait binary.binaryPath e])
  | .fails code stderr => .ok (all.1, all.2 ++ [.exited binary.binaryPath code stderr])
  | .noDump => .ok all
  | .unreadable e => .ok (all.1, all.2 ++ [.read binary.binaryPath e])
  | .dumps contents =>
      match fromJson contents with
      | .error e => .ok (all.1, all.2 ++ [.malformed binary.binaryPath e])
      | .ok tests => .ok (tests.foldl (collectTest B binary) all)

def collectMetadata (probes : List (DiscoveredBinary × Probe)) : Except String Collection :=
  probes.foldlM (collectBinary B fromJson) ([], [])

/-! ## What a binary contributes -/

/-- The error that ends the whole collection. -/
def Probe.setupError : Probe → Option String
  | .setupFails e => some e
  | _ => none

/-- The entries of a dump that can be read. -/
def Probe.entries : Probe → List NextestTestMetadata
  | .dumps contents =>
      match fromJson contents with
      | .ok tests => tests
      | .error _ => []
  | _ => []

/-- The serial filter is a sentinel, or parses. -/
def NextestTestMetadata.parses (m : NextestTestMetadata) : Bool :=
  (toStorage B m.serialFilter).isSome

def testsOf (probed : DiscoveredBinary × Probe) : List TestMetadata :=
  ((probed.2.entries fromJson).filter (NextestTestMetadata.parses B)).map fun m =>
    m.toTestMetadata probed.1.binaryId

/-- Nothing is missing of the binary: its dump is read, and all filters parse, or it
is not one of Skuld's. -/
def Probe.Benign : Probe → Prop
  | .noDump => True
  | .dumps contents => ∃ tests, fromJson contents = .ok tests ∧ ∀ m ∈ tests, m.parses B = true
  | _ => False

end

variable {B : Bdd String} {fromJson : String → Except String (List NextestTestMetadata)}

theorem parses_iff {m : NextestTestMetadata} :
    m.parses B = true ↔ IsSerial B m.serialFilter :=
  toStorage_isSome_iff

theorem isSerial_of_mem_testsOf {probed : DiscoveredBinary × Probe} {t : TestMetadata}
    (ht : t ∈ testsOf B fromJson probed) : IsSerial B t.serialFilter := by
  obtain ⟨m, hm, rfl⟩ := List.mem_map.mp ht
  exact parses_iff.mp (List.mem_filter.mp hm).2

/-- A test is taken over, or there is a warning about it. -/
theorem collectTest_eq (binary : DiscoveredBinary) (all : Collection) (m : NextestTestMetadata) :
    ∃ warnings, (warnings = [] ↔ m.parses B = true) ∧ collectTest B binary all m =
      (all.1 ++ ([m].filter (NextestTestMetadata.parses B)).map fun m =>
        m.toTestMetadata binary.binaryId, all.2 ++ warnings) := by
  unfold collectTest
  by_cases hsentinel : m.serialFilter = "" ∨ m.serialFilter = "*"
  · have hparses : m.parses B = true := parses_iff.mpr (hsentinel.imp id .inl)
    refine ⟨[], by simp [hparses], ?_⟩
    rw [if_neg (by tauto)]
    simp [hparses]
  · rw [not_or] at hsentinel
    rw [if_pos hsentinel]
    cases hparse : LabelFilter.parse B m.serialFilter with
    | error e =>
        have hparses : m.parses B = false := by
          rw [Bool.eq_false_iff]
          intro h
          rcases parses_iff.mp h with h | h | ⟨f, hf⟩
          · exact hsentinel.1 h
          · exact hsentinel.2 h
          · rw [hparse] at hf
            cases hf
        exact ⟨[.serialFilter m.name binary.binaryPath m.serialFilter e], by simp [hparses],
          by simp [hparses]⟩
    | ok f =>
        have hparses : m.parses B = true := parses_iff.mpr (.inr (.inr ⟨f, hparse⟩))
        exact ⟨[], by simp [hparses], by simp [hparses]⟩

theorem foldl_collectTest (binary : DiscoveredBinary) (tests : List NextestTestMetadata)
    (all : Collection) :
    ∃ warnings, (warnings = [] ↔ ∀ m ∈ tests, m.parses B = true) ∧
      tests.foldl (collectTest B binary) all =
        (all.1 ++ (tests.filter (NextestTestMetadata.parses B)).map fun m =>
          m.toTestMetadata binary.binaryId, all.2 ++ warnings) := by
  induction tests generalizing all with
  | nil => exact ⟨[], by simp, by simp⟩
  | cons m tests ih =>
      obtain ⟨first, hfirst, hm⟩ := collectTest_eq (B := B) binary all m
      obtain ⟨rest, hrest, htests⟩ := ih (collectTest B binary all m)
      refine ⟨first ++ rest, ?_, ?_⟩
      · rw [List.append_eq_nil_iff, hfirst, hrest, List.forall_mem_cons]
      · rw [List.foldl_cons, htests, hm]
        rw [show m :: tests = [m] ++ tests from rfl, List.filter_append, List.map_append]
        simp only [List.append_assoc]

theorem collectBinary_eq {probed : DiscoveredBinary × Probe} (hsetup : probed.2.setupError = none)
    (all : Collection) :
    ∃ warnings, (warnings = [] ↔ probed.2.Benign B fromJson) ∧
      collectBinary B fromJson all probed =
        .ok (all.1 ++ testsOf B fromJson probed, all.2 ++ warnings) := by
  obtain ⟨binary, probe⟩ := probed
  cases probe with
  | setupFails e => cases hsetup
  | spawnFails e =>
      exact ⟨[.spawn binary.binaryPath e], by simp [Probe.Benign], by
        simp [collectBinary, testsOf, Probe.entries]⟩
  | timesOut =>
      exact ⟨[.timeout binary.binaryPath], by simp [Probe.Benign], by
        simp [collectBinary, testsOf, Probe.entries]⟩
  | waitFails e =>
      exact ⟨[.wait binary.binaryPath e], by simp [Probe.Benign], by
        simp [collectBinary, testsOf, Probe.entries]⟩
  | fails code stderr =>
      exact ⟨[.exited binary.binaryPath code stderr], by simp [Probe.Benign], by
        simp [collectBinary, testsOf, Probe.entries]⟩
  | noDump =>
      exact ⟨[], by simp [Probe.Benign], by simp [collectBinary, testsOf, Probe.entries]⟩
  | unreadable e =>
      exact ⟨[.read binary.binaryPath e], by simp [Probe.Benign], by
        simp [collectBinary, testsOf, Probe.entries]⟩
  | dumps contents =>
      cases hjson : fromJson contents with
      | error e =>
          exact ⟨[.malformed binary.binaryPath e], by simp [Probe.Benign, hjson], by
            simp [collectBinary, testsOf, Probe.entries, hjson]⟩
      | ok tests =>
          obtain ⟨warnings, hwarnings, heq⟩ := foldl_collectTest (B := B) binary tests all
          refine ⟨warnings, ?_, ?_⟩
          · rw [hwarnings]
            simp [Probe.Benign, hjson]
          · simp only [collectBinary, hjson, heq, testsOf, Probe.entries]

/-- The collection is what the binaries contribute, in order. -/
theorem collectMetadata_eq {probes : List (DiscoveredBinary × Probe)}
    (hsetup : ∀ probed ∈ probes, probed.2.setupError = none) (all : Collection) :
    ∃ warnings, (warnings = [] ↔ ∀ probed ∈ probes, probed.2.Benign B fromJson) ∧
      probes.foldlM (collectBinary B fromJson) all =
        .ok (all.1 ++ probes.flatMap (testsOf B fromJson), all.2 ++ warnings) := by
  induction probes generalizing all with
  | nil => exact ⟨[], by simp, by simp [pure, Except.pure]⟩
  | cons probed probes ih =>
      obtain ⟨first, hfirst, hprobed⟩ :=
        collectBinary_eq (B := B) (hsetup probed List.mem_cons_self) all
      obtain ⟨rest, hrest, hprobes⟩ := ih (fun p hp => hsetup p (List.mem_cons_of_mem _ hp))
        (all.1 ++ testsOf B fromJson probed, all.2 ++ first)
      refine ⟨first ++ rest, ?_, ?_⟩
      · rw [List.append_eq_nil_iff, hfirst, hrest, List.forall_mem_cons]
      · rw [List.foldlM_cons, hprobed]
        change probes.foldlM (collectBinary B fromJson) _ = _
        rw [hprobes, List.flatMap_cons]
        simp only [List.append_assoc]

/-- The first setup that fails ends the loop, and nothing else does. -/
theorem collectMetadata_error_iff {probes : List (DiscoveredBinary × Probe)} {all : Collection}
    {e : String} :
    probes.foldlM (collectBinary B fromJson) all = .error e ↔
      probes.findSome? (fun probed => probed.2.setupError) = some e := by
  induction probes generalizing all with
  | nil => exact iff_of_false nofun nofun
  | cons probed probes ih =>
      rw [List.foldlM_cons, List.findSome?_cons]
      cases hsetup : probed.2.setupError with
      | some e' =>
          have hround : collectBinary B fromJson all probed = .error e' := by
            rw [collectBinary]
            cases hprobe : probed.2 <;> rw [hprobe] at hsetup <;> cases hsetup
            rfl
          rw [hround]
          simp [bind, Except.bind]
      | none =>
          obtain ⟨warnings, hround⟩ : ∃ warnings, collectBinary B fromJson all probed =
              .ok (all.1 ++ testsOf B fromJson probed, all.2 ++ warnings) :=
            (collectBinary_eq hsetup all).imp fun _ h => h.2
          rw [hround]
          exact ih

/-- The runner dumps only entries that can be read. -/
theorem parses_of_mem_metadata {registry : Registry} {moduleDefaults : List ModuleLabels}
    {libtestNames : Bool} {labelFilter : Option (LabelFilter B)} {inventory : List TestDef}
    {dynamic : List DynTest} {c : Collected}
    (h : collectTests B registry moduleDefaults libtestNames labelFilter inventory dynamic =
      .ok c) {m : NextestTestMetadata} (hm : m ∈ c.metadata) : m.parses B = true := by
  have hentry : some m ∈ (c.trials.filter fun t => !t.ignored).map (metadataOf B) :=
    aligned_collectTests h ▸ List.mem_map_of_mem hm
  obtain ⟨t, -, ht⟩ := List.mem_map.mp hentry
  obtain ⟨stored, hstored, rfl⟩ := Option.map_eq_some_iff.mp ht
  exact parses_iff.mpr (toStorage_spec hstored).1.isSerial

/-- The collection fails with the first error of the setup of a probe.  Otherwise a
binary or a test that cannot be read is left out with a warning and without an effect on
the others, and what a Skuld binary dumps is all taken over. -/
theorem collectMetadata_spec (B : Bdd String)
    (fromJson : String → Except String (List NextestTestMetadata))
    (probes : List (DiscoveredBinary × Probe)) :
    (∀ e, collectMetadata B fromJson probes = .error e ↔
      probes.findSome? (fun probed => probed.2.setupError) = some e) ∧
    ((∀ probed ∈ probes, probed.2.setupError = none) →
      ∃ warnings, collectMetadata B fromJson probes =
          .ok (probes.flatMap (testsOf B fromJson), warnings) ∧
        (warnings = [] ↔ ∀ probed ∈ probes, probed.2.Benign B fromJson) ∧
        (∀ t ∈ probes.flatMap (testsOf B fromJson), IsSerial B t.serialFilter) ∧
        ∀ binary contents, (binary, .dumps contents) ∈ probes →
          ∀ registry moduleDefaults libtestNames labelFilter inventory dynamic c,
            collectTests B registry moduleDefaults libtestNames labelFilter inventory dynamic =
                .ok c → fromJson contents = .ok c.metadata →
              testsOf B fromJson (binary, .dumps contents) =
                c.metadata.map fun m => m.toTestMetadata binary.binaryId) := by
  refine ⟨fun e => collectMetadata_error_iff, fun hsetup => ?_⟩
  obtain ⟨warnings, hwarnings, heq⟩ := collectMetadata_eq hsetup ([], [])
  refine ⟨warnings, heq, hwarnings, fun t ht => ?_, ?_⟩
  · obtain ⟨_, -, ht⟩ := List.mem_flatMap.mp ht
    exact isSerial_of_mem_testsOf ht
  · intro binary contents _ registry moduleDefaults libtestNames labelFilter inventory dynamic c
      hcollect hjson
    have hall : c.metadata.filter (NextestTestMetadata.parses B) = c.metadata :=
      List.filter_eq_self.mpr fun m hm => parses_of_mem_metadata hcollect hm
    rw [testsOf, Probe.entries, hjson]
    exact congrArg (List.map _) hall

def sampleDump : String :=
  "\x7b\"tests\":[\x7b\"name\":\"query\",\"labels\":[\"db\"],\"serial_filter\":\"\"\x7d]\x7d"

def sampleFromJson (contents : String) : Except String (List NextestTestMetadata) :=
  if contents = sampleDump then .ok [⟨"query", ["db"], ""⟩]
  else .error "expected value at line 1 column 1"

/-- A binary that hangs beside one of Skuld's. -/
def sampleProbes : List (DiscoveredBinary × Probe) :=
  [(⟨"app", "target/debug/deps/app"⟩, .timesOut),
    (⟨"db", "target/debug/deps/db"⟩, .dumps sampleDump)]

theorem collectMetadata_spec_sample :
    (∃ warnings, warnings ≠ [] ∧ collectMetadata (shannon String) sampleFromJson sampleProbes =
      .ok ([⟨"db", "query", ["db"], ""⟩], warnings)) ∧
    collectMetadata (shannon String) sampleFromJson
      (sampleProbes ++ [(⟨"cli", "target/debug/deps/cli"⟩, .setupFails "No space left")]) =
        .error "No space left" := by
  obtain ⟨-, hall⟩ := collectMetadata_spec (shannon String) sampleFromJson sampleProbes
  obtain ⟨warnings, heq, hwarnings, -⟩ := hall (by simp [sampleProbes, Probe.setupError])
  refine ⟨⟨warnings, fun hnil => ?_, heq⟩, ?_⟩
  · exact hwarnings.mp hnil _ List.mem_cons_self
  · exact ((collectMetadata_spec _ _ _).1 _).mpr rfl

end Skuld
