import Skuld.Lib.Loop
import Skuld.Macros.TestBody
import Skuld.Runner.Capture

/-!
# One trial after the other

With capture on, the trials run one after the other.  `run_with_observability` prints
that a trial starts and how it has ended, and in between the descriptors 1 and 2 of the
whole process belong to the test.

* **Reports.**  If the system calls of the capture succeed and the test leaves no copy of
  the pipe behind, the terminal gets exactly the report of the trial: what the test has
  written is in the block of this trial if it has failed, and nowhere otherwise.
* **Setup.**  A capture that cannot begin ends the process, before a test runs with
  descriptors in an unknown state.
* **The drain thread.**  If only its `spawn` fails, 1 and 2 stay redirected to a pipe that
  nobody reads (`capture_all_or_nothing_iff`).  The message about it then panics, and so
  does every trial that follows: no test runs and none passes.

A test is taken to leave the descriptors alone that it finds in use
(`TrialThread.keeps`).  What libtest-mimic prints between the trials is left out.
-/

namespace Skuld

/-! ## What is written -/

abbrev Bytes := List UInt8

def utf8 (text : String) : Bytes :=
  text.toUTF8.toList

def line (text : String) : Bytes :=
  utf8 (text ++ "\n")

/-- `broken` files are pipes that nobody reads. -/
structure Stdio where
  fds : Fds
  written : OpenFile → Bytes
  broken : OpenFile → Bool

inductive TrialEnd where
  | returns
  | panics (payload : PanicPayload)
  | aborts
  /-- The drain thread does not come to the end of its file. -/
  | blocks
  deriving DecidableEq

namespace Stdio

def add (s : Stdio) (file : OpenFile) (bytes : Bytes) : Stdio :=
  { s with written := Function.update s.written file (s.written file ++ bytes) }

/-- A write whose failure is ignored. -/
def write (s : Stdio) (fd : ℕ) (bytes : Bytes) : Stdio :=
  match s.fds.file fd with
  | none => s
  | some file => if s.broken file then s else s.add file bytes

def brokenPipe : PanicPayload :=
  .string "failed printing to stderr: Broken pipe (os error 32)"

/-- `eprintln!` panics if it cannot write, except to a descriptor that is closed. -/
def eprintln (s : Stdio) (text : String) : Except (TrialEnd × Stdio) Stdio :=
  if (s.fds.file STDERR_FILENO).any s.broken then
    .error (.panics brokenPipe, s)
  else
    .ok (s.write STDERR_FILENO (line text))

/-- `panic!`, whose hook writes the message to stderr. -/
def raise (hook : String → Bytes) (message : String) (s : Stdio) : TrialEnd × Stdio :=
  (.panics (.string message), s.write STDERR_FILENO (hook message))

end Stdio

/-! ## The trials -/

inductive Stream where
  | stdout
  | stderr
  deriving DecidableEq

def Stream.fd : Stream → ℕ
  | .stdout => STDOUT_FILENO
  | .stderr => STDERR_FILENO

/-- The thread of a trial: its registration, its body and the drop of the registration.
`writes` is what they, and the panic hook, write to the two streams, in order. -/
structure TrialThread where
  writes : List (Stream × Bytes)
  panicked : Option PanicPayload
  leaves : Fds → Fds
  /-- A child process, or a descriptor, still has a copy of the write end of the pipe. -/
  lingers : Bool
  /-- A test leaves the descriptors alone that it finds in use. -/
  keeps : ∀ fds fd, (fds.file fd).isSome → (leaves fds).file fd = fds.file fd
  lingers_of_copy : ∀ fds fd id, fds.file fd ≠ some (.pipeWrite id) →
    (leaves fds).file fd = some (.pipeWrite id) → lingers = true

/-- A trial and what the system answers while it runs; the errors come with their texts. -/
structure ObservedTrial where
  name : String
  /-- `SKULD_DEBUG` is set. -/
  skuldDebug : Bool
  dbPath : Option String
  answers : CaptureAnswers
  beginError : String
  spawn : Option String
  thread : TrialThread
  drain : Option String
  millis : ℕ

def capturedBlock (name : String) (captured : Bytes) : List Bytes :=
  [line ("[skuld] " ++ name ++ ": ---- captured ----"), captured] ++
    (if captured.getLast? = some 10 then [] else [[10]]) ++
    [line ("[skuld] " ++ name ++ ": ---- end capture ----")]

def dumpCapturedBytesTo (name : String) (captured : Bytes) : List Bytes :=
  if captured.isEmpty then [] else capturedBlock name captured

def dumpCapturedBytes (name : String) (captured : Bytes) (s : Stdio) : Stdio :=
  (dumpCapturedBytesTo name captured).foldl (fun s bytes => s.write STDERR_FILENO bytes) s

def capturedBytesOrWarn (name : String) (result : Except String Bytes) (s : Stdio) :
    Except (TrialEnd × Stdio) (Bytes × Stdio) :=
  match result with
  | .ok bytes => .ok (bytes, s)
  | .error e =>
      (s.eprintln ("[skuld] " ++ name ++ ": warning: capture teardown failed: " ++ e)).map
        fun s => ([], s)

namespace ObservedTrial

section Source

variable (hook : String → Bytes) (debug : String → String) (t : ObservedTrial)

def pipe : OpenFile := .pipeWrite t.answers.pipeId

/-- The message of the panic, if the name is not valid. -/
def ensureValidThreadName : Option String :=
  if '\x00' ∈ t.name.toList then
    some ("skuld: trial name " ++ debug t.name ++
      " contains a NUL byte and can't be used as a thread name")
  else
    none

def skuldDebugEprintln (text : String) (s : Stdio) : Except (TrialEnd × Stdio) Stdio :=
  if t.skuldDebug then s.eprintln ("[skuld-debug] " ++ text) else .ok s

/-- `FdCapture::begin`; the runner ends the process if it fails. -/
def beginCapture (s : Stdio) : Except (TrialEnd × Stdio) (FdCapture × Stdio) :=
  match FdCapture.begin t.answers s.fds with
  | .ok capture fds => .ok (capture,
      { fds, written := Function.update s.written t.pipe [],
        broken := Function.update s.broken t.pipe false })
  | .err fds => do
      -- its read end has been closed
      let s : Stdio := { s with fds, broken := Function.update s.broken t.pipe true }
      let s ← s.eprintln ("[skuld] " ++ t.name ++ ": FATAL: capture setup failed: " ++ t.beginError)
      let s ← s.eprintln ("[skuld] " ++ t.name ++
        ": refusing to run test with unknown stdio state; aborting.")
      .error (.aborts, s)
  | .abort | .panic _ => .error (.aborts, s)

def captureGuard (capture : Bool) (s : Stdio) :
    Except (TrialEnd × Stdio) (Option FdCapture × Stdio) :=
  if capture then do
    let s ← t.skuldDebugEprintln (t.name ++ ": capture enabled (fd redirect)") s
    (t.beginCapture s).map fun (capture, s) => (some capture, s)
  else .ok (none, s)

/-- `FdCapture::end`, if there is a capture.  It waits for the drain thread. -/
def endCapture (lingers : Bool) (s : Stdio) :
    Option FdCapture → Except (TrialEnd × Stdio) (Bytes × Stdio)
  | none => .ok ([], s)
  | some capture =>
      match capture.end t.answers s.fds with
      | .ok ended fds =>
          if lingers then .error (.blocks, { s with fds })
          else
            capturedBytesOrWarn t.name (t.drain.elim (.ok (s.written t.pipe)) .error)
              { s with fds := ended.drained fds }
      | _ => .error (.aborts, s)

def runThread (s : Stdio) : Stdio :=
  { t.thread.writes.foldl (fun s w => s.write w.1.fd w.2) s with fds := t.thread.leaves s.fds }

def startingLine : String :=
  "[skuld] " ++ t.name ++ ": starting"

def outcomeLine : String :=
  "[skuld] " ++ t.name ++ ": " ++ (if t.thread.panicked.isNone then "pass" else "fail") ++ " (" ++
    toString t.millis ++ " ms)"

def spawnMessage (e : String) : String :=
  "skuld: failed to spawn trial thread for " ++ debug t.name ++ ": " ++ e

/-- From the `spawn` of the trial's thread on. -/
def spawnTrial (guard : Option FdCapture) (s : Stdio) : Except (TrialEnd × Stdio) Stdio :=
  match t.spawn with
  | some e => do
      let (captured, s) ← t.endCapture false s guard
      .error ((dumpCapturedBytes t.name captured s).raise hook (t.spawnMessage debug e))
  | none => do
      let (captured, s) ← t.endCapture t.thread.lingers (t.runThread s) guard
      let s ← t.skuldDebugEprintln (t.name ++ ": capture disabled") s
      let s ← s.eprintln t.outcomeLine
      match t.thread.panicked with
      | none => return s
      | some payload => .error (.panics payload, dumpCapturedBytes t.name captured s)

/-- From the "starting" line on. -/
def observe (capture : Bool) (s : Stdio) : Except (TrialEnd × Stdio) Stdio := do
  let s ← s.eprintln t.startingLine
  let s ← t.skuldDebugEprintln (t.name ++ ": entering test scope") s
  let (guard, s) ← t.captureGuard capture s
  t.spawnTrial hook debug guard s

def runWithObservability (capture : Bool) (s : Stdio) : TrialEnd × Stdio :=
  match t.ensureValidThreadName debug with
  | some message => s.raise hook message
  | none =>
      match t.dbPath with
      | some message => s.raise hook message
      | none =>
          match t.observe hook debug capture s with
          | .ok s => (.returns, s)
          | .error result => result

end Source

end ObservedTrial

/-- The runs of the trials on one thread.  A panic ends its trial alone. -/
def runTrials (hook : String → Bytes) (debug : String → String) (capture : Bool) :
    List ObservedTrial → Stdio → List TrialEnd × Stdio
  | [], s => ([], s)
  | t :: trials, s =>
      match t.runWithObservability hook debug capture s with
      | (.aborts, s) => ([.aborts], s)
      | (.blocks, s) => ([.blocks], s)
      | (ending, s) =>
          let (endings, s) := runTrials hook debug capture trials s
          (ending :: endings, s)

/-! ## What a run promises -/

namespace ObservedTrial

variable (hook : String → Bytes) (debug : String → String) (t : ObservedTrial)

/-- The trial does not start. -/
def refusal : Option String :=
  (t.ensureValidThreadName debug).or t.dbPath

/-- How the trial ends if nothing goes wrong with the capture. -/
def ending : TrialEnd :=
  match t.refusal debug, t.spawn, t.thread.panicked with
  | some message, _, _ => .panics (.string message)
  | none, some e, _ => .panics (.string (t.spawnMessage debug e))
  | none, none, some payload => .panics payload
  | none, none, none => .returns

/-- What `end` returns: all that the test has written, unless it was lost. -/
def captured : Bytes :=
  if t.drain.isSome then [] else (t.thread.writes.map Prod.snd).flatten

def teardownReport : Bytes :=
  match t.drain with
  | none => []
  | some e => line ("[skuld] " ++ t.name ++ ": warning: capture teardown failed: " ++ e)

def debugLine (text : String) : Bytes :=
  if t.skuldDebug then line ("[skuld-debug] " ++ text) else []

def startReport : Bytes :=
  line t.startingLine ++ t.debugLine (t.name ++ ": entering test scope") ++
    t.debugLine (t.name ++ ": capture enabled (fd redirect)")

def outcomeReport : Bytes :=
  t.debugLine (t.name ++ ": capture disabled") ++ line t.outcomeLine

/-- What the terminal gets. -/
def report : Bytes :=
  match t.refusal debug, t.spawn with
  | some message, _ => hook message
  | none, some e => t.startReport ++ t.teardownReport ++ hook (t.spawnMessage debug e)
  | none, none => t.startReport ++ t.teardownReport ++ t.outcomeReport ++
      if t.thread.panicked.isSome then (dumpCapturedBytesTo t.name t.captured).flatten else []

/-- The capture begins, and it comes to its end. -/
def smooth : Bool :=
  (t.refusal debug).isSome ||
    (t.answers.saveStdout && t.answers.saveStderr && t.answers.pipe && t.answers.redirectStdout &&
      t.answers.redirectStderr && t.answers.spawn && t.answers.restoreStdout &&
      t.answers.restoreStderr && !(t.spawn.isNone && t.thread.lingers))

/-- A trial that leaves the process as it was, and its report on the terminal. -/
structure Reported (err : OpenFile) (s s' : Stdio) : Prop where
  report : s'.written err = s.written err ++ t.report hook debug
  silent : ∀ file, file ≠ err → file ≠ t.pipe → s'.written file = s.written file
  inUse : ∀ fd, (s.fds.file fd).isSome → s'.fds.file fd = s.fds.file fd
  closed : (∀ fd, s.fds.file fd ≠ some t.pipe) → ∀ fd, s'.fds.file fd ≠ some t.pipe
  broken : ∀ file, file ≠ t.pipe → s'.broken file = s.broken file

end ObservedTrial

/-- Every write to stderr fails. -/
def Stdio.Broken (s : Stdio) : Prop :=
  (s.fds.file STDERR_FILENO).any s.broken = true

/-- A run up to the first trial whose capture goes wrong, and after it. -/
structure TrialsReport (hook : String → Bytes) (debug : String → String) (err : OpenFile)
    (trials : List ObservedTrial) (s : Stdio) (endings : List TrialEnd) (s' : Stdio) : Prop where
  expected : endings.take (trials.takeWhile (·.smooth debug)).length =
    (trials.takeWhile (·.smooth debug)).map (·.ending debug)
  reports : s.written err ++
    ((trials.takeWhile (·.smooth debug)).map (·.report hook debug)).flatten <+: s'.written err
  silent : ∀ file, file ≠ err → (∀ t ∈ trials, file ≠ t.pipe) →
    s'.written file = s.written file
  completes : (∀ t ∈ trials, t.smooth debug = true) → endings = trials.map (·.ending debug) ∧
    s'.written err = s.written err ++ (trials.map (·.report hook debug)).flatten ∧
    ∀ fd, (s.fds.file fd).isSome → s'.fds.file fd = s.fds.file fd
  fails : (∃ t ∈ trials, t.smooth debug = false) →
    (endings.getLast? = some .aborts ∨ endings.getLast? = some .blocks) ∧
        endings.length = (trials.takeWhile (·.smooth debug)).length + 1 ∨
      endings.length = trials.length ∧
        ∀ ending ∈ endings.drop (trials.takeWhile (·.smooth debug)).length,
          ∃ payload, ending = .panics payload

/-! ## Writes -/

namespace Stdio

variable {s : Stdio} {fd : ℕ} {file : OpenFile} {bytes : Bytes} {text : String}

@[simp] theorem add_fds : (s.add file bytes).fds = s.fds := rfl

@[simp] theorem add_broken : (s.add file bytes).broken = s.broken := rfl

@[simp] theorem add_written : (s.add file bytes).written file = s.written file ++ bytes :=
  Function.update_self ..

theorem add_written_of_ne {other : OpenFile} (h : other ≠ file) :
    (s.add file bytes).written other = s.written other :=
  Function.update_of_ne h ..

@[simp] theorem add_nil : s.add file [] = s := by
  simp [add]

@[simp] theorem add_add (bytes' : Bytes) :
    (s.add file bytes).add file bytes' = s.add file (bytes ++ bytes') := by
  simp [add]

theorem write_eq (hfile : s.fds.file fd = some file) (hreads : s.broken file = false) :
    s.write fd bytes = s.add file bytes := by
  simp [write, hfile, hreads]

theorem eprintln_eq (hfile : s.fds.file STDERR_FILENO = some file)
    (hreads : s.broken file = false) : s.eprintln text = .ok (s.add file (line text)) := by
  simp [eprintln, hfile, hreads, write_eq hfile hreads]

theorem eprintln_add_eq (hfile : s.fds.file STDERR_FILENO = some file)
    (hreads : s.broken file = false) :
    (s.add file bytes).eprintln text = .ok (s.add file (bytes ++ line text)) := by
  rw [eprintln_eq (s := s.add file bytes) hfile hreads, add_add]

theorem foldl_write {α : Type} (fd : α → ℕ) (bytes : α → Bytes) {l : List α}
    (hfile : ∀ x ∈ l, s.fds.file (fd x) = some file) (hreads : s.broken file = false) :
    l.foldl (fun s x => s.write (fd x) (bytes x)) s = s.add file (l.map bytes).flatten := by
  induction l generalizing s with
  | nil => simp
  | cons x l ih =>
      rw [List.foldl_cons, write_eq (hfile x List.mem_cons_self) hreads,
        ih (s := s.add file (bytes x)) (fun y hy => hfile y (List.mem_cons_of_mem _ hy)) hreads,
        add_add]
      simp

theorem dumpCapturedBytes_eq {name : String} (hfile : s.fds.file STDERR_FILENO = some file)
    (hreads : s.broken file = false) :
    dumpCapturedBytes name bytes s = s.add file (dumpCapturedBytesTo name bytes).flatten := by
  have hdump := foldl_write (fun _ => STDERR_FILENO) id (l := dumpCapturedBytesTo name bytes)
    (fun _ _ => hfile) hreads
  rwa [List.map_id] at hdump

theorem Broken.eprintln (h : s.Broken) :
    s.eprintln text = .error (.panics brokenPipe, s) := by
  unfold Stdio.eprintln
  exact if_pos h

theorem Broken.write (h : s.Broken) : s.write STDERR_FILENO bytes = s := by
  unfold Broken at h
  cases hfile : s.fds.file STDERR_FILENO with
  | none => simp [Stdio.write, hfile]
  | some file =>
      rw [hfile] at h
      simp only [Option.any_some] at h
      simp [Stdio.write, hfile, h]

end Stdio

/-! ## The capture of a trial -/

variable {answers : CaptureAnswers} {fds body : Fds}

/-- All the calls of `begin` succeed. -/
def CaptureAnswers.begins (answers : CaptureAnswers) : Bool :=
  answers.saveStdout && answers.saveStderr && answers.pipe && answers.redirectStdout &&
    answers.redirectStderr && answers.spawn

/-- What `begin` does to stderr. -/
theorem begin_cases (answers : CaptureAnswers) (hstdout : (fds.file STDOUT_FILENO).isSome)
    (hstderr : (fds.file STDERR_FILENO).isSome) :
    (answers.begins = true ∧ ∃ saved reader fds', FdCapture.begin answers fds =
        .ok { saved := some saved, reader } fds' ∧
        Capturing answers.pipeId fds fds' saved reader) ∨
      answers.begins = false ∧ (FdCapture.begin answers fds = .abort ∨
        (∃ fds', FdCapture.begin answers fds = .err fds' ∧
          fds'.file STDERR_FILENO = fds.file STDERR_FILENO) ∨
        ∃ fds', FdCapture.begin answers fds = .err fds' ∧
          fds'.file STDERR_FILENO = some (.pipeWrite answers.pipeId)) := by
  rcases save_cases answers hstdout hstderr with
    ⟨hsave, hfail⟩ | ⟨⟨hout, herr⟩, saved, hsave, hfree₁, hfree₂, hne⟩
  · refine .inr ⟨?_, .inr (.inl ⟨fds, by rw [FdCapture.begin, hsave], rfl⟩)⟩
    cases hout : answers.saveStdout with
    | false => simp [CaptureAnswers.begins, hout]
    | true => simp [CaptureAnswers.begins, hfail hout]
  cases hpipe : answers.pipe with
  | false =>
      refine .inr ⟨by simp [CaptureAnswers.begins, hpipe],
        .inr (.inl ⟨savedTable fds saved, ?_, ?_⟩)⟩
      · rw [FdCapture.begin, hsave]
        simp [Descriptors.pipe, hpipe]
      · have hne₁ : STDERR_FILENO ≠ saved.stdout := by
          rintro heq
          rw [heq, hfree₁] at hstderr
          cases hstderr
        have hne₂ : STDERR_FILENO ≠ saved.stderr := by
          rintro heq
          rw [heq, hfree₂] at hstderr
          cases hstderr
        simp [savedTable, Descriptors.file_set, hne₁, hne₂]
  | true =>
      obtain ⟨reader, writer, hslots, hpiped⟩ :=
        pipe_savedTable hstdout hstderr hfree₁ hfree₂ hne answers.pipeId
      have hbegin := begin_piped hsave hstdout hslots (hpipe.symm ▸ hpiped)
      have hcapturing := capturing_of_redirected hslots hstdout hstderr answers.pipeId
      rw [hbegin]
      cases hredirect₁ : answers.redirectStdout with
      | false =>
          exact .inr ⟨by simp [CaptureAnswers.begins, hredirect₁], .inr (.inl ⟨fds, rfl, rfl⟩)⟩
      | true =>
          cases hredirect₂ : answers.redirectStderr with
          | false =>
              refine .inr ⟨by simp [CaptureAnswers.begins, hredirect₂], ?_⟩
              cases hrollback : answers.rollback with
              | false => exact .inl rfl
              | true => exact .inr (.inl ⟨fds, rfl, rfl⟩)
          | true =>
              cases hspawn : answers.spawn with
              | true =>
                  refine .inl ⟨?_, saved, reader, _, rfl, hcapturing⟩
                  simp [CaptureAnswers.begins, hout, herr, hpipe, hredirect₁, hredirect₂, hspawn]
              | false =>
                  refine .inr ⟨by simp [CaptureAnswers.begins, hspawn], .inr (.inr ⟨_, rfl, ?_⟩)⟩
                  have hreader : STDERR_FILENO ≠ reader := (hslots.ne_of_open hstderr).2.2.1
                  rw [Descriptors.file_close, if_neg hreader]
                  exact hcapturing.redirected _ (by simp)

/-- A capture ends as its two restores do. -/
theorem end_cases {saved : Saved} {reader : ℕ}
    (hstdout : (fds.file STDOUT_FILENO).isSome) (hstderr : (fds.file STDERR_FILENO).isSome)
    {fds' : Fds} (h : Capturing answers.pipeId fds fds' saved reader)
    (hbody : Untouched saved fds' body) :
    let capture : FdCapture := { saved := some saved, reader }
    ((answers.restoreStdout && answers.restoreStderr) = true ∧ ∃ ended after,
        capture.end answers body = .ok ended after ∧ ended.reader = reader ∧
          Restored answers.pipeId fds body after saved capture) ∨
      (answers.restoreStdout && answers.restoreStderr) = false ∧
        capture.end answers body = .abort := by
  intro capture
  have hends := (ends_of_capturing hstdout hstderr h hbody).1
  cases hrestore : restore answers saved body with
  | mk ok after =>
      cases ok with
      | true =>
          have hend : capture.end answers body = .ok { capture with saved := none }
              (closeSaved saved after) := by
            simp only [FdCapture.end, capture, hrestore]
          rw [hend] at hends
          refine .inl ⟨?_, _, _, hend, rfl, hends⟩
          by_contra hfail
          have hfalse : (restore answers saved body).1 = false :=
            restore_false fun hok => hfail (by simp [hok])
          rw [hrestore] at hfalse
          cases hfalse
      | false =>
          have hend : capture.end answers body = .abort := by
            simp only [FdCapture.end, capture, hrestore]
          rw [hend] at hends
          refine .inr ⟨?_, hend⟩
          rcases hends with h | h <;> simp [h]

/-- What is in use stays, and nothing has a copy of the pipe. -/
structure RestoredTable (id : ℕ) (before after : Fds) : Prop where
  inUse : ∀ fd, (before.file fd).isSome → after.file fd = before.file fd
  closed : (∀ fd, before.file fd ≠ some (.pipeWrite id)) →
    ∀ fd, after.file fd ≠ some (.pipeWrite id)

/-- A table that keeps what is in use, without another copy of the pipe. -/
structure KeptTable (id : ℕ) (before after : Fds) : Prop where
  inUse : ∀ fd, (before.file fd).isSome → after.file fd = before.file fd
  copies : ∀ fd, before.file fd ≠ some (.pipeWrite id) → after.file fd ≠ some (.pipeWrite id)

theorem Capturing.untouched {id : ℕ} {fds' : Fds} {saved : Saved} {reader : ℕ}
    (h : Capturing id fds fds' saved reader) (hstdout : (fds.file STDOUT_FILENO).isSome)
    (hstderr : (fds.file STDERR_FILENO).isSome)
    (hkeeps : ∀ fd, (fds'.file fd).isSome → body.file fd = fds'.file fd) :
    Untouched saved fds' body := by
  intro fd hfd
  refine hkeeps fd ?_
  simp only [List.mem_cons, List.not_mem_nil, or_false] at hfd
  rcases hfd with rfl | rfl | rfl | rfl
  · rw [h.redirected _ (by simp)]
    rfl
  · rw [h.redirected _ (by simp)]
    rfl
  · rwa [h.stdout]
  · rwa [h.stderr]

theorem Capturing.restoredTable {id : ℕ} {fds' after : Fds} {saved : Saved} {reader : ℕ}
    {capture ended : FdCapture} (h : Capturing id fds fds' saved reader)
    (hkept : KeptTable id fds' body) (hrestored : Restored id fds body after saved capture)
    (hreader : ended.reader = reader) : RestoredTable id fds (ended.drained after) := by
  have hne {fd : ℕ} (hfd : (fds.file fd).isSome) :
      fd ≠ saved.stdout ∧ fd ≠ saved.stderr ∧ fd ≠ reader := by
    refine ⟨?_, ?_, ?_⟩ <;> rintro rfl <;> rw [h.free _ (by simp)] at hfd <;> cases hfd
  constructor
  · intro fd hfd
    obtain ⟨hne₁, hne₂, hne₃⟩ := hne hfd
    rw [FdCapture.drained, Descriptors.file_close, hreader, if_neg hne₃]
    by_cases hout : fd = STDOUT_FILENO
    · rw [hout, hrestored.stdout]
    by_cases herr : fd = STDERR_FILENO
    · rw [herr, hrestored.stderr]
    have hsame : fds'.file fd = fds.file fd := h.others fd (by simp [hout, herr, hne₁, hne₂, hne₃])
    calc after.file fd = body.file fd := hrestored.others fd (by simp [hout, herr, hne₁, hne₂])
      _ = fds'.file fd := hkept.inUse fd (hsame ▸ hfd)
      _ = fds.file fd := hsame
  · intro hbefore fd
    have hbody : ∀ fd, fd ∉ [STDOUT_FILENO, STDERR_FILENO] →
        body.file fd ≠ some (.pipeWrite id) := by
      intro fd hfd
      refine hkept.copies fd ?_
      by_cases hout : fd = saved.stdout
      · exact hout ▸ h.stdout ▸ hbefore _
      by_cases herr : fd = saved.stderr
      · exact herr ▸ h.stderr ▸ hbefore _
      by_cases hread : fd = reader
      · rw [hread, h.readEnd]
        exact fun heq => by cases heq
      · simp only [List.mem_cons, List.not_mem_nil, or_false, not_or] at hfd
        rw [h.others fd (by simp [hfd, hout, herr, hread])]
        exact hbefore fd
    rw [FdCapture.drained, Descriptors.file_close]
    split_ifs
    · exact fun heq => by cases heq
    · exact hrestored.endOfFile hbefore hbody fd

/-! ## A trial -/

/-- The two streams are open, and stderr is read. -/
structure Stdio.Terminal (s : Stdio) (err : OpenFile) : Prop where
  stdout : (s.fds.file STDOUT_FILENO).isSome
  stderr : s.fds.file STDERR_FILENO = some err
  reads : s.broken err = false

theorem Stdio.Terminal.eprintln {s : Stdio} {err : OpenFile} (h : s.Terminal err) (text : String) :
    s.eprintln text = .ok (s.add err (line text)) :=
  Stdio.eprintln_eq h.stderr h.reads

theorem Stdio.Terminal.add {s : Stdio} {err : OpenFile} (h : s.Terminal err) (bytes : Bytes) :
    (s.add err bytes).Terminal err :=
  ⟨h.stdout, h.stderr, h.reads⟩

namespace ObservedTrial

variable {hook : String → Bytes} {debug : String → String} {t : ObservedTrial} {err : OpenFile}
  {s : Stdio}

theorem skuldDebugEprintln_eq (h : s.Terminal err) (text : String) :
    t.skuldDebugEprintln text s = .ok (s.add err (t.debugLine text)) := by
  unfold skuldDebugEprintln debugLine
  split_ifs
  · exact h.eprintln _
  · rw [Stdio.add_nil]

/-- The state in which the test runs. -/
def capturing (t : ObservedTrial) (s : Stdio) (fds : Fds) : Stdio where
  fds := fds
  written := Function.update s.written t.pipe []
  broken := Function.update s.broken t.pipe false

@[simp] theorem capturing_written (fds : Fds) : (t.capturing s fds).written t.pipe = [] :=
  Function.update_self ..

theorem runThread_capturing {saved : Saved} {reader : ℕ}
    (h : Capturing t.answers.pipeId fds body saved reader) :
    t.runThread (t.capturing s body) =
      { (t.capturing s body).add t.pipe (t.thread.writes.map Prod.snd).flatten with
        fds := t.thread.leaves body } := by
  have hfile : ∀ w ∈ t.thread.writes, body.file w.1.fd = some t.pipe := by
    intro w _
    cases w.1 with
    | stdout => exact h.redirected _ (by simp [Stream.fd])
    | stderr => exact h.redirected _ (by simp [Stream.fd])
  have hwrites : t.thread.writes.foldl (fun s w => s.write w.1.fd w.2) (t.capturing s body) =
      (t.capturing s body).add t.pipe (t.thread.writes.map Prod.snd).flatten :=
    Stdio.foldl_write (fun w : Stream × Bytes => w.1.fd) Prod.snd hfile (Function.update_self ..)
  rw [runThread, hwrites]
  rfl

theorem keptTable_leaves (hlingers : t.thread.lingers = false) (fds : Fds) (id : ℕ) :
    KeptTable id fds (t.thread.leaves fds) where
  inUse := t.thread.keeps fds
  copies fd hfd h := by
    rw [t.thread.lingers_of_copy fds fd id hfd h] at hlingers
    cases hlingers

theorem capturedBytesOrWarn_eq (h : s.Terminal err) (bytes : Bytes) :
    capturedBytesOrWarn t.name (t.drain.elim (.ok bytes) .error) s =
      .ok (if t.drain.isSome then [] else bytes, s.add err t.teardownReport) := by
  unfold teardownReport
  cases t.drain with
  | none => simp [capturedBytesOrWarn]
  | some e => simp [capturedBytesOrWarn, Stdio.eprintln_eq h.stderr h.reads, Except.map]

/-- A capture that the test has let go of. -/
theorem endCapture_cases {saved : Saved} {reader : ℕ} {fds' : Fds} (hopen : s.Terminal err)
    (h : Capturing t.answers.pipeId s.fds fds' saved reader) (s' : Stdio)
    (hkept : KeptTable t.answers.pipeId fds' s'.fds) (hreads : s'.broken err = false) :
    ((t.answers.restoreStdout && t.answers.restoreStderr) = true ∧ ∃ after,
        RestoredTable t.answers.pipeId s.fds after ∧
        t.endCapture false s' (some { saved := some saved, reader }) =
          .ok (if t.drain.isSome then [] else s'.written t.pipe,
            ({ s' with fds := after } : Stdio).add err t.teardownReport)) ∨
      (t.answers.restoreStdout && t.answers.restoreStderr) = false ∧
        t.endCapture false s' (some { saved := some saved, reader }) = .error (.aborts, s') := by
  have herr : (s.fds.file STDERR_FILENO).isSome := by rw [hopen.stderr]; rfl
  have huntouched := h.untouched hopen.stdout herr hkept.inUse
  rcases end_cases hopen.stdout herr h huntouched with
    ⟨hrestore, ended, after, hend, hreader, hrestored⟩ | ⟨hrestore, hend⟩
  · have htable := h.restoredTable hkept hrestored hreader
    have hterminal : Stdio.Terminal { s' with fds := ended.drained after } err :=
      ⟨by rw [htable.inUse _ hopen.stdout]; exact hopen.stdout,
        (htable.inUse _ herr).trans hopen.stderr, hreads⟩
    refine .inl ⟨hrestore, ended.drained after, htable, ?_⟩
    simp only [endCapture, hend, Bool.false_eq_true, if_false]
    exact capturedBytesOrWarn_eq hterminal _
  · refine .inr ⟨hrestore, ?_⟩
    simp only [endCapture, hend]

theorem endCapture_lingers {saved : Saved} {reader : ℕ} {fds' : Fds} (hopen : s.Terminal err)
    (h : Capturing t.answers.pipeId s.fds fds' saved reader) (s' : Stdio)
    (hkeeps : ∀ fd, (fds'.file fd).isSome → s'.fds.file fd = fds'.file fd) :
    ∃ ending fds, (ending = .aborts ∨ ending = .blocks) ∧
      t.endCapture true s' (some { saved := some saved, reader }) =
        .error (ending, { s' with fds }) := by
  have herr : (s.fds.file STDERR_FILENO).isSome := by rw [hopen.stderr]; rfl
  have huntouched := h.untouched hopen.stdout herr hkeeps
  rcases end_cases hopen.stdout herr h huntouched with ⟨-, ended, after, hend, -, -⟩ | ⟨-, hend⟩
  · exact ⟨.blocks, after, .inr rfl, by simp only [endCapture, hend, if_true]⟩
  · exact ⟨.aborts, s'.fds, .inl rfl, by simp only [endCapture, hend]⟩

/-- Nothing but the report has been added to the terminal, and nothing to other files. -/
structure Extends (t : ObservedTrial) (err : OpenFile) (s s' : Stdio) : Prop where
  terminal : s.written err <+: s'.written err
  silent : ∀ file, file ≠ err → file ≠ t.pipe → s'.written file = s.written file

theorem Extends.trans {s₁ s₂ s₃ : Stdio} (h : t.Extends err s₁ s₂) (h' : t.Extends err s₂ s₃) :
    t.Extends err s₁ s₃ :=
  ⟨h.terminal.trans h'.terminal,
    fun file herr hpipe => (h'.silent file herr hpipe).trans (h.silent file herr hpipe)⟩

theorem extends_add (bytes : Bytes) : t.Extends err s (s.add err bytes) where
  terminal := by simp
  silent _ herr _ := Stdio.add_written_of_ne herr

theorem extends_of_written {s' : Stdio}
    (h : ∀ file, file ≠ t.pipe → s'.written file = s.written file) (hpipe : t.pipe ≠ err) :
    t.Extends err s s' where
  terminal := by rw [h err hpipe.symm]
  silent file _ hfile := h file hfile

/-- No further test runs in this process. -/
structure Stuck (t : ObservedTrial) (err : OpenFile) (s : Stdio) (result : TrialEnd × Stdio) :
    Prop where
  ending : result.1 = .aborts ∨ result.1 = .blocks ∨
    (∃ payload, result.1 = .panics payload) ∧ result.2.Broken
  written : t.Extends err s result.2

theorem beginCapture_cases (hopen : s.Terminal err) (hpipe : t.pipe ≠ err) :
    (t.answers.begins = true ∧ ∃ saved reader fds,
        t.beginCapture s = .ok ({ saved := some saved, reader }, t.capturing s fds) ∧
        Capturing t.answers.pipeId s.fds fds saved reader) ∨
      t.answers.begins = false ∧ ∃ result, t.beginCapture s = .error result ∧
        t.Stuck err s result := by
  have herr : (s.fds.file STDERR_FILENO).isSome := by rw [hopen.stderr]; rfl
  rcases begin_cases t.answers hopen.stdout herr with
    ⟨hbegins, saved, reader, fds, hbegin, hcapturing⟩ | ⟨hbegins, hbegin⟩
  · refine .inl ⟨hbegins, saved, reader, fds, ?_, hcapturing⟩
    simp only [beginCapture, hbegin]
    rfl
  refine .inr ⟨hbegins, ?_⟩
  rcases hbegin with hbegin | ⟨fds, hbegin, hstderr⟩ | ⟨fds, hbegin, hstderr⟩
  · refine ⟨(.aborts, s), by simp only [beginCapture, hbegin], .inl rfl, ?_⟩
    exact extends_of_written (fun _ _ => rfl) hpipe
  · let failed : Stdio := { s with fds, broken := Function.update s.broken t.pipe true }
    have hfile : failed.fds.file STDERR_FILENO = some err := hstderr.trans hopen.stderr
    have hreads : failed.broken err = false :=
      (Function.update_of_ne hpipe.symm ..).trans hopen.reads
    have hextends : t.Extends err s failed := extends_of_written (fun _ _ => rfl) hpipe
    obtain ⟨bytes, hrun⟩ : ∃ bytes, t.beginCapture s = .error (.aborts, failed.add err bytes) := by
      simp only [beginCapture, hbegin, bind, Except.bind]
      rw [Stdio.eprintln_eq hfile hreads]
      simp only [Stdio.eprintln_add_eq hfile hreads]
      exact ⟨_, rfl⟩
    exact ⟨_, hrun, .inl rfl, hextends.trans (extends_add bytes)⟩
  · let failed : Stdio := { s with fds, broken := Function.update s.broken t.pipe true }
    have hbroken : failed.Broken := by
      have hpipeBroken : failed.broken t.pipe = true := Function.update_self ..
      unfold Stdio.Broken
      rw [show failed.fds.file STDERR_FILENO = some t.pipe from hstderr]
      exact hpipeBroken
    have hextends : t.Extends err s failed := extends_of_written (fun _ _ => rfl) hpipe
    refine ⟨(.panics Stdio.brokenPipe, failed), ?_, .inr (.inr ⟨⟨_, rfl⟩, hbroken⟩), hextends⟩
    simp only [beginCapture, hbegin, bind, Except.bind]
    rw [hbroken.eprintln]

/-- The state after a capture. -/
def released (t : ObservedTrial) (s : Stdio) (fds after : Fds) (written : Bytes) : Stdio :=
  { (t.capturing s fds).add t.pipe written with fds := after }

theorem reported_of_restoredTable {after : Fds} {first bytes : Bytes} (fds : Fds) (written : Bytes)
    (htable : RestoredTable t.answers.pipeId s.fds after) (hpipe : t.pipe ≠ err)
    (hreport : t.report hook debug = first ++ bytes) :
    t.Reported hook debug err s
      ((t.released (s.add err first) fds after written).add err bytes) where
  report := by
    rw [hreport, ← List.append_assoc]
    simp [Stdio.add, released, capturing, Function.update_of_ne hpipe.symm]
  silent file herr hfile := by
    simp [Stdio.add, released, capturing, Function.update_of_ne hfile, Function.update_of_ne herr]
  inUse := htable.inUse
  closed := htable.closed
  broken file hfile := Function.update_of_ne hfile ..

theorem runWithObservability_of_starts (h : t.refusal debug = none) (capture : Bool) :
    t.runWithObservability hook debug capture s =
      match t.observe hook debug capture s with
      | .ok s => (.returns, s)
      | .error result => result := by
  have hname : t.ensureValidThreadName debug = none := (Option.or_eq_none_iff.mp h).1
  have hdb : t.dbPath = none := (Option.or_eq_none_iff.mp h).2
  rw [runWithObservability, hname, hdb]

theorem runWithObservability_of_refusal {message : String} (h : t.refusal debug = some message)
    (capture : Bool) : t.runWithObservability hook debug capture s = s.raise hook message := by
  unfold refusal at h
  rw [runWithObservability]
  cases hname : t.ensureValidThreadName debug with
  | some m =>
      rw [hname, Option.some_or] at h
      cases h
      rfl
  | none =>
      rw [hname, Option.none_or] at h
      rw [h]

theorem reported_of_refusal {message : String} (h : t.refusal debug = some message) :
    t.Reported hook debug err s (s.add err (hook message)) where
  report := by simp [report, h]
  silent _ herr _ := Stdio.add_written_of_ne herr
  inUse _ _ := rfl
  closed h := h
  broken _ _ := rfl

theorem Stuck.of_add {bytes : Bytes} {result : TrialEnd × Stdio}
    (h : t.Stuck err (s.add err bytes) result) : t.Stuck err s result :=
  ⟨h.ending, (extends_add bytes).trans h.written⟩

theorem smooth_eq (h : t.refusal debug = none) : t.smooth debug =
    (t.answers.begins && (t.answers.restoreStdout && t.answers.restoreStderr) &&
      !(t.spawn.isNone && t.thread.lingers)) := by
  simp [smooth, h, CaptureAnswers.begins, Bool.and_assoc]

theorem extends_released (hpipe : t.pipe ≠ err) (fds after : Fds) (written : Bytes) :
    t.Extends err s (t.released s fds after written) :=
  extends_of_written (fun file hfile => by
    simp [Stdio.add, released, capturing, Function.update_of_ne hfile]) hpipe

/-- A trial that has printed its first lines and captures. -/
structure Begun (t : ObservedTrial) (err : OpenFile) (s : Stdio) (saved : Saved) (reader : ℕ)
    (fds : Fds) : Prop where
  terminal : s.Terminal err
  pipe : t.pipe ≠ err
  begins : t.beginCapture s = .ok ({ saved := some saved, reader }, t.capturing s fds)
  capturing : Capturing t.answers.pipeId s.fds fds saved reader

section

variable {saved : Saved} {reader : ℕ} {fds : Fds}

theorem Begun.reads (h : t.Begun err s saved reader fds) :
    (t.capturing s fds).broken err = false :=
  (Function.update_of_ne h.pipe.symm ..).trans h.terminal.reads

theorem Begun.terminal_released (h : t.Begun err s saved reader fds) {after : Fds}
    (htable : RestoredTable t.answers.pipeId s.fds after) (written bytes : Bytes) :
    ((t.released s fds after written).add err bytes).Terminal err where
  stdout := by
    have hstdout := htable.inUse _ h.terminal.stdout
    exact hstdout ▸ h.terminal.stdout
  stderr := (htable.inUse _ (by rw [h.terminal.stderr]; rfl)).trans h.terminal.stderr
  reads := h.reads

/-- The end of a capture during which nothing has been written. -/
theorem Begun.endCapture (h : t.Begun err s saved reader fds) :
    ((t.answers.restoreStdout && t.answers.restoreStderr) = true ∧ ∃ after,
        RestoredTable t.answers.pipeId s.fds after ∧
        t.endCapture false (t.capturing s fds) (some { saved := some saved, reader }) =
          .ok ([], (t.released s fds after []).add err t.teardownReport)) ∨
      (t.answers.restoreStdout && t.answers.restoreStderr) = false ∧
        t.endCapture false (t.capturing s fds) (some { saved := some saved, reader }) =
          .error (.aborts, t.released s fds fds []) := by
  have hkept : KeptTable t.answers.pipeId fds (t.capturing s fds).fds :=
    ⟨fun _ _ => rfl, fun _ h => h⟩
  rcases endCapture_cases h.terminal h.capturing _ hkept h.reads with
    ⟨hrestore, after, htable, hend⟩ | ⟨hrestore, hend⟩
  · refine .inl ⟨hrestore, after, htable, ?_⟩
    rw [hend, capturing_written, ite_self, released, Stdio.add_nil]
  · refine .inr ⟨hrestore, ?_⟩
    rw [hend, released, Stdio.add_nil]
    rfl

/-- The end of the capture of a test. -/
theorem Begun.endCapture_runThread (h : t.Begun err s saved reader fds)
    (hlingers : t.thread.lingers = false) :
    ((t.answers.restoreStdout && t.answers.restoreStderr) = true ∧ ∃ after written,
        RestoredTable t.answers.pipeId s.fds after ∧
        t.endCapture false (t.runThread (t.capturing s fds))
            (some { saved := some saved, reader }) =
          .ok (t.captured, (t.released s fds after written).add err t.teardownReport)) ∨
      (t.answers.restoreStdout && t.answers.restoreStderr) = false ∧ ∃ after written,
        t.endCapture false (t.runThread (t.capturing s fds))
            (some { saved := some saved, reader }) =
          .error (.aborts, t.released s fds after written) := by
  rw [runThread_capturing h.capturing]
  rcases endCapture_cases h.terminal h.capturing (t.released s fds (t.thread.leaves fds) _)
    (keptTable_leaves hlingers fds _) h.reads with
    ⟨hrestore, after, htable, hend⟩ | ⟨hrestore, hend⟩
  · refine .inl ⟨hrestore, after, (t.thread.writes.map Prod.snd).flatten, htable, hend.trans ?_⟩
    simp [captured, released]
  · exact .inr ⟨hrestore, _, _, hend⟩

theorem stuck_released {ending : TrialEnd} (hpipe : t.pipe ≠ err)
    (h : ending = .aborts ∨ ending = .blocks) (bytes : Bytes) (fds after : Fds) (written : Bytes) :
    t.Stuck err s (ending, t.released (s.add err bytes) fds after written) :=
  ⟨h.imp_right .inl, (extends_add bytes).trans (extends_released hpipe fds after written)⟩

/-- Up to `FdCapture::begin`. -/
theorem observe_eq (hook : String → Bytes) (debug : String → String) (hopen : s.Terminal err) :
    t.observe hook debug true s = (t.beginCapture (s.add err t.startReport)).bind
      fun (capture, s) => t.spawnTrial hook debug (some capture) s := by
  have hstarted := hopen.add (line t.startingLine)
  have hentered := hopen.add
    (line t.startingLine ++ t.debugLine (t.name ++ ": entering test scope"))
  simp only [observe, captureGuard, hopen.eprintln, skuldDebugEprintln_eq hstarted,
    skuldDebugEprintln_eq hentered, Stdio.add_add, bind, Except.bind, if_true, Except.map]
  rw [startReport]
  cases t.beginCapture (s.add err _) <;> rfl

theorem observe_of_begun (hook : String → Bytes) (debug : String → String) (hopen : s.Terminal err)
    (h : t.Begun err (s.add err t.startReport) saved reader fds) :
    t.observe hook debug true s = t.spawnTrial hook debug (some { saved := some saved, reader })
      (t.capturing (s.add err t.startReport) fds) := by
  rw [observe_eq hook debug hopen, h.begins]
  rfl

/-- The thread cannot be spawned: the capture ends before the panic. -/
theorem observe_of_spawn (hopen : s.Terminal err)
    (h : t.Begun err (s.add err t.startReport) saved reader fds) {e : String}
    (hrefusal : t.refusal debug = none) (hspawn : t.spawn = some e) :
    ((t.answers.restoreStdout && t.answers.restoreStderr) = true ∧ ∃ s',
        t.observe hook debug true s = .error (t.ending debug, s') ∧
        t.Reported hook debug err s s') ∨
      (t.answers.restoreStdout && t.answers.restoreStderr) = false ∧ ∃ result,
        t.observe hook debug true s = .error result ∧ t.Stuck err s result := by
  rw [observe_of_begun hook debug hopen h]
  rcases h.endCapture with ⟨hrestore, after, htable, hend⟩ | ⟨hrestore, hend⟩
  · have hreport : t.report hook debug =
        t.startReport ++ (t.teardownReport ++ hook (t.spawnMessage debug e)) := by
      simp [report, hrefusal, hspawn]
    have hending : t.ending debug = .panics (.string (t.spawnMessage debug e)) := by
      simp [ending, hrefusal, hspawn]
    refine .inl ⟨hrestore, _, ?_, reported_of_restoredTable fds [] htable h.pipe hreport⟩
    simp only [spawnTrial, hspawn, hend, bind, Except.bind]
    rw [hending, Stdio.raise, ← Stdio.add_add]
    have hopen := h.terminal_released htable [] t.teardownReport
    congr 2
    exact Stdio.write_eq hopen.stderr hopen.reads
  · refine .inr ⟨hrestore, _, ?_, stuck_released h.pipe (.inl rfl) t.startReport fds fds []⟩
    simp only [spawnTrial, hspawn, hend, bind, Except.bind]

/-- The test has let go of the pipe: the capture ends, whatever the test has done. -/
theorem observe_of_runs (hopen : s.Terminal err)
    (h : t.Begun err (s.add err t.startReport) saved reader fds)
    (hrefusal : t.refusal debug = none) (hspawn : t.spawn = none)
    (hlingers : t.thread.lingers = false) :
    ((t.answers.restoreStdout && t.answers.restoreStderr) = true ∧ ∃ s',
        t.Reported hook debug err s s' ∧
        (t.observe hook debug true s = .ok s' ∧ t.ending debug = .returns ∨
          t.observe hook debug true s = .error (t.ending debug, s'))) ∨
      (t.answers.restoreStdout && t.answers.restoreStderr) = false ∧ ∃ result,
        t.observe hook debug true s = .error result ∧ t.Stuck err s result := by
  rw [observe_of_begun hook debug hopen h]
  rcases h.endCapture_runThread hlingers with
    ⟨hrestore, after, written, htable, hend⟩ | ⟨hrestore, after, written, hend⟩
  · let base := t.released (s.add err t.startReport) fds after written
    let disabled := t.teardownReport ++ t.debugLine (t.name ++ ": capture disabled")
    have hdisabled : t.skuldDebugEprintln (t.name ++ ": capture disabled")
        (base.add err t.teardownReport) = .ok (base.add err disabled) := by
      rw [skuldDebugEprintln_eq (h.terminal_released htable written t.teardownReport),
        Stdio.add_add]
    have houtcome : (base.add err disabled).eprintln t.outcomeLine =
        .ok (base.add err (t.teardownReport ++ t.outcomeReport)) := by
      rw [(h.terminal_released htable written disabled).eprintln, Stdio.add_add, outcomeReport,
        ← List.append_assoc]
    have hreported {bytes : Bytes} (hreport : t.report hook debug = t.startReport ++ bytes) :
        t.Reported hook debug err s (base.add err bytes) :=
      reported_of_restoredTable fds written htable h.pipe hreport
    refine .inl ⟨hrestore, ?_⟩
    cases hpanicked : t.thread.panicked with
    | none =>
        have hreport : t.report hook debug =
            t.startReport ++ (t.teardownReport ++ t.outcomeReport) := by
          simp [report, hrefusal, hspawn, hpanicked]
        refine ⟨_, hreported hreport, .inl ⟨?_, by simp [ending, hrefusal, hspawn, hpanicked]⟩⟩
        simp only [spawnTrial, hspawn, hlingers, hend, bind, Except.bind]
        rw [hdisabled]
        simp only [houtcome, hpanicked]
        rfl
    | some payload =>
        have hending : t.ending debug = .panics payload := by
          simp [ending, hrefusal, hspawn, hpanicked]
        have hreport : t.report hook debug = t.startReport ++ (t.teardownReport ++
            t.outcomeReport ++ (dumpCapturedBytesTo t.name t.captured).flatten) := by
          simp [report, hrefusal, hspawn, hpanicked]
        have hdump : dumpCapturedBytes t.name t.captured
            (base.add err (t.teardownReport ++ t.outcomeReport)) =
              base.add err (t.teardownReport ++ t.outcomeReport ++
                (dumpCapturedBytesTo t.name t.captured).flatten) := by
          have hopen := h.terminal_released htable written (t.teardownReport ++ t.outcomeReport)
          rw [Stdio.dumpCapturedBytes_eq hopen.stderr hopen.reads, Stdio.add_add]
        refine ⟨_, hreported hreport, .inr ?_⟩
        simp only [spawnTrial, hspawn, hlingers, hend, bind, Except.bind]
        rw [hdisabled]
        simp only [houtcome, hpanicked]
        rw [hending, ← hdump]
  · refine .inr ⟨hrestore, _, ?_,
      stuck_released h.pipe (.inl rfl) t.startReport fds after written⟩
    simp only [spawnTrial, hspawn, hlingers, hend, bind, Except.bind]

/-- The test has not: the run comes to a halt. -/
theorem observe_of_lingers (hook : String → Bytes) (hopen : s.Terminal err)
    (h : t.Begun err (s.add err t.startReport) saved reader fds)
    (hspawn : t.spawn = none) (hlingers : t.thread.lingers = true) :
    ∃ result, t.observe hook debug true s = .error result ∧ t.Stuck err s result := by
  rw [observe_of_begun hook debug hopen h]
  have hthread : t.runThread (t.capturing (s.add err t.startReport) fds) =
      t.released (s.add err t.startReport) fds (t.thread.leaves fds)
        (t.thread.writes.map Prod.snd).flatten := runThread_capturing h.capturing
  obtain ⟨ending, after, hending, hend⟩ := endCapture_lingers h.terminal h.capturing
    (t.released (s.add err t.startReport) fds (t.thread.leaves fds)
      (t.thread.writes.map Prod.snd).flatten) (t.thread.keeps fds)
  refine ⟨_, ?_, stuck_released h.pipe hending t.startReport fds after
    (t.thread.writes.map Prod.snd).flatten⟩
  simp only [spawnTrial, hspawn, hlingers, hthread, bind, Except.bind]
  rw [hend]
  rfl

end

/-- One trial: its report is on the terminal, or no further test runs. -/
theorem runWithObservability_cases (hook : String → Bytes) (debug : String → String)
    (hopen : s.Terminal err) (hpipe : t.pipe ≠ err) :
    t.smooth debug = true ∧ (t.runWithObservability hook debug true s).1 = t.ending debug ∧
        t.Reported hook debug err s (t.runWithObservability hook debug true s).2 ∨
      t.smooth debug = false ∧ t.Stuck err s (t.runWithObservability hook debug true s) := by
  cases hrefusal : t.refusal debug with
  | some message =>
      rw [runWithObservability_of_refusal hrefusal, Stdio.raise,
        Stdio.write_eq hopen.stderr hopen.reads]
      refine .inl ⟨by simp [smooth, hrefusal], by simp [ending, hrefusal], ?_⟩
      exact reported_of_refusal hrefusal
  | none =>
      rw [runWithObservability_of_starts hrefusal, smooth_eq hrefusal]
      have hstarted : (s.add err t.startReport).Terminal err :=
        hopen.add _
      rcases beginCapture_cases hstarted hpipe with
        ⟨hbegins, saved, reader, fds, hbegin, hcapturing⟩ | ⟨hbegins, result, hbegin, hstuck⟩
      · have hbegun : t.Begun err (s.add err t.startReport) saved reader fds :=
          ⟨hstarted, hpipe, hbegin, hcapturing⟩
        cases hspawn : t.spawn with
        | some e =>
            rcases observe_of_spawn hopen hbegun hrefusal hspawn with
              ⟨hrestore, s', hobserve, hreported⟩ | ⟨hrestore, result, hobserve, hstuck⟩
            · rw [hobserve]
              exact .inl ⟨by simp [hbegins, hrestore], rfl, hreported⟩
            · rw [hobserve]
              exact .inr ⟨by simp [hrestore], hstuck⟩
        | none =>
            cases hlingers : t.thread.lingers with
            | true =>
                obtain ⟨result, hobserve, hstuck⟩ :=
                  observe_of_lingers hook hopen hbegun hspawn hlingers
                rw [hobserve]
                exact .inr ⟨by simp, hstuck⟩
            | false =>
                rcases observe_of_runs hopen hbegun hrefusal hspawn hlingers with
                  ⟨hrestore, s', hreported, ⟨hobserve, hending⟩ | hobserve⟩ |
                    ⟨hrestore, result, hobserve, hstuck⟩
                · rw [hobserve]
                  exact .inl ⟨by simp [hbegins, hrestore], hending.symm, hreported⟩
                · rw [hobserve]
                  exact .inl ⟨by simp [hbegins, hrestore], rfl, hreported⟩
                · rw [hobserve]
                  exact .inr ⟨by simp [hrestore], hstuck⟩
      · have hobserve : t.observe hook debug true s = .error result := by
          rw [observe_eq hook debug hopen, hbegin]
          rfl
        rw [hobserve]
        exact .inr ⟨by rw [hbegins]; rfl, hstuck.of_add⟩

/-- A panic, an abort or a wait: what ends a trial early is never a return. -/
def NeverReturns {α : Type} (x : Except (TrialEnd × Stdio) α) : Prop :=
  ∀ result, x = .error result → result.1 ≠ .returns

theorem NeverReturns.bind {α β : Type} {x : Except (TrialEnd × Stdio) α}
    {f : α → Except (TrialEnd × Stdio) β} (hx : NeverReturns x) (hf : ∀ a, NeverReturns (f a)) :
    NeverReturns (x >>= f) := by
  intro result h
  cases x with
  | error r =>
      cases h
      exact hx _ rfl
  | ok a => exact hf a result h

theorem NeverReturns.map {α β : Type} {x : Except (TrialEnd × Stdio) α} {f : α → β}
    (hx : NeverReturns x) : NeverReturns (x.map f) := by
  intro result h
  cases x with
  | error r =>
      cases h
      exact hx _ rfl
  | ok a => cases h

theorem neverReturns_ok {α : Type} (a : α) :
    NeverReturns (.ok a : Except (TrialEnd × Stdio) α) :=
  nofun

theorem neverReturns_error {α : Type} {ending : TrialEnd} (h : ending ≠ .returns) (s : Stdio) :
    NeverReturns (.error (ending, s) : Except (TrialEnd × Stdio) α) := by
  intro result hresult
  cases hresult
  exact h

theorem neverReturns_eprintln (s : Stdio) (text : String) : NeverReturns (s.eprintln text) := by
  unfold Stdio.eprintln
  split_ifs
  · exact neverReturns_error (fun h => by cases h) s
  · exact neverReturns_ok _

theorem neverReturns_skuldDebugEprintln (t : ObservedTrial) (text : String) (s : Stdio) :
    NeverReturns (t.skuldDebugEprintln text s) := by
  unfold skuldDebugEprintln
  split_ifs
  · exact neverReturns_eprintln s _
  · exact neverReturns_ok s

theorem neverReturns_beginCapture (t : ObservedTrial) (s : Stdio) :
    NeverReturns (t.beginCapture s) := by
  unfold beginCapture
  split
  · exact neverReturns_ok _
  · exact (neverReturns_eprintln _ _).bind fun s =>
      (neverReturns_eprintln s _).bind fun s => neverReturns_error (fun h => by cases h) s
  · exact neverReturns_error (fun h => by cases h) s
  · exact neverReturns_error (fun h => by cases h) s

theorem neverReturns_captureGuard (t : ObservedTrial) (capture : Bool) (s : Stdio) :
    NeverReturns (t.captureGuard capture s) := by
  unfold captureGuard
  split_ifs
  · exact (neverReturns_skuldDebugEprintln t _ s).bind fun s => (neverReturns_beginCapture t s).map
  · exact neverReturns_ok _

theorem neverReturns_endCapture (t : ObservedTrial) (lingers : Bool) (s : Stdio)
    (guard : Option FdCapture) : NeverReturns (t.endCapture lingers s guard) := by
  cases guard with
  | none => exact neverReturns_ok _
  | some capture =>
      rw [endCapture]
      split
      · split_ifs
        · exact neverReturns_error (fun h => by cases h) _
        · unfold capturedBytesOrWarn
          split
          · exact neverReturns_ok _
          · exact (neverReturns_eprintln _ _).map
      · exact neverReturns_error (fun h => by cases h) _

theorem neverReturns_spawnTrial (t : ObservedTrial) (guard : Option FdCapture) (s : Stdio) :
    NeverReturns (t.spawnTrial hook debug guard s) := by
  unfold spawnTrial
  cases t.spawn with
  | some e =>
      refine (neverReturns_endCapture t false s guard).bind fun captured => ?_
      exact neverReturns_error (fun h => by cases h) _
  | none =>
      refine (neverReturns_endCapture t _ _ guard).bind fun ⟨captured, s⟩ => ?_
      refine (neverReturns_skuldDebugEprintln t _ s).bind fun s => ?_
      refine (neverReturns_eprintln s _).bind fun s => ?_
      cases t.thread.panicked with
      | none => exact neverReturns_ok s
      | some payload => exact neverReturns_error (fun h => by cases h) _

theorem neverReturns_observe (t : ObservedTrial) (capture : Bool) (s : Stdio) :
    NeverReturns (t.observe hook debug capture s) :=
  (neverReturns_eprintln s _).bind fun s => (neverReturns_skuldDebugEprintln t _ s).bind
    fun s => (neverReturns_captureGuard t capture s).bind
      fun ⟨guard, s⟩ => neverReturns_spawnTrial t guard s

/-- Whatever has happened before, a trial passes only if its test has. -/
theorem ending_of_returns {capture : Bool}
    (h : (t.runWithObservability hook debug capture s).1 = .returns) :
    t.ending debug = .returns := by
  cases hrefusal : t.refusal debug with
  | some message =>
      rw [runWithObservability_of_refusal hrefusal] at h
      cases h
  | none =>
      rw [runWithObservability_of_starts hrefusal] at h
      cases hobserve : t.observe hook debug capture s with
      | error result =>
          rw [hobserve] at h
          exact absurd h (neverReturns_observe t capture s result hobserve)
      | ok s' =>
          obtain ⟨started, -, hobserve⟩ := Loop.exists_of_bind_eq_ok hobserve
          obtain ⟨entered, -, hobserve⟩ := Loop.exists_of_bind_eq_ok hobserve
          obtain ⟨⟨guard, begun⟩, -, hobserve⟩ := Loop.exists_of_bind_eq_ok hobserve
          cases hspawn : t.spawn with
          | some e =>
              simp only [spawnTrial, hspawn] at hobserve
              obtain ⟨⟨captured, ended⟩, -, hobserve⟩ := Loop.exists_of_bind_eq_ok hobserve
              cases hobserve
          | none =>
              simp only [spawnTrial, hspawn] at hobserve
              obtain ⟨⟨captured, ended⟩, -, hobserve⟩ := Loop.exists_of_bind_eq_ok hobserve
              obtain ⟨disabled, -, hobserve⟩ := Loop.exists_of_bind_eq_ok hobserve
              obtain ⟨printed, -, hobserve⟩ := Loop.exists_of_bind_eq_ok hobserve
              cases hpanicked : t.thread.panicked with
              | none => simp [ending, hrefusal, hspawn, hpanicked]
              | some payload =>
                  simp only [hpanicked] at hobserve
                  cases hobserve

theorem runWithObservability_of_broken (t : ObservedTrial) (hook : String → Bytes)
    (debug : String → String) (h : s.Broken) (capture : Bool) :
    ∃ payload, t.runWithObservability hook debug capture s = (.panics payload, s) := by
  cases hrefusal : t.refusal debug with
  | some message =>
      rw [runWithObservability_of_refusal hrefusal, Stdio.raise, h.write]
      exact ⟨_, rfl⟩
  | none =>
      rw [runWithObservability_of_starts hrefusal]
      simp only [observe, h.eprintln, bind, Except.bind]
      exact ⟨_, rfl⟩

theorem ending_ne (t : ObservedTrial) (debug : String → String) :
    t.ending debug ≠ .aborts ∧ t.ending debug ≠ .blocks := by
  unfold ending
  split <;> exact ⟨nofun, nofun⟩

end ObservedTrial

/-! ## A run -/

section

variable {hook : String → Bytes} {debug : String → String} {err : OpenFile} {s : Stdio}
  {trials : List ObservedTrial} {capture : Bool}

theorem runTrials_cons {t : ObservedTrial} {ending : TrialEnd} {s₁ : Stdio}
    (hrun : t.runWithObservability hook debug capture s = (ending, s₁)) (haborts : ending ≠ .aborts)
    (hblocks : ending ≠ .blocks) : runTrials hook debug capture (t :: trials) s =
      (ending :: (runTrials hook debug capture trials s₁).1,
        (runTrials hook debug capture trials s₁).2) := by
  rw [runTrials, hrun]
  cases ending with
  | aborts => exact absurd rfl haborts
  | blocks => exact absurd rfl hblocks
  | _ => rfl

theorem runTrials_of_broken (hook : String → Bytes) (debug : String → String) (capture : Bool)
    (h : s.Broken) (trials : List ObservedTrial) :
    ∃ endings, runTrials hook debug capture trials s = (endings, s) ∧
      endings.length = trials.length ∧ ∀ ending ∈ endings, ∃ payload, ending = .panics payload := by
  induction trials with
  | nil => exact ⟨[], rfl, rfl, nofun⟩
  | cons t trials ih =>
      obtain ⟨endings, hrun, hlength, hpanics⟩ := ih
      obtain ⟨payload, ht⟩ := t.runWithObservability_of_broken hook debug h capture
      refine ⟨.panics payload :: endings, ?_, congrArg (· + 1) hlength, ?_⟩
      · rw [runTrials_cons ht nofun nofun, hrun]
      · exact List.forall_mem_cons.mpr ⟨⟨payload, rfl⟩, hpanics⟩

theorem passes_of_runTrials (trials : List ObservedTrial) (s : Stdio) :
    ∀ p ∈ trials.zip (runTrials hook debug capture trials s).1,
      p.2 = .returns → p.1.ending debug = .returns := by
  induction trials generalizing s with
  | nil => exact fun _ hp => nomatch hp
  | cons t trials ih =>
      have ht : ∀ ending, (t.runWithObservability hook debug capture s).1 = ending →
          ending = .returns → t.ending debug = .returns :=
        fun ending h hreturns => ObservedTrial.ending_of_returns (h.trans hreturns)
      cases hrun : t.runWithObservability hook debug capture s with
      | mk ending s' =>
          rw [hrun] at ht
          rw [runTrials, hrun]
          cases ending with
          | aborts => simp
          | blocks => simp
          | returns | panics _ =>
              rw [List.zip_cons_cons, List.forall_mem_cons]
              exact ⟨ht _ rfl, ih s'⟩

theorem trialsReport_nil : TrialsReport hook debug err [] s [] s where
  expected := rfl
  reports := by simp
  silent _ _ _ := rfl
  completes _ := ⟨rfl, by simp, fun _ _ => rfl⟩
  fails h := by simp at h

theorem TrialsReport.cons {t : ObservedTrial} {endings : List TrialEnd} {s₁ s' : Stdio}
    (hsmooth : t.smooth debug = true) (ht : t.Reported hook debug err s s₁)
    (h : TrialsReport hook debug err trials s₁ endings s') :
    TrialsReport hook debug err (t :: trials) s (t.ending debug :: endings) s' where
  expected := by
    rw [List.takeWhile_cons_of_pos hsmooth, List.length_cons, List.take_succ_cons, h.expected,
      List.map_cons]
  reports := by
    have hreports := h.reports
    rw [ht.report] at hreports
    rw [List.takeWhile_cons_of_pos hsmooth]
    simpa using hreports
  silent file herr hpipes := by
    rw [List.forall_mem_cons] at hpipes
    exact (h.silent file herr hpipes.2).trans (ht.silent file herr hpipes.1)
  completes hall := by
    rw [List.forall_mem_cons] at hall
    obtain ⟨hendings, hreports, hfds⟩ := h.completes hall.2
    refine ⟨congrArg (t.ending debug :: ·) hendings, ?_, fun fd hfd => ?_⟩
    · rw [hreports, ht.report]
      simp
    · have hfirst := ht.inUse fd hfd
      rw [hfds fd (hfirst ▸ hfd), hfirst]
  fails hsome := by
    have hrest : ∃ u ∈ trials, u.smooth debug = false := by
      obtain ⟨u, hu, hstuck⟩ := hsome
      rcases List.mem_cons.mp hu with rfl | hu
      · rw [hsmooth] at hstuck
        cases hstuck
      · exact ⟨u, hu, hstuck⟩
    rw [List.takeWhile_cons_of_pos hsmooth]
    simp only [List.length_cons, List.drop_succ_cons]
    rcases h.fails hrest with ⟨hlast, hlength⟩ | ⟨hlength, hpanics⟩
    · refine .inl ⟨?_, congrArg (· + 1) hlength⟩
      rwa [List.getLast?_cons_of_ne_nil (by rintro rfl; cases hlength)]
    · exact .inr ⟨congrArg (· + 1) hlength, hpanics⟩

/-- A run that ends at its first trial, or in which no test runs any more. -/
theorem trialsReport_of_stuck {t : ObservedTrial} {endings : List TrialEnd} {s' : Stdio}
    (hsmooth : t.smooth debug = false) (ht : t.Extends err s s')
    (h : (endings = [.aborts] ∨ endings = [.blocks]) ∨ endings.length = trials.length + 1 ∧
      ∀ ending ∈ endings, ∃ payload, ending = .panics payload) :
    TrialsReport hook debug err (t :: trials) s endings s' := by
  have hnone : (t :: trials).takeWhile (·.smooth debug) = [] :=
    List.takeWhile_cons_of_neg (by simp [hsmooth])
  refine ⟨by simp [hnone], by simpa [hnone] using ht.terminal, fun file herr hpipes => ?_,
    fun hall => ?_, fun _ => ?_⟩
  · exact ht.silent file herr (hpipes t List.mem_cons_self)
  · rw [hall t List.mem_cons_self] at hsmooth
    cases hsmooth
  · rw [hnone]
    rcases h with (rfl | rfl) | h
    · exact .inl ⟨.inl rfl, rfl⟩
    · exact .inl ⟨.inr rfl, rfl⟩
    · exact .inr h

theorem trialsReport_runTrials (hopen : s.Terminal err) (hpipes : ∀ t ∈ trials, t.pipe ≠ err) :
    TrialsReport hook debug err trials s (runTrials hook debug true trials s).1
      (runTrials hook debug true trials s).2 := by
  induction trials generalizing s with
  | nil => exact trialsReport_nil
  | cons t trials ih =>
      rw [List.forall_mem_cons] at hpipes
      have hcases := ObservedTrial.runWithObservability_cases hook debug hopen hpipes.1
      have hne := t.ending_ne debug
      cases hrun : t.runWithObservability hook debug true s with
      | mk ending s₁ =>
          rw [hrun] at hcases
          rcases hcases with ⟨hsmooth, rfl, hreported⟩ | ⟨hsmooth, hstuck⟩
          · have hterminal : s₁.Terminal err := by
              have hstdout := hreported.inUse _ hopen.stdout
              have hstderr := hreported.inUse STDERR_FILENO (by rw [hopen.stderr]; rfl)
              exact ⟨hstdout ▸ hopen.stdout, hstderr.trans hopen.stderr,
                (hreported.broken err hpipes.1.symm).trans hopen.reads⟩
            rw [runTrials_cons hrun hne.1 hne.2]
            exact (ih hterminal hpipes.2).cons hsmooth hreported
          · rcases hstuck.ending with rfl | rfl | ⟨⟨payload, rfl⟩, hbroken⟩
            · rw [runTrials, hrun]
              exact trialsReport_of_stuck hsmooth hstuck.written (.inl (.inl rfl))
            · rw [runTrials, hrun]
              exact trialsReport_of_stuck hsmooth hstuck.written (.inl (.inr rfl))
            · obtain ⟨endings, hrest, hlength, hpanics⟩ :=
                runTrials_of_broken hook debug true hbroken trials
              rw [runTrials_cons hrun nofun nofun, hrest]
              refine trialsReport_of_stuck hsmooth hstuck.written (.inr ⟨?_, ?_⟩)
              · exact congrArg (· + 1) hlength
              · exact List.forall_mem_cons.mpr ⟨⟨payload, rfl⟩, hpanics⟩

/-- The run of any trials with capture on. -/
theorem trials_report (hook : String → Bytes) (debug : String → String) (hopen : s.Terminal err)
    (hpipes : ∀ t ∈ trials, t.pipe ≠ err) :
    TrialsReport hook debug err trials s (runTrials hook debug true trials s).1
        (runTrials hook debug true trials s).2 ∧
      ∀ p ∈ trials.zip (runTrials hook debug true trials s).1,
        p.2 = .returns → p.1.ending debug = .returns :=
  ⟨trialsReport_runTrials hopen hpipes, passes_of_runTrials trials s⟩

end

def console : Stdio where
  fds := standardFds
  written _ := []
  broken _ := false

/-- A test that prints a byte. -/
def printingTrial (name : String) (panicked : Option PanicPayload) : ObservedTrial where
  name := name
  skuldDebug := false
  dbPath := none
  answers := noFailures
  beginError := ""
  spawn := none
  thread :=
    { writes := [(.stdout, [42])], panicked, leaves := id, lingers := false,
      keeps := fun _ _ _ => rfl, lingers_of_copy := fun _ _ _ h h' => absurd h' h }
  drain := none
  millis := 3

def quietTrial : ObservedTrial :=
  printingTrial "quiet" none

def loudTrial : ObservedTrial :=
  printingTrial "loud" (some .other)

theorem trials_report_two :
    (runTrials utf8 id true [quietTrial, loudTrial] console).1 = [.returns, .panics .other] ∧
      (runTrials utf8 id true [quietTrial, loudTrial] console).2.written (.file 2) =
        line quietTrial.startingLine ++ line quietTrial.outcomeLine ++
          line loudTrial.startingLine ++ line loudTrial.outcomeLine ++
          (capturedBlock "loud" [42]).flatten := by
  have hopen : console.Terminal (.file 2) := ⟨rfl, rfl, rfl⟩
  have hpipes : ∀ t ∈ [quietTrial, loudTrial], t.pipe ≠ .file 2 := fun _ _ => nofun
  obtain ⟨hendings, hwritten, -⟩ := (trials_report utf8 id hopen hpipes).1.completes
    (List.forall_mem_cons.mpr ⟨rfl, List.forall_mem_singleton.mpr rfl⟩)
  refine ⟨hendings, hwritten.trans ?_⟩
  simp [ObservedTrial.report, ObservedTrial.startReport, ObservedTrial.outcomeReport,
    ObservedTrial.debugLine, ObservedTrial.teardownReport, ObservedTrial.captured, console,
    quietTrial, loudTrial, printingTrial, ObservedTrial.refusal,
    ObservedTrial.ensureValidThreadName, dumpCapturedBytesTo]

end Skuld
