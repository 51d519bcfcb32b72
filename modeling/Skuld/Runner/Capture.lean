import Skuld.Lib.Descriptors

/-!
# Capturing a test's output

`FdCapture::begin` saves copies of the descriptors 1 and 2, points both at a pipe
and starts a thread that drains it; `end`, or the drop of the guard, puts the
originals back.  The pipe ends are closed when their owners are dropped, the
saved copies are plain numbers that only explicit calls close.

This is the Unix side.  The answers of the operating system to the fallible
calls are a parameter.
-/

namespace Skuld

inductive OpenFile where
  | file (id : ℕ)
  | pipeRead (id : ℕ)
  | pipeWrite (id : ℕ)
  deriving DecidableEq

abbrev Fds := Descriptors OpenFile

def STDOUT_FILENO : ℕ := 1
def STDERR_FILENO : ℕ := 2

/-- What the operating system answers to the calls of a capture, in the order of
the calls; `pipeId` is the pipe that it makes. -/
structure CaptureAnswers where
  saveStdout : Bool
  saveStderr : Bool
  pipe : Bool
  pipeId : ℕ
  redirectStdout : Bool
  redirectStderr : Bool
  rollback : Bool
  spawn : Bool
  restoreStdout : Bool
  restoreStderr : Bool
  deriving DecidableEq

/-- Saved state of the pre-capture stdio descriptors. -/
structure Saved where
  stdout : ℕ
  stderr : ℕ
  deriving DecidableEq

structure FdCapture where
  saved : Option Saved
  /-- The read end of the pipe, which the drain thread owns. -/
  reader : ℕ
  deriving DecidableEq

inductive CaptureOutcome (α : Type) where
  | ok (value : α) (fds : Fds)
  | err (fds : Fds)
  /-- `abort_with_broken_stdio`. -/
  | abort
  | panic (fds : Fds)

section Source

variable (answers : CaptureAnswers)

def save (fds : Fds) : CaptureOutcome Saved :=
  match fds.dup STDOUT_FILENO answers.saveStdout with
  | none => .err fds
  | some (stdout, fds) =>
      match fds.dup STDERR_FILENO answers.saveStderr with
      | none => .err (fds.close stdout)
      | some (stderr, fds) => .ok { stdout, stderr } fds

/-- Consumes `writer`: it is closed on every way out. -/
def redirectToPipe (writer : ℕ) (saved : Saved) (fds : Fds) : CaptureOutcome Unit :=
  match fds.dup2 writer STDOUT_FILENO answers.redirectStdout with
  | none => .err (fds.close writer)
  | some fds =>
      match fds.dup2 writer STDERR_FILENO answers.redirectStderr with
      | none =>
          match fds.dup2 saved.stdout STDOUT_FILENO answers.rollback with
          | none => .abort
          | some fds => .err (fds.close writer)
      | some fds => .ok () (fds.close writer)

/-- Attempts both restores even if the first fails. -/
def restore (saved : Saved) (fds : Fds) : Bool × Fds :=
  let stdout := fds.dup2 saved.stdout STDOUT_FILENO answers.restoreStdout
  let fds := stdout.getD fds
  let stderr := fds.dup2 saved.stderr STDERR_FILENO answers.restoreStderr
  (stdout.isSome && stderr.isSome, stderr.getD fds)

def closeSaved (saved : Saved) (fds : Fds) : Fds :=
  (fds.close saved.stdout).close saved.stderr

/-- `FdCapture::begin`. -/
def FdCapture.begin (fds : Fds) : CaptureOutcome FdCapture :=
  match save answers fds with
  | .ok saved fds =>
      match fds.pipe (.pipeRead answers.pipeId) (.pipeWrite answers.pipeId) answers.pipe with
      | none => .err fds
      | some (reader, writer, fds) =>
          match redirectToPipe answers writer saved fds with
          | .ok _ fds =>
              if answers.spawn then
                .ok { saved := some saved, reader } fds
              else
                -- the closure that owns the reader is dropped
                .err (fds.close reader)
          | .err fds => .err ((closeSaved saved fds).close reader)
          | .abort => .abort
          | .panic fds => .panic fds
  | .err fds => .err fds
  | .abort => .abort
  | .panic fds => .panic fds

/-- `FdCapture::end` up to the `join` of the drain thread. -/
def FdCapture.end (capture : FdCapture) (fds : Fds) : CaptureOutcome FdCapture :=
  match capture.saved with
  | none => .panic fds
  | some saved =>
      match restore answers saved fds with
      | (false, _) => .abort
      | (true, fds) => .ok { capture with saved := none } (closeSaved saved fds)

/-- `FdCapture::drop`, which does not join the drain thread. -/
def FdCapture.drop (capture : FdCapture) (fds : Fds) : CaptureOutcome Unit :=
  match capture.saved with
  | none => .ok () fds
  | some saved =>
      match restore answers saved fds with
      | (false, _) => .abort
      | (true, fds) => .ok () (closeSaved saved fds)

/-- `drain_pipe` has returned, at end of file or on an error, and its reader is
dropped. -/
def FdCapture.drained (capture : FdCapture) (fds : Fds) : Fds :=
  fds.close capture.reader

end Source

/-! ## What a capture promises -/

/-- What a successful `begin` leaves: 1 and 2 name the write end of the pipe, and
three new descriptors are open. -/
structure Capturing (id : ℕ) (before fds : Fds) (saved : Saved) (reader : ℕ) : Prop where
  free : ∀ fd ∈ [saved.stdout, saved.stderr, reader], before.file fd = none
  distinct : [saved.stdout, saved.stderr, reader].Nodup
  redirected : ∀ fd ∈ [STDOUT_FILENO, STDERR_FILENO], fds.file fd = some (.pipeWrite id)
  stdout : fds.file saved.stdout = before.file STDOUT_FILENO
  stderr : fds.file saved.stderr = before.file STDERR_FILENO
  readEnd : fds.file reader = some (.pipeRead id)
  others : ∀ fd, fd ∉ [STDOUT_FILENO, STDERR_FILENO, saved.stdout, saved.stderr, reader] →
    fds.file fd = before.file fd

/-- The body has left the descriptors 1 and 2 and the saved ones alone. -/
def Untouched (saved : Saved) (fds fds' : Fds) : Prop :=
  ∀ fd ∈ [STDOUT_FILENO, STDERR_FILENO, saved.stdout, saved.stderr], fds'.file fd = fds.file fd

/-- What the end of a capture leaves of the table that the body has left. -/
structure Restored (id : ℕ) (before body after : Fds) (saved : Saved) (capture : FdCapture) :
    Prop where
  stdout : after.file STDOUT_FILENO = before.file STDOUT_FILENO
  stderr : after.file STDERR_FILENO = before.file STDERR_FILENO
  closed : ∀ fd ∈ [saved.stdout, saved.stderr], after.file fd = none
  others : ∀ fd, fd ∉ [STDOUT_FILENO, STDERR_FILENO, saved.stdout, saved.stderr] →
    after.file fd = body.file fd
  /-- Nothing keeps the drain thread from its end of file, unless the body does. -/
  endOfFile : (∀ fd, before.file fd ≠ some (.pipeWrite id)) →
    (∀ fd, fd ∉ [STDOUT_FILENO, STDERR_FILENO] → body.file fd ≠ some (.pipeWrite id)) →
    ∀ fd, after.file fd ≠ some (.pipeWrite id)
  drained : ∀ fd ∈ [saved.stdout, saved.stderr, capture.reader],
    (capture.drained after).file fd = none

/-- The two ends of a capture: everything is put back, or the process aborts
because it cannot be. -/
def Ends (answers : CaptureAnswers) (before body : Fds) (saved : Saved) (capture : FdCapture)
    {α : Type} : CaptureOutcome α → Prop
  | .ok _ after => Restored answers.pipeId before body after saved capture
  | .abort => answers.restoreStdout = false ∨ answers.restoreStderr = false
  | .err _ | .panic _ => False

def AllOrNothing (answers : CaptureAnswers) (before : Fds) : Prop :=
  match FdCapture.begin answers before with
  | .ok capture fds => ∃ saved, capture.saved = some saved ∧
      Capturing answers.pipeId before fds saved capture.reader ∧
      ∀ body, Untouched saved fds body →
        Ends answers before body saved capture (capture.end answers body) ∧
        Ends answers before body saved capture (capture.drop answers body)
  | .err fds => fds = before
  | .abort => answers.rollback = false
  | .panic _ => False

/-- A call fails after the copies have been saved, and nobody closes them. -/
def CaptureAnswers.Leaks (answers : CaptureAnswers) : Prop :=
  answers.saveStdout = true ∧ answers.saveStderr = true ∧
    (answers.pipe = false ∨
      answers.redirectStdout = true ∧ answers.redirectStderr = true ∧ answers.spawn = false)

instance (answers : CaptureAnswers) : Decidable answers.Leaks :=
  inferInstanceAs (Decidable (_ ∧ _))

/-! ## The calls -/

variable {answers : CaptureAnswers} {t body : Fds} {saved : Saved} {reader writer : ℕ}

/-- The descriptors that a capture opens, at the numbers where it opens them. -/
structure Slots (t : Fds) (saved : Saved) (reader writer : ℕ) : Prop where
  stdout : t.file saved.stdout = none
  stderr : t.file saved.stderr = none
  readEnd : t.file reader = none
  writeEnd : t.file writer = none
  distinct : [saved.stdout, saved.stderr, reader, writer].Nodup

def savedTable (t : Fds) (saved : Saved) : Fds :=
  (t.set saved.stdout (t.file STDOUT_FILENO)).set saved.stderr (t.file STDERR_FILENO)

def pipedTable (id : ℕ) (t : Fds) (saved : Saved) (reader writer : ℕ) : Fds :=
  ((savedTable t saved).set reader (some (.pipeRead id))).set writer (some (.pipeWrite id))

/-- `save` leaves the table as it was, or the two copies in it. -/
theorem save_cases (answers : CaptureAnswers) (hstdout : (t.file STDOUT_FILENO).isSome)
    (hstderr : (t.file STDERR_FILENO).isSome) :
    save answers t = .err t ∧ (answers.saveStdout = true → answers.saveStderr = false) ∨
      (answers.saveStdout = true ∧ answers.saveStderr = true) ∧ ∃ saved : Saved,
        save answers t = .ok saved (savedTable t saved) ∧ t.file saved.stdout = none ∧
          t.file saved.stderr = none ∧ saved.stdout ≠ saved.stderr := by
  let stdout := t.lowestFree
  let t₁ := t.set stdout (t.file STDOUT_FILENO)
  have hfree : t.file stdout = none := t.file_lowestFree
  have hne : STDERR_FILENO ≠ stdout := Descriptors.ne_lowestFree hstderr
  have hstderr₁ : t₁.file STDERR_FILENO = t.file STDERR_FILENO := Descriptors.file_set_of_ne hne
  cases hout : answers.saveStdout with
  | false => exact .inl ⟨by simp [save, Descriptors.dup, hout], fun h => nomatch h⟩
  | true =>
      cases herr : answers.saveStderr with
      | false =>
          refine .inl ⟨?_, fun _ => rfl⟩
          rw [save, Descriptors.dup, hout, if_pos ⟨rfl, hstdout⟩]
          simp only [Descriptors.dup, herr, Bool.false_eq_true, false_and, if_false]
          rw [Descriptors.close_set hfree]
      | true =>
          refine .inr ⟨⟨rfl, rfl⟩, ⟨stdout, t₁.lowestFree⟩, ?_, hfree, ?_, ?_⟩
          · rw [save, Descriptors.dup, hout, if_pos ⟨rfl, hstdout⟩]
            simp only [Descriptors.dup, herr]
            rw [if_pos ⟨trivial, hstderr₁.symm ▸ hstderr⟩, hstderr₁]
            rfl
          · have hfree₁ := t₁.file_lowestFree
            rw [Descriptors.file_set] at hfree₁
            split_ifs at hfree₁ with heq
            · rw [hfree₁] at hstdout
              cases hstdout
            · exact hfree₁
          · exact Descriptors.ne_lowestFree (by rw [Descriptors.file_set_self]; exact hstdout)

theorem pipe_savedTable (hstdout : (t.file STDOUT_FILENO).isSome)
    (hstderr : (t.file STDERR_FILENO).isSome) (hfree₁ : t.file saved.stdout = none)
    (hfree₂ : t.file saved.stderr = none) (hne : saved.stdout ≠ saved.stderr) (id : ℕ) :
    ∃ reader writer, Slots t saved reader writer ∧
      (savedTable t saved).pipe (.pipeRead id) (.pipeWrite id) true =
        some (reader, writer, pipedTable id t saved reader writer) := by
  let t₁ := savedTable t saved
  let reader := t₁.lowestFree
  let t₂ := t₁.set reader (some (.pipeRead id))
  have hopen₁ : (t₁.file saved.stdout).isSome := by
    simpa [t₁, savedTable, Descriptors.file_set, hne] using hstdout
  have hopen₂ : (t₁.file saved.stderr).isSome := by
    simpa [t₁, savedTable, Descriptors.file_set] using hstderr
  have hreader₁ := Descriptors.ne_lowestFree hopen₁
  have hreader₂ := Descriptors.ne_lowestFree hopen₂
  have hwriter₁ : saved.stdout ≠ t₂.lowestFree :=
    Descriptors.ne_lowestFree (by rwa [Descriptors.file_set_of_ne hreader₁])
  have hwriter₂ : saved.stderr ≠ t₂.lowestFree :=
    Descriptors.ne_lowestFree (by rwa [Descriptors.file_set_of_ne hreader₂])
  have hwriter₃ : reader ≠ t₂.lowestFree :=
    Descriptors.ne_lowestFree (by rw [Descriptors.file_set_self]; rfl)
  -- outside the copies the table is the first one
  have hsame {fd : ℕ} (h₁ : saved.stdout ≠ fd) (h₂ : saved.stderr ≠ fd) :
      t₁.file fd = t.file fd := by
    change (savedTable t saved).file fd = t.file fd
    rw [savedTable, Descriptors.file_set_of_ne h₂.symm, Descriptors.file_set_of_ne h₁.symm]
  refine ⟨reader, t₂.lowestFree, ⟨hfree₁, hfree₂, ?_, ?_, ?_⟩, rfl⟩
  · exact (hsame hreader₁ hreader₂).symm.trans t₁.file_lowestFree
  · have hfree := t₂.file_lowestFree
    rw [Descriptors.file_set_of_ne hwriter₃.symm] at hfree
    exact (hsame hwriter₁ hwriter₂).symm.trans hfree
  · simpa using ⟨⟨hne, hreader₁, hwriter₁⟩, ⟨hreader₂, hwriter₂⟩, hwriter₃⟩

theorem Slots.ne (h : Slots t saved reader writer) :
    (saved.stdout ≠ saved.stderr ∧ saved.stdout ≠ reader ∧ saved.stdout ≠ writer) ∧
      (saved.stderr ≠ reader ∧ saved.stderr ≠ writer) ∧ reader ≠ writer := by
  simpa using h.distinct

/-- 1 and 2 are in use, so that nothing is opened there. -/
theorem Slots.ne_of_open (h : Slots t saved reader writer) {fd : ℕ} (hfd : (t.file fd).isSome) :
    fd ≠ saved.stdout ∧ fd ≠ saved.stderr ∧ fd ≠ reader ∧ fd ≠ writer := by
  refine ⟨?_, ?_, ?_, ?_⟩ <;> rintro rfl
  · rw [h.stdout] at hfd
    cases hfd
  · rw [h.stderr] at hfd
    cases hfd
  · rw [h.readEnd] at hfd
    cases hfd
  · rw [h.writeEnd] at hfd
    cases hfd

theorem file_pipedTable (id fd : ℕ) :
    (pipedTable id t saved reader writer).file fd =
      if fd = writer then some (.pipeWrite id)
      else if fd = reader then some (.pipeRead id)
      else if fd = saved.stderr then t.file STDERR_FILENO
      else if fd = saved.stdout then t.file STDOUT_FILENO
      else t.file fd := by
  simp only [pipedTable, savedTable, Descriptors.file_set]

theorem redirectToPipe_eq (answers : CaptureAnswers) {fds : Fds} {x : OpenFile}
    (hwriter : fds.file writer = some x) (hne : writer ≠ STDOUT_FILENO)
    (hsaved : (fds.file saved.stdout).isSome)
    (hsavedNe : saved.stdout ≠ STDOUT_FILENO) :
    redirectToPipe answers writer saved fds =
      if answers.redirectStdout then
        if answers.redirectStderr then
          .ok () (((fds.set STDOUT_FILENO (some x)).set STDERR_FILENO (some x)).close writer)
        else if answers.rollback then
          .err (((fds.set STDOUT_FILENO (some x)).set STDOUT_FILENO
            (fds.file saved.stdout)).close writer)
        else
          .abort
      else
        .err (fds.close writer) := by
  rw [redirectToPipe]
  cases answers.redirectStdout with
  | false => simp [Descriptors.dup2]
  | true =>
      cases answers.redirectStderr with
      | true => simp [Descriptors.dup2, hwriter, Descriptors.file_set_of_ne hne]
      | false =>
          cases answers.rollback <;>
            simp [Descriptors.dup2, hwriter, Descriptors.file_set_of_ne hsavedNe, hsaved]

/-- Closing everything that was opened leads back to the first table. -/
theorem Slots.undo (h : Slots t saved reader writer) {fds : Fds}
    (hfds : ∀ fd, fd ∉ [saved.stdout, saved.stderr, reader, writer] → fds.file fd = t.file fd) :
    (closeSaved saved (fds.close writer)).close reader = t := by
  refine Descriptors.ext fun fd => ?_
  simp only [closeSaved, Descriptors.file_close]
  split_ifs with h₁ h₂ h₃ h₄
  · rw [h₁, h.readEnd]
  · rw [h₂, h.stderr]
  · rw [h₃, h.stdout]
  · rw [h₄, h.writeEnd]
  · exact hfds fd (by simp [h₁, h₂, h₃, h₄])

theorem Slots.piped (h : Slots t saved reader writer) (id : ℕ) :
    (pipedTable id t saved reader writer).file writer = some (.pipeWrite id) ∧
      (pipedTable id t saved reader writer).file reader = some (.pipeRead id) ∧
      (pipedTable id t saved reader writer).file saved.stdout = t.file STDOUT_FILENO ∧
      (pipedTable id t saved reader writer).file saved.stderr = t.file STDERR_FILENO ∧
      ∀ fd, fd ∉ [saved.stdout, saved.stderr, reader, writer] →
        (pipedTable id t saved reader writer).file fd = t.file fd := by
  obtain ⟨⟨h₁₂, h₁₃, h₁₄⟩, ⟨h₂₃, h₂₄⟩, h₃₄⟩ := h.ne
  refine ⟨?_, ?_, ?_, ?_, fun fd hfd => ?_⟩
  · simp [file_pipedTable]
  · simp [file_pipedTable, h₃₄]
  · simp [file_pipedTable, h₁₂, h₁₃, h₁₄]
  · simp [file_pipedTable, h₂₃, h₂₄]
  · simp only [List.mem_cons, List.not_mem_nil, or_false, not_or] at hfd
    simp [file_pipedTable, hfd]

/-! ## The end of a capture -/

theorem restore_eq {fds : Fds} (hstdout : (fds.file saved.stdout).isSome)
    (hstderr : (fds.file saved.stderr).isSome) (hne : saved.stderr ≠ STDOUT_FILENO)
    (hok : answers.restoreStdout = true ∧ answers.restoreStderr = true) :
    restore answers saved fds =
      (true, (fds.set STDOUT_FILENO (fds.file saved.stdout)).set STDERR_FILENO
        (fds.file saved.stderr)) := by
  simp [restore, Descriptors.dup2, hok, hstdout, hstderr, Descriptors.file_set_of_ne hne]

theorem restore_false {fds : Fds}
    (hfail : ¬ (answers.restoreStdout = true ∧ answers.restoreStderr = true)) :
    (restore answers saved fds).1 = false := by
  simp only [restore, Descriptors.dup2]
  cases hout : answers.restoreStdout with
  | false => simp
  | true =>
      have herr : answers.restoreStderr = false := by simpa [hout] using hfail
      simp [herr]

/-- The table after a restore that has succeeded. -/
def restoredTable (t body : Fds) (saved : Saved) : Fds :=
  closeSaved saved ((body.set STDOUT_FILENO (t.file STDOUT_FILENO)).set STDERR_FILENO
    (t.file STDERR_FILENO))

theorem restored_restoredTable {id : ℕ} {capture : FdCapture}
    (hstdout : STDOUT_FILENO ≠ saved.stdout ∧ STDOUT_FILENO ≠ saved.stderr)
    (hstderr : STDERR_FILENO ≠ saved.stdout ∧ STDERR_FILENO ≠ saved.stderr) :
    Restored id t body (restoredTable t body saved) saved capture := by
  have hfile (fd : ℕ) : (restoredTable t body saved).file fd =
      if fd = saved.stderr then none else if fd = saved.stdout then none
      else if fd = STDERR_FILENO then t.file STDERR_FILENO
      else if fd = STDOUT_FILENO then t.file STDOUT_FILENO else body.file fd := by
    simp only [restoredTable, closeSaved, Descriptors.file_close, Descriptors.file_set]
  have hclosed : ∀ fd ∈ [saved.stdout, saved.stderr],
      (restoredTable t body saved).file fd = none := fun fd hfd => by
    rw [hfile]
    simp only [List.mem_cons, List.not_mem_nil, or_false] at hfd
    rcases hfd with rfl | rfl <;> simp
  refine ⟨?_, ?_, hclosed, fun fd hfd => ?_, fun hbefore hbody fd => ?_, fun fd hfd => ?_⟩
  · rw [hfile, if_neg hstdout.2, if_neg hstdout.1, if_neg (by decide), if_pos rfl]
  · rw [hfile, if_neg hstderr.2, if_neg hstderr.1, if_pos rfl]
  · simp only [List.mem_cons, List.not_mem_nil, or_false, not_or] at hfd
    simp [hfile, hfd]
  · rw [hfile]
    split_ifs with _ _ h₂ h₁
    · exact fun h => nomatch h
    · exact fun h => nomatch h
    · exact hbefore _
    · exact hbefore _
    · exact hbody fd (by simp [h₁, h₂])
  · rw [FdCapture.drained, Descriptors.file_close]
    split_ifs with hreader
    · rfl
    · exact hclosed fd (by simpa [hreader] using hfd)

theorem ends_of_capturing {fds : Fds} (hstdout : (t.file STDOUT_FILENO).isSome)
    (hstderr : (t.file STDERR_FILENO).isSome)
    (h : Capturing answers.pipeId t fds saved reader) (hbody : Untouched saved fds body) :
    let capture : FdCapture := { saved := some saved, reader }
    Ends answers t body saved capture (capture.end answers body) ∧
      Ends answers t body saved capture (capture.drop answers body) := by
  intro capture
  -- what `begin` has found free is not in use
  have hne {fd : ℕ} (hfd : (t.file fd).isSome) : fd ≠ saved.stdout ∧ fd ≠ saved.stderr := by
    constructor <;> rintro rfl <;> rw [h.free _ (by simp)] at hfd <;> cases hfd
  have hcopy₁ : body.file saved.stdout = t.file STDOUT_FILENO :=
    (hbody _ (by simp)).trans h.stdout
  have hcopy₂ : body.file saved.stderr = t.file STDERR_FILENO :=
    (hbody _ (by simp)).trans h.stderr
  have hrestored : Restored answers.pipeId t body (restoredTable t body saved) saved capture :=
    restored_restoredTable (hne hstdout) (hne hstderr)
  by_cases hok : answers.restoreStdout = true ∧ answers.restoreStderr = true
  · have hrestore : restore answers saved body =
        (true, (body.set STDOUT_FILENO (t.file STDOUT_FILENO)).set STDERR_FILENO
          (t.file STDERR_FILENO)) := by
      rw [restore_eq (hcopy₁ ▸ hstdout) (hcopy₂ ▸ hstderr) (hne hstdout).2.symm hok, hcopy₁, hcopy₂]
    constructor
    · simp only [FdCapture.end, capture, hrestore]
      exact hrestored
    · simp only [FdCapture.drop, capture, hrestore]
      exact hrestored
  · have hrestore : restore answers saved body = (false, (restore answers saved body).2) :=
      Prod.ext (restore_false hok) rfl
    have habort : answers.restoreStdout = false ∨ answers.restoreStderr = false := by
      simpa [imp_iff_not_or] using hok
    constructor
    · simp only [FdCapture.end, capture]
      rw [hrestore]
      exact habort
    · simp only [FdCapture.drop, capture]
      rw [hrestore]
      exact habort

/-! ## The beginning of a capture -/

theorem capturing_of_redirected (h : Slots t saved reader writer)
    (hstdout : (t.file STDOUT_FILENO).isSome) (hstderr : (t.file STDERR_FILENO).isSome) (id : ℕ) :
    Capturing id t ((((pipedTable id t saved reader writer).set STDOUT_FILENO
      (some (.pipeWrite id))).set STDERR_FILENO (some (.pipeWrite id))).close writer) saved
      reader := by
  obtain ⟨hwrite, hread, hcopy₁, hcopy₂, hothers⟩ := h.piped id
  obtain ⟨hout₁, hout₂, hout₃, hout₄⟩ := h.ne_of_open hstdout
  obtain ⟨herr₁, herr₂, herr₃, herr₄⟩ := h.ne_of_open hstderr
  obtain ⟨⟨h₁₂, h₁₃, h₁₄⟩, ⟨h₂₃, h₂₄⟩, h₃₄⟩ := h.ne
  refine ⟨fun fd hfd => ?_, by simp [h₁₂, h₁₃, h₂₃], fun fd hfd => ?_, ?_, ?_, ?_, fun fd hfd => ?_⟩
  · simp only [List.mem_cons, List.not_mem_nil, or_false] at hfd
    rcases hfd with rfl | rfl | rfl
    · exact h.stdout
    · exact h.stderr
    · exact h.readEnd
  · simp only [List.mem_cons, List.not_mem_nil, or_false] at hfd
    rcases hfd with rfl | rfl <;> simp [Descriptors.file_close, Descriptors.file_set, hout₄, herr₄]
  · rw [← hcopy₁]
    simp [Descriptors.file_close, Descriptors.file_set, h₁₄, hout₁.symm, herr₁.symm]
  · rw [← hcopy₂]
    simp [Descriptors.file_close, Descriptors.file_set, h₂₄, hout₂.symm, herr₂.symm]
  · rw [← hread]
    simp [Descriptors.file_close, Descriptors.file_set, h₃₄, hout₃.symm, herr₃.symm]
  · simp only [List.mem_cons, List.not_mem_nil, or_false, not_or] at hfd
    by_cases hwriter : fd = writer
    · rw [hwriter, h.writeEnd]
      simp [Descriptors.file_close]
    · rw [← hothers fd (by simp [hfd, hwriter])]
      simp [Descriptors.file_close, Descriptors.file_set, hwriter, hfd]

/-- A copy that is still open tells the table from the one before. -/
theorem ne_of_saved_open (hstdout : (t.file STDOUT_FILENO).isSome)
    (hfree : t.file saved.stdout = none) {fds : Fds}
    (hcopy : fds.file saved.stdout = t.file STDOUT_FILENO) : fds ≠ t := by
  rintro rfl
  rw [← hcopy, hfree] at hstdout
  cases hstdout

/-- When the pipe cannot be made, both copies stay open. -/
theorem not_allOrNothing_of_pipe (hsave : save answers t = .ok saved (savedTable t saved))
    (hstdout : (t.file STDOUT_FILENO).isSome) (hfree : t.file saved.stdout = none)
    (hne : saved.stdout ≠ saved.stderr) (hpipe : answers.pipe = false) :
    ¬ AllOrNothing answers t := by
  have hbegin : FdCapture.begin answers t = .err (savedTable t saved) := by
    rw [FdCapture.begin, hsave]
    simp [Descriptors.pipe, hpipe]
  rw [AllOrNothing, hbegin]
  refine ne_of_saved_open hstdout hfree ?_
  simp [savedTable, Descriptors.file_set, hne]

/-- What `begin` does after the copies are saved and the pipe is made. -/
theorem begin_piped (hsave : save answers t = .ok saved (savedTable t saved))
    (hstdout : (t.file STDOUT_FILENO).isSome) (hslots : Slots t saved reader writer)
    (hpipe : (savedTable t saved).pipe (.pipeRead answers.pipeId) (.pipeWrite answers.pipeId)
      answers.pipe = some (reader, writer, pipedTable answers.pipeId t saved reader writer)) :
    let piped := pipedTable answers.pipeId t saved reader writer
    let redirected :=
      ((piped.set STDOUT_FILENO (some (.pipeWrite answers.pipeId))).set STDERR_FILENO
        (some (.pipeWrite answers.pipeId))).close writer
    FdCapture.begin answers t =
      if answers.redirectStdout then
        if answers.redirectStderr then
          if answers.spawn then .ok { saved := some saved, reader } redirected
          else .err (redirected.close reader)
        else if answers.rollback then .err t else .abort
      else .err t := by
  intro piped redirected
  obtain ⟨hwrite, -, hcopy, -, hothers⟩ := hslots.piped answers.pipeId
  obtain ⟨hout₁, -, -, hout₄⟩ := hslots.ne_of_open hstdout
  have hredirect := redirectToPipe_eq answers hwrite hout₄.symm (hcopy ▸ hstdout) hout₁.symm
  rw [FdCapture.begin, hsave]
  simp only [hpipe, hredirect]
  cases answers.redirectStdout with
  | false =>
      simp only [Bool.false_eq_true, if_false]
      rw [hslots.undo hothers]
  | true =>
      cases answers.redirectStderr with
      | true => simp [redirected, piped]
      | false =>
          cases answers.rollback with
          | false => simp
          | true =>
              simp only [if_true, Bool.false_eq_true, if_false]
              rw [hslots.undo fun fd hfd => ?_]
              rw [Descriptors.file_set, Descriptors.file_set]
              split_ifs with hfd₁
              · rw [hcopy, hfd₁]
              · exact hothers fd hfd

theorem capture_all_or_nothing_iff (hstdout : (t.file STDOUT_FILENO).isSome)
    (hstderr : (t.file STDERR_FILENO).isSome) : AllOrNothing answers t ↔ ¬ answers.Leaks := by
  rcases save_cases answers hstdout hstderr with
    ⟨hsave, hfail⟩ | ⟨⟨hout, herr⟩, saved, hsave, hfree₁, hfree₂, hne⟩
  · have hbegin : FdCapture.begin answers t = .err t := by rw [FdCapture.begin, hsave]
    refine iff_of_true (by rw [AllOrNothing, hbegin]) fun ⟨hout, herr, _⟩ => ?_
    rw [hfail hout] at herr
    cases herr
  cases hpipe : answers.pipe with
  | false =>
      exact iff_of_false (not_allOrNothing_of_pipe hsave hstdout hfree₁ hne hpipe)
        fun hnot => hnot ⟨hout, herr, .inl hpipe⟩
  | true =>
      obtain ⟨reader, writer, hslots, hpiped⟩ :=
        pipe_savedTable hstdout hstderr hfree₁ hfree₂ hne answers.pipeId
      have hbegin := begin_piped hsave hstdout hslots (hpipe.symm ▸ hpiped)
      rw [AllOrNothing, hbegin, CaptureAnswers.Leaks]
      cases hredirect₁ : answers.redirectStdout with
      | false => simp [hpipe]
      | true =>
          cases hredirect₂ : answers.redirectStderr with
          | false => cases hrollback : answers.rollback <;> simp [hpipe]
          | true =>
              have hcapturing := capturing_of_redirected hslots hstdout hstderr answers.pipeId
              cases hspawn : answers.spawn with
              | true =>
                  simp only [if_true, hpipe, Bool.true_eq_false, and_false, or_false, not_false_iff,
                    iff_true]
                  exact ⟨saved, rfl, hcapturing, fun body hbody =>
                    ends_of_capturing hstdout hstderr hcapturing hbody⟩
              | false =>
                  refine iff_of_false ?_ fun hnot => hnot ⟨hout, herr, .inr ⟨rfl, rfl, rfl⟩⟩
                  simp only [if_true, Bool.false_eq_true, if_false]
                  refine ne_of_saved_open hstdout hfree₁ ?_
                  rw [Descriptors.file_close, if_neg hslots.ne.1.2.1]
                  exact hcapturing.stdout

/-! ### A process with the three standard descriptors -/

def standardFds : Fds where
  file fd := if fd < 3 then some (.file fd) else none
  finite := ⟨3, fun fd hfd => if_neg (by omega)⟩

/-- Every call succeeds. -/
def noFailures : CaptureAnswers where
  saveStdout := true
  saveStderr := true
  pipe := true
  pipeId := 0
  redirectStdout := true
  redirectStderr := true
  rollback := true
  spawn := true
  restoreStdout := true
  restoreStderr := true

theorem capture_all_or_nothing_standard : AllOrNothing noFailures standardFds :=
  (capture_all_or_nothing_iff rfl rfl).mpr (by decide)

theorem capture_all_or_nothing_pipe_fails :
    ¬ ∀ answers (t : Fds), (t.file STDOUT_FILENO).isSome → (t.file STDERR_FILENO).isSome →
      AllOrNothing answers t := by
  intro h
  let answers : CaptureAnswers := { noFailures with pipe := false }
  rcases save_cases answers (t := standardFds) rfl rfl with
    ⟨-, hfail⟩ | ⟨-, saved, hsave, hfree, -, hne⟩
  · exact nomatch hfail rfl
  · exact not_allOrNothing_of_pipe hsave rfl hfree hne rfl (h answers standardFds rfl rfl)

end Skuld
