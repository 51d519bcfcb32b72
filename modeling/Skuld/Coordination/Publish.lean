import Mathlib.Logic.Function.Basic
import Skuld.Lib.Transition

/-!
# Publishing the database file

Whichever process first opens `.skuld.db` creates it, and every other user must
be able to write to it.  `ensure_published` takes no lock for this.  It creates
a temporary file with `O_EXCL`, makes it `0666` through its descriptor, and
moves it to its place with a rename that replaces nothing; a call that loses
the race removes its own file.

The machine has one step for each call of the operating system, in any order,
by any number of calls of `ensure_published`.  Files are numbered in the order
of their creation, so that a number is a file and not an inode that may be
given out again.  A call may crash between any two of its steps.  The names of
the temporary files come from the environment: two calls may come up with the
same one.
-/

namespace Skuld

/-- The name that `make_temp_path` builds. -/
def tempName (pid nanos seq : ℕ) : String :=
  ".skuld-publish-" ++ toString pid ++ "-" ++ toString nanos ++ "-" ++ toString seq ++ ".tmp"

inductive RenameError where
  | alreadyExists
  | unsupported (errno : ℕ)
  | kernelTooOld (errno : ℕ)
  | other (errno : ℕ)
  deriving DecidableEq

def EEXIST : ℕ := 17
def EINVAL : ℕ := 22
def ENOSYS : ℕ := 38
def ENOTSUP : ℕ := 95
def ENOENT : ℕ := 2

def classifyRenameErrno (errno : ℕ) : RenameError :=
  if errno = EEXIST then
    .alreadyExists
  else if errno = EINVAL ∨ errno = ENOTSUP then
    .unsupported errno
  else if errno = ENOSYS then
    .kernelTooOld errno
  else
    .other errno

/-- The panics of the module, in the order of the source. -/
inductive PublishPanic where
  | couldNotCreate (errno : ℕ)
  | couldNotChmod (errno : ℕ)
  | couldNotFstat
  | modesNotKept (gotMode : ℕ)
  | noAtomicRename (errno : ℕ)
  | kernelTooOld (errno : ℕ)
  | couldNotPublish (errno : ℕ)
  deriving DecidableEq

inductive PublishExit where
  | returned
  | panicked (why : PublishPanic)
  deriving DecidableEq

/-- Where a call of `ensure_published` stands: the system call it makes next. -/
inductive PublishPc where
  | idle
  | lstat
  | open
  | fchmod (tmp : String) (fd : ℕ)
  | fstat (tmp : String) (fd : ℕ)
  | rename (tmp : String)
  | remove (tmp : String) (exit : PublishExit)
  | exited (exit : PublishExit)
  | crashed
  deriving DecidableEq

/-- The directory of the database, the files in it, and the calls. -/
structure Publishers where
  names : String → Option ℕ
  mode : ℕ → ℕ
  creator : ℕ → Option ℕ
  files : ℕ
  pc : ℕ → PublishPc

/-- What the operating system answers to a step of a call. -/
inductive PublishAction where
  | call
  | lstat (permitted : Bool)
  | open (pid nanos seq : ℕ) (umask : ℕ)
  | openFails (errno : ℕ)
  | fchmod (mode : ℕ)
  | fchmodFails (errno : ℕ)
  | fstat
  | fstatFails
  | rename
  | renameFails (errno : ℕ)
  | remove
  | crash
  deriving DecidableEq

/-- The mode includes `0666`. -/
def WorldWritable (mode : ℕ) : Prop :=
  mode &&& 0o666 = 0o666

instance (mode : ℕ) : Decidable (WorldWritable mode) :=
  inferInstanceAs (Decidable (_ = _))

namespace Publishers

def goto (s : Publishers) (p : ℕ) (pc : PublishPc) : Publishers :=
  { s with pc := Function.update s.pc p pc }

/-- The file that `open` with `O_CREAT | O_EXCL` makes under a free name. -/
def createFile (s : Publishers) (p : ℕ) (tmp : String) (mode : ℕ) : Publishers where
  names := Function.update s.names tmp (some s.files)
  mode := Function.update s.mode s.files mode
  creator := Function.update s.creator s.files (some p)
  files := s.files + 1
  pc := s.pc

def chmodFile (s : Publishers) (fd mode : ℕ) : Publishers :=
  { s with mode := Function.update s.mode fd mode }

def unlink (s : Publishers) (tmp : String) : Publishers :=
  { s with names := Function.update s.names tmp none }

/-- The directory after a rename: the file has left its name for the path. -/
def published (s : Publishers) (source target : String) (f : ℕ) : Publishers :=
  { s with names := Function.update (Function.update s.names source none) target (some f) }

/-- `renameat2` with `RENAME_NOREPLACE`. -/
def renameNoReplace (s : Publishers) (source target : String) : Except ℕ Publishers :=
  match s.names source, s.names target with
  | none, _ => .error ENOENT
  | some _, some _ => .error EEXIST
  | some f, none => .ok (s.published source target f)

/-- The step after a rename that failed. -/
def handleRenameError (tmp : String) : RenameError → PublishPc
  | .alreadyExists => .remove tmp .returned
  | .unsupported errno => .remove tmp (.panicked (.noAtomicRename errno))
  | .kernelTooOld errno => .remove tmp (.panicked (.kernelTooOld errno))
  | .other errno => .remove tmp (.panicked (.couldNotPublish errno))

def handleRenameResult (s : Publishers) (p : ℕ) (tmp : String) :
    Except ℕ Publishers → Publishers
  | .ok s' => s'.goto p (.exited .returned)
  | .error errno => s.goto p (handleRenameError tmp (classifyRenameErrno errno))

/-- The check of `try_create_publish_temp` on the mode that `fstat` reports. -/
def checkMode (tmp : String) (mode : ℕ) : PublishPc :=
  let gotMode := mode &&& 0o777
  if WorldWritable gotMode then
    .rename tmp
  else
    .remove tmp (.panicked (.modesNotKept gotMode))

def step (target : String) (s : Publishers) (e : ℕ × PublishAction) : Option Publishers :=
  let p := e.1
  match s.pc p, e.2 with
  | .idle, .call => some (s.goto p .lstat)
  | .lstat, .lstat permitted =>
      if permitted ∧ (s.names target).isSome then
        some (s.goto p (.exited .returned))
      else
        some (s.goto p .open)
  | .open, .open pid nanos seq umask =>
      let tmp := tempName pid nanos seq
      if (s.names tmp).isSome then
        -- `NameTaken`: the loop of `create_publish_temp_with` goes round
        some s
      else
        some ((s.createFile p tmp (0o600 - (0o600 &&& umask))).goto p (.fchmod tmp s.files))
  | .open, .openFails errno =>
      if errno = EEXIST then none else some (s.goto p (.exited (.panicked (.couldNotCreate errno))))
  | .fchmod tmp fd, .fchmod mode => some ((s.chmodFile fd mode).goto p (.fstat tmp fd))
  | .fchmod tmp _, .fchmodFails errno =>
      some (s.goto p (.remove tmp (.panicked (.couldNotChmod errno))))
  | .fstat tmp fd, .fstat => some (s.goto p (checkMode tmp (s.mode fd)))
  | .fstat tmp _, .fstatFails => some (s.goto p (.remove tmp (.panicked .couldNotFstat)))
  | .rename tmp, .rename =>
      some (s.handleRenameResult p tmp (s.renameNoReplace tmp target))
  | .rename tmp, .renameFails errno =>
      if errno = EEXIST then none else some (s.handleRenameResult p tmp (.error errno))
  | .remove tmp exit, .remove => some ((s.unlink tmp).goto p (.exited exit))
  | .exited _, .crash => none
  | _, .crash => some (s.goto p .crashed)
  | _, _ => none

/-- No call has begun, and nothing is at the path.  The directory may hold other
files, such as the temporary files of calls that crashed. -/
def machine (target : String) : Machine Publishers (ℕ × PublishAction) where
  init s :=
    s.names target = none ∧
      (∀ name f, s.names name = some f → f < s.files ∧ s.creator f = none) ∧
      ∀ p, s.pc p = .idle
  step := step target

/-! ### What a call knows -/

/-- The call `p` created the file that the name stands for. -/
def Owned (s : Publishers) (p : ℕ) (name : String) (f : ℕ) : Prop :=
  s.names name = some f ∧ s.creator f = some p

/-- No file of the call `p` has a name. -/
def Bare (s : Publishers) (p : ℕ) : Prop :=
  ∀ name f, ¬ s.Owned p name f

/-- No file of the call `p` has a name, except that it may be the published one. -/
def Clean (target : String) (s : Publishers) (p : ℕ) : Prop :=
  ∀ name f, s.Owned p name f → name = target

/-- The call `p` has one file, which is not published. -/
structure HasTemp (target : String) (s : Publishers) (p : ℕ) (tmp : String) (fd : ℕ) : Prop where
  owned : s.Owned p tmp fd
  ne_target : tmp ≠ target
  only : ∀ name f, s.Owned p name f → name = tmp

/-- What holds of the directory when the call `p` is at a step. -/
def Knows (target : String) (s : Publishers) (p : ℕ) : PublishPc → Prop
  | .idle | .lstat | .open | .exited (.panicked _) => s.Bare p
  | .exited .returned => s.Clean target p ∧ s.names target ≠ none
  | .fchmod tmp fd | .fstat tmp fd => s.HasTemp target p tmp fd
  | .rename tmp => ∃ fd, s.HasTemp target p tmp fd ∧ WorldWritable (s.mode fd)
  | .remove tmp exit =>
      (∃ fd, s.HasTemp target p tmp fd) ∧ (exit = .returned → s.names target ≠ none)
  | .crashed => True

structure Inv (target : String) (s : Publishers) : Prop where
  name_inj : ∀ a b p f, s.Owned p a f → s.names b = some f → a = b
  lt_files : ∀ name f, s.names name = some f → f < s.files
  writable : ∀ f, s.names target = some f → WorldWritable (s.mode f)
  knows : ∀ p, s.Knows target p (s.pc p)

/-- What a step of the call `p` can do. -/
inductive Effect (target : String) (s : Publishers) (p : ℕ) : Publishers → Prop
  | retry : Effect target s p s
  | goto {pc : PublishPc} (h : s.Knows target p (s.pc p) → s.Knows target p pc) :
      Effect target s p (s.goto p pc)
  | create {pid nanos seq mode : ℕ} (hpc : s.pc p = .open)
      (hfree : s.names (tempName pid nanos seq) = none) :
      Effect target s p ((s.createFile p (tempName pid nanos seq) mode).goto p
        (.fchmod (tempName pid nanos seq) s.files))
  | chmod {tmp : String} {fd mode : ℕ} (hpc : s.pc p = .fchmod tmp fd) :
      Effect target s p ((s.chmodFile fd mode).goto p (.fstat tmp fd))
  | publish {tmp : String} {f : ℕ} (hpc : s.pc p = .rename tmp) (hf : s.names tmp = some f)
      (hfree : s.names target = none) :
      Effect target s p ((s.published tmp target f).goto p (.exited .returned))
  | remove {tmp : String} {exit : PublishExit} (hpc : s.pc p = .remove tmp exit) :
      Effect target s p ((s.unlink tmp).goto p (.exited exit))

end Publishers

/-! ## Steps -/

open Publishers

variable {target : String} {s s' : Publishers} {p q : ℕ}

theorem WorldWritable.of_masked {mode : ℕ} (h : WorldWritable (mode &&& 0o777)) :
    WorldWritable mode := by
  unfold WorldWritable at *
  rw [Nat.and_assoc] at h
  exact h

theorem renameNoReplace_error {tmp : String} {errno : ℕ}
    (h : s.renameNoReplace tmp target = .error errno) (hexist : errno = EEXIST) :
    s.names target ≠ none := by
  subst hexist
  unfold renameNoReplace at h
  split at h
  · cases h
  · next htarget => simp [htarget]
  · cases h

theorem renameNoReplace_ok {tmp : String} (h : s.renameNoReplace tmp target = .ok s') :
    ∃ f, s.names tmp = some f ∧ s.names target = none ∧ s' = s.published tmp target f := by
  unfold renameNoReplace at h
  split at h
  · cases h
  · cases h
  · next f hf hfree =>
    cases h
    exact ⟨f, hf, hfree, rfl⟩

/-- A rename that failed leads to the removal of the file; it is no panic only if
there is something at the path. -/
theorem knows_handleRenameError {tmp : String} {errno : ℕ} {fd : ℕ}
    (htemp : s.HasTemp target p tmp fd) (hexist : errno = EEXIST → s.names target ≠ none) :
    s.Knows target p (handleRenameError tmp (classifyRenameErrno errno)) := by
  unfold classifyRenameErrno
  split_ifs with heexist
  · exact ⟨⟨fd, htemp⟩, fun _ => hexist heexist⟩
  all_goals exact ⟨⟨fd, htemp⟩, fun h => by cases h⟩

theorem knows_checkMode {tmp : String} {fd : ℕ} (htemp : s.HasTemp target p tmp fd) :
    s.Knows target p (checkMode tmp (s.mode fd)) := by
  unfold checkMode
  simp only
  split_ifs with hmode
  · exact ⟨fd, htemp, hmode.of_masked⟩
  · exact ⟨⟨fd, htemp⟩, fun h => by cases h⟩

/-- What a step can do, with all that the later proofs need of it. -/
theorem effect_of_step {a : PublishAction} (h : step target s (p, a) = some s') :
    Effect target s p s' := by
  unfold step at h
  simp only at h
  split at h
  · next hpc =>
    cases h
    exact .goto fun hknows => by rw [hpc] at hknows; exact hknows
  · next hpc =>
    split_ifs at h with hfound
    · cases h
      refine .goto fun hknows => ⟨fun name f howned => ?_, Option.isSome_iff_ne_none.mp hfound.2⟩
      rw [hpc] at hknows
      exact absurd howned (hknows name f)
    · cases h
      exact .goto fun hknows => by rw [hpc] at hknows; exact hknows
  · next hpc =>
    split_ifs at h with htaken
    · cases h
      exact .retry
    · cases h
      exact .create hpc (by simpa using htaken)
  · next hpc =>
    split_ifs at h
    cases h
    exact .goto fun hknows => by rw [hpc] at hknows; exact hknows
  · next hpc =>
    cases h
    exact .chmod hpc
  · next hpc =>
    cases h
    exact .goto fun hknows => ⟨⟨_, by rw [hpc] at hknows; exact hknows⟩, fun h => by cases h⟩
  · next hpc =>
    cases h
    exact .goto fun hknows => knows_checkMode (by rw [hpc] at hknows; exact hknows)
  · next hpc =>
    cases h
    exact .goto fun hknows => ⟨⟨_, by rw [hpc] at hknows; exact hknows⟩, fun h => by cases h⟩
  · next tmp hpc =>
    cases h
    cases hrename : s.renameNoReplace tmp target with
    | ok s' =>
        obtain ⟨f, hf, hfree, rfl⟩ := renameNoReplace_ok hrename
        exact .publish hpc hf hfree
    | error errno =>
        refine .goto fun hknows => ?_
        rw [hpc] at hknows
        obtain ⟨fd, htemp, -⟩ := hknows
        exact knows_handleRenameError htemp (renameNoReplace_error hrename)
  · next hpc =>
    split_ifs at h with hexist
    cases h
    refine .goto fun hknows => ?_
    rw [hpc] at hknows
    obtain ⟨fd, htemp, -⟩ := hknows
    exact knows_handleRenameError htemp fun heexist => absurd heexist hexist
  · next hpc =>
    cases h
    exact .remove hpc
  · cases h
  · cases h
    exact .goto fun _ => trivial
  · cases h

/-! ## Frames -/

/-- The files of the call `q` are as they were, and the path has not gone. -/
structure SameFor (target : String) (s s' : Publishers) (q : ℕ) : Prop where
  owned_iff : ∀ name f, s'.Owned q name f ↔ s.Owned q name f
  mode_eq : ∀ name f, s.Owned q name f → s'.mode f = s.mode f
  target_ne : s.names target ≠ none → s'.names target ≠ none

theorem SameFor.hasTemp (h : SameFor target s s' q) {tmp : String} {fd : ℕ}
    (htemp : s.HasTemp target q tmp fd) : s'.HasTemp target q tmp fd where
  owned := (h.owned_iff tmp fd).mpr htemp.owned
  ne_target := htemp.ne_target
  only name f howned := htemp.only name f ((h.owned_iff name f).mp howned)

theorem SameFor.bare (h : SameFor target s s' q) (hbare : s.Bare q) : s'.Bare q :=
  fun name f howned => hbare name f ((h.owned_iff name f).mp howned)

/-- What a call knows stays true when another call changes the directory. -/
theorem SameFor.knows (h : SameFor target s s' q) {pc : PublishPc}
    (hknows : s.Knows target q pc) : s'.Knows target q pc := by
  match pc with
  | .idle | .lstat | .open | .exited (.panicked _) => exact h.bare hknows
  | .exited .returned =>
      obtain ⟨hclean, hne⟩ := hknows
      exact ⟨fun name f howned => hclean name f ((h.owned_iff name f).mp howned), h.target_ne hne⟩
  | .fchmod _ _ | .fstat _ _ => exact h.hasTemp hknows
  | .rename _ =>
      obtain ⟨fd, htemp, hmode⟩ := hknows
      exact ⟨fd, h.hasTemp htemp, (h.mode_eq _ fd htemp.owned).symm ▸ hmode⟩
  | .remove _ _ =>
      obtain ⟨⟨fd, htemp⟩, hne⟩ := hknows
      exact ⟨⟨fd, h.hasTemp htemp⟩, fun hexit => h.target_ne (hne hexit)⟩
  | .crashed => trivial

theorem Publishers.Owned.ne {tmp name : String} {fd f : ℕ} (hp : s.Owned p tmp fd)
    (hq : s.Owned q name f) (hne : q ≠ p) : f ≠ fd ∧ name ≠ tmp := by
  have hfile : f ≠ fd := by
    rintro rfl
    exact hne (Option.some.inj (hq.2.symm.trans hp.2))
  refine ⟨hfile, ?_⟩
  rintro rfl
  exact hfile (Option.some.inj (hq.1.symm.trans hp.1))

/-- A file of another call is neither the new one nor under its name. -/
theorem sameFor_createFile (hinv : Inv target s) {tmp : String} {mode : ℕ}
    (hfree : s.names tmp = none) (hne : q ≠ p) : SameFor target s (s.createFile p tmp mode) q where
  owned_iff name f := by
    by_cases hname : name = tmp
    · subst hname
      simp only [Owned, createFile, Function.update_self, hfree]
      constructor
      · rintro ⟨hf, hcreator⟩
        rw [← Option.some.inj hf, Function.update_self] at hcreator
        exact absurd (Option.some.inj hcreator).symm hne
      · rintro ⟨hf, -⟩
        cases hf
    · simp only [Owned, createFile, Function.update_of_ne hname]
      refine and_congr_right fun hf => ?_
      rw [Function.update_of_ne (Nat.ne_of_lt (hinv.lt_files name f hf))]
  mode_eq name f howned := Function.update_of_ne (Nat.ne_of_lt (hinv.lt_files name f howned.1)) _ _
  target_ne htarget := by
    have hname : target ≠ tmp := fun h => htarget (h ▸ hfree)
    simpa only [createFile, Function.update_of_ne hname] using htarget

theorem sameFor_chmodFile {tmp : String} {fd mode : ℕ} (howned : s.Owned p tmp fd) (hne : q ≠ p) :
    SameFor target s (s.chmodFile fd mode) q where
  owned_iff _ _ := Iff.rfl
  mode_eq _ _ hq := Function.update_of_ne (howned.ne hq hne).1 _ _
  target_ne := id

theorem sameFor_unlink {tmp : String} {fd : ℕ} (htemp : s.HasTemp target p tmp fd) (hne : q ≠ p) :
    SameFor target s (s.unlink tmp) q where
  owned_iff name f := by
    by_cases hname : name = tmp
    · subst hname
      refine iff_of_false (fun h => ?_) fun hq => (htemp.owned.ne hq hne).2 rfl
      simp [Owned, unlink] at h
    · simp [Owned, unlink, hname]
  mode_eq _ _ _ := rfl
  target_ne htarget := by
    simpa only [unlink, Function.update_of_ne htemp.ne_target.symm] using htarget

/-! ## The rename -/

theorem names_published {tmp : String} {f : ℕ} (name : String) :
    (s.published tmp target f).names name =
      if name = target then some f else if name = tmp then none else s.names name := by
  simp only [Publishers.published, Function.update_apply]

theorem sameFor_published {tmp : String} {fd : ℕ} (htemp : s.HasTemp target p tmp fd)
    (hfree : s.names target = none) (hne : q ≠ p) :
    SameFor target s (s.published tmp target fd) q where
  owned_iff name f := by
    unfold Owned
    rw [names_published]
    split_ifs with htarget htmp
    · refine iff_of_false (fun h => ?_) fun hq => ?_
      · rw [← Option.some.inj h.1] at h
        exact hne (Option.some.inj (h.2.symm.trans htemp.owned.2))
      · rw [htarget, hfree] at hq
        cases hq.1
    · exact iff_of_false (fun h => by cases h.1) fun hq => (htemp.owned.ne hq hne).2 htmp
    · rfl
  mode_eq _ _ _ := rfl
  target_ne htarget := absurd hfree htarget

/-! ## The invariant -/

theorem SameFor.refl (q : ℕ) : SameFor target s s q :=
  ⟨fun _ _ => Iff.rfl, fun _ _ _ => rfl, id⟩

theorem sameFor_goto {pc : PublishPc} (q : ℕ) : SameFor target s (s.goto p pc) q :=
  ⟨fun _ _ => Iff.rfl, fun _ _ _ => rfl, id⟩

/-- A step moves one call; the others see what their frame tells them. -/
theorem knows_goto {s₀ : Publishers} {pc : PublishPc} (hknows : ∀ q, s₀.Knows target q (s₀.pc q))
    (hsame : ∀ q, q ≠ p → SameFor target s₀ s q) (hpc : s.pc = s₀.pc)
    (hp : s.Knows target p pc) (q : ℕ) :
    (s.goto p pc).Knows target q ((s.goto p pc).pc q) := by
  apply (sameFor_goto q).knows
  simp only [goto]
  by_cases hqp : q = p
  · subst hqp
    rw [Function.update_self]
    exact hp
  · rw [Function.update_of_ne hqp, hpc]
    exact (hsame q hqp).knows (hknows q)

theorem inv_create (hinv : Inv target s) {tmp : String} {mode : ℕ} (hne : tmp ≠ target)
    (hbare : s.Bare p) (hfree : s.names tmp = none) :
    Inv target ((s.createFile p tmp mode).goto p (.fchmod tmp s.files)) where
  name_inj a b r f ha hb := by
    obtain ⟨ha, hcreator⟩ := ha
    simp only [goto, createFile, Function.update_apply] at ha hb hcreator
    split_ifs at ha hb with hatmp hbtmp hbtmp
    · rw [hatmp, hbtmp]
    · exact absurd (hinv.lt_files b f hb) (by simp only [Option.some.injEq] at ha; omega)
    · exact absurd (hinv.lt_files a f ha) (by simp only [Option.some.injEq] at hb; omega)
    · rw [if_neg (Nat.ne_of_lt (hinv.lt_files a f ha))] at hcreator
      exact hinv.name_inj a b r f ⟨ha, hcreator⟩ hb
  lt_files name f hf := by
    simp only [goto, createFile, Function.update_apply] at hf ⊢
    split_ifs at hf with hname
    · simp only [Option.some.injEq] at hf
      omega
    · have := hinv.lt_files name f hf
      omega
  writable f hf := by
    simp only [goto, createFile, Function.update_of_ne hne.symm] at hf ⊢
    rw [Function.update_of_ne (Nat.ne_of_lt (hinv.lt_files target f hf))]
    exact hinv.writable f hf
  knows := by
    refine knows_goto hinv.knows (fun q hq => sameFor_createFile hinv hfree hq) rfl ?_
    refine ⟨⟨Function.update_self .., Function.update_self ..⟩, hne, fun name f howned => ?_⟩
    by_contra hname
    obtain ⟨hf, hcreator⟩ := howned
    simp only [createFile, Function.update_of_ne hname] at hf hcreator
    rw [Function.update_of_ne (Nat.ne_of_lt (hinv.lt_files name f hf))] at hcreator
    exact hbare name f ⟨hf, hcreator⟩

theorem inv_chmod (hinv : Inv target s) {tmp : String} {fd mode : ℕ}
    (htemp : s.HasTemp target p tmp fd) :
    Inv target ((s.chmodFile fd mode).goto p (.fstat tmp fd)) where
  name_inj := hinv.name_inj
  lt_files := hinv.lt_files
  writable f hf := by
    have hfile : f ≠ fd := by
      rintro rfl
      exact htemp.ne_target (hinv.name_inj tmp target p f htemp.owned hf)
    simp only [goto, chmodFile, Function.update_of_ne hfile]
    exact hinv.writable f hf
  knows := by
    refine knows_goto hinv.knows (fun q hq => sameFor_chmodFile htemp.owned hq) rfl ?_
    exact ⟨htemp.owned, htemp.ne_target, htemp.only⟩

theorem inv_published (hinv : Inv target s) {tmp : String} {fd : ℕ}
    (htemp : s.HasTemp target p tmp fd) (hmode : WorldWritable (s.mode fd))
    (hfree : s.names target = none) :
    Inv target ((s.published tmp target fd).goto p (.exited .returned)) where
  name_inj a b r f ha hb := by
    obtain ⟨ha, hcreator⟩ := ha
    change s.creator f = some r at hcreator
    change (s.published tmp target fd).names a = some f at ha
    change (s.published tmp target fd).names b = some f at hb
    rw [names_published] at ha hb
    split_ifs at ha hb with hatarget hbtarget hbtmp hatmp hbtarget hbtmp
    · rw [hatarget, hbtarget]
    · rw [← Option.some.inj ha] at hb
      exact absurd (hinv.name_inj tmp b p fd htemp.owned hb).symm hbtmp
    · rw [← Option.some.inj hb] at ha
      exact absurd (hinv.name_inj tmp a p fd htemp.owned ha).symm hatmp
    · exact hinv.name_inj a b r f ⟨ha, hcreator⟩ hb
  lt_files name f hf := by
    change (s.published tmp target fd).names name = some f at hf
    change f < s.files
    rw [names_published] at hf
    split_ifs at hf
    · exact Option.some.inj hf ▸ hinv.lt_files tmp fd htemp.owned.1
    · exact hinv.lt_files name f hf
  writable f hf := by
    change (s.published tmp target fd).names target = some f at hf
    rw [names_published, if_pos rfl] at hf
    exact Option.some.inj hf ▸ hmode
  knows := by
    refine knows_goto hinv.knows (fun q hq => sameFor_published htemp hfree hq) rfl ?_
    refine ⟨fun name f howned => ?_, ?_⟩
    · obtain ⟨hf, hcreator⟩ := howned
      rw [names_published] at hf
      split_ifs at hf with htarget htmp
      · exact htarget
      · exact absurd (htemp.only name f ⟨hf, hcreator⟩) htmp
    · rw [names_published, if_pos rfl]
      exact Option.some_ne_none fd

theorem inv_unlink (hinv : Inv target s) {tmp : String} {fd : ℕ} {exit : PublishExit}
    (htemp : s.HasTemp target p tmp fd) (hexit : exit = .returned → s.names target ≠ none) :
    Inv target ((s.unlink tmp).goto p (.exited exit)) := by
  have hnames : ∀ {name f}, (s.unlink tmp).names name = some f → s.names name = some f := by
    intro name f hf
    simp only [unlink, Function.update_apply] at hf
    split_ifs at hf
    exact hf
  have hbare : (s.unlink tmp).Bare p := by
    rintro name f ⟨hf, hcreator⟩
    have hname := htemp.only name f ⟨hnames hf, hcreator⟩
    simp [unlink, hname] at hf
  refine ⟨fun a b r f ha hb => hinv.name_inj a b r f ⟨hnames ha.1, ha.2⟩ (hnames hb),
    fun name f hf => hinv.lt_files name f (hnames hf),
    fun f hf => hinv.writable f (hnames hf), ?_⟩
  refine knows_goto hinv.knows (fun q hq => sameFor_unlink htemp hq) rfl ?_
  cases exit with
  | panicked why => exact hbare
  | returned =>
      refine ⟨fun name f howned => absurd howned (hbare name f), ?_⟩
      simpa only [unlink, Function.update_of_ne htemp.ne_target.symm] using hexit rfl

/-- Every step keeps the invariant, if no temporary file can be named like the path. -/
theorem inv_effect (htarget : ∀ pid nanos seq, tempName pid nanos seq ≠ target)
    (hinv : Inv target s) (heffect : Effect target s p s') : Inv target s' := by
  have hknows := hinv.knows p
  cases heffect with
  | retry => exact hinv
  | goto hpc =>
      refine ⟨hinv.name_inj, hinv.lt_files, hinv.writable, ?_⟩
      exact knows_goto hinv.knows (fun q _ => SameFor.refl q) rfl (hpc hknows)
  | create hpc hfree =>
      rw [hpc] at hknows
      exact inv_create hinv (htarget _ _ _) hknows hfree
  | chmod hpc =>
      rw [hpc] at hknows
      exact inv_chmod hinv hknows
  | publish hpc hf hfree =>
      rw [hpc] at hknows
      obtain ⟨fd, htemp, hmode⟩ := hknows
      obtain rfl := Option.some.inj (hf.symm.trans htemp.owned.1)
      exact inv_published hinv htemp hmode hfree
  | remove hpc =>
      rw [hpc] at hknows
      obtain ⟨⟨fd, htemp⟩, hexit⟩ := hknows
      exact inv_unlink hinv htemp hexit

theorem publish_inductive (htarget : ∀ pid nanos seq, tempName pid nanos seq ≠ target) :
    (machine target).Inductive (fun _ _ => True) (Inv target) where
  init := by
    rintro s ⟨hfree, hfiles, hidle⟩
    -- a file that is there from the start was not created by a call
    have hbare : ∀ p, s.Bare p := by
      rintro p name f ⟨hf, hcreator⟩
      rw [(hfiles name f hf).2] at hcreator
      cases hcreator
    refine ⟨?_, fun name f hf => (hfiles name f hf).1, fun f hf => ?_, fun p => ?_⟩
    · intro a b p f ha _
      exact absurd ha (hbare p a f)
    · rw [hfree] at hf
      cases hf
    · rw [hidle p]
      exact hbare p
  step := by
    rintro s ⟨p, a⟩ s' hinv - hstep
    exact inv_effect htarget hinv (effect_of_step hstep)

/-- A name that a step frees is that of a temporary file of the call that makes
the step, and never the path. -/
theorem names_of_effect (hinv : Inv target s) (heffect : Effect target s p s') {name : String}
    {f : ℕ} (hf : s.names name = some f) :
    s'.names name = some f ∨
      (name ≠ target ∧ s.creator f = some p ∧ s.names target ≠ some f) := by
  have hknows := hinv.knows p
  -- what the step frees is the temporary file that the call knows of
  have hfreed : ∀ {fd}, s.HasTemp target p name fd →
      name ≠ target ∧ s.creator f = some p ∧ s.names target ≠ some f := by
    intro fd htemp
    obtain rfl := Option.some.inj (hf.symm.trans htemp.owned.1)
    exact ⟨htemp.ne_target, htemp.owned.2,
      fun h => htemp.ne_target (hinv.name_inj name target p f htemp.owned h)⟩
  cases heffect with
  | retry | goto | chmod => exact .inl hf
  | create hpc hfree =>
      left
      rw [← hf]
      refine Function.update_of_ne ?_ _ _
      rintro rfl
      rw [hfree] at hf
      cases hf
  | @publish tmp g hpc hg hfree =>
      rw [hpc] at hknows
      obtain ⟨fd, htemp, -⟩ := hknows
      by_cases hname : name = tmp
      · subst hname
        exact .inr (hfreed htemp)
      · left
        change (s.published tmp target g).names name = some f
        rw [names_published, if_neg, if_neg hname]
        · exact hf
        · rintro rfl
          rw [hfree] at hf
          cases hf
  | @remove tmp exit hpc =>
      rw [hpc] at hknows
      obtain ⟨⟨fd, htemp⟩, -⟩ := hknows
      by_cases hname : name = tmp
      · subst hname
        exact .inr (hfreed htemp)
      · left
        rw [← hf]
        exact Function.update_of_ne hname _ _

/-! ## What the callers rely on -/

theorem getElem?_tempName (pid nanos seq : ℕ) :
    (tempName pid nanos seq).toList[6]? = some '-' := by
  unfold tempName
  rw [String.toList_append, String.toList_append, String.toList_append, String.toList_append,
    String.toList_append, String.toList_append]
  simp only [List.append_assoc]
  rfl

/-- The callers publish `.skuld.db`, which is no name of a temporary file. -/
theorem tempName_ne_db (pid nanos seq : ℕ) : tempName pid nanos seq ≠ ".skuld.db" := by
  intro h
  have hchar := getElem?_tempName pid nanos seq
  rw [h] at hchar
  cases hchar

/-- Once something is at the path, it stays. -/
theorem names_run (htarget : ∀ pid nanos seq, tempName pid nanos seq ≠ target)
    {events : List (ℕ × PublishAction)} {f : ℕ} (hs : (machine target).Reached s)
    (hrun : (machine target).run s events = some s') (hf : s.names target = some f) :
    s'.names target = some f := by
  induction events generalizing s with
  | nil =>
      rw [Machine.run, Option.some.injEq] at hrun
      exact hrun ▸ hf
  | cons e events ih =>
      rw [Machine.run, Option.bind_eq_some_iff] at hrun
      obtain ⟨middle, hstep, hrun⟩ := hrun
      have hinv := (publish_inductive htarget).reached hs
      obtain h | ⟨hne, -, -⟩ := names_of_effect hinv (effect_of_step hstep) hf
      · exact ih (.step hs trivial hstep) hrun h
      · exact absurd rfl hne

/-- What holds in every state of the machine and from there on. -/
structure Converged (target : String) (s : Publishers) : Prop where
  stays : ∀ f, s.names target = some f →
    ∀ events s', (machine target).run s events = some s' → s'.names target = some f
  writable : ∀ f, s.names target = some f → WorldWritable (s.mode f)
  /-- A step frees no other name than that of its own call's temporary file. -/
  frees_own : ∀ p a s', (machine target).step s (p, a) = some s' →
    ∀ name f, s.names name = some f → s'.names name = some f ∨
      (name ≠ target ∧ s.creator f = some p ∧ s.names target ≠ some f)
  returned : ∀ p, s.pc p = .exited .returned → ∃ f, s.names target = some f
  no_temp : ∀ p exit, s.pc p = .exited exit → ∀ name f, s.Owned p name f → name = target

theorem publishers_converge (htarget : ∀ pid nanos seq, tempName pid nanos seq ≠ target)
    (hs : (machine target).Reached s) : Converged target s := by
  have hinv := (publish_inductive htarget).reached hs
  refine ⟨fun f hf events s' hrun => names_run htarget hs hrun hf, hinv.writable,
    fun p a s' hstep name f hf => names_of_effect hinv (effect_of_step hstep) hf,
    fun p hpc => ?_, fun p exit hpc => ?_⟩
  · have hknows := hinv.knows p
    rw [hpc] at hknows
    exact Option.ne_none_iff_exists'.mp hknows.2
  · have hknows := hinv.knows p
    rw [hpc] at hknows
    cases exit with
    | returned => exact hknows.1
    | panicked => exact fun name f howned => absurd howned (hknows name f)

def emptyDir : Publishers where
  names _ := none
  mode _ := 0
  creator _ := none
  files := 0
  pc _ := .idle

/-- Two calls with one name for their temporary files; the second makes another
one, and loses the race. -/
def publishRace : List (ℕ × PublishAction) :=
  [(0, .call), (0, .lstat true), (1, .call), (1, .lstat true), (0, .open 7 1 0 0o077),
    (1, .open 7 1 0 0o022), (1, .open 7 2 1 0o022), (0, .fchmod 0o666), (0, .fstat),
    (1, .fchmod 0o666), (1, .fstat), (0, .rename), (1, .rename), (1, .remove)]

theorem publishers_converge_race :
    ∃ s, (machine ".skuld.db").Reached s ∧ s.pc 0 = .exited .returned ∧
      s.pc 1 = .exited .returned ∧ Converged ".skuld.db" s := by
  have hinit : (machine ".skuld.db").Reached emptyDir :=
    .init ⟨rfl, (fun _ _ hname => nomatch hname), fun _ => rfl⟩
  obtain ⟨s, hrun, h0, h1⟩ : ∃ s, (machine ".skuld.db").run emptyDir publishRace = some s ∧
      s.pc 0 = .exited .returned ∧ s.pc 1 = .exited .returned := ⟨_, rfl, rfl, rfl⟩
  have hs := Machine.Reached.of_run hinit hrun
  exact ⟨s, hs, h0, h1, publishers_converge tempName_ne_db hs⟩

end Skuld
