import Mathlib.Algebra.Order.BigOperators.Group.Finset
import Mathlib.Data.Fintype.Basic
import Skuld.Coordination.Moved

/-!
# The init lock

`open_db` runs under an exclusive lock on the directory of the database, so that one
call at a time creates, publishes and initializes it.  The lock belongs to the
directory that a call has opened, the path may name another one by now: somebody moves
the directory aside and makes a new one, and the lock is split.

The calls are machines that share the path and the lock table of the kernel.  A call
checks for a split before and after what it does under the lock.  In between the path
may come to name any other directory or none.

* Whoever returns had its lock from the first moment to the last check, and by that
  check the path named its directory: all others who had a lock then were split.  That
  both of two calls return takes more than one move: a directory that a call has open is
  put back (`returned_excludes`).  Otherwise a call whose directory the path no longer
  names is `Doomed`, it panics at its next check.
* A lock is released however its call ends, so no call waits for good: left to
  themselves finitely many calls end, and `returns` tells which of them panic
  (`calls_end`).
-/

namespace Skuld

/-- Where a call of `open_db` is. -/
inductive OpenPc where
  -- `with_init_lock`
  | openTarget
  | lockExclusive
  | recordTarget
  -- under the lock
  | connect
  | initSplit
  | initSql
  | initAfterSplit
  | migrate
  | schemaSplit
  | companions
  | openSplit
  -- the file of the lock is about to be dropped
  | release
  | returned
  | panicked
  deriving DecidableEq

namespace OpenPc

/-- Where a step of the work goes on that succeeds. -/
def afterWork : OpenPc → Option OpenPc
  | connect => some initSplit
  | initSql => some initAfterSplit
  | migrate => some schemaSplit
  | companions => some openSplit
  | _ => none

/-- Where it is repeated: the database was absent and has been published, or busy. -/
def afterRetry : OpenPc → Option OpenPc
  | connect => some connect
  | initSql => some initSplit
  | migrate => some migrate
  | _ => none

/-- Where a check goes on that finds no split. -/
def afterCheck : OpenPc → Option OpenPc
  | initSplit => some initSql
  | initAfterSplit => some migrate
  | schemaSplit => some companions
  | openSplit => some release
  | _ => none

/-- The lock target is open, and there is another check to come. -/
def beforeLastCheck : OpenPc → Bool
  | openTarget | release | returned | panicked => false
  | _ => true

/-- The lock is held. -/
def locked : OpenPc → Bool
  | openTarget | lockExclusive | returned | panicked => false
  | _ => true

/-- There is a token. -/
def hasToken (pc : OpenPc) : Bool :=
  pc.locked && pc ≠ recordTarget

/-- How many steps are left if nothing is repeated. -/
def stepsLeft : OpenPc → ℕ
  | openTarget => 12
  | lockExclusive => 11
  | recordTarget => 10
  | connect => 9
  | initSplit => 8
  | initSql => 7
  | initAfterSplit => 6
  | migrate => 5
  | schemaSplit => 4
  | companions => 3
  | openSplit => 2
  | release => 1
  | returned => 0
  | panicked => 0

end OpenPc

structure OpenCall where
  pc : OpenPc
  /-- The directory that the lock target is open on. -/
  fd : Option FileIdentity
  /-- The identity in the token. -/
  targetIdentity : Option FileIdentity

structure InitWorld (ι : Type) where
  /-- What the path of the directory names. -/
  dir : Option FileIdentity
  /-- The call that has the lock on a directory. -/
  owner : FileIdentity → Option ι
  calls : ι → OpenCall

inductive FlockOutcome where
  | ok
  | intr
  | error

inductive WorkOutcome where
  | ok
  | retry
  | panic

inductive InitEvent (ι : Type) where
  | replace (dir : Option FileIdentity)
  | openTarget (i : ι) (fails : Bool)
  | flock (i : ι) (outcome : FlockOutcome)
  | recordTarget (i : ι) (fails : Bool)
  | work (i : ι) (outcome : WorkOutcome)
  | check (i : ι) (statFails : Bool)
  | release (i : ι)

/-- Nobody interferes and nothing fails. -/
def InitEvent.quiet {ι : Type} : InitEvent ι → Bool
  | .openTarget _ false | .flock _ .ok | .recordTarget _ false | .work _ .ok | .check _ false
  | .release _ => true
  | _ => false

namespace InitWorld

variable {ι : Type} [DecidableEq ι]

def goto (w : InitWorld ι) (i : ι) (pc : OpenPc) : InitWorld ι :=
  { w with calls := Function.update w.calls i { w.calls i with pc } }

/-- The call ends, and its file is dropped, which releases the lock. -/
def finish (w : InitWorld ι) (i : ι) (pc : OpenPc) : InitWorld ι :=
  { w with
    owner := fun d => if w.owner d = some i then none else w.owner d
    calls := Function.update w.calls i ⟨pc, none, none⟩ }

/-- A directory that cannot be inspected counts as split. -/
def targetHasSplit (w : InitWorld ι) (i : ι) (statFails : Bool) : Bool :=
  statFails || w.dir ≠ (w.calls i).targetIdentity

def step (w : InitWorld ι) : InitEvent ι → Option (InitWorld ι)
  | .replace dir => some { w with dir }
  | .openTarget i fails =>
      if (w.calls i).pc = .openTarget then
        match w.dir with
        | some d => some <|
            if fails then w.finish i .panicked
            else { w with calls := Function.update w.calls i ⟨.lockExclusive, some d, none⟩ }
        | none => some (w.finish i .panicked)
      else
        none
  | .flock i outcome =>
      match (w.calls i).pc, (w.calls i).fd, outcome with
      | .lockExclusive, some d, .ok =>
          if w.owner d = none then
            some { w.goto i .recordTarget with owner := Function.update w.owner d (some i) }
          else
            none
      | .lockExclusive, _, .intr => some w
      | .lockExclusive, _, .error => some (w.finish i .panicked)
      | _, _, _ => none
  | .recordTarget i fails =>
      if (w.calls i).pc = .recordTarget then
        some <|
          if fails then w.finish i .panicked
          else { w with
            calls := Function.update w.calls i ⟨.connect, (w.calls i).fd, (w.calls i).fd⟩ }
      else
        none
  | .work i .ok => (w.calls i).pc.afterWork.map (w.goto i)
  | .work i .retry => (w.calls i).pc.afterRetry.map (w.goto i)
  | .work i .panic => (w.calls i).pc.afterWork.map fun _ => w.finish i .panicked
  | .check i statFails => (w.calls i).pc.afterCheck.map fun next =>
      if w.targetHasSplit i statFails then w.finish i .panicked else w.goto i next
  | .release i => if (w.calls i).pc = .release then some (w.finish i .returned) else none

/-- No call has begun. -/
def machine (ι : Type) [DecidableEq ι] : Machine (InitWorld ι) (InitEvent ι) where
  init w := (∀ d, w.owner d = none) ∧ ∀ i, w.calls i = ⟨.openTarget, none, none⟩
  step := step

/-! ## The lock table -/

end InitWorld

/-- The lock table and a call agree. -/
structure OpenCall.Agrees {ι : Type} (c : OpenCall) (owner : FileIdentity → Option ι) (i : ι) :
    Prop where
  fd_locked : c.pc.locked = true → ∃ d, c.fd = some d ∧ owner d = some i
  fd_waiting : c.pc = .lockExclusive → ∃ d, c.fd = some d
  owner_locked : ∀ d, owner d = some i → c.pc.locked = true ∧ c.fd = some d
  token : c.pc.hasToken = true → c.targetIdentity = c.fd

namespace OpenCall.Agrees

variable {ι : Type} {c : OpenCall} {owner owner' : FileIdentity → Option ι} {i : ι}

/-- Only the entries of the call matter. -/
theorem congr (h : c.Agrees owner i) (hsame : ∀ d, owner' d = some i ↔ owner d = some i) :
    c.Agrees owner' i where
  fd_locked hc := by
    obtain ⟨d, hfd, howner⟩ := h.fd_locked hc
    exact ⟨d, hfd, (hsame d).mpr howner⟩
  fd_waiting := h.fd_waiting
  owner_locked d hd := h.owner_locked d ((hsame d).mp hd)
  token := h.token

/-- A call without the lock. -/
theorem of_not_locked (hlocked : c.pc.locked = false) (howner : ∀ d, owner d ≠ some i)
    (hwaiting : c.pc = .lockExclusive → ∃ d, c.fd = some d) : c.Agrees owner i where
  fd_locked hc := by rw [hlocked] at hc; cases hc
  fd_waiting := hwaiting
  owner_locked d hd := absurd hd (howner d)
  token hc := by rw [OpenPc.hasToken, hlocked] at hc; cases hc

/-- A call goes on under the lock. -/
theorem goto (h : c.Agrees owner i) {pc : OpenPc} (hc : c.pc.hasToken = true)
    (hpc : pc.hasToken = true) : ({ c with pc } : OpenCall).Agrees owner i where
  fd_locked _ := h.fd_locked (Bool.and_eq_true_iff.mp hc).1
  fd_waiting hwaiting := by
    simp only at hwaiting
    rw [hwaiting] at hpc
    cases hpc
  owner_locked d hd := ⟨(Bool.and_eq_true_iff.mp hpc).1, (h.owner_locked d hd).2⟩
  token _ := h.token hc

/-- A call that does not have the lock owns nothing. -/
theorem not_owner (h : c.Agrees owner i) (hc : c.pc.locked = false) (d : FileIdentity) :
    owner d ≠ some i := by
  intro hd
  rw [(h.owner_locked d hd).1] at hc
  cases hc

end OpenCall.Agrees

namespace OpenPc

variable {pc next : OpenPc}

theorem beforeLastCheck_of_afterWork (h : pc.afterWork = some next) :
    pc ≠ .panicked ∧ next.beforeLastCheck = true := by
  cases pc <;> cases h <;> exact ⟨nofun, rfl⟩

theorem beforeLastCheck_of_afterRetry (h : pc.afterRetry = some next) :
    pc ≠ .panicked ∧ next.beforeLastCheck = true := by
  cases pc <;> cases h <;> exact ⟨nofun, rfl⟩

/-- Only after the last check there is none to come. -/
theorem last_of_afterCheck (h : pc.afterCheck = some next) :
    next.beforeLastCheck = true ∨ pc = .openSplit := by
  cases pc <;> cases h <;> first | exact .inl rfl | exact .inr rfl

theorem stepsLeft_of_afterWork (h : pc.afterWork = some next) :
    next.stepsLeft < pc.stepsLeft := by
  cases pc <;> cases h <;> decide

theorem stepsLeft_of_afterCheck (h : pc.afterCheck = some next) :
    next.stepsLeft < pc.stepsLeft := by
  cases pc <;> cases h <;> decide

theorem beforeLastCheck_of_step (h : pc.afterWork = some next ∨ pc.afterCheck = some next) :
    pc.beforeLastCheck = true := by
  cases pc <;> first | rfl | (rcases h with h | h <;> cases h)

theorem eq_of_stepsLeft_eq_zero (h : pc.stepsLeft = 0) : pc = .returned ∨ pc = .panicked := by
  cases pc <;> first | exact .inl rfl | exact .inr rfl | cases h

theorem token_of_afterWork (h : pc.afterWork = some next) :
    pc.hasToken = true ∧ next.hasToken = true := by
  cases pc <;> cases h <;> exact ⟨rfl, rfl⟩

theorem token_of_afterRetry (h : pc.afterRetry = some next) :
    pc.hasToken = true ∧ next.hasToken = true := by
  cases pc <;> cases h <;> exact ⟨rfl, rfl⟩

theorem token_of_afterCheck (h : pc.afterCheck = some next) :
    pc.hasToken = true ∧ next.hasToken = true := by
  cases pc <;> cases h <;> exact ⟨rfl, rfl⟩

end OpenPc

namespace InitWorld

variable {ι : Type} [DecidableEq ι] {w w' : InitWorld ι}

def Inv (w : InitWorld ι) : Prop :=
  ∀ i, (w.calls i).Agrees w.owner i

namespace Inv

/-- A step of one call that leaves the locks of the others alone. -/
theorem update (h : Inv w) {i : ι} {c : OpenCall} (owner : FileIdentity → Option ι)
    (hothers : ∀ j, j ≠ i → ∀ d, owner d = some j ↔ w.owner d = some j)
    (hc : c.Agrees owner i) : Inv { w with owner, calls := Function.update w.calls i c } := by
  intro j
  by_cases hij : j = i
  · subst hij
    simpa using hc
  · simpa [Function.update_of_ne hij] using (h j).congr (hothers j hij)

theorem goto (h : Inv w) {i : ι} {pc : OpenPc}
    (hpc : (w.calls i).pc.hasToken = true ∧ pc.hasToken = true) : Inv (w.goto i pc) :=
  h.update w.owner (fun _ _ _ => Iff.rfl) ((h i).goto hpc.1 hpc.2)

theorem finish (h : Inv w) {i : ι} {pc : OpenPc} (hpc : pc = .returned ∨ pc = .panicked) :
    Inv (w.finish i pc) := by
  refine h.update _ (fun j hij d => ?_) (.of_not_locked ?_ (fun d => ?_) ?_)
  · split_ifs with howner
    · simpa [howner] using hij.symm
    · rfl
  · rcases hpc with rfl | rfl <;> rfl
  · split_ifs with howner
    · simp
    · exact howner
  · rintro rfl
    rcases hpc with hpc | hpc <;> cases hpc

theorem openTarget (h : Inv w) {i : ι} (hi : (w.calls i).pc = .openTarget) (d : FileIdentity) :
    Inv { w with calls := Function.update w.calls i ⟨.lockExclusive, some d, none⟩ } := by
  refine h.update w.owner (fun _ _ _ => Iff.rfl) ?_
  exact .of_not_locked rfl ((h i).not_owner (by rw [hi]; rfl)) fun _ => ⟨d, rfl⟩

theorem flock (h : Inv w) {i : ι} {d : FileIdentity} (hi : (w.calls i).pc = .lockExclusive)
    (hfd : (w.calls i).fd = some d) (hfree : w.owner d = none) :
    Inv { w.goto i .recordTarget with owner := Function.update w.owner d (some i) } := by
  refine h.update _ (fun j hij d' => ?_)
    ⟨fun _ => ⟨d, hfd, by simp⟩, ?_, fun d' hd' => ⟨rfl, ?_⟩, ?_⟩
  · by_cases hd : d' = d
    · subst hd
      simpa [hfree] using hij.symm
    · rw [Function.update_of_ne hd]
  · intro hwaiting
    cases hwaiting
  · by_cases hd : d' = d
    · rw [hd]
      exact hfd
    · rw [Function.update_of_ne hd] at hd'
      exact absurd hd' ((h i).not_owner (by rw [hi]; rfl) d')
  · intro htoken
    cases htoken

theorem recordTarget (h : Inv w) {i : ι} (hi : (w.calls i).pc = .recordTarget) :
    Inv { w with
      calls := Function.update w.calls i ⟨.connect, (w.calls i).fd, (w.calls i).fd⟩ } := by
  have hlocked : (w.calls i).pc.locked = true := by rw [hi]; rfl
  refine h.update w.owner (fun _ _ _ => Iff.rfl) ⟨?_, ?_, ?_, fun _ => rfl⟩
  · exact fun _ => (h i).fd_locked hlocked
  · intro hwaiting
    cases hwaiting
  · exact fun d hd => ⟨rfl, ((h i).owner_locked d hd).2⟩

end Inv

/-! ## Losing the directory -/

/-- The path no longer names the directory of a call that has a check to come. -/
def Doomed (w : InitWorld ι) (i : ι) : Prop :=
  (w.calls i).pc = .panicked ∨
    (w.calls i).pc.beforeLastCheck = true ∧ (w.calls i).fd ≠ none ∧ w.dir ≠ (w.calls i).fd

namespace Doomed

variable {i j : ι}

omit [DecidableEq ι] in
theorem ne (h : w.Doomed i) (hpc : (w.calls j).pc ≠ .panicked)
    (hlast : (w.calls j).pc.beforeLastCheck = false) : i ≠ j := by
  rintro rfl
  rcases h with h | ⟨h, -⟩
  · exact hpc h
  · rw [hlast] at h
    cases h

omit [DecidableEq ι] in
theorem not_returned (h : w.Doomed i) : (w.calls i).pc ≠ .returned := by
  intro hpc
  exact h.ne (by simp [hpc]) (by rw [hpc]; rfl) rfl

/-- A step of another call. -/
theorem update (h : w.Doomed i) (hij : i ≠ j) (c : OpenCall) (owner : FileIdentity → Option ι) :
    Doomed { w with owner, calls := Function.update w.calls j c } i := by
  simpa [Doomed, Function.update_of_ne hij] using h

/-- A step of the call itself that keeps its directory. -/
theorem keep (h : w.Doomed i) {pc : OpenPc} (hpc : (w.calls i).pc ≠ .panicked)
    (hlast : pc.beforeLastCheck = true) (targetIdentity : Option FileIdentity)
    (owner : FileIdentity → Option ι) :
    Doomed { w with
      owner, calls := Function.update w.calls i ⟨pc, (w.calls i).fd, targetIdentity⟩ } i := by
  obtain ⟨-, hfd, hdir⟩ := h.resolve_left hpc
  right
  simpa [hlast] using And.intro hfd hdir

theorem goto (h : w.Doomed i) {pc next : OpenPc} (hpc : (w.calls j).pc = pc)
    (hpanicked : pc ≠ .panicked) (hlast : next.beforeLastCheck = true) :
    (w.goto j next).Doomed i := by
  by_cases hij : i = j
  · subst hij
    exact h.keep (hpc ▸ hpanicked) hlast _ _
  · exact h.update hij _ _

theorem panic (h : w.Doomed i) : (w.finish j .panicked).Doomed i := by
  by_cases hij : i = j
  · subst hij
    left
    simp [finish]
  · exact h.update hij _ _

end Doomed

theorem Inv.of_init (h : (machine ι).init w) : Inv w := by
  obtain ⟨howner, hcalls⟩ := h
  intro i
  rw [hcalls i]
  exact .of_not_locked rfl (by simp [howner]) nofun

/-- What a step does, with its guards. -/
inductive Effect (w : InitWorld ι) : InitEvent ι → InitWorld ι → Prop
  | replace {dir : Option FileIdentity} : Effect w (.replace dir) { w with dir }
  | openTarget {i : ι} {d : FileIdentity} (hpc : (w.calls i).pc = .openTarget)
      (hdir : w.dir = some d) : Effect w (.openTarget i false)
        { w with calls := Function.update w.calls i ⟨.lockExclusive, some d, none⟩ }
  | flock {i : ι} {d : FileIdentity} (hpc : (w.calls i).pc = .lockExclusive)
      (hfd : (w.calls i).fd = some d) (hfree : w.owner d = none) : Effect w (.flock i .ok)
        { w.goto i .recordTarget with owner := Function.update w.owner d (some i) }
  | intr {i : ι} : Effect w (.flock i .intr) w
  | recordTarget {i : ι} (hpc : (w.calls i).pc = .recordTarget) :
      Effect w (.recordTarget i false) { w with
        calls := Function.update w.calls i ⟨.connect, (w.calls i).fd, (w.calls i).fd⟩ }
  | work {i : ι} {next : OpenPc} (hnext : (w.calls i).pc.afterWork = some next) :
      Effect w (.work i .ok) (w.goto i next)
  | retry {i : ι} {next : OpenPc} (hnext : (w.calls i).pc.afterRetry = some next) :
      Effect w (.work i .retry) (w.goto i next)
  | check {i : ι} {next : OpenPc} (hnext : (w.calls i).pc.afterCheck = some next)
      (hdir : w.dir = (w.calls i).targetIdentity) : Effect w (.check i false) (w.goto i next)
  | release {i : ι} (hpc : (w.calls i).pc = .release) :
      Effect w (.release i) (w.finish i .returned)
  /-- Without a failure it is the path that makes a call panic. -/
  | panic {e : InitEvent ι} {i : ι} (hpc : (w.calls i).pc.stepsLeft ≠ 0)
      (hreason : e.quiet = true → (w.calls i).pc = .openTarget ∧ w.dir = none ∨
        (w.calls i).pc.hasToken = true ∧ (w.calls i).pc.beforeLastCheck = true ∧
          w.dir ≠ (w.calls i).targetIdentity) :
      Effect w e (w.finish i .panicked)

theorem effect_openTarget {i : ι} {fails : Bool} (h : step w (.openTarget i fails) = some w') :
    Effect w (.openTarget i fails) w' := by
  obtain ⟨hpc, h⟩ := Option.ite_none_right_eq_some.mp h
  have hsteps : (w.calls i).pc.stepsLeft ≠ 0 := by rw [hpc]; decide
  split at h
  case h_1 d hdir =>
    cases fails
    all_goals simp only [Bool.false_eq_true, if_false, if_true, Option.some.injEq] at h
    all_goals subst h
    · exact .openTarget hpc hdir
    · exact .panic hsteps nofun
  case h_2 hdir =>
    cases h
    exact .panic hsteps fun _ => .inl ⟨hpc, hdir⟩

theorem effect_flock {i : ι} {outcome : FlockOutcome} (h : step w (.flock i outcome) = some w') :
    Effect w (.flock i outcome) w' := by
  simp only [step] at h
  split at h
  case h_1 d hpc hfd =>
    obtain ⟨hfree, heq⟩ := Option.ite_none_right_eq_some.mp h
    cases heq
    exact .flock hpc hfd hfree
  case h_2 hpc =>
    cases h
    exact .intr
  case h_3 hpc =>
    cases h
    exact .panic (by rw [hpc]; decide) nofun
  case h_4 => cases h

theorem effect_recordTarget {i : ι} {fails : Bool}
    (h : step w (.recordTarget i fails) = some w') : Effect w (.recordTarget i fails) w' := by
  obtain ⟨hpc, h⟩ := Option.ite_none_right_eq_some.mp h
  cases fails
  all_goals simp only [Bool.false_eq_true, if_false, if_true, Option.some.injEq] at h
  all_goals subst h
  · exact .recordTarget hpc
  · exact .panic (by rw [hpc]; decide) nofun

theorem effect_work {i : ι} {outcome : WorkOutcome} (h : step w (.work i outcome) = some w') :
    Effect w (.work i outcome) w' := by
  cases outcome with
  | ok =>
      obtain ⟨next, hnext, rfl⟩ := Option.map_eq_some_iff.mp h
      exact .work hnext
  | retry =>
      obtain ⟨next, hnext, rfl⟩ := Option.map_eq_some_iff.mp h
      exact .retry hnext
  | panic =>
      obtain ⟨next, hnext, rfl⟩ := Option.map_eq_some_iff.mp h
      exact .panic (Nat.ne_zero_of_lt (OpenPc.stepsLeft_of_afterWork hnext)) nofun

theorem effect_check {i : ι} {statFails : Bool} (h : step w (.check i statFails) = some w') :
    Effect w (.check i statFails) w' := by
  obtain ⟨next, hnext, h⟩ := Option.map_eq_some_iff.mp h
  have htoken := OpenPc.token_of_afterCheck hnext
  have hlast := OpenPc.beforeLastCheck_of_step (.inr hnext)
  split_ifs at h with hsplit
  · subst h
    refine .panic (Nat.ne_zero_of_lt (OpenPc.stepsLeft_of_afterCheck hnext))
      fun hquiet => .inr ⟨htoken.1, hlast, ?_⟩
    cases statFails with
    | false => simpa [targetHasSplit] using hsplit
    | true => cases hquiet
  · subst h
    cases statFails with
    | false => exact .check hnext (by simpa [targetHasSplit] using hsplit)
    | true => exact absurd rfl hsplit

theorem effect_of_step {e : InitEvent ι} (h : step w e = some w') : Effect w e w' := by
  cases e with
  | replace dir =>
      cases h
      exact .replace
  | openTarget i fails => exact effect_openTarget h
  | flock i outcome => exact effect_flock h
  | recordTarget i fails => exact effect_recordTarget h
  | work i outcome => exact effect_work h
  | check i statFails => exact effect_check h
  | release i =>
      obtain ⟨hpc, heq⟩ := Option.ite_none_right_eq_some.mp h
      cases heq
      exact .release hpc

theorem Inv.step (h : Inv w) {e : InitEvent ι} (hstep : step w e = some w') : Inv w' := by
  cases effect_of_step hstep with
  | replace => exact h
  | openTarget hpc hdir => exact h.openTarget hpc _
  | flock hpc hfd hfree => exact h.flock hpc hfd hfree
  | intr => exact h
  | recordTarget hpc => exact h.recordTarget hpc
  | work hnext => exact h.goto (OpenPc.token_of_afterWork hnext)
  | retry hnext => exact h.goto (OpenPc.token_of_afterRetry hnext)
  | check hnext hdir => exact h.goto (OpenPc.token_of_afterCheck hnext)
  | release hpc => exact h.finish (.inl rfl)
  | panic hpc hreason => exact h.finish (.inr rfl)

theorem inductive_inv : (machine ι).Inductive (fun _ _ => True) Inv where
  init := Inv.of_init
  step h _ hstep := h.step hstep

/-! ## Who returns -/

/-- The path comes to name a directory again that a call has open. -/
def PutsBack (w : InitWorld ι) (e : InitEvent ι) : Prop :=
  ∃ dir i, e = .replace dir ∧ dir ≠ w.dir ∧ dir ≠ none ∧ (w.calls i).fd = dir

/-- What is lost stays lost unless it is put back, and the next check notices. -/
theorem Doomed.step (hinv : Inv w) {i : ι} (h : w.Doomed i) {e : InitEvent ι}
    (hfresh : ¬ w.PutsBack e) (hstep : InitWorld.step w e = some w') : w'.Doomed i := by
  cases effect_of_step hstep with
  | @replace dir =>
      refine h.imp_right ?_
      rintro ⟨hpc, hfd, hdir⟩
      refine ⟨hpc, hfd, fun heq : dir = (w.calls i).fd => hfresh ⟨dir, i, rfl, ?_, ?_, heq.symm⟩⟩
      · exact fun hsame => hdir (hsame.symm.trans heq)
      · exact fun hnone => hfd (heq.symm.trans hnone)
  | @openTarget j d hpc hdir =>
      -- a call that is doomed has opened its directory
      exact h.update (h.ne (by simp [hpc]) (by rw [hpc]; rfl)) _ _
  | @flock j d hpc hfd hfree =>
      by_cases hij : i = j
      · subst hij
        exact h.keep (by simp [hpc]) rfl _ _
      · exact h.update hij _ _
  | intr => exact h
  | @recordTarget j hpc =>
      by_cases hij : i = j
      · subst hij
        exact h.keep (by simp [hpc]) rfl _ _
      · exact h.update hij _ _
  | work hnext =>
      obtain ⟨hpc, hlast⟩ := OpenPc.beforeLastCheck_of_afterWork hnext
      exact h.goto rfl hpc hlast
  | retry hnext =>
      obtain ⟨hpc, hlast⟩ := OpenPc.beforeLastCheck_of_afterRetry hnext
      exact h.goto rfl hpc hlast
  | @check j next hnext hdir =>
      -- the check would have found the split
      have htoken := (OpenPc.token_of_afterCheck hnext).1
      have hij : i ≠ j := by
        rintro rfl
        rcases h with h | ⟨-, -, h⟩
        · rw [h] at hnext
          cases hnext
        · exact h (hdir.trans ((hinv i).token htoken))
      exact h.update hij _ _
  | release hpc => exact h.update (h.ne (by simp [hpc]) (by rw [hpc]; rfl)) _ _
  | panic hpc hreason => exact h.panic

/-- Under the lock, before the last check. -/
def Working (w : InitWorld ι) (i : ι) : Prop :=
  (w.calls i).pc.locked = true ∧ (w.calls i).pc.beforeLastCheck = true

/-- The call has the directory open on which it has its lock. -/
def WorksIn (w : InitWorld ι) (i : ι) (d : FileIdentity) : Prop :=
  w.Working i ∧ (w.calls i).fd = some d

omit [DecidableEq ι] in
theorem WorksIn.owner (hinv : Inv w) {i : ι} {d : FileIdentity} (h : w.WorksIn i d) :
    w.owner d = some i := by
  obtain ⟨d', hfd, howner⟩ := (hinv i).fd_locked h.1.1
  rwa [Option.some.inj (h.2.symm.trans hfd)]

omit [DecidableEq ι] in
theorem WorksIn.ne {i j : ι} {d : FileIdentity} (h : w.WorksIn i d) (hj : ¬ w.Working j) :
    i ≠ j := by
  rintro rfl
  exact hj h.1

/-- Another call has made a step. -/
theorem WorksIn.update {i j : ι} {d : FileIdentity} (h : w.WorksIn i d) (hij : i ≠ j) (c : OpenCall)
    (owner : FileIdentity → Option ι) :
    WorksIn { w with owner, calls := Function.update w.calls j c } i d := by
  simpa [WorksIn, Working, Function.update_of_ne hij] using h

theorem WorksIn.goto {i : ι} {d : FileIdentity} (h : w.WorksIn i d) (j : ι) {next : OpenPc}
    (htoken : next.hasToken = true) (hlast : next.beforeLastCheck = true) :
    (w.goto j next).WorksIn i d := by
  by_cases hij : i = j
  · subst hij
    have hlocked : next.locked = true := (Bool.and_eq_true_iff.mp htoken).1
    simpa [WorksIn, Working, InitWorld.goto, hlocked, hlast] using h.2
  · exact h.update hij _ _

/-- A call under the lock keeps it, panics, or passes its last check. -/
theorem WorksIn.step (hinv : Inv w) {i : ι} {d : FileIdentity} (h : w.WorksIn i d)
    {e : InitEvent ι} (hstep : InitWorld.step w e = some w') :
    w'.WorksIn i d ∨ (w'.calls i).pc = .panicked ∨
      e = .check i false ∧ (w.calls i).pc = .openSplit ∧ w.dir = some d := by
  cases effect_of_step hstep with
  | replace | intr => exact .inl h
  | openTarget hpc hdir =>
      exact .inl (h.update (h.ne (by simp [Working, hpc, OpenPc.locked])) _ _)
  | flock hpc hfd hfree =>
      exact .inl (h.update (h.ne (by simp [Working, hpc, OpenPc.locked])) _ _)
  | @recordTarget j hpc =>
      by_cases hij : i = j
      · subst hij
        left
        simpa [WorksIn, Working, OpenPc.locked, OpenPc.beforeLastCheck] using h.2
      · exact .inl (h.update hij _ _)
  | work hnext =>
      exact .inl (h.goto _ (OpenPc.token_of_afterWork hnext).2
        (OpenPc.beforeLastCheck_of_afterWork hnext).2)
  | retry hnext =>
      exact .inl (h.goto _ (OpenPc.token_of_afterRetry hnext).2
        (OpenPc.beforeLastCheck_of_afterRetry hnext).2)
  | @check j next hnext hdir =>
      obtain ⟨htoken, hnextToken⟩ := OpenPc.token_of_afterCheck hnext
      rcases OpenPc.last_of_afterCheck hnext with hlast | hpc
      · exact .inl (h.goto _ hnextToken hlast)
      · by_cases hij : i = j
        · subst hij
          exact .inr (.inr ⟨rfl, hpc, hdir.trans (((hinv i).token htoken).trans h.2)⟩)
        · exact .inl (h.update hij _ _)
  | release hpc =>
      exact .inl (h.update (h.ne (by simp [Working, hpc, OpenPc.beforeLastCheck])) _ _)
  | @panic e j hpc hreason =>
      by_cases hij : i = j
      · subst hij
        right
        left
        simp [finish]
      · exact .inl (h.update hij _ _)

/-- A call that has panicked is over. -/
theorem panicked_of_step {i : ι} (h : (w.calls i).pc = .panicked) {e : InitEvent ι}
    (hstep : InitWorld.step w e = some w') : (w'.calls i).pc = .panicked := by
  have hother {j : ι} (hj : (w.calls j).pc ≠ .panicked) (c : OpenCall)
      (owner : FileIdentity → Option ι) : (InitWorld.calls
        { w with owner, calls := Function.update w.calls j c } i).pc = .panicked := by
    have hij : i ≠ j := fun heq => hj (heq ▸ h)
    simpa [Function.update_of_ne hij] using h
  cases effect_of_step hstep with
  | replace | intr => exact h
  | openTarget hpc hdir => exact hother (by simp [hpc]) _ _
  | flock hpc hfd hfree => exact hother (by simp [hpc]) _ _
  | recordTarget hpc => exact hother (by simp [hpc]) _ _
  | work hnext => exact hother (OpenPc.beforeLastCheck_of_afterWork hnext).1 _ _
  | retry hnext => exact hother (OpenPc.beforeLastCheck_of_afterRetry hnext).1 _ _
  | check hnext hdir => exact hother (fun heq => by rw [heq] at hnext; cases hnext) _ _
  | release hpc => exact hother (by simp [hpc]) _ _
  | panic hpc hreason => exact hother (fun heq => hpc (by rw [heq]; rfl)) _ _

/-- With its last check the call has come from `w` to `v`: it had the lock on `d` all the
time, the path names `d`, and whoever else has a lock has it on another directory. -/
structure PassesLast (w : InitWorld ι) (i : ι) (d : FileIdentity) (before : List (InitEvent ι))
    (v : InitWorld ι) : Prop where
  run : (machine ι).run w before = some v
  last : (v.calls i).pc = .openSplit
  held : ∀ part, part <+: before → ∃ u, (machine ι).run w part = some u ∧ u.owner d = some i
  named : v.dir = some d
  others : ∀ j, j ≠ i → (v.calls j).pc.locked = true → (v.calls j).fd ≠ v.dir

/-- A call that returns passes its last check. -/
theorem passesLast_of_returned (hinv : Inv w) {events : List (InitEvent ι)}
    (hrun : (machine ι).run w events = some w') {i : ι} {d : FileIdentity} (hi : w.WorksIn i d)
    (hreturned : (w'.calls i).pc = .returned) :
    ∃ before v after, events = before ++ .check i false :: after ∧ w.PassesLast i d before v := by
  have hend : ¬ (Inv w' ∧ w'.WorksIn i d) := by
    rintro ⟨-, ⟨hlocked, -⟩, -⟩
    rw [hreturned] at hlocked
    cases hlocked
  obtain ⟨before, e, after, v, v', hevents, hleaves, hafter⟩ :=
    Machine.exists_leaves (I := fun w => Inv w ∧ w.WorksIn i d) ⟨hinv, hi⟩ hend hrun
  obtain ⟨hinvV, hv⟩ := hleaves.mem
  rcases hv.step hinvV hleaves.step with hworks | hpanicked | ⟨rfl, hlast, hnamed⟩
  · exact absurd ⟨hinvV.step hleaves.step, hworks⟩ hleaves.outside
  · have hover : (w'.calls i).pc = .panicked :=
      Machine.run_preserves (I := fun w : InitWorld ι => (w.calls i).pc = .panicked)
        (fun hpanicked hstep => panicked_of_step hpanicked hstep) hpanicked hafter
    rw [hreturned] at hover
    cases hover
  · refine ⟨before, v, after, hevents, hleaves.run, hlast, fun part hpart => ?_, hnamed,
      fun j hij hlocked hfd => ?_⟩
    · obtain ⟨u, hu, hinvU, hworks⟩ := hleaves.inside part hpart
      exact ⟨u, hu, hworks.owner hinvU⟩
    · obtain ⟨d', hfd', howner⟩ := (hinvV j).fd_locked hlocked
      have hsame : d' = d := Option.some.inj (hfd'.symm.trans (hfd.trans hnamed))
      rw [hsame, hv.owner hinvV] at howner
      exact hij (Option.some.inj howner).symm

/-- A doomed call returns only if some directory is put back. -/
theorem exists_putsBack (hinv : Inv w) {events : List (InitEvent ι)}
    (hrun : (machine ι).run w events = some w') {i : ι} (hi : w.Doomed i)
    (hreturned : (w'.calls i).pc = .returned) :
    ∃ before e after v, events = before ++ e :: after ∧ (machine ι).run w before = some v ∧
      v.PutsBack e := by
  have hend : ¬ (Inv w' ∧ w'.Doomed i) := fun h => h.2.not_returned hreturned
  obtain ⟨before, e, after, v, v', hevents, hleaves, -⟩ :=
    Machine.exists_leaves (I := fun w => Inv w ∧ w.Doomed i) ⟨hinv, hi⟩ hend hrun
  obtain ⟨hinvV, hv⟩ := hleaves.mem
  refine ⟨before, e, after, v, hevents, hleaves.run, ?_⟩
  by_contra hfresh
  exact hleaves.outside ⟨hinvV.step hleaves.step, hv.step hinvV hfresh hleaves.step⟩

/-- A call that returns had the lock on its directory up to its last check, and by then
the path named this directory; another call that works under a lock at the same time
returns, too, only if in the meantime a directory was put back. -/
theorem returned_excludes {w w' : InitWorld ι} (h : (machine ι).Reached w)
    {events : List (InitEvent ι)} (hrun : (machine ι).run w events = some w') {i : ι}
    (hi : w.Working i) (hreturned : (w'.calls i).pc = .returned) :
    (∃ d before v after, (w.calls i).fd = some d ∧ events = before ++ .check i false :: after ∧
      w.PassesLast i d before v) ∧
    ∀ j, j ≠ i → w.Working j → (w'.calls j).pc = .returned →
      ∃ before e after v, events = before ++ e :: after ∧
        (machine ι).run w before = some v ∧ v.PutsBack e := by
  have hinv : Inv w := inductive_inv.reached h
  obtain ⟨d, hfd, howner⟩ := (hinv i).fd_locked hi.1
  constructor
  · obtain ⟨before, v, after, hevents, hlast⟩ :=
      passesLast_of_returned hinv hrun ⟨hi, hfd⟩ hreturned
    exact ⟨d, before, v, after, hfd, hevents, hlast⟩
  · intro j hij hj hreturned'
    obtain ⟨d', hfd', howner'⟩ := (hinv j).fd_locked hj.1
    have hne : d' ≠ d := by
      rintro rfl
      exact hij (Option.some.inj (howner'.symm.trans howner))
    -- the path names the directory of one of them at most
    by_cases hdir : w.dir = some d
    · have hdoomed : w.Doomed j := .inr ⟨hj.2, by simp [hfd'], by simp [hdir, hfd', hne.symm]⟩
      exact exists_putsBack hinv hrun hdoomed hreturned'
    · have hdoomed : w.Doomed i := .inr ⟨hi.2, by simp [hfd], by rwa [hfd]⟩
      exact exists_putsBack hinv hrun hdoomed hreturned

/-- Two calls and a directory. -/
def twoCalls : InitWorld (Fin 2) :=
  ⟨some ⟨1, 1⟩, fun _ => none, fun _ => ⟨.openTarget, none, none⟩⟩

/-- The first call gets the lock, the directory is replaced, and the second call gets
the lock on the new one. -/
def splitRun : List (InitEvent (Fin 2)) :=
  [.openTarget 0 false, .flock 0 .ok, .recordTarget 0 false, .replace (some ⟨1, 2⟩),
    .openTarget 1 false, .flock 1 .ok, .recordTarget 1 false]

/-- What a call does under the lock. -/
def underLock (i : Fin 2) : List (InitEvent (Fin 2)) :=
  [.work i .ok, .check i false, .work i .ok, .check i false, .work i .ok, .check i false,
    .work i .ok, .check i false, .release i]

/-- The second call goes on to its end, the first directory is put back, and the first
call goes on to its end. -/
def splitEnd : List (InitEvent (Fin 2)) :=
  underLock 1 ++ .replace (some ⟨1, 1⟩) :: underLock 0

theorem reached_split : ∃ w, (machine (Fin 2)).run twoCalls splitRun = some w ∧
    (machine (Fin 2)).Reached w ∧ w.Working 0 ∧ w.Working 1 ∧ w.dir = some ⟨1, 2⟩ ∧
    (w.calls 0).fd = some ⟨1, 1⟩ ∧ (w.calls 1).fd = some ⟨1, 2⟩ ∧
    ∃ w', (machine (Fin 2)).run w splitEnd = some w' ∧ (w'.calls 0).pc = .returned ∧
      (w'.calls 1).pc = .returned := by
  have hfacts : (((machine (Fin 2)).run twoCalls splitRun).bind fun w =>
      ((machine (Fin 2)).run w splitEnd).map fun w' => decide
        (((w.calls 0).pc.locked = true ∧ (w.calls 0).pc.beforeLastCheck = true) ∧
          ((w.calls 1).pc.locked = true ∧ (w.calls 1).pc.beforeLastCheck = true) ∧
          w.dir = some ⟨1, 2⟩ ∧ (w.calls 0).fd = some ⟨1, 1⟩ ∧ (w.calls 1).fd = some ⟨1, 2⟩ ∧
          (w'.calls 0).pc = .returned ∧ (w'.calls 1).pc = .returned)) = some true := by
    decide +kernel
  obtain ⟨w, hrun, hfacts⟩ := Option.bind_eq_some_iff.mp hfacts
  obtain ⟨w', hrun', hfacts⟩ := Option.map_eq_some_iff.mp hfacts
  obtain ⟨h₀, h₁, hdir, hfd₀, hfd₁, hreturned⟩ := of_decide_eq_true hfacts
  have hinit : (machine (Fin 2)).Reached twoCalls := .init ⟨fun _ => rfl, fun _ => rfl⟩
  exact ⟨w, hrun, hinit.of_run hrun, h₀, h₁, hdir, hfd₀, hfd₁, w', hrun', hreturned⟩

theorem returned_excludes_split :
    ∃ w w', (machine (Fin 2)).run twoCalls splitRun = some w ∧
      (machine (Fin 2)).run w splitEnd = some w' ∧
      (∃ before v after, splitEnd = before ++ .check 1 false :: after ∧
        w.PassesLast 1 ⟨1, 2⟩ before v) ∧
      ∃ before e after v, splitEnd = before ++ e :: after ∧
        (machine (Fin 2)).run w before = some v ∧ v.PutsBack e := by
  obtain ⟨w, hrun, hreached, h₀, h₁, -, -, hfd₁, w', hrun', hreturned₀, hreturned₁⟩ :=
    reached_split
  obtain ⟨⟨d, before, v, after, hfd, hevents, hlast⟩, hboth⟩ :=
    returned_excludes hreached hrun' h₁ hreturned₁
  obtain rfl : d = ⟨1, 2⟩ := Option.some.inj (hfd.symm.trans hfd₁)
  exact ⟨w, w', hrun, hrun', ⟨before, v, after, hevents, hlast⟩,
    hboth 0 (by decide) h₀ hreturned₀⟩

/-! ## Every call ends -/

/-- Whether a call returns if nobody interferes and nothing fails any more. -/
def returns (w : InitWorld ι) (i : ι) : Bool :=
  match (w.calls i).pc with
  | .openTarget => w.dir.isSome
  | .release | .returned => true
  | .panicked => false
  | _ => w.dir = (w.calls i).fd

omit [DecidableEq ι] in
theorem returns_of_beforeLastCheck {i : ι} (h : (w.calls i).pc.beforeLastCheck = true) :
    w.returns i = decide (w.dir = (w.calls i).fd) := by
  unfold returns
  cases hpc : (w.calls i).pc <;> first | rfl | (rw [hpc] at h; cases h)

/-- One step of a call that keeps the answers of all. -/
theorem returns_update {i : ι} {c : OpenCall} {owner : FileIdentity → Option ι}
    (h : returns { w with owner, calls := Function.update w.calls i c } i = w.returns i) (j : ι) :
    returns { w with owner, calls := Function.update w.calls i c } j = w.returns j := by
  by_cases hij : j = i
  · exact hij ▸ h
  · simp [returns, Function.update_of_ne hij]

variable [Fintype ι]

/-- The steps that are left. -/
def stepsLeft (w : InitWorld ι) : ℕ :=
  ∑ i, (w.calls i).pc.stepsLeft

theorem stepsLeft_lt {i : ι} {c : OpenCall} {owner : FileIdentity → Option ι}
    (h : c.pc.stepsLeft < (w.calls i).pc.stepsLeft) :
    stepsLeft { w with owner, calls := Function.update w.calls i c } < w.stepsLeft := by
  apply Finset.sum_lt_sum
  · intro j _
    by_cases hij : j = i
    · subst hij
      simpa using h.le
    · simp [Function.update_of_ne hij]
  · exact ⟨i, Finset.mem_univ i, by simpa using h⟩

/-- What a step does without interference and failures. -/
structure Quiet (w w' : InitWorld ι) : Prop where
  dir_eq : w'.dir = w.dir
  returns_eq : ∀ i, w'.returns i = w.returns i
  stepsLeft_lt : w'.stepsLeft < w.stepsLeft

theorem Quiet.of_update {i : ι} {c : OpenCall} (owner : FileIdentity → Option ι)
    (hreturns : returns { w with owner, calls := Function.update w.calls i c } i = w.returns i)
    (hsteps : c.pc.stepsLeft < (w.calls i).pc.stepsLeft) :
    w.Quiet { w with owner, calls := Function.update w.calls i c } where
  dir_eq := rfl
  returns_eq := returns_update hreturns
  stepsLeft_lt := InitWorld.stepsLeft_lt hsteps

/-- A step between two states before the last check that keeps the directory. -/
theorem Quiet.of_keep {i : ι} {pc : OpenPc} {targetIdentity : Option FileIdentity}
    (owner : FileIdentity → Option ι) (hfrom : (w.calls i).pc.beforeLastCheck = true)
    (hto : pc.beforeLastCheck = true) (hsteps : pc.stepsLeft < (w.calls i).pc.stepsLeft) :
    w.Quiet { w with
      owner, calls := Function.update w.calls i ⟨pc, (w.calls i).fd, targetIdentity⟩ } := by
  refine .of_update _ ?_ hsteps
  rw [returns_of_beforeLastCheck hfrom, returns_of_beforeLastCheck]
  · simp
  · simpa using hto

theorem quiet_of_step (hinv : Inv w) {e : InitEvent ι} (hquiet : e.quiet = true)
    (hstep : step w e = some w') : w.Quiet w' := by
  cases effect_of_step hstep with
  | replace => cases hquiet
  | openTarget hpc hdir =>
      refine .of_update w.owner ?_ ?_
      · simp [returns, hpc, hdir]
      · simp [hpc, OpenPc.stepsLeft]
  | flock hpc hfd hfree =>
      exact .of_keep _ (by rw [hpc]; rfl) rfl (by rw [hpc]; decide)
  | intr => cases hquiet
  | recordTarget hpc =>
      exact .of_keep w.owner (by rw [hpc]; rfl) rfl (by rw [hpc]; decide)
  | work hnext =>
      exact .of_keep w.owner (OpenPc.beforeLastCheck_of_step (.inl hnext))
        (OpenPc.beforeLastCheck_of_afterWork hnext).2 (OpenPc.stepsLeft_of_afterWork hnext)
  | retry hnext => cases hquiet
  | @check i next hnext hdir =>
      have htoken := (hinv i).token (OpenPc.token_of_afterCheck hnext).1
      refine .of_update w.owner ?_ (OpenPc.stepsLeft_of_afterCheck hnext)
      rw [returns_of_beforeLastCheck (w := w) (OpenPc.beforeLastCheck_of_step (.inr hnext)), hdir,
        htoken]
      cases hpc : (w.calls i).pc <;> rw [hpc] at hnext <;> cases hnext <;>
        simp [returns, htoken]
  | release hpc =>
      refine .of_update _ ?_ (by rw [hpc]; decide)
      simp [returns, hpc]
  | @panic e i hpc hreason =>
      refine .of_update _ ?_ (Nat.pos_of_ne_zero hpc)
      rcases hreason hquiet with ⟨hopen, hdir⟩ | ⟨htoken, hlast, hdir⟩
      · simp [returns, hopen, hdir]
      · rw [(hinv i).token htoken] at hdir
        rw [returns_of_beforeLastCheck (w := w) hlast, decide_eq_false hdir]
        simp [returns]

omit [Fintype ι] in
/-- A call with the lock can go on. -/
theorem exists_step_of_locked {i : ι} (h : (w.calls i).pc.locked = true) :
    ∃ e w', InitEvent.quiet e = true ∧ step w e = some w' := by
  cases hpc : (w.calls i).pc with
  | openTarget | lockExclusive | returned | panicked => rw [hpc] at h; cases h
  | recordTarget =>
      exact ⟨.recordTarget i false, _, rfl, by rw [step, if_pos hpc]⟩
  | connect | initSql | migrate | companions =>
      exact ⟨.work i .ok, _, rfl, by rw [step, hpc]; rfl⟩
  | initSplit | initAfterSplit | schemaSplit | openSplit =>
      exact ⟨.check i false, _, rfl, by rw [step, hpc]; rfl⟩
  | release => exact ⟨.release i, _, rfl, by rw [step, if_pos hpc]⟩

/-- Some call can go on, unless all have ended: a call that waits waits for one that
has the lock. -/
theorem exists_step (hinv : Inv w) (h : w.stepsLeft ≠ 0) :
    ∃ e w', InitEvent.quiet e = true ∧ step w e = some w' := by
  obtain ⟨i, -, hi⟩ : ∃ i ∈ Finset.univ, (w.calls i).pc.stepsLeft ≠ 0 :=
    Finset.exists_ne_zero_of_sum_ne_zero h
  by_cases hlocked : ∃ j, (w.calls j).pc.locked = true
  · obtain ⟨j, hj⟩ := hlocked
    exact exists_step_of_locked hj
  · rw [not_exists] at hlocked
    cases hpc : (w.calls i).pc with
    | openTarget =>
        cases hdir : w.dir with
        | none => exact ⟨.openTarget i false, _, rfl, by rw [step, if_pos hpc, hdir]⟩
        | some d => exact ⟨.openTarget i false, _, rfl, by rw [step, if_pos hpc, hdir]⟩
    | lockExclusive =>
        obtain ⟨d, hfd⟩ := (hinv i).fd_waiting hpc
        have hfree : w.owner d = none := by
          by_contra howned
          obtain ⟨j, hj⟩ := Option.ne_none_iff_exists'.mp howned
          exact hlocked j ((hinv j).owner_locked d hj).1
        refine ⟨.flock i .ok,
          { w.goto i .recordTarget with owner := Function.update w.owner d (some i) }, rfl, ?_⟩
        simp only [step, hpc, hfd, if_pos hfree]
    | returned | panicked =>
        rw [hpc] at hi
        exact absurd rfl hi
    | _ => exact absurd (by rw [hpc]; rfl) (hlocked i)

/-- What an undisturbed step from `w` keeps. -/
theorem step_of_quiet {v v' : InitWorld ι} {e : InitEvent ι}
    (h : Inv v ∧ v.dir = w.dir ∧ ∀ i, v.returns i = w.returns i) (hquiet : v.Quiet v')
    (hstep : step v e = some v') : Inv v' ∧ v'.dir = w.dir ∧ ∀ i, v'.returns i = w.returns i :=
  ⟨h.1.step hstep, hquiet.dir_eq.trans h.2.1, fun i => (hquiet.returns_eq i).trans (h.2.2 i)⟩

omit [DecidableEq ι] in
theorem ended_of_stepsLeft (hzero : w.stepsLeft = 0) (i : ι) :
    (w.calls i).pc = if w.returns i = true then .returned else .panicked := by
  have hi : (w.calls i).pc.stepsLeft = 0 := Finset.sum_eq_zero_iff.mp hzero i (Finset.mem_univ i)
  rcases OpenPc.eq_of_stepsLeft_eq_zero hi with hpc | hpc <;> simp [returns, hpc]

/-- Left to themselves all calls end: a run has as many steps as are left, at most, and
where it cannot go on those have returned whose directory the path names; and there is
such a run. -/
theorem calls_end {w : InitWorld ι} (h : (machine ι).Reached w) :
    (∀ events w', (∀ e ∈ events, InitEvent.quiet e = true) →
      (machine ι).run w events = some w' →
        events.length ≤ w.stepsLeft ∧ w'.dir = w.dir ∧
        ((∀ e, InitEvent.quiet e = true → step w' e = none) →
          ∀ i, (w'.calls i).pc = if w.returns i = true then .returned else .panicked)) ∧
    ∃ events w', (∀ e ∈ events, InitEvent.quiet e = true) ∧
      (machine ι).run w events = some w' ∧ w'.dir = w.dir ∧
      ∀ i, (w'.calls i).pc = if w.returns i = true then .returned else .panicked := by
  let Same (v : InitWorld ι) : Prop := Inv v ∧ v.dir = w.dir ∧ ∀ i, v.returns i = w.returns i
  have hsame : Same w := ⟨inductive_inv.reached h, rfl, fun _ => rfl⟩
  constructor
  · intro events w' hevents hrun
    obtain ⟨⟨hinv, hdir, hreturns⟩, hle⟩ :=
      Machine.length_le_of_variant (I := Same) stepsLeft (fun hv hquiet hstep =>
        have hto := quiet_of_step hv.1 hquiet hstep
        ⟨step_of_quiet hv hto hstep, hto.stepsLeft_lt⟩) hsame hevents hrun
    refine ⟨by omega, hdir, fun hover i => ?_⟩
    have hzero : w'.stepsLeft = 0 := by
      by_contra hleft
      obtain ⟨e, v, hquiet, hstep⟩ := exists_step hinv hleft
      rw [hover e hquiet] at hstep
      cases hstep
    rw [← hreturns i]
    exact ended_of_stepsLeft hzero i
  · obtain ⟨events, w', hquiet, hrun, ⟨-, hdir, hreturns⟩, hzero⟩ :=
      (machine ι).exists_run_of_variant (P := fun e => InitEvent.quiet e = true) (I := Same)
        stepsLeft (fun v hv hleft => by
          obtain ⟨e, v', he, hstep⟩ := exists_step hv.1 hleft
          have hto := quiet_of_step hv.1 he hstep
          exact ⟨e, v', he, hstep, step_of_quiet hv hto hstep, hto.stepsLeft_lt⟩)
        hsame
    refine ⟨events, w', hquiet, hrun, hdir, fun i => ?_⟩
    rw [← hreturns i]
    exact ended_of_stepsLeft hzero i

theorem calls_end_split :
    ∃ w events w', (machine (Fin 2)).run twoCalls splitRun = some w ∧
      (machine (Fin 2)).run w events = some w' ∧ (w'.calls 0).pc = .panicked ∧
      (w'.calls 1).pc = .returned := by
  obtain ⟨w, hrun, hreached, h₀, h₁, hdir, hfd₀, hfd₁, -⟩ := reached_split
  obtain ⟨events, w', -, hrun', -, hend⟩ := (calls_end hreached).2
  have hreturns : w.returns 0 = false ∧ w.returns 1 = true := by
    rw [returns_of_beforeLastCheck h₀.2, returns_of_beforeLastCheck h₁.2, hdir, hfd₀, hfd₁]
    decide
  refine ⟨w, events, w', hrun, hrun', ?_, ?_⟩
  · rw [hend 0, hreturns.1]
    rfl
  · rw [hend 1, hreturns.2]
    rfl

end InitWorld

end Skuld
