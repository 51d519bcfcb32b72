import Skuld.Coordination.Publish

/-!
# Creating the database directory

`create_dir_all_open_with` makes the missing levels of a path, outermost first.
A level is made under a temporary name beside its place, made `0777` there, and
moved to its place by a rename that replaces nothing; a call that finds the place
taken removes its own directory and goes on.

The machine has one step for each call of the operating system, by any number of
calls, and one for other programs, which create entries anywhere.  Directories are
numbered in the order of their creation, and paths are resolved at each step.
The list of missing levels is that of the first step, however stale.

Every entry that a step takes away has the name of a temporary directory.  That is
why the paths of the calls must not have such names in them: then all that a path
leads to stays (`resolve_mono`), and each call can rely on its levels.  The last
section shows what happens otherwise.
-/

namespace Skuld.DbDir

/-- Innermost component first; the root is `[]`. -/
abbrev Path := List String

/-- The errors that a call returns. -/
inductive IoError where
  | os (errno : ℕ)
  | cannotPublish (target : Path) (e : RenameError)
  deriving DecidableEq

inductive Exit where
  | ok
  | err (e : IoError)
  deriving DecidableEq

/-- Where a call stands: the system call it makes next.  The temporary directory
`tmp` lies in `parent`, beside the level `name`. -/
inductive Pc where
  | idle
  | probe (cur : Path) (missing : List Path)
  | mkdir (name : String) (parent : Path) (rest : List Path)
  | chmod (tmp name : String) (parent : Path) (rest : List Path)
  | rename (tmp name : String) (parent : Path) (rest : List Path)
  | removeLost (tmp : String) (parent : Path) (rest : List Path)
  | removeFailed (tmp : String) (parent : Path) (e : IoError)
  | returned (exit : Exit)
  | panicked
  deriving DecidableEq

/-- The tree below the root, which is number 0, and the calls.  What other
programs created, or what was there before, has no creator. -/
structure State where
  entries : ℕ → List (String × ℕ)
  isDir : ℕ → Bool
  mode : ℕ → ℕ
  creator : ℕ → Option ℕ
  nodes : ℕ
  pc : ℕ → Pc

inductive Action where
  | call
  | probe (found : Bool)
  | mkdir (pid nanos seq : ℕ) (umask : ℕ)
  | chmod
  | rename
  | remove
  | fails (errno : ℕ)
  deriving DecidableEq

inductive Event where
  | act (p : ℕ) (a : Action)
  | create (parent : Path) (name : String) (mode : ℕ) (isDir : Bool)
  deriving DecidableEq

namespace State

def child (s : State) (d : ℕ) (name : String) : Option ℕ :=
  (s.entries d).lookup name

def resolve (s : State) : Path → Option ℕ
  | [] => some 0
  | name :: parent => (s.resolve parent).bind fun d => s.child d name

def goto (s : State) (p : ℕ) (pc : Pc) : State :=
  { s with pc := Function.update s.pc p pc }

/-- A new entry, under a name that is free. -/
def addNode (s : State) (d : ℕ) (name : String) (mode : ℕ) (creator : Option ℕ) (isDir : Bool) :
    State where
  entries := Function.update s.entries d ((name, s.nodes) :: s.entries d)
  isDir := Function.update s.isDir s.nodes isDir
  mode := Function.update s.mode s.nodes mode
  creator := Function.update s.creator s.nodes creator
  nodes := s.nodes + 1
  pc := s.pc

def setMode (s : State) (n mode : ℕ) : State :=
  { s with mode := Function.update s.mode n mode }

def removeEntry (s : State) (d : ℕ) (name : String) : State :=
  { s with entries := Function.update s.entries d ((s.entries d).filter fun e => e.1 ≠ name) }

/-- The node leaves its name in the directory for another one. -/
def moveEntry (s : State) (d : ℕ) (source target : String) (n : ℕ) : State :=
  { s with
    entries := Function.update s.entries d
      ((target, n) :: (s.entries d).filter fun e => e.1 ≠ source) }

/-- The loop of the function goes on with the next missing level. -/
def nextTarget : List Path → Pc
  | [] => .returned .ok
  | [] :: _ => .panicked
  | (name :: parent) :: rest => .mkdir name parent rest

/-- The step after a rename that failed. -/
def handleRenameError (tmp name : String) (parent : Path) (rest : List Path) (e : RenameError) :
    Pc :=
  if e = .alreadyExists then .removeLost tmp parent rest
  else .removeFailed tmp parent (.cannotPublish (name :: parent) e)

/-- The directory behind a path, and the node that has the name in it. -/
def locate (s : State) (parent : Path) (name : String) : Option (ℕ × ℕ) :=
  (s.resolve parent).bind fun d => (s.child d name).map fun n => (d, n)

/-- `remove_dir`, which succeeds on an empty directory and on no other. -/
def removeDir (s : State) (parent : Path) (tmp : String) : Option State :=
  (s.locate parent tmp).bind fun (d, n) =>
    if s.entries n = [] then some (s.removeEntry d tmp) else none

/-- Whether `remove_dir` can fail. -/
def removalFails (s : State) (parent : Path) (tmp : String) : Bool :=
  (s.removeDir parent tmp).isNone

def act (s : State) (p : ℕ) (dir : Path) (a : Action) : Option State :=
  match s.pc p, a with
  | .idle, .call => some (s.goto p (.probe dir []))
  | .probe cur missing, .probe found =>
      if found then
        if (s.resolve cur).isSome then some (s.goto p (nextTarget missing)) else none
      else
        -- an error, such as that of a parent that is not searchable, counts as missing;
        -- the list has the level pushed last in front
        match cur with
        | [] => some (s.goto p (nextTarget ([] :: missing)))
        | name :: parent => some (s.goto p (.probe parent ((name :: parent) :: missing)))
  | .mkdir name parent rest, .mkdir pid nanos seq umask =>
      let tmp := tempName pid nanos seq
      match s.resolve parent with
      | none => none
      | some d =>
          if s.isDir d = false then
            none
          else if (s.child d tmp).isSome then
            -- `AlreadyExists`: the loop goes round
            some s
          else
            some ((s.addNode d tmp (0o700 - (0o700 &&& umask)) (some p) true).goto p
              (.chmod tmp name parent rest))
  | .mkdir _ _ _, .fails errno =>
      if errno = EEXIST then none else some (s.goto p (.returned (.err (.os errno))))
  | .chmod tmp name parent rest, .chmod =>
      (s.locate parent tmp).map fun (_, n) =>
        (s.setMode n 0o777).goto p (.rename tmp name parent rest)
  | .chmod tmp _ parent _, .fails errno => some (s.goto p (.removeFailed tmp parent (.os errno)))
  | .rename tmp name parent rest, .rename =>
      (s.locate parent tmp).map fun (d, n) =>
        if (s.child d name).isSome then
          s.goto p (handleRenameError tmp name parent rest (classifyRenameErrno EEXIST))
        else
          (s.moveEntry d tmp name n).goto p (nextTarget rest)
  | .rename tmp name parent rest, .fails errno =>
      if errno = EEXIST then none
      else some (s.goto p (handleRenameError tmp name parent rest (classifyRenameErrno errno)))
  | .removeLost tmp parent rest, .remove =>
      (s.removeDir parent tmp).map fun s' => s'.goto p (nextTarget rest)
  | .removeLost tmp parent _, .fails errno =>
      if s.removalFails parent tmp then some (s.goto p (.returned (.err (.os errno)))) else none
  | .removeFailed tmp parent e, .remove =>
      (s.removeDir parent tmp).map fun s' => s'.goto p (.returned (.err e))
  | .removeFailed tmp parent e, .fails _ =>
      if s.removalFails parent tmp then some (s.goto p (.returned (.err e))) else none
  | _, _ => none

/-- Another program creates an entry. -/
def create (s : State) (parent : Path) (name : String) (mode : ℕ) (isDir : Bool) : Option State :=
  match s.resolve parent with
  | none => none
  | some d =>
      if s.isDir d = false ∨ (s.child d name).isSome then none
      else some (s.addNode d name mode none isDir)

def step (dirs : ℕ → Path) (s : State) : Event → Option State
  | .act p a => s.act p (dirs p) a
  | .create parent name mode isDir => s.create parent name mode isDir

/-- No call has begun, and no call has created anything. -/
def machine (dirs : ℕ → Path) : Machine State Event where
  init s :=
    0 < s.nodes ∧ (∀ n, s.creator n = none) ∧ (∀ n, s.nodes ≤ n → s.entries n = []) ∧
      (∀ d name n, s.child d name = some n → n < s.nodes) ∧ ∀ p, s.pc p = .idle
  step := step dirs

/-! ### What a call knows -/

/-- A name that `make_temp_path` can come up with. -/
def IsTempName (name : String) : Prop :=
  ∃ pid nanos seq, name = tempName pid nanos seq

/-- The call `p` created the node that has the name. -/
def Owned (s : State) (p d : ℕ) (name : String) (n : ℕ) : Prop :=
  s.child d name = some n ∧ s.creator n = some p

/-- Another program put something into the directory. -/
def Filled (s : State) (n : ℕ) : Prop :=
  ∃ name m, s.child n name = some m ∧ s.creator m = none

/-- The entry is a level of the path. -/
def Placed (dir : Path) (s : State) (d : ℕ) (name : String) : Prop :=
  ∃ parent, name :: parent <:+ dir ∧ s.resolve parent = some d

/-- What the call created is in its place, or cannot be removed. -/
def Tidy (dir : Path) (s : State) (p : ℕ) : Prop :=
  ∀ d name n, s.Owned p d name n → s.Placed dir d name ∨ s.Filled n

/-- Apart from `n` in `d`, what the call created is in its place. -/
structure HasTemp (dir : Path) (s : State) (p : ℕ) (tmp : String) (parent : Path) (d n : ℕ) :
    Prop where
  isTempName : IsTempName tmp
  below : parent <:+ dir
  resolve_eq : s.resolve parent = some d
  owned : s.Owned p d tmp n
  only : ∀ d' name n', s.Owned p d' name n' →
    (d' = d ∧ name = tmp) ∨ s.Placed dir d' name ∨ s.Filled n'

/-- All levels but the targets exist. -/
structure Todo (dir : Path) (s : State) (targets : List Path) : Prop where
  levels : ∀ t ∈ targets, t <:+ dir
  exist : ∀ c, c <:+ dir → c ∈ targets ∨ s.resolve c ≠ none

def Knows (dir : Path) (s : State) (p : ℕ) : Pc → Prop
  | .idle | .panicked | .returned (.err _) => s.Tidy dir p
  | .probe cur missing =>
      s.Tidy dir p ∧ cur <:+ dir ∧ (∀ t ∈ missing, t <:+ dir) ∧
        ∀ c, c <:+ dir → c ∈ missing ∨ c <:+ cur
  | .mkdir name parent rest => s.Tidy dir p ∧ s.Todo dir ((name :: parent) :: rest)
  | .chmod tmp name parent rest =>
      (∃ d n, s.HasTemp dir p tmp parent d n) ∧ s.Todo dir ((name :: parent) :: rest)
  | .rename tmp name parent rest =>
      (∃ d n, s.HasTemp dir p tmp parent d n ∧ s.mode n = 0o777) ∧
        s.Todo dir ((name :: parent) :: rest)
  | .removeLost tmp parent rest => (∃ d n, s.HasTemp dir p tmp parent d n) ∧ s.Todo dir rest
  | .removeFailed tmp parent _ => ∃ d n, s.HasTemp dir p tmp parent d n
  | .returned .ok => s.Tidy dir p ∧ s.Todo dir []

/-- What holds of the tree.  `secluded`: calls create nothing inside temporary
directories, since no path leads there. -/
structure Tree (s : State) : Prop where
  root_lt : 0 < s.nodes
  root : s.creator 0 = none
  fresh : ∀ n, s.nodes ≤ n → s.entries n = []
  lt_nodes : ∀ d name n, s.child d name = some n → n < s.nodes
  unique : ∀ n, s.creator n ≠ none → ∀ d name d' name', s.child d name = some n →
    s.child d' name' = some n → d = d' ∧ name = name'
  writable : ∀ d name n, s.child d name = some n → s.creator n ≠ none → ¬ IsTempName name →
    s.mode n = 0o777
  secluded : ∀ d name n, s.child d name = some n → s.creator n ≠ none → IsTempName name →
    ∀ k m, s.child n k = some m → s.creator m = none

structure Inv (dirs : ℕ → Path) (s : State) : Prop where
  tree : s.Tree
  knows : ∀ p, s.Knows (dirs p) p (s.pc p)

end State

/-- The temporary directory that a call has at a step. -/
def Pc.temp : Pc → Option (String × Path)
  | .chmod tmp _ parent _ | .rename tmp _ parent _ | .removeLost tmp parent _ |
    .removeFailed tmp parent _ => some (tmp, parent)
  | _ => none

namespace State

/-- The entry is the temporary directory that the call `p` has now. -/
structure IsTempOf (s : State) (p d : ℕ) (name : String) (n : ℕ) : Prop where
  owned : s.Owned p d name n
  isTempName : IsTempName name
  current : ∃ parent, (s.pc p).temp = some (name, parent) ∧ s.resolve parent = some d

/-- What a step of the call `p` can do. -/
inductive Effect (dirs : ℕ → Path) (s : State) (p : ℕ) : State → Prop
  | retry : Effect dirs s p s
  | goto {pc pc' : Pc} (hpc : s.pc p = pc)
      (h : s.Tree → s.Knows (dirs p) p pc → s.Knows (dirs p) p pc') :
      Effect dirs s p (s.goto p pc')
  | mkdir {name tmp : String} {parent : Path} {rest : List Path} {d mode : ℕ}
      (hpc : s.pc p = .mkdir name parent rest) (hd : s.resolve parent = some d)
      (htmp : IsTempName tmp) (hfree : s.child d tmp = none) :
      Effect dirs s p ((s.addNode d tmp mode (some p) true).goto p (.chmod tmp name parent rest))
  | chmod {tmp name : String} {parent : Path} {rest : List Path} {d n : ℕ}
      (hpc : s.pc p = .chmod tmp name parent rest) (hloc : s.locate parent tmp = some (d, n)) :
      Effect dirs s p ((s.setMode n 0o777).goto p (.rename tmp name parent rest))
  | publish {tmp name : String} {parent : Path} {rest : List Path} {d n : ℕ}
      (hpc : s.pc p = .rename tmp name parent rest) (hloc : s.locate parent tmp = some (d, n))
      (hfree : s.child d name = none) :
      Effect dirs s p ((s.moveEntry d tmp name n).goto p (nextTarget rest))
  | removeLost {tmp : String} {parent : Path} {rest : List Path} {d n : ℕ}
      (hpc : s.pc p = .removeLost tmp parent rest) (hloc : s.locate parent tmp = some (d, n)) :
      Effect dirs s p ((s.removeEntry d tmp).goto p (nextTarget rest))
  | removeFailed {tmp : String} {parent : Path} {e : IoError} {d n : ℕ}
      (hpc : s.pc p = .removeFailed tmp parent e) (hloc : s.locate parent tmp = some (d, n)) :
      Effect dirs s p ((s.removeEntry d tmp).goto p (.returned (.err e)))

end State

/-! ## Entries -/

open State

variable {dirs : ℕ → Path} {dir : Path} {s s' : State} {p q d n : ℕ} {tmp name : String}
  {parent : Path}

theorem lookup_cons_eq_ite (e : String × ℕ) (l : List (String × ℕ)) (name : String) :
    (e :: l).lookup name = if name = e.1 then some e.2 else l.lookup name := by
  rw [List.lookup_cons]
  split_ifs with h
  · rw [beq_iff_eq.mpr h]
  · rw [beq_eq_false_iff_ne.mpr h]

theorem lookup_filter_ne (l : List (String × ℕ)) (name name' : String) :
    (l.filter fun e => e.1 ≠ name).lookup name' =
      if name' = name then none else l.lookup name' := by
  induction l with
  | nil => simp
  | cons e l ih =>
      by_cases he : e.1 = name
      · rw [List.filter_cons_of_neg (by simpa using he), ih, lookup_cons_eq_ite, he]
        split_ifs <;> rfl
      · rw [List.filter_cons_of_pos (by simpa using he), lookup_cons_eq_ite, lookup_cons_eq_ite, ih]
        split_ifs with hname hname'
        · exact absurd (hname.symm.trans hname') he
        all_goals rfl

theorem child_goto {pc : Pc} : (s.goto p pc).child d name = s.child d name := rfl

theorem child_addNode {mode : ℕ} {creator : Option ℕ} {isDir : Bool} (d' : ℕ) (name' : String) :
    (s.addNode d name mode creator isDir).child d' name' =
      if d' = d ∧ name' = name then some s.nodes else s.child d' name' := by
  by_cases hd : d' = d
  · subst hd
    simp only [child, addNode, Function.update_self, lookup_cons_eq_ite, true_and]
  · simp [child, addNode, hd]

theorem child_removeEntry (d' : ℕ) (name' : String) :
    (s.removeEntry d tmp).child d' name' =
      if d' = d ∧ name' = tmp then none else s.child d' name' := by
  by_cases hd : d' = d
  · subst hd
    simp only [child, removeEntry, Function.update_self, lookup_filter_ne, true_and]
  · simp [child, removeEntry, hd]

theorem child_moveEntry (d' : ℕ) (name' : String) :
    (s.moveEntry d tmp name n).child d' name' =
      if d' = d ∧ name' = name then some n
      else if d' = d ∧ name' = tmp then none else s.child d' name' := by
  by_cases hd : d' = d
  · subst hd
    simp only [child, moveEntry, Function.update_self, lookup_cons_eq_ite, lookup_filter_ne,
      true_and]
  · simp [child, moveEntry, hd]

theorem locate_eq_some : s.locate parent tmp = some (d, n) ↔
    s.resolve parent = some d ∧ s.child d tmp = some n := by
  simp only [locate, Option.bind_eq_some_iff, Option.map_eq_some_iff, Prod.mk.injEq]
  constructor
  · rintro ⟨d', hd, n', hn, rfl, rfl⟩
    exact ⟨hd, hn⟩
  · rintro ⟨hd, hn⟩
    exact ⟨d, hd, n, hn, rfl, rfl⟩

theorem removeDir_eq_some (h : s.removeDir parent tmp = some s') :
    ∃ d n, s.locate parent tmp = some (d, n) ∧ s' = s.removeEntry d tmp := by
  obtain ⟨⟨d, n⟩, hloc, h⟩ := Option.bind_eq_some_iff.mp h
  obtain ⟨-, h⟩ := Option.ite_none_right_eq_some.mp h
  exact ⟨d, n, hloc, (Option.some.inj h).symm⟩

/-- Only an entry of another program keeps a temporary directory from being removed. -/
theorem filled_of_removalFails (htree : s.Tree) (htemp : s.HasTemp dir p tmp parent d n)
    (h : s.removalFails parent tmp = true) : s.Filled n := by
  have hloc := locate_eq_some.mpr ⟨htemp.resolve_eq, htemp.owned.1⟩
  have hne : s.entries n ≠ [] := by
    intro hnil
    simp [removalFails, removeDir, hloc, hnil] at h
  obtain ⟨⟨k, m⟩, l, hcons⟩ := List.exists_cons_of_ne_nil hne
  have hchild : s.child n k = some m := by
    rw [child, hcons, lookup_cons_eq_ite, if_pos rfl]
  have hcreator : s.creator n ≠ none := by
    rw [htemp.owned.2]
    exact Option.some_ne_none p
  exact ⟨k, m, hchild,
    htree.secluded d tmp n htemp.owned.1 hcreator htemp.isTempName k m hchild⟩

theorem State.HasTemp.tidy (htemp : s.HasTemp dir p tmp parent d n) (hfilled : s.Filled n) :
    s.Tidy dir p := by
  intro d' name n' howned
  obtain ⟨rfl, rfl⟩ | hsettled := htemp.only d' name n' howned
  · have hn : n' = n := Option.some.inj (howned.1.symm.trans htemp.owned.1)
    rw [hn]
    exact .inr hfilled
  · exact hsettled

/-! ## Levels -/

theorem resolve_of_suffix {c c' : Path} (h : c' <:+ c) (hc : s.resolve c ≠ none) :
    s.resolve c' ≠ none := by
  induction c with
  | nil =>
      rw [List.suffix_nil.mp h]
      exact hc
  | cons name parent ih =>
      obtain rfl | h := List.suffix_cons_iff.mp h
      · exact hc
      · apply ih h
        intro hnone
        rw [resolve, hnone] at hc
        exact hc rfl

theorem State.Todo.tail {t : Path} {rest : List Path} (h : s.Todo dir (t :: rest))
    (ht : s.resolve t ≠ none) : s.Todo dir rest where
  levels t' ht' := h.levels t' (List.mem_cons_of_mem t ht')
  exist c hc := by
    obtain hmem | hexists := h.exist c hc
    · obtain rfl | hmem := List.mem_cons.mp hmem
      · exact .inr ht
      · exact .inl hmem
    · exact .inr hexists

theorem knows_nextTarget {targets : List Path} (htidy : s.Tidy dir p)
    (htodo : s.Todo dir targets) : s.Knows dir p (nextTarget targets) := by
  match targets with
  | [] => exact ⟨htidy, htodo⟩
  | [] :: _ => exact htidy
  | (_ :: _) :: _ => exact ⟨htidy, htodo⟩

/-! ## Steps -/

theorem knows_handleRenameError {rest : List Path} {errno : ℕ}
    (htemp : ∃ d n, s.HasTemp dir p tmp parent d n)
    (htodo : s.Todo dir ((name :: parent) :: rest))
    (hexists : errno = EEXIST → s.resolve (name :: parent) ≠ none) :
    s.Knows dir p (handleRenameError tmp name parent rest (classifyRenameErrno errno)) := by
  unfold handleRenameError
  split_ifs with h
  · have herrno : errno = EEXIST := by
      by_contra hne
      unfold classifyRenameErrno at h
      rw [if_neg hne] at h
      split_ifs at h
    exact ⟨htemp, htodo.tail (hexists herrno)⟩
  · exact htemp

/-- What a step can do, with all that the later proofs need of it. -/
theorem effect_of_act {a : Action} (h : s.act p (dirs p) a = some s') : Effect dirs s p s' := by
  unfold act at h
  split at h
  · next hpc =>
    cases h
    apply Effect.goto hpc
    intro _ htidy
    exact ⟨htidy, List.suffix_rfl, fun t ht => absurd ht List.not_mem_nil, fun c hc => .inr hc⟩
  · next cur missing found hpc =>
    split_ifs at h with hfound hexists
    · cases h
      apply Effect.goto hpc
      intro _ hknows
      obtain ⟨htidy, hcur, hmissing, hall⟩ := hknows
      refine knows_nextTarget htidy ⟨hmissing, fun c hc => (hall c hc).imp_right fun hsuffix => ?_⟩
      exact resolve_of_suffix hsuffix (Option.isSome_iff_ne_none.mp hexists)
    · split at h
      · cases h
        exact .goto hpc fun _ hknows => hknows.1
      · next name parent =>
        cases h
        apply Effect.goto hpc
        intro _ hknows
        obtain ⟨htidy, hcur, hmissing, hall⟩ := hknows
        refine ⟨htidy, (List.suffix_cons name parent).trans hcur,
          List.forall_mem_cons.mpr ⟨hcur, hmissing⟩, fun c hc => ?_⟩
        obtain hmem | hsuffix := hall c hc
        · exact .inl (List.mem_cons_of_mem _ hmem)
        · obtain rfl | hsuffix := List.suffix_cons_iff.mp hsuffix
          · exact .inl List.mem_cons_self
          · exact .inr hsuffix
  · next name parent rest pid nanos seq umask hpc =>
    simp only at h
    split at h
    · cases h
    · next d hd =>
      split_ifs at h with hdir htaken
      · cases h
        exact .retry
      · cases h
        exact .mkdir hpc hd ⟨pid, nanos, seq, rfl⟩ (by simpa using htaken)
  · next hpc =>
    split_ifs at h
    cases h
    exact .goto hpc fun _ hknows => hknows.1
  · next hpc =>
    obtain ⟨⟨d, n⟩, hloc, rfl⟩ := Option.map_eq_some_iff.mp h
    exact .chmod hpc hloc
  · next hpc =>
    cases h
    exact .goto hpc fun _ hknows => hknows.1
  · next tmp name parent rest hpc =>
    obtain ⟨⟨d, n⟩, hloc, h⟩ := Option.map_eq_some_iff.mp h
    simp only at h
    split_ifs at h with htaken
    · cases h
      apply Effect.goto hpc
      intro _ hknows
      obtain ⟨⟨d', n', htemp, -⟩, htodo⟩ := hknows
      apply knows_handleRenameError ⟨d', n', htemp⟩ htodo
      intro _
      rw [resolve, (locate_eq_some.mp hloc).1, Option.bind_some]
      exact Option.isSome_iff_ne_none.mp htaken
    · cases h
      exact .publish hpc hloc (by simpa using htaken)
  · next hpc =>
    split_ifs at h with hexist
    cases h
    apply Effect.goto hpc
    intro _ hknows
    obtain ⟨⟨d', n', htemp, -⟩, htodo⟩ := hknows
    exact knows_handleRenameError ⟨d', n', htemp⟩ htodo fun heexist => absurd heexist hexist
  · next hpc =>
    obtain ⟨s', hremove, rfl⟩ := Option.map_eq_some_iff.mp h
    obtain ⟨d, n, hloc, rfl⟩ := removeDir_eq_some hremove
    exact .removeLost hpc hloc
  · next hpc =>
    split_ifs at h with hfails
    cases h
    apply Effect.goto hpc
    intro htree hknows
    obtain ⟨⟨d, n, htemp⟩, -⟩ := hknows
    exact htemp.tidy (filled_of_removalFails htree htemp hfails)
  · next hpc =>
    obtain ⟨s', hremove, rfl⟩ := Option.map_eq_some_iff.mp h
    obtain ⟨d, n, hloc, rfl⟩ := removeDir_eq_some hremove
    exact .removeFailed hpc hloc
  · next hpc =>
    split_ifs at h with hfails
    cases h
    apply Effect.goto hpc
    intro htree hknows
    obtain ⟨d, n, htemp⟩ := hknows
    exact htemp.tidy (filled_of_removalFails htree htemp hfails)
  · cases h

/-! ## What steps leave alone -/

/-- Only entries of calls go away, and only under temporary names. -/
structure Persists (s s' : State) : Prop where
  child : ∀ d name m, s.child d name = some m →
    s'.child d name = some m ∨ (IsTempName name ∧ s.creator m ≠ none)
  creator : ∀ d name m, s.child d name = some m → s'.creator m = s.creator m

theorem Persists.filled (h : Persists s s') (hfilled : s.Filled n) : s'.Filled n := by
  obtain ⟨k, m, hchild, hcreator⟩ := hfilled
  obtain hchild' | ⟨-, hne⟩ := h.child n k m hchild
  · exact ⟨k, m, hchild', (h.creator n k m hchild).trans hcreator⟩
  · exact absurd hcreator hne

/-- All that a path without temporary names leads to stays. -/
theorem resolve_mono (h : Persists s s') {c : Path} (hc : ∀ name ∈ c, ¬ IsTempName name)
    (hd : s.resolve c = some d) : s'.resolve c = some d := by
  induction c generalizing d with
  | nil => exact hd
  | cons name parent ih =>
      obtain ⟨hname, hparent⟩ := List.forall_mem_cons.mp hc
      rw [resolve, Option.bind_eq_some_iff] at hd ⊢
      obtain ⟨d', hd', hchild⟩ := hd
      refine ⟨d', ih hparent hd', ?_⟩
      obtain hchild' | ⟨htemp, -⟩ := h.child d' name d hchild
      · exact hchild'
      · exact absurd htemp hname

section

variable (hdir : ∀ name ∈ dir, ¬ IsTempName name)

include hdir

theorem not_isTempName_of_suffix {c : Path} (hc : c <:+ dir) :
    ∀ name ∈ c, ¬ IsTempName name :=
  fun name hname => hdir name (hc.subset hname)

theorem Persists.resolve_eq (h : Persists s s') (hparent : parent <:+ dir)
    (hd : s.resolve parent = some d) : s'.resolve parent = some d :=
  resolve_mono h (not_isTempName_of_suffix hdir hparent) hd

theorem Persists.placed (h : Persists s s') (hplaced : s.Placed dir d name) :
    s'.Placed dir d name := by
  obtain ⟨parent, hsuffix, hd⟩ := hplaced
  exact ⟨parent, hsuffix, h.resolve_eq hdir ((List.suffix_cons name parent).trans hsuffix) hd⟩

theorem Persists.todo (h : Persists s s') {targets : List Path} (htodo : s.Todo dir targets) :
    s'.Todo dir targets where
  levels := htodo.levels
  exist c hc := by
    obtain hmem | hexists := htodo.exist c hc
    · exact .inl hmem
    · obtain ⟨d, hd⟩ := Option.ne_none_iff_exists'.mp hexists
      right
      rw [h.resolve_eq hdir hc hd]
      exact Option.some_ne_none d

end

/-- What the call `q` created is as it was. -/
structure SameFor (s s' : State) (q : ℕ) : Prop extends Persists s s' where
  owned_iff : ∀ d name n, s'.Owned q d name n ↔ s.Owned q d name n
  mode_eq : ∀ d name n, s.Owned q d name n → s'.mode n = s.mode n

section

variable (hdir : ∀ name ∈ dir, ¬ IsTempName name)

include hdir

theorem SameFor.tidy (h : SameFor s s' q) (htidy : s.Tidy dir q) : s'.Tidy dir q := by
  intro d name n howned
  exact (htidy d name n ((h.owned_iff d name n).mp howned)).imp (h.placed hdir) h.filled

theorem SameFor.hasTemp (h : SameFor s s' q) (htemp : s.HasTemp dir q tmp parent d n) :
    s'.HasTemp dir q tmp parent d n where
  isTempName := htemp.isTempName
  below := htemp.below
  resolve_eq := h.resolve_eq hdir htemp.below htemp.resolve_eq
  owned := (h.owned_iff d tmp n).mpr htemp.owned
  only d' name n' howned :=
    (htemp.only d' name n' ((h.owned_iff d' name n').mp howned)).imp id
      (Or.imp (h.placed hdir) h.filled)

/-- What a call knows stays true when somebody else changes the tree. -/
theorem SameFor.knows (h : SameFor s s' q) {pc : Pc} (hknows : s.Knows dir q pc) :
    s'.Knows dir q pc := by
  match pc with
  | .idle | .panicked | .returned (.err _) => exact h.tidy hdir hknows
  | .probe _ _ => exact ⟨h.tidy hdir hknows.1, hknows.2⟩
  | .mkdir _ _ _ | .returned .ok => exact ⟨h.tidy hdir hknows.1, h.todo hdir hknows.2⟩
  | .chmod _ _ _ _ | .removeLost _ _ _ =>
      obtain ⟨⟨d, n, htemp⟩, htodo⟩ := hknows
      exact ⟨⟨d, n, h.hasTemp hdir htemp⟩, h.todo hdir htodo⟩
  | .rename _ _ _ _ =>
      obtain ⟨⟨d, n, htemp, hmode⟩, htodo⟩ := hknows
      refine ⟨⟨d, n, h.hasTemp hdir htemp, ?_⟩, h.todo hdir htodo⟩
      rw [h.mode_eq d _ n htemp.owned, hmode]
  | .removeFailed _ _ _ =>
      obtain ⟨d, n, htemp⟩ := hknows
      exact ⟨d, n, h.hasTemp hdir htemp⟩

end

/-! ## The changes of the tree -/

theorem ne_of_free {d' : ℕ} {name' : String} {m : ℕ} (hfree : s.child d name = none)
    (hm : s.child d' name' = some m) : ¬ (d' = d ∧ name' = name) := by
  rintro ⟨rfl, rfl⟩
  rw [hfree] at hm
  cases hm

/-- Nodes of different calls are different. -/
theorem State.Owned.ne {d' : ℕ} {name' : String} {m : ℕ} (hp : s.Owned p d tmp n)
    (hq : s.Owned q d' name' m) (hne : q ≠ p) : m ≠ n ∧ ¬ (d' = d ∧ name' = tmp) := by
  have hnode : m ≠ n := by
    rintro rfl
    exact hne (Option.some.inj (hq.2.symm.trans hp.2))
  refine ⟨hnode, ?_⟩
  rintro ⟨rfl, rfl⟩
  exact hnode (Option.some.inj (hq.1.symm.trans hp.1))

theorem persists_addNode (htree : s.Tree) (hfree : s.child d name = none) {mode : ℕ}
    {creator : Option ℕ} {isDir : Bool} : Persists s (s.addNode d name mode creator isDir) where
  child d' name' m hm := by
    left
    rw [child_addNode, if_neg (ne_of_free hfree hm)]
    exact hm
  creator d' name' m hm := Function.update_of_ne (Nat.ne_of_lt (htree.lt_nodes d' name' m hm)) _ _

theorem sameFor_addNode (htree : s.Tree) (hfree : s.child d name = none) {mode : ℕ}
    {creator : Option ℕ} {isDir : Bool} (hne : creator ≠ some q) :
    SameFor s (s.addNode d name mode creator isDir) q where
  toPersists := persists_addNode htree hfree
  owned_iff d' name' m := by
    unfold Owned
    rw [child_addNode]
    split_ifs with hnew
    · obtain ⟨rfl, rfl⟩ := hnew
      refine iff_of_false ?_ ?_
      · rintro ⟨hm, hcreator⟩
        rw [← Option.some.inj hm] at hcreator
        change Function.update s.creator s.nodes creator s.nodes = some q at hcreator
        rw [Function.update_self] at hcreator
        exact hne hcreator
      · rintro ⟨hm, -⟩
        rw [hfree] at hm
        cases hm
    · refine and_congr_right fun hm => ?_
      rw [(persists_addNode htree hfree).creator d' name' m hm]
  mode_eq d' name' m howned :=
    Function.update_of_ne (Nat.ne_of_lt (htree.lt_nodes d' name' m howned.1)) _ _

theorem persists_setMode {mode : ℕ} : Persists s (s.setMode n mode) where
  child _ _ _ hm := .inl hm
  creator _ _ _ _ := rfl

theorem sameFor_setMode {mode : ℕ} (howned : s.Owned p d tmp n) (hne : q ≠ p) :
    SameFor s (s.setMode n mode) q where
  toPersists := persists_setMode
  owned_iff _ _ _ := Iff.rfl
  mode_eq _ _ _ hq := Function.update_of_ne (howned.ne hq hne).1 _ _

theorem persists_removeEntry (htmp : IsTempName tmp) (howned : s.Owned p d tmp n) :
    Persists s (s.removeEntry d tmp) where
  child d' name' m hm := by
    rw [child_removeEntry]
    split_ifs with hentry
    · obtain ⟨rfl, rfl⟩ := hentry
      right
      rw [← Option.some.inj (howned.1.symm.trans hm), howned.2]
      exact ⟨htmp, Option.some_ne_none p⟩
    · exact .inl hm
  creator _ _ _ _ := rfl

theorem sameFor_removeEntry (htmp : IsTempName tmp) (howned : s.Owned p d tmp n) (hne : q ≠ p) :
    SameFor s (s.removeEntry d tmp) q where
  toPersists := persists_removeEntry htmp howned
  owned_iff d' name' m := by
    unfold Owned
    rw [child_removeEntry]
    split_ifs with hentry
    · exact iff_of_false (fun h => by cases h.1) fun hq => (howned.ne hq hne).2 hentry
    · rfl
  mode_eq _ _ _ _ := rfl

theorem persists_moveEntry (htmp : IsTempName tmp) (howned : s.Owned p d tmp n)
    (hfree : s.child d name = none) : Persists s (s.moveEntry d tmp name n) where
  child d' name' m hm := by
    rw [child_moveEntry, if_neg (ne_of_free hfree hm), ← child_removeEntry]
    exact (persists_removeEntry htmp howned).child d' name' m hm
  creator _ _ _ _ := rfl

theorem sameFor_moveEntry (htmp : IsTempName tmp) (howned : s.Owned p d tmp n)
    (hfree : s.child d name = none) (hne : q ≠ p) : SameFor s (s.moveEntry d tmp name n) q where
  toPersists := persists_moveEntry htmp howned hfree
  owned_iff d' name' m := by
    by_cases hnew : d' = d ∧ name' = name
    · refine iff_of_false ?_ fun hq => ne_of_free hfree hq.1 hnew
      rintro ⟨hm, hcreator⟩
      rw [child_moveEntry, if_pos hnew] at hm
      rw [← Option.some.inj hm] at hcreator
      exact hne (Option.some.inj (hcreator.symm.trans howned.2))
    · rw [← (sameFor_removeEntry htmp howned hne).owned_iff d' name' m]
      unfold Owned
      rw [child_moveEntry, if_neg hnew, child_removeEntry]
      rfl
  mode_eq _ _ _ _ := rfl

/-! ## The tree -/

theorem resolve_lt (htree : s.Tree) {c : Path} (hd : s.resolve c = some d) : d < s.nodes := by
  match c with
  | [] => exact Option.some.inj hd ▸ htree.root_lt
  | name :: parent =>
      obtain ⟨d', -, hchild⟩ := Option.bind_eq_some_iff.mp hd
      exact htree.lt_nodes d' name d hchild

/-- Not a temporary directory of a call. -/
def Public (s : State) (d : ℕ) : Prop :=
  s.creator d ≠ none → ∀ d' name, s.child d' name = some d → ¬ IsTempName name

/-- No path without temporary names leads to a temporary directory. -/
theorem public_of_resolve (htree : s.Tree) {c : Path} (hc : ∀ name ∈ c, ¬ IsTempName name)
    (hd : s.resolve c = some d) : Public s d := by
  intro hcreator d' name' hchild'
  match c with
  | [] =>
      rw [← Option.some.inj hd, htree.root] at hcreator
      exact absurd rfl hcreator
  | name :: parent =>
      obtain ⟨d₁, -, hchild⟩ := Option.bind_eq_some_iff.mp hd
      rw [← (htree.unique d hcreator d₁ name d' name' hchild hchild').2]
      exact hc name List.mem_cons_self

theorem tree_goto {pc : Pc} (htree : s.Tree) : (s.goto p pc).Tree :=
  ⟨htree.root_lt, htree.root, htree.fresh, htree.lt_nodes, htree.unique, htree.writable,
    htree.secluded⟩

theorem tree_addNode (htree : s.Tree) (hd : d < s.nodes) {mode : ℕ} {creator : Option ℕ}
    {isDir : Bool} (hsafe : creator ≠ none → IsTempName name ∧ Public s d) :
    (s.addNode d name mode creator isDir).Tree := by
  set s' := s.addNode d name mode creator isDir with hs'
  have hcreator : ∀ n, n < s.nodes → s'.creator n = s.creator n :=
    fun n hn => Function.update_of_ne (Nat.ne_of_lt hn) _ _
  have hnew : s'.creator s.nodes = creator := Function.update_self _ _ _
  -- an entry of the new tree is the new one or was there before
  have hchild : ∀ {d' name' m}, s'.child d' name' = some m →
      (d' = d ∧ name' = name ∧ m = s.nodes) ∨ (s.child d' name' = some m ∧ m < s.nodes) := by
    intro d' name' m hm
    rw [hs', child_addNode] at hm
    split_ifs at hm with h
    · exact .inl ⟨h.1, h.2, (Option.some.inj hm).symm⟩
    · exact .inr ⟨hm, htree.lt_nodes d' name' m hm⟩
  refine ⟨Nat.succ_pos _, ?_, ?_, ?_, ?_, ?_, ?_⟩
  · rw [hcreator 0 htree.root_lt, htree.root]
  · intro n hn
    have hn' : s.nodes < n := hn
    have hne : n ≠ d := by omega
    change Function.update s.entries d _ n = []
    rw [Function.update_of_ne hne, htree.fresh n (Nat.le_of_lt hn')]
  · intro d' name' m hm
    change m < s.nodes + 1
    obtain ⟨-, -, rfl⟩ | ⟨-, hlt⟩ := hchild hm <;> omega
  · intro m hm d₁ name₁ d₂ name₂ h₁ h₂
    obtain ⟨rfl, rfl, rfl⟩ | ⟨h₁, hlt⟩ := hchild h₁
    · obtain ⟨rfl, rfl, -⟩ | ⟨-, hlt⟩ := hchild h₂
      · exact ⟨rfl, rfl⟩
      · omega
    · obtain ⟨-, -, rfl⟩ | ⟨h₂, -⟩ := hchild h₂
      · omega
      · rw [hcreator m hlt] at hm
        exact htree.unique m hm d₁ name₁ d₂ name₂ h₁ h₂
  · intro d' name' m hm hne hname
    obtain ⟨rfl, rfl, rfl⟩ | ⟨hm, hlt⟩ := hchild hm
    · rw [hnew] at hne
      exact absurd (hsafe hne).1 hname
    · rw [hcreator m hlt] at hne
      change Function.update s.mode s.nodes mode m = 0o777
      rw [Function.update_of_ne (Nat.ne_of_lt hlt)]
      exact htree.writable d' name' m hm hne hname
  · intro d' name' m hm hne hname k x hx
    obtain ⟨rfl, rfl, rfl⟩ | ⟨hold, hlt⟩ := hchild hm
    · -- the new directory is empty
      obtain ⟨h, -, -⟩ | ⟨hx, -⟩ := hchild hx
      · omega
      · rw [child, htree.fresh s.nodes (Nat.le_refl _)] at hx
        cases hx
    · rw [hcreator m hlt] at hne
      obtain ⟨rfl, -, rfl⟩ | ⟨hx, hlt'⟩ := hchild hx
      · rw [hnew]
        by_contra hsome
        exact (hsafe hsome).2 hne d' name' hold hname
      · rw [hcreator x hlt']
        exact htree.secluded d' name' m hold hne hname k x hx

theorem tree_setMode (htree : s.Tree) : (s.setMode n 0o777).Tree where
  root_lt := htree.root_lt
  root := htree.root
  fresh := htree.fresh
  lt_nodes := htree.lt_nodes
  unique := htree.unique
  writable d name m hm hne hname := by
    change Function.update s.mode n 0o777 m = 0o777
    by_cases hmn : m = n
    · rw [hmn, Function.update_self]
    · rw [Function.update_of_ne hmn]
      exact htree.writable d name m hm hne hname
  secluded := htree.secluded

theorem tree_removeEntry (htree : s.Tree) : (s.removeEntry d tmp).Tree := by
  have hchild : ∀ {d' name' m}, (s.removeEntry d tmp).child d' name' = some m →
      s.child d' name' = some m := by
    intro d' name' m hm
    rw [child_removeEntry] at hm
    split_ifs at hm
    exact hm
  refine ⟨htree.root_lt, htree.root, ?_, fun d' name' m hm => htree.lt_nodes d' name' m (hchild hm),
    fun m hm d₁ name₁ d₂ name₂ h₁ h₂ =>
      htree.unique m hm d₁ name₁ d₂ name₂ (hchild h₁) (hchild h₂),
    fun d' name' m hm => htree.writable d' name' m (hchild hm),
    fun d' name' m hm hne hname k x hx =>
      htree.secluded d' name' m (hchild hm) hne hname k x (hchild hx)⟩
  intro m hm
  change Function.update s.entries d _ m = []
  by_cases hmd : m = d
  · subst hmd
    rw [Function.update_self, htree.fresh m hm]
    rfl
  · rw [Function.update_of_ne hmd, htree.fresh m hm]

theorem tree_moveEntry (htree : s.Tree) (hd : d < s.nodes) (hpublic : Public s d)
    (howned : s.Owned p d tmp n) (hname : ¬ IsTempName name) (hmode : s.mode n = 0o777) :
    (s.moveEntry d tmp name n).Tree := by
  set s' := s.moveEntry d tmp name n with hs'
  -- an entry of the new tree is the one that moved or was there before, with another node
  have hchild : ∀ {d' name' m}, s'.child d' name' = some m →
      (d' = d ∧ name' = name ∧ m = n) ∨ (s.child d' name' = some m ∧ m ≠ n) := by
    intro d' name' m hm
    rw [hs', child_moveEntry] at hm
    split_ifs at hm with hnew htmp
    · exact .inl ⟨hnew.1, hnew.2, (Option.some.inj hm).symm⟩
    · refine .inr ⟨hm, ?_⟩
      rintro rfl
      have hcreator : s.creator m ≠ none := by
        rw [howned.2]
        exact Option.some_ne_none p
      exact htmp (htree.unique m hcreator d' name' d tmp hm howned.1)
  refine ⟨htree.root_lt, htree.root, ?_, ?_, ?_, ?_, ?_⟩
  · intro m hm
    have hm' : s.nodes ≤ m := hm
    have hne : m ≠ d := by omega
    change Function.update s.entries d _ m = []
    rw [Function.update_of_ne hne, htree.fresh m hm]
  · intro d' name' m hm
    obtain ⟨-, -, rfl⟩ | ⟨hm, -⟩ := hchild hm
    · exact htree.lt_nodes d tmp m howned.1
    · exact htree.lt_nodes d' name' m hm
  · intro m hm d₁ name₁ d₂ name₂ h₁ h₂
    obtain ⟨rfl, rfl, rfl⟩ | ⟨h₁, hne⟩ := hchild h₁
    · obtain ⟨rfl, rfl, -⟩ | ⟨-, hne⟩ := hchild h₂
      · exact ⟨rfl, rfl⟩
      · exact absurd rfl hne
    · obtain ⟨-, -, rfl⟩ | ⟨h₂, -⟩ := hchild h₂
      · exact absurd rfl hne
      · exact htree.unique m hm d₁ name₁ d₂ name₂ h₁ h₂
  · intro d' name' m hm hne hname'
    obtain ⟨-, -, rfl⟩ | ⟨hm, -⟩ := hchild hm
    · exact hmode
    · exact htree.writable d' name' m hm hne hname'
  · intro d' name' m hm hne hname' k x hx
    obtain ⟨-, rfl, -⟩ | ⟨hold, -⟩ := hchild hm
    · exact absurd hname' hname
    · obtain ⟨rfl, -, -⟩ | ⟨hx, -⟩ := hchild hx
      · exact absurd hname' (hpublic hne d' name' hold)
      · exact htree.secluded d' name' m hold hne hname' k x hx

/-! ## The invariant -/

theorem sameFor_goto {pc : Pc} (q : ℕ) : SameFor s (s.goto p pc) q where
  child _ _ _ hm := .inl hm
  creator _ _ _ _ := rfl
  owned_iff _ _ _ := Iff.rfl
  mode_eq _ _ _ _ := rfl

theorem SameFor.refl (q : ℕ) : SameFor s s q where
  child _ _ _ hm := .inl hm
  creator _ _ _ _ := rfl
  owned_iff _ _ _ := Iff.rfl
  mode_eq _ _ _ _ := rfl

/-- The new entry of a call is its temporary directory. -/
theorem hasTemp_addNode (htree : s.Tree) (hdir : ∀ name ∈ dir, ¬ IsTempName name)
    (htmp : IsTempName tmp) (hbelow : parent <:+ dir) (hd : s.resolve parent = some d)
    (hfree : s.child d tmp = none) (htidy : s.Tidy dir p) {mode : ℕ} {isDir : Bool} :
    (s.addNode d tmp mode (some p) isDir).HasTemp dir p tmp parent d s.nodes where
  isTempName := htmp
  below := hbelow
  resolve_eq := (persists_addNode htree hfree).resolve_eq hdir hbelow hd
  owned := by
    refine ⟨?_, Function.update_self _ _ _⟩
    rw [child_addNode, if_pos ⟨rfl, rfl⟩]
  only d' name m howned := by
    have hpersists : Persists s (s.addNode d tmp mode (some p) isDir) :=
      persists_addNode htree hfree
    obtain ⟨hm, hcreator⟩ := howned
    rw [child_addNode] at hm
    split_ifs at hm with hnew
    · exact .inl hnew
    · rw [hpersists.creator d' name m hm] at hcreator
      exact .inr ((htidy d' name m ⟨hm, hcreator⟩).imp (hpersists.placed hdir) hpersists.filled)

theorem hasTemp_setMode (hdir : ∀ name ∈ dir, ¬ IsTempName name) {m mode : ℕ}
    (htemp : s.HasTemp dir p tmp parent d n) :
    (s.setMode m mode).HasTemp dir p tmp parent d n where
  isTempName := htemp.isTempName
  below := htemp.below
  resolve_eq := persists_setMode.resolve_eq hdir htemp.below htemp.resolve_eq
  owned := htemp.owned
  only d' name n' howned :=
    (htemp.only d' name n' howned).imp id (Or.imp (persists_setMode.placed hdir) id)

theorem State.HasTemp.eq_of_locate {d' n' : ℕ} (htemp : s.HasTemp dir p tmp parent d n)
    (hloc : s.locate parent tmp = some (d', n')) : d' = d ∧ n' = n := by
  rw [locate_eq_some.mpr ⟨htemp.resolve_eq, htemp.owned.1⟩] at hloc
  cases hloc
  exact ⟨rfl, rfl⟩

theorem tidy_removeEntry (hdir : ∀ name ∈ dir, ¬ IsTempName name)
    (htemp : s.HasTemp dir p tmp parent d n) : (s.removeEntry d tmp).Tidy dir p := by
  have hpersists := persists_removeEntry htemp.isTempName htemp.owned
  intro d' name m howned
  obtain ⟨hm, hcreator⟩ := howned
  rw [child_removeEntry] at hm
  split_ifs at hm with hentry
  obtain htmp | hsettled := htemp.only d' name m ⟨hm, hcreator⟩
  · exact absurd htmp hentry
  · exact hsettled.imp (hpersists.placed hdir) hpersists.filled

theorem tidy_moveEntry (hdir : ∀ name ∈ dir, ¬ IsTempName name)
    (htemp : s.HasTemp dir p tmp parent d n) (hlevel : name :: parent <:+ dir)
    (hfree : s.child d name = none) : (s.moveEntry d tmp name n).Tidy dir p := by
  have hpersists := persists_moveEntry htemp.isTempName htemp.owned hfree
  intro d' name' m howned
  obtain ⟨hm, hcreator⟩ := howned
  rw [child_moveEntry] at hm
  split_ifs at hm with hnew hentry
  · left
    rw [hnew.1, hnew.2]
    exact ⟨parent, hlevel, hpersists.resolve_eq hdir htemp.below htemp.resolve_eq⟩
  · obtain htmp | hsettled := htemp.only d' name' m ⟨hm, hcreator⟩
    · exact absurd htmp hentry
    · exact hsettled.imp (hpersists.placed hdir) hpersists.filled

section

variable (hdirs : ∀ p, ∀ name ∈ dirs p, ¬ IsTempName name)

include hdirs

/-- A step moves one call; the others see what their frame tells them. -/
theorem inv_goto {s₀ : State} {pc : Pc} (hinv : s₀.Inv dirs) (htree : s.Tree)
    (hsame : ∀ q, q ≠ p → SameFor s₀ s q) (hpc : s.pc = s₀.pc)
    (hp : s.Knows (dirs p) p pc) : (s.goto p pc).Inv dirs where
  tree := tree_goto htree
  knows q := by
    apply (sameFor_goto q).knows (hdirs q)
    simp only [goto]
    by_cases hqp : q = p
    · subst hqp
      rw [Function.update_self]
      exact hp
    · rw [Function.update_of_ne hqp, hpc]
      exact (hsame q hqp).knows (hdirs q) (hinv.knows q)

theorem inv_effect (hinv : s.Inv dirs) (heffect : Effect dirs s p s') : s'.Inv dirs := by
  have htree := hinv.tree
  have hknows := hinv.knows p
  cases heffect with
  | retry => exact hinv
  | goto hpc h =>
      rw [hpc] at hknows
      exact inv_goto hdirs hinv htree (fun q _ => SameFor.refl q) rfl (h htree hknows)
  | mkdir hpc hd htmp hfree =>
      rw [hpc] at hknows
      obtain ⟨htidy, htodo⟩ := hknows
      have hbelow := (List.suffix_cons _ _).trans (htodo.levels _ List.mem_cons_self)
      have hpublic := public_of_resolve htree (not_isTempName_of_suffix (hdirs p) hbelow) hd
      apply inv_goto hdirs hinv
      · exact tree_addNode htree (resolve_lt htree hd) fun _ => ⟨htmp, hpublic⟩
      · intro q hq
        exact sameFor_addNode htree hfree fun h => hq (Option.some.inj h).symm
      · rfl
      · exact ⟨⟨_, _, hasTemp_addNode htree (hdirs p) htmp hbelow hd hfree htidy⟩,
          (persists_addNode htree hfree).todo (hdirs p) htodo⟩
  | chmod hpc hloc =>
      rw [hpc] at hknows
      obtain ⟨⟨d, n, htemp⟩, htodo⟩ := hknows
      obtain ⟨rfl, rfl⟩ := htemp.eq_of_locate hloc
      apply inv_goto hdirs hinv
      · exact tree_setMode htree
      · intro q hq
        exact sameFor_setMode htemp.owned hq
      · rfl
      · exact ⟨⟨_, _, hasTemp_setMode (hdirs p) htemp, Function.update_self _ _ _⟩,
          persists_setMode.todo (hdirs p) htodo⟩
  | publish hpc hloc hfree =>
      rw [hpc] at hknows
      obtain ⟨⟨d, n, htemp, hmode⟩, htodo⟩ := hknows
      obtain ⟨rfl, rfl⟩ := htemp.eq_of_locate hloc
      have hlevel := htodo.levels _ List.mem_cons_self
      have hpersists := persists_moveEntry htemp.isTempName htemp.owned hfree
      have hbelow := not_isTempName_of_suffix (hdirs p) htemp.below
      apply inv_goto hdirs hinv
      · exact tree_moveEntry htree (resolve_lt htree htemp.resolve_eq)
          (public_of_resolve htree hbelow htemp.resolve_eq) htemp.owned
          (not_isTempName_of_suffix (hdirs p) hlevel _ List.mem_cons_self) hmode
      · intro q hq
        exact sameFor_moveEntry htemp.isTempName htemp.owned hfree hq
      · rfl
      · apply knows_nextTarget (tidy_moveEntry (hdirs p) htemp hlevel hfree)
        apply (hpersists.todo (hdirs p) htodo).tail
        rw [resolve, hpersists.resolve_eq (hdirs p) htemp.below htemp.resolve_eq,
          Option.bind_some, child_moveEntry, if_pos ⟨rfl, rfl⟩]
        exact Option.some_ne_none _
  | removeLost hpc hloc =>
      rw [hpc] at hknows
      obtain ⟨⟨d, n, htemp⟩, htodo⟩ := hknows
      obtain ⟨rfl, rfl⟩ := htemp.eq_of_locate hloc
      have hpersists := persists_removeEntry htemp.isTempName htemp.owned
      apply inv_goto hdirs hinv
      · exact tree_removeEntry htree
      · intro q hq
        exact sameFor_removeEntry htemp.isTempName htemp.owned hq
      · rfl
      · exact knows_nextTarget (tidy_removeEntry (hdirs p) htemp) (hpersists.todo (hdirs p) htodo)
  | removeFailed hpc hloc =>
      rw [hpc] at hknows
      obtain ⟨d, n, htemp⟩ := hknows
      obtain ⟨rfl, rfl⟩ := htemp.eq_of_locate hloc
      apply inv_goto hdirs hinv
      · exact tree_removeEntry htree
      · intro q hq
        exact sameFor_removeEntry htemp.isTempName htemp.owned hq
      · rfl
      · exact tidy_removeEntry (hdirs p) htemp

/-- An entry of another program changes nothing for the calls. -/
theorem inv_create (hinv : s.Inv dirs) {mode : ℕ} {isDir : Bool}
    (h : s.create parent name mode isDir = some s') : s'.Inv dirs := by
  unfold create at h
  split at h
  · cases h
  · next d hd =>
    split_ifs at h with hblocked
    cases h
    obtain ⟨-, hfree⟩ := not_or.mp hblocked
    have hfree : s.child d name = none := by simpa using hfree
    constructor
    · exact tree_addNode hinv.tree (resolve_lt hinv.tree hd) fun h => absurd rfl h
    · intro q
      have hsame : SameFor s (s.addNode d name mode none isDir) q :=
        sameFor_addNode hinv.tree hfree (Option.some_ne_none q).symm
      exact hsame.knows (hdirs q) (hinv.knows q)

theorem create_inductive : (machine dirs).Inductive (fun _ _ => True) (Inv dirs) where
  init := by
    rintro s ⟨hroot, hcreator, hfresh, hlt, hidle⟩
    have hnone : ∀ {n}, ¬ s.creator n ≠ none := fun h => h (hcreator _)
    refine ⟨⟨hroot, hcreator 0, hfresh, hlt, fun n h => absurd h hnone,
      fun d name n _ h => absurd h hnone, fun d name n _ h => absurd h hnone⟩, fun p => ?_⟩
    rw [hidle p]
    rintro d name n ⟨-, howned⟩
    rw [hcreator n] at howned
    cases howned
  step := by
    intro s e s' hinv _ hstep
    cases e with
    | act p a => exact inv_effect hdirs hinv (effect_of_act hstep)
    | create parent name mode isDir => exact inv_create hdirs hinv hstep

end

/-! ## Main theorem -/

theorem State.HasTemp.isTempOf (htemp : s.HasTemp dir p tmp parent d n)
    (hpc : (s.pc p).temp = some (tmp, parent)) : s.IsTempOf p d tmp n where
  owned := htemp.owned
  isTempName := htemp.isTempName
  current := ⟨parent, hpc, htemp.resolve_eq⟩

/-- What a removal or a rename takes away is the temporary directory. -/
theorem child_of_removeEntry (htemp : s.HasTemp dir p tmp parent d n)
    (hpc : (s.pc p).temp = some (tmp, parent)) {d' m : ℕ} (hm : s.child d' name = some m) :
    (s.removeEntry d tmp).child d' name = some m ∨ s.IsTempOf p d' name m := by
  rw [child_removeEntry]
  split_ifs with hentry
  · obtain ⟨rfl, rfl⟩ := hentry
    right
    rw [Option.some.inj (hm.symm.trans htemp.owned.1)]
    exact htemp.isTempOf hpc
  · exact .inl hm

/-- A step leaves all entries as they are, other than the temporary directory of its
own call. -/
theorem entry_of_effect (hinv : s.Inv dirs) (heffect : Effect dirs s p s') {m : ℕ}
    (hm : s.child d name = some m) :
    (s'.child d name = some m ∧ s'.mode m = s.mode m) ∨ s.IsTempOf p d name m := by
  have hknows := hinv.knows p
  cases heffect with
  | retry | goto => exact .inl ⟨hm, rfl⟩
  | mkdir hpc hd htmp hfree =>
      left
      refine ⟨?_, Function.update_of_ne (Nat.ne_of_lt (hinv.tree.lt_nodes d name m hm)) _ _⟩
      rw [child_goto, child_addNode, if_neg (ne_of_free hfree hm)]
      exact hm
  | @chmod tmp name' parent rest d' n hpc hloc =>
      rw [hpc] at hknows
      obtain ⟨⟨d', n, htemp⟩, -⟩ := hknows
      obtain ⟨rfl, rfl⟩ := htemp.eq_of_locate hloc
      by_cases hnode : m = n
      · subst hnode
        have hcreator : s.creator m ≠ none := by
          rw [htemp.owned.2]
          exact Option.some_ne_none p
        obtain ⟨rfl, rfl⟩ := hinv.tree.unique m hcreator d name _ _ hm htemp.owned.1
        exact .inr (htemp.isTempOf (by rw [hpc]; rfl))
      · exact .inl ⟨hm, Function.update_of_ne hnode _ _⟩
  | publish hpc hloc hfree =>
      rw [hpc] at hknows
      obtain ⟨⟨d', n, htemp, -⟩, -⟩ := hknows
      obtain ⟨rfl, rfl⟩ := htemp.eq_of_locate hloc
      rw [child_goto, child_moveEntry, if_neg (ne_of_free hfree hm), ← child_removeEntry]
      exact (child_of_removeEntry htemp (by rw [hpc]; rfl) hm).imp_left fun h => ⟨h, rfl⟩
  | removeLost hpc hloc =>
      rw [hpc] at hknows
      obtain ⟨⟨d', n, htemp⟩, -⟩ := hknows
      obtain ⟨rfl, rfl⟩ := htemp.eq_of_locate hloc
      exact (child_of_removeEntry htemp (by rw [hpc]; rfl) hm).imp_left fun h => ⟨h, rfl⟩
  | removeFailed hpc hloc =>
      rw [hpc] at hknows
      obtain ⟨d', n, htemp⟩ := hknows
      obtain ⟨rfl, rfl⟩ := htemp.eq_of_locate hloc
      exact (child_of_removeEntry htemp (by rw [hpc]; rfl) hm).imp_left fun h => ⟨h, rfl⟩

theorem entry_of_create (htree : s.Tree) {mode : ℕ} {isDir : Bool} {name' : String} {m : ℕ}
    (h : s.create parent name' mode isDir = some s') (hm : s.child d name = some m) :
    s'.child d name = some m ∧ s'.mode m = s.mode m := by
  unfold create at h
  split at h
  · cases h
  · split_ifs at h with hblocked
    cases h
    obtain ⟨-, hfree⟩ := not_or.mp hblocked
    constructor
    · rw [child_addNode, if_neg (ne_of_free (by simpa using hfree) hm)]
      exact hm
    · exact Function.update_of_ne (Nat.ne_of_lt (htree.lt_nodes d name m hm)) _ _

/-- What holds in every state. -/
structure Promises (dirs : ℕ → Path) (s : State) : Prop where
  /-- A directory that a call created is open to all wherever a path leads to it. -/
  visible : ∀ p c, c <:+ dirs p → ∀ n q, s.resolve c = some n → s.creator n = some q →
    s.mode n = 0o777
  /-- A step moves, removes or chmods its own call's temporary directory and nothing else. -/
  untouched : ∀ e s', (machine dirs).step s e = some s' → ∀ d name m, s.child d name = some m →
    (s'.child d name = some m ∧ s'.mode m = s.mode m) ∨
      ∃ p a, e = .act p a ∧ s.IsTempOf p d name m
  /-- Of what a call created there remain, when it returns, the levels of its path and
  temporary directories that another program put something into. -/
  noLitter : ∀ p exit, s.pc p = .returned exit → ∀ d name n, s.Owned p d name n →
    s.Placed (dirs p) d name ∨ s.Filled n
  complete : ∀ p, s.pc p = .returned .ok → ∀ c, c <:+ dirs p → s.resolve c ≠ none

theorem create_dir_all_open_race_free (hdirs : ∀ p, ∀ name ∈ dirs p, ¬ IsTempName name)
    (hs : (machine dirs).Reached s) : Promises dirs s := by
  have hinv := (create_inductive hdirs).reached hs
  refine ⟨fun p c hc n q hn hcreator => ?_, fun e s' hstep d name m hm => ?_,
    fun p exit hpc => ?_, fun p hpc c hc => ?_⟩
  · match c with
    | [] =>
        rw [← Option.some.inj hn, hinv.tree.root] at hcreator
        cases hcreator
    | name :: parent =>
        obtain ⟨d, -, hchild⟩ := Option.bind_eq_some_iff.mp hn
        have hname := not_isTempName_of_suffix (hdirs p) hc name List.mem_cons_self
        refine hinv.tree.writable d name n hchild ?_ hname
        rw [hcreator]
        exact Option.some_ne_none q
  · cases e with
    | act p a =>
        have hentry := entry_of_effect hinv (effect_of_act hstep) hm
        exact hentry.imp_right fun h => ⟨p, a, rfl, h⟩
    | create parent name' mode isDir => exact .inl (entry_of_create hinv.tree hstep hm)
  · have hknows := hinv.knows p
    rw [hpc] at hknows
    cases exit with
    | ok => exact hknows.1
    | err e => exact hknows
  · have hknows := hinv.knows p
    rw [hpc] at hknows
    exact (hknows.2.exist c hc).resolve_left List.not_mem_nil

theorem not_isTempName {name : String} (h : name.toList[6]? ≠ some '-') : ¬ IsTempName name := by
  rintro ⟨pid, nanos, seq, rfl⟩
  exact h (getElem?_tempName pid nanos seq)

/-- The root and nothing else. -/
def emptyTree : State where
  entries _ := []
  isDir n := n = 0
  mode _ := 0o755
  creator _ := none
  nodes := 1
  pc _ := .idle

theorem reached_emptyTree (dirs : ℕ → Path) : (machine dirs).Reached emptyTree :=
  .init ⟨Nat.one_pos, fun _ => rfl, fun _ _ => rfl, (fun _ _ _ h => nomatch h), fun _ => rfl⟩

/-- Two calls with one name for their temporary directories, which both find a path
missing; another program puts a file beside it. -/
def createRace : List Event :=
  [.act 0 .call, .act 1 .call, .act 0 (.probe false), .act 1 (.probe false), .act 0 (.probe true),
    .act 1 (.probe true), .act 0 (.mkdir 7 1 0 0o077), .act 1 (.mkdir 7 1 0 0o022),
    .act 1 (.mkdir 7 2 1 0o022), .create [] "b" 0o644 false, .act 1 .chmod, .act 0 .chmod,
    .act 1 .rename, .act 0 .rename, .act 0 .remove]

theorem create_dir_all_open_race_free_race :
    ∃ s, (machine fun _ => ["a"]).Reached s ∧ s.pc 0 = .returned .ok ∧ s.pc 1 = .returned .ok ∧
      Promises (fun _ => ["a"]) s := by
  obtain ⟨s, hrun, h0, h1⟩ : ∃ s, (machine fun _ => ["a"]).run emptyTree createRace = some s ∧
      s.pc 0 = .returned .ok ∧ s.pc 1 = .returned .ok := ⟨_, rfl, rfl, rfl⟩
  have hs := Machine.Reached.of_run (reached_emptyTree _) hrun
  have hdirs : ∀ p : ℕ, ∀ name ∈ (fun _ => ["a"] : ℕ → Path) p, ¬ IsTempName name := by
    intro p name hname
    rw [List.mem_singleton.mp hname]
    exact not_isTempName (by decide)
  exact ⟨s, hs, h0, h1, create_dir_all_open_race_free hdirs hs⟩

/-! ## Names that are taken for temporary ones -/

/-- A call whose path is its own temporary directory. -/
def reservedRun : List Event :=
  [.act 0 .call, .act 0 (.probe false), .act 0 (.probe true), .act 0 (.mkdir 7 1 0 0o022)]

/-- A call that loses the race, and another program that puts a file into its
temporary directory. -/
def litterRun : List Event :=
  [.act 0 .call, .act 0 (.probe false), .act 0 (.probe true), .act 0 (.mkdir 7 1 0 0o022),
    .act 0 .chmod, .create [] "a" 0o755 true, .act 0 .rename,
    .create [tempName 7 1 0] "file" 0o644 false, .act 0 (.fails 39)]

/-- With a path that has the name of a temporary directory in it, a call makes a
level appear at `0700`, and one that returns `Ok` can have removed its level.  A
temporary directory that another program put something into stays. -/
theorem create_dir_all_open_needs_reserved_names :
    (∃ s, (machine fun _ => [tempName 7 1 0]).Reached s ∧
      s.resolve [tempName 7 1 0] = some 1 ∧ s.creator 1 = some 0 ∧ s.mode 1 = 0o700) ∧
    (∃ s, (machine fun _ => [tempName 7 1 0]).Reached s ∧ s.pc 0 = .returned .ok ∧
      s.resolve [tempName 7 1 0] = none) ∧
    ∃ s, (machine fun _ => ["a"]).Reached s ∧ s.pc 0 = .returned (.err (.os 39)) ∧
      s.Owned 0 0 (tempName 7 1 0) 1 := by
  have hreached : ∀ {dirs : ℕ → Path} {events : List Event} {s : State},
      (machine dirs).run emptyTree events = some s → (machine dirs).Reached s :=
    fun hrun => Machine.Reached.of_run (reached_emptyTree _) hrun
  refine ⟨?_, ?_, ?_⟩
  · obtain ⟨s, hrun, h⟩ : ∃ s,
        (machine fun _ => [tempName 7 1 0]).run emptyTree reservedRun = some s ∧
        s.resolve [tempName 7 1 0] = some 1 ∧ s.creator 1 = some 0 ∧ s.mode 1 = 0o700 :=
      ⟨_, rfl, rfl, rfl, rfl⟩
    exact ⟨s, hreached hrun, h⟩
  · obtain ⟨s, hrun, h⟩ : ∃ s, (machine fun _ => [tempName 7 1 0]).run emptyTree
        (reservedRun ++ [.act 0 .chmod, .act 0 .rename, .act 0 .remove]) = some s ∧
        s.pc 0 = .returned .ok ∧ s.resolve [tempName 7 1 0] = none := ⟨_, rfl, rfl, rfl⟩
    exact ⟨s, hreached hrun, h⟩
  · obtain ⟨s, hrun, h⟩ : ∃ s, (machine fun _ => ["a"]).run emptyTree litterRun = some s ∧
        s.pc 0 = .returned (.err (.os 39)) ∧ s.Owned 0 0 (tempName 7 1 0) 1 :=
      ⟨_, rfl, rfl, rfl, rfl⟩
    exact ⟨s, hreached hrun, h⟩

end Skuld.DbDir
