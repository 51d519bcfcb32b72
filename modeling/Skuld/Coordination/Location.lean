import Mathlib.Data.List.Infix
import Mathlib.Tactic.Common

/-!
# Where the database lies

Processes exclude each other only through one database file, so that all test binaries
of a build have to find the same one.  `SKULD_DB_DIR` names its directory; without it
the directory follows from the canonical path of the executable.

`layoutDir` goes up from where cargo puts executables to the profile directory, but only
with a mark of cargo: a hash in the name, or what cargo leaves in the directories
(`IsDbDir`).  What can go wrong is that two binaries of a profile go up differently.
`dbPaths_of_profile` excludes it: for executables with a hash, or in a profile with a
marker, the answer depends on the profile alone, also while the binary is being replaced,
and a process keeps the answer that it has got.
-/

namespace Skuld.Location

/-! ## Paths -/

/-- The name of a file, which need not be Unicode. -/
inductive FileName where
  | utf8 (s : String)
  | other (bytes : List UInt8)
  deriving DecidableEq

def FileName.toStr : FileName → Option String
  | .utf8 s => some s
  | .other _ => none

/-- A canonical path, innermost name first; the root is `[]`. -/
abbrev Path := List FileName

inductive Component where
  | normal (name : FileName)
  | parentDir
  deriving DecidableEq

/-- A path as it is written, innermost component first. -/
structure RawPath where
  absolute : Bool
  components : List Component
  deriving DecidableEq

namespace Path

def parent : Path → Option Path
  | [] => none
  | _ :: parent => some parent

def name (path : Path) : Option String :=
  path.head?.bind FileName.toStr

def raw (path : Path) : RawPath where
  absolute := true
  components := path.map .normal

end Path

namespace RawPath

def parent (path : RawPath) : Option RawPath :=
  match path.components with
  | [] => none
  | _ :: components => some { path with components }

def fileName (path : RawPath) : Option FileName :=
  match path.components with
  | .normal name :: _ => some name
  | _ => none

def join (path : RawPath) (name : FileName) : RawPath :=
  { path with components := .normal name :: path.components }

def hasNul (path : RawPath) : Bool :=
  path.components.any fun c =>
    match c with
    | .normal (.utf8 s) => '\x00' ∈ s.toList
    | .normal (.other bytes) => 0 ∈ bytes
    | .parentDir => false

end RawPath

/-! ## The operating system -/

inductive ErrorKind where
  | notFound
  | notADirectory
  | invalidInput
  | other
  deriving DecidableEq

structure IoError where
  kind : ErrorKind
  text : String
  deriving DecidableEq

/-- What the operating system answers. -/
structure Host where
  linux : Bool
  canonicalize : RawPath → Except IoError Path
  isDir : Path → Bool
  isFile : Path → Bool
  createDirAll : RawPath → Except IoError Unit
  /-- Whether there is a directory at the path, after `createDirAll`. -/
  metadata : RawPath → Except IoError Bool
  access : RawPath → Except IoError Unit

/-! ## The layout rules -/

/-- `strip_suffix` and `unwrap_or`. -/
def unwrapSuffix (suffix s : List Char) : List Char :=
  if suffix <:+ s then s.take (s.length - suffix.length) else s

/-- What follows the last `-`. -/
def afterLastDash : List Char → Option (List Char)
  | [] => none
  | c :: rest => (afterLastDash rest).or (if c = '-' then some rest else none)

def isHexDigit (c : Char) : Bool :=
  c.isDigit || ('a' ≤ c && c ≤ 'f') || ('A' ≤ c && c ≤ 'F')

def deletedSuffix : List Char := " (deleted)".toList

def exeSuffix : List Char := ".exe".toList

def isCargoHashed (exe : Path) : Bool :=
  match exe.name with
  | none => false
  | some name =>
      let stem := unwrapSuffix exeSuffix (unwrapSuffix deletedSuffix name.toList)
      -- with hexadecimal digits only there are as many bytes as characters
      (afterLastDash stem).any fun hash => hash.length = 16 && hash.all isHexDigit

def hasCargoMarker (host : Host) (profile : Path) : Bool :=
  host.isDir (.utf8 ".fingerprint" :: profile) ||
    profile.parent.any fun target => host.isFile (.utf8 "CACHEDIR.TAG" :: target)

def layoutDir (hasMarker : Path → Bool) (exe : Path) : Option Path :=
  exe.parent.map fun parent =>
    let stepUp (profile : Option Path) : Option Path :=
      profile.filter fun p => isCargoHashed exe || hasMarker p
    let profile :=
      if parent.name = some "deps" ∨ parent.name = some "examples" then
        stepUp parent.parent
      else if parent.name = some "out" then
        let build := ((parent.parent.bind Path.parent).bind Path.parent).filter fun b =>
          b.name = some "build"
        build.bind fun b => stepUp b.parent
      else
        none
    profile.getD parent

/-! ## The directory -/

/-- Directory and name of an executable whose name has the suffix of a replaced one. -/
def deletedExe (exe : RawPath) : Option (RawPath × FileName) := do
  let file ← exe.fileName
  let name ← file.toStr
  let parent ← exe.parent
  if deletedSuffix.isSuffixOf name.toList then some (parent, file) else none

def canonicalExe (host : Host) (exe : RawPath) : Except IoError Path :=
  match host.canonicalize exe with
  | .ok path => .ok path
  | .error e =>
      if e.kind = .notFound ∧ host.linux then
        match deletedExe exe with
        | some (parent, file) => (host.canonicalize parent).map fun dir => file :: dir
        | none => .error e
      else
        .error e

def checkUsable (host : Host) (dir : RawPath) : Except IoError Unit := do
  let isDir ← host.metadata dir
  if !isDir then
    throw ⟨.notADirectory, "not a directory"⟩
  if dir.hasNul then
    throw ⟨.invalidInput, "path contains a NUL byte"⟩
  host.access dir

def DB_DIR_ENV : String := "SKULD_DB_DIR"

inductive ResolveError where
  | relative (dir : RawPath)
  | currentExe (e : IoError)
  | canonicalize (exe : RawPath) (e : IoError)
  | noLayout (exe : Path)
  | unusable (dir : RawPath) (e : IoError)
  | create (dir : RawPath) (e : IoError)
  deriving DecidableEq

/-- `debug` prints a path in quotes. -/
def ResolveError.message (debug : RawPath → String) : ResolveError → String
  | .relative dir =>
      DB_DIR_ENV ++ " must be an absolute path, got " ++ debug dir ++
        " (a relative path would depend on the working directory)"
  | .currentExe e =>
      "cannot locate the coordination DB: current_exe() failed: " ++ e.text ++ "; set " ++
        DB_DIR_ENV ++ " to an absolute directory"
  | .canonicalize exe e =>
      "cannot canonicalize executable " ++ debug exe ++ ": " ++ e.text ++ "; set " ++
        DB_DIR_ENV ++ " to an absolute directory"
  | .noLayout exe =>
      "cannot derive the coordination DB directory from executable " ++ debug exe.raw ++
        "; set " ++ DB_DIR_ENV ++ " to an absolute directory"
  | .unusable dir e =>
      "coordination DB directory " ++ debug dir ++ " is unusable: " ++ e.text ++ "; set " ++
        DB_DIR_ENV ++ " to a writable absolute path"
  | .create dir e =>
      "cannot create coordination DB directory " ++ debug dir ++ " (from " ++ DB_DIR_ENV ++
        "): " ++ e.text

/-- The directory, and how its creation went. -/
def locate (host : Host) (overrideDir : Option RawPath) (exe : Except IoError RawPath) :
    Except ResolveError (RawPath × Except IoError Unit) :=
  match overrideDir with
  | some dir => if dir.absolute then .ok (dir, host.createDirAll dir) else .error (.relative dir)
  | none => do
      let exe ← exe.mapError .currentExe
      let exe ← (canonicalExe host exe).mapError (.canonicalize exe)
      match layoutDir (hasCargoMarker host) exe with
      | some dir => return (dir.raw, .ok ())
      | none => .error (.noLayout exe)

def resolve (host : Host) (overrideDir : Option RawPath) (exe : Except IoError RawPath) :
    Except ResolveError RawPath := do
  let (dir, created) ← locate host overrideDir exe
  (checkUsable host dir).mapError (.unusable dir)
  -- a failure to create is reported only where the check finds no better cause
  created.mapError (.create dir)
  return dir

/-! ## The path of the process -/

/-- What a call of `db_path` finds. -/
structure Surroundings where
  host : Host
  overrideDir : Option RawPath
  currentExe : Except IoError RawPath

/-- The answer and the cell afterwards; an error is the panic, which leaves the cell
empty. -/
def dbPath (cell : Option RawPath) (around : Surroundings) :
    Except ResolveError RawPath × Option RawPath :=
  match cell with
  | some path => (.ok path, some path)
  | none =>
      match resolve around.host around.overrideDir around.currentExe with
      | .ok dir => (.ok (dir.join (.utf8 ".skuld.db")), some (dir.join (.utf8 ".skuld.db")))
      | .error e => (.error e, none)

/-- The answers to the calls of a process, one after the other. -/
def dbPaths : Option RawPath → List Surroundings → List (Except ResolveError RawPath)
  | _, [] => []
  | cell, around :: rest => (dbPath cell around).1 :: dbPaths (dbPath cell around).2 rest

/-! ## The name of the executable -/

/-- The suffixes of Windows and of Linux. -/
def tails : List (List Char) :=
  [[], exeSuffix, deletedSuffix, exeSuffix ++ deletedSuffix]

/-- `name-<16 hex digits>`, possibly with suffixes. -/
def IsHashedName (name : String) : Prop :=
  ∃ stem hash tail, name.toList = stem ++ '-' :: hash ++ tail ∧ hash.length = 16 ∧
    (∀ c ∈ hash, isHexDigit c = true) ∧ tail ∈ tails

theorem unwrapSuffix_append (suffix s : List Char) : unwrapSuffix suffix (s ++ suffix) = s := by
  rw [unwrapSuffix, if_pos (List.suffix_append s suffix)]
  simp

theorem unwrapSuffix_of_not_suffix {suffix s : List Char} (h : ¬ suffix <:+ s) :
    unwrapSuffix suffix s = s :=
  if_neg h

/-- What is taken off comes back when it is put on again. -/
theorem unwrapSuffix_cases (suffix s : List Char) :
    unwrapSuffix suffix s = s ∨ s = unwrapSuffix suffix s ++ suffix := by
  by_cases h : suffix <:+ s
  · obtain ⟨rest, rfl⟩ := h
    exact .inr (by rw [unwrapSuffix_append])
  · exact .inl (unwrapSuffix_of_not_suffix h)

theorem afterLastDash_eq_none_iff {s : List Char} : afterLastDash s = none ↔ '-' ∉ s := by
  induction s with
  | nil => simp [afterLastDash]
  | cons c rest ih =>
      rw [afterLastDash, Option.or_eq_none_iff, ih, List.mem_cons, not_or]
      split_ifs with hc
      · simp [hc]
      · simp [hc, eq_comm]

theorem afterLastDash_eq_some_iff {s hash : List Char} :
    afterLastDash s = some hash ↔ '-' ∉ hash ∧ ∃ stem, s = stem ++ '-' :: hash := by
  induction s with
  | nil => simp [afterLastDash]
  | cons c rest ih =>
      rw [afterLastDash, Option.or_eq_some_iff, ih]
      constructor
      · rintro (⟨hhash, stem, rfl⟩ | ⟨hnone, hfirst⟩)
        · exact ⟨hhash, c :: stem, rfl⟩
        · split_ifs at hfirst with hc
          cases hfirst
          exact ⟨afterLastDash_eq_none_iff.mp hnone, [], by rw [hc, List.nil_append]⟩
      · intro ⟨hhash, stem, hs⟩
        cases stem with
        | nil =>
            cases hs
            exact .inr ⟨afterLastDash_eq_none_iff.mpr hhash, if_pos rfl⟩
        | cons d stem =>
            cases hs
            exact .inl ⟨hhash, stem, rfl⟩

theorem not_dash_of_hex {hash : List Char} (h : ∀ c ∈ hash, isHexDigit c = true) : '-' ∉ hash := by
  intro hmem
  have hdash := h '-' hmem
  revert hdash
  decide

/-- A name that ends in a hash has none of the suffixes. -/
theorem not_suffix_of_hash {suffix hash : List Char} (stem : List Char)
    (hlength : hash.length = 16) (hhex : ∀ c ∈ hash, isHexDigit c = true)
    (hsuffix : suffix = exeSuffix ∨ suffix = deletedSuffix) :
    ¬ suffix <:+ stem ++ '-' :: hash := by
  intro hmem
  have hshort : suffix.length ≤ hash.length := by
    rcases hsuffix with rfl | rfl <;> rw [hlength] <;> decide
  -- the suffix lies within the hash, and starts with what is no digit
  have hwithin : suffix <:+ hash := by
    refine List.suffix_of_suffix_length_le hmem ?_ hshort
    exact (List.suffix_cons _ _).trans (List.suffix_append _ _)
  have hfirst : ∃ c ∈ suffix, isHexDigit c = false := by
    rcases hsuffix with rfl | rfl
    · exact ⟨'.', by decide, by decide⟩
    · exact ⟨' ', by decide, by decide⟩
  obtain ⟨c, hc, hfalse⟩ := hfirst
  rw [hhex c (hwithin.subset hc)] at hfalse
  cases hfalse

theorem exists_tail (s : List Char) :
    ∃ tail ∈ tails, s = unwrapSuffix exeSuffix (unwrapSuffix deletedSuffix s) ++ tail := by
  have hdeleted := unwrapSuffix_cases deletedSuffix s
  have hexe := unwrapSuffix_cases exeSuffix (unwrapSuffix deletedSuffix s)
  rcases hdeleted with hs | hs <;> rcases hexe with hu | hu
  · exact ⟨[], by simp [tails], by rw [List.append_nil, hu, hs]⟩
  · exact ⟨exeSuffix, by simp [tails], by rw [← hu, hs]⟩
  · exact ⟨deletedSuffix, by simp [tails], by rw [hu, ← hs]⟩
  · exact ⟨exeSuffix ++ deletedSuffix, by simp [tails], by rw [← List.append_assoc, ← hu, ← hs]⟩

theorem unwrap_tail {s tail : List Char} (hexe : ¬ exeSuffix <:+ s)
    (hdeleted : ¬ deletedSuffix <:+ s) (htail : tail ∈ tails) :
    unwrapSuffix exeSuffix (unwrapSuffix deletedSuffix (s ++ tail)) = s := by
  have hmixed : ¬ deletedSuffix <:+ s ++ exeSuffix := by
    intro hmem
    have hwithin : exeSuffix <:+ deletedSuffix :=
      List.suffix_of_suffix_length_le (List.suffix_append s exeSuffix) hmem (by decide)
    revert hwithin
    decide
  simp only [tails, List.mem_cons, List.not_mem_nil, or_false] at htail
  rcases htail with rfl | rfl | rfl | rfl
  · rw [List.append_nil, unwrapSuffix_of_not_suffix hdeleted, unwrapSuffix_of_not_suffix hexe]
  · rw [unwrapSuffix_of_not_suffix hmixed, unwrapSuffix_append]
  · rw [unwrapSuffix_append, unwrapSuffix_of_not_suffix hexe]
  · rw [← List.append_assoc, unwrapSuffix_append, unwrapSuffix_append]

theorem isCargoHashed_iff {exe : Path} :
    isCargoHashed exe = true ↔ ∃ name, exe.name = some name ∧ IsHashedName name := by
  unfold isCargoHashed
  cases exe.name with
  | none => simp
  | some name =>
      simp only [Option.any_eq_true, Bool.and_eq_true, decide_eq_true_eq, List.all_eq_true,
        Option.some.injEq, exists_eq_left', afterLastDash_eq_some_iff]
      constructor
      · intro ⟨hash, ⟨_, stem, hstem⟩, hlength, hhex⟩
        obtain ⟨tail, htail, hname⟩ := exists_tail name.toList
        exact ⟨stem, hash, tail, hstem ▸ hname, hlength, hhex, htail⟩
      · intro ⟨stem, hash, tail, hname, hlength, hhex, htail⟩
        have hstem : unwrapSuffix exeSuffix (unwrapSuffix deletedSuffix name.toList) =
            stem ++ '-' :: hash := by
          rw [hname]
          exact unwrap_tail (not_suffix_of_hash stem hlength hhex (.inl rfl))
            (not_suffix_of_hash stem hlength hhex (.inr rfl)) htail
        exact ⟨hash, ⟨not_dash_of_hex hhex, stem, hstem⟩, hlength, hhex⟩

/-! ## The layout -/

/-- Where cargo puts the executables of a profile. -/
inductive InProfile (profile : Path) : Path → Prop
  | deps (exe : FileName) : InProfile profile (exe :: .utf8 "deps" :: profile)
  | examples (exe : FileName) : InProfile profile (exe :: .utf8 "examples" :: profile)
  | out (exe hash package : FileName) :
      InProfile profile (exe :: .utf8 "out" :: hash :: package :: .utf8 "build" :: profile)

/-- The marks of cargo. -/
def Marked (host : Host) (profile exe : Path) : Prop :=
  (∃ name, exe.name = some name ∧ IsHashedName name) ∨ hasCargoMarker host profile = true

/-- The profile directory of a marked executable, otherwise the executable's own. -/
def IsDbDir (host : Host) (exe dir : Path) : Prop :=
  (InProfile dir exe ∧ Marked host dir exe) ∨
    ((∀ profile, InProfile profile exe → ¬ Marked host profile exe) ∧ ∃ name, exe = name :: dir)

theorem Path.name_eq_some_iff {path : Path} {s : String} :
    path.name = some s ↔ ∃ parent, path = .utf8 s :: parent := by
  cases path with
  | nil => simp [Path.name]
  | cons n parent => cases n <;> simp [Path.name, FileName.toStr]

/-- The profile that the two rules look at. -/
def candidate (parent : Path) : Option Path :=
  if parent.name = some "deps" ∨ parent.name = some "examples" then
    parent.parent
  else if parent.name = some "out" then
    (((parent.parent.bind Path.parent).bind Path.parent).filter fun b =>
      b.name = some "build").bind Path.parent
  else
    none

theorem layoutDir_cons (hasMarker : Path → Bool) (name : FileName) (parent : Path) :
    layoutDir hasMarker (name :: parent) =
      some (((candidate parent).filter fun p => isCargoHashed (name :: parent) || hasMarker p).getD
        parent) := by
  have hparent : Path.parent (name :: parent) = some parent := rfl
  simp only [layoutDir, hparent, Option.map_some, candidate]
  split_ifs
  · rfl
  · generalize Option.filter _ (Option.bind _ Path.parent) = build
    cases build <;> rfl
  · rfl

theorem candidate_eq_some_iff (name : FileName) {parent profile : Path} :
    candidate parent = some profile ↔ InProfile profile (name :: parent) := by
  unfold candidate
  constructor
  · intro h
    split_ifs at h with hdeps hout
    · rcases hdeps with hdeps | hdeps
      all_goals
        obtain ⟨rest, rfl⟩ := Path.name_eq_some_iff.mp hdeps
        cases h
      · exact .deps name
      · exact .examples name
    · obtain ⟨rest, rfl⟩ := Path.name_eq_some_iff.mp hout
      obtain ⟨build, hbuild, hprofile⟩ := Option.bind_eq_some_iff.mp h
      obtain ⟨hpath, hname⟩ := Option.filter_eq_some_iff.mp hbuild
      obtain ⟨rest', rfl⟩ := Path.name_eq_some_iff.mp (of_decide_eq_true hname)
      cases hprofile
      match rest, hpath with
      | hash :: package :: _, hpath =>
          cases hpath
          exact .out name hash package
  · intro h
    cases h <;> rfl

theorem InProfile.unique {profile profile' exe : Path} (h : InProfile profile exe)
    (h' : InProfile profile' exe) : profile = profile' := by
  cases exe with
  | nil => cases h
  | cons name parent =>
      exact Option.some.inj (((candidate_eq_some_iff name).mpr h).symm.trans
        ((candidate_eq_some_iff name).mpr h'))

theorem marked_iff {host : Host} {profile exe : Path} :
    Marked host profile exe ↔ (isCargoHashed exe || hasCargoMarker host profile) = true := by
  rw [Bool.or_eq_true, isCargoHashed_iff, Marked]

theorem layoutDir_eq_some_iff {host : Host} {exe dir : Path} :
    layoutDir (hasCargoMarker host) exe = some dir ↔ IsDbDir host exe dir := by
  cases exe with
  | nil =>
      constructor
      · exact fun h => by cases h
      · rintro (⟨h, -⟩ | ⟨-, name, h⟩) <;> cases h
  | cons name parent =>
      rw [layoutDir_cons, Option.some.injEq]
      by_cases hmarked : ∃ profile, InProfile profile (name :: parent) ∧
          Marked host profile (name :: parent)
      · obtain ⟨profile, hin, hmark⟩ := hmarked
        rw [(candidate_eq_some_iff name).mpr hin, Option.filter_some, if_pos (marked_iff.mp hmark)]
        constructor
        · rintro rfl
          exact .inl ⟨hin, hmark⟩
        · rintro (⟨hin', -⟩ | ⟨hnone, -⟩)
          · exact hin.unique hin'
          · exact absurd hmark (hnone profile hin)
      · have hnone : ((candidate parent).filter fun p =>
            isCargoHashed (name :: parent) || hasCargoMarker host p) = none := by
          refine Option.filter_eq_none_iff.mpr fun profile hprofile hmark => hmarked ?_
          exact ⟨profile, (candidate_eq_some_iff name).mp hprofile, marked_iff.mpr hmark⟩
        rw [hnone, Option.getD_none]
        constructor
        · rintro rfl
          exact .inr ⟨fun profile hin hmark => hmarked ⟨profile, hin, hmark⟩, name, rfl⟩
        · rintro (⟨hin, hmark⟩ | ⟨-, name', h⟩)
          · exact absurd ⟨dir, hin, hmark⟩ hmarked
          · cases h
            rfl

theorem layoutDir_eq_none_iff {host : Host} {exe : Path} :
    layoutDir (hasCargoMarker host) exe = none ↔ exe = [] := by
  cases exe with
  | nil => simp [layoutDir, Path.parent]
  | cons name parent => simp [layoutDir_cons]

/-! ## The canonical executable -/

/-- The canonical path of an executable.  Linux adds a suffix to that of a binary that has
been replaced, whose directory is still there. -/
inductive IsExe (host : Host) (exe : RawPath) : Path → Prop
  | found {path : Path} (h : host.canonicalize exe = .ok path) : IsExe host exe path
  | replaced {name : String} {components : List Component} {dir : Path} {e : IoError}
      (hlinux : host.linux = true) (he : host.canonicalize exe = .error e)
      (hkind : e.kind = .notFound) (hname : exe.components = .normal (.utf8 name) :: components)
      (hdeleted : deletedSuffix <:+ name.toList)
      (hdir : host.canonicalize { exe with components } = .ok dir) :
      IsExe host exe (.utf8 name :: dir)

theorem deletedExe_eq_some_iff {exe parent : RawPath} {file : FileName} :
    deletedExe exe = some (parent, file) ↔ ∃ name components,
      exe.components = .normal (.utf8 name) :: components ∧ deletedSuffix <:+ name.toList ∧
        parent = { exe with components } ∧ file = .utf8 name := by
  obtain ⟨absolute, components⟩ := exe
  match components with
  | .normal (.utf8 name) :: rest =>
      have heq : deletedExe ⟨absolute, .normal (.utf8 name) :: rest⟩ =
          if deletedSuffix.isSuffixOf name.toList then some (⟨absolute, rest⟩, .utf8 name)
          else none := rfl
      rw [heq]
      constructor
      · intro h
        split_ifs at h with hsuffix
        cases h
        exact ⟨name, rest, rfl, List.isSuffixOf_iff_suffix.mp hsuffix, rfl, rfl⟩
      · rintro ⟨name', rest', hname, hsuffix, rfl, rfl⟩
        cases hname
        exact if_pos (List.isSuffixOf_iff_suffix.mpr hsuffix)
  | [] => simp [deletedExe, RawPath.fileName]
  | .parentDir :: rest => simp [deletedExe, RawPath.fileName]
  | .normal (.other bytes) :: rest => simp [deletedExe, RawPath.fileName, FileName.toStr]

theorem canonicalExe_eq_ok_iff {host : Host} {exe : RawPath} {path : Path} :
    canonicalExe host exe = .ok path ↔ IsExe host exe path := by
  constructor
  · intro h
    unfold canonicalExe at h
    split at h
    · next hcanonical =>
        cases h
        exact .found hcanonical
    · next e hcanonical =>
        split_ifs at h with hkind
        cases hdeleted : deletedExe exe with
        | none => simp [hdeleted] at h
        | some found =>
            obtain ⟨parent, file⟩ := found
            obtain ⟨name, components, hname, hsuffix, rfl, rfl⟩ :=
              deletedExe_eq_some_iff.mp hdeleted
            simp only [hdeleted] at h
            cases hdir : host.canonicalize { exe with components } with
            | error e' => simp [hdir, Except.map] at h
            | ok dir =>
                simp only [hdir, Except.map, Except.ok.injEq] at h
                subst h
                exact .replaced hkind.2 hcanonical hkind.1 hname hsuffix hdir
  · intro h
    cases h with
    | found h => rw [canonicalExe, h]
    | replaced hlinux he hkind hname hdeleted hdir =>
        have hfound := deletedExe_eq_some_iff.mpr ⟨_, _, hname, hdeleted, rfl, rfl⟩
        simp [canonicalExe, he, hkind, hlinux, hfound, hdir, Except.map]

/-! ## The directory -/

def NamesVariable (s : String) : Prop :=
  DB_DIR_ENV.toList <:+: s.toList

theorem namesVariable_append (a : String) : NamesVariable (a ++ DB_DIR_ENV) := by
  rw [NamesVariable, String.toList_append]
  exact (List.suffix_append _ _).isInfix

theorem NamesVariable.append {a : String} (h : NamesVariable a) (b : String) :
    NamesVariable (a ++ b) := by
  rw [NamesVariable, String.toList_append]
  exact h.trans (List.prefix_append _ _).isInfix

theorem namesVariable_message (debug : RawPath → String) (e : ResolveError) :
    NamesVariable (e.message debug) := by
  have hself : NamesVariable DB_DIR_ENV := List.infix_rfl
  cases e with
  | relative dir => exact ((hself.append _).append _).append _
  | create dir e => exact ((namesVariable_append _).append _).append _
  | currentExe | canonicalize | noLayout | unusable => exact (namesVariable_append _).append _

/-- Where the database directory is to be, and how its creation went. -/
def IsLocated (host : Host) (overrideDir : Option RawPath) (exe : Except IoError RawPath)
    (dir : RawPath) (created : Except IoError Unit) : Prop :=
  (overrideDir = some dir ∧ dir.absolute = true ∧ created = host.createDirAll dir) ∨
    (overrideDir = none ∧ created = .ok () ∧ ∃ raw path d, exe = .ok raw ∧
      IsExe host raw path ∧ IsDbDir host path d ∧ dir = d.raw)

/-- What an answer of `resolve` stands for. -/
def Resolved (host : Host) (overrideDir : Option RawPath) (exe : Except IoError RawPath) :
    Except ResolveError RawPath → Prop
  | .ok dir => IsLocated host overrideDir exe dir (.ok ()) ∧ checkUsable host dir = .ok ()
  | .error (.relative dir) => overrideDir = some dir ∧ dir.absolute = false
  | .error (.currentExe e) => overrideDir = none ∧ exe = .error e
  | .error (.canonicalize raw _) =>
      overrideDir = none ∧ exe = .ok raw ∧ ∀ path, ¬ IsExe host raw path
  | .error (.noLayout path) =>
      overrideDir = none ∧ path = [] ∧ ∃ raw, exe = .ok raw ∧ IsExe host raw path
  | .error (.unusable dir e) =>
      (∃ created, IsLocated host overrideDir exe dir created) ∧ checkUsable host dir = .error e
  | .error (.create dir e) =>
      IsLocated host overrideDir exe dir (.error e) ∧ checkUsable host dir = .ok ()

theorem locate_cases (host : Host) (overrideDir : Option RawPath) (exe : Except IoError RawPath) :
    (∃ dir created, locate host overrideDir exe = .ok (dir, created) ∧
        IsLocated host overrideDir exe dir created) ∨
      ∃ e, locate host overrideDir exe = .error e ∧ Resolved host overrideDir exe (.error e) := by
  unfold locate
  cases overrideDir with
  | some dir =>
      simp only
      split_ifs with habsolute
      · exact .inl ⟨dir, _, rfl, .inl ⟨rfl, habsolute, rfl⟩⟩
      · exact .inr ⟨_, rfl, rfl, by simpa using habsolute⟩
  | none =>
      cases exe with
      | error e => exact .inr ⟨_, rfl, rfl, rfl⟩
      | ok raw =>
          cases hcanonical : canonicalExe host raw with
          | error e =>
              refine .inr ⟨.canonicalize raw e, ?_, rfl, rfl, fun path hpath => ?_⟩
              · simp [Except.mapError, hcanonical, bind, Except.bind]
              · cases hcanonical.symm.trans (canonicalExe_eq_ok_iff.mpr hpath)
          | ok path =>
              have hexe := canonicalExe_eq_ok_iff.mp hcanonical
              cases hlayout : layoutDir (hasCargoMarker host) path with
              | none =>
                  have hroot := layoutDir_eq_none_iff.mp hlayout
                  refine .inr ⟨.noLayout path, ?_, rfl, hroot, raw, rfl, hexe⟩
                  simp [Except.mapError, hcanonical, hlayout, bind, Except.bind]
              | some d =>
                  have hdir := layoutDir_eq_some_iff.mp hlayout
                  refine .inl ⟨d.raw, .ok (), ?_, .inr ⟨rfl, rfl, raw, path, d, rfl, hexe, hdir,
                    rfl⟩⟩
                  simp [Except.mapError, hcanonical, hlayout, bind, Except.bind, pure, Except.pure]

theorem resolve_of_locate {host : Host} {overrideDir : Option RawPath}
    {exe : Except IoError RawPath} {dir : RawPath} {created : Except IoError Unit}
    (h : locate host overrideDir exe = .ok (dir, created)) :
    resolve host overrideDir exe =
      (checkUsable host dir).mapError (ResolveError.unusable dir) >>= fun _ =>
        (created.mapError (ResolveError.create dir)).map fun _ => dir := by
  rw [resolve, h]
  cases created <;> rfl

/-- The answer is a usable directory, either the one of `SKULD_DB_DIR` or the one that the
layout gives; every failure has its cause and names the variable. -/
theorem resolve_spec (debug : RawPath → String) (host : Host) (overrideDir : Option RawPath)
    (exe : Except IoError RawPath) :
    Resolved host overrideDir exe (resolve host overrideDir exe) ∧
      ∀ e, resolve host overrideDir exe = .error e → NamesVariable (e.message debug) := by
  refine ⟨?_, fun e _ => namesVariable_message debug e⟩
  rcases locate_cases host overrideDir exe with ⟨dir, created, hlocate, hlocated⟩ | ⟨e, he, hcause⟩
  · rw [resolve_of_locate hlocate]
    cases husable : checkUsable host dir with
    | error e => exact ⟨⟨created, hlocated⟩, husable⟩
    | ok u =>
        cases created with
        | error e => exact ⟨hlocated, husable⟩
        | ok u' => exact ⟨hlocated, husable⟩
  · rw [resolve, he]
    exact hcause

/-! ## One database for a profile -/

/-- A process of a marked executable of the profile, without `SKULD_DB_DIR`. -/
def Surroundings.OfProfile (around : Surroundings) (profile : Path) : Prop :=
  around.overrideDir = none ∧ ∃ raw path, around.currentExe = .ok raw ∧
    IsExe around.host raw path ∧ InProfile profile path ∧ Marked around.host profile path

theorem resolve_of_profile {around : Surroundings} {profile : Path}
    (h : around.OfProfile profile) :
    resolve around.host around.overrideDir around.currentExe =
      (checkUsable around.host profile.raw).mapError (ResolveError.unusable profile.raw) >>=
        fun _ => .ok profile.raw := by
  obtain ⟨hnone, raw, path, hraw, hexe, hin, hmark⟩ := h
  have hlayout := layoutDir_eq_some_iff.mpr (.inl ⟨hin, hmark⟩)
  have hlocate : locate around.host around.overrideDir around.currentExe =
      .ok (profile.raw, .ok ()) := by
    simp [locate, hnone, hraw, Except.mapError, canonicalExe_eq_ok_iff.mpr hexe, hlayout, bind,
      Except.bind, pure, Except.pure]
  rw [resolve_of_locate hlocate]
  rfl

/-- A process keeps its answer, whatever its surroundings become. -/
theorem dbPaths_some (path : RawPath) (calls : List Surroundings) :
    dbPaths (some path) calls = List.replicate calls.length (.ok path) := by
  induction calls with
  | nil => rfl
  | cons around rest ih => exact congrArg _ ih

/-- Whichever marked executable of the profile the process runs, also one that has been
replaced, its first call panics because of the profile directory, or all its calls give
the same path in it. -/
theorem dbPaths_of_profile {first : Surroundings} {profile : Path} (h : first.OfProfile profile)
    (rest : List Surroundings) :
    (checkUsable first.host profile.raw = .ok () ∧ dbPaths none (first :: rest) =
      List.replicate (rest.length + 1) (.ok (profile.raw.join (.utf8 ".skuld.db")))) ∨
    ∃ e, checkUsable first.host profile.raw = .error e ∧ dbPaths none (first :: rest) =
      .error (.unusable profile.raw e) :: dbPaths none rest := by
  have hresolve := resolve_of_profile h
  cases husable : checkUsable first.host profile.raw with
  | ok u =>
      rw [husable] at hresolve
      have hcall : dbPath none first = (.ok (profile.raw.join (.utf8 ".skuld.db")),
          some (profile.raw.join (.utf8 ".skuld.db"))) := by
        simp [dbPath, hresolve, Except.mapError, bind, Except.bind]
      refine .inl ⟨rfl, ?_⟩
      rw [dbPaths, hcall, dbPaths_some]
      rfl
  | error e =>
      rw [husable] at hresolve
      have hcall : dbPath none first = (.error (.unusable profile.raw e), none) := by
        simp [dbPath, hresolve, Except.mapError, bind, Except.bind]
      exact .inr ⟨e, rfl, by rw [dbPaths, hcall]⟩

/-- `/w/debug` on Linux, where a test binary has been replaced. -/
def rebuiltHost : Host where
  linux := true
  canonicalize path :=
    if path = ⟨true, [.normal (.utf8 "deps"), .normal (.utf8 "debug"), .normal (.utf8 "w")]⟩ then
      .ok [.utf8 "deps", .utf8 "debug", .utf8 "w"]
    else
      .error ⟨.notFound, "No such file or directory"⟩
  isDir _ := false
  isFile _ := false
  createDirAll _ := .ok ()
  metadata _ := .ok true
  access _ := .ok ()

def rebuiltTest : Surroundings where
  host := rebuiltHost
  overrideDir := none
  currentExe := .ok ⟨true, [.normal (.utf8 "t-0123456789abcdef (deleted)"), .normal (.utf8 "deps"),
    .normal (.utf8 "debug"), .normal (.utf8 "w")]⟩

/-- The path stays when a test sets `SKULD_DB_DIR`. -/
theorem dbPaths_of_profile_rebuilt :
    dbPaths none [rebuiltTest, { rebuiltTest with overrideDir := some ⟨true, []⟩ }] =
      List.replicate 2 (.ok (Path.raw [.utf8 ".skuld.db", .utf8 "debug", .utf8 "w"])) := by
  have hhashed : IsHashedName "t-0123456789abcdef (deleted)" :=
    ⟨"t".toList, "0123456789abcdef".toList, deletedSuffix, rfl, rfl,
      List.all_eq_true.mp rfl, by simp [tails]⟩
  have hprofile : rebuiltTest.OfProfile [.utf8 "debug", .utf8 "w"] :=
    ⟨rfl, _, _, rfl, .replaced rfl rfl rfl rfl ⟨"t-0123456789abcdef".toList, rfl⟩ rfl, .deps _,
      .inl ⟨_, rfl, hhashed⟩⟩
  rcases dbPaths_of_profile hprofile [{ rebuiltTest with overrideDir := some ⟨true, []⟩ }] with
    ⟨-, h⟩ | ⟨e, h, -⟩
  · exact h
  · cases h

end Skuld.Location
