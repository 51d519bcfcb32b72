import Mathlib.Logic.Relation
import Mathlib.Data.List.Perm.Basic
import Skuld.Lib.Bfs
import Skuld.Lib.Loop

/-!
# The nearest ancestor tags

A release check compares the workspace version with the nearest version tags
behind HEAD.  The walk goes breadth-first through the parents and stops at every
tagged commit.  What it returns are the tags that can be reached through
untagged commits, and these are the nearest ones unless some path leads around a
tag.
-/

namespace Skuld

abbrev ObjectId := ℕ

/-- `semver::Version`. -/
structure Version where
  major : UInt64
  minor : UInt64
  patch : UInt64
  pre : String
  build : String
  deriving DecidableEq

/-- A version tag's name, resolved commit, and parsed strict semver. -/
structure TagInfo where
  name : String
  sha : ObjectId
  version : Version
  deriving DecidableEq

/-- Where a tag leads to when it is peeled. -/
inductive Peeled where
  | peelFailed
  | notFound
  | notACommit
  | commit (id : ObjectId)
  deriving DecidableEq

structure TagReference where
  name : String
  target : Peeled
  deriving DecidableEq

inductive VersionError where
  | failedToListReferences
  | failedToIterateTagRefs
  | badTagReference
  | peelFailed
  | findObjectFailed
  deriving DecidableEq

/-- The parts of a repository that the walk reads: its tags, whose names differ,
its commits with their parents, and HEAD, if it leads anywhere. -/
structure Repository where
  tags : Except VersionError (List (Option TagReference))
  names_nodup : ∀ refs, tags = .ok refs → (refs.filterMap (·.map TagReference.name)).Nodup
  findCommit : ObjectId → Option (List ObjectId)
  commits : Finset ObjectId
  mem_commits : ∀ id, findCommit id ≠ none → id ∈ commits
  head : Option ObjectId

/-- The version tags of each commit that has any. -/
structure TagMap where
  get : ObjectId → Option (List TagInfo)
  nonempty : ∀ id tags, get id = some tags → tags ≠ []
  nodup : ∀ id tags, get id = some tags → tags.Nodup
  sha : ∀ id tags, get id = some tags → ∀ tag ∈ tags, tag.sha = id

/-! ## The tag map -/

/-- The version that a tag of this name stands for, if it is a version tag. -/
def tagVersion (parseVersion : String → Option Version) (name : String) : Option Version :=
  match name.toList with
  | 'v' :: s =>
      (parseVersion (String.ofList s)).filter fun version =>
        version.pre.isEmpty && version.build.isEmpty
  | _ => none

/-- `map.entry(sha).or_default().push(tag)`. -/
def pushTag (map : ObjectId → Option (List TagInfo)) (tag : TagInfo) :
    ObjectId → Option (List TagInfo) :=
  Function.update map tag.sha (some ((map tag.sha).getD [] ++ [tag]))

/-- The body of the loop over the tag references. -/
def addReference (parseVersion : String → Option Version) (map : ObjectId → Option (List TagInfo)) :
    Option TagReference → Except VersionError (ObjectId → Option (List TagInfo))
  | none => .error .badTagReference
  | some reference =>
      match tagVersion parseVersion reference.name with
      | none => .ok map
      | some version =>
          match reference.target with
          | .peelFailed => .error .peelFailed
          | .notFound => .error .findObjectFailed
          | .notACommit => .ok map
          | .commit sha => .ok (pushTag map { name := reference.name, sha, version })

/-- What holds of the map when the references of the given names have been read. -/
structure TagMapInv (names : List String) (map : ObjectId → Option (List TagInfo)) : Prop where
  nonempty : ∀ id tags, map id = some tags → tags ≠ []
  nodup : ∀ id tags, map id = some tags → tags.Nodup
  sha : ∀ id tags, map id = some tags → ∀ tag ∈ tags, tag.sha = id
  named : ∀ id tags, map id = some tags → ∀ tag ∈ tags, tag.name ∈ names

theorem TagMapInv.pushTag {names : List String} {map : ObjectId → Option (List TagInfo)}
    (h : TagMapInv names map) (tag : TagInfo) (hnew : tag.name ∉ names) :
    TagMapInv (names ++ [tag.name]) (pushTag map tag) := by
  -- the list of the tag's commit, before the push
  have hold {other : TagInfo} (hother : other ∈ (map tag.sha).getD []) :
      other.sha = tag.sha ∧ other.name ∈ names := by
    cases hget : map tag.sha with
    | none => simp [hget] at hother
    | some tags =>
        rw [hget, Option.getD_some] at hother
        exact ⟨h.sha _ _ hget _ hother, h.named _ _ hget _ hother⟩
  have hnodup : ((map tag.sha).getD []).Nodup := by
    cases hget : map tag.sha with
    | none => exact .nil
    | some tags => exact h.nodup _ _ hget
  have hcases {id : ObjectId} {tags : List TagInfo} (hget : Skuld.pushTag map tag id = some tags) :
      id = tag.sha ∧ tags = (map tag.sha).getD [] ++ [tag] ∨ map id = some tags := by
    rw [Skuld.pushTag, Function.update_apply] at hget
    split_ifs at hget with hid
    · exact .inl ⟨hid, (Option.some.inj hget).symm⟩
    · exact .inr hget
  refine ⟨fun id tags hget => ?_, fun id tags hget => ?_, fun id tags hget other hother => ?_,
    fun id tags hget other hother => ?_⟩
  all_goals rcases hcases hget with ⟨rfl, rfl⟩ | hget
  · simp
  · exact h.nonempty id tags hget
  · refine List.nodup_append.mpr ⟨hnodup, by simp, fun a ha b hb heq => hnew ?_⟩
    obtain rfl : b = tag := by simpa using hb
    exact heq ▸ (hold ha).2
  · exact h.nodup id tags hget
  · rcases List.mem_append.mp hother with hother | hother
    · exact (hold hother).1
    · rw [List.mem_singleton.mp hother]
  · exact h.sha id tags hget other hother
  · rcases List.mem_append.mp hother with hother | hother
    · exact List.mem_append_left _ (hold hother).2
    · exact List.mem_append_right _ (by rw [List.mem_singleton.mp hother]; simp)
  · exact List.mem_append_left _ (h.named id tags hget other hother)

variable {parseVersion : String → Option Version} {names : List String}
  {map map' : ObjectId → Option (List TagInfo)}

theorem TagMapInv.weaken {more : List String} (h : TagMapInv names map) (hsub : names ⊆ more) :
    TagMapInv more map :=
  ⟨h.nonempty, h.nodup, h.sha, fun id tags hget tag htag => hsub (h.named id tags hget tag htag)⟩

theorem TagMapInv.addReference (h : TagMapInv names map) {reference : TagReference}
    (hnew : reference.name ∉ names)
    (hadd : addReference parseVersion map (some reference) = .ok map') :
    TagMapInv (names ++ [reference.name]) map' := by
  have hkeep : TagMapInv (names ++ [reference.name]) map :=
    h.weaken (List.subset_append_left ..)
  rw [Skuld.addReference] at hadd
  cases hversion : tagVersion parseVersion reference.name with
  | none =>
      rw [hversion] at hadd
      exact Except.ok.inj hadd ▸ hkeep
  | some version =>
      rw [hversion] at hadd
      cases htarget : reference.target with
      | peelFailed => simp [htarget] at hadd
      | notFound => simp [htarget] at hadd
      | notACommit =>
          simp only [htarget] at hadd
          exact Except.ok.inj hadd ▸ hkeep
      | commit sha =>
          simp only [htarget] at hadd
          exact Except.ok.inj hadd ▸ h.pushTag { name := reference.name, sha, version } hnew

theorem TagMapInv.foldlM {references : List (Option TagReference)} (h : TagMapInv names map)
    (hnodup : (names ++ references.filterMap (·.map TagReference.name)).Nodup)
    (hfold : references.foldlM (Skuld.addReference parseVersion) map = .ok map') :
    TagMapInv (names ++ references.filterMap (·.map TagReference.name)) map' := by
  induction references generalizing names map with
  | nil =>
      rw [List.filterMap_nil, List.append_nil]
      exact Except.ok.inj hfold ▸ h
  | cons reference references ih =>
      rw [List.foldlM_cons] at hfold
      obtain ⟨middle, hadd, hrest⟩ := Loop.exists_of_bind_eq_ok hfold
      cases reference with
      | none => cases hadd
      | some reference =>
          have hsplit :
              names ++ (some reference :: references).filterMap (·.map TagReference.name) =
                (names ++ [reference.name]) ++ references.filterMap (·.map TagReference.name) := by
            simp
          rw [hsplit] at hnodup ⊢
          have hnew : reference.name ∉ names := by
            intro hmem
            have := (List.nodup_append.mp (List.nodup_append.mp hnodup).1).2.2
            exact this _ hmem _ (List.mem_singleton_self _) rfl
          exact ih (h.addReference hnew hadd) hnodup hrest

theorem TagMapInv.empty : TagMapInv [] fun _ => none where
  nonempty _ _ h := by cases h
  nodup _ _ h := by cases h
  sha _ _ h := by cases h
  named _ _ h := by cases h

/-- `build_tag_map`. -/
def buildTagMap (parseVersion : String → Option Version) (repo : Repository) :
    Except VersionError TagMap :=
  match hrefs : repo.tags with
  | .error e => .error e
  | .ok references =>
      match hmap : references.foldlM (addReference parseVersion) fun _ => none with
      | .error e => .error e
      | .ok get =>
          have h := TagMapInv.empty.foldlM (repo.names_nodup references hrefs) hmap
          .ok { get, nonempty := h.nonempty, nodup := h.nodup, sha := h.sha }

/-! ## The walk -/

/-- A tagged commit emits its tags; an untagged one leads to its parents, and an
object that is no commit leads nowhere. -/
def nearestSearch (repo : Repository) (tagMap : TagMap) : Bfs.Search ObjectId TagInfo where
  emit := tagMap.get
  succ id := (repo.findCommit id).getD []

/-- One round for each edge, one for HEAD and one to see that the queue is empty. -/
def walkFuel (repo : Repository) : ℕ :=
  ∑ id ∈ repo.commits, ((repo.findCommit id).getD []).length + 2

/-- The loop of `nearest_ancestor_version_tags`. -/
def nearestTags (repo : Repository) (tagMap : TagMap) (head : ObjectId) : Option (List TagInfo) :=
  (nearestSearch repo tagMap).search (walkFuel repo) head

def nearestAncestorVersionTags (parseVersion : String → Option Version) (repo : Repository) :
    Except VersionError (Option (List TagInfo)) := do
  let tagMap ← buildTagMap parseVersion repo
  match repo.head with
  | none => pure (some [])
  | some head => pure (nearestTags repo tagMap head)

/-! ## What the set should be -/

section

variable (repo : Repository) (tagMap : TagMap) (head : ObjectId)

def Repository.Parent (commit parent : ObjectId) : Prop :=
  ∃ parents, repo.findCommit commit = some parents ∧ parent ∈ parents

/-- The commit is HEAD or one of its ancestors. -/
def Repository.InHistory (commit : ObjectId) : Prop :=
  Relation.ReflTransGen repo.Parent head commit

/-- A tag in HEAD's history that no other tagged commit there has behind it. -/
def IsNearest (tag : TagInfo) : Prop :=
  ∃ commit tags, tagMap.get commit = some tags ∧ tag ∈ tags ∧ repo.InHistory head commit ∧
    ∀ other, other ≠ commit → tagMap.get other ≠ none → repo.InHistory head other →
      ¬ Relation.TransGen repo.Parent other commit

/-- Each commit has the same parents, maybe in another order. -/
def Repository.Reordered (other : Repository) : Prop :=
  ∀ id, Option.Rel List.Perm (repo.findCommit id) (other.findCommit id)

/-- The walk ends and returns the nearest tags, each of them once, and the same
set for any order of the parents. -/
def NearestTagSet : Prop :=
  ∃ found, nearestTags repo tagMap head = some found ∧ found.Nodup ∧
    (∀ tag, tag ∈ found ↔ IsNearest repo tagMap head tag) ∧
    ∀ other, repo.Reordered other →
      ∃ found', nearestTags other tagMap head = some found' ∧ found'.Perm found

/-- The walk comes to the commit: some path leads there from HEAD through
untagged commits. -/
def UntaggedPath (commit : ObjectId) : Prop :=
  Relation.ReflTransGen (fun x y => tagMap.get x = none ∧ repo.Parent x y) head commit

/-- No path leads around a tagged commit to one that is behind it. -/
def NoWayAround : Prop :=
  ∀ commit other, tagMap.get commit ≠ none → tagMap.get other ≠ none → other ≠ commit →
    UntaggedPath repo tagMap head commit → repo.InHistory head other →
      ¬ Relation.TransGen repo.Parent other commit

end

variable {repo : Repository} {tagMap : TagMap} {head commit : ObjectId}

/-! ## What the walk returns -/

/-- A run that gets past the tags is the walk over the map they make. -/
theorem exists_tagMap_of_run {result : Option (List TagInfo)} (hhead : repo.head = some head)
    (h : nearestAncestorVersionTags parseVersion repo = .ok result) :
    ∃ tagMap, buildTagMap parseVersion repo = .ok tagMap ∧
      nearestTags repo tagMap head = result := by
  rw [nearestAncestorVersionTags, hhead] at h
  cases hmap : buildTagMap parseVersion repo with
  | error e =>
      rw [hmap] at h
      cases h
  | ok tagMap =>
      rw [hmap] at h
      exact ⟨tagMap, rfl, Except.ok.inj h⟩

theorem mem_succ_iff {id parent : ObjectId} :
    parent ∈ (nearestSearch repo tagMap).succ id ↔ repo.Parent id parent := by
  change parent ∈ (repo.findCommit id).getD [] ↔ repo.Parent id parent
  cases hfind : repo.findCommit id with
  | none => simp [Repository.Parent, hfind]
  | some parents => simp [Repository.Parent, hfind]

theorem reaches_iff :
    (nearestSearch repo tagMap).Reaches head commit ↔ UntaggedPath repo tagMap head commit := by
  constructor
  · intro h
    induction h with
    | root => exact .refl
    | step _ hemit hy ih => exact ih.tail ⟨hemit, mem_succ_iff.mp hy⟩
  · intro h
    induction h with
    | refl => exact .root
    | tail _ hstep ih => exact .step ih hstep.1 (mem_succ_iff.mpr hstep.2)

/-- The tags of each commit are its own, so commits without repetition give tags
without repetition. -/
theorem output_nodup {order : List ObjectId} (horder : order.Nodup) :
    ((nearestSearch repo tagMap).output order).Nodup := by
  refine List.nodup_flatMap.mpr ⟨fun id _ => ?_, horder.imp fun {a b} hab => ?_⟩
  · cases hget : tagMap.get id with
    | none => simp [nearestSearch, hget]
    | some tags => simpa [nearestSearch, hget] using tagMap.nodup id tags hget
  · have hsha {id : ObjectId} {tag : TagInfo} (htag : tag ∈ (tagMap.get id).getD []) :
        tag.sha = id := by
      cases hget : tagMap.get id with
      | none => simp [hget] at htag
      | some tags =>
          rw [hget] at htag
          exact tagMap.sha id tags hget tag htag
    exact fun tag ha hb => hab ((hsha ha).symm.trans (hsha hb))

theorem nearestTags_spec (repo : Repository) (tagMap : TagMap) (head : ObjectId) :
    ∃ found, nearestTags repo tagMap head = some found ∧ found.Nodup ∧ ∀ tag, tag ∈ found ↔
      ∃ commit tags, tagMap.get commit = some tags ∧ tag ∈ tags ∧
        UntaggedPath repo tagMap head commit := by
  have hnodes (id : ObjectId) (hid : id ∉ repo.commits) :
      (nearestSearch repo tagMap).succ id = [] := by
    have hfind : repo.findCommit id = none := by
      by_contra hne
      exact hid (repo.mem_commits id hne)
    simp [nearestSearch, hfind]
  obtain ⟨order, hsearch, hnodup, hmem⟩ :=
    Bfs.Search.search_spec hnodes (Nat.lt_succ_self _) head
  refine ⟨_, hsearch, output_nodup hnodup, fun tag => ?_⟩
  rw [Bfs.Search.output, List.mem_flatMap]
  constructor
  · rintro ⟨commit, horder, htag⟩
    obtain ⟨hreaches, hsome⟩ := (hmem commit).mp horder
    obtain ⟨tags, hget⟩ := Option.isSome_iff_exists.mp hsome
    rw [hget] at htag
    exact ⟨commit, tags, hget, htag, reaches_iff.mp hreaches⟩
  · rintro ⟨commit, tags, hget, htag, hpath⟩
    have hemit : (nearestSearch repo tagMap).emit commit = some tags := hget
    refine ⟨commit, (hmem commit).mpr ⟨reaches_iff.mpr hpath, ?_⟩, ?_⟩
    · rw [hemit]
      rfl
    · rw [hemit]
      exact htag

theorem Repository.Reordered.parent_iff {other : Repository} (h : repo.Reordered other)
    {id parent : ObjectId} : other.Parent id parent ↔ repo.Parent id parent := by
  have hid := h id
  rw [Repository.Parent, Repository.Parent]
  generalize repo.findCommit id = parents, other.findCommit id = parents' at hid ⊢
  cases hid with
  | none => simp
  | some hperm => simp [hperm.mem_iff]

theorem Repository.Reordered.untaggedPath_iff {other : Repository} (h : repo.Reordered other) :
    UntaggedPath other tagMap head commit ↔ UntaggedPath repo tagMap head commit := by
  have hparent : other.Parent = repo.Parent := by
    funext id parent
    exact propext h.parent_iff
  rw [UntaggedPath, UntaggedPath, hparent]

/-- The set that the walk returns is the same for any order of the parents, also
where it is not the nearest set. -/
theorem nearestTags_reordered {other : Repository} (h : repo.Reordered other) {found : List TagInfo}
    (hfound : nearestTags repo tagMap head = some found) :
    ∃ found', nearestTags other tagMap head = some found' ∧ found'.Perm found := by
  obtain ⟨found₁, heq, hnodup, hmem⟩ := nearestTags_spec repo tagMap head
  obtain ⟨found', heq', hnodup', hmem'⟩ := nearestTags_spec other tagMap head
  obtain rfl := Option.some.inj (hfound.symm.trans heq)
  refine ⟨found', heq', (List.perm_ext_iff_of_nodup hnodup' hnodup).mpr fun tag => ?_⟩
  simp only [hmem, hmem', h.untaggedPath_iff]

/-! ## When the set is the nearest set -/

theorem UntaggedPath.inHistory (h : UntaggedPath repo tagMap head commit) :
    repo.InHistory head commit :=
  Relation.ReflTransGen.mono (fun _ _ hstep => hstep.2) _ _ h

/-- The path from HEAD to a nearest tag meets no tag on its way. -/
theorem untaggedPath_of_nearest (hhistory : repo.InHistory head commit)
    (hnearest : ∀ other, other ≠ commit → tagMap.get other ≠ none → repo.InHistory head other →
      ¬ Relation.TransGen repo.Parent other commit) : UntaggedPath repo tagMap head commit := by
  -- from HEAD on, with the part of the path that is behind
  suffices ∀ id, repo.InHistory head id → Relation.ReflTransGen repo.Parent id commit →
      UntaggedPath repo tagMap id commit from this head .refl hhistory
  intro id hid hpath
  induction hpath using Relation.ReflTransGen.head_induction_on with
  | refl => exact .refl
  | @head id next hstep hrest ih =>
      have hnext : UntaggedPath repo tagMap next commit := ih (hid.tail hstep)
      by_cases heq : id = commit
      · subst heq
        exact .refl
      · have huntagged : tagMap.get id = none := by
          by_contra htagged
          exact hnearest id heq htagged hid (.head' hstep hrest)
        exact hnext.head ⟨huntagged, hstep⟩

theorem nearest_tag_set_iff : NearestTagSet repo tagMap head ↔ NoWayAround repo tagMap head := by
  obtain ⟨found, hfound, hnodup, hmem⟩ := nearestTags_spec repo tagMap head
  constructor
  · rintro ⟨found', hfound', -, hnearest, -⟩ commit other hcommit hother hne hpath hhistory hbehind
    obtain rfl := Option.some.inj (hfound.symm.trans hfound')
    obtain ⟨tags, hget⟩ := Option.ne_none_iff_exists'.mp hcommit
    obtain ⟨tag, htag⟩ := List.exists_mem_of_ne_nil tags (tagMap.nonempty commit tags hget)
    obtain ⟨commit', tags', hget', htag', -, hno⟩ :=
      (hnearest tag).mp ((hmem tag).mpr ⟨commit, tags, hget, htag, hpath⟩)
    have hsame : commit' = commit := by
      rw [← tagMap.sha commit' tags' hget' tag htag', tagMap.sha commit tags hget tag htag]
    subst hsame
    exact hno other hne hother hhistory hbehind
  · intro hnone
    refine ⟨found, hfound, hnodup, fun tag => (hmem tag).trans ?_,
      fun other h => nearestTags_reordered h hfound⟩
    constructor
    · rintro ⟨commit, tags, hget, htag, hpath⟩
      have hcommit : tagMap.get commit ≠ none := by simp [hget]
      exact ⟨commit, tags, hget, htag, hpath.inHistory, fun other hne hother hhistory =>
        hnone commit other hcommit hother hne hpath hhistory⟩
    · rintro ⟨commit, tags, hget, htag, hhistory, hno⟩
      exact ⟨commit, tags, hget, htag, untaggedPath_of_nearest hhistory hno⟩

def oldRelease : TagInfo := { name := "v1.0.0", sha := 3, version := ⟨1, 0, 0, "", ""⟩ }

def newRelease : TagInfo := { name := "v1.1.0", sha := 1, version := ⟨1, 1, 0, "", ""⟩ }

def forkedVersion : String → Option Version
  | "1.0.0" => some oldRelease.version
  | "1.1.0" => some newRelease.version
  | _ => none

/-- HEAD merges the new release with a branch that left at the old one. -/
def forkedRepository : Repository where
  tags := .ok [some ⟨"v1.0.0", .commit 3⟩, some ⟨"v1.1.0", .commit 1⟩]
  names_nodup refs h := by
    cases h
    decide
  findCommit
    | 0 => some [1, 2]
    | 1 => some [3]
    | 2 => some [3]
    | 3 => some []
    | _ => none
  commits := {0, 1, 2, 3}
  mem_commits
    | 0, _ => by decide
    | 1, _ => by decide
    | 2, _ => by decide
    | 3, _ => by decide
    | _ + 4, h => absurd rfl h
  head := some 0

/-- The walk finds the old release too, around the new one. -/
theorem nearest_tag_set_forked :
    nearestAncestorVersionTags forkedVersion forkedRepository =
        .ok (some [newRelease, oldRelease]) ∧
      ∃ tagMap, buildTagMap forkedVersion forkedRepository = .ok tagMap ∧
        ¬ NearestTagSet forkedRepository tagMap 0 := by
  have hrun : nearestAncestorVersionTags forkedVersion forkedRepository =
      .ok (some [newRelease, oldRelease]) := by rfl
  obtain ⟨tagMap, hmap, hwalk⟩ := exists_tagMap_of_run rfl hrun
  refine ⟨hrun, tagMap, hmap, ?_⟩
  rintro ⟨found, hfound, -, hnearest, -⟩
  obtain rfl := Option.some.inj (hwalk.symm.trans hfound)
  obtain ⟨new, tags, hnew, htag, -⟩ := (hnearest newRelease).mp (by simp)
  obtain rfl : 1 = new := tagMap.sha new tags hnew newRelease htag
  obtain ⟨old, tags', hold, htag', -, hno⟩ := (hnearest oldRelease).mp (by simp)
  obtain rfl : 3 = old := tagMap.sha old tags' hold oldRelease htag'
  have htagged : tagMap.get 1 ≠ none := by simp [hnew]
  refine hno 1 (by decide) htagged (.single ?_) (.single ?_)
  · exact ⟨[1, 2], rfl, by simp⟩
  · exact ⟨[3], rfl, by simp⟩

end Skuld
