import Skuld.CargoSkuld.Groups
import Skuld.Lib.Delimited

/-!
# The names of the groups

A group is named after a hash of its members, every binary id and every name with
a NUL behind it.  What the bytes determine are the members cut at every NUL
(`memberBytes_eq_iff`), so that two groups share a name when a NUL inside a name
shifts the boundaries, and then `build_groups` panics: it does so for exactly
the lists with two such groups (`groups_named_apart_iff`).

Unlike in `Groups`, the list of tests may have the same key twice, so that the
components are those of the indices.
-/

namespace Skuld

open BoolExpr

/-- The binary ids and names of the members, cut at every NUL. -/
def memberPieces (members : List TestKey) : List (List Char) :=
  Delimited.pieces '\x00' <| members.flatMap fun member =>
    [(ofLex member).1.toList, (ofLex member).2.toList]

/-! ## What the bytes determine -/

/-- The text that the bytes encode. -/
def memberText (members : List TestKey) : List Char :=
  Delimited.terminated '\x00' <| members.flatMap fun member =>
    [(ofLex member).1.toList, (ofLex member).2.toList]

theorem memberBytes_eq (members : List TestKey) :
    memberBytes members = (String.ofList (memberText members)).toUTF8.data.toList := by
  induction members with
  | nil => rfl
  | cons member members ih =>
      have htext : String.ofList (memberText (member :: members)) =
          (ofLex member).1 ++ "\x00" ++ ((ofLex member).2 ++ "\x00") ++
            String.ofList (memberText members) := by
        rw [← String.toList_inj]
        simp [memberText, Delimited.terminated]
      rw [memberBytes, List.flatMap_cons, ← memberBytes, ih, htext]
      simp only [String.toUTF8_eq_toByteArray, String.toByteArray_append, ByteArray.data_append,
        Array.toList_append]
      rfl

/-- The bytes determine the pieces and nothing more. -/
theorem memberBytes_eq_iff {xs ys : List TestKey} :
    memberBytes xs = memberBytes ys ↔ memberPieces xs = memberPieces ys := by
  rw [memberPieces, memberPieces, ← Delimited.terminated_inj, memberBytes_eq, memberBytes_eq]
  change _ ↔ memberText xs = memberText ys
  constructor
  · intro h
    have hbytes := String.toByteArray_inj.mp (ByteArray.ext (Array.toList_inj.mp h))
    simpa using congrArg String.toList hbytes
  · intro h
    rw [h]

/-- Members without a NUL are determined. -/
theorem eq_of_memberPieces {xs ys : List TestKey}
    (hxs : ∀ member ∈ xs, '\x00' ∉ (ofLex member).1.toList ∧ '\x00' ∉ (ofLex member).2.toList)
    (hys : ∀ member ∈ ys, '\x00' ∉ (ofLex member).1.toList ∧ '\x00' ∉ (ofLex member).2.toList)
    (h : memberPieces xs = memberPieces ys) : xs = ys := by
  have hpieces : ∀ members : List TestKey,
      (∀ member ∈ members, '\x00' ∉ (ofLex member).1.toList ∧ '\x00' ∉ (ofLex member).2.toList) →
      memberPieces members = members.flatMap fun member =>
        [(ofLex member).1.toList, (ofLex member).2.toList] := by
    intro members hmembers
    refine Delimited.pieces_eq_self fun text htext => ?_
    obtain ⟨member, hmember, htext⟩ := List.mem_flatMap.mp htext
    rcases List.mem_pair.mp htext with rfl | rfl
    exacts [(hmembers member hmember).1, (hmembers member hmember).2]
  rw [hpieces xs hxs, hpieces ys hys] at h
  clear hxs hys hpieces
  induction xs generalizing ys with
  | nil =>
      cases ys with
      | nil => rfl
      | cons y ys => simp at h
  | cons x xs ih =>
      cases ys with
      | nil => simp at h
      | cons y ys =>
          simp only [List.flatMap_cons, List.cons_append, List.nil_append, List.cons.injEq,
            String.toList_inj] at h
          have hxy : x = y := ofLex.injective (Prod.ext h.1 h.2.1)
          rw [hxy, ih h.2.2]

/-! ## The components of the indices -/

section

variable (B : Bdd String) (tests : List TestMetadata)

/-- Connected by conflicts, directly or through others. -/
def TestsConnected : Fin tests.length → Fin tests.length → Prop :=
  Relation.EqvGen fun i j => conflicts B (tests.get i) (tests.get j) = some true

open Classical in
noncomputable def component (i : Fin tests.length) : List (Fin tests.length) :=
  (List.finRange tests.length).filter fun j => TestsConnected B tests j i

/-- The sorted members of a component with more than one test. -/
def IsGroupMembers (members : List TestKey) : Prop :=
  ∃ i, 1 < (component B tests i).length ∧ members = sortedMembers tests (component B tests i)

/-- No two groups have the same pieces. -/
def PiecesApart : Prop :=
  ∀ xs ys, IsGroupMembers B tests xs → IsGroupMembers B tests ys →
    memberPieces xs = memberPieces ys → xs = ys

variable (U : UnionFind) (blake3Hex : List UInt8 → String)

/-- The prefix of the hash tells apart what is hashed here. -/
def PrefixCollisionFree : Prop :=
  ∀ xs ys, IsGroupMembers B tests xs → IsGroupMembers B tests ys →
    groupName blake3Hex xs = groupName blake3Hex ys → memberBytes xs = memberBytes ys

/-- The names tell the groups apart: the bytes that are hashed do, the names do,
and the map ends up with all of them. -/
structure NamedApart : Prop where
  bytes : ∀ xs ys, IsGroupMembers B tests xs → IsGroupMembers B tests ys →
    memberBytes xs = memberBytes ys → xs = ys
  names : ∀ xs ys, IsGroupMembers B tests xs → IsGroupMembers B tests ys →
    groupName blake3Hex xs = groupName blake3Hex ys → xs = ys
  build : ∃ groups, buildGroups B U blake3Hex tests = some groups ∧
    ∀ g, g ∈ groups ↔ IsGroupMembers B tests g.members ∧ g.name = groupName blake3Hex g.members

end

variable {B : Bdd String} {tests : List TestMetadata} {U : UnionFind}
  {blake3Hex : List UInt8 → String}

theorem eqvGen_conflictPairs (hserial : ∀ t ∈ tests, IsSerial B t.serialFilter)
    {i j : Fin tests.length} :
    Relation.EqvGen (fun a b => (a, b) ∈ conflictPairs B tests) i j ↔
      TestsConnected B tests i j := by
  constructor
  · refine UnionFind.eqvGen_le (Relation.EqvGen.is_equivalence _) fun a b hab => ?_
    exact .rel _ _ (mem_conflictPairs.mp hab).2
  · refine UnionFind.eqvGen_le (Relation.EqvGen.is_equivalence _) fun a b hab => ?_
    rcases lt_trichotomy a b with hlt | heq | hlt
    · exact .rel _ _ (mem_conflictPairs.mpr ⟨hlt, hab⟩)
    · exact heq ▸ .refl a
    · refine .symm _ _ (.rel _ _ (mem_conflictPairs.mpr ⟨hlt, ?_⟩))
      rw [conflicts_comm (serial_getElem hserial b) (serial_getElem hserial a)]
      exact hab

/-- The lists that the loop goes over are the components. -/
theorem isGroupMembers_iff (U : UnionFind) (hserial : ∀ t ∈ tests, IsSerial B t.serialFilter)
    {members : List TestKey} :
    IsGroupMembers B tests members ↔
      ∃ indices ∈ largeComponents (U.find (U.unions (U.new _) (conflictPairs B tests))),
        members = sortedMembers tests indices := by
  have hclass : ∀ i, component B tests i =
      classOf (U.find (U.unions (U.new _) (conflictPairs B tests))) i := fun i => by
    unfold component classOf
    apply List.filter_congr
    intro j _
    rw [Bool.eq_iff_iff]
    simp only [decide_eq_true_eq]
    rw [U.find_unions, eqvGen_conflictPairs hserial]
  unfold IsGroupMembers
  simp only [mem_largeComponents_iff, hclass]
  constructor
  · rintro ⟨i, hlength, hmembers⟩
    exact ⟨_, ⟨i, rfl, hlength⟩, hmembers⟩
  · rintro ⟨_, ⟨i, rfl, hlength⟩, hmembers⟩
    exact ⟨i, hlength, hmembers⟩

/-! ## The map -/

/-- What the loop has put into the map stays there. -/
theorem getElem?_of_foldlM_insertGroup {list : List (List (Fin tests.length))}
    {byName byName' : Std.TreeMap String (List TestKey)}
    (h : list.foldlM (insertGroup blake3Hex tests) byName = some byName') :
    (∀ (name : String) members, byName[name]? = some members →
        byName'[name]? = some members) ∧
      ∀ indices ∈ list, byName'[groupName blake3Hex (sortedMembers tests indices)]? =
        some (sortedMembers tests indices) := by
  induction list generalizing byName with
  | nil =>
      cases h
      exact ⟨fun _ _ h => h, by simp⟩
  | cons indices list ih =>
      rw [List.foldlM_cons] at h
      obtain ⟨middle, hinsert, hfold⟩ := Option.bind_eq_some_iff.mp h
      obtain ⟨hsame, rfl⟩ := insertGroup_eq_some_iff.mp hinsert
      obtain ⟨hkeep, hlist⟩ := ih hfold
      refine ⟨fun name members hget => hkeep _ _ (getElem?_insert_group.mpr ?_), ?_⟩
      · split_ifs with heq
        · subst heq
          exact (hsame _ hget).symm
        · exact hget
      · intro indices' hindices'
        rcases List.mem_cons.mp hindices' with rfl | hindices'
        · exact hkeep _ _ (getElem?_insert_group.mpr (by rw [if_pos rfl]))
        · exact hlist indices' hindices'

theorem buildGroups_eq_some_iff (hserial : ∀ t ∈ tests, IsSerial B t.serialFilter)
    {groups : List TestGroup} :
    buildGroups B U blake3Hex tests = some groups ↔
      ∃ byName, (largeComponents (U.find (U.unions (U.new _) (conflictPairs B tests)))).foldlM
          (insertGroup blake3Hex tests) ∅ = some byName ∧
        groups = byName.toList.map fun p => ⟨p.1, p.2⟩ := by
  rw [buildGroups, uniteConflicts_eq hserial]
  simp only [Option.bind_eq_bind, Option.bind_some, Option.bind_eq_some_iff, Option.pure_def,
    Option.some.injEq]
  refine exists_congr fun byName => and_congr_right fun _ => ?_
  exact eq_comm

/-- If the map takes all groups, their names tell them apart. -/
theorem names_apart_of_buildGroups (hserial : ∀ t ∈ tests, IsSerial B t.serialFilter)
    {groups : List TestGroup} (h : buildGroups B U blake3Hex tests = some groups)
    {xs ys : List TestKey} (hxs : IsGroupMembers B tests xs) (hys : IsGroupMembers B tests ys)
    (hname : groupName blake3Hex xs = groupName blake3Hex ys) : xs = ys := by
  obtain ⟨byName, hfold, -⟩ := (buildGroups_eq_some_iff hserial).mp h
  obtain ⟨-, hbound⟩ := getElem?_of_foldlM_insertGroup hfold
  obtain ⟨indices, hindices, rfl⟩ := (isGroupMembers_iff U hserial).mp hxs
  obtain ⟨indices', hindices', rfl⟩ := (isGroupMembers_iff U hserial).mp hys
  have hget := hbound indices hindices
  rw [hname, hbound indices' hindices', Option.some.injEq] at hget
  exact hget.symm

/-- If the names tell the groups apart, the map takes all of them. -/
theorem buildGroups_of_names_apart (hserial : ∀ t ∈ tests, IsSerial B t.serialFilter)
    (hapart : ∀ xs ys, IsGroupMembers B tests xs → IsGroupMembers B tests ys →
      groupName blake3Hex xs = groupName blake3Hex ys → xs = ys) :
    ∃ groups, buildGroups B U blake3Hex tests = some groups ∧
      ∀ g, g ∈ groups ↔
        IsGroupMembers B tests g.members ∧ g.name = groupName blake3Hex g.members := by
  obtain ⟨byName, hfold, hspec⟩ := foldlM_insertGroup hapart
    (largeComponents (U.find (U.unions (U.new _) (conflictPairs B tests))))
    (fun indices hindices => (isGroupMembers_iff U hserial).mpr ⟨indices, hindices, rfl⟩)
    ∅ (fun name members hget => by simp at hget)
  refine ⟨_, (buildGroups_eq_some_iff hserial).mpr ⟨byName, hfold, rfl⟩, fun g => ?_⟩
  have hentry : g ∈ byName.toList.map (fun p => (⟨p.1, p.2⟩ : TestGroup)) ↔
      byName[g.name]? = some g.members := by
    rw [List.mem_map]
    constructor
    · rintro ⟨⟨name, members⟩, hmem, rfl⟩
      exact Std.TreeMap.mem_toList_iff_getElem?_eq_some.mp hmem
    · intro hget
      exact ⟨(g.name, g.members), Std.TreeMap.mem_toList_iff_getElem?_eq_some.mpr hget, rfl⟩
  rw [hentry, hspec, isGroupMembers_iff U hserial]
  constructor
  · rintro (hget | ⟨indices, hindices, hmembers, hname⟩)
    · simp at hget
    · exact ⟨⟨indices, hindices, hmembers⟩, hname⟩
  · rintro ⟨⟨indices, hindices, hmembers⟩, hname⟩
    exact .inr ⟨indices, hindices, hmembers, hname⟩

theorem isMembers_of_isGroupMembers (h : Groupable B blake3Hex tests) {members : List TestKey}
    (hmembers : IsGroupMembers B tests members) : IsMembers B tests members := by
  obtain ⟨indices, hindices, rfl⟩ := (isGroupMembers_iff .naive h.serial).mp hmembers
  obtain ⟨i, rfl, hlength⟩ := mem_largeComponents_iff.mp hindices
  exact h.isMembers_classOf hlength

/-- Without a NUL in any binary id or name no two groups clash. -/
theorem piecesApart_of_no_nul
    (h : ∀ t ∈ tests, '\x00' ∉ t.binaryId.toList ∧ '\x00' ∉ t.name.toList) :
    PiecesApart B tests := by
  have hmembers : ∀ members, IsGroupMembers B tests members → ∀ member ∈ members,
      '\x00' ∉ (ofLex member).1.toList ∧ '\x00' ∉ (ofLex member).2.toList := by
    rintro _ ⟨i, -, rfl⟩ member hmember
    obtain ⟨j, -, rfl⟩ := mem_sortedMembers.mp hmember
    exact h tests[j] (List.getElem_mem j.isLt)
  exact fun xs ys hxs hys => eq_of_memberPieces (hmembers xs hxs) (hmembers ys hys)

/-- The groups have names of their own, and `build_groups` does not panic, if and
only if no two groups have the same binary ids and names, cut at every NUL. -/
theorem groups_named_apart_iff (U : UnionFind)
    (hserial : ∀ t ∈ tests, IsSerial B t.serialFilter)
    (hcollision : PrefixCollisionFree B tests blake3Hex) :
    (NamedApart B tests U blake3Hex ↔ PiecesApart B tests) ∧
      (buildGroups B U blake3Hex tests = none ↔ ¬ PiecesApart B tests) := by
  have hnames : PiecesApart B tests → ∀ xs ys, IsGroupMembers B tests xs →
      IsGroupMembers B tests ys → groupName blake3Hex xs = groupName blake3Hex ys → xs = ys :=
    fun hpieces xs ys hxs hys hname =>
      hpieces xs ys hxs hys (memberBytes_eq_iff.mp (hcollision xs ys hxs hys hname))
  constructor
  · constructor
    · intro h xs ys hxs hys heq
      exact h.bytes xs ys hxs hys (memberBytes_eq_iff.mpr heq)
    · intro hpieces
      refine ⟨fun xs ys hxs hys hbytes => ?_, hnames hpieces,
        buildGroups_of_names_apart hserial (hnames hpieces)⟩
      exact hpieces xs ys hxs hys (memberBytes_eq_iff.mp hbytes)
  · constructor
    · intro hpanic hpieces
      obtain ⟨groups, hbuild, -⟩ := buildGroups_of_names_apart (U := U) hserial (hnames hpieces)
      exact Option.some_ne_none groups (hbuild.symm.trans hpanic)
    · intro hclash
      refine Option.eq_none_iff_forall_ne_some.mpr fun groups hbuild => hclash ?_
      intro xs ys hxs hys heq
      have hbytes : memberBytes xs = memberBytes ys := memberBytes_eq_iff.mpr heq
      refine names_apart_of_buildGroups hserial hbuild hxs hys ?_
      unfold groupName
      rw [hbytes]

/-- Two groups of two tests each, with the same pieces. -/
def nulTests : List TestMetadata :=
  [⟨"app", "b", ["disk"], ""⟩, ⟨"app", "d\x00app\x00f", [], "disk"⟩,
   ⟨"app", "b\x00app\x00d", ["net"], ""⟩, ⟨"app", "f", [], "net"⟩]

theorem isSerial_nulTests : ∀ t ∈ nulTests, IsSerial (shannon String) t.serialFilter := by
  have hdisk : parseRawLabelExpr "disk" = .ok (.terminal "disk") :=
    parseRawLabelExpr_of_isLabelName (by decide)
  have hnet : parseRawLabelExpr "net" = .ok (.terminal "net") :=
    parseRawLabelExpr_of_isLabelName (by decide)
  intro t ht
  simp only [nulTests, List.mem_cons, List.not_mem_nil, or_false] at ht
  rcases ht with rfl | rfl | rfl | rfl
  · exact .inl rfl
  · exact .inr (.inr ⟨_, LabelFilter.parse_of_raw hdisk⟩)
  · exact .inl rfl
  · exact .inr (.inr ⟨_, LabelFilter.parse_of_raw hnet⟩)

/-- Both groups are there, with the same bytes, and no hash can help. -/
theorem buildGroups_panics :
    (∀ t ∈ nulTests, IsSerial (shannon String) t.serialFilter) ∧
      (∃ xs ys, IsGroupMembers (shannon String) nulTests xs ∧
        IsGroupMembers (shannon String) nulTests ys ∧ xs ≠ ys ∧
        memberBytes xs = memberBytes ys) ∧
      ∀ U blake3Hex, buildGroups (shannon String) U blake3Hex nulTests = none := by
  have hdisk : IsGroupMembers (shannon String) nulTests
      [toLex ("app", "b"), toLex ("app", "d\x00app\x00f")] :=
    (isGroupMembers_iff .naive isSerial_nulTests).mpr
      ⟨[⟨0, by decide⟩, ⟨1, by decide⟩], by decide +kernel, by decide +kernel⟩
  have hnet : IsGroupMembers (shannon String) nulTests
      [toLex ("app", "b\x00app\x00d"), toLex ("app", "f")] :=
    (isGroupMembers_iff .naive isSerial_nulTests).mpr
      ⟨[⟨2, by decide⟩, ⟨3, by decide⟩], by decide +kernel, by decide +kernel⟩
  have hne : [toLex ("app", "b"), toLex ("app", "d\x00app\x00f")] ≠
      [toLex ("app", "b\x00app\x00d"), toLex ("app", "f")] := by decide
  have hbytes : memberBytes [toLex ("app", "b"), toLex ("app", "d\x00app\x00f")] =
      memberBytes [toLex ("app", "b\x00app\x00d"), toLex ("app", "f")] := by decide +kernel
  refine ⟨isSerial_nulTests, ⟨_, _, hdisk, hnet, hne, hbytes⟩, fun U blake3Hex => ?_⟩
  refine Option.eq_none_iff_forall_ne_some.mpr fun groups hbuild => hne ?_
  refine names_apart_of_buildGroups isSerial_nulTests hbuild hdisk hnet ?_
  unfold groupName
  rw [hbytes]

theorem groups_named_apart_iff_sample :
    NamedApart (shannon String) sampleTests .naive sampleBlake3 := by
  have hcollision : PrefixCollisionFree (shannon String) sampleTests sampleBlake3 :=
    fun xs ys hxs hys hname => congrArg memberBytes
      (groupable_sampleTests.names_apart xs ys
        (isMembers_of_isGroupMembers groupable_sampleTests hxs)
        (isMembers_of_isGroupMembers groupable_sampleTests hys) hname)
  obtain ⟨hiff, -⟩ := groups_named_apart_iff .naive groupable_sampleTests.serial hcollision
  exact hiff.mpr (piecesApart_of_no_nul (by decide))

end Skuld
