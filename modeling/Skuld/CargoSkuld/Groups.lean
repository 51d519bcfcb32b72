import Mathlib.Combinatorics.SimpleGraph.Connectivity.Connected
import Mathlib.Data.Prod.Lex
import Std.Data.TreeMap.Lemmas
import Skuld.CargoSkuld.Graph
import Skuld.Lib.UnionFind

/-!
# Test groups

`build_groups` turns the conflicts between the dumped tests into nextest groups:
tests that conflict, directly or through others, share a group of one thread.
The loop runs over indices and the numbering of the components depends on it;
`IsGroups` says what the result is without either, as the connected components
of the conflict graph, and determines it.

petgraph's union-find and the hash of the group names are parameters.  Of the
hash only this is used, that it tells the groups of these tests apart.
-/

namespace Skuld

open BoolExpr

/-- `(binary_id, name)`, in the order of Rust's tuples. -/
abbrev TestKey := String ×ₗ String

def TestMetadata.key (t : TestMetadata) : TestKey :=
  toLex (t.binaryId, t.name)

structure TestGroup where
  name : String
  members : List TestKey
  deriving DecidableEq

section

/-- The bytes that are hashed: every string with a NUL after it. -/
def memberBytes (members : List TestKey) : List UInt8 :=
  members.flatMap fun member =>
    (ofLex member).1.toUTF8.data.toList ++ [0] ++ ((ofLex member).2.toUTF8.data.toList ++ [0])

variable (B : Bdd String) (U : UnionFind) (blake3Hex : List UInt8 → String)

/-- `blake3Hex` is the digest in hexadecimal digits. -/
def groupName (members : List TestKey) : String :=
  "@tool:skuld:skuld_group_" ++ String.ofList ((blake3Hex (memberBytes members)).toList.take 16)

variable (tests : List TestMetadata)

/-- The union loop over the pairs of indices; `none` is a panic of `conflicts`. -/
def uniteConflicts : Option (U.State tests.length) :=
  (List.finRange tests.length).foldlM
    (fun uf i => ((List.finRange tests.length).filter (i < ·)).foldlM
      (fun uf j => (conflicts B tests[i] tests[j]).map fun conflict =>
        if conflict then U.union uf i j else uf) uf)
    (U.new tests.length)

/-- The indices of the tests under their representatives. -/
def components {n : ℕ} (find : Fin n → Fin n) : Std.TreeMap (Fin n) (List (Fin n)) :=
  (List.finRange n).foldl
    (fun components i => components.alter (find i) fun indices => some (indices.getD [] ++ [i])) ∅

/-- The components with more than one index, by representative. -/
def largeComponents {n : ℕ} (find : Fin n → Fin n) : List (List (Fin n)) :=
  ((components find).toList.map Prod.snd).filter fun indices => 1 < indices.length

def sortedMembers (indices : List (Fin tests.length)) : List TestKey :=
  (indices.map fun i => tests[i].key).insertionSort (· ≤ ·)

/-- `none` is the assertion that one name is not bound to two lists. -/
def insertGroup (byName : Std.TreeMap String (List TestKey)) (indices : List (Fin tests.length)) :
    Option (Std.TreeMap String (List TestKey)) :=
  let members := sortedMembers tests indices
  let name := groupName blake3Hex members
  match byName[name]? with
  | none => some (byName.insert name members)
  | some existing => if existing = members then some (byName.insert name members) else none

def buildGroups : Option (List TestGroup) := do
  let uf ← uniteConflicts B U tests
  let byName ← (largeComponents (U.find uf)).foldlM (insertGroup blake3Hex tests) ∅
  return byName.toList.map fun (name, members) => { name, members }

end

/-! ## What the groups are -/

section

variable (B : Bdd String) (blake3Hex : List UInt8 → String) (tests : List TestMetadata)

/-- The tests of the list, with an edge where two of them conflict. -/
def conflictGraph : SimpleGraph TestMetadata :=
  SimpleGraph.fromRel fun a b => a ∈ tests ∧ b ∈ tests ∧ conflicts B a b = some true

/-- The keys of a set of tests in increasing order. -/
structure IsKeysOf (members : List TestKey) (S : Set TestMetadata) : Prop where
  sorted : members.Pairwise (· < ·)
  mem_iff : ∀ k, k ∈ members ↔ ∃ t ∈ S, t.key = k

/-- The members are those of a connected component with more than one test. -/
structure IsGroup (g : TestGroup) : Prop where
  name_eq : g.name = groupName blake3Hex g.members
  component : ∃ C : (conflictGraph B tests).ConnectedComponent,
    C.supp.Nontrivial ∧ IsKeysOf g.members C.supp

/-- All groups, in the order of their names. -/
structure IsGroups (groups : List TestGroup) : Prop where
  sorted : groups.Pairwise fun g g' => g.name < g'.name
  mem_iff : ∀ g, g ∈ groups ↔ IsGroup B blake3Hex tests g

/-- The members of a group. -/
def IsMembers (members : List TestKey) : Prop :=
  ∃ C : (conflictGraph B tests).ConnectedComponent, C.supp.Nontrivial ∧ IsKeysOf members C.supp

/-- `collect_metadata` has parsed the filters, no test is there twice, and the names of
different groups differ. -/
structure Groupable : Prop where
  serial : ∀ t ∈ tests, IsSerial B t.serialFilter
  keys_nodup : (tests.map TestMetadata.key).Nodup
  names_apart : ∀ xs ys, IsMembers B tests xs → IsMembers B tests ys →
    groupName blake3Hex xs = groupName blake3Hex ys → xs = ys

end

variable {B : Bdd String} {U : UnionFind} {blake3Hex : List UInt8 → String}
  {tests : List TestMetadata}

theorem conflictGraph_adj {a b : TestMetadata} (hserial : ∀ t ∈ tests, IsSerial B t.serialFilter) :
    (conflictGraph B tests).Adj a b ↔
      a ≠ b ∧ a ∈ tests ∧ b ∈ tests ∧ conflicts B a b = some true := by
  rw [conflictGraph, SimpleGraph.fromRel_adj]
  refine and_congr_right fun _ => ⟨?_, .inl⟩
  rintro (h | ⟨hb, ha, hconflict⟩)
  · exact h
  · exact ⟨ha, hb, (conflicts_comm (hserial a ha) (hserial b hb)).trans hconflict⟩

/-! ## The union loop -/

/-- The pairs that the loop unites. -/
def conflictPairs (B : Bdd String) (tests : List TestMetadata) :
    List (Fin tests.length × Fin tests.length) :=
  (List.finRange tests.length).flatMap fun i =>
    (((List.finRange tests.length).filter (i < ·)).filter fun j =>
      conflicts B tests[i] tests[j] = some true).map fun j => (i, j)

theorem mem_conflictPairs {i j : Fin tests.length} :
    (i, j) ∈ conflictPairs B tests ↔ i < j ∧ conflicts B tests[i] tests[j] = some true := by
  simp [conflictPairs, and_comm]

theorem serial_getElem (hserial : ∀ t ∈ tests, IsSerial B t.serialFilter)
    (i : Fin tests.length) : IsSerial B tests[i].serialFilter :=
  hserial _ (List.getElem_mem i.isLt)

theorem uniteConflicts_eq (hserial : ∀ t ∈ tests, IsSerial B t.serialFilter) :
    uniteConflicts B U tests = some (U.unions (U.new tests.length) (conflictPairs B tests)) := by
  have hconflicts : ∀ i j : Fin tests.length, conflicts B tests[i] tests[j] =
      some (decide (conflicts B tests[i] tests[j] = some true)) := by
    intro i j
    rw [conflicts_eq (serial_getElem hserial i) (serial_getElem hserial j)]
    simp
  rw [uniteConflicts, Loop.foldlM_eq_some (f := fun uf i =>
    ((List.finRange tests.length).filter (i < ·)).foldl (fun uf j =>
      if decide (conflicts B tests[i] tests[j] = some true) then U.union uf i j else uf) uf)]
  · rw [UnionFind.unions, conflictPairs, List.foldl_flatMap]
    simp only [List.foldl_map, List.foldl_filter]
  · intro uf i _
    apply Loop.foldlM_eq_some
    intro uf j _
    exact congrArg _ (hconflicts i j)

/-- No test occurs twice. -/
theorem getElem_inj (hnodup : (tests.map TestMetadata.key).Nodup) {i j : Fin tests.length}
    (h : tests[i].key = tests[j].key) : i = j := by
  have hinj := List.nodup_iff_injective_getElem.mp hnodup
  refine Fin.ext ?_
  have := @hinj ⟨i, by simp⟩ ⟨j, by simp⟩ (by simpa using h)
  simpa using this

/-- The pairs generate reachability in the conflict graph. -/
theorem eqvGen_conflictPairs_iff (hserial : ∀ t ∈ tests, IsSerial B t.serialFilter)
    (hnodup : (tests.map TestMetadata.key).Nodup) {i j : Fin tests.length} :
    Relation.EqvGen (fun a b => (a, b) ∈ conflictPairs B tests) i j ↔
      (conflictGraph B tests).Reachable tests[i] tests[j] := by
  constructor
  · refine UnionFind.eqvGen_le (s := fun i j => (conflictGraph B tests).Reachable tests[i] tests[j])
      ⟨fun _ => .rfl, SimpleGraph.Reachable.symm, SimpleGraph.Reachable.trans⟩ fun a b hab => ?_
    obtain ⟨hlt, hconflict⟩ := mem_conflictPairs.mp hab
    refine SimpleGraph.Adj.reachable ((conflictGraph_adj hserial).mpr
      ⟨fun heq => ?_, List.getElem_mem _, List.getElem_mem _, hconflict⟩)
    exact hlt.ne (getElem_inj hnodup (congrArg _ heq))
  · intro hreach
    rw [SimpleGraph.reachable_iff_reflTransGen] at hreach
    -- every test on the way is in the list
    suffices h : ∀ t, Relation.ReflTransGen (conflictGraph B tests).Adj tests[i] t →
        ∀ k : Fin tests.length, tests[k] = t →
          Relation.EqvGen (fun a b => (a, b) ∈ conflictPairs B tests) i k from h _ hreach j rfl
    intro t ht
    induction ht with
    | refl =>
        intro k hk
        exact getElem_inj hnodup (congrArg _ hk) ▸ .refl _
    | @tail b c _ hadj ih =>
        intro k hk
        obtain ⟨hne, hb, -, hconflict⟩ := (conflictGraph_adj hserial).mp hadj
        obtain ⟨m, hm, rfl⟩ := List.getElem_of_mem hb
        subst hk
        refine .trans _ _ _ (ih ⟨m, hm⟩ rfl) ?_
        have hmk : (⟨m, hm⟩ : Fin tests.length) ≠ k := by
          rintro rfl
          exact hne rfl
        rcases lt_or_gt_of_ne hmk with hlt | hlt
        · exact .rel _ _ (mem_conflictPairs.mpr ⟨hlt, hconflict⟩)
        · refine .symm _ _ (.rel _ _ (mem_conflictPairs.mpr ⟨hlt, ?_⟩))
          exact (conflicts_comm (serial_getElem hserial k) (hserial _ hb)).trans hconflict

/-! ## The components -/

theorem getElem?_components {n : ℕ} (find : Fin n → Fin n) (k : Fin n) (indices : List (Fin n)) :
    (components find)[k]? = some indices ↔
      indices = (List.finRange n).filter (fun i => find i = k) ∧ indices ≠ [] := by
  -- what the loop has pushed onto the vectors so far
  have hloop : ∀ (l : List (Fin n)) (m : Std.TreeMap (Fin n) (List (Fin n))),
      (l.foldl (fun m i => m.alter (find i) fun is => some (is.getD [] ++ [i])) m)[k]? =
        if l.filter (fun i => find i = k) = [] then m[k]?
        else some (m[k]?.getD [] ++ l.filter fun i => find i = k) := by
    intro l
    induction l with
    | nil => exact fun m => rfl
    | cons i l ih =>
        intro m
        rw [List.foldl_cons, ih, Std.TreeMap.getElem?_alter]
        by_cases hi : find i = k
        · by_cases hl : l.filter (fun i => find i = k) = [] <;> simp [hi, hl]
        · simp [hi]
  have hempty : (∅ : Std.TreeMap (Fin n) (List (Fin n)))[k]? = none := by simp
  rw [components, hloop, hempty]
  split_ifs with h
  · simp [h]
  · constructor
    · rintro heq
      rw [Option.some.injEq] at heq
      subst heq
      exact ⟨by simp, by simpa using h⟩
    · rintro ⟨rfl, -⟩
      simp

theorem mem_largeComponents {n : ℕ} {find : Fin n → Fin n} {indices : List (Fin n)} :
    indices ∈ largeComponents find ↔
      (∃ k, indices = (List.finRange n).filter fun i => find i = k) ∧ 1 < indices.length := by
  rw [largeComponents, List.mem_filter, decide_eq_true_eq]
  refine and_congr_left fun hlength => ?_
  rw [List.mem_map]
  constructor
  · rintro ⟨⟨k, _⟩, hmem, rfl⟩
    rw [Std.TreeMap.mem_toList_iff_getElem?_eq_some] at hmem
    exact ⟨k, ((getElem?_components find k _).mp hmem).1⟩
  · rintro ⟨k, rfl⟩
    refine ⟨(k, _), Std.TreeMap.mem_toList_iff_getElem?_eq_some.mpr
      ((getElem?_components find k _).mpr ⟨rfl, fun h => ?_⟩), rfl⟩
    rw [h] at hlength
    exact Nat.not_lt_zero _ hlength

/-- A test that is connected to one of the list is in the list. -/
theorem mem_of_reachable (hserial : ∀ t ∈ tests, IsSerial B t.serialFilter) {a b : TestMetadata}
    (ha : a ∈ tests) (h : (conflictGraph B tests).Reachable a b) : b ∈ tests := by
  rw [SimpleGraph.reachable_iff_reflTransGen] at h
  induction h with
  | refl => exact ha
  | tail _ hadj _ => exact ((conflictGraph_adj hserial).mp hadj).2.2.1

/-- In a component with more than one test every test has an edge. -/
theorem exists_adj_of_nontrivial {C : (conflictGraph B tests).ConnectedComponent}
    (hC : C.supp.Nontrivial) {t : TestMetadata} (ht : t ∈ C.supp) :
    ∃ u, (conflictGraph B tests).Adj t u := by
  obtain ⟨u, hu, hne⟩ := hC.exists_ne t
  have hreach : (conflictGraph B tests).Reachable t u :=
    SimpleGraph.ConnectedComponent.exact (ht.trans hu.symm)
  rw [SimpleGraph.reachable_iff_reflTransGen] at hreach
  rcases hreach.cases_head with heq | ⟨v, hadj, -⟩
  · exact absurd heq.symm hne
  · exact ⟨v, hadj⟩

theorem mem_of_nontrivial (hserial : ∀ t ∈ tests, IsSerial B t.serialFilter)
    {C : (conflictGraph B tests).ConnectedComponent} (hC : C.supp.Nontrivial) {t : TestMetadata}
    (ht : t ∈ C.supp) : t ∈ tests := by
  obtain ⟨u, hadj⟩ := exists_adj_of_nontrivial hC ht
  exact ((conflictGraph_adj hserial).mp hadj).2.1

theorem mem_sortedMembers {indices : List (Fin tests.length)} {k : TestKey} :
    k ∈ sortedMembers tests indices ↔ ∃ i ∈ indices, tests[i].key = k := by
  rw [sortedMembers, List.mem_insertionSort, List.mem_map]

/-- The class of a test, from the indices that `find` puts together. -/
def classOf {n : ℕ} (find : Fin n → Fin n) (i : Fin n) : List (Fin n) :=
  (List.finRange n).filter fun j => find j = find i

theorem mem_classOf {n : ℕ} {find : Fin n → Fin n} {i j : Fin n} :
    j ∈ classOf find i ↔ find j = find i := by
  simp [classOf]

theorem nodup_classOf {n : ℕ} (find : Fin n → Fin n) (i : Fin n) : (classOf find i).Nodup :=
  (List.nodup_finRange n).filter _

theorem one_lt_length_iff {α : Type*} {l : List α} (hl : l.Nodup) :
    1 < l.length ↔ ∃ a ∈ l, ∃ b ∈ l, a ≠ b := by
  classical
  rw [← List.toFinset_card_of_nodup hl, Finset.one_lt_card]
  simp only [List.mem_toFinset]

theorem IsKeysOf.unique {xs ys : List TestKey} {S : Set TestMetadata} (hxs : IsKeysOf xs S)
    (hys : IsKeysOf ys S) : xs = ys :=
  SortDedup.eq_of_pairwise_lt hxs.sorted hys.sorted fun k =>
    (hxs.mem_iff k).trans (hys.mem_iff k).symm

section

variable (h : Groupable B blake3Hex tests)
include h

theorem Groupable.find_eq_iff {i j : Fin tests.length} :
    U.find (U.unions (U.new _) (conflictPairs B tests)) i =
        U.find (U.unions (U.new _) (conflictPairs B tests)) j ↔
      (conflictGraph B tests).Reachable tests[i] tests[j] := by
  rw [U.find_unions, eqvGen_conflictPairs_iff h.serial h.keys_nodup]

theorem Groupable.pairwise_sortedMembers {indices : List (Fin tests.length)}
    (hindices : indices.Nodup) : (sortedMembers tests indices).Pairwise (· < ·) := by
  have hsorted := List.pairwise_insertionSort (· ≤ ·) (indices.map fun i => tests[i].key)
  have hnodup : (sortedMembers tests indices).Nodup :=
    (List.perm_insertionSort _ _).nodup_iff.mpr
      (hindices.map_on fun i _ j _ heq => getElem_inj h.keys_nodup heq)
  exact (hsorted.and hnodup).imp fun hlt => lt_of_le_of_ne hlt.1 hlt.2

/-- The classes that the loop leaves are the components of the graph. -/
theorem Groupable.mem_supp_iff {i : Fin tests.length} {t : TestMetadata} :
    t ∈ ((conflictGraph B tests).connectedComponentMk tests[i]).supp ↔
      ∃ j ∈ classOf (U.find (U.unions (U.new _) (conflictPairs B tests))) i, tests[j] = t := by
  rw [SimpleGraph.ConnectedComponent.mem_supp_iff, SimpleGraph.ConnectedComponent.eq]
  constructor
  · intro hreach
    have ht := mem_of_reachable h.serial (List.getElem_mem i.isLt) hreach.symm
    obtain ⟨j, hj, rfl⟩ := List.getElem_of_mem ht
    exact ⟨⟨j, hj⟩, mem_classOf.mpr (h.find_eq_iff.mpr hreach), rfl⟩
  · rintro ⟨j, hj, rfl⟩
    exact h.find_eq_iff.mp (mem_classOf.mp hj)

theorem Groupable.isKeysOf_classOf (i : Fin tests.length) :
    IsKeysOf (sortedMembers tests (classOf (U.find (U.unions (U.new _) (conflictPairs B tests))) i))
      ((conflictGraph B tests).connectedComponentMk tests[i]).supp where
  sorted := h.pairwise_sortedMembers (nodup_classOf _ i)
  mem_iff k := by
    rw [mem_sortedMembers]
    constructor
    · rintro ⟨j, hj, rfl⟩
      exact ⟨_, (h.mem_supp_iff (U := U)).mpr ⟨j, hj, rfl⟩, rfl⟩
    · rintro ⟨t, ht, rfl⟩
      obtain ⟨j, hj, rfl⟩ := (h.mem_supp_iff (U := U)).mp ht
      exact ⟨j, hj, rfl⟩

theorem Groupable.nontrivial_iff (i : Fin tests.length) :
    ((conflictGraph B tests).connectedComponentMk tests[i]).supp.Nontrivial ↔
      1 < (classOf (U.find (U.unions (U.new _) (conflictPairs B tests))) i).length := by
  rw [one_lt_length_iff (nodup_classOf _ i)]
  constructor
  · rintro ⟨a, ha, b, hb, hne⟩
    obtain ⟨j, hj, rfl⟩ := (h.mem_supp_iff (U := U)).mp ha
    obtain ⟨k, hk, rfl⟩ := (h.mem_supp_iff (U := U)).mp hb
    exact ⟨j, hj, k, hk, fun heq => hne (heq ▸ rfl)⟩
  · rintro ⟨j, hj, k, hk, hne⟩
    refine ⟨_, (h.mem_supp_iff (U := U)).mpr ⟨j, hj, rfl⟩, _,
      (h.mem_supp_iff (U := U)).mpr ⟨k, hk, rfl⟩, fun heq => hne ?_⟩
    exact getElem_inj h.keys_nodup (congrArg _ heq)

theorem Groupable.isMembers_classOf {i : Fin tests.length}
    (hlength : 1 < (classOf (U.find (U.unions (U.new _) (conflictPairs B tests))) i).length) :
    IsMembers B tests
      (sortedMembers tests (classOf (U.find (U.unions (U.new _) (conflictPairs B tests))) i)) :=
  ⟨_, (h.nontrivial_iff i).mpr hlength, h.isKeysOf_classOf i⟩

/-- The groups as the loop has them: one for each class with more than one index. -/
theorem Groupable.isGroup_iff {g : TestGroup} :
    IsGroup B blake3Hex tests g ↔ ∃ i : Fin tests.length,
      1 < (classOf (U.find (U.unions (U.new _) (conflictPairs B tests))) i).length ∧
      g.members = sortedMembers tests
        (classOf (U.find (U.unions (U.new _) (conflictPairs B tests))) i) ∧
      g.name = groupName blake3Hex g.members := by
  constructor
  · rintro ⟨hname, C, hC, hkeys⟩
    obtain ⟨t, ht⟩ := C.nonempty_supp
    obtain ⟨i, hi, rfl⟩ := List.getElem_of_mem (mem_of_nontrivial h.serial hC ht)
    obtain rfl : (conflictGraph B tests).connectedComponentMk tests[i] = C := ht
    exact ⟨⟨i, hi⟩, (h.nontrivial_iff ⟨i, hi⟩).mp hC, hkeys.unique (h.isKeysOf_classOf ⟨i, hi⟩),
      hname⟩
  · rintro ⟨i, hlength, hmembers, hname⟩
    refine ⟨hname, _, (h.nontrivial_iff i).mpr hlength, ?_⟩
    rw [hmembers]
    exact h.isKeysOf_classOf i

end

/-! ## The groups by name -/

theorem getElem?_insert_group {byName : Std.TreeMap String (List TestKey)} {name name' : String}
    {members members' : List TestKey} :
    (byName.insert name members)[name']? = some members' ↔
      if name = name' then members = members' else byName[name']? = some members' := by
  rw [Std.TreeMap.getElem?_insert]
  simp only [compare_eq_iff_eq]
  split_ifs with heq
  · rw [Option.some.injEq]
  · rfl

/-- The assertion passes if the name is new or bound to the same list. -/
theorem insertGroup_eq_some_iff {byName byName' : Std.TreeMap String (List TestKey)}
    {indices : List (Fin tests.length)} :
    insertGroup blake3Hex tests byName indices = some byName' ↔
      (∀ existing, byName[groupName blake3Hex (sortedMembers tests indices)]? = some existing →
        existing = sortedMembers tests indices) ∧
      byName' = byName.insert (groupName blake3Hex (sortedMembers tests indices))
        (sortedMembers tests indices) := by
  unfold insertGroup
  cases hexisting : byName[groupName blake3Hex (sortedMembers tests indices)]? with
  | none => simp [hexisting, eq_comm]
  | some existing =>
      by_cases hsame : existing = sortedMembers tests indices
      · simp [hexisting, hsame, eq_comm]
      · simp [hexisting, hsame]

/-- What the map holds after some more components, if their names tell their
members apart: what it held, and each of their member lists under its name. -/
theorem foldlM_insertGroup {P : List TestKey → Prop}
    (hapart : ∀ xs ys, P xs → P ys → groupName blake3Hex xs = groupName blake3Hex ys → xs = ys)
    (list : List (List (Fin tests.length)))
    (hlist : ∀ indices ∈ list, P (sortedMembers tests indices))
    (byName : Std.TreeMap String (List TestKey))
    (hbyName : ∀ (name : String) members, byName[name]? = some members →
      P members ∧ name = groupName blake3Hex members) :
    ∃ byName', list.foldlM (insertGroup blake3Hex tests) byName = some byName' ∧
      ∀ name members, byName'[name]? = some members ↔ byName[name]? = some members ∨
        ∃ indices ∈ list, members = sortedMembers tests indices ∧
          name = groupName blake3Hex members := by
  induction list generalizing byName with
  | nil => exact ⟨byName, rfl, by simp⟩
  | cons indices list ih =>
      have hmembers := hlist indices List.mem_cons_self
      -- a list that is there under the name is the same list
      have hsame : ∀ existing,
          byName[groupName blake3Hex (sortedMembers tests indices)]? = some existing →
            existing = sortedMembers tests indices := fun existing hexisting => by
        obtain ⟨hold, hname⟩ := hbyName _ _ hexisting
        exact hapart _ _ hold hmembers hname.symm
      have hinsert := insertGroup_eq_some_iff.mpr ⟨hsame, rfl⟩
      have hafter : ∀ name members,
          (byName.insert (groupName blake3Hex (sortedMembers tests indices))
            (sortedMembers tests indices))[name]? = some members ↔ byName[name]? = some members ∨
            members = sortedMembers tests indices ∧ name = groupName blake3Hex members := by
        intro name members
        rw [getElem?_insert_group]
        split_ifs with heq
        · subst heq
          constructor
          · rintro rfl
            exact .inr ⟨rfl, rfl⟩
          · rintro (hold | ⟨rfl, -⟩)
            exacts [(hsame _ hold).symm, rfl]
        · refine ⟨.inl, ?_⟩
          rintro (hold | ⟨rfl, rfl⟩)
          exacts [hold, absurd rfl heq]
      obtain ⟨byName', hfold, hspec⟩ := ih (fun is his => hlist is (List.mem_cons_of_mem _ his)) _
        (fun name members hget => by
          rcases (hafter name members).mp hget with hold | ⟨rfl, hname⟩
          exacts [hbyName name members hold, ⟨hmembers, hname⟩])
      refine ⟨byName', ?_, fun name members => ?_⟩
      · rw [List.foldlM_cons, hinsert]
        exact hfold
      · rw [hspec, hafter, List.exists_mem_cons_iff, or_assoc]

/-- The large components are the classes with more than one index. -/
theorem mem_largeComponents_iff {n : ℕ} {find : Fin n → Fin n} {indices : List (Fin n)} :
    indices ∈ largeComponents find ↔ ∃ i, indices = classOf find i ∧ 1 < indices.length := by
  rw [mem_largeComponents]
  constructor
  · rintro ⟨⟨k, rfl⟩, hlength⟩
    obtain ⟨i, hi⟩ := List.exists_mem_of_length_pos (Nat.zero_lt_of_lt hlength)
    obtain rfl : find i = k := by simpa using hi
    exact ⟨i, rfl, hlength⟩
  · rintro ⟨i, rfl, hlength⟩
    exact ⟨⟨find i, rfl⟩, hlength⟩

theorem buildGroups_spec (h : Groupable B blake3Hex tests) :
    ∃ groups, buildGroups B U blake3Hex tests = some groups ∧
      IsGroups B blake3Hex tests groups := by
  obtain ⟨byName, hfold, hspec⟩ := foldlM_insertGroup h.names_apart
    (largeComponents (U.find (U.unions (U.new _) (conflictPairs B tests))))
    (fun indices hindices => by
      obtain ⟨i, rfl, hlength⟩ := mem_largeComponents_iff.mp hindices
      exact h.isMembers_classOf hlength)
    ∅ (fun name members hget => by simp at hget)
  refine ⟨byName.toList.map fun p => ⟨p.1, p.2⟩, ?_, ?_, fun g => ?_⟩
  · rw [buildGroups, uniteConflicts_eq h.serial]
    simp only [Option.bind_eq_bind, Option.bind_some, hfold]
    rfl
  · rw [List.pairwise_map]
    exact (Std.TreeMap.ordered_keys_toList (t := byName)).imp fun hlt => by
      simpa [compare_lt_iff_lt] using hlt
  · rw [h.isGroup_iff (U := U), List.mem_map]
    constructor
    · rintro ⟨⟨name, members⟩, hmem, rfl⟩
      rw [Std.TreeMap.mem_toList_iff_getElem?_eq_some, hspec] at hmem
      rcases hmem with hmem | ⟨indices, hindices, hmembers, hname⟩
      · simp at hmem
      · obtain ⟨i, rfl, hlength⟩ := mem_largeComponents_iff.mp hindices
        exact ⟨i, hlength, hmembers, hname⟩
    · rintro ⟨i, hlength, hmembers, hname⟩
      refine ⟨(g.name, g.members), ?_, rfl⟩
      rw [Std.TreeMap.mem_toList_iff_getElem?_eq_some, hspec]
      exact .inr ⟨_, mem_largeComponents_iff.mpr ⟨i, rfl, hlength⟩, hmembers, hname⟩

/-! ## Other lists of tests -/

theorem IsGroups.unique {tests' : List TestMetadata} {groups groups' : List TestGroup}
    (hgroups : IsGroups B blake3Hex tests groups) (hgroups' : IsGroups B blake3Hex tests' groups')
    (hsame : ∀ g, IsGroup B blake3Hex tests g ↔ IsGroup B blake3Hex tests' g) :
    groups = groups' := by
  have hne : ∀ {g g' : TestGroup}, g.name < g'.name → g ≠ g' := fun hlt heq =>
    absurd hlt (heq ▸ lt_irrefl _)
  have hperm := (List.perm_ext_iff_of_nodup (hgroups.sorted.imp hne)
    (hgroups'.sorted.imp hne)).mpr fun g => by
      rw [hgroups.mem_iff, hgroups'.mem_iff, hsame]
  exact hperm.eq_of_pairwise (fun _ _ _ _ hlt hlt' => absurd (hlt.trans hlt') (lt_irrefl _))
    hgroups.sorted hgroups'.sorted

/-- The graph does not see the order of the list. -/
theorem conflictGraph_perm {tests' : List TestMetadata} (hperm : tests.Perm tests') :
    conflictGraph B tests = conflictGraph B tests' := by
  unfold conflictGraph
  simp only [hperm.mem_iff]

theorem Groupable.perm {tests' : List TestMetadata} (h : Groupable B blake3Hex tests)
    (hperm : tests.Perm tests') : Groupable B blake3Hex tests' where
  serial t ht := h.serial t (hperm.mem_iff.mpr ht)
  keys_nodup := ((hperm.map _).nodup_iff).mp h.keys_nodup
  names_apart xs ys hxs hys := by
    rw [IsMembers, ← conflictGraph_perm hperm] at hxs hys
    exact h.names_apart xs ys hxs hys

theorem isGroup_perm {tests' : List TestMetadata} (hperm : tests.Perm tests') (g : TestGroup) :
    IsGroup B blake3Hex tests g ↔ IsGroup B blake3Hex tests' g := by
  constructor
  · rintro ⟨hname, hcomponent⟩
    exact ⟨hname, conflictGraph_perm hperm ▸ hcomponent⟩
  · rintro ⟨hname, hcomponent⟩
    exact ⟨hname, conflictGraph_perm hperm ▸ hcomponent⟩

/-- A component without a conflict with the new tests is a component of the
larger graph. -/
theorem IsGroup.mono {tests' : List TestMetadata} (h : Groupable B blake3Hex tests)
    (h' : Groupable B blake3Hex tests') (hsubset : tests ⊆ tests') {g : TestGroup}
    (hg : IsGroup B blake3Hex tests g)
    (hnew : ∀ t ∈ tests', t ∉ tests → ∀ m ∈ tests, m.key ∈ g.members →
      conflicts B t m = some false) : IsGroup B blake3Hex tests' g := by
  obtain ⟨hname, C, hC, hkeys⟩ := hg
  obtain ⟨v, hv⟩ := C.nonempty_supp
  -- no edge of the larger graph leaves the component
  have hadj : ∀ {a b}, a ∈ C.supp → (conflictGraph B tests').Adj a b →
      (conflictGraph B tests).Adj a b := by
    intro a b ha hab
    have hmem := mem_of_nontrivial h.serial hC ha
    obtain ⟨hne, ha', hb', hconflict⟩ := (conflictGraph_adj h'.serial).mp hab
    by_cases hb : b ∈ tests
    · exact (conflictGraph_adj h.serial).mpr ⟨hne, hmem, hb, hconflict⟩
    · have hfalse := hnew b hb' hb a hmem ((hkeys.mem_iff _).mpr ⟨a, ha, rfl⟩)
      rw [conflicts_comm (h'.serial b hb') (h'.serial a ha'), hconflict] at hfalse
      cases hfalse
  have hle : conflictGraph B tests ≤ conflictGraph B tests' := by
    intro a b hab
    obtain ⟨hne, ha, hb, hconflict⟩ := (conflictGraph_adj h.serial).mp hab
    exact (conflictGraph_adj h'.serial).mpr ⟨hne, hsubset ha, hsubset hb, hconflict⟩
  have hsupp : ((conflictGraph B tests').connectedComponentMk v).supp = C.supp := by
    obtain rfl : (conflictGraph B tests).connectedComponentMk v = C := hv
    ext t
    rw [SimpleGraph.ConnectedComponent.mem_supp_iff, SimpleGraph.ConnectedComponent.mem_supp_iff,
      SimpleGraph.ConnectedComponent.eq, SimpleGraph.ConnectedComponent.eq]
    refine ⟨fun hreach => ?_, fun hreach => hreach.mono hle⟩
    have hpath := hreach.symm
    rw [SimpleGraph.reachable_iff_reflTransGen] at hpath
    induction hpath with
    | refl => exact .rfl
    | tail _ hab ih =>
        have hreach' := ih (SimpleGraph.reachable_iff_reflTransGen _ _ |>.mpr ‹_›).symm
        exact (hadj (SimpleGraph.ConnectedComponent.sound hreach') hab).reachable.symm.trans hreach'
  exact ⟨hname, _, hsupp.symm ▸ hC, hsupp.symm ▸ hkeys⟩

/-! ## The guarantees -/

theorem IsGroup.eq_of_mem {g g' : TestGroup} (h : Groupable B blake3Hex tests)
    (hg : IsGroup B blake3Hex tests g) (hg' : IsGroup B blake3Hex tests g') {k : TestKey}
    (hk : k ∈ g.members) (hk' : k ∈ g'.members) : g = g' := by
  obtain ⟨hname, C, hC, hkeys⟩ := hg
  obtain ⟨hname', C', hC', hkeys'⟩ := hg'
  obtain ⟨t, ht, rfl⟩ := (hkeys.mem_iff k).mp hk
  obtain ⟨t', ht', hkey⟩ := (hkeys'.mem_iff _).mp hk'
  obtain rfl := List.inj_on_of_nodup_map h.keys_nodup (mem_of_nontrivial h.serial hC' ht')
    (mem_of_nontrivial h.serial hC ht) hkey
  obtain rfl : C = C' := SimpleGraph.ConnectedComponent.eq_of_common_vertex ht ht'
  have hmembers := hkeys.unique hkeys'
  cases g
  cases g'
  simp only at hname hname' hmembers
  subst hname hname' hmembers
  rfl

/-- Two tests that conflict are in one group. -/
theorem exists_isGroup_of_conflicts (h : Groupable B blake3Hex tests) {a b : TestMetadata}
    (ha : a ∈ tests) (hb : b ∈ tests) (hne : a ≠ b) (hconflict : conflicts B a b = some true) :
    ∃ g, IsGroup B blake3Hex tests g ∧ a.key ∈ g.members ∧ b.key ∈ g.members := by
  have hadj := (conflictGraph_adj h.serial).mpr ⟨hne, ha, hb, hconflict⟩
  obtain ⟨i, hi, rfl⟩ := List.getElem_of_mem ha
  have hkeys := h.isKeysOf_classOf (U := .naive) ⟨i, hi⟩
  have hb' : b ∈ ((conflictGraph B tests).connectedComponentMk tests[i]).supp :=
    SimpleGraph.ConnectedComponent.sound hadj.symm.reachable
  refine ⟨⟨groupName blake3Hex _, _⟩, ⟨rfl, _, ⟨_, rfl, b, hb', hne⟩, hkeys⟩, ?_, ?_⟩
  · exact (hkeys.mem_iff _).mpr ⟨_, rfl, rfl⟩
  · exact (hkeys.mem_iff _).mpr ⟨b, hb', rfl⟩

/-- A test in a group conflicts with another one. -/
theorem IsGroup.exists_conflicts (h : Groupable B blake3Hex tests) {g : TestGroup}
    (hg : IsGroup B blake3Hex tests g) {t : TestMetadata} (ht : t ∈ tests)
    (hmem : t.key ∈ g.members) : ∃ u ∈ tests, u ≠ t ∧ conflicts B t u = some true := by
  obtain ⟨-, C, hC, hkeys⟩ := hg
  obtain ⟨t', ht', hkey⟩ := (hkeys.mem_iff _).mp hmem
  obtain rfl := List.inj_on_of_nodup_map h.keys_nodup (mem_of_nontrivial h.serial hC ht') ht hkey
  obtain ⟨u, hadj⟩ := exists_adj_of_nontrivial hC ht'
  obtain ⟨hne, -, hu, hconflict⟩ := (conflictGraph_adj h.serial).mp hadj
  exact ⟨u, hu, hne.symm, hconflict⟩

/-- The groups are the conflict components with more than one test, whatever the
order of the tests, and new tests change no group that they do not conflict with. -/
theorem groups_are_components (U : UnionFind) (h : Groupable B blake3Hex tests) :
    ∃ groups, buildGroups B U blake3Hex tests = some groups ∧
      (∀ members, (∃ g ∈ groups, g.members = members) ↔
        ∃ C : (conflictGraph B tests).ConnectedComponent,
          C.supp.Nontrivial ∧ IsKeysOf members C.supp) ∧
      (∀ a ∈ tests, ∀ b ∈ tests, a ≠ b → conflicts B a b = some true →
        ∃ g ∈ groups, a.key ∈ g.members ∧ b.key ∈ g.members) ∧
      (∀ g ∈ groups, ∀ g' ∈ groups, ∀ k, k ∈ g.members → k ∈ g'.members → g = g') ∧
      (∀ t ∈ tests, (∀ u ∈ tests, u ≠ t → conflicts B t u = some false) →
        ∀ g ∈ groups, t.key ∉ g.members) ∧
      (∀ tests', tests.Perm tests' → buildGroups B U blake3Hex tests' = some groups) ∧
      ∀ tests', Groupable B blake3Hex tests' → tests ⊆ tests' →
        ∃ groups', buildGroups B U blake3Hex tests' = some groups' ∧
          ∀ g ∈ groups, (∀ t ∈ tests', t ∉ tests → ∀ m ∈ tests, m.key ∈ g.members →
            conflicts B t m = some false) → g ∈ groups' := by
  obtain ⟨groups, hbuild, hgroups⟩ := buildGroups_spec (U := U) h
  refine ⟨groups, hbuild, fun members => ?_, fun a ha b hb hne hconflict => ?_,
    fun g hg g' hg' k => ?_, fun t ht hfalse g hg hmem => ?_, fun tests' hperm => ?_,
    fun tests' h' hsubset => ?_⟩
  · constructor
    · rintro ⟨g, hg, rfl⟩
      exact ((hgroups.mem_iff g).mp hg).component
    · intro hcomponent
      exact ⟨⟨groupName blake3Hex members, members⟩, (hgroups.mem_iff _).mpr ⟨rfl, hcomponent⟩, rfl⟩
  · obtain ⟨g, hg, hmem⟩ := exists_isGroup_of_conflicts h ha hb hne hconflict
    exact ⟨g, (hgroups.mem_iff g).mpr hg, hmem⟩
  · exact ((hgroups.mem_iff g).mp hg).eq_of_mem h ((hgroups.mem_iff g').mp hg')
  · obtain ⟨u, hu, hne, hconflict⟩ := ((hgroups.mem_iff g).mp hg).exists_conflicts h ht hmem
    rw [hfalse u hu hne] at hconflict
    cases hconflict
  · obtain ⟨groups', hbuild', hgroups'⟩ := buildGroups_spec (U := U) (h.perm hperm)
    rw [hbuild', hgroups.unique hgroups' (isGroup_perm hperm)]
  · obtain ⟨groups', hbuild', hgroups'⟩ := buildGroups_spec (U := U) h'
    refine ⟨groups', hbuild', fun g hg hnew => (hgroups'.mem_iff g).mpr ?_⟩
    exact ((hgroups.mem_iff g).mp hg).mono h h' hsubset hnew

/-- BLAKE3 on the member lists of the two tests below. -/
def sampleBlake3 (bytes : List UInt8) : String :=
  if bytes = memberBytes [] then
    "af1349b9f5f9a1a6a0404dea36dcc9499bcb25c9adc112b7cc9a93cae41f3262"
  else if bytes = memberBytes [toLex ("app", "migrate")] then
    "2d782e61dc6bd5be3b8850842db4984a624181dfd266652cac8764734c8c387d"
  else if bytes = memberBytes [toLex ("app", "query")] then
    "67a56b08eb4dfae6502ec74d2e650c104f6efbde0f8064b07931fe804d86f22c"
  else
    "13c6d85703057e3cb0bff3212bb367f30a92d618044a39e6468a0eb6cc06ba08"

def sampleTests : List TestMetadata :=
  [⟨"app", "query", ["disk"], ""⟩, ⟨"app", "migrate", [], "disk"⟩]

theorem isSerial_sampleTests : ∀ t ∈ sampleTests, IsSerial (shannon String) t.serialFilter := by
  intro t ht
  simp only [sampleTests, List.mem_cons, List.not_mem_nil, or_false] at ht
  rcases ht with rfl | rfl
  · exact .inl rfl
  · exact .inr (.inr ⟨_, LabelFilter.parse_of_raw (parseRawLabelExpr_of_isLabelName (by decide))⟩)

theorem groupable_sampleTests : Groupable (shannon String) sampleBlake3 sampleTests where
  serial := isSerial_sampleTests
  keys_nodup := by decide
  names_apart xs ys hxs hys _ := by
    -- a component of two tests has both
    have hboth : ∀ C : (conflictGraph (shannon String) sampleTests).ConnectedComponent,
        C.supp.Nontrivial → ⟨"app", "query", ["disk"], ""⟩ ∈ C.supp := by
      rintro C hC
      obtain ⟨a, ha, b, hb, hne⟩ := id hC
      have hmema := mem_of_nontrivial isSerial_sampleTests hC ha
      have hmemb := mem_of_nontrivial isSerial_sampleTests hC hb
      rcases List.mem_pair.mp hmema with rfl | rfl
      · exact ha
      · rcases List.mem_pair.mp hmemb with rfl | rfl
        · exact hb
        · exact absurd rfl hne
    obtain ⟨C, hC, hkeys⟩ := hxs
    obtain ⟨C', hC', hkeys'⟩ := hys
    obtain rfl : C = C' :=
      SimpleGraph.ConnectedComponent.eq_of_common_vertex (hboth C hC) (hboth C' hC')
    exact hkeys.unique hkeys'

theorem groups_are_components_sample :
    ∃ groups, buildGroups (shannon String) .naive sampleBlake3 sampleTests = some groups ∧
      ∃ g ∈ groups, toLex ("app", "query") ∈ g.members ∧ toLex ("app", "migrate") ∈ g.members := by
  have hraw : parseRawLabelExpr "disk" = .ok (.terminal "disk") :=
    parseRawLabelExpr_of_isLabelName (by decide)
  have hdisk := LabelFilter.parse_of_raw (B := shannon String) hraw
  have hblocks : blocksNames (shannon String) "disk" ["disk"] = true := by
    rw [blocksNames_of_parse hdisk]
    exact eval_canonicalize (.terminal "disk") _
  obtain ⟨groups, hbuild, -, hshare, -⟩ := groups_are_components .naive groupable_sampleTests
  refine ⟨groups, hbuild, hshare ⟨"app", "query", ["disk"], ""⟩ (by decide)
    ⟨"app", "migrate", [], "disk"⟩ (by decide) (by decide) ?_⟩
  rw [conflicts_eq (.inl rfl) (.inr (.inr ⟨_, hdisk⟩)), hblocks, Bool.or_true]

end Skuld
