import Mathlib.Data.List.Sort
import Mathlib.Data.String.Basic
import Std.Data.TreeMap.Lemmas

/-!
# Values in buckets

`buckets` collects values under their keys, in the order in which they come, and
`repeated` are the buckets with more than one value, in the order of the keys.  They
tell whether a key occurs twice, and if so where.
-/

namespace Skuld.Buckets

variable {α : Type*}

/-- `entry(key).or_default().push(value)` over the entries. -/
def buckets (entries : List (String × α)) : Std.TreeMap String (List α) :=
  entries.foldl (fun map e => map.alter e.1 fun values => some (values.getD [] ++ [e.2])) ∅

def repeated (entries : List (String × α)) : List (String × List α) :=
  (buckets entries).toList.filter fun bucket => 1 < bucket.2.length

/-- The values under a key. -/
def valuesOf (entries : List (String × α)) (key : String) : List α :=
  (entries.filter fun e => e.1 = key).map Prod.snd

theorem valuesOf_cons (e : String × α) (entries : List (String × α)) (key : String) :
    valuesOf (e :: entries) key =
      if e.1 = key then e.2 :: valuesOf entries key else valuesOf entries key := by
  unfold valuesOf
  by_cases he : e.1 = key <;> simp [he]

theorem getElem?_buckets {entries : List (String × α)} {key : String} {values : List α} :
    (buckets entries)[key]? = some values ↔ values = valuesOf entries key ∧ values ≠ [] := by
  have hloop : ∀ (l : List (String × α)) (map : Std.TreeMap String (List α)),
      (l.foldl (fun map e => map.alter e.1 fun values => some (values.getD [] ++ [e.2]))
          map)[key]? =
        if valuesOf l key = [] then map[key]? else some (map[key]?.getD [] ++ valuesOf l key) := by
    intro l
    induction l with
    | nil => exact fun map => rfl
    | cons e l ih =>
        intro map
        rw [List.foldl_cons, ih, Std.TreeMap.getElem?_alter]
        rw [valuesOf_cons]
        by_cases he : e.1 = key
        · by_cases hl : valuesOf l key = [] <;> simp [he, hl]
        · simp [he]
  rw [buckets, hloop]
  split_ifs with h
  · simp [h]
  · simp only [Std.TreeMap.getElem?_emptyc, Option.getD_none, List.nil_append, Option.some.injEq]
    constructor
    · rintro rfl
      exact ⟨rfl, h⟩
    · exact fun h => h.1.symm

theorem mem_repeated {entries : List (String × α)} {key : String} {values : List α} :
    (key, values) ∈ repeated entries ↔ values = valuesOf entries key ∧ 1 < values.length := by
  rw [repeated, List.mem_filter, Std.TreeMap.mem_toList_iff_getElem?_eq_some, getElem?_buckets,
    decide_eq_true_eq, and_assoc]
  refine and_congr_right fun _ => ⟨And.right, fun hlength => ⟨fun hnil => ?_, hlength⟩⟩
  simp [hnil] at hlength

theorem length_valuesOf (entries : List (String × α)) (key : String) :
    (valuesOf entries key).length = (entries.map Prod.fst).count key := by
  rw [valuesOf, List.length_map, List.count, List.countP_map, List.countP_eq_length_filter]
  rfl

theorem repeated_eq_nil_iff {entries : List (String × α)} :
    repeated entries = [] ↔ (entries.map Prod.fst).Nodup := by
  rw [List.nodup_iff_count_le_one, List.eq_nil_iff_forall_not_mem]
  constructor
  · intro h key
    by_contra hcount
    refine h (key, valuesOf entries key) (mem_repeated.mpr ⟨rfl, ?_⟩)
    rw [length_valuesOf]
    omega
  · intro h ⟨key, values⟩ hmem
    obtain ⟨rfl, hlength⟩ := mem_repeated.mp hmem
    have hcount := h key
    rw [length_valuesOf] at hlength
    omega

/-- All keys that occur twice, with all their values. -/
structure AllRepeated (entries : List (String × α)) (found : List (String × List α)) : Prop where
  ne_nil : found ≠ []
  sorted : found.Pairwise fun a b => a.1 < b.1
  mem_iff : ∀ key values,
    (key, values) ∈ found ↔ values = valuesOf entries key ∧ 1 < values.length

theorem AllRepeated.not_nodup {entries : List (String × α)} {found : List (String × List α)}
    (h : AllRepeated entries found) : ¬ (entries.map Prod.fst).Nodup := by
  obtain ⟨⟨key, values⟩, hmem⟩ := List.exists_mem_of_ne_nil found h.ne_nil
  intro hnodup
  have hnone : (key, values) ∉ repeated entries := by simp [repeated_eq_nil_iff.mpr hnodup]
  exact hnone (mem_repeated.mpr ((h.mem_iff key values).mp hmem))

end Skuld.Buckets
