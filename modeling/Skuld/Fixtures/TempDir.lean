import Mathlib.Data.List.DropRight
import Mathlib.Algebra.Order.BigOperators.Group.List
import Skuld.Lib.Budget

/-!
# Names of temporary directories

`fileNameSafe` turns a prefix, usually the name of a test, into the start of a
directory name: forbidden characters are replaced, the rest is cut so that the
full name fits every length limit, and an underscore in front keeps it from being
read as a DOS device.

One budget serves three length limits, because a character costs at least its
size under each of them (`sum_name_le`).  The check for device names looks at the
prefix with one `-` behind it, and the full name goes on from that `-`: either
the part before the first `.` ends earlier, or it has a `-` in it, which no
device name has.
-/

namespace Skuld.TempDir

def randomLen : ℕ := 6

def nameMax : ℕ := 255

def reservedPidAndRandom : ℕ := "-4294967295-".utf8ByteSize + randomLen

/-- One unit stays free for the `_` a device name gets. -/
def budget : ℕ := nameMax - reservedPidAndRandom - 1

/-- `char::is_control`: the general category Cc. -/
def isControl (c : Char) : Bool :=
  c.toNat ≤ 0x1f || (0x7f ≤ c.toNat && c.toNat ≤ 0x9f)

def forbidden : List Char := ['/', '\\', ':', '*', '?', '"', '<', '>', '|']

def sanitize (c : Char) : Char :=
  if isControl c || c ∈ forbidden then '_' else c

/-- `char::len_utf16`. -/
def lenUtf16 (c : Char) : ℕ :=
  if c.toNat ≤ 0xffff then 1 else 2

section

variable (decomposeCanonical : Char → List Char)

/-- UTF-16 units after canonical decomposition. -/
def nfdUnits (c : Char) : ℕ :=
  ((decomposeCanonical c).map lenUtf16).sum

def cost (c : Char) : ℕ :=
  max c.utf8Size (nfdUnits decomposeCanonical c)

/-- The loop over the characters, `used` units into the budget. -/
def safeChars : ℕ → List Char → List Char
  | _, [] => []
  | used, c :: rest =>
      if used + cost decomposeCanonical (sanitize c) > budget then []
      else sanitize c :: safeChars (used + cost decomposeCanonical (sanitize c)) rest

/-- `name.split('.').next().trim_end_matches(' ')`. -/
def deviceBase (name : List Char) : List Char :=
  (name.takeWhile (· ≠ '.')).rdropWhile (· = ' ')

def isDosDevice (name : List Char) : Bool :=
  let upper := (deviceBase name).map Char.toUpper
  if upper ∈ ["CON", "PRN", "AUX", "NUL", "CONIN$", "CONOUT$"].map String.toList then
    true
  else
    let stem := upper.take 3
    (stem = "COM".toList || stem = "LPT".toList) &&
      match upper.drop 3 with
      | [digit] => digit.isDigit || digit ∈ ['¹', '²', '³']
      | _ => false

def fileNameSafe (name : String) : String :=
  let out := safeChars decomposeCanonical 0 name.toList
  if isDosDevice (out ++ ['-']) then String.ofList ('_' :: out) else String.ofList out

/-- The name that `create_with` tries, with the random part that it got. -/
def tempDirName (pfx : String) (pid : UInt32) (random : String) : String :=
  fileNameSafe decomposeCanonical pfx ++ "-" ++ toString pid.toNat ++ "-" ++ random

end

example : fileNameSafe (fun c => [c]) "nul .a/b" = "_nul .a_b" := by decide +kernel

variable {decomposeCanonical : Char → List Char}

/-! ## What is kept -/

/-- The cost of a character of the input, after it is sanitized. -/
def inputCost (decomposeCanonical : Char → List Char) (c : Char) : ℕ :=
  cost decomposeCanonical (sanitize c)

/-- The loop sanitizes what fits the budget. -/
theorem safeChars_eq (used : ℕ) (name : List Char) :
    safeChars decomposeCanonical used name =
      (Budget.takeWithin (inputCost decomposeCanonical) budget used name).map sanitize := by
  induction name generalizing used with
  | nil => rfl
  | cons c name ih =>
      rw [safeChars, Budget.takeWithin, inputCost]
      split_ifs with h
      · rfl
      · rw [List.map_cons, ih]

theorem fileNameSafe_eq (name : String) :
    (fileNameSafe decomposeCanonical name).toList =
      (if isDosDevice (safeChars decomposeCanonical 0 name.toList ++ ['-']) then ['_'] else []) ++
        safeChars decomposeCanonical 0 name.toList := by
  unfold fileNameSafe
  split_ifs with h
  · rw [if_pos h, String.toList_ofList, List.singleton_append]
  · rw [if_neg h, String.toList_ofList, List.nil_append]

theorem tempDirName_eq (pfx : String) (pid : UInt32) (random : String) :
    (tempDirName decomposeCanonical pfx pid random).toList =
      (fileNameSafe decomposeCanonical pfx).toList ++
        '-' :: (Nat.toDigits 10 pid.toNat ++ '-' :: random.toList) := by
  simp [tempDirName]

/-! ## Lengths -/

theorem utf8ByteSize_eq_sum (s : String) :
    s.utf8ByteSize = (s.toList.map Char.utf8Size).sum := by
  have hlist : ∀ l : List Char, (String.ofList l).utf8ByteSize = (l.map Char.utf8Size).sum := by
    intro l
    induction l with
    | nil => rfl
    | cons c l ih =>
        have hcons : String.ofList (c :: l) = String.singleton c ++ String.ofList l := by
          rw [← String.toList_inj]
          simp
        rw [hcons, String.utf8ByteSize_append, String.utf8ByteSize_singleton, ih, List.map_cons,
          List.sum_cons]
  have := hlist s.toList
  rwa [String.ofList_toList] at this

theorem lenUtf16_le_utf8Size (c : Char) : lenUtf16 c ≤ c.utf8Size := by
  have hpos := c.utf8Size_pos
  unfold lenUtf16
  split_ifs with h
  · omega
  · have hval : 0xffff < c.val := UInt32.lt_iff_toNat_lt.mpr (by simpa using h)
    rw [Char.utf8Size_eq_four_iff.mpr hval]
    omega

/-- A measure under which no character is larger than its cost, and no ASCII
character larger than one. -/
structure Covered (decomposeCanonical : Char → List Char) (f : Char → ℕ) : Prop where
  le_cost : ∀ c, f c ≤ cost decomposeCanonical c
  ascii : ∀ c : Char, c.toNat < 128 → f c ≤ 1

theorem sum_ascii_le {f : Char → ℕ} (hf : Covered decomposeCanonical f) {s : List Char}
    (hs : ∀ c ∈ s, c.toNat < 128) : (s.map f).sum ≤ s.length := by
  have := List.sum_le_card_nsmul (s.map f) 1 (by
    intro x hx
    obtain ⟨c, hc, rfl⟩ := List.mem_map.mp hx
    exact hf.ascii c (hs c hc))
  simpa using this

theorem sum_kept_le (name : List Char) :
    ((Budget.takeWithin (inputCost decomposeCanonical) budget 0 name).map
      (inputCost decomposeCanonical)).sum ≤ budget := by
  rw [← Nat.zero_add (List.sum _)]
  exact Budget.sum_takeWithin_le (Nat.zero_le budget) name

theorem sum_safeChars_le {f : Char → ℕ} (hf : Covered decomposeCanonical f) (name : List Char) :
    ((safeChars decomposeCanonical 0 name).map f).sum ≤ budget := by
  rw [safeChars_eq, List.map_map]
  set kept := Budget.takeWithin (inputCost decomposeCanonical) budget 0 name
  calc (kept.map (f ∘ sanitize)).sum
      ≤ (kept.map (inputCost decomposeCanonical)).sum :=
        List.sum_le_sum fun c _ => hf.le_cost (sanitize c)
    _ ≤ budget := sum_kept_le name

theorem toNat_lt_of_isAlphanum {c : Char} (h : c.isAlphanum) : c.toNat < 128 := by
  have hle : c.val ≤ 'z'.val := by
    obtain h | hdigit := (Bool.or_eq_true _ _).mp h
    · obtain hupper | hlower := (Bool.or_eq_true _ _).mp h
      · exact UInt32.le_trans (of_decide_eq_true hupper).2 (by decide)
      · exact of_decide_eq_true ((Bool.and_eq_true _ _).mp hlower).2
    · exact UInt32.le_trans (of_decide_eq_true ((Bool.and_eq_true _ _).mp hdigit).2) (by decide)
  exact (UInt32.le_iff_toNat_le.mp hle).trans_lt (by decide)

theorem isAlphanum_of_mem_toDigits {c : Char} {n : ℕ} (hc : c ∈ Nat.toDigits 10 n) :
    c.isAlphanum := by
  have hten : 0 < 10 := by decide
  simp [Char.isAlphanum, Nat.isDigit_of_mem_toDigits hten le_rfl hc]

/-- A pid has at most ten digits. -/
theorem sum_toDigits_le {f : Char → ℕ} (hf : Covered decomposeCanonical f) (pid : UInt32) :
    ((Nat.toDigits 10 pid.toNat).map f).sum ≤ 10 := by
  have hlength : (Nat.toDigits 10 pid.toNat).length ≤ 10 :=
    (Nat.length_toDigits_le_iff (by decide) (by decide)).mpr (pid.toNat_lt.trans (by decide))
  have hascii : ∀ c ∈ Nat.toDigits 10 pid.toNat, c.toNat < 128 := by
    intro c hc
    exact toNat_lt_of_isAlphanum (isAlphanum_of_mem_toDigits hc)
  calc ((Nat.toDigits 10 pid.toNat).map f).sum
      ≤ (Nat.toDigits 10 pid.toNat).length := sum_ascii_le hf hascii
    _ ≤ 10 := hlength

theorem sum_name_le {f : Char → ℕ} (hf : Covered decomposeCanonical f) (pfx : String)
    (pid : UInt32) {random : String} (hlength : random.length = randomLen)
    (hrandom : ∀ c ∈ random.toList, c.isAlphanum) :
    ((tempDirName decomposeCanonical pfx pid random).toList.map f).sum ≤ nameMax := by
  have hdash : f '-' ≤ 1 := hf.ascii '-' (by decide)
  have hunder : f '_' ≤ 1 := hf.ascii '_' (by decide)
  have hbody := sum_safeChars_le hf pfx.toList
  have hpid := sum_toDigits_le hf pid
  have hr : (random.toList.map f).sum ≤ 6 := by
    apply (sum_ascii_le hf ?_).trans_eq hlength
    intro c hc
    exact toNat_lt_of_isAlphanum (hrandom c hc)
  have hfront : ((if isDosDevice (safeChars decomposeCanonical 0 pfx.toList ++ ['-']) then ['_']
      else []).map f).sum ≤ 1 := by
    split_ifs
    · simpa using hunder
    · exact Nat.zero_le 1
  have hbudget : budget = 236 := by decide
  have hmax : nameMax = 255 := rfl
  rw [tempDirName_eq, fileNameSafe_eq]
  simp only [List.map_append, List.map_cons, List.sum_append, List.sum_cons]
  omega

/-! The three measures. -/

theorem covered_utf8Size : Covered decomposeCanonical Char.utf8Size where
  le_cost _ := le_max_left _ _
  ascii c hc := by
    have hone : c.utf8Size = 1 := by
      apply Char.utf8Size_eq_one_iff.mpr
      apply UInt32.le_iff_toNat_le.mpr
      exact Nat.le_of_lt_succ hc
    omega

theorem covered_lenUtf16 : Covered decomposeCanonical lenUtf16 where
  le_cost c := (lenUtf16_le_utf8Size c).trans (le_max_left _ _)
  ascii c hc := by
    have hutf8 : Covered decomposeCanonical Char.utf8Size := covered_utf8Size
    exact (lenUtf16_le_utf8Size c).trans (hutf8.ascii c hc)

theorem covered_nfdUnits (hascii : ∀ c : Char, c.toNat < 128 → decomposeCanonical c = [c]) :
    Covered decomposeCanonical (nfdUnits decomposeCanonical) where
  le_cost _ := le_max_right _ _
  ascii c hc := by
    have hutf16 : Covered decomposeCanonical lenUtf16 := covered_lenUtf16
    rw [nfdUnits, hascii c hc]
    simpa using hutf16.ascii c hc

theorem sum_flatMap_lenUtf16 (name : List Char) :
    ((name.flatMap decomposeCanonical).map lenUtf16).sum =
      (name.map (nfdUnits decomposeCanonical)).sum := by
  induction name with
  | nil => rfl
  | cons c name ih =>
      rw [List.flatMap_cons, List.map_append, List.sum_append, ih]
      rfl

/-! ## Characters -/

/-- What may stand in a directory name. -/
def SafeChar (c : Char) : Prop :=
  isControl c = false ∧ c ∉ forbidden

theorem safeChar_sanitize (c : Char) : SafeChar (sanitize c) := by
  unfold sanitize
  split_ifs with h
  · exact ⟨by decide, by decide⟩
  · simp only [Bool.or_eq_true, decide_eq_true_eq, not_or, Bool.not_eq_true] at h
    exact h

theorem safeChar_of_isAlphanum {c : Char} (h : c.isAlphanum) : SafeChar c := by
  have hall : ∀ n < 128, (Char.ofNat n).isAlphanum →
      isControl (Char.ofNat n) = false ∧ Char.ofNat n ∉ forbidden := by decide +kernel
  rw [← Char.ofNat_toNat c] at h ⊢
  exact hall c.toNat (toNat_lt_of_isAlphanum (by rwa [Char.ofNat_toNat] at h)) h

theorem safeChar_of_mem_name (pfx : String) (pid : UInt32) {random : String}
    (hrandom : ∀ c ∈ random.toList, c.isAlphanum) {c : Char}
    (hc : c ∈ (tempDirName decomposeCanonical pfx pid random).toList) : SafeChar c := by
  have hunder : SafeChar '_' := ⟨by decide, by decide⟩
  have hdash : SafeChar '-' := ⟨by decide, by decide⟩
  rw [tempDirName_eq, fileNameSafe_eq, safeChars_eq] at hc
  simp only [List.mem_append, List.mem_cons, List.mem_map] at hc
  obtain (hfront | ⟨a, -, rfl⟩) | rfl | hpid | rfl | hr := hc
  · have : c = '_' := by
      split_ifs at hfront
      · exact List.mem_singleton.mp hfront
      · exact absurd hfront List.not_mem_nil
    rwa [this]
  · exact safeChar_sanitize a
  · exact hdash
  · exact safeChar_of_isAlphanum (isAlphanum_of_mem_toDigits hpid)
  · exact hdash
  · exact safeChar_of_isAlphanum (hrandom c hr)

/-! ## Device names -/

/-- The names, in upper case, that Win32 reads as DOS devices. -/
def IsDeviceName (s : List Char) : Prop :=
  s ∈ ["CON", "PRN", "AUX", "NUL", "CONIN$", "CONOUT$"].map String.toList ∨
    ∃ stem ∈ ["COM", "LPT"].map String.toList, ∃ d : Char,
      (d.isDigit ∨ d ∈ ['¹', '²', '³']) ∧ s = stem ++ [d]

theorem isDosDevice_iff (name : List Char) :
    isDosDevice name = true ↔ IsDeviceName ((deviceBase name).map Char.toUpper) := by
  unfold isDosDevice IsDeviceName
  generalize (deviceBase name).map Char.toUpper = upper
  simp only
  split_ifs with hname
  · exact ⟨fun _ => .inl hname, fun _ => rfl⟩
  · constructor
    · intro h
      simp only [Bool.and_eq_true, Bool.or_eq_true, decide_eq_true_eq] at h
      obtain ⟨hstem, hdigit⟩ := h
      split at hdigit
      next d hdrop =>
        refine .inr ⟨upper.take 3, by simpa using hstem, d, by simpa using hdigit, ?_⟩
        rw [← hdrop, List.take_append_drop]
      next => exact absurd hdigit Bool.false_ne_true
    · rintro (h | ⟨stem, hstem, d, hd, rfl⟩)
      · exact absurd h hname
      · have hall : ∀ stem ∈ ["COM", "LPT"].map String.toList, stem.length = 3 := by decide
        have hlength := hall stem hstem
        have htake : (stem ++ [d]).take 3 = stem := List.take_left' hlength
        have hdrop : (stem ++ [d]).drop 3 = [d] := List.drop_left' hlength
        have hstem' : stem = "COM".toList ∨ stem = "LPT".toList := by simpa using hstem
        have hd' : d.isDigit ∨ d = '¹' ∨ d = '²' ∨ d = '³' := by simpa using hd
        rw [htake, hdrop]
        simpa using ⟨hstem', hd'⟩

/-- A device name has neither of the characters that stand around the prefix. -/
theorem IsDeviceName.notMem {s : List Char} (h : IsDeviceName s) : '-' ∉ s ∧ '_' ∉ s := by
  obtain hname | ⟨stem, hstem, d, hd, rfl⟩ := h
  · have hall : ∀ s ∈ ["CON", "PRN", "AUX", "NUL", "CONIN$", "CONOUT$"].map String.toList,
        '-' ∉ s ∧ '_' ∉ s := by decide
    exact hall s hname
  · have hall : ∀ s ∈ ["COM", "LPT"].map String.toList, '-' ∉ s ∧ '_' ∉ s := by decide
    have hdash : d ≠ '-' := by
      intro h
      subst h
      revert hd
      decide
    have hunder : d ≠ '_' := by
      intro h
      subst h
      revert hd
      decide
    simp [hall stem hstem, hdash.symm, hunder.symm]

theorem mem_rdropWhile {p : Char → Bool} {l : List Char} {a : Char} (ha : a ∈ l)
    (hp : p a = false) : a ∈ l.rdropWhile p := by
  rw [← List.rdropWhile_append_rtakeWhile (p := p) (l := l)] at ha
  obtain hkept | hdropped := List.mem_append.mp ha
  · exact hkept
  · exact absurd (List.mem_rtakeWhile_imp hdropped) (by simp [hp])

theorem mem_deviceBase {l rest : List Char} {a : Char} (hl : '.' ∉ l) (hdot : a ≠ '.')
    (hblank : a ≠ ' ') : a ∈ deviceBase (l ++ a :: rest) := by
  apply mem_rdropWhile _ (by simpa using hblank)
  have hall : ∀ c ∈ l, decide (c ≠ '.') = true := by
    intro c hc
    exact decide_eq_true (ne_of_mem_of_not_mem hc hl)
  rw [List.takeWhile_append_of_pos hall, List.takeWhile_cons_of_pos (by simpa using hdot)]
  exact List.mem_append_right l List.mem_cons_self

/-- What comes after the first `.` does not matter. -/
theorem deviceBase_append {l : List Char} (hl : '.' ∈ l) (rest : List Char) :
    deviceBase (l ++ rest) = deviceBase l := by
  unfold deviceBase
  rw [List.takeWhile_append, if_neg]
  intro hlength
  have hself := (List.takeWhile_prefix fun c => decide (c ≠ '.')).eq_of_length hlength
  rw [← hself] at hl
  simpa using List.mem_takeWhile_imp hl

theorem not_isDeviceName_of_mem {name : List Char} {a : Char} (ha : a ∈ deviceBase name)
    (hupper : a.toUpper = '-' ∨ a.toUpper = '_') :
    ¬ IsDeviceName ((deviceBase name).map Char.toUpper) := by
  intro hdevice
  have hmem : a.toUpper ∈ (deviceBase name).map Char.toUpper := List.mem_map_of_mem ha
  obtain h | h := hupper
  · rw [h] at hmem
    exact hdevice.notMem.1 hmem
  · rw [h] at hmem
    exact hdevice.notMem.2 hmem

theorem not_isDeviceName_name (pfx : String) (pid : UInt32) (random : String) :
    ¬ IsDeviceName ((deviceBase (tempDirName decomposeCanonical pfx pid random).toList).map
      Char.toUpper) := by
  rw [tempDirName_eq, fileNameSafe_eq]
  set out := safeChars decomposeCanonical 0 pfx.toList
  split_ifs with hdevice
  · -- the `_` stands first
    apply not_isDeviceName_of_mem (a := '_') _ (.inr (by decide))
    exact mem_deviceBase (l := []) List.not_mem_nil (by decide) (by decide)
  · by_cases hdot : '.' ∈ out
    · rw [List.nil_append, deviceBase_append hdot, ← deviceBase_append hdot ['-']]
      exact fun h => hdevice ((isDosDevice_iff _).mpr h)
    · apply not_isDeviceName_of_mem (a := '-') _ (.inl (by decide))
      exact mem_deviceBase hdot (by decide) (by decide)

/-! ## Main theorem -/

/-- `kept` is the longest prefix of `pfx` that fits the budget, each character
costing what its replacement costs. -/
structure Kept (decomposeCanonical : Char → List Char) (pfx kept : List Char) : Prop where
  isPrefix : kept <+: pfx
  fits : (kept.map fun c => cost decomposeCanonical (sanitize c)).sum ≤ budget
  longest : ∀ p : List Char, p <+: pfx →
    (p.map fun c => cost decomposeCanonical (sanitize c)).sum ≤ budget → p <+: kept

theorem kept_takeWithin (pfx : List Char) : Kept decomposeCanonical pfx
    (Budget.takeWithin (inputCost decomposeCanonical) budget 0 pfx) where
  isPrefix := Budget.takeWithin_prefix_self 0 pfx
  fits := sum_kept_le pfx
  longest p hp hfits := Budget.prefix_takeWithin hp (by rwa [Nat.zero_add])

/-- What is promised of the name of a directory made for `pfx`.  Device names are
ASCII, so that case is ASCII case. -/
structure FitsAndSafe (decomposeCanonical : Char → List Char) (pfx name : String) : Prop where
  utf8 : name.utf8ByteSize ≤ nameMax
  utf16 : (name.toList.map lenUtf16).sum ≤ nameMax
  /-- The decomposition of a name is that of its characters, up to the order of
  combining marks. -/
  nfd : ∀ d : List Char, d.Perm (name.toList.flatMap decomposeCanonical) →
    (d.map lenUtf16).sum ≤ nameMax
  chars : ∀ c ∈ name.toList, isControl c = false ∧ c ∉ forbidden
  device : ¬ IsDeviceName ((deviceBase name.toList).map Char.toUpper)
  kept : ∃ kept, Kept decomposeCanonical pfx.toList kept ∧
    ((fileNameSafe decomposeCanonical pfx).toList = kept.map sanitize ∨
      (fileNameSafe decomposeCanonical pfx).toList = '_' :: kept.map sanitize)

/-- The name of a temporary directory fits every limit and is safe everywhere.
Of canonical decomposition only that it leaves ASCII alone is used. -/
theorem tempDirName_fits_and_safe
    (hascii : ∀ c : Char, c.toNat < 128 → decomposeCanonical c = [c]) (pfx : String)
    (pid : UInt32) (random : String) (hlength : random.length = randomLen)
    (hrandom : ∀ c ∈ random.toList, c.isAlphanum) :
    FitsAndSafe decomposeCanonical pfx (tempDirName decomposeCanonical pfx pid random) where
  utf8 := by
    rw [utf8ByteSize_eq_sum]
    exact sum_name_le covered_utf8Size pfx pid hlength hrandom
  utf16 := sum_name_le covered_lenUtf16 pfx pid hlength hrandom
  nfd d hd := by
    rw [(hd.map lenUtf16).sum_eq, sum_flatMap_lenUtf16]
    exact sum_name_le (covered_nfdUnits hascii) pfx pid hlength hrandom
  chars _ hc := safeChar_of_mem_name pfx pid hrandom hc
  device := not_isDeviceName_name pfx pid random
  kept := by
    refine ⟨_, kept_takeWithin pfx.toList, ?_⟩
    rw [fileNameSafe_eq, safeChars_eq]
    split_ifs
    · exact .inr rfl
    · exact .inl rfl

/-- Canonical decomposition, of `ΐ` alone. -/
def decomposeIota (c : Char) : List Char :=
  if c = 'ΐ' then ['ι', '\u0308', '\u0301'] else [c]

theorem tempDirName_fits_and_safe_iota : FitsAndSafe decomposeIota "nul .ΐ\n"
    (tempDirName decomposeIota "nul .ΐ\n" 4294967295 "a1B2c3") := by
  have hascii : ∀ c : Char, c.toNat < 128 → decomposeIota c = [c] := by
    intro c hc
    apply if_neg
    rintro rfl
    exact absurd hc (by decide)
  have hrandom : "a1B2c3".toList.all Char.isAlphanum := by decide +kernel
  exact tempDirName_fits_and_safe hascii "nul .ΐ\n" 4294967295 "a1B2c3" rfl
    (List.all_eq_true.mp hrandom)

end Skuld.TempDir
