import Mathlib.Data.Prod.Lex
import Skuld.Xtask.Version

/-!
# The release check

The workspace version has to be that of a nearest tag, or one bump above it.  The
comparison adds one to the components of the tag, which are 64-bit integers: at
the limit a build with overflow checks panics, and one without them goes on with
zero, so that a lower version passes.

An addition is made only if the comparisons before it leave the answer open.
`isValidNext_spec` and `isValidNext_overflow` separate the two cases for one tag;
over a list, a tag that the version follows hides all the tags after it
(`LimitsGuarded`).
-/

namespace Skuld

def u64Max : UInt64 := 0xffffffffffffffff

/-- `Display` of a version. -/
def Version.toString (v : Version) : String :=
  s!"{v.major}.{v.minor}.{v.patch}" ++ (if v.pre.isEmpty then "" else "-" ++ v.pre) ++
    (if v.build.isEmpty then "" else "+" ++ v.build)

/-- How the check fails: the panic of an addition, or an error with its text. -/
inductive CheckFailure where
  | overflow
  | rejected (message : String)
  deriving DecidableEq

def formatTagList (tags : List TagInfo) : String :=
  ", ".intercalate (tags.map TagInfo.name)

/-! The texts of the three errors. -/

def noTagsText : String :=
  "no ancestor version tags found; --exact requires at least one"

def mismatchText (cargoVer : Version) (nearest : List TagInfo) : String :=
  s!"Cargo.toml version {cargoVer.toString} does not match any nearest ancestor tag " ++
    s!"({formatTagList nearest})"

def noSuccessorText (cargoVer : Version) (nearest : List TagInfo) : String :=
  s!"Cargo.toml version {cargoVer.toString} is not a valid successor of any nearest ancestor " ++
    s!"tag ({formatTagList nearest}); allowed: same, or one patch/minor/major bump from any"

section

-- whether the program is built with overflow checks
variable (overflowChecks : Bool)

/-- `n + 1`. -/
def addOne (n : UInt64) : Except CheckFailure UInt64 :=
  if overflowChecks && n = u64Max then .error .overflow else .ok (n + 1)

/-- `m == n + 1`. -/
def equalsNext (m n : UInt64) : Except CheckFailure Bool :=
  return m = (← addOne overflowChecks n)

def isValidNext (tag cur : Version) : Except CheckFailure Bool :=
  pure (cur = tag) <||>
    (pure (cur.major = tag.major && cur.minor = tag.minor) <&&>
      equalsNext overflowChecks cur.patch tag.patch) <||>
    (pure (cur.major = tag.major) <&&> equalsNext overflowChecks cur.minor tag.minor <&&>
      pure (cur.patch = 0)) <||>
    (equalsNext overflowChecks cur.major tag.major <&&> pure (cur.minor = 0 && cur.patch = 0))

def validateCargoAgainstNearest (cargoVer : Version) (nearest : List TagInfo) (exact : Bool) :
    Except CheckFailure Unit :=
  if nearest.isEmpty then
    -- without a baseline everything passes
    if exact then .error (.rejected noTagsText) else .ok ()
  else if exact then
    if !nearest.any fun t => t.version = cargoVer then
      .error (.rejected (mismatchText cargoVer nearest))
    else
      .ok ()
  else do
    if !(← nearest.anyM fun t => isValidNext overflowChecks t.version cargoVer) then
      .error (.rejected (noSuccessorText cargoVer nearest))
    else
      .ok ()

end

/-! ## What the check is for -/

/-- The numbers of a version, in the order of precedence; a strict version has
nothing else. -/
def Version.numbers (v : Version) : ℕ ×ₗ ℕ ×ₗ ℕ :=
  toLex (v.major.toNat, toLex (v.minor.toNat, v.patch.toNat))

/-- `cur` is one bump above `tag`, with the lower components reset. -/
inductive IsBump (tag cur : Version) : Prop
  | patch (hmajor : cur.major = tag.major) (hminor : cur.minor = tag.minor)
      (hpatch : cur.patch.toNat = tag.patch.toNat + 1)
  | minor (hmajor : cur.major = tag.major) (hminor : cur.minor.toNat = tag.minor.toNat + 1)
      (hpatch : cur.patch = 0)
  | major (hmajor : cur.major.toNat = tag.major.toNat + 1) (hminor : cur.minor = 0)
      (hpatch : cur.patch = 0)

def IsNext (tag cur : Version) : Prop :=
  cur = tag ∨ IsBump tag cur

/-- A component of the tag that the comparison can come to is at its limit. -/
def AtLimit (tag cur : Version) : Prop :=
  tag.major = u64Max ∨ (cur.major = tag.major ∧ tag.minor = u64Max) ∨
    (cur.major = tag.major ∧ cur.minor = tag.minor ∧ tag.patch = u64Max)

/-- Every tag at the limit, if the version does not follow it, comes after one
that the version follows. -/
def LimitsGuarded (cur : Version) (nearest : List TagInfo) : Prop :=
  ∀ before t after, nearest = before ++ t :: after → AtLimit t.version cur →
    ∃ t' ∈ before ++ [t], IsNext t'.version cur

/-- What is promised of the check, in builds with and without overflow checks. -/
structure ReleaseCheckSafe (cur : Version) (nearest : List TagInfo) (exact : Bool) : Prop where
  noOverflow : validateCargoAgainstNearest true cur nearest exact ≠ .error .overflow
  exact_iff : exact = true → ∀ overflowChecks,
    validateCargoAgainstNearest overflowChecks cur nearest exact = .ok () ↔
      ∃ t ∈ nearest, t.version = cur
  next_iff : exact = false → nearest ≠ [] → ∀ overflowChecks,
    validateCargoAgainstNearest overflowChecks cur nearest exact = .ok () ↔
      ∃ t ∈ nearest, IsNext t.version cur
  notLower : nearest ≠ [] → ∀ overflowChecks,
    validateCargoAgainstNearest overflowChecks cur nearest exact = .ok () →
      ∃ t ∈ nearest, t.version.numbers ≤ cur.numbers

variable {tag cur : Version} {nearest : List TagInfo} {overflowChecks : Bool}

/-! ## One tag -/

theorem equalsNext_of_ne {n m : UInt64} (h : n ≠ u64Max) :
    equalsNext overflowChecks m n = pure (decide (m.toNat = n.toNat + 1)) := by
  have hmax : u64Max.toNat = 2 ^ 64 - 1 := rfl
  have hne : n.toNat ≠ u64Max.toNat := fun heq => h (UInt64.toNat_inj.mp heq)
  have hlt := n.toNat_lt
  have hsum : (n + 1).toNat = n.toNat + 1 := by
    rw [UInt64.toNat_add]
    change (n.toNat + 1) % 2 ^ 64 = n.toNat + 1
    exact Nat.mod_eq_of_lt (by omega)
  have hok : addOne overflowChecks n = pure (n + 1) := by
    rw [addOne, decide_eq_false h, Bool.and_false]
    rfl
  rw [equalsNext, hok, pure_bind, ← hsum]
  simp only [UInt64.toNat_inj]

theorem equalsNext_u64Max (m : UInt64) : equalsNext true m u64Max = .error .overflow := rfl

/-- What is one above has a successor, so that it is not at the limit. -/
theorem ne_u64Max_of_eq {n m : UInt64} (h : m.toNat = n.toNat + 1) : n ≠ u64Max := by
  rintro rfl
  have hlt := m.toNat_lt
  have hmax : u64Max.toNat = 2 ^ 64 - 1 := rfl
  omega

/-- On the way to the bump that fits, nothing else is added to. -/
theorem isValidNext_of_isNext (h : IsNext tag cur) :
    isValidNext overflowChecks tag cur = pure true := by
  unfold isValidNext
  simp only [Loop.pure_orM, Loop.pure_andM]
  obtain rfl | h := h
  · simp
  cases h with
  | patch hmajor hminor hpatch =>
      rw [equalsNext_of_ne (ne_u64Max_of_eq hpatch)]
      simp [hmajor, hminor, hpatch, Loop.pure_orM]
  | minor hmajor hminor hpatch =>
      have hne : cur.minor ≠ tag.minor := fun heq => by rw [heq] at hminor; omega
      rw [equalsNext_of_ne (ne_u64Max_of_eq hminor)]
      simp [hmajor, hminor, hne, hpatch, Loop.pure_orM, Loop.pure_andM]
  | major hmajor hminor hpatch =>
      have hne : cur.major ≠ tag.major := fun heq => by rw [heq] at hmajor; omega
      rw [equalsNext_of_ne (ne_u64Max_of_eq hmajor)]
      simp [hmajor, hne, hminor, hpatch, Loop.pure_orM, Loop.pure_andM]

section

variable (hbump : ¬ IsBump tag cur)
include hbump

theorem patch_attempt
    (hlimit : cur.major = tag.major → cur.minor = tag.minor → tag.patch ≠ u64Max) :
    (pure (cur.major = tag.major && cur.minor = tag.minor) <&&>
      equalsNext overflowChecks cur.patch tag.patch) = pure false := by
  rw [Loop.pure_andM]
  split_ifs with hsame
  · simp only [Bool.and_eq_true, decide_eq_true_eq] at hsame
    obtain ⟨hmajor, hminor⟩ := hsame
    rw [equalsNext_of_ne (hlimit hmajor hminor),
      decide_eq_false fun hpatch => hbump (.patch hmajor hminor hpatch)]
  · rfl

theorem minor_attempt (hlimit : cur.major = tag.major → tag.minor ≠ u64Max) :
    (pure (decide (cur.major = tag.major)) <&&> equalsNext overflowChecks cur.minor tag.minor <&&>
      pure (decide (cur.patch = 0))) = pure false := by
  rw [Loop.pure_andM]
  split_ifs with hsame
  · have hmajor : cur.major = tag.major := of_decide_eq_true hsame
    rw [equalsNext_of_ne (hlimit hmajor), Loop.pure_andM]
    split_ifs with hminor
    · rw [decide_eq_false fun hpatch => hbump (.minor hmajor (of_decide_eq_true hminor) hpatch)]
    · rfl
  · rfl

theorem major_attempt (hlimit : tag.major ≠ u64Max) :
    (equalsNext overflowChecks cur.major tag.major <&&> pure (cur.minor = 0 && cur.patch = 0)) =
      pure false := by
  rw [equalsNext_of_ne hlimit, Loop.pure_andM]
  split_ifs with hmajor
  · have hrest : ¬ (cur.minor = 0 ∧ cur.patch = 0) :=
      fun ⟨hminor, hpatch⟩ => hbump (.major (of_decide_eq_true hmajor) hminor hpatch)
    rw [← Bool.decide_and, decide_eq_false hrest]
  · rfl

end

theorem isValidNext_of_not_atLimit (hnext : ¬ IsNext tag cur) (hlimit : ¬ AtLimit tag cur) :
    isValidNext overflowChecks tag cur = pure false := by
  obtain ⟨hne, hbump⟩ := not_or.mp hnext
  simp only [AtLimit, not_or, not_and] at hlimit
  obtain ⟨hmajor, hminor, hpatch⟩ := hlimit
  rw [isValidNext, patch_attempt hbump hpatch, minor_attempt hbump hminor,
    major_attempt hbump hmajor, decide_eq_false hne]
  rfl

theorem isValidNext_overflow (hnext : ¬ IsNext tag cur) (hlimit : AtLimit tag cur) :
    isValidNext true tag cur = .error .overflow := by
  obtain ⟨hne, hbump⟩ := not_or.mp hnext
  rw [isValidNext, decide_eq_false hne]
  by_cases hpatch : cur.major = tag.major ∧ cur.minor = tag.minor ∧ tag.patch = u64Max
  · obtain ⟨hmajor, hminor, hmax⟩ := hpatch
    rw [hmax, equalsNext_u64Max, decide_eq_true hmajor, decide_eq_true hminor]
    rfl
  rw [patch_attempt hbump fun hmajor hminor hmax => hpatch ⟨hmajor, hminor, hmax⟩]
  by_cases hminor : cur.major = tag.major ∧ tag.minor = u64Max
  · obtain ⟨hmajor, hmax⟩ := hminor
    rw [hmax, equalsNext_u64Max, decide_eq_true hmajor]
    rfl
  rw [minor_attempt hbump fun hmajor hmax => hminor ⟨hmajor, hmax⟩]
  obtain hmajor | h | h := hlimit
  · rw [hmajor, equalsNext_u64Max]
    rfl
  · exact absurd h hminor
  · exact absurd h hpatch

/-! ## The tags -/

theorem limitsGuarded_nil : LimitsGuarded cur [] := by
  intro before t after h
  simp at h

/-- A tag that the version follows hides the tags after it. -/
theorem limitsGuarded_cons {t : TagInfo} : LimitsGuarded cur (t :: nearest) ↔
    IsNext t.version cur ∨ (¬ AtLimit t.version cur ∧ LimitsGuarded cur nearest) := by
  constructor
  · intro h
    by_cases hnext : IsNext t.version cur
    · exact .inl hnext
    refine .inr ⟨fun hlimit => ?_, fun before t' after heq hlimit => ?_⟩
    · obtain ⟨t', ht', hnext'⟩ := h [] t nearest rfl hlimit
      rw [List.nil_append, List.mem_singleton] at ht'
      exact hnext (ht' ▸ hnext')
    · obtain ⟨t'', ht'', hnext''⟩ := h (t :: before) t' after (by rw [heq]; rfl) hlimit
      rcases List.mem_cons.mp ht'' with rfl | ht''
      · exact absurd hnext'' hnext
      · exact ⟨t'', ht'', hnext''⟩
  · intro h before t' after heq hlimit
    cases before with
    | nil =>
        obtain ⟨rfl, -⟩ := List.cons.inj heq
        obtain hnext | ⟨hnot, -⟩ := h
        · exact ⟨t, List.mem_cons_self, hnext⟩
        · exact absurd hlimit hnot
    | cons b before =>
        obtain ⟨rfl, htail⟩ := List.cons.inj heq
        obtain hnext | ⟨-, hguarded⟩ := h
        · exact ⟨t, List.mem_cons_self, hnext⟩
        · obtain ⟨t'', ht'', hnext''⟩ := hguarded before t' after htail hlimit
          exact ⟨t'', List.mem_cons_of_mem _ ht'', hnext''⟩

theorem anyM_isValidNext (h : LimitsGuarded cur nearest) (overflowChecks : Bool) :
    ∃ found, nearest.anyM (fun t => isValidNext overflowChecks t.version cur) = pure found ∧
      (found = true ↔ ∃ t ∈ nearest, IsNext t.version cur) := by
  induction nearest with
  | nil => exact ⟨false, rfl, by simp⟩
  | cons t nearest ih =>
      rw [List.anyM]
      by_cases hnext : IsNext t.version cur
      · rw [isValidNext_of_isNext hnext, pure_bind]
        exact ⟨true, rfl, iff_of_true rfl ⟨t, List.mem_cons_self, hnext⟩⟩
      · obtain ⟨hlimit, hguarded⟩ := (limitsGuarded_cons.mp h).resolve_left hnext
        obtain ⟨found, hfound, hiff⟩ := ih hguarded
        rw [isValidNext_of_not_atLimit hnext hlimit, pure_bind]
        refine ⟨found, hfound, hiff.trans ?_⟩
        simp [hnext]

theorem anyM_isValidNext_overflow (h : ¬ LimitsGuarded cur nearest) :
    nearest.anyM (fun t => isValidNext true t.version cur) = .error .overflow := by
  induction nearest with
  | nil => exact absurd limitsGuarded_nil h
  | cons t nearest ih =>
      rw [limitsGuarded_cons, not_or, not_and] at h
      obtain ⟨hnext, hrest⟩ := h
      rw [List.anyM]
      by_cases hlimit : AtLimit t.version cur
      · rw [isValidNext_overflow hnext hlimit]
        rfl
      · rw [isValidNext_of_not_atLimit hnext hlimit, pure_bind]
        exact ih (hrest hlimit)

/-! ## Precedence -/

theorem IsBump.lt (h : IsBump tag cur) : tag.numbers < cur.numbers := by
  unfold Version.numbers
  rw [Prod.Lex.toLex_lt_toLex, Prod.Lex.toLex_lt_toLex]
  cases h with
  | patch hmajor hminor hpatch =>
      rw [hmajor, hminor, hpatch]
      exact .inr ⟨rfl, .inr ⟨rfl, Nat.lt_succ_self _⟩⟩
  | minor hmajor hminor _ =>
      rw [hmajor, hminor]
      exact .inr ⟨rfl, .inl (Nat.lt_succ_self _)⟩
  | major hmajor _ _ =>
      rw [hmajor]
      exact .inl (Nat.lt_succ_self _)

theorem IsNext.le (h : IsNext tag cur) : tag.numbers ≤ cur.numbers := by
  obtain rfl | hbump := h
  · exact le_rfl
  · exact hbump.lt.le

/-! ## The check -/

theorem validate_exact_eq_ok_iff :
    validateCargoAgainstNearest overflowChecks cur nearest true = .ok () ↔
      ∃ t ∈ nearest, t.version = cur := by
  have hany : (nearest.any fun t => t.version = cur) = true ↔ ∃ t ∈ nearest, t.version = cur := by
    simp only [List.any_eq_true, decide_eq_true_eq]
  unfold validateCargoAgainstNearest
  rw [if_pos rfl, if_pos rfl, ← hany]
  cases nearest with
  | nil => simp
  | cons t nearest =>
      rw [if_neg (by simp)]
      cases (t :: nearest).any fun t => t.version = cur <;> simp

theorem validate_exact_ne_overflow :
    validateCargoAgainstNearest overflowChecks cur nearest true ≠ .error .overflow := by
  unfold validateCargoAgainstNearest
  rw [if_pos rfl, if_pos rfl]
  split_ifs <;> simp

theorem validate_eq_of_anyM (hne : nearest ≠ []) :
    validateCargoAgainstNearest overflowChecks cur nearest false =
      (nearest.anyM fun t => isValidNext overflowChecks t.version cur).bind fun found =>
        if found then .ok () else .error (.rejected (noSuccessorText cur nearest)) := by
  unfold validateCargoAgainstNearest
  rw [if_neg (by simpa using hne), if_neg Bool.false_ne_true]
  cases nearest.anyM fun t => isValidNext overflowChecks t.version cur with
  | error e => rfl
  | ok found => cases found <;> rfl

section

variable (hguarded : LimitsGuarded cur nearest)
include hguarded

theorem validate_ne_overflow :
    validateCargoAgainstNearest overflowChecks cur nearest false ≠ .error .overflow := by
  by_cases hne : nearest = []
  · subst hne
    exact fun h => by cases h
  · obtain ⟨found, hfound, -⟩ := anyM_isValidNext hguarded overflowChecks
    rw [validate_eq_of_anyM hne, hfound]
    cases found with
    | false => exact fun h => by cases h
    | true => exact fun h => by cases h

theorem validate_eq_ok_iff (hne : nearest ≠ []) :
    validateCargoAgainstNearest overflowChecks cur nearest false = .ok () ↔
      ∃ t ∈ nearest, IsNext t.version cur := by
  obtain ⟨found, hfound, hiff⟩ := anyM_isValidNext hguarded overflowChecks
  rw [validate_eq_of_anyM hne, hfound, ← hiff]
  cases found with
  | false => exact iff_of_false (fun h => by cases h) Bool.false_ne_true
  | true => exact iff_of_true rfl rfl

end

/-- The check keeps its promises if and only if it is exact or adds to no component
at its limit. -/
theorem release_check_safe_iff (cur : Version) (nearest : List TagInfo) (exact : Bool) :
    ReleaseCheckSafe cur nearest exact ↔ exact = true ∨ LimitsGuarded cur nearest := by
  constructor
  · intro hsafe
    cases exact with
    | true => exact .inl rfl
    | false =>
        right
        by_contra hguarded
        have hne : nearest ≠ [] := by
          rintro rfl
          exact hguarded limitsGuarded_nil
        apply hsafe.noOverflow
        rw [validate_eq_of_anyM hne, anyM_isValidNext_overflow hguarded]
        rfl
  · intro h
    cases exact with
    | true =>
        refine ⟨validate_exact_ne_overflow, fun _ _ => validate_exact_eq_ok_iff,
          fun hfalse => Bool.noConfusion hfalse, fun _ _ hok => ?_⟩
        obtain ⟨t, ht, rfl⟩ := validate_exact_eq_ok_iff.mp hok
        exact ⟨t, ht, le_rfl⟩
    | false =>
        have hguarded : LimitsGuarded cur nearest := h.resolve_left Bool.false_ne_true
        refine ⟨validate_ne_overflow hguarded, fun htrue => Bool.noConfusion htrue,
          fun _ hne _ => validate_eq_ok_iff hguarded hne, fun hne _ hok => ?_⟩
        obtain ⟨t, ht, hnext⟩ := (validate_eq_ok_iff hguarded hne).mp hok
        exact ⟨t, ht, hnext.le⟩

/-- A patch number that has no successor. -/
def lastPatch : TagInfo where
  name := "v1.2.18446744073709551615"
  sha := 0
  version := ⟨1, 2, 18446744073709551615, "", ""⟩

/-- With overflow checks the comparison panics; without them the lower version
passes. -/
theorem release_check_at_limit :
    validateCargoAgainstNearest true ⟨1, 2, 0, "", ""⟩ [lastPatch] false = .error .overflow ∧
      validateCargoAgainstNearest false ⟨1, 2, 0, "", ""⟩ [lastPatch] false = .ok () ∧
      Version.numbers ⟨1, 2, 0, "", ""⟩ < lastPatch.version.numbers ∧
      ¬ ReleaseCheckSafe ⟨1, 2, 0, "", ""⟩ [lastPatch] false := by
  refine ⟨rfl, rfl, ?_, fun hsafe => hsafe.noOverflow rfl⟩
  decide

end Skuld
