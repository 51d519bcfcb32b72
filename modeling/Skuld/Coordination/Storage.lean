import Skuld.Label.Filter

/-!
# Serial filters as text

A serial filter travels as a string: `""` excludes nothing, `"*"` everything,
any other text is a label filter.  `blocks` is what the string means, `toStorage`
the canonical string that goes into the database and into the nextest metadata.

The canonical string means the same (`blocks_of_toStorage`), and is determined
by the meaning (`IsStored.eq_of_blocks`): in particular a filter that matches every
label list is stored as `"*"` and one that matches none as `""`.
-/

namespace Skuld

open BoolExpr

def serialNone : String := ""

def serialAll : String := "*"

/-- `none` is the panic on a filter that does not parse. -/
def toStorage (B : Bdd String) (serialFilter : String) : Option String :=
  if serialFilter = serialNone ∨ serialFilter = serialAll then
    some serialFilter
  else
    match LabelFilter.parse B serialFilter with
    | .error _ => none
    | .ok f => some <|
        if f.isTautology then serialAll
        else if f.isContradiction then serialNone
        else f.toString

/-- A serial string as a declaration may have it. -/
def IsSerial (B : Bdd String) (serial : String) : Prop :=
  serial = serialNone ∨ serial = serialAll ∨ ∃ f, LabelFilter.parse B serial = .ok f

/-- Whether a serial string excludes the tests with these labels. -/
def blocks (B : Bdd String) (serial : String) (labels : List Label) : Bool :=
  if serial = serialAll then true
  else if serial = serialNone then false
  else match LabelFilter.parse B serial with
    | .ok f => f.matches labels
    | .error _ => false

variable {B : Bdd String}

/-! ## The sentinels are not filters -/

theorem parseRawLabelExpr_sentinel {s : String} (h : s = serialNone ∨ s = serialAll) :
    ∀ e, parseRawLabelExpr s ≠ .ok e := by
  intro e he
  obtain ⟨ts, htokens, hts⟩ := parseRawLabelExpr_eq_ok_iff.mp he
  rcases h with rfl | rfl
  · rw [show serialNone.toList = [] from rfl, tokens_nil, Option.some.injEq] at htokens
    exact hts.ne_nil htokens.symm
  · rw [show serialAll.toList = ['*'] from rfl, tokens] at htokens
    simp [isBlank, isWordStart, Char.isAlpha, Char.isUpper, Char.isLower, symbol] at htokens

theorem ne_sentinel_of_parse {s : String} {f : LabelFilter B} (h : LabelFilter.parse B s = .ok f) :
    s ≠ serialNone ∧ s ≠ serialAll := by
  obtain ⟨e, hraw, -⟩ := LabelFilter.parse_eq_ok_iff.mp h
  exact ⟨fun heq => parseRawLabelExpr_sentinel (.inl heq) e hraw,
    fun heq => parseRawLabelExpr_sentinel (.inr heq) e hraw⟩

/-! ## What a serial string means -/

@[simp] theorem blocks_serialAll (labels : List Label) : blocks B serialAll labels = true := rfl

@[simp] theorem blocks_serialNone (labels : List Label) : blocks B serialNone labels = false := rfl

theorem blocks_of_parse {s : String} {f : LabelFilter B} (h : LabelFilter.parse B s = .ok f)
    (labels : List Label) : blocks B s labels = f.matches labels := by
  obtain ⟨hnone, hall⟩ := ne_sentinel_of_parse h
  rw [blocks, if_neg hall, if_neg hnone, h]

theorem blocks_toString (f : LabelFilter B) (labels : List Label) :
    blocks B f.toString labels = f.matches labels :=
  blocks_of_parse f.parse_toString labels

/-! ## The stored form -/

theorem toStorage_of_parse {s : String} {f : LabelFilter B} (h : LabelFilter.parse B s = .ok f) :
    toStorage B s = some (if f.isTautology then serialAll
      else if f.isContradiction then serialNone else f.toString) := by
  have hne := ne_sentinel_of_parse h
  rw [toStorage, if_neg (by simpa [not_or] using hne), h]

/-- `toStorage` panics on nothing that may be declared. -/
theorem toStorage_isSome_iff {s : String} : (toStorage B s).isSome = true ↔ IsSerial B s := by
  unfold toStorage IsSerial
  split_ifs with h
  · simp only [Option.isSome_some, true_iff]
    exact h.imp id .inl
  · rw [not_or] at h
    simp only [h, false_or]
    cases LabelFilter.parse B s <;> simp

/-- What `toStorage` returns. -/
def IsStored (B : Bdd String) (t : String) : Prop :=
  t = serialNone ∨ t = serialAll ∨
    ∃ f : LabelFilter B, f.isTautology = false ∧ f.isContradiction = false ∧ t = f.toString

theorem toStorage_spec {s t : String} (h : toStorage B s = some t) :
    IsStored B t ∧ ∀ labels, blocks B t labels = blocks B s labels := by
  by_cases hsentinel : s = serialNone ∨ s = serialAll
  · rw [toStorage, if_pos hsentinel, Option.some.injEq] at h
    subst h
    exact ⟨hsentinel.imp id .inl, fun _ => rfl⟩
  · cases hparse : LabelFilter.parse B s with
    | error err => simp [toStorage, hsentinel, hparse] at h
    | ok f =>
        rw [toStorage_of_parse hparse, Option.some.injEq] at h
        subst h
        simp only [blocks_of_parse hparse]
        split_ifs with htaut hcontra
        · exact ⟨.inr (.inl rfl), fun labels => (f.isTautology_iff.mp htaut labels).symm⟩
        · exact ⟨.inl rfl, fun labels => (f.isContradiction_iff.mp hcontra labels).symm⟩
        · exact ⟨.inr (.inr ⟨f, by simpa using htaut, by simpa using hcontra, rfl⟩),
            blocks_toString f⟩

theorem blocks_of_toStorage {s t : String} (h : toStorage B s = some t) (labels : List Label) :
    blocks B t labels = blocks B s labels :=
  (toStorage_spec h).2 labels

theorem IsStored.isSerial {t : String} (h : IsStored B t) : IsSerial B t := by
  rcases h with h | h | ⟨f, -, -, rfl⟩
  exacts [.inl h, .inr (.inl h), .inr (.inr ⟨f, f.parse_toString⟩)]

/-- The stored form is a fixed point. -/
theorem IsStored.toStorage_eq {t : String} (h : IsStored B t) : toStorage B t = some t := by
  rcases h with rfl | rfl | ⟨f, htaut, hcontra, rfl⟩
  · rfl
  · rfl
  · simp [toStorage_of_parse f.parse_toString, htaut, hcontra]

/-- Only `"*"` blocks everything and only `""` nothing. -/
theorem IsStored.eq_serialAll_iff {t : String} (h : IsStored B t) :
    t = serialAll ↔ ∀ labels, blocks B t labels = true := by
  constructor
  · rintro rfl _
    rfl
  · intro hall
    rcases h with rfl | rfl | ⟨f, htaut, -, rfl⟩
    · exact absurd (hall []) (by simp)
    · rfl
    · simp only [blocks_toString] at hall
      rw [f.isTautology_iff.mpr hall] at htaut
      cases htaut

theorem IsStored.eq_serialNone_iff {t : String} (h : IsStored B t) :
    t = serialNone ↔ ∀ labels, blocks B t labels = false := by
  constructor
  · rintro rfl _
    rfl
  · intro hall
    rcases h with rfl | rfl | ⟨f, -, hcontra, rfl⟩
    · rfl
    · exact absurd (hall []) (by simp)
    · simp only [blocks_toString] at hall
      rw [f.isContradiction_iff.mpr hall] at hcontra
      cases hcontra

/-- A stored string is determined by what it blocks. -/
theorem IsStored.eq_of_blocks {t t' : String} (h : IsStored B t) (h' : IsStored B t')
    (hblocks : ∀ labels, blocks B t labels = blocks B t' labels) : t = t' := by
  by_cases hall : t = serialAll
  · rw [hall, eq_comm, h'.eq_serialAll_iff]
    exact fun labels => hblocks labels ▸ h.eq_serialAll_iff.mp hall labels
  by_cases hnone : t = serialNone
  · rw [hnone, eq_comm, h'.eq_serialNone_iff]
    exact fun labels => hblocks labels ▸ h.eq_serialNone_iff.mp hnone labels
  have hall' : t' ≠ serialAll := fun heq =>
    hall (h.eq_serialAll_iff.mpr fun labels => hblocks labels ▸ h'.eq_serialAll_iff.mp heq labels)
  have hnone' : t' ≠ serialNone := fun heq =>
    hnone (h.eq_serialNone_iff.mpr fun labels =>
      hblocks labels ▸ h'.eq_serialNone_iff.mp heq labels)
  obtain ⟨f, -, -, rfl⟩ := (h.resolve_left hnone).resolve_left hall
  obtain ⟨g, -, -, rfl⟩ := (h'.resolve_left hnone').resolve_left hall'
  simp only [blocks_toString] at hblocks
  rw [LabelFilter.eq_iff_matches.mpr hblocks]

/-- Equal storage is equal blocking; the sentinels stand for blocking everything
and nothing, any other stored string is a filter, and storing twice is storing
once. -/
theorem toStorage_eq_iff_blocks (B : Bdd String) {a b : String} (ha : IsSerial B a)
    (hb : IsSerial B b) :
    ∃ a' b', toStorage B a = some a' ∧ toStorage B b = some b' ∧
      (a' = b' ↔ ∀ labels, blocks B a labels = blocks B b labels) ∧
      (a' = serialAll ↔ ∀ labels, blocks B a labels = true) ∧
      (a' = serialNone ↔ ∀ labels, blocks B a labels = false) ∧
      (a' ≠ serialAll → a' ≠ serialNone → ∃ f, LabelFilter.parse B a' = .ok f ∧
        ∀ labels, f.matches labels = blocks B a labels) ∧
      toStorage B a' = some a' := by
  obtain ⟨a', ha'⟩ := Option.isSome_iff_exists.mp (toStorage_isSome_iff.mpr ha)
  obtain ⟨b', hb'⟩ := Option.isSome_iff_exists.mp (toStorage_isSome_iff.mpr hb)
  obtain ⟨hstored, hblocks⟩ := toStorage_spec ha'
  obtain ⟨hstored', hblocks'⟩ := toStorage_spec hb'
  refine ⟨a', b', ha', hb', ?_, ?_, ?_, fun hall hnone => ?_, hstored.toStorage_eq⟩
  · constructor
    · intro heq labels
      rw [← hblocks, heq, hblocks']
    · intro hsame
      refine hstored.eq_of_blocks hstored' fun labels => ?_
      rw [hblocks, hsame, hblocks']
  · simp only [hstored.eq_serialAll_iff, hblocks]
  · simp only [hstored.eq_serialNone_iff, hblocks]
  · obtain ⟨f, -, -, rfl⟩ := (hstored.resolve_left hnone).resolve_left hall
    refine ⟨f, f.parse_toString, fun labels => ?_⟩
    rw [← hblocks, blocks_toString]

/-- Two spellings of one filter. -/
theorem toStorage_eq_iff_blocks_double_negation :
    ∃ t, toStorage (shannon String) "!!disk" = some t ∧
      toStorage (shannon String) "DISK" = some t := by
  have hnot : parseRawLabelExpr "!!disk" = .ok (.not (.not (.terminal "disk"))) := by
    decide +kernel
  have hdisk : parseRawLabelExpr "DISK" = .ok (.terminal "disk") := by decide +kernel
  have hnot' := LabelFilter.parse_of_raw (B := shannon String) hnot
  have hdisk' := LabelFilter.parse_of_raw (B := shannon String) hdisk
  obtain ⟨a', b', ha', hb', heq, -⟩ := toStorage_eq_iff_blocks (shannon String)
    (.inr (.inr ⟨_, hnot'⟩)) (.inr (.inr ⟨_, hdisk'⟩))
  have hsame : a' = b' := heq.mpr fun labels => by
    rw [blocks_of_parse hnot', blocks_of_parse hdisk', LabelFilter.matches_ofExpr,
      LabelFilter.matches_ofExpr]
    exact Bool.not_not _
  exact ⟨a', ha', hsame ▸ hb'⟩

end Skuld
