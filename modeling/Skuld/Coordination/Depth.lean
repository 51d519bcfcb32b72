import Skuld.Coordination.Database

/-!
# How large a filter may be

SQLite counts the height of a condition twice, once in the query and once in the
subquery that the condition belongs to.  A conjunction of labels is read back as a
chain, so that its height is the number of labels, up to a constant: beyond 493
labels the query is refused (`shallow_conj_iff`).
-/

namespace Skuld

open BoolExpr

/-! ## Sorting keeps the depth -/

theorem height_toSqlExpr_sortChildren (e : LabelExpr) :
    (toSqlExpr (sortChildren e)).height = (toSqlExpr e).height := by
  induction e with
  | terminal t => rfl
  | const b => rfl
  | not e ih => exact congrArg (· + 1) ih
  | and a b iha ihb | or a b iha ihb =>
      rcases sortPair_cases (sortChildren a) (sortChildren b) with h | h
      · simp only [sortChildren, h, toSqlExpr, SqlCond.height, iha, ihb]
      · simp only [sortChildren, h, toSqlExpr, SqlCond.height, iha, ihb]
        omega

theorem overhang_toSqlExpr_sortChildren (e : LabelExpr) :
    (toSqlExpr (sortChildren e)).overhang = (toSqlExpr e).overhang := by
  induction e with
  | terminal t => rfl
  | const b => rfl
  | not e ih => exact ih
  | and a b iha ihb | or a b iha ihb =>
      rcases sortPair_cases (sortChildren a) (sortChildren b) with h | h
      · simp only [sortChildren, h, toSqlExpr, SqlCond.overhang, iha, ihb]
      · simp only [sortChildren, h, toSqlExpr, SqlCond.overhang, iha, ihb]
        omega

theorem queryDepth_sortChildren (e : LabelExpr) :
    (toSqlExpr (sortChildren e)).queryDepth = (toSqlExpr e).queryDepth := by
  rw [SqlCond.queryDepth, SqlCond.queryDepth, height_toSqlExpr_sortChildren,
    overhang_toSqlExpr_sortChildren]

/-! ## Conjunctions -/

theorem height_toSqlExpr_conj {ts : List String} (hne : ts ≠ []) :
    (toSqlExpr (.conj ts)).height = ts.length + 4 := by
  induction ts using Expr.conj.induct with
  | case1 => exact absurd rfl hne
  | case2 t => rfl
  | case3 t u ts ih =>
      have hrest := ih (List.cons_ne_nil u ts)
      simp only [Expr.conj, toSqlExpr, SqlCond.height, hrest, List.length_cons]
      omega

theorem overhang_toSqlExpr_conj {ts : List String} (hne : ts ≠ []) :
    (toSqlExpr (.conj ts)).overhang = 4 := by
  induction ts using Expr.conj.induct with
  | case1 => exact absurd rfl hne
  | case2 t => rfl
  | case3 t u ts ih =>
      have hrest := ih (List.cons_ne_nil u ts)
      simp only [Expr.conj, toSqlExpr, SqlCond.overhang, hrest]
      rfl

theorem queryDepth_conj {ts : List String} (hne : ts ≠ []) :
    (toSqlExpr (.conj ts)).queryDepth = 2 * ts.length + 13 := by
  rw [SqlCond.queryDepth, height_toSqlExpr_conj hne, overhang_toSqlExpr_conj hne]
  omega

/-- The canonical form is the conjunction of the labels in order. -/
theorem canonicalize_conj {names : List String} (hne : names ≠ []) :
    canonicalize (shannon String) (.conj names) =
      sortChildren (.conj (SortDedup.sortDedup names)) := by
  have hterms : collectTerminals (.conj names) = names := terminals_conj names
  have hsorted : SortDedup.sortDedup names ≠ [] := by
    obtain ⟨t, ht⟩ := List.exists_mem_of_ne_nil names hne
    exact List.ne_nil_of_mem (SortDedup.mem_sortDedup.mpr ht)
  have hequiv : (Expr.conj names).Equiv (.conj (SortDedup.sortDedup names)) := by
    intro ρ
    rw [eval_conj, eval_conj, Bool.eq_iff_iff, List.all_eq_true, List.all_eq_true]
    simp only [SortDedup.mem_sortDedup]
  rw [canonicalize, hterms]
  simp only [if_neg hsorted]
  have hread : (shannon String).roundTrip (SortDedup.sortDedup names) (.conj names) =
      .conj (SortDedup.sortDedup names) :=
    (expand_congr_order hequiv).trans (expand_conj (SortDedup.pairwise_sortDedup names))
  rw [hread]

theorem length_sortDedup {names : List String} (hnodup : names.Nodup) :
    (SortDedup.sortDedup names).length = names.length := by
  refine List.Perm.length_eq ((List.perm_ext_iff_of_nodup ?_ hnodup).mpr fun t => ?_)
  · exact (SortDedup.pairwise_sortDedup names).imp ne_of_lt
  · exact SortDedup.mem_sortDedup

/-- A printed conjunction of labels is accepted up to 493 labels. -/
theorem shallow_conj_iff {names : List String} (hne : names ≠ []) (hnodup : names.Nodup)
    (hnames : LabelNames (.conj names)) :
    shallow (shannon String) (formatExpr (.conj names)) = true ↔ names.length ≤ 493 := by
  obtain ⟨e, hraw, hassoc⟩ := parseRawLabelExpr_formatExpr hnames
  have hcanonical : canonicalize (shannon String) e =
      sortChildren (.conj (SortDedup.sortDedup names)) :=
    (canonicalize_congr hassoc.equiv.symm).trans (canonicalize_conj hne)
  have hsorted : SortDedup.sortDedup names ≠ [] := by
    rw [← List.length_pos_iff, length_sortDedup hnodup]
    exact List.length_pos_iff.mpr hne
  have hdepth : (toSqlExpr (canonicalize (shannon String) e)).queryDepth =
      2 * names.length + 13 := by
    rw [hcanonical, queryDepth_sortChildren, queryDepth_conj hsorted, length_sortDedup hnodup]
  rw [shallow_of_parse (LabelFilter.parse_of_raw hraw)]
  change (toSqlExpr (canonicalize (shannon String) e)).queryDepth ≤ Sql.maxExprDepth ↔ _
  rw [hdepth, Sql.maxExprDepth]
  omega

/-! ## A long conjunction -/

/-- The labels `l`, `ll`, `lll` and so on. -/
def manyNames (n : ℕ) : List String :=
  (List.range n).map fun i => String.ofList (List.replicate (i + 1) 'l')

theorem nodup_manyNames (n : ℕ) : (manyNames n).Nodup := by
  refine (List.nodup_range (n := n)).map fun i j heq => ?_
  have hlength := congrArg (fun name : String => name.toList.length) heq
  simpa using hlength

theorem isLabelName_of_mem_manyNames {n : ℕ} {name : String} (h : name ∈ manyNames n) :
    IsLabelName name := by
  obtain ⟨i, -, rfl⟩ := List.mem_map.mp h
  have hall : ∀ p : Char → Bool, p 'l' = true → (List.replicate i 'l').all p = true :=
    fun p hp => List.all_eq_true.mpr fun c hc => (List.eq_of_mem_replicate hc) ▸ hp
  refine isLabelName_iff.mpr ⟨'l', List.replicate i 'l', String.toList_ofList, by decide,
    hall _ (by decide), ?_, ?_⟩
  · intro hreserved
    simp only [reservedLabelNames, List.mem_cons, List.not_mem_nil, or_false] at hreserved
    rcases hreserved with heq | heq
    all_goals
      have hhead := congrArg (fun name : String => name.toList.head?) heq
      simp [List.replicate_succ] at hhead
  · rw [List.all_cons, hall _ (by decide)]
    rfl

theorem labelNames_manyNames (n : ℕ) : LabelNames (.conj (manyNames n)) := by
  intro t ht
  rw [terminals_conj] at ht
  exact isLabelName_of_mem_manyNames ht

/-- `l & ll & lll & ..` -/
def longSerial (n : ℕ) : String :=
  formatExpr (.conj (manyNames n))

theorem isSerial_longSerial (n : ℕ) : IsSerial (shannon String) (longSerial n) := by
  obtain ⟨e, hraw, -⟩ := parseRawLabelExpr_formatExpr (labelNames_manyNames n)
  exact .inr (.inr ⟨_, LabelFilter.parse_of_raw hraw⟩)

theorem shallow_longSerial_iff {n : ℕ} (h : 0 < n) :
    shallow (shannon String) (longSerial n) = true ↔ n ≤ 493 := by
  have hlength : (manyNames n).length = n := by simp [manyNames]
  have hne : manyNames n ≠ [] := by
    rw [← List.length_pos_iff, hlength]
    exact h
  rw [longSerial, shallow_conj_iff hne (nodup_manyNames n) (labelNames_manyNames n), hlength]

end Skuld
