import Mathlib.Algebra.BigOperators.Group.Finset.Basic
import Mathlib.Data.Finset.SDiff

/-!
# Breadth-first search that stops where it finds

The search walks over the successors of a node, except that at some nodes it
emits a list and goes no further.  `search_spec` says what it returns: the lists
of the nodes that can be reached through nodes without a list, each node once.
The loop takes fuel, and more than one for each edge, one for the root and one
for the end is enough.
-/

namespace Bfs

variable {α γ : Type*} [DecidableEq α]

structure Search (α γ : Type*) where
  emit : α → Option (List γ)
  succ : α → List α

namespace Search

variable (S : Search α γ)

def loop : ℕ → List α → List α → List γ → Option (List γ)
  | 0, _, _, _ => none
  | _ + 1, [], _, found => some found
  | fuel + 1, x :: queue, visited, found =>
      if x ∈ visited then
        loop fuel queue visited found
      else
        match S.emit x with
        | some out => loop fuel queue (x :: visited) (found ++ out)
        | none => loop fuel (queue ++ (S.succ x).filter (· ∉ x :: visited)) (x :: visited) found

def search (fuel : ℕ) (root : α) : Option (List γ) :=
  S.loop fuel [root] [] []

/-- The node is reached from the root through nodes that emit nothing. -/
inductive Reaches (root : α) : α → Prop
  | root : Reaches root root
  | step {x y : α} (hx : Reaches root x) (hemit : S.emit x = none) (hy : y ∈ S.succ x) :
      Reaches root y

/-- What the lists of the nodes are together. -/
def output (order : List α) : List γ :=
  order.flatMap fun x => (S.emit x).getD []

/-! ## The result -/

structure Inv (root : α) (queue visited : List α) (found : List γ) : Prop where
  reaches : ∀ x, x ∈ queue ∨ x ∈ visited → S.Reaches root x
  root : root ∈ queue ∨ root ∈ visited
  closed : ∀ x ∈ visited, S.emit x = none → ∀ y ∈ S.succ x, y ∈ queue ∨ y ∈ visited
  found : ∃ order, found = S.output order ∧ order.Nodup ∧
    ∀ x, x ∈ order ↔ x ∈ visited ∧ (S.emit x).isSome = true

variable {S} {root x : α} {queue visited : List α} {found out : List γ} {fuel : ℕ}

omit [DecidableEq α] in
theorem Inv.start (root : α) : S.Inv root [root] [] [] where
  reaches x hx := by
    obtain rfl : x = root := by simpa using hx
    exact .root
  root := .inl List.mem_cons_self
  closed x hx := nomatch hx
  found := ⟨[], rfl, .nil, by simp⟩

omit [DecidableEq α] in
theorem Inv.skip (h : S.Inv root (x :: queue) visited found) (hx : x ∈ visited) :
    S.Inv root queue visited found := by
  have hdrop {y : α} (hy : y ∈ x :: queue ∨ y ∈ visited) : y ∈ queue ∨ y ∈ visited := by
    rcases hy with hy | hy
    · rcases List.mem_cons.mp hy with rfl | hy
      · exact .inr hx
      · exact .inl hy
    · exact .inr hy
  exact ⟨fun y hy => h.reaches y (hy.imp_left (List.mem_cons_of_mem x)), hdrop h.root,
    fun y hy hemit z hz => hdrop (h.closed y hy hemit z hz), h.found⟩

omit [DecidableEq α] in
/-- The node at the head of the queue is visited, and some nodes join the queue. -/
theorem Inv.visit (h : S.Inv root (x :: queue) visited found) (added : List α) {found' : List γ}
    (hadded : ∀ y ∈ added, S.Reaches root y)
    (hsucc : S.emit x = none → ∀ y ∈ S.succ x, y ∈ added ∨ y ∈ x :: visited)
    (hfound : ∃ order, found' = S.output order ∧ order.Nodup ∧
      ∀ y, y ∈ order ↔ y ∈ x :: visited ∧ (S.emit y).isSome = true) :
    S.Inv root (queue ++ added) (x :: visited) found' := by
  have hmove {y : α} (hy : y ∈ x :: queue ∨ y ∈ visited) :
      y ∈ queue ++ added ∨ y ∈ x :: visited := by
    rcases hy with hy | hy
    · rcases List.mem_cons.mp hy with rfl | hy
      · exact .inr List.mem_cons_self
      · exact .inl (List.mem_append_left _ hy)
    · exact .inr (List.mem_cons_of_mem x hy)
  refine ⟨fun y hy => ?_, hmove h.root, fun y hy hemit z hz => ?_, hfound⟩
  · rcases hy with hy | hy
    · rcases List.mem_append.mp hy with hy | hy
      · exact h.reaches y (.inl (List.mem_cons_of_mem x hy))
      · exact hadded y hy
    · rcases List.mem_cons.mp hy with rfl | hy
      · exact h.reaches y (.inl List.mem_cons_self)
      · exact h.reaches y (.inr hy)
  · rcases List.mem_cons.mp hy with rfl | hy
    · exact (hsucc hemit z hz).imp_left (List.mem_append_right _)
    · exact hmove (h.closed y hy hemit z hz)

omit [DecidableEq α] in
theorem Inv.emit (h : S.Inv root (x :: queue) visited found) (hx : x ∉ visited)
    (hemit : S.emit x = some out) : S.Inv root queue (x :: visited) (found ++ out) := by
  obtain ⟨order, rfl, hnodup, hmem⟩ := h.found
  rw [← List.append_nil queue]
  refine h.visit [] (fun y hy => nomatch hy) (fun hnone => nomatch hemit.symm.trans hnone)
    ⟨order ++ [x], by simp [output, hemit], ?_, fun y => ?_⟩
  · refine List.nodup_append.mpr ⟨hnodup, by simp, fun a ha b hb heq => ?_⟩
    obtain rfl : b = x := by simpa using hb
    exact hx (heq ▸ ((hmem a).mp ha).1)
  · rw [List.mem_append, List.mem_singleton, hmem, List.mem_cons]
    constructor
    · rintro (⟨hy, hsome⟩ | rfl)
      · exact ⟨.inr hy, hsome⟩
      · exact ⟨.inl rfl, by rw [hemit]; rfl⟩
    · rintro ⟨rfl | hy, hsome⟩
      · exact .inr rfl
      · exact .inl ⟨hy, hsome⟩

theorem Inv.expand (h : S.Inv root (x :: queue) visited found) (hemit : S.emit x = none) :
    S.Inv root (queue ++ (S.succ x).filter (· ∉ x :: visited)) (x :: visited) found := by
  obtain ⟨order, hfound, hnodup, hmem⟩ := h.found
  refine h.visit _ (fun y hy => ?_) (fun _ y hy => ?_) ⟨order, hfound, hnodup, fun y => ?_⟩
  · exact .step (h.reaches x (.inl List.mem_cons_self)) hemit (List.mem_filter.mp hy).1
  · by_cases hseen : y ∈ x :: visited
    · exact .inr hseen
    · exact .inl (List.mem_filter.mpr ⟨hy, decide_eq_true hseen⟩)
  · rw [hmem, List.mem_cons]
    constructor
    · rintro ⟨hy, hsome⟩
      exact ⟨.inr hy, hsome⟩
    · rintro ⟨rfl | hy, hsome⟩
      · rw [hemit] at hsome
        cases hsome
      · exact ⟨hy, hsome⟩

omit [DecidableEq α] in
/-- When the queue is empty, everything that can be reached has been visited. -/
theorem Inv.mem_visited (h : S.Inv root [] visited found) : x ∈ visited ↔ S.Reaches root x := by
  constructor
  · exact fun hx => h.reaches x (.inr hx)
  · intro hx
    induction hx with
    | root => exact h.root.resolve_left (by simp)
    | step _ hemit hy ih => exact (h.closed _ ih hemit _ hy).resolve_left (by simp)

theorem loop_eq_some (h : S.Inv root queue visited found)
    (hloop : S.loop fuel queue visited found = some out) :
    ∃ order, out = S.output order ∧ order.Nodup ∧
      ∀ x, x ∈ order ↔ S.Reaches root x ∧ (S.emit x).isSome = true := by
  induction fuel generalizing queue visited found with
  | zero => cases hloop
  | succ fuel ih =>
      cases queue with
      | nil =>
          obtain ⟨order, hfound, hnodup, hmem⟩ := h.found
          refine ⟨order, (Option.some.inj hloop).symm.trans hfound, hnodup, fun x => ?_⟩
          rw [hmem, h.mem_visited]
      | cons x queue =>
          rw [loop] at hloop
          split_ifs at hloop with hx
          · exact ih (h.skip hx) hloop
          · cases hemit : S.emit x with
            | some list =>
                rw [hemit] at hloop
                exact ih (h.emit hx hemit) hloop
            | none =>
                rw [hemit] at hloop
                exact ih (h.expand hemit) hloop

/-! ## The fuel -/

/-- What the loop has still to do: the queue, and the edges of the nodes that are
not visited. -/
def work (S : Search α γ) (nodes : Finset α) (queue visited : List α) : ℕ :=
  queue.length + ∑ x ∈ nodes \ visited.toFinset, (S.succ x).length

/-- A node that is visited takes its edges out of the sum. -/
theorem work_visit {nodes : Finset α} (hnodes : ∀ x, x ∉ nodes → S.succ x = [])
    (hx : x ∉ visited) (queue added : List α) (hadded : added.length ≤ (S.succ x).length) :
    S.work nodes (queue ++ added) (x :: visited) < S.work nodes (x :: queue) visited := by
  have hsum : ∑ y ∈ nodes \ (x :: visited).toFinset, (S.succ y).length + (S.succ x).length =
      ∑ y ∈ nodes \ visited.toFinset, (S.succ y).length := by
    rw [List.toFinset_cons, Finset.sdiff_insert]
    by_cases hnode : x ∈ nodes
    · have hmem : x ∈ nodes \ visited.toFinset :=
        Finset.mem_sdiff.mpr ⟨hnode, fun h => hx (List.mem_toFinset.mp h)⟩
      exact Finset.sum_erase_add _ _ hmem
    · have hnotMem : x ∉ nodes \ visited.toFinset := fun h => hnode (Finset.mem_sdiff.mp h).1
      rw [Finset.erase_eq_of_notMem hnotMem, hnodes x hnode, List.length_nil, Nat.add_zero]
  simp only [work, List.length_append, List.length_cons]
  omega

theorem loop_ne_none {nodes : Finset α} (hnodes : ∀ x, x ∉ nodes → S.succ x = [])
    (hfuel : S.work nodes queue visited < fuel) : S.loop fuel queue visited found ≠ none := by
  induction fuel generalizing queue visited found with
  | zero => omega
  | succ fuel ih =>
      cases queue with
      | nil => exact fun h => nomatch h
      | cons x queue =>
          rw [loop]
          split_ifs with hx
          · apply ih
            simp only [work, List.length_cons] at hfuel ⊢
            omega
          · have hvisit := work_visit hnodes hx queue
            split
            · apply ih
              have := hvisit [] (Nat.zero_le _)
              rw [List.append_nil] at this
              omega
            · apply ih
              have := hvisit ((S.succ x).filter (· ∉ x :: visited)) (List.length_filter_le ..)
              omega

theorem search_spec {nodes : Finset α} (hnodes : ∀ x, x ∉ nodes → S.succ x = [])
    (hfuel : ∑ x ∈ nodes, (S.succ x).length + 1 < fuel) (root : α) :
    ∃ order, S.search fuel root = some (S.output order) ∧ order.Nodup ∧
      ∀ x, x ∈ order ↔ S.Reaches root x ∧ (S.emit x).isSome = true := by
  have hne : S.search fuel root ≠ none := by
    apply loop_ne_none hnodes
    simpa [work, Nat.add_comm] using hfuel
  obtain ⟨out, hout⟩ := Option.ne_none_iff_exists'.mp hne
  obtain ⟨order, rfl, horder⟩ := loop_eq_some (Inv.start root) hout
  exact ⟨order, hout, horder⟩

end Search

end Bfs
