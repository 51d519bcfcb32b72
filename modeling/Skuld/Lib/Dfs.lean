import Skuld.Lib.Loop
import Mathlib.Data.Finset.Card
import Mathlib.Data.List.Find
import Mathlib.Data.List.Nodup
import Mathlib.Logic.Relation
import Mathlib.Tactic.Common

/-!
# Depth-first walks over named nodes

A graph looks nodes up by name and gives the names a node points to.  `visit`
walks it in pre-order with one visited set, recording the nodes in the order in
which it meets them; a root that is not there is skipped, and a node that points
to a name that is not there is a fault.

`Extends` is what one walk adds to the state it starts from, and walks compose
(`Extends.trans`).  From the empty state it says that the walk meets exactly the
nodes reachable from its roots, once each.  `visit_ok` is totality: without
dangling names the walk ends, and a universe of names bounds its depth.

The order is that of a depth-first traversal, told without the walk: `Follows`
takes the first fresh name of an agenda again and again, and `follows_walk` says
that the walk does just that until nothing is left.  Such a traversal is unique
(`Follows.unique`).  `Finished` is for walks that
look for cycles: a set of names that no edge leaves and no cycle meets.
-/

namespace Dfs

structure Graph (α β : Type*) where
  lookup : α → Option β
  succ : β → List α

/-- Why a walk stops early: out of fuel, or a node that points to a name that is
not in the graph. -/
inductive Fault (α β : Type*) where
  | fuel
  | dangling (parent : β) (name : α)

/-- The names tried so far, last first, and the nodes met, in order. -/
structure State (α β : Type*) where
  visited : List α
  order : List β

variable {α β : Type*}

namespace Graph

variable (G : Graph α β)

/-- `x` names a node that points to `y`. -/
def Edge (x y : α) : Prop :=
  ∃ node, G.lookup x = some node ∧ y ∈ G.succ node

def Reachable (roots : List α) (x : α) : Prop :=
  ∃ root ∈ roots, Relation.ReflTransGen G.Edge root x

variable {G}

theorem Reachable.mono {roots roots' : List α} {x : α} (h : G.Reachable roots x)
    (hsub : ∀ root ∈ roots, root ∈ roots') : G.Reachable roots' x := by
  obtain ⟨root, hroot, hpath⟩ := h
  exact ⟨root, hsub root hroot, hpath⟩

/-- What is reachable from the successors of a node is reachable from it. -/
theorem Reachable.of_succ {name x : α} {node : β} (hlookup : G.lookup name = some node)
    (h : G.Reachable (G.succ node) x) : G.Reachable [name] x := by
  obtain ⟨y, hy, hpath⟩ := h
  exact ⟨name, List.mem_singleton_self name, .head ⟨node, hlookup, hy⟩ hpath⟩

/-! ## Parts without a cycle -/

/-- No edge leaves the names, and none of them lies on a cycle. -/
structure Finished (G : Graph α β) (names : List α) : Prop where
  closed : ∀ x ∈ names, ∀ y, G.Edge x y → y ∈ names
  acyclic : ∀ x ∈ names, ¬ Relation.TransGen G.Edge x x

theorem Finished.nil : G.Finished [] :=
  ⟨by simp, by simp⟩

theorem Finished.mem_of_transGen {names : List α} (h : G.Finished names) {x y : α}
    (hx : x ∈ names) (hpath : Relation.TransGen G.Edge x y) : y ∈ names := by
  induction hpath with
  | single hedge => exact h.closed x hx _ hedge
  | tail _ hedge ih => exact h.closed _ ih _ hedge

/-- A name is finished once everything it points to is: a cycle through it would
come back to a finished name. -/
theorem Finished.cons {names : List α} (h : G.Finished names) {name : α}
    (hsucc : ∀ y, G.Edge name y → y ∈ names) : G.Finished (name :: names) := by
  constructor
  · intro x hx y hedge
    rcases List.mem_cons.mp hx with rfl | hx
    · exact List.mem_cons_of_mem _ (hsucc y hedge)
    · exact List.mem_cons_of_mem _ (h.closed x hx y hedge)
  · intro x hx hcycle
    rcases List.mem_cons.mp hx with rfl | hx
    · obtain ⟨y, hedge, hback⟩ := Relation.TransGen.head'_iff.mp hcycle
      have hy : y ∈ names := hsucc y hedge
      have hback' : Relation.TransGen G.Edge y x ∨ y = x := by
        rcases Relation.reflTransGen_iff_eq_or_transGen.mp hback with heq | hpath
        exacts [.inr heq.symm, .inl hpath]
      have hx : x ∈ names := by
        rcases hback' with hpath | rfl
        exacts [h.mem_of_transGen hy hpath, hy]
      exact h.acyclic x hx hcycle
    · exact h.acyclic x hx hcycle

/-! ## What a walk adds -/

/-- The walk from `roots` tried the names `new`, last first. -/
structure ExtendsBy (roots : List α) (st st' : State α β) (new : List α) : Prop where
  visited_eq : st'.visited = new ++ st.visited
  order_eq : st'.order = st.order ++ new.reverse.filterMap G.lookup
  nodup : new.Nodup
  fresh : ∀ x ∈ new, x ∉ st.visited
  reachable : ∀ x ∈ new, G.Reachable roots x
  closed : ∀ x ∈ new, ∀ y, G.Edge x y → y ∈ st'.visited
  roots_visited : ∀ root ∈ roots, root ∈ st'.visited

variable (G) in
def Extends (roots : List α) (st st' : State α β) : Prop :=
  ∃ new, G.ExtendsBy roots st st' new

theorem Extends.subset {roots : List α} {st st' : State α β} (h : G.Extends roots st st') {x : α}
    (hx : x ∈ st.visited) : x ∈ st'.visited := by
  obtain ⟨new, h⟩ := h
  rw [h.visited_eq]
  exact List.mem_append.mpr (.inr hx)

theorem Extends.nil (st : State α β) : G.Extends [] st st :=
  ⟨[], ⟨rfl, by simp, .nil, by simp, by simp, by simp, by simp⟩⟩

theorem Extends.visited {st : State α β} {name : α} (h : name ∈ st.visited) :
    G.Extends [name] st st :=
  ⟨[], ⟨rfl, by simp, .nil, by simp, by simp, by simp, by simpa using h⟩⟩

/-- A root that is not in the graph. -/
theorem Extends.missing {st : State α β} {name : α} (h : name ∉ st.visited)
    (hlookup : G.lookup name = none) :
    G.Extends [name] st { st with visited := name :: st.visited } := by
  refine ⟨[name], ⟨rfl, ?_, by simp, ?_, ?_, ?_, ?_⟩⟩
  · simp [hlookup]
  · simpa using h
  · intro x hx
    exact ⟨x, hx, .refl⟩
  · rintro x hx y ⟨node, hnode, -⟩
    rw [List.mem_singleton.mp hx, hlookup] at hnode
    cases hnode
  · simp

theorem Extends.trans {roots roots' : List α} {st st' st'' : State α β}
    (h : G.Extends roots st st') (h' : G.Extends roots' st' st'') :
    G.Extends (roots ++ roots') st st'' := by
  have hsub : ∀ x ∈ st'.visited, x ∈ st''.visited := fun x => h'.subset
  obtain ⟨new, h⟩ := h
  obtain ⟨new', h'⟩ := h'
  refine ⟨new' ++ new, ⟨?_, ?_, ?_, ?_, ?_, ?_, ?_⟩⟩
  · rw [h'.visited_eq, h.visited_eq, List.append_assoc]
  · rw [h'.order_eq, h.order_eq, List.reverse_append, List.filterMap_append, List.append_assoc]
  · refine List.nodup_append.mpr ⟨h'.nodup, h.nodup, fun x hx' y hy heq => h'.fresh x hx' ?_⟩
    rw [h.visited_eq, heq]
    exact List.mem_append.mpr (.inl hy)
  · intro x hx
    rcases List.mem_append.mp hx with hx | hx
    · exact fun hmem => h'.fresh x hx (by rw [h.visited_eq]; exact List.mem_append.mpr (.inr hmem))
    · exact h.fresh x hx
  · intro x hx
    rcases List.mem_append.mp hx with hx | hx
    · exact (h'.reachable x hx).mono fun root hroot => List.mem_append.mpr (.inr hroot)
    · exact (h.reachable x hx).mono fun root hroot => List.mem_append.mpr (.inl hroot)
  · intro x hx y hxy
    rcases List.mem_append.mp hx with hx | hx
    · exact h'.closed x hx y hxy
    · exact hsub y (h.closed x hx y hxy)
  · intro root hroot
    rcases List.mem_append.mp hroot with hroot | hroot
    · exact hsub root (h.roots_visited root hroot)
    · exact h'.roots_visited root hroot

/-- A node is met before what is reachable through it. -/
theorem Extends.node {st st' : State α β} {name : α} {node : β} (h : name ∉ st.visited)
    (hlookup : G.lookup name = some node)
    (hsucc : G.Extends (G.succ node)
      { visited := name :: st.visited, order := st.order ++ [node] } st') :
    G.Extends [name] st st' := by
  have hname : name ∈ st'.visited := hsucc.subset List.mem_cons_self
  obtain ⟨new, hsucc⟩ := hsucc
  refine ⟨new ++ [name], ⟨?_, ?_, ?_, ?_, ?_, ?_, ?_⟩⟩
  · rw [hsucc.visited_eq, List.append_assoc, List.singleton_append]
  · rw [hsucc.order_eq]
    simp [hlookup]
  · refine List.nodup_append.mpr ⟨hsucc.nodup, by simp, fun x hx y hy heq => ?_⟩
    rw [heq, List.mem_singleton.mp hy] at hx
    exact hsucc.fresh name hx List.mem_cons_self
  · intro x hx
    rcases List.mem_append.mp hx with hx | hx
    · exact fun hmem => hsucc.fresh x hx (List.mem_cons_of_mem _ hmem)
    · rwa [List.mem_singleton.mp hx]
  · intro x hx
    rcases List.mem_append.mp hx with hx | hx
    · exact (hsucc.reachable x hx).of_succ hlookup
    · exact ⟨x, hx, .refl⟩
  · intro x hx y hxy
    rcases List.mem_append.mp hx with hx | hx
    · exact hsucc.closed x hx y hxy
    · obtain ⟨node', hnode', hy⟩ := hxy
      rw [List.mem_singleton.mp hx, hlookup, Option.some.injEq] at hnode'
      exact hsucc.roots_visited y (hnode' ▸ hy)
  · simpa using hname

/-! ## The walk -/

variable [DecidableEq α]

/-- Walk from `name`, reached from `parent` unless it is a root. -/
def visit (G : Graph α β) : ℕ → Option β → State α β → α → Except (Fault α β) (State α β)
  | 0, _, _, _ => .error .fuel
  | fuel + 1, parent, st, name =>
      if name ∈ st.visited then .ok st
      else
        match G.lookup name with
        | none =>
            match parent with
            | none => .ok { st with visited := name :: st.visited }
            | some parent => .error (.dangling parent name)
        | some node =>
            (G.succ node).foldlM (G.visit fuel (some node))
              { visited := name :: st.visited, order := st.order ++ [node] }

/-- Walk from every root with the same visited set. -/
def walk (G : Graph α β) (fuel : ℕ) (roots : List α) : Except (Fault α β) (State α β) :=
  roots.foldlM (G.visit fuel none) { visited := [], order := [] }

omit [DecidableEq α] in
/-- From the step at a name to the step over a list of names. -/
theorem extends_foldlM {step : State α β → α → Except (Fault α β) (State α β)}
    (hstep : ∀ {st name st'}, step st name = .ok st' → G.Extends [name] st st')
    {names : List α} {st st' : State α β} (h : names.foldlM step st = .ok st') :
    G.Extends names st st' := by
  induction names generalizing st with
  | nil =>
      cases h
      exact .nil _
  | cons name names ih =>
      rw [List.foldlM_cons] at h
      obtain ⟨middle, hname, h⟩ := Loop.exists_of_bind_eq_ok h
      exact (hstep hname).trans (ih h)

theorem extends_visit {fuel : ℕ} {parent : Option β} {st st' : State α β} {name : α}
    (h : G.visit fuel parent st name = .ok st') : G.Extends [name] st st' := by
  induction fuel generalizing parent st st' name with
  | zero => simp [visit] at h
  | succ fuel ih =>
      unfold visit at h
      by_cases hvisited : name ∈ st.visited
      · rw [if_pos hvisited] at h
        cases h
        exact .visited hvisited
      · rw [if_neg hvisited] at h
        cases hlookup : G.lookup name with
        | none =>
            cases parent with
            | none =>
                simp only [hlookup, Except.ok.injEq] at h
                exact h ▸ .missing hvisited hlookup
            | some parent => simp [hlookup] at h
        | some node =>
            simp only [hlookup] at h
            exact .node hvisited hlookup (extends_foldlM ih h)

theorem extends_walk {fuel : ℕ} {roots : List α} {st : State α β}
    (h : G.walk fuel roots = .ok st) : G.Extends roots { visited := [], order := [] } st :=
  extends_foldlM extends_visit h

/-- The walk tries exactly the names that are reachable. -/
theorem mem_visited_walk {fuel : ℕ} {roots : List α} {st : State α β}
    (h : G.walk fuel roots = .ok st) {x : α} : x ∈ st.visited ↔ G.Reachable roots x := by
  obtain ⟨new, hext⟩ := extends_walk h
  have hvisited : st.visited = new := by simpa using hext.visited_eq
  constructor
  · exact fun hx => hext.reachable x (hvisited ▸ hx)
  · rintro ⟨root, hroot, hpath⟩
    induction hpath with
    | refl => exact hext.roots_visited root hroot
    | tail _ hedge ih => exact hext.closed _ (hvisited ▸ ih) _ hedge

/-- The nodes met, by their names. -/
theorem order_walk {fuel : ℕ} {roots : List α} {st : State α β} (h : G.walk fuel roots = .ok st) :
    st.order = st.visited.reverse.filterMap G.lookup ∧ st.visited.Nodup := by
  obtain ⟨new, hext⟩ := extends_walk h
  have hvisited : st.visited = new := by simpa using hext.visited_eq
  exact ⟨by simpa [hvisited] using hext.order_eq, hvisited ▸ hext.nodup⟩

theorem mem_order_walk {fuel : ℕ} {roots : List α} {st : State α β}
    (h : G.walk fuel roots = .ok st) {node : β} :
    node ∈ st.order ↔ ∃ x, G.Reachable roots x ∧ G.lookup x = some node := by
  simp only [(order_walk h).1, List.mem_filterMap, List.mem_reverse, mem_visited_walk h]

/-! ## Pre-order -/

section

omit [DecidableEq α]

/-- The names a name points to. -/
def succNames (G : Graph α β) (x : α) : List α :=
  (G.lookup x).elim [] G.succ

theorem succNames_eq {name : α} {node : β} (hlookup : G.lookup name = some node) :
    G.succNames name = G.succ node := by
  rw [succNames, hlookup]
  rfl

theorem mem_succNames {x y : α} : y ∈ G.succNames x ↔ G.Edge x y := by
  unfold succNames Edge
  cases G.lookup x with
  | none => simp
  | some node => simp

/-- The names that are in the graph. -/
def known (G : Graph α β) (names : List α) : List α :=
  names.filter fun x => (G.lookup x).isSome

theorem mem_known {names : List α} {x : α} :
    x ∈ G.known names ↔ x ∈ names ∧ (G.lookup x).isSome = true := by
  rw [known, List.mem_filter]

theorem known_append (names more : List α) :
    G.known (names ++ more) = G.known names ++ G.known more :=
  List.filter_append names more

theorem known_cons {name : α} {node : β} (hlookup : G.lookup name = some node) (names : List α) :
    G.known (name :: names) = name :: G.known names := by
  rw [known, List.filter_cons_of_pos (by rw [hlookup]; rfl), known]

theorem known_singleton {name : α} (hlookup : G.lookup name = none) : G.known [name] = [] := by
  simp [known, hlookup]

end

/-- The first name of the agenda that is in the graph and not yet seen.  The
agenda of a depth-first traversal: what the names `new`, last first, point to,
and the roots in the end. -/
def nextName (G : Graph α β) (roots new seen : List α) : Option α :=
  (new.flatMap G.succNames ++ roots).find? fun x => x ∉ seen ∧ (G.lookup x).isSome = true

/-- `new`, last first, are the names that a depth-first traversal from `roots`
sees one after the other, after it has seen `old`. -/
inductive Follows (G : Graph α β) (roots old : List α) : List α → Prop where
  | nil : Follows G roots old []
  | cons {new x} : Follows G roots old new → G.nextName roots new (new ++ old) = some x →
      Follows G roots old (x :: new)

/-- Nothing that the roots or the names `new` lead to is left. -/
def Exhausted (G : Graph α β) (roots old new : List α) : Prop :=
  G.nextName roots new (new ++ old) = none

/-- More at the end of the agenda changes nothing that has been seen. -/
theorem Follows.append_roots {roots old new : List α} (h : G.Follows roots old new)
    (rest : List α) : G.Follows (roots ++ rest) old new := by
  induction h with
  | nil => exact .nil
  | cons _ hnext ih =>
      refine .cons ih ?_
      unfold nextName at hnext ⊢
      rw [← List.append_assoc, List.find?_append, hnext, Option.some_or]

theorem Follows.trans {roots rest old new new' : List α} (h : G.Follows roots old new)
    (hdone : G.Exhausted roots old new) (h' : G.Follows rest (new ++ old) new') :
    G.Follows (roots ++ rest) old (new' ++ new) := by
  induction h' with
  | nil => exact h.append_roots rest
  | @cons new' x _ hnext ih =>
      rw [List.cons_append]
      refine .cons ih ?_
      unfold Exhausted nextName at hdone
      rw [List.find?_eq_none] at hdone
      -- the agenda of `new` has nothing fresh, so that the search goes past it
      have hskip : (new.flatMap G.succNames ++ roots).find?
          (fun x => x ∉ new' ++ (new ++ old) ∧ (G.lookup x).isSome = true) = none := by
        refine List.find?_eq_none.mpr fun y hy hfresh => hdone y hy ?_
        simp only [List.mem_append, not_or, decide_eq_true_eq] at hfresh ⊢
        exact ⟨hfresh.1.2, hfresh.2⟩
      unfold nextName at hnext ⊢
      rw [List.flatMap_append, List.append_assoc (new'.flatMap _),
        ← List.append_assoc (new.flatMap _), List.find?_append, List.append_assoc new',
        List.find?_append, hskip, Option.none_or, ← List.find?_append]
      exact hnext

theorem Follows.node {old new : List α} {name : α} {node : β} (hfresh : name ∉ old)
    (hlookup : G.lookup name = some node) (h : G.Follows (G.succ node) (name :: old) new) :
    G.Follows [name] old (new ++ [name]) := by
  induction h with
  | nil =>
      refine .cons .nil ?_
      simp [nextName, hfresh, hlookup]
  | @cons new x _ hnext ih =>
      rw [List.cons_append]
      refine .cons ih ?_
      unfold nextName at hnext ⊢
      rw [List.flatMap_append, List.flatMap_singleton, succNames_eq hlookup, List.find?_append,
        List.append_assoc new, List.singleton_append, hnext, Option.some_or]

/-- The walk from `roots` tried the names `new`, last first, in pre-order. -/
structure Traverses (G : Graph α β) (roots : List α) (st st' : State α β) (new : List α) :
    Prop where
  extends_by : G.ExtendsBy roots st st' new
  follows : G.Follows roots (G.known st.visited) (G.known new)

theorem ExtendsBy.exhausted {roots new : List α} {st st' : State α β}
    (h : G.ExtendsBy roots st st' new) :
    G.Exhausted roots (G.known st.visited) (G.known new) := by
  unfold Exhausted nextName
  refine List.find?_eq_none.mpr fun y hy hfresh => ?_
  simp only [decide_eq_true_eq] at hfresh
  obtain ⟨hfresh, hknown⟩ := hfresh
  have hvisited : y ∈ st'.visited := by
    rcases List.mem_append.mp hy with hy | hy
    · obtain ⟨x, hx, hsucc⟩ := List.mem_flatMap.mp hy
      exact h.closed x (mem_known.mp hx).1 y (mem_succNames.mp hsucc)
    · exact h.roots_visited y hy
  rw [h.visited_eq] at hvisited
  refine hfresh (List.mem_append.mpr ?_)
  exact (List.mem_append.mp hvisited).imp (fun hy => mem_known.mpr ⟨hy, hknown⟩)
    fun hy => mem_known.mpr ⟨hy, hknown⟩

variable (G) in
/-- Some list of names does. -/
def TraversesSome (roots : List α) (st st' : State α β) : Prop :=
  ∃ new, G.Traverses roots st st' new

theorem TraversesSome.trans {roots roots' : List α} {st st' st'' : State α β}
    (h : G.TraversesSome roots st st') (h' : G.TraversesSome roots' st' st'') :
    G.TraversesSome (roots ++ roots') st st'' := by
  obtain ⟨new, hext, hfollows⟩ := h
  obtain ⟨new', hext', hfollows'⟩ := h'
  obtain ⟨all, hall⟩ := Extends.trans ⟨new, hext⟩ ⟨new', hext'⟩
  -- the two walks together add the names of both
  obtain rfl : new' ++ new = all := by
    have hvisited := hall.visited_eq
    rw [hext'.visited_eq, hext.visited_eq, ← List.append_assoc] at hvisited
    exact List.append_cancel_right hvisited
  refine ⟨new' ++ new, hall, ?_⟩
  rw [hext.visited_eq, known_append] at hfollows'
  rw [known_append]
  exact hfollows.trans hext.exhausted hfollows'

theorem traverses_foldlM {step : State α β → α → Except (Fault α β) (State α β)}
    (hstep : ∀ {st name st'}, step st name = .ok st' → G.TraversesSome [name] st st')
    {names : List α} {st st' : State α β} (h : names.foldlM step st = .ok st') :
    G.TraversesSome names st st' := by
  induction names generalizing st with
  | nil =>
      cases h
      obtain ⟨new, hext⟩ : G.Extends [] st' st' := .nil st'
      obtain rfl : new = [] := by simpa using hext.visited_eq
      exact ⟨[], hext, .nil⟩
  | cons name names ih =>
      rw [List.foldlM_cons] at h
      obtain ⟨middle, hname, h⟩ := Loop.exists_of_bind_eq_ok h
      exact (hstep hname).trans (ih h)

theorem traverses_visit {fuel : ℕ} {parent : Option β} {st st' : State α β} {name : α}
    (h : G.visit fuel parent st name = .ok st') : G.TraversesSome [name] st st' := by
  induction fuel generalizing parent st st' name with
  | zero => simp [visit] at h
  | succ fuel ih =>
      obtain ⟨new, hext⟩ := extends_visit h
      refine ⟨new, hext, ?_⟩
      have hvisitedEq := hext.visited_eq
      unfold visit at h
      by_cases hvisited : name ∈ st.visited
      · rw [if_pos hvisited, Except.ok.injEq] at h
        obtain rfl : new = [] := by simpa [← h] using hvisitedEq
        exact .nil
      · rw [if_neg hvisited] at h
        cases hlookup : G.lookup name with
        | none =>
            cases parent with
            | none =>
                simp only [hlookup, Except.ok.injEq] at h
                have hnew : [name] ++ st.visited = new ++ st.visited := by
                  rw [← hvisitedEq, ← h]
                  rfl
                rw [← List.append_cancel_right hnew, known_singleton hlookup]
                exact .nil
            | some parent => simp [hlookup] at h
        | some node =>
            simp only [hlookup] at h
            obtain ⟨sub, hsub, hfollows⟩ := traverses_foldlM ih h
            obtain rfl : sub ++ [name] = new := by
              have hvisitedSub := hsub.visited_eq
              rw [hvisitedEq, List.append_cons] at hvisitedSub
              exact (List.append_cancel_right hvisitedSub).symm
            rw [known_cons hlookup] at hfollows
            rw [known_append, known_cons hlookup]
            exact .node (fun hmem => hvisited (mem_known.mp hmem).1) hlookup hfollows

/-- The names of the graph that a walk meets are those of a depth-first
traversal, in its order, and it leaves none out. -/
theorem follows_walk {fuel : ℕ} {roots : List α} {st : State α β}
    (h : G.walk fuel roots = .ok st) :
    G.Follows roots [] (G.known st.visited) ∧ G.Exhausted roots [] (G.known st.visited) := by
  obtain ⟨new, hext, hfollows⟩ := traverses_foldlM traverses_visit h
  obtain rfl : st.visited = new := by simpa using hext.visited_eq
  exact ⟨hfollows, hext.exhausted⟩

/-! ## There is only one traversal -/

section

variable {roots old new : List α} {name : α}

theorem Follows.of_append {more : List α} (h : G.Follows roots old (more ++ new)) :
    G.Follows roots old new := by
  induction more with
  | nil => exact h
  | cons x more ih =>
      cases h with
      | cons hrest _ => exact ih hrest

/-- A traversal that has begun is the beginning of the one that is complete. -/
theorem Follows.suffix (h : G.Follows roots old new) (hdone : G.Exhausted roots old new)
    {begun : List α} (hbegun : G.Follows roots old begun) : begun <:+ new := by
  induction hbegun with
  | nil => exact List.nil_suffix
  | @cons begun x _ hnext ih =>
      obtain ⟨more, rfl⟩ := ih
      cases more using List.reverseRecOn with
      | nil =>
          rw [Exhausted, List.nil_append, hnext] at hdone
          cases hdone
      | append_singleton more y =>
          rw [List.append_assoc, List.singleton_append] at h ⊢
          cases h.of_append with
          | cons _ hnext' =>
              obtain rfl : x = y := Option.some.inj (hnext.symm.trans hnext')
              exact List.suffix_append more _

theorem Follows.unique {new' : List α} (h : G.Follows roots old new)
    (hdone : G.Exhausted roots old new) (h' : G.Follows roots old new')
    (hdone' : G.Exhausted roots old new') : new = new' :=
  (h'.suffix hdone' h).eq_of_length_le (h.suffix hdone h').length_le

omit [DecidableEq α] in
/-- The agenda has only what the roots lead to. -/
theorem reachable_of_mem_agenda (hnew : ∀ x ∈ new, G.Reachable roots x) {y : α}
    (hy : y ∈ new.flatMap G.succNames ++ roots) : G.Reachable roots y := by
  rcases List.mem_append.mp hy with hy | hy
  · obtain ⟨x, hx, hsucc⟩ := List.mem_flatMap.mp hy
    obtain ⟨root, hroot, hpath⟩ := hnew x hx
    exact ⟨root, hroot, hpath.tail (mem_succNames.mp hsucc)⟩
  · exact ⟨y, hy, .refl⟩

theorem Follows.reachable (h : G.Follows roots old new) : ∀ x ∈ new, G.Reachable roots x := by
  induction h with
  | nil => simp
  | cons _ hnext ih =>
      refine List.forall_mem_cons.mpr ⟨?_, ih⟩
      exact reachable_of_mem_agenda ih (List.mem_of_find?_eq_some hnext)

/-- Having seen a name that the roots do not lead to makes no difference. -/
theorem nextName_unreachable (hnew : ∀ x ∈ new, G.Reachable roots x)
    (hname : ¬ G.Reachable roots name) :
    G.nextName roots new (new ++ name :: old) = G.nextName roots new (new ++ old) := by
  unfold nextName
  refine List.find?_congr fun y hy => ?_
  have hne : y ≠ name := by
    rintro rfl
    exact hname (reachable_of_mem_agenda hnew hy)
  simp [hne]

theorem Follows.cons_old (h : G.Follows roots old new) (hname : ¬ G.Reachable roots name) :
    G.Follows roots (name :: old) new := by
  induction h with
  | nil => exact .nil
  | cons hrest hnext ih => exact .cons ih ((nextName_unreachable hrest.reachable hname).trans hnext)

theorem Exhausted.cons_old (hdone : G.Exhausted roots old new)
    (hnew : ∀ x ∈ new, G.Reachable roots x) (hname : ¬ G.Reachable roots name) :
    G.Exhausted roots (name :: old) new :=
  (nextName_unreachable hnew hname).trans hdone

theorem Exhausted.node {node : β} (hlookup : G.lookup name = some node)
    (hdone : G.Exhausted (G.succ node) (name :: old) new) :
    G.Exhausted [name] old (new ++ [name]) := by
  unfold Exhausted nextName at hdone ⊢
  rw [List.flatMap_append, List.flatMap_singleton, succNames_eq hlookup, List.find?_append,
    List.append_assoc new, List.singleton_append, hdone, Option.none_or]
  simp

/-- From a node that does not come back to itself, the traversal is the node and
then the traversal from what it points to. -/
theorem Follows.eq_append {node : β} (hlookup : G.lookup name = some node)
    (hname : ¬ G.Reachable (G.succ node) name) (h : G.Follows [name] [] new)
    (hdone : G.Exhausted [name] [] new) {sub : List α} (hsub : G.Follows (G.succ node) [] sub)
    (hsubDone : G.Exhausted (G.succ node) [] sub) : new = sub ++ [name] := by
  refine h.unique hdone (.node List.not_mem_nil hlookup (hsub.cons_old hname)) ?_
  exact .node hlookup (hsubDone.cons_old hsub.reachable hname)

end

/-! ## Totality -/

/-- The names of a universe that a state has not tried. -/
def untried (names : Finset α) (st : State α β) : Finset α :=
  names.filter fun x => x ∉ st.visited

theorem untried_subset {names : Finset α} {st st' : State α β}
    (h : ∀ x ∈ st.visited, x ∈ st'.visited) : untried names st' ⊆ untried names st := by
  intro x hx
  rw [untried, Finset.mem_filter] at hx ⊢
  exact ⟨hx.1, fun hmem => hx.2 (h x hmem)⟩

/-- Every name a node points to is in the graph, and the universe is closed. -/
structure Closed (G : Graph α β) (names : Finset α) : Prop where
  lookup : ∀ {x y}, G.Edge x y → (G.lookup y).isSome = true
  succ : ∀ {x y}, x ∈ names → G.Edge x y → y ∈ names

theorem foldlM_ok {step : State α β → α → Except (Fault α β) (State α β)} {names : Finset α}
    {fuel : ℕ} (hextends : ∀ {st name st'}, step st name = .ok st' → G.Extends [name] st st')
    {list : List α} (hstep : ∀ st, (untried names st).card < fuel → ∀ name ∈ list,
      ∃ st', step st name = .ok st') (st : State α β) (hfuel : (untried names st).card < fuel) :
    ∃ st', list.foldlM step st = .ok st' := by
  have hround : ∀ {st name}, name ∈ list → (untried names st).card < fuel →
      ∃ st', step st name = .ok st' ∧ (untried names st').card < fuel := by
    intro st name hname hst
    obtain ⟨middle, hmiddle⟩ := hstep st hst name hname
    have hsubset : untried names middle ⊆ untried names st :=
      untried_subset fun x hx => (hextends hmiddle).subset hx
    exact ⟨middle, hmiddle, (Finset.card_le_card hsubset).trans_lt hst⟩
  obtain ⟨st', hst', -⟩ := Loop.foldlM_ok hround hfuel
  exact ⟨st', hst'⟩

/-- A walk without dangling names ends, given fuel for every untried name. -/
theorem visit_ok {names : Finset α} (hclosed : G.Closed names) {fuel : ℕ} {parent : Option β}
    {st : State α β} {name : α} (hname : name ∈ names)
    (hparent : parent.isSome = true → (G.lookup name).isSome = true)
    (hfuel : (untried names st).card < fuel) : ∃ st', G.visit fuel parent st name = .ok st' := by
  induction fuel generalizing parent st name with
  | zero => omega
  | succ fuel ih =>
      unfold visit
      by_cases hvisited : name ∈ st.visited
      · exact ⟨st, if_pos hvisited⟩
      · rw [if_neg hvisited]
        cases hlookup : G.lookup name with
        | none =>
            cases parent with
            | none => exact ⟨_, rfl⟩
            | some parent => simp [hlookup] at hparent
        | some node =>
            -- `name` is tried now, so that one unit of fuel less is enough below it
            have hlt : (untried names
                { visited := name :: st.visited, order := st.order ++ [node] }).card <
                (untried names st).card := by
              refine Finset.card_lt_card (Finset.ssubset_iff_subset_ne.mpr
                ⟨untried_subset fun x hx => List.mem_cons_of_mem _ hx, fun heq => ?_⟩)
              have : name ∈ untried names st := Finset.mem_filter.mpr ⟨hname, hvisited⟩
              rw [← heq, untried, Finset.mem_filter] at this
              exact this.2 List.mem_cons_self
            have hlt' := hlt.trans_le (Nat.lt_succ_iff.mp hfuel)
            refine foldlM_ok extends_visit (fun st hst y hy => ?_) _ hlt'
            have hedge : G.Edge name y := ⟨node, hlookup, hy⟩
            exact ih (hclosed.succ hname hedge) (fun _ => hclosed.lookup hedge) hst

theorem walk_ok {names : Finset α} (hclosed : G.Closed names) {roots : List α} {fuel : ℕ}
    (hroots : ∀ root ∈ roots, root ∈ names) (hfuel : names.card < fuel) :
    ∃ st, G.walk fuel roots = .ok st := by
  refine foldlM_ok extends_visit (fun st hst root hroot => ?_) _
    ((Finset.card_filter_le _ _).trans_lt hfuel)
  exact visit_ok hclosed (hroots root hroot) (by simp) hst

end Graph

end Dfs
