import Mathlib.Data.List.TakeWhile

/-!
# Entering and leaving a block

The locals of a block are initialized one after the other, and when the block is left
they are dropped, the last one first, also when a panic unwinds it.  A `Drop` may
panic as well: on a normal way out the rest of the locals is then unwound, and while
the thread is panicking already the process aborts.

`leave_append` cuts the way out into that of an inner and that of an outer block.
-/

namespace Skuld.Drops

variable {ℓ π : Type*}

inductive Ending (π : Type*) where
  | returns
  | panics (payload : π)
  | aborts
  deriving DecidableEq

/-- A local that was dropped, and whether its thread was panicking. -/
structure Dropped (ℓ : Type*) where
  value : ℓ
  panicking : Bool
  deriving DecidableEq

/-- The initializers that are still to run, in order, over the locals so far, the last
one first.  With the payload if one of them panics. -/
def enter (init : ℓ → Option π) : List ℓ → List ℓ → List ℓ × Option π
  | [], locals => (locals, none)
  | x :: rest, locals =>
      match init x with
      | none => enter init rest (x :: locals)
      | some payload => (locals, some payload)

/-- The way out: the locals, the last one first, and the payload of the panic that
unwinds the block.  A `Drop` gets to know whether its thread is panicking. -/
def leave (drop : ℓ → Bool → Option π) : List ℓ → Option π → List (Dropped ℓ) × Ending π
  | [], none => ([], .returns)
  | [], some payload => ([], .panics payload)
  | x :: rest, none =>
      let r := leave drop rest (drop x false)
      (⟨x, false⟩ :: r.1, r.2)
  | x :: rest, some payload =>
      match drop x true with
      | none =>
          let r := leave drop rest (some payload)
          (⟨x, true⟩ :: r.1, r.2)
      | some _ => ([⟨x, true⟩], .aborts)

/-- What has happened, and how it has ended. -/
abbrev Run (ℓ π : Type*) := List (Dropped ℓ) × Ending π

/-- The enclosing block goes on with the panic that comes out of the inner one, if any,
unless the process has aborted. -/
def andThen (inner : Run ℓ π) (outer : Option π → Run ℓ π) : Run ℓ π :=
  match inner.2 with
  | .returns => (inner.1 ++ (outer none).1, (outer none).2)
  | .panics payload => (inner.1 ++ (outer (some payload)).1, (outer (some payload)).2)
  | .aborts => inner

section

variable {init : ℓ → Option π}

theorem enter_eq (xs locals : List ℓ) :
    enter init xs locals =
      ((xs.takeWhile fun x => (init x).isNone).reverse ++ locals, xs.findSome? init) := by
  induction xs generalizing locals with
  | nil => rfl
  | cons x xs ih =>
      rw [enter]
      cases hx : init x with
      | none => simp [ih, hx]
      | some payload => simp [hx]

theorem enter_of_ok {xs : List ℓ} (h : ∀ x ∈ xs, init x = none) :
    enter init xs [] = (xs.reverse, none) := by
  have hall : xs.takeWhile (fun x => (init x).isNone) = xs :=
    List.takeWhile_eq_self_iff.mpr fun x hx => by rw [h x hx]; rfl
  rw [enter_eq, hall, List.append_nil, List.findSome?_eq_none_iff.mpr h]

end

section

variable {drop : ℓ → Bool → Option π}

theorem andThen_cons (x : Dropped ℓ) (inner : Run ℓ π) (outer : Option π → Run ℓ π) :
    andThen (x :: inner.1, inner.2) outer =
      (x :: (andThen inner outer).1, (andThen inner outer).2) := by
  obtain ⟨dropped, ending⟩ := inner
  cases ending <;> rfl

/-- The outer locals are dropped after the inner ones. -/
theorem leave_append (xs ys : List ℓ) (inFlight : Option π) :
    leave drop (xs ++ ys) inFlight = andThen (leave drop xs inFlight) (leave drop ys) := by
  induction xs generalizing inFlight with
  | nil => cases inFlight <;> rfl
  | cons x xs ih =>
      cases inFlight with
      | none =>
          rw [List.cons_append, leave, leave, ih]
          exact (andThen_cons _ _ _).symm
      | some payload =>
          rw [List.cons_append, leave, leave]
          cases drop x true with
          | none =>
              simp only
              rw [ih]
              exact (andThen_cons _ _ _).symm
          | some _ => rfl

/-- A panic stays what it is as long as no `Drop` panics on top of it. -/
theorem leave_some_panics_iff {xs : List ℓ} {payload payload' : π} :
    (leave drop xs (some payload)).2 = .panics payload' ↔
      payload' = payload ∧ ∀ x ∈ xs, drop x true = none := by
  induction xs with
  | nil => simp [leave, eq_comm]
  | cons x xs ih =>
      rw [leave, List.forall_mem_cons]
      cases hx : drop x true with
      | none => simp [ih]
      | some _ => simp

theorem leave_some_ne_returns (xs : List ℓ) (payload : π) :
    (leave drop xs (some payload)).2 ≠ .returns := by
  induction xs with
  | nil => simp [leave]
  | cons x xs ih =>
      rw [leave]
      cases drop x true with
      | none => exact ih
      | some _ => simp

theorem leave_returns_iff {xs : List ℓ} {inFlight : Option π} :
    (leave drop xs inFlight).2 = .returns ↔
      inFlight = none ∧ ∀ x ∈ xs, drop x false = none := by
  cases inFlight with
  | some payload => simp [leave_some_ne_returns]
  | none =>
      induction xs with
      | nil => simp [leave]
      | cons x xs ih =>
          rw [leave, List.forall_mem_cons]
          cases hx : drop x false with
          | none => simpa using ih
          | some payload => simp [leave_some_ne_returns]

/-- Every local is dropped, in order, unless the process aborts. -/
theorem values_leave {xs : List ℓ} {inFlight : Option π}
    (h : (leave drop xs inFlight).2 ≠ .aborts) :
    (leave drop xs inFlight).1.map Dropped.value = xs := by
  induction xs generalizing inFlight with
  | nil => cases inFlight <;> rfl
  | cons x xs ih =>
      cases inFlight with
      | none => exact congrArg (x :: ·) (ih h)
      | some payload =>
          rw [leave] at h ⊢
          cases hx : drop x true with
          | none =>
              simp only [hx] at h ⊢
              exact congrArg (x :: ·) (ih h)
          | some _ => simp [hx] at h

theorem values_andThen {xs ys : List ℓ} {inFlight : Option π} {next : Option π → Option π}
    (h : (andThen (leave drop xs inFlight) fun caught => leave drop ys (next caught)).2 ≠
      .aborts) :
    (andThen (leave drop xs inFlight) fun caught => leave drop ys (next caught)).1.map
      Dropped.value = xs ++ ys := by
  unfold andThen at h ⊢
  cases hinner : (leave drop xs inFlight).2 with
  | aborts => simp [hinner] at h
  | _ =>
      simp only [hinner] at h ⊢
      rw [List.map_append, values_leave h, values_leave (by rw [hinner]; simp)]

theorem value_mem_of_mem_leave {xs : List ℓ} {inFlight : Option π} {d : Dropped ℓ}
    (h : d ∈ (leave drop xs inFlight).1) : d.value ∈ xs := by
  induction xs generalizing inFlight with
  | nil => cases inFlight <;> cases h
  | cons x xs ih =>
      cases inFlight with
      | none =>
          rcases List.mem_cons.mp h with rfl | h
          · exact List.mem_cons_self
          · exact List.mem_cons_of_mem _ (ih h)
      | some payload =>
          rw [leave] at h
          cases hx : drop x true with
          | none =>
              simp only [hx] at h
              rcases List.mem_cons.mp h with rfl | h
              · exact List.mem_cons_self
              · exact List.mem_cons_of_mem _ (ih h)
          | some _ =>
              simp only [hx, List.mem_singleton] at h
              exact h ▸ List.mem_cons_self

/-- What the enclosing block does is not seen in the inner one. -/
theorem filter_andThen {inner : Run ℓ π} {outer : Option π → Run ℓ π} {p : Dropped ℓ → Bool}
    (h : ∀ inFlight, ∀ d ∈ (outer inFlight).1, p d = false) :
    (andThen inner outer).1.filter p = inner.1.filter p := by
  have hnone : ∀ inFlight, (outer inFlight).1.filter p = [] := fun inFlight =>
    List.filter_eq_nil_iff.mpr fun d hd => by simp [h inFlight d hd]
  unfold andThen
  cases inner.2 with
  | aborts => rfl
  | _ => simp [List.filter_append, hnone]

end

end Skuld.Drops
