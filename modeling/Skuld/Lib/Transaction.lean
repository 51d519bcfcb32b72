import Mathlib.Tactic.Common

/-!
# Programs of statements

A connection to a database of tables `σ` has the committed tables and, between
`BEGIN` and `COMMIT` or `ROLLBACK`, a copy that its statements work on.  A
program issues statements one after the other.  Each of them succeeds or fails
as the script says, and fails in any case if it makes no sense where it is
issued, such as a `COMMIT` without a transaction.  A failed statement changes
nothing, and the program leaves at the first one.

Two judgments speak about all scripts:

* `InTx P db Q`: started on the copy `db`, the program `P` stays in its
  transaction, and if it succeeds, its result and its copy satisfy `Q`;
* `Ends P c db Q`: started on the copy `db` of the tables `c`, the program
  `P` ends its transaction with committed tables that satisfy `Q`, or it
  fails and `c` is what remains committed.
-/

namespace Transaction

/-- What becomes of a statement. -/
inductive Outcome where
  | ok
  | busy
  | error
  deriving DecidableEq

/-- How a program leaves early: a statement failed, or a panic. -/
inductive Fault where
  | busy
  | error
  | panic
  deriving DecidableEq

structure Conn (σ : Type) where
  committed : σ
  tx : Option σ

structure Session (σ : Type) where
  conn : Conn σ
  script : ℕ → Outcome

structure Program (σ α : Type) where
  run : Session σ → Except Fault α × Session σ

variable {σ α β : Type}

namespace Program

instance : Monad (Program σ) where
  pure a := ⟨fun s => (.ok a, s)⟩
  bind P f := ⟨fun s =>
    match P.run s with
    | (.ok a, s') => (f a).run s'
    | (.error fault, s') => (.error fault, s')⟩

def panic : Program σ α := ⟨fun s => (.error .panic, s)⟩

/-- One statement; `none` is a failure where the script says `ok`. -/
def statement (f : Conn σ → Option (α × Conn σ)) : Program σ α := ⟨fun s =>
  let script := fun n => s.script (n + 1)
  match s.script 0 with
  | .busy => (.error .busy, ⟨s.conn, script⟩)
  | .error => (.error .error, ⟨s.conn, script⟩)
  | .ok =>
      match f s.conn with
      | none => (.error .error, ⟨s.conn, script⟩)
      | some (a, conn) => (.ok a, ⟨conn, script⟩)⟩

/-- `BEGIN`, an error inside a transaction. -/
def begin : Program σ Unit :=
  statement fun conn =>
    if conn.tx.isSome then none else some ((), { conn with tx := some conn.committed })

/-- `COMMIT`, an error outside a transaction. -/
def commit : Program σ Unit :=
  statement fun conn => conn.tx.map fun db => ((), ⟨db, none⟩)

/-- `ROLLBACK`, an error outside a transaction. -/
def rollback : Program σ Unit :=
  statement fun conn => conn.tx.map fun _ => ((), { conn with tx := none })

/-- A statement that reads; `none` is a statement that is refused. -/
def read (f : σ → Option α) : Program σ α :=
  statement fun conn => (f (conn.tx.getD conn.committed)).map fun a => (a, conn)

def query (f : σ → α) : Program σ α :=
  read fun db => some (f db)

/-- A statement that writes; outside a transaction it commits at once. -/
def write (f : σ → Option (α × σ)) : Program σ α :=
  statement fun conn =>
    match conn.tx with
    | some db => (f db).map fun out => (out.1, { conn with tx := some out.2 })
    | none => (f conn.committed).map fun out => (out.1, { conn with committed := out.2 })

end Program

open Program

/-- The judgment of programs that neither begin nor end a transaction. -/
def InTx (P : Program σ α) (db : σ) (Q : α → σ → Prop) : Prop :=
  ∀ c s, s.conn = ⟨c, some db⟩ →
    ∃ db', (P.run s).2.conn = ⟨c, some db'⟩ ∧ ∀ a, (P.run s).1 = .ok a → Q a db'

/-- How a program ends that was started when the tables `c` were committed. -/
def Ended (r : Except Fault α × Session σ) (c : σ) (Q : α → σ → Prop) : Prop :=
  (∃ a, r.1 = .ok a ∧ r.2.conn.tx = none ∧ Q a r.2.conn.committed) ∨
    ∃ fault, r.1 = .error fault ∧ r.2.conn.committed = c

/-- The judgment of programs that end the transaction. -/
def Ends (P : Program σ α) (c db : σ) (Q : α → σ → Prop) : Prop :=
  ∀ s, s.conn = ⟨c, some db⟩ → Ended (P.run s) c Q

/-! ## Runs -/

theorem run_bind_ok {P : Program σ α} {f : α → Program σ β} {s : Session σ} {a : α}
    (h : (P.run s).1 = .ok a) : (P >>= f).run s = (f a).run (P.run s).2 := by
  change (match P.run s with
    | (.ok a, s') => (f a).run s'
    | (.error fault, s') => (.error fault, s')) = _
  rcases hrun : P.run s with ⟨r, s'⟩
  rw [hrun] at h
  obtain rfl : r = .ok a := h
  rfl

theorem run_bind_error {P : Program σ α} {f : α → Program σ β} {s : Session σ} {fault : Fault}
    (h : (P.run s).1 = .error fault) : (P >>= f).run s = (.error fault, (P.run s).2) := by
  change (match P.run s with
    | (.ok a, s') => (f a).run s'
    | (.error fault, s') => (.error fault, s')) = _
  rcases hrun : P.run s with ⟨r, s'⟩
  rw [hrun] at h
  obtain rfl : r = .error fault := h
  rfl

/-- A statement succeeds as it should, or fails and changes nothing. -/
theorem run_statement (f : Conn σ → Option (α × Conn σ)) (s : Session σ) :
    (∃ a conn, f s.conn = some (a, conn) ∧ ((statement f).run s).1 = .ok a ∧
      ((statement f).run s).2.conn = conn) ∨
    ∃ fault, ((statement f).run s).1 = .error fault ∧ ((statement f).run s).2.conn = s.conn := by
  unfold statement
  dsimp only
  cases s.script 0 with
  | busy => exact .inr ⟨_, rfl, rfl⟩
  | error => exact .inr ⟨_, rfl, rfl⟩
  | ok =>
      cases f s.conn with
      | none => exact .inr ⟨_, rfl, rfl⟩
      | some out => exact .inl ⟨out.1, out.2, rfl, rfl, rfl⟩

theorem run_begin (s : Session σ) :
    ((begin.run s).1 = .ok () ∧
      (begin.run s).2.conn = ⟨s.conn.committed, some s.conn.committed⟩) ∨
    ∃ fault, (begin.run s).1 = .error fault ∧ (begin.run s).2.conn = s.conn := by
  rcases run_statement (fun conn : Conn σ =>
      if conn.tx.isSome then none else some ((), { conn with tx := some conn.committed })) s
    with ⟨u, conn, hf, hok, hconn⟩ | hfailed
  · obtain ⟨-, heq⟩ := Option.ite_none_left_eq_some.mp hf
    cases heq
    exact .inl ⟨hok, hconn⟩
  · exact .inr hfailed

theorem run_commit (s : Session σ) :
    (∃ db, s.conn.tx = some db ∧ (commit.run s).1 = .ok () ∧ (commit.run s).2.conn = ⟨db, none⟩) ∨
    ∃ fault, (commit.run s).1 = .error fault ∧ (commit.run s).2.conn = s.conn := by
  rcases run_statement
    (fun conn : Conn σ => conn.tx.map fun db => ((), (⟨db, none⟩ : Conn σ))) s
    with ⟨u, conn, hf, hok, hconn⟩ | hfailed
  · obtain ⟨db, htx, heq⟩ := Option.map_eq_some_iff.mp hf
    cases heq
    exact .inl ⟨db, htx, hok, hconn⟩
  · exact .inr hfailed

theorem run_rollback (s : Session σ) :
    ((rollback.run s).1 = .ok () ∧ (rollback.run s).2.conn = ⟨s.conn.committed, none⟩) ∨
    ∃ fault, (rollback.run s).1 = .error fault ∧ (rollback.run s).2.conn = s.conn := by
  rcases run_statement (fun conn : Conn σ => conn.tx.map fun _ => ((), { conn with tx := none })) s
    with ⟨u, conn, hf, hok, hconn⟩ | hfailed
  · obtain ⟨db, -, heq⟩ := Option.map_eq_some_iff.mp hf
    cases heq
    exact .inl ⟨hok, hconn⟩
  · exact .inr hfailed

/-- After a `ROLLBACK` that succeeded there is no transaction. -/
theorem tx_of_run_rollback {s : Session σ} (h : (rollback.run s).1 = .ok ()) :
    (rollback.run s).2.conn.tx = none := by
  rcases run_rollback s with ⟨-, hconn⟩ | ⟨fault, herror, -⟩
  · rw [hconn]
  · cases herror.symm.trans h

theorem committed_run_rollback (s : Session σ) :
    (rollback.run s).2.conn.committed = s.conn.committed := by
  rcases run_rollback s with ⟨-, hconn⟩ | ⟨fault, -, hconn⟩
  · rw [hconn]
  · rw [hconn]

/-! ## Rules -/

namespace InTx

variable {P : Program σ α} {db : σ} {Q : α → σ → Prop}

theorem pure {a : α} (h : Q a db) : InTx (pure a) db Q := by
  intro c s hs
  refine ⟨db, hs, ?_⟩
  intro a' ha'
  cases ha'
  exact h

theorem panic : InTx (panic : Program σ α) db Q := by
  intro c s hs
  refine ⟨db, hs, ?_⟩
  intro a ha
  cases ha

theorem bind (h : InTx P db Q) {f : α → Program σ β} {R : β → σ → Prop}
    (hf : ∀ a db', Q a db' → InTx (f a) db' R) : InTx (P >>= f) db R := by
  intro c s hs
  obtain ⟨db', hconn, hpost⟩ := h c s hs
  cases hrun : (P.run s).1 with
  | ok a =>
      rw [run_bind_ok hrun]
      exact hf a db' (hpost a hrun) c _ hconn
  | error fault =>
      rw [run_bind_error hrun]
      refine ⟨db', hconn, ?_⟩
      intro b hb
      cases hb

/-- The rule of a statement, by what it does inside a transaction. -/
theorem statement {f : Conn σ → Option (α × Conn σ)}
    (h : ∀ c a conn, f ⟨c, some db⟩ = some (a, conn) → ∃ db', conn = ⟨c, some db'⟩ ∧ Q a db') :
    InTx (statement f) db Q := by
  intro c s hs
  rcases run_statement f s with ⟨a, conn, hf, hok, hconn⟩ | ⟨fault, herror, hconn⟩
  · rw [hs] at hf
    obtain ⟨db', heq, hpost⟩ := h c a conn hf
    refine ⟨db', hconn.trans heq, ?_⟩
    intro a' ha'
    cases hok.symm.trans ha'
    exact hpost
  · refine ⟨db, hconn.trans hs, ?_⟩
    intro a' ha'
    cases herror.symm.trans ha'

theorem read {f : σ → Option α} (h : ∀ a, f db = some a → Q a db) : InTx (read f) db Q := by
  apply InTx.statement
  intro c a conn hf
  obtain ⟨b, hb, heq⟩ := Option.map_eq_some_iff.mp hf
  cases heq
  exact ⟨db, rfl, h _ hb⟩

theorem query {f : σ → α} (h : Q (f db) db) : InTx (query f) db Q := by
  apply InTx.read
  intro a ha
  cases ha
  exact h

theorem write {f : σ → Option (α × σ)} (h : ∀ a db', f db = some (a, db') → Q a db') :
    InTx (write f) db Q := by
  apply InTx.statement
  intro c a conn hf
  obtain ⟨out, hout, heq⟩ := Option.map_eq_some_iff.mp hf
  cases heq
  exact ⟨out.2, rfl, h _ _ hout⟩

end InTx

namespace Ends

variable {P : Program σ α} {c db : σ}

theorem bind {Q : α → σ → Prop} (h : InTx P db Q) {f : α → Program σ β}
    {R : β → σ → Prop} (hf : ∀ a db', Q a db' → Ends (f a) c db' R) :
    Ends (P >>= f) c db R := by
  intro s hs
  obtain ⟨db', hconn, hpost⟩ := h c s hs
  cases hrun : (P.run s).1 with
  | ok a =>
      rw [run_bind_ok hrun]
      exact hf a db' (hpost a hrun) _ hconn
  | error fault =>
      rw [run_bind_error hrun]
      exact .inr ⟨fault, rfl, congrArg Conn.committed hconn⟩

/-- What a `COMMIT` makes permanent is the copy. -/
theorem commit {a : α} {Q : α → σ → Prop} (h : Q a db) :
    Ends (do commit; return a) c db Q := by
  intro s hs
  rcases run_commit s with ⟨db', htx, hok, hconn⟩ | ⟨fault, herror, hconn⟩
  · rw [hs] at htx
    cases htx
    rw [run_bind_ok hok]
    exact .inl ⟨a, rfl, congrArg Conn.tx hconn, congrArg Conn.committed hconn ▸ h⟩
  · rw [run_bind_error herror]
    exact .inr ⟨fault, rfl, congrArg Conn.committed (hconn.trans hs)⟩

/-- A `ROLLBACK` leaves what was committed. -/
theorem rollback {a : α} {Q : α → σ → Prop} (h : Q a c) :
    Ends (do rollback; return a) c db Q := by
  intro s hs
  rcases run_rollback s with ⟨hok, hconn⟩ | ⟨fault, herror, hconn⟩
  · rw [hs] at hconn
    rw [run_bind_ok hok]
    exact .inl ⟨a, rfl, congrArg Conn.tx hconn, congrArg Conn.committed hconn ▸ h⟩
  · rw [run_bind_error herror]
    exact .inr ⟨fault, rfl, congrArg Conn.committed (hconn.trans hs)⟩

/-- A whole transaction, wherever it is started: inside another one, its `BEGIN`
fails. -/
theorem transaction {P : Program σ α} {Q : α → σ → Prop} {s : Session σ}
    (h : Ends P s.conn.committed s.conn.committed Q) :
    Ended ((do begin; P).run s) s.conn.committed Q := by
  rcases run_begin s with ⟨hok, hconn⟩ | ⟨fault, herror, hconn⟩
  · rw [run_bind_ok hok]
    exact h _ hconn
  · rw [run_bind_error herror]
    exact .inr ⟨fault, rfl, congrArg Conn.committed hconn⟩

end Ends

end Transaction
