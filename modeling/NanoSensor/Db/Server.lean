import NanoSensor.Cve.Scan
import NanoSensor.Foundation.Triple

/-!
# The database and the connection to it

The four tables of `tools/db/schema.sql`, and the ODBC connection that `src/db_odbc.cpp` works on. A
function of `Db` is a program on a `Session`: it issues one ODBC call after the other, and returns
early when one of them fails.

Which calls fail is up to a `World`, which has a reply for every call. A statement whose execution
is reported as failed may have taken effect or not. What the server does with statements is the
assumption the rest is proved from: with autocommit on, a statement is there for everyone at once;
with autocommit off, only in the transaction, until a commit that succeeds; a rollback, or a commit
that fails, discards the transaction. The counters that identities are drawn from are not part of
it. A statement that a constraint of the schema forbids is refused.

Two kinds of calls fail without anyone looking. Where autocommit cannot be switched it stays as it
is (`Session.setAutocommit`). Where a column cannot be read, the variable for it keeps its initial
value, and a number that was to be fetched is 0 and counts as found (`fetchI64`).

The columns hold what is bound to them. Left out are `last_seen` and `finding_id`, which nothing
reads, and what the column types do to a value. Two names are the same to the server if its
collation says so. The primary keys are taken to hold: the statements draw them from identities and
ordinals.
-/

namespace NanoSensor.Db

open Bytes EStateM

/-! ### Tables -/

/-- A row of `dbo.hosts`. -/
structure HostRow where
  hostId : ℕ
  hostname : Bytes
  osName : Bytes
  osVersion : Bytes
  latestScanId : Option ℕ
  deriving DecidableEq

/-- A row of `dbo.scans`. -/
structure ScanRow where
  scanId : ℕ
  hostId : ℕ
  collectedAt : Int64
  agentVersion : Bytes
  packageCount : ℕ
  findingCount : ℕ
  deriving DecidableEq

/-- A row of `dbo.packages`. -/
structure PackageRow where
  scanId : ℕ
  packageId : ℕ
  name : Bytes
  version : Bytes
  vendor : Bytes
  source : Bytes
  deriving DecidableEq

/-- A row of `dbo.findings`. -/
structure FindingRecord (Score : Type) where
  scanId : ℕ
  cveId : Bytes
  packageName : Bytes
  packageVersion : Bytes
  cvss : Score
  severity : Bytes
  exposed : Bool
  deriving DecidableEq

/-- The four tables. -/
structure Tables (Score : Type) where
  hosts : List HostRow
  scans : List ScanRow
  packages : List PackageRow
  findings : List (FindingRecord Score)
  deriving DecidableEq

/-- The tables and the next identities. -/
structure Store (Score : Type) where
  tables : Tables Score
  nextHostId : ℕ
  nextScanId : ℕ
  deriving DecidableEq

variable {Score : Type}

/-- The tables as the schema creates them. -/
def Store.empty : Store Score :=
  ⟨⟨[], [], [], []⟩, 1, 1⟩

/-- Identities begin at 1, so that no row has the number 0. -/
structure Store.Numbered (st : Store Score) : Prop where
  nextHostId : 0 < st.nextHostId
  nextScanId : 0 < st.nextScanId
  hosts : ∀ h ∈ st.tables.hosts, 0 < h.hostId
  scans : ∀ r ∈ st.tables.scans, 0 < r.scanId

/-- What executing a statement does to the store, and the number in the first row of its result, if
it has one; nothing if a constraint forbids it. -/
def Statement (Score : Type) : Type :=
  Store Score → Option (Option ℕ × Store Score)

/-- Identities are never given twice. -/
def Statement.Grows (stmt : Statement Score) : Prop :=
  ∀ st out, stmt st = some out →
    st.nextHostId ≤ out.2.nextHostId ∧ st.nextScanId ≤ out.2.nextScanId

/-! ### The connection -/

/-- The outcome of an ODBC call. -/
inductive Reply
  /-- `SQL_SUCCESS`, `SQL_SUCCESS_WITH_INFO`, or `SQL_NO_DATA` where that is not an error. -/
  | ok
  /-- An error, with what `diag` makes of it; the statement may have taken effect. -/
  | failed (applied : Bool) (diag : Bytes)
  deriving DecidableEq

/-- What the server and the network do: the reply to the `n`-th call, the collation, and what `diag`
says where a constraint is violated. -/
structure World where
  reply : ℕ → Reply
  collate : Bytes → Bytes
  violation : Bytes

/-- The server compares names by its collation. -/
def World.same (w : World) (a b : Bytes) : Bool :=
  w.collate a = w.collate b

/-- A connection, and the database behind it. -/
structure Session (Score : Type) where
  connected : Bool
  autocommit : Bool
  /-- The tables as everyone else reads them. -/
  committed : Tables Score
  /-- The store as the transaction of this connection has left it. -/
  store : Store Score
  /-- The variable of the caller that `scan_id` refers to. -/
  scanId : ℕ
  /-- How many ODBC calls have been made. -/
  calls : ℕ
  /-- How many transactions were committed by `SQLEndTran`. -/
  commits : ℕ
  deriving DecidableEq

/-- A function of `Db` that stops where it says `return fail(...)`. -/
abbrev Odbc (Score : Type) :=
  EStateM Bytes (Session Score)

namespace Session

/-- The server has executed a statement that leaves the store like this. -/
def perform (s : Session Score) (st : Store Score) : Session Score :=
  { s with
    store := st
    committed := if s.autocommit then st.tables else s.committed }

/-- `SQLEndTran(..., SQL_COMMIT)` that succeeds. -/
def commit (s : Session Score) : Session Score :=
  { s with committed := s.store.tables, commits := s.commits + 1 }

/-- What the server does at `SQL_ROLLBACK`, and when a commit fails. -/
def discard (s : Session Score) : Session Score :=
  { s with store := { s.store with tables := s.committed } }

/-- `Db::disconnect`: a transaction that is open is discarded, and the next connection begins with
autocommit on. -/
def disconnect (s : Session Score) : Session Score :=
  { s.discard with connected := false, autocommit := true }

/-- One more ODBC call was made. -/
def called (s : Session Score) : Session Score :=
  { s with calls := s.calls + 1 }

/-- `set_autocommit`: switching it on commits what is open. Nobody looks whether the call fails. -/
def setAutocommit (w : World) (on : Bool) (s : Session Score) : Session Score :=
  match w.reply s.calls with
  | .ok =>
    { s.called with autocommit := on, committed := if on then s.store.tables else s.committed }
  | .failed _ _ => s.called

end Session

/-- Make an ODBC call. -/
def call (w : World) : Odbc Score Reply :=
  fun s ↦ .ok (w.reply s.calls) s.called

/-- `Stmt::prepare`, and the return when it fails. -/
def prepare (w : World) : Odbc Score Unit := do
  match ← call w with
  | .ok => pure ()
  | .failed _ diag => throw (ofString "prepare: " ++ diag)

/-- `Stmt::execute`, and the return when it fails; `what` is what the error begins with. The calls
that bind the parameters have one reply. -/
def execute (w : World) (what : Bytes) (stmt : Statement Score) : Odbc Score (Option ℕ) := do
  match ← call w with
  | .failed _ diag => throw (what ++ (ofString "bind: " ++ diag))
  | .ok =>
    match ← call w with
    | .ok =>
      let s ← get
      match stmt s.store with
      | some (row, st) =>
        set (s.perform st)
        pure row
      | none => throw (what ++ w.violation)
    | .failed applied diag =>
      -- the error may come before the statement took effect or after
      modify fun s ↦
        if applied then (stmt s.store).elim s fun out ↦ s.perform out.2 else s
      throw (what ++ diag)

/-- `SQLGetData`, into a variable with this initial value. -/
def getData {α : Type} (w : World) (column initial : α) : Odbc Score α := do
  match ← call w with
  | .ok => pure column
  | .failed _ _ => pure initial

/-- `Stmt::fetch_i64`, and the return when it fails. There is no diagnosis then, as `err` is empty.
-/
def fetchI64 (w : World) (what : Bytes) (row : Option ℕ) : Odbc Score (Option ℕ) := do
  match ← call w with
  | .failed _ _ => throw what
  | .ok =>
    match row with
    | none => pure none
    | some v =>
      -- `ind` is 0 as well if the number cannot be read, which is not `SQL_NULL_DATA`
      return some (← getData w v 0)

/-- A statement whose rows are what it has changed (`OUTPUT INSERTED`): prepare it, execute it, and
fetch the number in the first row. -/
def executeOutput (w : World) (what : Bytes) (stmt : Statement Score) :
    Odbc Score (Option ℕ) := do
  prepare w
  let row ← execute w what stmt
  fetchI64 w what row

/-- `Db::connect`: the error, if there is one, and the connection. -/
def connect (w : World) (s : Session Score) : Option Bytes × Session Score :=
  let s := s.disconnect
  -- the environment, and then the connection itself
  match w.reply s.calls with
  | .failed _ _ => (some (ofString "SQLAllocHandle(ENV) failed"), s.called)
  | .ok =>
    let s := s.called
    match w.reply s.calls with
    | .failed _ diag => (some (ofString "connect: " ++ diag), s.called.disconnect)
    | .ok => (none, { s.called with connected := true })

/-! ### Inside a transaction -/

/-- The `n` calls from number `c` on succeed. -/
def AllOk (w : World) (c n : ℕ) : Prop :=
  ∀ i < n, w.reply (c + i) = .ok

/-- The number that is fetched with call number `c`. -/
def readNumber (w : World) (c v : ℕ) : ℕ :=
  if w.reply c = .ok then v else 0

section AllOk

variable {w : World} {c m n : ℕ}

instance : Decidable (AllOk w c n) :=
  inferInstanceAs (Decidable (∀ i < n, w.reply (c + i) = .ok))

theorem AllOk.of_le (h : AllOk w c n) (hmn : m ≤ n) : AllOk w c m :=
  fun i hi ↦ h i (hi.trans_le hmn)

theorem allOk_add : AllOk w c (m + n) ↔ AllOk w c m ∧ AllOk w (c + m) n := by
  constructor
  · refine fun h ↦ ⟨h.of_le (Nat.le_add_right m n), fun i hi ↦ ?_⟩
    rw [Nat.add_assoc]
    exact h (m + i) (Nat.add_lt_add_left hi m)
  · rintro ⟨hm, hn⟩ i hi
    rcases Nat.lt_or_ge i m with hlt | hge
    · exact hm i hlt
    · obtain ⟨j, rfl⟩ := Nat.exists_eq_add_of_le hge
      rw [← Nat.add_assoc]
      exact hn j (Nat.add_lt_add_iff_left.1 hi)

theorem allOk_one : AllOk w c 1 ↔ w.reply c = .ok :=
  ⟨fun h ↦ h 0 Nat.one_pos, fun h i hi ↦ by rwa [Nat.lt_one_iff.1 hi]⟩

theorem allOk_succ : AllOk w c (n + 1) ↔ AllOk w c n ∧ w.reply (c + n) = .ok := by
  rw [allOk_add, allOk_one]

/-- A number is read after calls that have succeeded. -/
theorem AllOk.readNumber_cases (h : AllOk w c n) (v : ℕ) :
    readNumber w (c + n) v = v ∧ AllOk w c (n + 1) ∨
      readNumber w (c + n) v = 0 ∧ ¬ AllOk w c (n + 1) := by
  by_cases hreply : w.reply (c + n) = .ok
  · exact Or.inl ⟨if_pos hreply, allOk_succ.2 ⟨h, hreply⟩⟩
  · exact Or.inr ⟨if_neg hreply, fun hall ↦ hreply (allOk_succ.1 hall).2⟩

end AllOk

/-- `s` is a state of the transaction that was begun at `s₀`. -/
structure Within (s₀ s : Session Score) : Prop where
  connected : s.connected = s₀.connected
  autocommit : s.autocommit = s₀.autocommit
  /-- With autocommit off nobody else sees it. -/
  committed : s₀.autocommit = false → s.committed = s₀.committed
  commits : s.commits = s₀.commits
  nextHostId : s₀.store.nextHostId ≤ s.store.nextHostId
  nextScanId : s₀.store.nextScanId ≤ s.store.nextScanId

/-- After `k` calls of the transaction, with this store and this `scan_id`. -/
structure Here (s₀ : Session Score) (k : ℕ) (st : Store Score) (sid : ℕ) (s : Session Score) :
    Prop extends Within s₀ s where
  calls : s.calls = s₀.calls + k
  store : s.store = st
  scanId : s.scanId = sid

/-- The transaction has stopped with an error, and `scan_id` has this value. -/
structure Halted (s₀ : Session Score) (sid : ℕ) (s : Session Score) : Prop extends
    Within s₀ s where
  scanId : s.scanId = sid

section Calls

variable {w : World} {s₀ : Session Score} {k : ℕ} {st : Store Score} {sid : ℕ}

theorem Here.halted {s : Session Score} (h : Here s₀ k st sid s) : Halted s₀ sid s :=
  { h with }

/-- A call is made, and what follows gets the next reply. -/
theorem triple_call {α : Type} {f : Reply → Odbc Score α} {Q : α → Session Score → Prop}
    {E : Bytes → Session Score → Prop}
    (h : Triple (Here s₀ (k + 1) st sid) (f (w.reply (s₀.calls + k))) Q E) :
    Triple (Here s₀ k st sid) (call w >>= f) Q E := by
  intro s hs
  show (f (w.reply s.calls) s.called).Meets Q E
  rw [hs.calls]
  exact h s.called { hs with
    calls := congrArg (· + 1) hs.calls
    committed := hs.committed
    nextHostId := hs.nextHostId
    nextScanId := hs.nextScanId
    store := hs.store }

theorem getData_spec {α : Type} (column initial : α) :
    Triple (Here s₀ k st sid) (getData w column initial)
      (fun a s ↦ a = (if w.reply (s₀.calls + k) = .ok then column else initial) ∧
        Here s₀ (k + 1) st sid s)
      fun _ _ ↦ False := by
  refine triple_call ?_
  rcases w.reply (s₀.calls + k) with - | ⟨applied, diag⟩
  · exact Triple.pure fun _ h ↦ ⟨rfl, h⟩
  · exact Triple.pure fun _ h ↦ ⟨rfl, h⟩

/-- Fetching a number: the call that fetches has to succeed, and the one that reads does not. -/
theorem fetchI64_spec (what : Bytes) (v : ℕ) :
    Triple (Here s₀ k st sid) (fetchI64 w what (some v))
      (fun r s ↦ (r = some (readNumber w (s₀.calls + k + 1) v) ∧ AllOk w (s₀.calls + k) 1) ∧
        Here s₀ (k + 2) st sid s)
      fun _ s ↦ ¬ AllOk w (s₀.calls + k) 1 ∧ Halted s₀ sid s := by
  refine triple_call ?_
  rw [allOk_one]
  rcases hreply : w.reply (s₀.calls + k) with - | ⟨applied, diag⟩
  · refine (getData_spec v 0).seq (fun _ _ ↦ False.elim) fun a ↦ Triple.assume fun ha ↦ ?_
    exact Triple.pure fun s hs ↦ ⟨⟨congrArg some ha, rfl⟩, hs⟩
  · exact Triple.throw fun s hs ↦ ⟨nofun, hs.halted⟩

/-- A statement stays inside the transaction. -/
theorem Within.perform {s : Session Score} (h : Within s₀ s) {st : Store Score}
    (hhost : s.store.nextHostId ≤ st.nextHostId) (hscan : s.store.nextScanId ≤ st.nextScanId) :
    Within s₀ (s.perform st) where
  connected := h.connected
  autocommit := h.autocommit
  committed := fun hoff ↦ by
    show (if s.autocommit then _ else _) = _
    rw [h.autocommit, hoff]
    exact h.committed hoff
  commits := h.commits
  nextHostId := h.nextHostId.trans hhost
  nextScanId := h.nextScanId.trans hscan

/-- A statement that a constraint forbids. -/
theorem execute_refused (what : Bytes) {stmt : Statement Score} (hrefused : stmt st = none) :
    Triple (Here s₀ k st sid) (execute w what stmt) (fun _ _ ↦ False)
      fun _ s ↦ Halted s₀ sid s := by
  refine triple_call ?_
  rcases w.reply (s₀.calls + k) with - | ⟨applied, diag⟩
  · refine triple_call ?_
    rcases w.reply (s₀.calls + (k + 1)) with - | ⟨applied, diag⟩
    · intro s hs
      show ((match stmt s.store with
        | some (row, st) => (do set (s.perform st); pure row : Odbc Score (Option ℕ))
        | none => throw (what ++ w.violation)) s).Meets _ _
      rw [hs.store, hrefused]
      exact hs.halted
    · intro s hs
      show Halted s₀ sid (if applied then (stmt s.store).elim s _ else s)
      rw [hs.store, hrefused]
      exact (ite_self s).symm ▸ hs.halted
  · exact Triple.throw fun _ h ↦ h.halted

end Calls

/-! ### Blocks of calls -/

/-- A program of `n` calls that must all succeed, with this store before it: if they do, it returns
`a` and leaves the store `st'`; if not, it stops with an error. -/
def Block {α : Type} (w : World) (n : ℕ) (st : Store Score) (x : Odbc Score α) (a : α)
    (st' : Store Score) : Prop :=
  ∀ s₀ k sid, Triple (Here s₀ k st sid) x
    (fun b s ↦ (b = a ∧ AllOk w (s₀.calls + k) n) ∧ Here s₀ (k + n) st' sid s)
    fun _ s ↦ ¬ AllOk w (s₀.calls + k) n ∧ Halted s₀ sid s

section Blocks

variable {w : World} {st st₁ st₂ : Store Score} {m n : ℕ}

theorem Block.pure {α : Type} (a : α) : Block w 0 st (Pure.pure a) a st :=
  fun _ _ _ ↦ Triple.pure fun _ h ↦ ⟨⟨rfl, nofun⟩, h⟩

theorem Block.bind {α β : Type} {x : Odbc Score α} {f : α → Odbc Score β} {a : α} {b : β}
    (hx : Block w m st x a st₁) (hf : Block w n st₁ (f a) b st₂) :
    Block w (m + n) st (x >>= f) b st₂ := by
  intro s₀ k sid
  refine (hx s₀ k sid).seq (fun _ _ h ↦ ⟨fun hall ↦ h.1 (allOk_add.1 hall).1, h.2⟩)
    fun a' ↦ Triple.assume fun ⟨ha, hm⟩ ↦ ?_
  subst ha
  refine (hf s₀ (k + m) sid).mono (fun _ h ↦ h) (fun b' s h ↦ ?_) fun _ _ h ↦ ?_
  · rw [← Nat.add_assoc] at h
    rw [← Nat.add_assoc]
    exact ⟨⟨h.1.1, allOk_add.2 ⟨hm, h.1.2⟩⟩, h.2⟩
  · rw [← Nat.add_assoc] at h
    exact ⟨fun hall ↦ h.1 (allOk_add.1 hall).2, h.2⟩

theorem block_prepare : Block w 1 st (prepare w) () st := by
  intro s₀ k sid
  refine triple_call ?_
  rw [allOk_one]
  rcases w.reply (s₀.calls + k) with - | ⟨applied, diag⟩
  · exact Triple.pure fun _ h ↦ ⟨⟨rfl, rfl⟩, h⟩
  · exact Triple.throw fun _ h ↦ ⟨nofun, h.halted⟩

/-- A fetch that finds no row. -/
theorem block_fetchI64_none (what : Bytes) : Block w 1 st (fetchI64 w what none) none st := by
  intro s₀ k sid
  refine triple_call ?_
  rw [allOk_one]
  rcases w.reply (s₀.calls + k) with - | ⟨applied, diag⟩
  · exact Triple.pure fun _ h ↦ ⟨⟨rfl, rfl⟩, h⟩
  · exact Triple.throw fun _ h ↦ ⟨nofun, h.halted⟩

theorem block_execute (what : Bytes) {stmt : Statement Score} (hgrows : stmt.Grows)
    {row : Option ℕ} (hstmt : stmt st = some (row, st₁)) :
    Block w 2 st (execute w what stmt) row st₁ := by
  intro s₀ k sid
  obtain ⟨hhost, hscan⟩ := hgrows st _ hstmt
  refine triple_call ?_
  rw [show (2 : ℕ) = 1 + 1 from rfl, allOk_add, allOk_one, allOk_one]
  rcases hfirst : w.reply (s₀.calls + k) with - | ⟨applied, diag⟩
  · refine triple_call ?_
    rw [← Nat.add_assoc]
    rcases w.reply (s₀.calls + k + 1) with - | ⟨applied, diag⟩
    · intro s hs
      have hwithin := hs.toWithin.perform (hs.store ▸ hhost) (hs.store ▸ hscan)
      show ((match stmt s.store with
        | some (row, st) => (do set (s.perform st); Pure.pure row : Odbc Score (Option ℕ))
        | none => throw (what ++ w.violation)) s).Meets _ _
      rw [hs.store, hstmt]
      exact ⟨⟨rfl, rfl, rfl⟩, { hwithin with calls := hs.calls, store := rfl, scanId := hs.scanId }⟩
    · intro s hs
      have hwithin := hs.toWithin.perform (hs.store ▸ hhost) (hs.store ▸ hscan)
      show (_ ∧ Halted s₀ sid (if applied then (stmt s.store).elim s _ else s))
      refine ⟨nofun, ?_⟩
      rw [hs.store, hstmt]
      split
      · exact { hwithin with scanId := hs.scanId }
      · exact hs.halted
  · exact Triple.throw fun _ h ↦ ⟨nofun, h.halted⟩

/-- An output that is empty. -/
theorem block_executeOutput_none (what : Bytes) {stmt : Statement Score} (hgrows : stmt.Grows)
    (hstmt : stmt st = some (none, st₁)) :
    Block w (1 + (2 + 1)) st (executeOutput w what stmt) none st₁ :=
  block_prepare.bind ((block_execute what hgrows hstmt).bind (block_fetchI64_none what))

/-- An output of one row. -/
theorem executeOutput_spec {s₀ : Session Score} {k sid : ℕ} (what : Bytes) {stmt : Statement Score}
    (hgrows : stmt.Grows) {v : ℕ} (hstmt : stmt st = some (some v, st₁)) :
    Triple (Here s₀ k st sid) (executeOutput w what stmt)
      (fun r s ↦ (r = some (readNumber w (s₀.calls + k + 4) v) ∧ AllOk w (s₀.calls + k) 4) ∧
        Here s₀ (k + 5) st₁ sid s)
      fun _ s ↦ ¬ AllOk w (s₀.calls + k) 4 ∧ Halted s₀ sid s := by
  have hblock : Block w (1 + 2) st (do prepare w; execute w what stmt) (some v) st₁ :=
    block_prepare.bind (block_execute what hgrows hstmt)
  have hassoc : executeOutput w what stmt =
      (do prepare w; execute w what stmt) >>= fetchI64 w what :=
    (bind_assoc _ _ _).symm
  rw [hassoc, show (4 : ℕ) = 1 + 2 + 1 from rfl]
  refine (hblock s₀ k sid).seq (fun _ _ h ↦ ⟨fun hall ↦ h.1 (allOk_add.1 hall).1, h.2⟩)
    fun row ↦ Triple.assume fun ⟨hrow, hthree⟩ ↦ ?_
  subst hrow
  refine (fetchI64_spec what v).mono (fun _ h ↦ h) (fun r s h ↦ ?_) fun _ _ h ↦ ?_
  · exact ⟨⟨h.1.1, allOk_add.2 ⟨hthree, h.1.2⟩⟩, h.2⟩
  · exact ⟨fun hall ↦ h.1 (allOk_add.1 hall).2, h.2⟩

/-- An output of a statement that a constraint forbids. -/
theorem executeOutput_refused {s₀ : Session Score} {k sid : ℕ} (what : Bytes)
    {stmt : Statement Score} (hrefused : stmt st = none) :
    Triple (Here s₀ k st sid) (executeOutput w what stmt) (fun _ _ ↦ False)
      fun _ s ↦ Halted s₀ sid s := by
  refine (block_prepare s₀ k sid).seq (fun _ _ h ↦ h.2) fun _ ↦ Triple.assume fun _ ↦ ?_
  exact (execute_refused what hrefused).seq (fun _ _ h ↦ h) fun _ _ h ↦ h.elim

/-- A statement that is executed for every entry of a list; `add` is what it has done to the store
after some of them. -/
theorem block_forM {α : Type} (what : Bytes) (xs : List α) (stmt : α → Statement Score)
    (add : List α → Store Score) (hgrows : ∀ x, (stmt x).Grows) (hnil : add [] = st)
    (hadd : ∀ done x rest, xs = done ++ x :: rest →
      stmt x (add done) = some (none, add (done ++ [x]))) :
    Block w (2 * xs.length) st (xs.forM fun x ↦ do let _ ← execute w what (stmt x)) ()
      (add xs) := by
  -- induction on what is left, for any part that is done
  suffices key : ∀ rest done, xs = done ++ rest → Block w (2 * rest.length) (add done)
      (rest.forM fun x ↦ do let _ ← execute w what (stmt x)) () (add xs) by
    have hall := key xs [] rfl
    rwa [hnil] at hall
  intro rest
  induction rest with
  | nil =>
    intro done hxs
    rw [List.append_nil] at hxs
    subst hxs
    exact Block.pure ()
  | cons x rest ih =>
    intro done hxs
    have hone : Block w 2 (add done) (do let _ ← execute w what (stmt x)) () (add (done ++ [x])) :=
      (block_execute what (hgrows x) (hadd done x rest hxs)).bind
        (f := fun _ ↦ Pure.pure ()) (Block.pure ())
    have hrest := ih (done ++ [x]) (by rw [hxs, List.append_assoc]; rfl)
    rw [List.length_cons, Nat.mul_succ, Nat.add_comm]
    exact hone.bind hrest

end Blocks

end NanoSensor.Db
