import NanoSensor.Db.History

/-!
# The database write of a scan

`Agent::Impl::write_db`, which opens the connection when there is none, records the scan, and closes
the connection when that fails. `ScanResult::scan_id` is "0 when not written to SQL Server". But
`record_scan` fills it in as soon as the row of the scan is inserted, and `write_db` does not take
it back: a call that fails later leaves the number of a scan that was rolled back. And where the
number cannot be read, a scan without packages and findings is stored all the same, under 0
(`writeDb_scanId_iff`).
-/

namespace NanoSensor.Db

open Bytes

variable {Score : Type}

/-- The fields of `ScanResult` that `write_db` fills in, with their defaults. -/
structure DbResult where
  scanId : ℕ := 0
  dbError : Bytes := []
  deriving DecidableEq

/-- `db.connected() || db.connect(cfg.db_connection, err)`: the error, if there is one, and the
connection. -/
def opened (w : World) (s : Session Score) : Option Bytes × Session Score :=
  if s.connected then (none, s) else connect w s

/-- `write_db`, with the connection string of the configuration. -/
def writeDb (w : World) (dbConnection : Bytes) (inv : Inventory) (findings : List (Finding Score))
    (r : DbResult) (s : Session Score) : DbResult × Session Score :=
  if dbConnection.isEmpty then (r, s)
  else
    match opened w s with
    | (some e, s) => ({ r with dbError := e }, s)
    | (none, s) =>
      match recordScan w inv findings { s with scanId := r.scanId } with
      | (none, s) => ({ r with scanId := s.scanId }, s)
      -- `r.scan_id` keeps what `record_scan` has left there
      | (some e, s) => (⟨s.scanId, e⟩, s.disconnect)

/-- The connection is open, the row of the scan is inserted and its number read, and then a call
fails: one for a package, for a finding, for the pointer, or the commit. -/
def FailsLate (w : World) (dbConnection : Bytes) (inv : Inventory) (findings : List (Finding Score))
    (s : Session Score) : Prop :=
  dbConnection ≠ [] ∧ (opened w s).1 = none ∧ (opened w s).2.FrontOk w inv ∧
    w.reply ((opened w s).2.numberCall w inv) = .ok ∧
    ¬ AllOk w ((opened w s).2.numberCall w inv + 1) (backCalls inv findings + 1)

/-- The connection is open, and only the number of a scan without rows cannot be read. -/
def LosesNumber (w : World) (dbConnection : Bytes) (inv : Inventory)
    (findings : List (Finding Score)) (s : Session Score) : Prop :=
  dbConnection ≠ [] ∧ (opened w s).1 = none ∧ NumberLost w (opened w s).2 inv findings

section Opened

variable {w : World} {s s' : Session Score} {e : Option Bytes}

/-- What was open is discarded. -/
theorem connect_spec (w : World) (s : Session Score) :
    (connect w s).2.connected = (connect w s).1.isNone ∧ (connect w s).2.commits = s.commits ∧
      (connect w s).2.store = { s.store with tables := s.committed } := by
  rw [connect]
  split
  · exact ⟨rfl, rfl, rfl⟩
  · dsimp only
    split
    · exact ⟨rfl, rfl, rfl⟩
    · exact ⟨rfl, rfl, rfl⟩

/-- Opening the connection commits nothing and draws no number. -/
theorem opened_spec (hidle : s.Idle) (h : opened w s = (e, s')) :
    s'.connected = e.isNone ∧ s'.commits = s.commits ∧ s'.store = s.store := by
  rw [opened] at h
  split at h
  · next hconnected =>
    cases h
    exact ⟨hconnected, rfl, rfl⟩
  · have hspec := connect_spec w s
    rw [h, ← hidle] at hspec
    exact hspec

end Opened

section Write

variable {w : World} {dbConnection : Bytes} {inv : Inventory} {findings : List (Finding Score)}
  {r : DbResult} {s s₁ s₂ : Session Score} {e : Bytes}

theorem writeDb_of_unopened (hempty : dbConnection.isEmpty = false)
    (hopened : opened w s = (some e, s₁)) :
    writeDb w dbConnection inv findings r s = ({ r with dbError := e }, s₁) := by
  simp only [writeDb, hempty, hopened, Bool.false_eq_true, if_false]

theorem writeDb_of_failed (hempty : dbConnection.isEmpty = false)
    (hopened : opened w s = (none, s₁))
    (hrecord : recordScan w inv findings { s₁ with scanId := r.scanId } = (some e, s₂)) :
    writeDb w dbConnection inv findings r s = (⟨s₂.scanId, e⟩, s₂.disconnect) := by
  simp only [writeDb, hempty, hopened, hrecord, Bool.false_eq_true, if_false]

theorem writeDb_of_recorded (hempty : dbConnection.isEmpty = false)
    (hopened : opened w s = (none, s₁))
    (hrecord : recordScan w inv findings { s₁ with scanId := r.scanId } = (none, s₂)) :
    writeDb w dbConnection inv findings r s = ({ r with scanId := s₂.scanId }, s₂) := by
  simp only [writeDb, hempty, hopened, hrecord, Bool.false_eq_true, if_false]

end Write

/-- How a write can end: without a number, with the number that was read of a scan that was rolled
back, or with the number that was read of a scan that was stored. -/
theorem writeDb_cases (w : World) (dbConnection : Bytes) (inv : Inventory)
    (findings : List (Finding Score)) (r : DbResult) {s : Session Score} (hidle : s.Idle)
    (hnumbered : s.store.Numbered) :
    (∃ r' s', writeDb w dbConnection inv findings r s = (r', s') ∧ r'.scanId = r.scanId ∧
      s'.commits = s.commits ∧ ¬ (dbConnection ≠ [] ∧ (opened w s).1 = none ∧
        (opened w s).2.FrontOk w inv)) ∨
    ((dbConnection ≠ [] ∧ (opened w s).1 = none ∧ (opened w s).2.FrontOk w inv) ∧
      ∃ r' s', writeDb w dbConnection inv findings r s = (r', s') ∧
        r'.scanId = readNumber w ((opened w s).2.numberCall w inv) s.store.nextScanId ∧
        (Completes w ((opened w s).2.numberCall w inv) inv findings (backCalls inv findings + 1) ∧
          s'.commits = s.commits + 1 ∨
        ¬ Completes w ((opened w s).2.numberCall w inv) inv findings (backCalls inv findings + 1) ∧
          s'.commits = s.commits)) := by
  rcases hempty : dbConnection.isEmpty with - | -
  · have hne : dbConnection ≠ [] := by
      rintro rfl
      cases hempty
    rcases hopened : opened w s with ⟨_ | e, s₁⟩
    · obtain ⟨hconnected, hcommits, hstore⟩ := opened_spec hidle hopened
      rcases recordScan_cases w (s := { s₁ with scanId := r.scanId }) inv findings hconnected
        (by rw [hstore]; exact hnumbered) with
        ⟨e, s₂, heq, -, hsame, hfront, hid⟩ | ⟨e, s₂, heq, -, hsame, hfront, hback, hid⟩ |
          ⟨s₂, heq, hrecorded, hsame, hfront, hback⟩
      · exact Or.inl ⟨_, _, writeDb_of_failed hempty hopened heq, hid, hsame.trans hcommits,
          fun h ↦ hfront h.2.2⟩
      · exact Or.inr ⟨⟨hne, rfl, hfront⟩, _, _, writeDb_of_failed hempty hopened heq,
          hstore ▸ hid, Or.inr ⟨hback, hsame.trans hcommits⟩⟩
      · exact Or.inr ⟨⟨hne, rfl, hfront⟩, _, _, writeDb_of_recorded hempty hopened heq,
          hstore ▸ hrecorded.scanId,
          Or.inl ⟨hback, hsame.trans (congrArg (· + 1) hcommits)⟩⟩
    · refine Or.inl ⟨_, _, writeDb_of_unopened hempty hopened, rfl, (opened_spec hidle hopened).2.1,
        ?_⟩
      rintro ⟨-, hnone, -⟩
      cases hnone
  · refine Or.inl ⟨r, s, if_pos hempty, rfl, rfl, ?_⟩
    rintro ⟨hne, -⟩
    exact hne (List.isEmpty_iff.1 hempty)

/-- **When the number tells whether the scan was stored.** The number is not `0` exactly if the
transaction committed, unless a call fails after the number of the scan was read, or that number is
all that cannot be read of a scan without packages and findings. No transaction is open before, and
identities begin at `1`. -/
theorem writeDb_scanId_iff (w : World) (dbConnection : Bytes) (inv : Inventory)
    (findings : List (Finding Score)) {s : Session Score} (hidle : s.Idle)
    (hnumbered : s.store.Numbered) :
    ((writeDb w dbConnection inv findings {} s).1.scanId ≠ 0 ↔
      (writeDb w dbConnection inv findings {} s).2.commits = s.commits + 1) ↔
    ¬ FailsLate w dbConnection inv findings s ∧ ¬ LosesNumber w dbConnection inv findings s := by
  have hne : s.commits ≠ s.commits + 1 := (Nat.lt_succ_self _).ne
  have hpos := hnumbered.nextScanId.ne'
  rcases writeDb_cases w dbConnection inv findings {} hidle hnumbered with
    ⟨r', s', heq, hid, hcommits, hnot⟩ | ⟨⟨hconfigured, hopened, hfront⟩, r', s', heq, hid, hend⟩
  · rw [heq, hid, hcommits]
    refine iff_of_true (iff_of_false (fun h ↦ h rfl) hne) ⟨fun h ↦ ?_, fun h ↦ ?_⟩
    · exact hnot ⟨h.1, h.2.1, h.2.2.1⟩
    · exact hnot ⟨h.1, h.2.1, h.2.2.1⟩
  · rw [heq, hid, readNumber]
    simp only [FailsLate, LosesNumber, NumberLost, hopened, hfront, true_and, ne_eq, hconfigured,
      not_false_eq_true]
    -- by whether the number is read, and by how the transaction ends
    by_cases hread : w.reply ((opened w s).2.numberCall w inv) = .ok
    · rcases hend with ⟨hback, hcommits⟩ | ⟨hback, hcommits⟩
      · simp [hread, hcommits, hpos, hback.2]
      · have hlater : ¬ AllOk w ((opened w s).2.numberCall w inv + 1)
            (backCalls inv findings + 1) :=
          fun h ↦ hback ⟨Or.inl hread, h⟩
        simp [hread, hcommits, hpos, hlater]
    · rcases hend with ⟨hback, hcommits⟩ | ⟨hback, hcommits⟩
      · simp [hread, hcommits, hback]
      · simp [hread, hcommits, hback]

/-- The first scan ever is rolled back because its package runs into the query timeout, and has the
number `1` all the same. -/
theorem writeDb_scanId_rolled_back :
    ¬ ((writeDb (.failingAt 19 (ofString "[HYT00] Query timeout expired")) (ofString "Driver")
        (hostWith [git]) ([] : List (Finding ℕ)) {} Session.start).1.scanId ≠ 0 ↔
      (writeDb (.failingAt 19 (ofString "[HYT00] Query timeout expired")) (ofString "Driver")
        (hostWith [git]) ([] : List (Finding ℕ)) {} Session.start).2.commits =
          (Session.start : Session ℕ).commits + 1) := by
  decide +kernel

/-- Where the host's row cannot be inserted, the number tells the truth. -/
theorem writeDb_scanId_iff_no_host :
    (writeDb (.failingAt 9 (ofString "[HYT00] Query timeout expired")) (ofString "Driver")
        (hostWith [git]) ([] : List (Finding ℕ)) {} Session.start).1.scanId ≠ 0 ↔
      (writeDb (.failingAt 9 (ofString "[HYT00] Query timeout expired")) (ofString "Driver")
        (hostWith [git]) ([] : List (Finding ℕ)) {} Session.start).2.commits =
          (Session.start : Session ℕ).commits + 1 := by
  refine (writeDb_scanId_iff _ (ofString "Driver") (hostWith [git]) [] (s := Session.start) rfl
    ⟨Nat.one_pos, Nat.one_pos, nofun, nofun⟩).2 ⟨fun h ↦ ?_, fun h ↦ ?_⟩
  · exact absurd h.2.2.1 (by decide +kernel)
  · exact absurd h.2.2.1 (by decide +kernel)

end NanoSensor.Db
