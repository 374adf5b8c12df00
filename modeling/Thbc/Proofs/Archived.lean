import Thbc.Persistence.Postgres

/-!
# Reports that the history can hold

A report has amounts of a `u64` and a drift of an `i128`, and the columns of
`reconciliation_runs` are `BIGINT`. The shortfall is at most the supply and the
drift a difference of two amounts, so what decides is whether the three amounts of
the report fit: the expected supply, the supply of the ledger and the free
backing. A report that fits is read back as it was, and one that does not is
refused and leaves no row.
-/

namespace Thbc

open Thbc.Lib

/-- The three amounts that the others follow from are `BIGINT`s. -/
def ReconciliationReport.Fits (r : ReconciliationReport) : Prop :=
  r.expectedSupply.toNat < 2 ^ 63 ∧ r.ledgerSupply.toNat < 2 ^ 63 ∧
    r.freeBacking.toNat < 2 ^ 63

instance ReconciliationReport.decidableFits (r : ReconciliationReport) :
    Decidable r.Fits := inferInstanceAs (Decidable (_ ∧ _ ∧ _))

/-- The row of a report. -/
def ReconciliationRow.of (r : ReconciliationReport) : ReconciliationRow where
  checkedAt := r.checkedAt
  severity := r.severity.asStr
  drift := Int64.ofInt r.drift
  expectedSupply := r.expectedSupply.minor.toInt64
  ledgerSupply := r.ledgerSupply.minor.toInt64
  freeBacking := r.freeBacking.minor.toInt64
  shortfall := r.shortfall.minor.toInt64

/-- The figures of a report that are not independent. -/
theorem reconcile_figures {tally : LedgerTally} {reserve : ReserveState} {now : Int64}
    {report : ReconciliationReport} (h : reconcile tally reserve now = .ok report) :
    report.drift = (report.ledgerSupply.toNat : ℤ) - report.expectedSupply.toNat ∧
      report.shortfall.toNat = report.ledgerSupply.toNat - report.freeBacking.toNat := by
  unfold reconcile at h
  obtain ⟨expected, -, h⟩ := bind_ok.mp h
  obtain rfl := Except.ok.inj h
  exact ⟨rfl, Thb.toNat_saturatingSub _ _⟩

namespace PgReconciliationRepository

variable {report : ReconciliationReport}

theorem tryFromI128_of_le {n : ℤ} (hlo : -2 ^ 63 ≤ n) (hhi : n < 2 ^ 63) :
    tryFromI128 n = some (Int64.ofInt n) := if_pos ⟨hlo, hhi⟩

theorem checks_of (report : ReconciliationReport) :
    reconciliationRuns.violated (.of report) = none := by
  have hseverity : report.severity.asStr ∈ ["ok", "drift", "insolvent"] := by
    cases report.severity <;> decide
  refine Schema.violated_of_checks ?_
  show ∀ c ∈ [_], _
  rw [List.forall_mem_singleton]
  exact decide_eq_true hseverity

theorem record_of (hfits : report.Fits) (hlo : -2 ^ 63 ≤ report.drift)
    (hhi : report.drift < 2 ^ 63) (hshort : report.shortfall.toNat < 2 ^ 63)
    (rows : List ReconciliationRow) :
    record rows report = (.ok (), rows ++ [.of report]) := by
  obtain ⟨hexpected, hsupply, hfree⟩ := hfits
  have hseverity : NulFree report.severity.asStr := by
    cases report.severity <;> decide
  have happend : reconciliationRuns.append (.of report) rows =
      .ok (rows ++ [.of report]) := by
    unfold Schema.append
    rw [checks_of]
  unfold record
  rw [tryFromI128_of_le hlo hhi, toI64_of_lt hexpected, toI64_of_lt hsupply,
    toI64_of_lt hfree, toI64_of_lt hshort, toText_ok hseverity]
  show execute rows (query (reconciliationRuns.append (.of report) rows)) = _
  rw [happend]
  rfl

theorem rowToReport_of (hfits : report.Fits) (hlo : -2 ^ 63 ≤ report.drift)
    (hhi : report.drift < 2 ^ 63) (hshort : report.shortfall.toNat < 2 ^ 63) :
    rowToReport (.of report) = .ok report := by
  obtain ⟨hexpected, hsupply, hfree⟩ := hfits
  have hdrift : (Int64.ofInt report.drift).toInt = report.drift :=
    Int64.toInt_ofInt_of_le hlo hhi
  unfold rowToReport ReconciliationRow.of
  simp only [parseSeverity_asStr, fromI64_toInt64 hexpected, fromI64_toInt64 hsupply,
    fromI64_toInt64 hfree, fromI64_toInt64 hshort, hdrift]
  rfl

/-- An amount that does not fit is refused, whichever it is. -/
theorem record_refuses (hfits : ¬ report.Fits) (rows : List ReconciliationRow) :
    ∃ text, record rows report = (.error (.rejected text), rows) := by
  have hrefuse : ∀ {amount : Thb}, ¬ amount.toNat < 2 ^ 63 →
      toI64 amount = .error (.rejected s!"amount {amount.minor} exceeds BIGINT range") := by
    intro amount h
    have hnone : tryFromU64 amount.minor = none := if_neg h
    rw [toI64, hnone]
    rfl
  unfold record
  cases hd : tryFromI128 report.drift with
  | none => exact ⟨_, rfl⟩
  | some drift =>
      by_cases he : report.expectedSupply.toNat < 2 ^ 63
      · by_cases hs : report.ledgerSupply.toNat < 2 ^ 63
        · have hf : ¬ report.freeBacking.toNat < 2 ^ 63 := fun hf => hfits ⟨he, hs, hf⟩
          rw [toI64_of_lt he, toI64_of_lt hs, hrefuse hf]
          exact ⟨_, rfl⟩
        · rw [toI64_of_lt he, hrefuse hs]
          exact ⟨_, rfl⟩
      · rw [hrefuse he]
        exact ⟨_, rfl⟩

/-- Whatever `reconcile` reports is stored and read back when its amounts fit, and
is refused when one of them does not. -/
theorem record_reconciled {tally : LedgerTally} {reserve : ReserveState} {now : Int64}
    (h : reconcile tally reserve now = .ok report) (rows : List ReconciliationRow) :
    (report.Fits → ∃ row, record rows report = (.ok (), rows ++ [row]) ∧
      rowToReport row = .ok report) ∧
    (¬ report.Fits → ∃ text, record rows report = (.error (.rejected text), rows)) := by
  obtain ⟨hdrift, hshort⟩ := reconcile_figures h
  refine ⟨fun hfits => ?_, fun hfits => record_refuses hfits rows⟩
  have hexpected := hfits.1
  have hsupply := hfits.2.1
  exact ⟨.of report, record_of hfits (by omega) (by omega) (by omega) rows,
    rowToReport_of hfits (by omega) (by omega) (by omega)⟩

/-- A supply of 100 and a backing of nothing. -/
theorem record_reconciled_insolvent :
    let report : ReconciliationReport := ⟨.insolvent, 0, ⟨100⟩, ⟨100⟩, ⟨0⟩, ⟨100⟩, 7⟩
    reconcile ⟨⟨100⟩, ⟨0⟩⟩ ⟨⟨⟨50⟩, 0, 3600⟩, ⟨80⟩, ⟨100⟩⟩ 7 = .ok report ∧
      ∃ row, record [] report = (.ok (), [row]) ∧ rowToReport row = .ok report := by
  have h : reconcile ⟨⟨100⟩, ⟨0⟩⟩ ⟨⟨⟨50⟩, 0, 3600⟩, ⟨80⟩, ⟨100⟩⟩ 7 =
      .ok ⟨.insolvent, 0, ⟨100⟩, ⟨100⟩, ⟨0⟩, ⟨100⟩, 7⟩ := by decide
  exact ⟨h, (record_reconciled h []).1 (by decide)⟩

/-- A supply of 2^63, issued and backed to the last satang, is not recorded. -/
theorem refused_report :
    let t : Thb := ⟨9223372036854775808⟩
    let report : ReconciliationReport := ⟨.ok, 0, t, t, t, ⟨0⟩, 0⟩
    reconcile ⟨t, ⟨0⟩⟩ ⟨⟨t, 0, 3600⟩, ⟨0⟩, t⟩ 0 = .ok report ∧
      ∀ rows, ∃ text, record rows report = (.error (.rejected text), rows) := by
  refine ⟨by decide, fun rows => ?_⟩
  exact record_refuses (by decide) rows

end PgReconciliationRepository

end Thbc
