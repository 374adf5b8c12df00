import Thbc.Core.Reserve

/-!
# The F2 identity

`crates/thbc-core/src/reconcile.rs`. `reconcile` compares the two tallies of
the stores with the supply of the ledger; `reconcile_ok` is what its report comes
to over the integers.
-/

namespace Thbc

/-- This service's own tally of confirmed issuances and redemptions. -/
structure LedgerTally where
  issued : Thb
  redeemed : Thb
  deriving DecidableEq

/-- Σ issued − Σ redeemed, with an error where it would be negative. -/
def LedgerTally.expectedSupply (t : LedgerTally) : CoreResult Thb :=
  t.issued.checkedSub t.redeemed

inductive Severity where
  | ok
  | drift
  | insolvent
  deriving DecidableEq

def Severity.asStr : Severity → String
  | .ok => "ok"
  | .drift => "drift"
  | .insolvent => "insolvent"

structure ReconciliationReport where
  severity : Severity
  /-- Ledger supply minus expected supply, an `i128`. -/
  drift : ℤ
  expectedSupply : Thb
  ledgerSupply : Thb
  freeBacking : Thb
  shortfall : Thb
  checkedAt : Int64
  deriving DecidableEq

def ReconciliationReport.isHealthy (r : ReconciliationReport) : Bool :=
  match r.severity with
  | .ok => true
  | _ => false

/-- Run the F2 identity and the F1 solvency check together. -/
def reconcile (tally : LedgerTally) (reserve : ReserveState) (now : Int64) :
    CoreResult ReconciliationReport := do
  let expected ← tally.expectedSupply
  let actual := reserve.supply
  let drift : ℤ := (actual.toNat : ℤ) - (expected.toNat : ℤ)
  let free := reserve.freeBacking
  let shortfall := actual.saturatingSub free
  let severity :=
    if !shortfall.isZero then Severity.insolvent
    else if drift ≠ 0 then .drift
    else .ok
  return {
    severity, drift
    expectedSupply := expected
    ledgerSupply := actual
    freeBacking := free
    shortfall
    checkedAt := now }

/-- There is a report exactly when no more was redeemed than issued. -/
theorem reconcile_error {tally : LedgerTally} {reserve : ReserveState}
    {now : Int64} (h : tally.issued.toNat < tally.redeemed.toNat) :
    reconcile tally reserve now = .error .underflow := by
  have hsub : tally.expectedSupply = .error .underflow := by
    refine if_neg fun hle => ?_
    rw [UInt64.le_iff_toNat_le] at hle
    exact absurd h (Nat.not_lt.mpr hle)
  rw [reconcile, hsub]
  rfl

/-- Its drift is the supply minus the difference of the tallies, and it is
healthy exactly when that is zero and the supply is backed. -/
theorem reconcile_ok {tally : LedgerTally} {reserve : ReserveState}
    {now : Int64} (h : tally.redeemed.toNat ≤ tally.issued.toNat) :
    ∃ report, reconcile tally reserve now = .ok report ∧
      report.drift = (reserve.supply.toNat : ℤ) -
        ((tally.issued.toNat : ℤ) - tally.redeemed.toNat) ∧
      (report.isHealthy = true ↔
        reserve.supply.toNat ≤ reserve.freeBacking.toNat ∧ report.drift = 0) := by
  obtain ⟨expected, he⟩ := Thb.checkedSub_of_le h
  have hsum := Thb.checkedSub_ok.mp he
  rw [reconcile, LedgerTally.expectedSupply, he]
  refine ⟨_, rfl, ?_, ?_⟩
  · show (reserve.supply.toNat : ℤ) - expected.toNat = _
    omega
  · have hshort : (reserve.supply.saturatingSub reserve.freeBacking).isZero = true ↔
        reserve.supply.toNat ≤ reserve.freeBacking.toNat := by
      rw [Thb.isZero_iff, Thb.toNat_saturatingSub]
      omega
    unfold ReconciliationReport.isHealthy
    rw [← hshort]
    dsimp only
    cases (reserve.supply.saturatingSub reserve.freeBacking).isZero with
    | false => simp
    | true =>
        by_cases hd : (reserve.supply.toNat : ℤ) - expected.toNat = 0
        · simp [hd]
        · simp [hd]

theorem reconcile_drift {tally : LedgerTally} {reserve : ReserveState}
    {now : Int64} {report : ReconciliationReport}
    (h : reconcile tally reserve now = .ok report) :
    report.drift = (reserve.supply.toNat : ℤ) -
      ((tally.issued.toNat : ℤ) - tally.redeemed.toNat) := by
  by_cases hle : tally.redeemed.toNat ≤ tally.issued.toNat
  · obtain ⟨report', hreport, hdrift, -⟩ :=
      @reconcile_ok tally reserve now hle
    obtain rfl := Except.ok.inj (h.symm.trans hreport)
    exact hdrift
  · rw [reconcile_error (by omega)] at h
    cases h

end Thbc
