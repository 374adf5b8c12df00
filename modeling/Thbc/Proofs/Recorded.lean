import Thbc.Proofs.Identity

/-!
# What a reconciliation leaves on record

A report is made from the difference of the two tallies, and the core refuses
to take it where more was redeemed than issued. `run` passes the refusal on
before it writes the history, so of all broken identities that one leaves no
record: exactly the runs with `redeemed ≤ issued` are on record as what they
are.
-/

namespace Thbc

/-- The identity does not hold between the rows and the ledger, or the supply
is more than the free backing. -/
def World.Broken (w : World) : Prop :=
  (issuedRows w.deposits : ℤ) - (w.redemptions.redeemed : ℤ) ≠
      w.ledger.reserve.supply.toNat ∨
    w.ledger.reserve.attestation.reserve.toNat -
        w.deposits.amountOf Deposit.isEncumbering <
      w.ledger.reserve.supply.toNat

/-- From `w` to `w'` one report was added to the history, healthy exactly if
`w` is not broken, and counted if not. -/
def Recorded (w w' : World) : Prop :=
  ∃ report, w'.runs = w.runs ++ [report] ∧
    (report.isHealthy = false ↔ w.Broken) ∧
    ∀ n, InMemoryReconciliationRepo.unhealthyCount w.runs = .ok n →
      InMemoryReconciliationRepo.unhealthyCount w'.runs =
        .ok (if report.isHealthy then n else n + 1)

theorem unhealthyCount_record (runs : InMemoryReconciliationRepo)
    (report : ReconciliationReport) {n : UInt64}
    (h : InMemoryReconciliationRepo.unhealthyCount runs = .ok n) :
    InMemoryReconciliationRepo.unhealthyCount (runs ++ [report]) =
      .ok (if report.isHealthy then n else n + 1) := by
  cases h
  unfold InMemoryReconciliationRepo.unhealthyCount
  rw [List.filter_append, List.length_append]
  cases hr : report.isHealthy with
  | true => simp [hr]
  | false => simp [hr, UInt64.ofNat_add]

/-- A run that adds nothing to the history has not recorded anything. -/
theorem not_recorded {w w' : World} (h : w'.runs = w.runs) : ¬ Recorded w w' := by
  intro ⟨report, hruns, _⟩
  rw [h, List.self_eq_append_right] at hruns
  cases hruns

section Recorded

variable [Sha256]

/-- Where the three totals can be read, the run leaves its record exactly if
no more was redeemed than issued. -/
theorem recorded_iff (deltaSecs : Int64) (w : World)
    (hissued : issuedRows w.deposits < UInt64.size)
    (hredeemed : w.redemptions.redeemed < UInt64.size)
    (hencumbered : w.deposits.amountOf Deposit.isEncumbering < UInt64.size)
    (es : ℕ → Env) :
    Recorded w (w.runCall deltaSecs (.reconcile, es)).2 ↔
      w.redemptions.redeemed ≤ issuedRows w.deposits := by
  obtain ⟨issued, hi, hi'⟩ := InMemoryDepositRepo.total_of_lt hissued
  obtain ⟨redeemed, hr, hr'⟩ := InMemoryRedemptionRepo.totalRedeemed_of_lt hredeemed
  obtain ⟨encumbered, he, he'⟩ := InMemoryDepositRepo.total_of_lt hencumbered
  have hi'' : issued.toNat = issuedRows w.deposits := hi'
  obtain ⟨now, hrun⟩ := World.runCall_reconcile hi hr he deltaSecs es
  refine ⟨fun h => ?_, fun h => ?_⟩
  · by_contra hlt
    have hfail : reconcile ⟨issued, redeemed⟩ (w.current encumbered) now =
        .error .underflow := reconcile_error (by dsimp only; omega)
    obtain ⟨report, hreport, -⟩ | ⟨e, -, heq⟩ := hrun
    · rw [hfail] at hreport
      cases hreport
    · exact not_recorded (congrArg (World.runs ∘ Prod.snd) heq) h
  · obtain ⟨report, hreport, hdrift, hhealthy⟩ : ∃ report,
        reconcile ⟨issued, redeemed⟩ (w.current encumbered) now = .ok report ∧
        report.drift = (w.ledger.reserve.supply.toNat : ℤ) -
          ((issued.toNat : ℤ) - redeemed.toNat) ∧
        (report.isHealthy = true ↔ w.ledger.reserve.supply.toNat ≤
          (w.current encumbered).freeBacking.toNat ∧ report.drift = 0) :=
      reconcile_ok (by dsimp only; omega)
    have hfree : (w.current encumbered).freeBacking.toNat =
        w.ledger.reserve.attestation.reserve.toNat -
          w.deposits.amountOf Deposit.isEncumbering := by
      rw [ReserveState.toNat_freeBacking, ← he']
      rfl
    obtain ⟨report', hreport', heq⟩ | ⟨e, hfail, -⟩ := hrun
    · rw [hreport] at hreport'
      cases hreport'
      rw [heq]
      refine ⟨report, rfl, ?_, fun n => unhealthyCount_record _ _⟩
      rw [← Bool.not_eq_true, hhealthy, World.Broken, hfree, hdrift]
      omega
    · rw [hreport] at hfail
      cases hfail

end Recorded

open Sample

/-- A tie of the two tallies is on record, with the books clean. -/
theorem recorded_iff_settled :
    let w := treasury.runCalls 86400 [(deposit scb1, fun _ => env 0 .pass),
      (.request "alice" ⟨100⟩, fun _ => env 0 .pass),
      (.confirm "alice" 1, fun _ => env 0 .pass)]
    Recorded w (w.runCall 86400 (.reconcile, fun _ => env 0 .pass)).2 ↔
      w.redemptions.redeemed ≤ issuedRows w.deposits :=
  recorded_iff 86400 _ (by decide) (by decide) (by decide) _

/-- The webhook's `Issued` is overwritten by a retry, then everything that was
minted is redeemed: 100 more redeemed than issued, and no record of it. -/
theorem breach_unrecorded :
    let w := ((Calls.start 86400 [deposit scb1, .retryHeld scb1] treasury).run
      World.exec (schedule (env 0 .pass)
        [0, 0, 0, 0, 1, 1, 1, 1, 0, 0, 0, 0, 0, 1])).world.runCalls 86400
      [(.request "alice" ⟨100⟩, fun _ => env 0 .pass),
        (.confirm "alice" 1, fun _ => env 0 .pass)]
    issuedRows w.deposits = 0 ∧ w.redemptions.redeemed = 100 ∧
      w.deposits.amountOf Deposit.isEncumbering = 0 ∧ w.Broken ∧
      ¬ Recorded w (w.runCall 86400 (.reconcile, fun _ => env 0 .pass)).2 := by
  intro w
  have hissued : issuedRows w.deposits = 0 := by decide
  have hredeemed : w.redemptions.redeemed = 100 := by decide
  refine ⟨hissued, hredeemed, by decide, .inl ?_, not_recorded (by decide)⟩
  rw [hissued, hredeemed]
  omega

end Thbc
