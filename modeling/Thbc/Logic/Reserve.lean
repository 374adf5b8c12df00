import Thbc.Logic.Service

/-!
# `reserve-service` and `reconciliation-service`

`crates/thbc-logic/src/reserve.rs`.
-/

namespace Thbc

open Service

namespace ReserveService

/-- The ledger's attestation, with the encumbrance of our own records. -/
def current : Service ReserveState := do
  let snapshot ← ledger .snapshot
  let encumbered ← deposits .totalEncumbered
  return ⟨snapshot.reserve.attestation, encumbered, snapshot.reserve.supply⟩

def headroom : Service Thb := do
  let state ← current
  return state.headroom

/-- Whether to hold incoming deposits rather than let each one fail. -/
def isIssuanceOpen : Service Bool := do
  let state ← current
  let now ← clock
  return state.attestation.isFresh now && !state.headroom.isZero

/-- Push a fresh attestation. The read before it only logs, and of its
failures only `Unsupported` is let pass. -/
def attest (reserve : Thb) : Service Unit := do
  match ← attempt current with
  | .ok _ => publish
  | .error (.unsupported _) => publish
  | .error e => throw e
where
  publish : Service Unit := do
    let encumbered ← deposits .totalEncumbered
    match ← ledger (.updateAttestation reserve encumbered) with
    | .confirmed => return ()
    | .submitted => throw (.transient
        "attestation submitted but not confirmed on-chain; re-send to verify")
    | .failed => throw (.rejected
        "attestation transaction failed on-chain; attested_reserve unchanged")

end ReserveService

namespace ReconciliationService

/-- How many of the recorded runs were not clean. -/
def unhealthyRuns : Service UInt64 := history .unhealthyCount

/-- Run F2 and the F1 solvency check, and record the report. -/
def run : Service ReconciliationReport := do
  let issued ← deposits .totalIssued
  let redeemed ← redemptions .totalRedeemed
  let state ← ReserveService.current
  let report ← core (reconcile ⟨issued, redeemed⟩ state (← clock))
  history (.record report)
  return report

end ReconciliationService

end Thbc
