import Thbc.Logic.Service

/-!
# `issuance-service`: the on-ramp

`crates/thbc-logic/src/issuance.rs`. Drives a deposit from the bank's webhook
to an issuance: observe, screen, check the ceiling, persist `Attested`, issue,
persist `Issued`. Between any two of these calls anything may happen to the
stores and the ledger; the method carries its own copy of the deposit along.
-/

namespace Thbc

open Service

/-- What happened to a deposit. -/
inductive IssuanceOutcome where
  | issued (amount : Thb)
  | alreadyIssued
  | encumbered (amount : Thb) (reason : String)
  | held (reason : String)
  deriving DecidableEq

namespace IssuanceService

/-- The ledger's attestation and supply, with the encumbrance of our own
records. -/
def effectiveReserve : Service ReserveState := do
  let snapshot ← ledger .snapshot
  let encumbered ← deposits .totalEncumbered
  return ⟨snapshot.reserve.attestation, encumbered, snapshot.reserve.supply⟩

/-- What a replayed webhook is told, from the row already there. -/
def replay : Option Deposit → IssuanceOutcome
  | none => .held "duplicate bank_ref, prior attempt incomplete"
  | some d =>
      if d.state = .issued then .alreadyIssued
      else if d.isEncumbering then .encumbered d.amount "previously encumbered"
      else .held "duplicate bank_ref, prior attempt incomplete"

variable [Sha256]

/-- Steps 4 and 5 of `handle_deposit`: attestation precedes issuance. -/
def attestAndIssue (deposit : Deposit) (amount : Thb)
    (beneficiaryWallet : String) (nullifier : BankRefHash) (now : Int64) :
    Service IssuanceOutcome := do
  let state ← effectiveReserve
  match state.checkIssuance amount now with
  | .error e => return .held e.display
  | .ok _ =>
    let deposit ← core deposit.markAttested
    deposits (.update deposit)
    let outcome ← ledger (.issue beneficiaryWallet amount nullifier)
    match outcome with
    | .confirmed =>
      let deposit ← core deposit.markIssued
      deposits (.update deposit)
      return .issued amount
    | .submitted => return .held "issuance submitted but not confirmed"
    | .failed => return .held "issuance transaction failed"

/-- Steps 3 to 5 of `handle_deposit`, once the observation is recorded. -/
def screenAndIssue (deposit : Deposit) (amount : Thb)
    (beneficiary beneficiaryWallet : String) (nullifier : BankRefHash)
    (now : Int64) : Service IssuanceOutcome := do
  let screen ← compliance (.screen beneficiary amount)
  let deposit ← core (deposit.screen screen)
  match screen with
  | .fail =>
    deposits (.update deposit)
    return .encumbered amount "compliance screen failed"
  | .pass =>
    deposits (.update deposit)
    attestAndIssue deposit amount beneficiaryWallet nullifier now

/-- Handle a signature-verified bank webhook. -/
def handleDeposit (bankRef : BankRef) (amount : Thb)
    (beneficiary beneficiaryWallet : String) : Service IssuanceOutcome := do
  let now ← clock
  let deposit ← core
    (Deposit.observe bankRef amount beneficiary beneficiaryWallet now)
  let nullifier := deposit.nullifier
  match ← attempt (deposits (.insert deposit)) with
  | .ok () =>
    screenAndIssue deposit amount beneficiary beneficiaryWallet nullifier now
  | .error (.conflict _) =>
    let existing ← deposits (.find nullifier)
    return replay existing
  | .error e => throw e

/-- Retry a held deposit. -/
def retryHeld (bankRef : BankRef) : Service IssuanceOutcome := do
  let nullifier := bankRef.hash
  let deposit ← okOrNotFound (← deposits (.find nullifier))
  if deposit.state ≠ .screened then
    return .held s!"deposit is {deposit.state.asStr}, not retryable"
  else
    let now ← clock
    let state ← effectiveReserve
    match state.checkIssuance deposit.amount now with
    | .error e => return .held e.display
    | .ok _ =>
      let deposit ← core deposit.markAttested
      deposits (.update deposit)
      let outcome ← ledger
        (.issue deposit.beneficiaryWallet deposit.amount nullifier)
      if outcome = .confirmed then
        let deposit ← core deposit.markIssued
        deposits (.update deposit)
        return .issued deposit.amount
      else
        return .held s!"issuance {outcome.debug}"

/-- The loop of `retry_all_held`: an error on one deposit does not stop the
sweep. -/
def retryEach : List Deposit → Nat → Service Nat
  | [], issued => return issued
  | deposit :: rest, issued => do
    match ← attempt (retryHeld deposit.bankRef) with
    | .ok (.issued _) => retryEach rest (issued + 1)
    | .ok _ => retryEach rest issued
    | .error _ => retryEach rest issued

/-- Retry every deposit stuck in `Screened`; `(retried, issued)`. -/
def retryAllHeld : Service (Nat × Nat) := do
  let held ← deposits .held
  if held.isEmpty then
    return (0, 0)
  else
    let issued ← retryEach held 0
    return (held.length, issued)

end IssuanceService

end Thbc
