import Thbc.Api.State
import Thbc.Logic.Issuance

/-!
# The bank's webhook

`crates/thbc-api/src/partner.rs`.
-/

namespace Thbc

open Endpoint

/-- Header carrying the bank's signature over the raw request body. -/
def signatureHeader : String := "x-thbc-signature"

structure DepositWebhook where
  bankRef : String
  amountMinor : UInt64
  beneficiary : String
  /-- Optional in the type only. -/
  beneficiaryWallet : Option String
  deriving DecidableEq

structure DepositResponse where
  status : String
  detail : String
  amountMinor : Option UInt64
  simulated : Bool
  deriving DecidableEq

/-- The wallet that a webhook names: trimmed, and not empty. -/
def DepositWebhook.wallet (body : DepositWebhook) : Option String :=
  (body.beneficiaryWallet.map trim).filter fun w => w != ""

/-- What the bank is told. A retry of a deposit is never an error. -/
def depositResponse (simulated : Bool) : IssuanceOutcome → StatusCode × DepositResponse
  | .issued amount =>
      (.created, ⟨"issued", "THBC issued to beneficiary", some amount.minor, simulated⟩)
  | .alreadyIssued =>
      (.ok, ⟨"already_issued", "duplicate bank_ref; no second issuance (F3)", none, simulated⟩)
  | .encumbered amount reason =>
      (.accepted, ⟨"encumbered",
        reason ++ "; fiat backs no token and a return wire is required",
        some amount.minor, simulated⟩)
  | .held reason => (.accepted, ⟨"held", reason, none, simulated⟩)

variable [Sha256]

/-- `deposit`. -/
def depositWebhook (state : AppState) (headers : HeaderMap) (body : DepositWebhook) :
    Endpoint (StatusCode × DepositResponse) :=
  if headers.containsKey signatureHeader = false then
    throw ⟨.unauthorized, "missing_signature",
      signatureHeader ++ " is required on partner webhooks"⟩
  else
    match body.wallet with
    | none => throw ⟨.unprocessableEntity, "missing_beneficiary_wallet",
        "beneficiary_wallet (base58 Solana owner wallet) is required; this service " ++
          "cannot resolve an IAM user id to an address"⟩
    | some beneficiaryWallet => do
      let bankRef ← core (BankRef.new body.bankRef)
      let outcome ← service (IssuanceService.handleDeposit bankRef ⟨body.amountMinor⟩
        body.beneficiary beneficiaryWallet)
      return depositResponse state.simulated outcome

end Thbc
