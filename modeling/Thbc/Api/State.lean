import Thbc.Logic.Service

/-!
# Handlers and their errors

`crates/thbc-api/src/state.rs`: what the handlers share, and the mapping of errors to
HTTP. A handler is a program over the ports like a service, and ends in an `ApiError`
where a service ends in a `PortError`.
-/

namespace Thbc

open Thbc.Lib

/-- The codes in use. -/
inductive StatusCode where
  | ok
  | created
  | accepted
  | badRequest
  | unauthorized
  | forbidden
  | notFound
  | conflict
  | unprocessableEntity
  | internalServerError
  | notImplemented
  | serviceUnavailable
  deriving DecidableEq

def StatusCode.asU16 : StatusCode → UInt16
  | .ok => 200
  | .created => 201
  | .accepted => 202
  | .badRequest => 400
  | .unauthorized => 401
  | .forbidden => 403
  | .notFound => 404
  | .conflict => 409
  | .unprocessableEntity => 422
  | .internalServerError => 500
  | .notImplemented => 501
  | .serviceUnavailable => 503

def StatusCode.isServerError (s : StatusCode) : Bool := decide (500 ≤ s.asU16)

def StatusCode.isSuccess (s : StatusCode) : Bool := decide (s.asU16 < 300)

/-- The value of a header, in its bytes. -/
structure HeaderValue where
  bytes : List UInt8
  deriving DecidableEq

/-- `to_str().ok()`: the value is visible ASCII. -/
def HeaderValue.toStr (v : HeaderValue) : Option String :=
  if v.bytes.all fun b => (32 ≤ b && b < 127) || b == 9 then
    some (String.ofList (v.bytes.map fun b => Char.ofNat b.toNat))
  else none

/-- The headers of a request, under their names in lower case. -/
abbrev HeaderMap : Type := List (String × HeaderValue)

def HeaderMap.containsKey (headers : HeaderMap) (name : String) : Bool :=
  headers.any fun h => h.1 == name

/-- The first value of that name. -/
def HeaderMap.get (headers : HeaderMap) (name : String) : Option HeaderValue :=
  headers.lookup name

/-- What the handlers need beside the ports. -/
structure AppState where
  /-- Δ of the redemption service. -/
  deltaSecs : Int64
  /-- Whether the ledger behind the services is the simulator. -/
  simulated : Bool
  deriving DecidableEq

structure ApiError where
  status : StatusCode
  code : String
  message : String
  deriving DecidableEq

namespace ApiError

/-- `From<CoreError>`. -/
def ofCore (e : CoreError) : ApiError :=
  let (status, code) : StatusCode × String :=
    match e with
    | .reserveInsufficient .. => (.unprocessableEntity, "reserve_insufficient")
    | .staleAttestation .. => (.serviceUnavailable, "stale_attestation")
    | .duplicateBankRef _ => (.conflict, "duplicate_bank_ref")
    | .burnNotConfirmed _ => (.conflict, "burn_not_confirmed")
    | .timelockNotExpired .. => (.conflict, "timelock_not_expired")
    | .insufficientInventory .. => (.unprocessableEntity, "insufficient_inventory")
    | .reconciliationDrift .. => (.internalServerError, "reconciliation_drift")
    | .paused => (.serviceUnavailable, "paused")
    | .missingBeneficiaryWallet => (.unprocessableEntity, "missing_beneficiary_wallet")
    | .zeroAmount | .emptyBankRef | .invalidFeeBps _ | .mathOverflow | .underflow =>
        (.badRequest, "invalid_request")
    | .invalidDepositTransition .. | .invalidRedemptionTransition .. =>
        (.conflict, "invalid_state")
    | .attestationInFuture .. | .attestorIsAuthority | .rateNotSet =>
        (.internalServerError, "misconfigured")
  ⟨status, code, e.display⟩

/-- `From<PortError>`. -/
def ofPort (e : PortError) : ApiError :=
  match e with
  | .transient _ => ⟨.serviceUnavailable, "transient", e.display⟩
  | .unsupported _ => ⟨.notImplemented, "not_implemented", e.display⟩
  | .rejected _ => ⟨.unprocessableEntity, "rejected", e.display⟩
  | .notFound => ⟨.notFound, "not_found", e.display⟩
  | .conflict _ => ⟨.conflict, "conflict", e.display⟩
  | .domain d => ofCore d

end ApiError

/-- An async handler returning an `ApiResult`. -/
abbrev Endpoint (α : Type) : Type := ExceptT ApiError (Prog Port Port.Reply) α

namespace Endpoint

variable {α : Type}

/-- `?` on a service call. -/
def service (x : Service α) : Endpoint α :=
  ExceptT.mk (x.run >>= fun r => pure (r.mapError ApiError.ofPort))

/-- `?` on a result of the core. -/
def core (x : CoreResult α) : Endpoint α := ExceptT.mk (pure (x.mapError ApiError.ofCore))

/-- `state.redemption.now()`. -/
def now : Endpoint Int64 := ExceptT.lift (Prog.call Port.clock)

end Endpoint

end Thbc
