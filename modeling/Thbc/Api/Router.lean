import Thbc.Api.Public
import Thbc.Api.Partner
import Thbc.Api.Admin

/-!
# The HTTP surface

`crates/thbc-api/src/lib.rs`: the three routers, health and readiness. A `Request` is
one that has found its route and whose body and path have decoded; `serve` is its
handler, to the response.
-/

namespace Thbc

open Thbc.Lib

/-- The operator's routes. -/
inductive AdminRequest where
  | reserve
  | reconciliation
  | redemptionQueue
  | attest (reserveMinor : UInt64)
  | confirmRedemption (user : String) (seq : UInt64)
  | processPayout (user : String) (seq : UInt64)
  deriving DecidableEq

inductive Request where
  | health
  | ready
  | requestRedemption (user : String) (amountMinor : UInt64)
  | getRedemption (user : String) (seq : UInt64)
  | reclaim (user : String) (seq : UInt64)
  | quoteBuy (grxInAtoms : UInt64)
  | quoteSell (thbcInMinor : UInt64)
  | deposit (headers : HeaderMap) (body : DepositWebhook)
  | admin (headers : HeaderMap) (r : AdminRequest)
  deriving DecidableEq

inductive Body where
  | error (code message : String)
  | health (simulatedLedger : Bool)
  | ready (issuanceOpen simulatedLedger : Bool)
  | redemption (r : RedemptionResponse)
  | redemptionStatus (r : RedemptionStatus)
  | reclaimed
  | quote (q : QuoteResponse)
  | deposit (d : DepositResponse)
  | reserve (v : ReserveView)
  | reconciliation (v : ReconciliationView)
  | queue (v : QueueView)
  | attested (reserveMinor : UInt64)
  | confirmed
  | payoutQueued
  deriving DecidableEq

structure Response where
  status : StatusCode
  body : Body
  deriving DecidableEq

/-- `into_response` of an error. -/
def ApiError.intoResponse (e : ApiError) : Response := ⟨e.status, .error e.code e.message⟩

/-- A handler's result as a response. -/
def Endpoint.respond {α : Type} (x : Endpoint α) (f : α → Response) :
    Prog Port Port.Reply Response :=
  x.run >>= fun
    | .ok a => pure (f a)
    | .error e => pure e.intoResponse

/-- A handler's value in a 200. -/
def Endpoint.respondOk {α : Type} (x : Endpoint α) (f : α → Body) :
    Prog Port Port.Reply Response :=
  x.respond fun a => ⟨.ok, f a⟩

/-- The operator's handlers, behind their gate. -/
def AdminRequest.serve (state : AppState) : AdminRequest → Prog Port Port.Reply Response
  | .reserve => (getReserve state).respondOk .reserve
  | .reconciliation => (getReconciliation state).respondOk .reconciliation
  | .redemptionQueue => getRedemptionQueue.respondOk .queue
  | .attest reserveMinor => (postAttestation reserveMinor).respondOk .attested
  | .confirmRedemption user seq => (postConfirm user seq).respondOk fun _ => .confirmed
  | .processPayout user seq => (postPayout user seq).respondOk fun _ => .payoutQueued

/-- `ready`: any error counts as closed. -/
def getReady (state : AppState) : Prog Port Port.Reply Response :=
  ReserveService.isIssuanceOpen.run >>= fun open? =>
    pure ⟨.ok, .ready (open?.toOption.getD false) state.simulated⟩

variable [Sha256]

def Request.serve (state : AppState) : Request → Prog Port Port.Reply Response
  | .health => pure ⟨.ok, .health state.simulated⟩
  | .ready => getReady state
  | .requestRedemption user amountMinor =>
      (Thbc.requestRedemption state user amountMinor).respondOk .redemption
  | .getRedemption user seq =>
      (Endpoint.service (Thbc.getRedemption user seq)).respondOk .redemptionStatus
  | .reclaim user seq => (postReclaim user seq).respondOk fun _ => .reclaimed
  | .quoteBuy grxInAtoms => (postQuoteBuy grxInAtoms).respondOk .quote
  | .quoteSell thbcInMinor => (postQuoteSell thbcInMinor).respondOk .quote
  | .deposit headers body =>
      (depositWebhook state headers body).respond fun r => ⟨r.1, .deposit r.2⟩
  | .admin headers r =>
      match requireAdminRole headers with
      | .error e => pure e.intoResponse
      | .ok () => r.serve state

end Thbc
