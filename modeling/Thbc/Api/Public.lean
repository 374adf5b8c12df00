import Thbc.Logic.Redemption
import Thbc.Logic.Treasury
import Thbc.Api.State

/-!
# The holder's surface

`crates/thbc-api/src/public.rs`. The subtraction for the countdown of
`get_redemption` is a plain one, and it wraps where it overflows, as a release
build has it.
-/

namespace Thbc

open Service

structure RedemptionStatus where
  user : String
  seq : UInt64
  amountMinor : UInt64
  state : String
  /-- Seconds until reclaim becomes possible. -/
  reclaimInSecs : Option Int64
  reclaimableNow : Bool
  deriving DecidableEq

/-- The view of a record at `now`. -/
def RedemptionStatus.of (r : Redemption) (now : Int64) : RedemptionStatus where
  user := r.user
  seq := r.seq
  amountMinor := r.amount.minor
  state := r.state.asStr
  reclaimInSecs := (r.escrowAge now).map fun age => max (r.deltaSecs - age) 0
  reclaimableNow := r.isReclaimable now

def getRedemption (user : String) (seq : UInt64) : Service RedemptionStatus := do
  let r ← RedemptionService.status user seq
  let now ← RedemptionService.now
  return .of r now

structure RedemptionResponse where
  status : String
  user : String
  seq : UInt64
  reclaimAfterSecs : Int64
  detail : String
  deriving DecidableEq

/-- What the holder is told: never more than that the tokens are in escrow. -/
def redemptionResponse (deltaSecs : Int64) (user : String) :
    RedemptionOutcome → RedemptionResponse
  | .escrowed user seq => ⟨"escrowed", user, seq, deltaSecs,
      "tokens escrowed, not burned; reclaimable if the issuer does not confirm"⟩
  | .pending user seq => ⟨"pending", user, seq, deltaSecs,
      "escrow submitted but not confirmed; nothing proceeds until it is"⟩
  | .failed _ => ⟨"failed", user, 0, deltaSecs,
      "escrow transaction failed; no tokens moved"⟩

/-- `request_redemption`. -/
def requestRedemption (state : AppState) (user : String) (amountMinor : UInt64) :
    Endpoint RedemptionResponse := do
  let outcome ← Endpoint.service (RedemptionService.request state.deltaSecs user ⟨amountMinor⟩)
  return redemptionResponse state.deltaSecs user outcome

/-- `reclaim`. -/
def postReclaim (user : String) (seq : UInt64) : Endpoint Unit :=
  Endpoint.service (RedemptionService.reclaim user seq)

structure QuoteResponse where
  inAmount : UInt64
  outAmount : UInt64
  fee : UInt64
  changesSupply : Bool
  detail : String
  deriving DecidableEq

def quotedAgainstInventory : String :=
  "quoted against bounded platform inventory; not an AMM price"

/-- `quote_buy`. -/
def postQuoteBuy (grxInAtoms : UInt64) : Endpoint QuoteResponse := do
  let q ← Endpoint.service (TreasuryService.quoteBuyThbc ⟨grxInAtoms⟩)
  return ⟨q.grxIn.atoms, q.thbcOut.minor, q.fee.minor, false, quotedAgainstInventory⟩

/-- `quote_sell`. -/
def postQuoteSell (thbcInMinor : UInt64) : Endpoint QuoteResponse := do
  let q ← Endpoint.service (TreasuryService.quoteSellThbc ⟨thbcInMinor⟩)
  return ⟨q.thbcIn.minor, q.grxOut.atoms, q.fee.atoms, false, quotedAgainstInventory⟩

end Thbc
