import Thbc.Logic.Service

/-!
# `redemption-service`: the off-ramp

`crates/thbc-logic/src/redemption.rs`. Each method reads a row, does or does
not go to the ledger, and writes its copy of the row back.
-/

namespace Thbc

open Service

inductive RedemptionOutcome where
  | escrowed (user : String) (seq : UInt64)
  | pending (user : String) (seq : UInt64)
  | failed (reason : String)
  deriving DecidableEq

namespace RedemptionService

/-- What the holder is told, from the state the row ended in. -/
def requestOutcome (redemption : Redemption) (user : String) (seq : UInt64) :
    RedemptionOutcome :=
  match redemption.state with
  | .escrowed => .escrowed user seq
  | .failed => .failed "escrow transaction failed"
  | _ => .pending user seq

theorem requestOutcome_escrowed {r : Redemption} {user user' : String}
    {seq seq' : UInt64} (h : requestOutcome r user seq = .escrowed user' seq') :
    r.state = .escrowed ∧ user = user' ∧ seq = seq' := by
  unfold requestOutcome at h
  cases hs : r.state with
  | escrowed =>
      simp only [hs] at h
      exact ⟨rfl, RedemptionOutcome.escrowed.inj h⟩
  | failed => simp only [hs] at h; cases h
  | _ => simp only [hs] at h; cases h

/-- Look one up, for the holder's view of it. -/
def status (user : String) (seq : UInt64) : Service Redemption := do
  okOrNotFound (← redemptions (.find user seq))

/-- The clock the timelock goes by. -/
def now : Service Int64 := clock

/-- The user has signed `redeem_thbc_for_fiat`. `deltaSecs` is the service's
own Δ. -/
def request (deltaSecs : Int64) (user : String) (amount : Thb) :
    Service RedemptionOutcome := do
  let now ← clock
  let seq ← redemptions (.nextSeq user)
  let redemption ← core (Redemption.request user seq amount deltaSecs now)
  redemptions (.insert redemption)
  let outcome ← ledger (.escrowRedemption redemption)
  let redemption ← core (redemption.applyEscrowOutcome outcome (← clock))
  redemptions (.update redemption)
  return requestOutcome redemption user seq

/-- The F4 barrier, the only path to a fiat payout. -/
def processPayout (user : String) (seq : UInt64) : Service Unit := do
  let redemption ← okOrNotFound (← redemptions (.find user seq))
  let redemption ← core redemption.enqueuePayout
  redemptions (.update redemption)
  payouts (.enqueue user seq redemption.amount)

/-- The issuer wired and confirms; the burn happens here. -/
def confirm (user : String) (seq : UInt64) : Service Unit := do
  let redemption ← okOrNotFound (← redemptions (.find user seq))
  let outcome ← ledger (.confirmRedemption user seq)
  if outcome ≠ .confirmed then
    throw (.rejected s!"confirm_redemption returned {outcome.debug}")
  else
    let redemption ← core redemption.confirm
    redemptions (.update redemption)

/-- F7: the holder reclaims after Δ. -/
def reclaim (user : String) (seq : UInt64) : Service Unit := do
  let redemption ← okOrNotFound (← redemptions (.find user seq))
  let now ← clock
  let redemption ← core (redemption.reclaim now)
  let outcome ← ledger (.reclaimRedemption user seq)
  if outcome ≠ .confirmed then
    throw (.rejected s!"reclaim_redemption returned {outcome.debug}")
  else
    redemptions (.update redemption)

/-- Redemptions past the timeout. Reports, never acts. -/
def sweepReclaimable : Service (List Redemption) := do
  let now ← clock
  redemptions (.reclaimable now)

/-- `redemption_queue_len`. -/
def queueLen : Service UInt32 := redemptions .pendingCount

end RedemptionService

end Thbc
