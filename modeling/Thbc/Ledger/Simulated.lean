import Thbc.Core.Ports
import Thbc.Lib.Tally
import Mathlib.Data.Finset.Basic

/-!
# The simulated ledger

`crates/thbc-ledger/src/simulated.rs`. The state sits behind one mutex, so
every method is one atomic step. Each returns its result with the state it
leaves, whatever the result: an error reported after a field was written
leaves that field written.
-/

namespace Thbc

namespace SimulatedLedger

/-- An escrowed redemption, as the `[b"redeem", user, seq]` record holds it.
A burned record stays, so that a late reclaim is refused. -/
structure EscrowRecord where
  amount : Thb
  escrowedAt : Int64
  burned : Bool
  deriving DecidableEq

structure State where
  reserve : ReserveState
  inventory : Inventory
  params : ExchangeParams
  /-- `[b"deposit", H(bank_ref)]`, the F3 nullifier set. -/
  nullifiers : Finset BankRefHash
  escrows : HashMap (String × UInt64) EscrowRecord
  balances : HashMap String Thb
  now : Int64

/-- Δ of the simulator. -/
def SIMULATED_DELTA_SECS : Int64 := 86400

/-- A treasury with `attested_reserve = reserve`, attested at `now`. -/
def new (reserve : Thb) (ttlSecs now : Int64) : State where
  reserve := ⟨⟨reserve, now, ttlSecs⟩, .zero, .zero⟩
  inventory := ⟨.zero, .zero⟩
  params := ⟨4000000, 25, false⟩
  nullifiers := ∅
  escrows := ∅
  balances := ∅
  now := now

namespace State

def balanceOf (s : State) (user : String) : Thb :=
  (s.balances.lookup user).getD .zero

/-- `balances.entry(user).or_insert(ZERO)`, then `checked_add` into it: the
entry is there even where the addition fails. -/
def credit (s : State) (user : String) (amount : Thb) : PortResult Unit × State :=
  let entry := s.balanceOf user
  let s := { s with balances := s.balances.insert user entry }
  match entry.checkedAdd amount with
  | .error e => (.error (.domain e), s)
  | .ok sum => (.ok (), { s with balances := s.balances.insert user sum })

def snapshot (s : State) : PortResult TreasurySnapshot × State :=
  let pending := toU32 (s.escrows.values.filter fun e => !e.burned).length
  (.ok ⟨s.reserve, s.inventory, s.params, some pending⟩, s)

def issue (s : State) (beneficiary : String) (amount : Thb)
    (nullifier : BankRefHash) : PortResult ConfirmOutcome × State :=
  let now := s.now
  if nullifier ∈ s.nullifiers then
    (.error (.rejected
      s!"F3: deposit nullifier {nullifier.toHex} already exists"), s)
  else
    let s := { s with nullifiers := insert nullifier s.nullifiers }
    match s.reserve.checkIssuance amount now with
    | .error e =>
        -- The instruction reverts as a unit.
        (.error (.domain e),
          { s with nullifiers := s.nullifiers.erase nullifier })
    | .ok newSupply =>
        let s := { s with reserve := { s.reserve with supply := newSupply } }
        match s.credit beneficiary amount with
        | (.error e, s) => (.error e, s)
        | (.ok (), s) => (.ok .confirmed, s)

def escrowRedemption (s : State) (redemption : Redemption) :
    PortResult ConfirmOutcome × State :=
  let now := s.now
  if redemption.key ∈ s.escrows then
    (.error (.conflict
      (s!"redemption record [redeem, {redemption.user}, {redemption.seq}] " ++
        "already exists")), s)
  else
    match (s.balanceOf redemption.user).checkedSub redemption.amount with
    | .error e => (.error (.domain e), s)
    | .ok remaining =>
        (.ok .confirmed, { s with
          balances := s.balances.insert redemption.user remaining
          escrows := s.escrows.insert redemption.key
            ⟨redemption.amount, now, false⟩ })

def confirmRedemption (s : State) (user : String) (seq : UInt64) :
    PortResult ConfirmOutcome × State :=
  match s.escrows.lookup (user, seq) with
  | none => (.error .notFound, s)
  | some record =>
      if record.burned then
        (.error (.rejected "redemption already confirmed"), s)
      else
        -- The burn, the only place supply decreases.
        match s.reserve.supply.checkedSub record.amount with
        | .error e => (.error (.domain e), s)
        | .ok supply =>
            (.ok .confirmed, { s with
              reserve := { s.reserve with supply := supply }
              escrows := s.escrows.insert (user, seq)
                { record with burned := true } })

def reclaimRedemption (s : State) (user : String) (seq : UInt64) :
    PortResult ConfirmOutcome × State :=
  let now := s.now
  match s.escrows.lookup (user, seq) with
  | none => (.error .notFound, s)
  | some record =>
      if record.burned then
        (.error (.rejected
          "F7: redemption was confirmed; the burn is irreversible"), s)
      else
        let delta := SIMULATED_DELTA_SECS
        let elapsed := saturatingSub now record.escrowedAt
        if elapsed < delta then
          (.error (.rejected
            s!"F7: timelock not expired ({elapsed}s of {delta}s)"), s)
        else
          match s.credit user record.amount with
          | (.error e, s) => (.error e, s)
          | (.ok (), s) =>
              (.ok .confirmed, { s with escrows := s.escrows.erase (user, seq) })

def updateAttestation (s : State) (reserve encumbered : Thb) :
    PortResult ConfirmOutcome × State :=
  (.ok .confirmed, { s with
    reserve := { s.reserve with
      attestation := { s.reserve.attestation with reserve := reserve, ts := s.now }
      encumbered := encumbered } })

def setNow (s : State) (now : Int64) : PortResult Unit × State :=
  (.ok (), { s with now := now })

def setParams (s : State) (params : ExchangeParams) : PortResult Unit × State :=
  (.ok (), { s with params := params })

/-- Seed platform-held THBC, out of a user's balance. -/
def fundInventory (s : State) (fromUser : String) (amount : Thb) :
    PortResult Unit × State :=
  match (s.balanceOf fromUser).checkedSub amount with
  | .error e => (.error (.domain e), s)
  | .ok remaining =>
      let s := { s with balances := s.balances.insert fromUser remaining }
      match s.inventory.thbc.checkedAdd amount with
      | .error e => (.error (.domain e), s)
      | .ok thbc => (.ok (), { s with inventory := { s.inventory with thbc := thbc } })

def fundGrxInventory (s : State) (amount : Grx) : PortResult Unit × State :=
  match s.inventory.grx.checkedAdd amount with
  | .error e => (.error (.domain e), s)
  | .ok grx => (.ok (), { s with inventory := { s.inventory with grx := grx } })

def setEncumbered (s : State) (amount : Thb) : PortResult Unit × State :=
  (.ok (), { s with reserve := { s.reserve with encumbered := amount } })

/-- `LedgerPort for SimulatedLedger`. -/
def call (s : State) : (m : LedgerPort) → PortResult m.Answer × State
  | .snapshot => s.snapshot
  | .issue beneficiary amount nullifier => s.issue beneficiary amount nullifier
  | .escrowRedemption redemption => s.escrowRedemption redemption
  | .confirmRedemption user seq => s.confirmRedemption user seq
  | .reclaimRedemption user seq => s.reclaimRedemption user seq
  | .updateAttestation reserve encumbered => s.updateAttestation reserve encumbered

/-- The methods that are not on the port. -/
def control (s : State) : SimulatorControl → PortResult Unit × State
  | .setNow now => s.setNow now
  | .setParams params => s.setParams params
  | .fundInventory fromUser amount => s.fundInventory fromUser amount
  | .fundGrxInventory amount => s.fundGrxInventory amount
  | .setEncumbered amount => s.setEncumbered amount

end State

/-- One call of the ledger, through the port or beside it. -/
inductive Op where
  | port (m : LedgerPort)
  | control (m : SimulatorControl)
  deriving DecidableEq

/-- The state an operation leaves. -/
def State.apply (s : State) : Op → State
  | .port m => (s.call m).2
  | .control m => (s.control m).2

/-- A sequence of operations. -/
def State.applyAll (s : State) (ops : List Op) : State := ops.foldl State.apply s

end SimulatedLedger

end Thbc
