import Thbc.Core.Deposit
import Thbc.Core.Redemption
import Thbc.Core.Reconcile
import Thbc.Core.Exchange

/-!
# Ports

`crates/thbc-core/src/ports.rs`. A trait of the source is the type of its
method calls here, each with its arguments, and `Answer` is what a call
returns when it succeeds. The services are programs over these calls; what
stands behind the calls comes later (`Persistence`, `Ledger`) or not at all
(the compliance provider, the clock).

`SimulatorControl` is no port. It is the handle on the simulated ledger that
a test or an operator holds beside the services, and it is listed with the
ports so that its calls can be part of a run.
-/

namespace Thbc

/-- Errors crossing a port boundary. -/
inductive PortError where
  | transient (detail : String)
  | rejected (detail : String)
  | unsupported (detail : String)
  | notFound
  | conflict (detail : String)
  | domain (e : CoreError)
  deriving DecidableEq

/-- `to_string` of an error. -/
def PortError.display : PortError → String
  | .transient detail => "transient failure, safe to retry: " ++ detail
  | .rejected detail => "the chain rejected the request: " ++ detail
  | .unsupported detail => "not implemented on-chain: " ++ detail
  | .notFound => "not found"
  | .conflict detail => "conflict: " ++ detail
  | .domain e => e.display

abbrev PortResult (α : Type) : Type := Except PortError α

/-- `u32::try_from(n).unwrap_or(u32::MAX)`. -/
def toU32 (n : Nat) : UInt32 := UInt32.ofNat (min n 4294967295)

/-- The treasury's state, as a ledger reports it. -/
structure TreasurySnapshot where
  reserve : ReserveState
  inventory : Inventory
  params : ExchangeParams
  /-- Pending redemptions; `none` is "not observable", which is not zero. -/
  redemptionQueueLen : Option UInt32
  deriving DecidableEq

inductive LedgerPort where
  | snapshot
  | issue (beneficiary : String) (amount : Thb) (nullifier : BankRefHash)
  | escrowRedemption (redemption : Redemption)
  | confirmRedemption (user : String) (seq : UInt64)
  | reclaimRedemption (user : String) (seq : UInt64)
  | updateAttestation (reserve encumbered : Thb)
  deriving DecidableEq

@[reducible] def LedgerPort.Answer : LedgerPort → Type
  | .snapshot => TreasurySnapshot
  | .issue .. => ConfirmOutcome
  | .escrowRedemption _ => ConfirmOutcome
  | .confirmRedemption .. => ConfirmOutcome
  | .reclaimRedemption .. => ConfirmOutcome
  | .updateAttestation .. => ConfirmOutcome

inductive DepositRepository where
  | insert (deposit : Deposit)
  | find (nullifier : BankRefHash)
  | update (deposit : Deposit)
  | totalEncumbered
  | held
  | totalIssued
  deriving DecidableEq

@[reducible] def DepositRepository.Answer : DepositRepository → Type
  | .insert _ => Unit
  | .find _ => Option Deposit
  | .update _ => Unit
  | .totalEncumbered => Thb
  | .held => List Deposit
  | .totalIssued => Thb

inductive RedemptionRepository where
  | insert (redemption : Redemption)
  | find (user : String) (seq : UInt64)
  | update (redemption : Redemption)
  | nextSeq (user : String)
  | reclaimable (now : Int64)
  | totalRedeemed
  | pendingCount
  deriving DecidableEq

@[reducible] def RedemptionRepository.Answer : RedemptionRepository → Type
  | .insert _ => Unit
  | .find .. => Option Redemption
  | .update _ => Unit
  | .nextSeq _ => UInt64
  | .reclaimable _ => List Redemption
  | .totalRedeemed => Thb
  | .pendingCount => UInt32

inductive ReconciliationRepository where
  | record (report : ReconciliationReport)
  | recent (limit : UInt32)
  | unhealthyCount
  deriving DecidableEq

@[reducible] def ReconciliationRepository.Answer : ReconciliationRepository → Type
  | .record _ => Unit
  | .recent _ => List ReconciliationReport
  | .unhealthyCount => UInt64

inductive CompliancePort where
  | screen (subject : String) (amount : Thb)
  deriving DecidableEq

inductive PayoutPort where
  | enqueue (user : String) (seq : UInt64) (amount : Thb)
  deriving DecidableEq

/-- The public methods of the simulated ledger that change it and are not on
`LedgerPort`. -/
inductive SimulatorControl where
  | setNow (now : Int64)
  | setParams (params : ExchangeParams)
  | fundInventory (fromUser : String) (amount : Thb)
  | fundGrxInventory (amount : Grx)
  | setEncumbered (amount : Thb)
  deriving DecidableEq

/-- Everything a call can ask of the outside. -/
inductive Port where
  | clock
  | deposits (m : DepositRepository)
  | redemptions (m : RedemptionRepository)
  | ledger (m : LedgerPort)
  | compliance (m : CompliancePort)
  | payouts (m : PayoutPort)
  | history (m : ReconciliationRepository)
  | simulator (m : SimulatorControl)
  deriving DecidableEq

/-- What it gets back. A clock cannot fail; every other port can. -/
@[reducible] def Port.Reply : Port → Type
  | .clock => Int64
  | .deposits m => PortResult m.Answer
  | .redemptions m => PortResult m.Answer
  | .ledger m => PortResult m.Answer
  | .compliance _ => PortResult ScreenOutcome
  | .payouts _ => PortResult Unit
  | .history m => PortResult m.Answer
  | .simulator _ => PortResult Unit

end Thbc
