import Thbc.Api.State
import Thbc.Logic.Redemption
import Thbc.Logic.Reserve

/-!
# The operator's surface

`crates/thbc-api/src/admin.rs`, but for the page of the invariants, which is a table of
texts and asks no port.
-/

namespace Thbc

open Endpoint

/-- Header the gateway sets from the role in the verified token. -/
def adminRoleHeader : String := "x-gridtokenx-user-role"

def adminRole : String := "admin"

/-- Whether a request came through the gateway's admin route. -/
def requireAdminRole (headers : HeaderMap) : Except ApiError Unit :=
  if (headers.get adminRoleHeader).bind HeaderValue.toStr ≠ some adminRole then
    .error ⟨.forbidden, "admin_role_required",
      "this surface is reachable only through the gateway's admin route"⟩
  else .ok ()

theorem requireAdminRole_error {headers : HeaderMap} {e : ApiError}
    (h : requireAdminRole headers = .error e) : e.status = .forbidden := by
  unfold requireAdminRole at h
  split at h
  · rw [← Except.error.inj h]
  · cases h

structure ReserveView where
  attestedReserveMinor : UInt64
  attestationTs : Int64
  attestationAgeSecs : Int64
  attestationFresh : Bool
  encumberedMinor : UInt64
  freeBackingMinor : UInt64
  supplyMinor : UInt64
  headroomMinor : UInt64
  f1Holds : Bool
  simulated : Bool
  deriving DecidableEq

def ReserveView.of (s : ReserveState) (now : Int64) (simulated : Bool) : ReserveView where
  attestedReserveMinor := s.attestation.reserve.minor
  attestationTs := s.attestation.ts
  attestationAgeSecs := s.attestation.ageSecs now
  attestationFresh := s.attestation.isFresh now
  encumberedMinor := s.encumbered.minor
  freeBackingMinor := s.freeBacking.minor
  supplyMinor := s.supply.minor
  headroomMinor := s.headroom.minor
  f1Holds := s.f1Holds
  simulated := simulated

/-- `reserve`. -/
def getReserve (state : AppState) : Endpoint ReserveView := do
  let s ← service ReserveService.current
  let now ← now
  return .of s now state.simulated

structure ReconciliationView where
  unhealthyRunsRecorded : UInt64
  severity : Severity
  drift : ℤ
  expectedSupplyMinor : UInt64
  ledgerSupplyMinor : UInt64
  freeBackingMinor : UInt64
  shortfallMinor : UInt64
  checkedAt : Int64
  healthy : Bool
  simulated : Bool
  deriving DecidableEq

def ReconciliationView.of (r : ReconciliationReport) (unhealthyRuns : UInt64)
    (simulated : Bool) : ReconciliationView where
  unhealthyRunsRecorded := unhealthyRuns
  severity := r.severity
  drift := r.drift
  expectedSupplyMinor := r.expectedSupply.minor
  ledgerSupplyMinor := r.ledgerSupply.minor
  freeBackingMinor := r.freeBacking.minor
  shortfallMinor := r.shortfall.minor
  checkedAt := r.checkedAt
  healthy := r.isHealthy
  simulated := simulated

/-- `reconciliation`: the checks run on demand. -/
def getReconciliation (state : AppState) : Endpoint ReconciliationView := do
  let r ← service ReconciliationService.run
  let unhealthyRuns ← service ReconciliationService.unhealthyRuns
  return .of r unhealthyRuns state.simulated

/-- An entry of the queue that is past Δ. -/
structure Overdue where
  user : String
  seq : UInt64
  amountMinor : UInt64
  escrowedAt : Option Int64
  deltaSecs : Int64
  deriving DecidableEq

def Overdue.of (r : Redemption) : Overdue :=
  ⟨r.user, r.seq, r.amount.minor, r.escrowedAt, r.deltaSecs⟩

structure QueueView where
  redemptionQueueLen : UInt32
  overdueCount : ℕ
  overdue : List Overdue
  deriving DecidableEq

/-- `redemption_queue`. -/
def getRedemptionQueue : Endpoint QueueView := do
  let pending ← service RedemptionService.queueLen
  let overdue ← service RedemptionService.sweepReclaimable
  return ⟨pending, overdue.length, overdue.map .of⟩

/-- `attest`. -/
def postAttestation (reserveMinor : UInt64) : Endpoint UInt64 := do
  service (ReserveService.attest ⟨reserveMinor⟩)
  return reserveMinor

/-- `confirm_redemption`. -/
def postConfirm (user : String) (seq : UInt64) : Endpoint Unit :=
  service (RedemptionService.confirm user seq)

/-- `process_payout`: the F4 barrier. -/
def postPayout (user : String) (seq : UInt64) : Endpoint Unit :=
  service (RedemptionService.processPayout user seq)

end Thbc
