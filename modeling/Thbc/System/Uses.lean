import Thbc.System.World

/-!
# Which ports a call uses

The on-ramp's methods, the off-ramp's and the rest are told apart by the
ports they ask, whatever they are answered. One walk through each method says
so (`call_uses`), and a proof about one ramp has the calls of the other out of
the way with it.
-/

namespace Thbc

open Thbc.Lib Thbc.Service

/-! ## The on-ramp -/

/-- What the methods of the on-ramp ask for. -/
def onRampPort : Port → Prop
  | .clock | .deposits _ | .compliance _ => True
  | .ledger .snapshot | .ledger (.issue _ _ _) => True
  | _ => False

/-- What they ask for with the deposit at hand. -/
def issuingPort : Port → Prop
  | .clock | .deposits (.update _) | .deposits .totalEncumbered => True
  | .ledger .snapshot | .ledger (.issue _ _ _) => True
  | _ => False

theorem onRampPort_of_issuingPort {s : Port} (h : issuingPort s) : onRampPort s := by
  cases s with
  | ledger m => cases m <;> first | exact h.elim | trivial
  | redemptions m => exact h.elim
  | payouts m => exact h.elim
  | history m => exact h.elim
  | simulator m => exact h.elim
  | _ => trivial

theorem effectiveReserve_uses :
    IssuanceService.effectiveReserve.run.Uses issuingPort := by
  refine uses_run_bind (uses_call trivial) fun snapshot => ?_
  exact uses_run_bind (uses_call trivial) fun encumbered => trivial

theorem attestAndIssue_uses (d : Deposit) (amount : Thb)
    (beneficiaryWallet : String) (nullifier : BankRefHash) (now : Int64) :
    (IssuanceService.attestAndIssue d amount beneficiaryWallet nullifier
      now).run.Uses issuingPort := by
  refine uses_run_bind effectiveReserve_uses fun state => ?_
  cases state.checkIssuance amount now with
  | error e => trivial
  | ok v =>
      refine uses_run_bind (uses_core _) fun d' => ?_
      refine uses_run_bind (uses_call trivial) fun _ => ?_
      refine uses_run_bind (uses_call trivial) fun outcome => ?_
      cases outcome with
      | submitted => trivial
      | failed => trivial
      | confirmed =>
          refine uses_run_bind (uses_core _) fun d'' => ?_
          exact uses_run_bind (uses_call trivial) fun _ => trivial

section

variable [Sha256]

theorem handleDeposit_uses (bankRef : BankRef) (amount : Thb)
    (beneficiary beneficiaryWallet : String) :
    (IssuanceService.handleDeposit bankRef amount beneficiary
      beneficiaryWallet).run.Uses onRampPort := by
  refine uses_run_bind (uses_clock trivial) fun now => ?_
  refine uses_run_bind (uses_core _) fun d => ?_
  refine uses_run_bind (uses_attempt (uses_call trivial)) fun r => ?_
  cases r with
  | error e =>
      cases e with
      | conflict text => exact uses_run_bind (uses_call trivial) fun _ => trivial
      | transient text => trivial
      | rejected text => trivial
      | unsupported why => trivial
      | notFound => trivial
      | domain e => trivial
  | ok u =>
      refine uses_run_bind (uses_call trivial) fun screen => ?_
      refine uses_run_bind (uses_core _) fun d' => ?_
      cases screen with
      | fail => exact uses_run_bind (uses_call trivial) fun _ => trivial
      | pass =>
          exact uses_run_bind (uses_call trivial) fun _ =>
            (attestAndIssue_uses _ _ _ _ _).mono fun _ => onRampPort_of_issuingPort

theorem retryHeld_uses (bankRef : BankRef) :
    (IssuanceService.retryHeld bankRef).run.Uses onRampPort := by
  refine uses_run_bind (uses_call trivial) fun found => ?_
  refine uses_run_bind (uses_okOrNotFound _) fun d => ?_
  by_cases hd : d.state = .screened
  · rw [if_neg (not_not.mpr hd)]
    refine uses_run_bind (uses_clock trivial) fun now => ?_
    refine uses_run_bind (effectiveReserve_uses.mono
      fun _ => onRampPort_of_issuingPort) fun state => ?_
    cases state.checkIssuance d.amount now with
    | error e => trivial
    | ok v =>
        refine uses_run_bind (uses_core _) fun d' => ?_
        refine uses_run_bind (uses_call trivial) fun _ => ?_
        refine uses_run_bind (uses_call trivial) fun outcome => ?_
        cases outcome with
        | submitted => trivial
        | failed => trivial
        | confirmed =>
            refine uses_run_bind (uses_core _) fun d'' => ?_
            exact uses_run_bind (uses_call trivial) fun _ => trivial
  · rw [if_pos hd]
    trivial

theorem retryEach_uses (ds : List Deposit) (issued : ℕ) :
    (IssuanceService.retryEach ds issued).run.Uses onRampPort := by
  induction ds generalizing issued with
  | nil => trivial
  | cons d ds ih =>
      refine uses_run_bind (uses_attempt (retryHeld_uses d.bankRef)) fun r => ?_
      cases r with
      | error e => exact ih issued
      | ok o =>
          cases o with
          | issued amount => exact ih (issued + 1)
          | alreadyIssued => exact ih issued
          | encumbered amount reason => exact ih issued
          | held reason => exact ih issued

theorem retryAllHeld_uses :
    IssuanceService.retryAllHeld.run.Uses onRampPort := by
  refine uses_run_bind (uses_call trivial) fun ds => ?_
  cases ds with
  | nil => trivial
  | cons d ds =>
      exact uses_run_bind (retryEach_uses (d :: ds) 0) fun _ => trivial

end

/-! ## The off-ramp -/

/-- What the methods of the off-ramp ask for. -/
def offRampPort : Port → Prop
  | .clock | .redemptions _ | .payouts _ => True
  | .ledger (.escrowRedemption _) | .ledger (.confirmRedemption _ _)
  | .ledger (.reclaimRedemption _ _) => True
  | _ => False

theorem request_uses (deltaSecs : Int64) (user : String) (amount : Thb) :
    (RedemptionService.request deltaSecs user amount).run.Uses offRampPort := by
  refine uses_run_bind (uses_clock trivial) fun now => ?_
  refine uses_run_bind (uses_call trivial) fun seq => ?_
  refine uses_run_bind (uses_core _) fun r => ?_
  refine uses_run_bind (uses_call trivial) fun _ => ?_
  refine uses_run_bind (uses_call trivial) fun outcome => ?_
  refine uses_run_bind (uses_clock trivial) fun now' => ?_
  refine uses_run_bind (uses_core _) fun r' => ?_
  exact uses_run_bind (uses_call trivial) fun _ => trivial

/-- What a method of the off-ramp asks for that files nothing. -/
def settlingPort : Port → Prop
  | .clock | .redemptions (.find _ _) | .redemptions (.update _) | .payouts _ => True
  | .ledger (.confirmRedemption _ _) | .ledger (.reclaimRedemption _ _) => True
  | _ => False

theorem offRampPort_of_settlingPort {s : Port} (h : settlingPort s) : offRampPort s := by
  cases s with
  | redemptions m => trivial
  | ledger m => cases m <;> first | exact h.elim | trivial
  | clock => trivial
  | payouts m => trivial
  | _ => exact h.elim

theorem processPayout_settling (user : String) (seq : UInt64) :
    (RedemptionService.processPayout user seq).run.Uses settlingPort := by
  refine uses_run_bind (uses_call trivial) fun found => ?_
  refine uses_run_bind (uses_okOrNotFound _) fun r => ?_
  refine uses_run_bind (uses_core _) fun r' => ?_
  exact uses_run_bind (uses_call trivial) fun _ => uses_call trivial

theorem confirm_settling (user : String) (seq : UInt64) :
    (RedemptionService.confirm user seq).run.Uses settlingPort := by
  refine uses_run_bind (uses_call trivial) fun found => ?_
  refine uses_run_bind (uses_okOrNotFound _) fun r => ?_
  refine uses_run_bind (uses_call trivial) fun outcome => ?_
  cases outcome with
  | confirmed => exact uses_run_bind (uses_core _) fun r' => uses_call trivial
  | submitted => trivial
  | failed => trivial

theorem reclaim_settling (user : String) (seq : UInt64) :
    (RedemptionService.reclaim user seq).run.Uses settlingPort := by
  refine uses_run_bind (uses_call trivial) fun found => ?_
  refine uses_run_bind (uses_okOrNotFound _) fun r => ?_
  refine uses_run_bind (uses_clock trivial) fun now => ?_
  refine uses_run_bind (uses_core _) fun r' => ?_
  refine uses_run_bind (uses_call trivial) fun outcome => ?_
  cases outcome with
  | confirmed => exact uses_call trivial
  | submitted => trivial
  | failed => trivial

theorem processPayout_uses (user : String) (seq : UInt64) :
    (RedemptionService.processPayout user seq).run.Uses offRampPort :=
  (processPayout_settling user seq).mono fun _ => offRampPort_of_settlingPort

theorem confirm_uses (user : String) (seq : UInt64) :
    (RedemptionService.confirm user seq).run.Uses offRampPort :=
  (confirm_settling user seq).mono fun _ => offRampPort_of_settlingPort

theorem reclaim_uses (user : String) (seq : UInt64) :
    (RedemptionService.reclaim user seq).run.Uses offRampPort :=
  (reclaim_settling user seq).mono fun _ => offRampPort_of_settlingPort

/-! ## Calls that leave both legs alone -/

/-- What the methods that only read and report ask for. -/
def readPort : Port → Prop
  | .clock => True
  | .deposits .totalEncumbered | .deposits .totalIssued => True
  | .redemptions .totalRedeemed | .redemptions .pendingCount => True
  | .redemptions (.reclaimable _) => True
  | .ledger .snapshot => True
  | .history _ => True
  | _ => False

theorem sweepReclaimable_uses :
    RedemptionService.sweepReclaimable.run.Uses readPort :=
  uses_run_bind (uses_clock trivial) fun _ => uses_call trivial

theorem queueLen_uses : RedemptionService.queueLen.run.Uses readPort :=
  uses_call trivial

theorem current_uses : ReserveService.current.run.Uses readPort := by
  refine uses_run_bind (uses_call trivial) fun snapshot => ?_
  exact uses_run_bind (uses_call trivial) fun encumbered => trivial

theorem reconcile_uses : ReconciliationService.run.run.Uses readPort := by
  refine uses_run_bind (uses_call trivial) fun issued => ?_
  refine uses_run_bind (uses_call trivial) fun redeemed => ?_
  refine uses_run_bind current_uses fun state => ?_
  refine uses_run_bind (uses_clock trivial) fun now => ?_
  refine uses_run_bind (uses_core _) fun report => ?_
  exact uses_run_bind (uses_call trivial) fun _ => trivial

/-- Port calls that look no single row up and write none, and move no token
but into the platform's inventory. -/
def common : Port → Prop
  | .clock => True
  | .deposits .totalEncumbered | .deposits .totalIssued => True
  | .redemptions .totalRedeemed | .redemptions .pendingCount => True
  | .redemptions (.reclaimable _) => True
  | .ledger .snapshot | .ledger (.updateAttestation _ _) => True
  | .history _ | .simulator _ => True
  | _ => False

theorem common_of_readPort {s : Port} (h : readPort s) : common s := by
  cases s with
  | deposits m => cases m <;> first | exact h.elim | trivial
  | redemptions m => cases m <;> first | exact h.elim | trivial
  | ledger m => cases m <;> first | exact h.elim | trivial
  | compliance m => exact h.elim
  | payouts m => exact h.elim
  | _ => trivial

theorem publish_common (reserve : Thb) :
    (ReserveService.attest.publish reserve).run.Uses common := by
  refine uses_run_bind (uses_call trivial) fun encumbered => ?_
  refine uses_run_bind (uses_call trivial) fun outcome => ?_
  cases outcome with
  | confirmed => trivial
  | submitted => trivial
  | failed => trivial

theorem attest_common (reserve : Thb) :
    (ReserveService.attest reserve).run.Uses common := by
  refine uses_run_bind (uses_attempt (current_uses.mono
    fun _ => common_of_readPort)) fun r => ?_
  cases r with
  | ok state => exact publish_common reserve
  | error e =>
      cases e with
      | unsupported why => exact publish_common reserve
      | transient text => trivial
      | rejected text => trivial
      | notFound => trivial
      | conflict text => trivial
      | domain e => trivial

/-! ## Every call -/

/-- What a call asks for. -/
def Call.ports : Call → Port → Prop
  | .handleDeposit _ _ _ _ | .retryHeld _ | .retryAllHeld => onRampPort
  | .request _ _ | .processPayout _ _ | .confirm _ _ | .reclaim _ _ => offRampPort
  | .sweepReclaimable | .queueLen | .reconcile => readPort
  | .attest _ | .control _ => common

/-- The calls that work on no single deposit or redemption. -/
def Call.isCommon : Call → Bool
  | .sweepReclaimable | .queueLen | .attest _ | .reconcile | .control _ => true
  | _ => false

section Calls

variable [Sha256]

theorem call_uses (deltaSecs : Int64) (call : Call) :
    (call.prog deltaSecs).Uses call.ports := by
  cases call with
  | handleDeposit b a ben wal =>
      exact uses_run_bind (handleDeposit_uses b a ben wal) fun _ => trivial
  | retryHeld b => exact uses_run_bind (retryHeld_uses b) fun _ => trivial
  | retryAllHeld => exact uses_run_bind retryAllHeld_uses fun _ => trivial
  | request user amount =>
      exact uses_run_bind (request_uses _ _ _) fun _ => trivial
  | processPayout user seq =>
      exact uses_run_bind (processPayout_uses _ _) fun _ => trivial
  | confirm user seq => exact uses_run_bind (confirm_uses _ _) fun _ => trivial
  | reclaim user seq => exact uses_run_bind (reclaim_uses _ _) fun _ => trivial
  | sweepReclaimable => exact uses_run_bind sweepReclaimable_uses fun _ => trivial
  | queueLen => exact uses_run_bind queueLen_uses fun _ => trivial
  | reconcile => exact uses_run_bind reconcile_uses fun _ => trivial
  | attest reserve => exact uses_run_bind (attest_common reserve) fun _ => trivial
  | control m => exact uses_run_bind (uses_call trivial) fun _ => trivial

theorem call_common (deltaSecs : Int64) (call : Call)
    (h : call.isCommon = true) : (call.prog deltaSecs).Uses common := by
  refine (call_uses deltaSecs call).mono fun s hs => ?_
  cases call with
  | sweepReclaimable => exact common_of_readPort hs
  | queueLen => exact common_of_readPort hs
  | reconcile => exact common_of_readPort hs
  | attest reserve => exact hs
  | control m => exact hs
  | _ => cases h

end Calls

end Thbc
