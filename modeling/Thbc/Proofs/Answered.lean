import Thbc.Proofs.Answers
import Thbc.Lib.Within

/-!
# Every request is answered

A request makes at most nine calls of its ports, and is answered when it has had so
many turns, whatever overlaps with it and whatever it is told. The reconciler's rounds
have no such bound: a sweep takes as long as there are deposits held.
-/

namespace Thbc.Server

open Thbc.Lib Thbc.Service Thbc.Durable

section Services

variable {α β : Type} {n : ℕ}

theorem within_clock : clock.run.Within 1 := fun _ => trivial

theorem within_core (x : CoreResult α) : (core x).run.Within 0 := by
  cases x with
  | ok a => trivial
  | error e => trivial

theorem within_okOrNotFound (o : Option α) : (okOrNotFound o).run.Within 0 := by
  cases o with
  | none => trivial
  | some a => trivial

theorem within_effectiveReserve : IssuanceService.effectiveReserve.run.Within 2 :=
  within_run_step (within_call _) fun _ => within_run_step (within_call _) fun _ => within_pure _

theorem within_attestAndIssue (d : Deposit) (amount : Thb) (wallet : String) (h : BankRefHash)
    (now : Int64) : (IssuanceService.attestAndIssue d amount wallet h now).run.Within 5 := by
  refine within_run_bind (m := 3) within_effectiveReserve fun state => ?_
  cases state.checkIssuance amount now with
  | error e => exact within_pure _
  | ok v =>
      refine within_run_after (within_core _) fun d' => ?_
      refine within_run_step (within_call _) fun _ => ?_
      refine within_run_step (within_call _) fun outcome => ?_
      cases outcome with
      | submitted => exact within_pure _
      | failed => exact within_pure _
      | confirmed =>
          refine within_run_after (within_core _) fun d'' => ?_
          exact within_run_step (n := 0) (within_call _) fun _ => within_pure _

theorem within_handleDeposit [Sha256] (bankRef : BankRef) (amount : Thb)
    (beneficiary wallet : String) :
    (IssuanceService.handleDeposit bankRef amount beneficiary wallet).run.Within 9 := by
  refine within_run_step within_clock fun now => within_run_after (within_core _) fun d => ?_
  refine within_run_step (fun _ => within_pure _) fun filed => ?_
  rcases filed with e | u
  · cases e with
    | conflict text =>
        exact within_run_step (n := 6) (within_call _) fun _ => within_pure _
    | _ => exact within_pure _
  · refine within_run_step (within_call _) fun screen => ?_
    refine within_run_after (within_core _) fun d' => ?_
    cases screen with
    | fail => exact within_run_step (within_call _) fun _ => within_pure _
    | pass => exact within_run_step (within_call _) fun _ => within_attestAndIssue _ _ _ _ _

theorem within_request (deltaSecs : Int64) (user : String) (amount : Thb) :
    (RedemptionService.request deltaSecs user amount).run.Within 6 := by
  refine within_run_step within_clock fun now => within_run_step (within_call _) fun seq => ?_
  refine within_run_after (within_core _) fun r => within_run_step (within_call _) fun _ => ?_
  refine within_run_step (within_call _) fun outcome => within_run_step within_clock fun now' => ?_
  refine within_run_after (within_core _) fun r' => ?_
  exact within_run_step (n := 0) (within_call _) fun _ => within_pure _

theorem within_processPayout (user : String) (seq : UInt64) :
    (RedemptionService.processPayout user seq).run.Within 3 := by
  refine within_run_step (within_call _) fun found => ?_
  refine within_run_after (within_okOrNotFound found) fun r => ?_
  refine within_run_after (within_core _) fun r' => ?_
  exact within_run_step (within_call _) fun _ => within_call _

theorem within_confirm (user : String) (seq : UInt64) :
    (RedemptionService.confirm user seq).run.Within 3 := by
  refine within_run_step (within_call _) fun found => ?_
  refine within_run_after (within_okOrNotFound found) fun r => ?_
  refine within_run_step (within_call _) fun outcome => ?_
  cases outcome with
  | confirmed => exact within_run_after (within_core _) fun r' => within_call _
  | submitted => exact within_pure _
  | failed => exact within_pure _

theorem within_reclaim (user : String) (seq : UInt64) :
    (RedemptionService.reclaim user seq).run.Within 4 := by
  refine within_run_step (within_call _) fun found => ?_
  refine within_run_after (within_okOrNotFound found) fun r => ?_
  refine within_run_step within_clock fun now => within_run_after (within_core _) fun r' => ?_
  refine within_run_step (within_call _) fun outcome => ?_
  cases outcome with
  | confirmed => exact within_call _
  | submitted => exact within_pure _
  | failed => exact within_pure _

theorem within_getRedemption (user : String) (seq : UInt64) :
    (getRedemption user seq).run.Within 2 := by
  refine within_run_bind (m := 1) (n := 1) ?_ fun r => ?_
  · exact within_run_step (n := 0) (within_call _) fun found => within_okOrNotFound found
  · exact within_run_step (n := 0) within_clock fun now => within_pure _

theorem within_publish (reserve : Thb) : (ReserveService.attest.publish reserve).run.Within 2 := by
  refine within_run_step (within_call _) fun encumbered => ?_
  refine within_run_step (n := 0) (within_call _) fun outcome => ?_
  cases outcome with
  | confirmed => exact within_pure _
  | submitted => exact within_pure _
  | failed => exact within_pure _

theorem within_attempt {x : Service α} (hx : x.run.Within n) : (attempt x).run.Within n :=
  within_map hx fun _ => within_pure _

theorem within_attest (reserve : Thb) : (ReserveService.attest reserve).run.Within 4 := by
  refine within_run_bind (m := 2) (within_attempt within_effectiveReserve) fun r => ?_
  rcases r with e | state
  · cases e with
    | unsupported text => exact within_publish reserve
    | _ => exact within_pure _
  · exact within_publish reserve

theorem within_run : ReconciliationService.run.run.Within 6 := by
  refine within_run_step (within_call _) fun issued => ?_
  refine within_run_step (within_call _) fun redeemed => ?_
  refine within_run_bind (m := 2) within_effectiveReserve fun state => ?_
  refine within_run_step within_clock fun now => within_run_after (within_core _) fun report => ?_
  exact within_run_step (n := 0) (within_call _) fun _ => within_pure _

end Services

/-! ## Requests -/

section Requests

variable {α : Type} {n m : ℕ}

theorem within_service {x : Service α} (hx : x.run.Within n) :
    (Endpoint.service x).run.Within n :=
  within_map hx fun _ => within_pure _

theorem within_now : Endpoint.now.run.Within 1 := fun _ => trivial

theorem within_respond {x : Endpoint α} (hx : x.run.Within n) (f : α → Response) (hle : n ≤ m) :
    (x.respond f).Within m := by
  refine (within_map hx fun r => ?_).mono hle
  cases r with
  | ok a => exact within_pure _
  | error e => exact within_pure _

theorem within_admin (state : AppState) (r : AdminRequest) : (r.serve state).Within 9 := by
  cases r with
  | reserve =>
      refine within_respond (n := 3) ?_ _ (by decide)
      refine within_run_bind (m := 1) (within_service within_effectiveReserve) fun s => ?_
      exact within_run_step (n := 0) within_now fun now => within_pure _
  | reconciliation =>
      refine within_respond (n := 7) ?_ _ (by decide)
      refine within_run_bind (m := 1) (within_service within_run) fun r => ?_
      exact within_run_step (n := 0) (within_service (within_call _)) fun _ => within_pure _
  | redemptionQueue =>
      refine within_respond (n := 3) ?_ _ (by decide)
      refine within_run_step (within_service (within_call _)) fun pending => ?_
      refine within_run_map (within_service (n := 2) ?_) fun due => within_pure _
      exact within_run_step within_clock fun now => within_call _
  | attest reserveMinor =>
      refine within_respond (n := 4) ?_ _ (by decide)
      exact within_run_map (within_service (within_attest _)) fun _ => within_pure _
  | confirmRedemption user seq =>
      exact within_respond (within_service (within_confirm user seq)) _ (by decide)
  | processPayout user seq =>
      exact within_respond (within_service (within_processPayout user seq)) _ (by decide)

theorem within_ready (state : AppState) : (getReady state).Within 9 := by
  refine (within_map (n := 3) ?_ fun r => within_pure _).mono (by decide)
  refine within_run_bind (m := 1) within_effectiveReserve fun s => ?_
  exact within_run_step (n := 0) within_clock fun now => within_pure _

variable [Sha256]

theorem within_deposit (state : AppState) (headers : HeaderMap) (body : DepositWebhook) :
    (depositWebhook state headers body).run.Within 9 := by
  rw [depositWebhook]
  split
  · exact within_pure _
  · cases body.wallet with
    | none => exact within_pure _
    | some wallet =>
        cases BankRef.new body.bankRef with
        | error e => exact within_pure _
        | ok bankRef =>
            refine within_run_after (within_pure _) fun b => ?_
            exact within_run_map (within_service (within_handleDeposit _ _ _ _))
              fun _ => within_pure _

/-- No request makes more than nine calls of its ports. -/
theorem within_serve (state : AppState) (rq : Request) : (rq.serve state).Within 9 := by
  cases rq with
  | health => exact within_pure _
  | ready => exact within_ready state
  | requestRedemption user amountMinor =>
      refine within_respond (n := 6) ?_ _ (by decide)
      exact within_run_map (within_service (within_request _ _ _)) fun _ => within_pure _
  | getRedemption user seq =>
      exact within_respond (within_service (within_getRedemption user seq)) _ (by decide)
  | reclaim user seq =>
      exact within_respond (within_service (within_reclaim user seq)) _ (by decide)
  | quoteBuy grxInAtoms =>
      refine within_respond (n := 1) ?_ _ (by decide)
      refine within_run_map (within_service ?_) fun q => within_pure _
      exact within_run_step (n := 0) (within_call _) fun s => within_core _
  | quoteSell thbcInMinor =>
      refine within_respond (n := 1) ?_ _ (by decide)
      refine within_run_map (within_service ?_) fun q => within_pure _
      exact within_run_step (n := 0) (within_call _) fun s => within_core _
  | deposit headers body => exact within_respond (within_deposit state headers body) _ (by decide)
  | admin headers r =>
      rw [Request.serve]
      cases requireAdminRole headers with
      | error e => exact within_pure _
      | ok u => exact within_admin state r

theorem tells_response (state : AppState) (rq : Request) :
    (Task.prog state (.request rq)).Tells (fun o _ => ∃ r, o = .response r) [] :=
  tells_bind.mpr (tells_of_forall fun r _ => ⟨r, rfl⟩)

/-- A request that has had nine turns is answered, whatever overlaps with it and whatever
the ports answer. -/
theorem answered_within (state : AppState) (tasks : List Task) (w : Tables)
    (ts : List (ℕ × Conditions)) {i : ℕ} {rq : Request} (htask : tasks[i]? = some (.request rq))
    (hts : 9 ≤ ts.countP fun t => t.1 = i) :
    ∃ r, ((Tasks.start state tasks w).run Durable.exec ts).result i = some (.response r) := by
  have hprog : (Task.prog state (.request rq)).Within 9 :=
    within_map (within_serve state rq) fun _ => within_pure _
  obtain ⟨o, ho⟩ := Pool.returned Durable.exec (c := Tasks.start state tasks w)
    (prog_at htask) hprog hts
  obtain ⟨r, rfl⟩ := result_tells htask (tells_response state rq) ho
  exact ⟨r, ho⟩

end Requests

section Redelivered

open Sample

theorem answered_within_redelivered : ∃ r, redelivered.result 0 = some (.response r) :=
  answered_within ⟨86400, true⟩ [webhook, webhook] ⟨[], [], []⟩ turns (i := 0) rfl (by decide)

/-- An issuance takes all nine. -/
example : ((Tasks.start ⟨86400, true⟩ [webhook] ⟨[], [], []⟩).run Durable.exec
    (List.replicate 8 (0, agreed))).result 0 = none := by decide +kernel

end Redelivered

end Thbc.Server
