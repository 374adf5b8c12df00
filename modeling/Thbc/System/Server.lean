import Thbc.Api.Router
import Thbc.Bin.Reconciler
import Thbc.System.OnRamp
import Thbc.System.OffRamp
import Thbc.System.Durable
import Thbc.Lib.Journal

/-!
# The process that serves

Requests of any kind and the reconciler, all at once over the tables: what
`axum::serve` and `spawn_reconciler` make of the services. A request that is dropped by
its client, and a process that stops, are tasks that are not scheduled again.

A task keeps to the grammars of the service method behind its route, `Task.call`; the
other routes only read and report, and any method's grammar will do for them.
-/

namespace Thbc.Server

open Thbc.Lib Thbc.Service

inductive Task where
  | request (r : Request)
  | reconciler (intervalSecs : UInt64) (ticks : ℕ)
  deriving DecidableEq

/-- What a task comes to. -/
inductive Outcome where
  | response (r : Response)
  | reports (out : List (Reconciler.Findings × List LogLine))
  deriving DecidableEq

section Programs

variable [Sha256]

/-- What a task does. -/
def Task.prog (state : AppState) : Task → Prog Port Port.Reply Outcome
  | .request r => r.serve state >>= fun a => pure (.response a)
  | .reconciler intervalSecs ticks =>
      Reconciler.spawn intervalSecs ticks >>= fun out => pure (.reports out)

/-- Tasks that overlap, over the tables. -/
abbrev Tasks : Type := Pool Port Port.Reply Outcome Durable.Tables

/-- All tasks at their beginning. -/
def Tasks.start (state : AppState) (tasks : List Task) (w : Durable.Tables) : Tasks :=
  Pool.start (tasks.map (Task.prog state)) w

variable {state : AppState} {tasks : List Task} {i : ℕ} {t : Task}

theorem prog_at (htask : tasks[i]? = some t) :
    (tasks.map (Task.prog state))[i]? = some (t.prog state) := by
  rw [List.getElem?_map, htask]
  rfl

/-- What a task comes to is true of what it has gone through. -/
theorem result_tells {R : Outcome → History Port Port.Reply → Prop} {w : Durable.Tables}
    {ts : List (ℕ × Durable.Conditions)} {o : Outcome} (htask : tasks[i]? = some t)
    (ht : (t.prog state).Tells R [])
    (ho : ((Tasks.start state tasks w).run Durable.exec ts).result i = some o) :
    R o (own i ((Tasks.start state tasks w).run Durable.exec ts).log) :=
  Pool.tells (prog_at htask) ht w ts ho

end Programs

/-! ## The methods behind the routes -/

/-- The deposit that a webhook comes to, if it is let through. -/
def webhookCall (headers : HeaderMap) (body : DepositWebhook) : Option Call :=
  if headers.containsKey signatureHeader = false then none
  else
    match body.wallet, BankRef.new body.bankRef with
    | some wallet, .ok bankRef =>
        some (.handleDeposit bankRef ⟨body.amountMinor⟩ body.beneficiary wallet)
    | _, _ => none

def adminCall : AdminRequest → Call
  | .reserve => .queueLen
  | .reconciliation => .reconcile
  | .redemptionQueue => .queueLen
  | .attest reserveMinor => .attest ⟨reserveMinor⟩
  | .confirmRedemption user seq => .confirm user seq
  | .processPayout user seq => .processPayout user seq

def requestCall : Request → Call
  | .requestRedemption user amountMinor => .request user ⟨amountMinor⟩
  | .reclaim user seq => .reclaim user seq
  | .deposit headers body => (webhookCall headers body).getD .queueLen
  | .admin headers r =>
      match requireAdminRole headers with
      | .ok () => adminCall r
      | .error _ => .queueLen
  | _ => .queueLen

def Task.call : Task → Call
  | .request r => requestCall r
  | .reconciler _ _ => .retryAllHeld

/-! ## Handlers in a grammar -/

section Handlers

variable {N : Port → Prop} {α β Q : Type}

theorem uses_service {x : Service α} (h : x.run.Uses N) : (Endpoint.service x).run.Uses N :=
  uses_bind h fun _ => trivial

theorem uses_respond {x : Endpoint α} (h : x.run.Uses N) (f : α → Response) :
    (x.respond f).Uses N := by
  refine uses_bind h fun r => ?_
  cases r with
  | ok a => trivial
  | error e => trivial

variable {G : Grammar Port Port.Reply Q} {q : Q}

theorem obeys_map {p : Prog Port Port.Reply α} (h : p.Obeys G q) (f : α → β) :
    (p >>= fun a => pure (f a)).Obeys G q :=
  meets_bind.mpr h

theorem obeys_respond {x : Endpoint α} (h : x.run.Obeys G q) (f : α → Response) :
    (x.respond f).Obeys G q := by
  refine meets_bind.mpr (meets_mono h fun r q' hq' => ?_)
  cases r with
  | ok a => exact hq'
  | error e => exact hq'

/-- A handler that calls one service method and prints what it returns. -/
theorem obeys_service {x : Service α} (h : x.run.Obeys G q) (f : α → β) :
    (Endpoint.service x >>= fun a => pure (f a)).run.Obeys G q := by
  refine meets_run_bind.mpr (meets_bind.mpr (meets_mono h fun r q' hq' => ?_))
  cases r with
  | ok a => exact hq'
  | error e => exact hq'

end Handlers

/-! ## The routes that read and report -/

theorem unhealthyRuns_uses : ReconciliationService.unhealthyRuns.run.Uses readPort :=
  uses_call trivial

theorem getReady_uses (state : AppState) : (getReady state).Uses readPort := by
  refine uses_bind (uses_run_bind current_uses fun s => ?_) fun _ => trivial
  exact uses_run_bind (uses_clock trivial) fun now => trivial

theorem postQuoteBuy_uses (grxInAtoms : UInt64) : (postQuoteBuy grxInAtoms).run.Uses readPort := by
  refine uses_run_bind (uses_service (uses_run_bind (uses_call trivial) fun s => ?_))
    fun q => trivial
  exact uses_core _

theorem postQuoteSell_uses (thbcInMinor : UInt64) :
    (postQuoteSell thbcInMinor).run.Uses readPort := by
  refine uses_run_bind (uses_service (uses_run_bind (uses_call trivial) fun s => ?_))
    fun q => trivial
  exact uses_core _

theorem getReserve_uses (state : AppState) : (getReserve state).run.Uses readPort := by
  refine uses_run_bind (uses_service current_uses) fun s => ?_
  exact uses_run_bind (uses_bind (uses_call trivial) fun _ => trivial) fun now => trivial

theorem getReconciliation_uses (state : AppState) :
    (getReconciliation state).run.Uses readPort := by
  refine uses_run_bind (uses_service reconcile_uses) fun r => ?_
  exact uses_run_bind (uses_service unhealthyRuns_uses) fun n => trivial

theorem getRedemptionQueue_uses : getRedemptionQueue.run.Uses readPort := by
  refine uses_run_bind (uses_service queueLen_uses) fun pending => ?_
  exact uses_run_bind (uses_service sweepReclaimable_uses) fun due => trivial

theorem getRedemption_settling (user : String) (seq : UInt64) :
    (getRedemption user seq).run.Uses settlingPort := by
  refine uses_run_bind (uses_run_bind (uses_call trivial) fun found => uses_okOrNotFound _)
    fun r => ?_
  exact uses_run_bind (uses_clock trivial) fun now => trivial

theorem getRedemption_uses (user : String) (seq : UInt64) :
    (getRedemption user seq).run.Uses offRampPort :=
  (getRedemption_settling user seq).mono fun _ => offRampPort_of_settlingPort

theorem requestRedemption_uses {N : Port → Prop} {state : AppState} {user : String}
    {amountMinor : UInt64}
    (h : (RedemptionService.request state.deltaSecs user ⟨amountMinor⟩).run.Uses N) :
    (requestRedemption state user amountMinor).run.Uses N :=
  uses_run_bind (uses_service h) fun _ => trivial

theorem attest_uses (reserveMinor : UInt64) : (postAttestation reserveMinor).run.Uses common :=
  uses_run_bind (uses_service (attest_common _)) fun _ => trivial

/-! ## Every task -/

variable [Sha256]

theorem onRamp_of_common {α : Type} {p : Prog Port Port.Reply α} {call : Call}
    (h : p.Uses common) : p.Obeys (OnRamp.grammar call) .idle :=
  OnRamp.neutral_obeys (h.mono fun _ => OnRamp.neutral_of_common)

theorem onRamp_of_readPort {α : Type} {p : Prog Port Port.Reply α} {call : Call}
    (h : p.Uses readPort) : p.Obeys (OnRamp.grammar call) .idle :=
  onRamp_of_common (h.mono fun _ => common_of_readPort)

theorem onRamp_of_offRampPort {α : Type} {p : Prog Port Port.Reply α} {call : Call}
    (h : p.Uses offRampPort) : p.Obeys (OnRamp.grammar call) .idle :=
  OnRamp.neutral_obeys (h.mono fun _ => OnRamp.neutral_of_offRampPort)

omit [Sha256] in
theorem offRamp_of_common {α : Type} {p : Prog Port Port.Reply α} {call : Call}
    (h : p.Uses common) : p.Obeys (OffRamp.grammar call) .idle :=
  OffRamp.neutral_obeys (h.mono fun _ => OffRamp.neutral_of_common)

omit [Sha256] in
theorem offRamp_of_readPort {α : Type} {p : Prog Port Port.Reply α} {call : Call}
    (h : p.Uses readPort) : p.Obeys (OffRamp.grammar call) .idle :=
  offRamp_of_common (h.mono fun _ => common_of_readPort)

theorem adminServe_onRamp (state : AppState) (r : AdminRequest) :
    (r.serve state).Obeys (OnRamp.grammar (adminCall r)) .idle := by
  cases r with
  | reserve => exact onRamp_of_readPort (uses_respond (getReserve_uses state) _)
  | reconciliation => exact onRamp_of_readPort (uses_respond (getReconciliation_uses state) _)
  | redemptionQueue => exact onRamp_of_readPort (uses_respond getRedemptionQueue_uses _)
  | attest reserveMinor => exact onRamp_of_common (uses_respond (attest_uses _) _)
  | confirmRedemption user seq =>
      exact onRamp_of_offRampPort (uses_respond (uses_service (confirm_uses user seq)) _)
  | processPayout user seq =>
      exact onRamp_of_offRampPort (uses_respond (uses_service (processPayout_uses user seq)) _)

theorem serve_onRamp (state : AppState) (r : Request) :
    (r.serve state).Obeys (OnRamp.grammar (requestCall r)) .idle := by
  cases r with
  | health => exact rfl
  | ready => exact onRamp_of_readPort (getReady_uses state)
  | requestRedemption user amountMinor =>
      exact onRamp_of_offRampPort (uses_respond (requestRedemption_uses (request_uses _ _ _)) _)
  | getRedemption user seq =>
      exact onRamp_of_offRampPort (uses_respond (uses_service (getRedemption_uses user seq)) _)
  | reclaim user seq =>
      exact onRamp_of_offRampPort (uses_respond (uses_service (reclaim_uses user seq)) _)
  | quoteBuy grxInAtoms => exact onRamp_of_readPort (uses_respond (postQuoteBuy_uses _) _)
  | quoteSell thbcInMinor => exact onRamp_of_readPort (uses_respond (postQuoteSell_uses _) _)
  | deposit headers body =>
      refine obeys_respond ?_ _
      rw [requestCall, webhookCall, depositWebhook]
      split
      · exact rfl
      · cases hwallet : body.wallet with
        | none => exact rfl
        | some wallet =>
            cases href : BankRef.new body.bankRef with
            | error e => exact rfl
            | ok bankRef => exact obeys_service (OnRamp.handleDeposit_settles _ _ _ _) _
  | admin headers r =>
      rw [requestCall, Request.serve]
      cases requireAdminRole headers with
      | error e => exact rfl
      | ok u => exact adminServe_onRamp state r

omit [Sha256] in
theorem adminServe_offRamp (state : AppState) (r : AdminRequest) :
    (r.serve state).Obeys (OffRamp.grammar (adminCall r)) .idle := by
  cases r with
  | reserve => exact offRamp_of_readPort (uses_respond (getReserve_uses state) _)
  | reconciliation => exact offRamp_of_readPort (uses_respond (getReconciliation_uses state) _)
  | redemptionQueue => exact offRamp_of_readPort (uses_respond getRedemptionQueue_uses _)
  | attest reserveMinor => exact offRamp_of_common (uses_respond (attest_uses _) _)
  | confirmRedemption user seq =>
      exact obeys_respond (obeys_map (OffRamp.confirm_settles user seq) _) _
  | processPayout user seq =>
      exact obeys_respond (obeys_map (OffRamp.processPayout_settles user seq) _) _

omit [Sha256] in
/-- A look at a redemption leads nowhere. -/
theorem getRedemption_settles (user : String) (seq : UInt64) :
    OffRamp.Settles .queueLen (getRedemption user seq) .idle := by
  refine meets_run_bind.mpr (meets_redemptions trivial (fun _ => rfl) fun found _ => ?_)
  cases found with
  | none => exact rfl
  | some r => exact meets_now trivial fun now => rfl

theorem serve_offRamp (state : AppState) (r : Request) :
    (r.serve state).Obeys (OffRamp.grammar (requestCall r)) .idle := by
  cases r with
  | health => exact rfl
  | ready => exact offRamp_of_readPort (getReady_uses state)
  | requestRedemption user amountMinor =>
      exact obeys_respond (obeys_service (OffRamp.request_settles _ _ _) _) _
  | getRedemption user seq =>
      exact obeys_respond (obeys_map (getRedemption_settles user seq) _) _
  | reclaim user seq =>
      exact obeys_respond (obeys_map (OffRamp.reclaim_settles user seq) _) _
  | quoteBuy grxInAtoms => exact offRamp_of_readPort (uses_respond (postQuoteBuy_uses _) _)
  | quoteSell thbcInMinor => exact offRamp_of_readPort (uses_respond (postQuoteSell_uses _) _)
  | deposit headers body =>
      refine OffRamp.neutral_obeys ((uses_respond (N := onRampPort) ?_ _).mono
        fun _ => OffRamp.neutral_of_onRampPort)
      rw [depositWebhook]
      split
      · trivial
      · cases body.wallet with
        | none => trivial
        | some wallet =>
            cases BankRef.new body.bankRef with
            | error e => trivial
            | ok bankRef =>
                refine uses_run_bind trivial fun b => ?_
                exact uses_run_bind (uses_service (handleDeposit_uses _ _ _ _)) fun _ => trivial
  | admin headers r =>
      rw [requestCall, Request.serve]
      cases requireAdminRole headers with
      | error e => exact rfl
      | ok u => exact adminServe_offRamp state r

theorem tick_onRamp : Reconciler.tick.Obeys (OnRamp.grammar .retryAllHeld) .idle := by
  refine meets_bind.mpr (meets_mono (onRamp_of_readPort reconcile_uses) fun r q hq => ?_)
  obtain rfl : q = _ := hq
  refine meets_bind.mpr (meets_mono (OnRamp.retryAllHeld_settles rfl) fun r q hq => ?_)
  obtain rfl := hq
  exact meets_bind.mpr (onRamp_of_readPort sweepReclaimable_uses)

theorem loop_onRamp (n : ℕ) (unsupportedReported : Bool) :
    (Reconciler.loop n unsupportedReported).Obeys (OnRamp.grammar .retryAllHeld) .idle := by
  induction n generalizing unsupportedReported with
  | zero => exact rfl
  | succ n ih =>
      refine meets_bind.mpr (meets_mono tick_onRamp fun found q hq => ?_)
      obtain rfl : q = _ := hq
      exact meets_bind.mpr (ih _)

/-- What a tick asks for is all that the reconciler asks for. -/
theorem spawn_uses {N : Port → Prop} (h : Reconciler.tick.Uses N) (intervalSecs : UInt64)
    (n : ℕ) : (Reconciler.spawn intervalSecs n).Uses N := by
  have hloop : ∀ n unsupportedReported, (Reconciler.loop n unsupportedReported).Uses N := by
    intro n
    induction n with
    | zero => exact fun _ => trivial
    | succ n ih =>
        exact fun _ => uses_bind h fun found => uses_bind (ih _) fun rest => trivial
  rw [Reconciler.spawn]
  split
  · trivial
  · exact hloop n false

theorem tick_offRamp : Reconciler.tick.Uses OffRamp.neutral := by
  refine uses_bind (reconcile_uses.mono fun _ h =>
    OffRamp.neutral_of_common (common_of_readPort h)) fun r => ?_
  refine uses_bind (retryAllHeld_uses.mono fun _ => OffRamp.neutral_of_onRampPort) fun h => ?_
  exact uses_bind (sweepReclaimable_uses.mono fun _ h =>
    OffRamp.neutral_of_common (common_of_readPort h)) fun d => trivial

/-- Each task keeps to the on-ramp grammar of its method. -/
theorem task_onRamp (state : AppState) (t : Task) :
    (t.prog state).Obeys (OnRamp.grammar t.call) .idle := by
  cases t with
  | request r => exact obeys_map (serve_onRamp state r) _
  | reconciler intervalSecs ticks =>
      refine obeys_map ?_ _
      rw [Reconciler.spawn]
      split
      · exact rfl
      · exact loop_onRamp ticks false

/-- And to the off-ramp grammar. -/
theorem task_offRamp (state : AppState) (t : Task) :
    (t.prog state).Obeys (OffRamp.grammar t.call) .idle := by
  cases t with
  | request r => exact obeys_map (serve_offRamp state r) _
  | reconciler intervalSecs ticks =>
      exact obeys_map (OffRamp.neutral_obeys (spawn_uses tick_offRamp _ _)) _

theorem obeys_start {Q : Type} {G : Call → Grammar Port Port.Reply Q} {state : AppState}
    (h : ∀ t : Task, (t.prog state).Obeys (G t.call) (G t.call).start) (tasks : List Task)
    (w : Durable.Tables) :
    (Tasks.start state tasks w).Obeys fun i => G (callAt (tasks.map Task.call) i) := by
  refine Pool.obeys_start fun i p hp => ?_
  rw [List.getElem?_map] at hp
  obtain ⟨t, ht, rfl⟩ := Option.map_eq_some_iff.mp hp
  have hat : callAt (tasks.map Task.call) i = t.call := by
    rw [callAt, List.getD_eq_getElem?_getD, List.getElem?_map, ht]
    rfl
  rw [hat]
  exact h t

end Thbc.Server
