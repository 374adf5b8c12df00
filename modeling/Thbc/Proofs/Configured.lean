import Thbc.Bin.Startup
import Thbc.Proofs.Starting
import Thbc.Proofs.Gates
import Thbc.Proofs.Reports

/-!
# The timelock of a service that was started

`validate` refuses a Δ that is not positive, since it would make every redemption instantly
reclaimable. What its check is good for is `configured_timelock`: Δ comes from the
environment into every row that is ever filed, and no row is open to its holder before it is
over. The check is needed: without an escrow time the age is taken for zero.
-/

namespace Thbc

open Thbc.Lib Thbc.Service

namespace Server

/-! ## What is filed -/

/-- A redemption that is filed has the Δ of the service. -/
def filesWith (deltaSecs : Int64) : Port → Prop
  | .redemptions (.insert r) => r.deltaSecs = deltaSecs
  | _ => True

section Tasks

variable {deltaSecs : Int64} {s : Port}

theorem filesWith_of_ne (h : ∀ r, s ≠ .redemptions (.insert r)) : filesWith deltaSecs s := by
  cases s with
  | redemptions m =>
      cases m with
      | insert r => exact absurd rfl (h r)
      | _ => trivial
  | _ => trivial

theorem filesWith_of_common (h : common s) : filesWith deltaSecs s :=
  filesWith_of_ne fun _ hs => by subst hs; exact h

theorem filesWith_of_readPort (h : readPort s) : filesWith deltaSecs s :=
  filesWith_of_common (common_of_readPort h)

theorem filesWith_of_onRampPort (h : onRampPort s) : filesWith deltaSecs s :=
  filesWith_of_ne fun _ hs => by subst hs; exact h

theorem filesWith_of_settlingPort (h : settlingPort s) : filesWith deltaSecs s :=
  filesWith_of_ne fun _ hs => by subst hs; exact h

theorem request_files (deltaSecs : Int64) (user : String) (amount : Thb) :
    (RedemptionService.request deltaSecs user amount).run.Uses (filesWith deltaSecs) := by
  refine uses_run_bind (uses_clock trivial) fun now => ?_
  refine uses_run_bind (uses_call trivial) fun seq => ?_
  cases hreq : Redemption.request user seq amount deltaSecs now with
  | error e => trivial
  | ok r =>
      obtain ⟨-, rfl⟩ := Redemption.request_ok.mp hreq
      refine uses_core_ok.mpr (uses_run_bind (uses_call rfl) fun _ => ?_)
      refine uses_run_bind (uses_call trivial) fun outcome => ?_
      refine uses_run_bind (uses_clock trivial) fun now' => ?_
      refine uses_run_bind (uses_core _) fun r' => ?_
      exact uses_run_bind (uses_call trivial) fun _ => trivial

variable [Sha256]

theorem tick_files : Reconciler.tick.Uses (filesWith deltaSecs) := by
  refine uses_bind (reconcile_uses.mono fun _ => filesWith_of_readPort) fun r => ?_
  refine uses_bind (retryAllHeld_uses.mono fun _ => filesWith_of_onRampPort) fun h => ?_
  exact uses_bind (sweepReclaimable_uses.mono fun _ => filesWith_of_readPort) fun d => trivial

/-- Whatever the task, it files with the Δ of the service. -/
theorem task_files (state : AppState) (t : Task) :
    (t.prog state).Uses (filesWith state.deltaSecs) := by
  have hread : ∀ {p : Prog Port Port.Reply Response}, p.Uses readPort →
      p.Uses (filesWith state.deltaSecs) := fun hp => hp.mono fun _ => filesWith_of_readPort
  have hsettle : ∀ {p : Prog Port Port.Reply Response}, p.Uses settlingPort →
      p.Uses (filesWith state.deltaSecs) := fun hp => hp.mono fun _ => filesWith_of_settlingPort
  cases t with
  | reconciler intervalSecs ticks =>
      exact uses_bind (spawn_uses tick_files _ _) fun _ => trivial
  | request rq =>
      refine uses_bind ?_ fun _ => trivial
      cases rq with
      | health => trivial
      | ready => exact hread (getReady_uses state)
      | requestRedemption user amountMinor =>
          exact uses_respond (requestRedemption_uses (request_files _ _ _)) _
      | getRedemption user seq =>
          exact hsettle (uses_respond (uses_service (getRedemption_settling user seq)) _)
      | reclaim user seq =>
          exact hsettle (uses_respond (uses_service (reclaim_settling user seq)) _)
      | quoteBuy grxInAtoms => exact hread (uses_respond (postQuoteBuy_uses _) _)
      | quoteSell thbcInMinor => exact hread (uses_respond (postQuoteSell_uses _) _)
      | deposit headers body =>
          exact (uses_respond (deposit_uses state headers body) _).mono
            fun _ => filesWith_of_onRampPort
      | admin headers r =>
          rw [Request.serve]
          cases requireAdminRole headers with
          | error e => trivial
          | ok u =>
              cases r with
              | reserve => exact hread (uses_respond (getReserve_uses state) _)
              | reconciliation => exact hread (uses_respond (getReconciliation_uses state) _)
              | redemptionQueue => exact hread (uses_respond getRedemptionQueue_uses _)
              | attest reserveMinor =>
                  exact (uses_respond (attest_uses _) _).mono fun _ => filesWith_of_common
              | confirmRedemption user seq =>
                  exact hsettle (uses_respond (uses_service (confirm_settling user seq)) _)
              | processPayout user seq =>
                  exact hsettle (uses_respond (uses_service (processPayout_settling user seq)) _)

end Tasks

/-! ## Over a run -/

open Durable

section Runs

variable [Sha256] {deltaSecs : Int64}

/-- Every row has the Δ of the service. -/
def Locked (deltaSecs : Int64) (rows : List RedemptionRow) : Prop :=
  ∀ row ∈ rows, row.deltaSecs = deltaSecs

omit [Sha256] in
theorem touched_deltaSecs (rd : Redemption) (row : RedemptionRow) :
    (Durable.touched rd row).deltaSecs = row.deltaSecs := by
  unfold Durable.touched
  split <;> rfl

theorem Locked.exec {e : Conditions} {s : Port} {w : Tables}
    (h : Locked deltaSecs w.redemptions) (hs : filesWith deltaSecs s) :
    Locked deltaSecs (Durable.exec e s w).2.redemptions := by
  cases s with
  | redemptions m =>
      obtain ⟨b, rows', hx, hb⟩ := exec_redemptions e m w
      rw [hx]
      show Locked deltaSecs rows'
      cases m with
      | insert r =>
          obtain ⟨rfl, -⟩ | ⟨-, -, -, rfl⟩ := replies_insert hb
          · exact h
          · exact List.forall_mem_append.mpr ⟨h, List.forall_mem_singleton.mpr hs⟩
      | update r =>
          obtain ⟨rfl, -⟩ | ⟨-, rfl⟩ := replies_update hb
          · exact h
          · exact List.forall_mem_map.mpr fun row hrow =>
              (touched_deltaSecs r row).trans (h row hrow)
      | _ =>
          obtain rfl := Payouts.replies_read (fun _ => rfl) hb
          exact h
  | _ => exact h

theorem locked_run (state : AppState) (tasks : List Task) (runs : List ReconciliationRow)
    (ts : List (ℕ × Conditions)) :
    Locked state.deltaSecs
      ((Tasks.start state tasks ⟨[], [], runs⟩).run Durable.exec ts).world.redemptions := by
  refine Pool.uses_run (N := filesWith state.deltaSecs)
    (I := fun v : State => Locked state.deltaSecs v.1.redemptions)
    (fun p hp => ?_) (fun e s v hs hv => hv.exec hs) (fun _ h => absurd h List.not_mem_nil) ts
  obtain ⟨t, -, rfl⟩ := List.mem_map.mp hp
  exact task_files state t

end Runs

end Server

/-! ## What a positive Δ comes to -/

namespace Redemption

variable {r r' : Redemption} {now : Int64}

/-- Since Δ is positive, no age that is made up for want of an escrow time reaches it. -/
theorem waited_of_age (hdelta : 0 < r.deltaSecs) (hage : r.deltaSecs ≤ (r.escrowAge now).getD 0) :
    ∃ since, r.escrowedAt = some since ∧ since.toInt + r.deltaSecs.toInt ≤ now.toInt := by
  rw [Int64.lt_iff_toInt_lt] at hdelta
  have hzero : (0 : Int64).toInt = 0 := rfl
  unfold escrowAge at hage
  cases hsince : r.escrowedAt with
  | none =>
      rw [hsince, Option.map_none, Option.getD_none, Int64.le_iff_toInt_le] at hage
      omega
  | some since =>
      rw [hsince, Option.map_some, Option.getD_some, Int64.le_iff_toInt_le,
        toInt_saturatingSub] at hage
      have hmin : Int64.minValue.toInt = -2 ^ 63 := rfl
      refine ⟨since, rfl, ?_⟩
      omega

theorem waited_of_reclaimable (hdelta : 0 < r.deltaSecs) (h : r.isReclaimable now = true) :
    ∃ since, r.escrowedAt = some since ∧ since.toInt + r.deltaSecs.toInt ≤ now.toInt := by
  refine waited_of_age hdelta ?_
  obtain ⟨-, hage⟩ := Bool.and_eq_true_iff.mp h
  cases hsome : r.escrowAge now with
  | none =>
      rw [hsome] at hage
      cases hage
  | some age =>
      rw [hsome] at hage
      exact of_decide_eq_true hage

end Redemption

namespace Startup

open Server Durable

section Runs

variable [DebugStr] [Sha256]

/-- In a service that has started, whatever is asked of it and by whomever at once, every
redemption has the Δ that the environment says, and before Δ is over since its escrow it is
neither listed as due, nor reported as reclaimable, nor reclaimed. -/
theorem configured_timelock {env : Environment} {settings : Settings}
    (hstart : Settings.fromEnv env = .ok settings) (ticks : ℕ) (requests : List Request)
    (runs : List ReconciliationRow) (ts : List (ℕ × Conditions)) :
    let c := (Tasks.start (appState settings) (tasks settings ticks requests) ⟨[], [], runs⟩).run
      Durable.exec ts
    ∀ row ∈ c.world.redemptions, ∀ r, PgRedemptionRepository.rowToRedemption row = .ok r →
      env.Sets "THBC_REDEMPTION_DELTA_SECS" Environment.Counts 86400 r.deltaSecs ∧
      ∀ now, (PgRedemptionRepository.isDue now row = .ok true ∨ r.isReclaimable now = true ∨
          ∃ r', r.reclaim now = .ok r') →
        ∃ since, r.escrowedAt = some since ∧ since.toInt < now.toInt ∧
          since.toInt + r.deltaSecs.toInt ≤ now.toInt := by
  intro c row hrow r hread
  obtain ⟨hsaid, hvalid⟩ := Settings.fromEnv_ok.mp hstart
  have hdelta : r.deltaSecs = settings.redemptionDeltaSecs := by
    obtain ⟨-, -, -, -, -, -, hcolumn⟩ := PgRedemptionRepository.rowToRedemption_ok.mp hread
    exact hcolumn.symm.trans (locked_run (appState settings) _ runs ts row hrow)
  have hpos : 0 < r.deltaSecs := hdelta ▸ hvalid.delta
  have hpos' : 0 < r.deltaSecs.toInt := Int64.lt_iff_toInt_lt.mp hpos
  refine ⟨hdelta ▸ hsaid.redemptionDeltaSecs, fun now hopen => ?_⟩
  suffices hwaited : ∃ since, r.escrowedAt = some since ∧
      since.toInt + r.deltaSecs.toInt ≤ now.toInt by
    obtain ⟨since, hsince, hage⟩ := hwaited
    exact ⟨since, hsince, by omega, hage⟩
  obtain hdue | hreclaimable | ⟨r', hreclaim⟩ := hopen
  · obtain ⟨-, since, hsince, hage⟩ := due_of_isDue hread hdue
    exact ⟨since, hsince, by omega⟩
  · exact Redemption.waited_of_reclaimable hpos hreclaimable
  · exact Redemption.waited_of_age hpos (Redemption.reclaim_ok.mp hreclaim).2.1

end Runs

/-! ## A simulated service -/

open Sample

/-- Simulated, with a Δ of a minute. -/
def minutely : Environment := fun key =>
  if key = "THBC_LEDGER_MODE" then .ok " Simulated "
  else if key = "THBC_REDEMPTION_DELTA_SECS" then .ok "+60"
  else if key = "THBC_DATABASE_URL" then .ok "postgres://localhost:7001/gridtokenx_thbc"
  else .error .notPresent

@[reducible] def quote : DebugStr := ⟨String.quote⟩

def minute : Settings where
  databaseUrl := some "postgres://localhost:7001/gridtokenx_thbc"
  migrationDatabaseUrl := none
  ledgerMode := .simulated
  redemptionDeltaSecs := 60
  attestationTtlSecs := 3600
  httpPort := 4008
  natsUrl := "nats://localhost:9001"
  chainBridgeGrpcUrl := "http://localhost:5001"
  treasuryPda := none
  inventoryVault := none
  serviceIdentity := "spiffe://gridtokenx.th/prod/thbc-service"
  simulatedReserveMinor := 0
  reconcileIntervalSecs := 3600
  stubKycCeilingMinor := 1000000000

abbrev busy : List Request := [.requestRedemption "alice" 100]

/-- The escrow is confirmed, at the fifth second. -/
def escrowing : Conditions where
  answer
    | .clock => 5
    | .ledger (.escrowRedemption _) => .ok .confirmed
    | s => ample.answer s
  depositTie _ := 0
  redemptionTie _ := 0
  runTie _ := 0
  fault := none

abbrev sevenTurns : List (ℕ × Conditions) := List.replicate 7 (1, escrowing)

theorem configured_timelock_minute :
    ((Tasks.start (appState minute) (tasks minute 1 busy) ⟨[], [], []⟩).run Durable.exec
        sevenTurns).world.redemptions = [⟨"alice", 1, 100, "escrowed", 5, some 5, 60⟩] ∧
    ∀ now r', (⟨"alice", 1, ⟨100⟩, .escrowed, 5, some 5, 60⟩ : Redemption).reclaim now = .ok r' →
      65 ≤ now.toInt := by
  have hrows : ((Tasks.start (appState minute) (tasks minute 1 busy) ⟨[], [], []⟩).run
      Durable.exec sevenTurns).world.redemptions =
        [⟨"alice", 1, 100, "escrowed", 5, some 5, 60⟩] := by decide +kernel
  refine ⟨hrows, fun now r' hreclaim => ?_⟩
  obtain ⟨-, hwaits⟩ := @configured_timelock quote sha256 minutely minute rfl 1 busy [] sevenTurns
    ⟨"alice", 1, 100, "escrowed", 5, some 5, 60⟩ (hrows ▸ List.mem_singleton_self _)
    ⟨"alice", 1, ⟨100⟩, .escrowed, 5, some 5, 60⟩ rfl
  obtain ⟨since, hsince, -, hage⟩ := hwaits now (.inr (.inr ⟨r', hreclaim⟩))
  obtain rfl := Option.some.inj hsince
  exact hage

end Startup

end Thbc
