import Thbc.System.Server
import Thbc.Proofs.MintedOnce
import Thbc.Proofs.PaidOnce
import Thbc.Lib.Rely

/-!
# Two gates

What an operator's request can bring about, no other traffic can: without the role that
the gateway asserts, nothing is attested, no burn is confirmed, no payout is asked for,
and no redemption is written as `payout_queued` or `confirmed`. And without a webhook
that carries a signature, no deposit is filed and nobody is screened. Neither needs
anything of the tables, the ports or the order in which requests overlap.
-/

namespace Thbc.Server

open Thbc.Lib Thbc.Service Thbc.Durable

/-- A request of the operator's surface that is let through. -/
def Task.bearsRole : Task → Bool
  | .request (.admin headers _) => (requireAdminRole headers).isOk
  | _ => false

/-- A webhook with a signature. -/
def Task.isSigned : Task → Bool
  | .request (.deposit headers _) => headers.containsKey signatureHeader
  | _ => false

/-- What only an operator may bring about. -/
def privileged : Port → Prop
  | .ledger (.updateAttestation ..) | .ledger (.confirmRedemption ..) | .payouts _ => True
  | .redemptions (.insert r) | .redemptions (.update r) =>
      r.state = .payoutQueued ∨ r.state = .confirmed
  | _ => False

/-- What only a bank may bring about. -/
def filing : Port → Prop
  | .deposits (.insert _) | .compliance _ => True
  | _ => False

/-! ## The operator's -/

section Privileged

variable {α : Type} {s : Port}

theorem not_privileged_of_onRampPort (h : onRampPort s) : ¬ privileged s := by
  cases s with
  | ledger m => cases m <;> first | exact h.elim | exact id
  | redemptions m => exact h.elim
  | payouts m => exact h.elim
  | _ => exact id

theorem not_privileged_of_readPort (h : readPort s) : ¬ privileged s := by
  cases s with
  | ledger m => cases m <;> first | exact h.elim | exact id
  | redemptions m => cases m <;> first | exact h.elim | exact id
  | payouts m => exact h.elim
  | _ => exact id

theorem request_unprivileged (deltaSecs : Int64) (user : String) (amount : Thb) :
    (RedemptionService.request deltaSecs user amount).run.Uses fun s => ¬ privileged s := by
  refine uses_run_bind (uses_clock id) fun now => ?_
  refine uses_run_bind (uses_call id) fun seq => ?_
  cases hreq : Redemption.request user seq amount deltaSecs now with
  | error e => trivial
  | ok r =>
      obtain ⟨-, rfl⟩ := Redemption.request_ok.mp hreq
      refine uses_core_ok.mpr (uses_run_bind (uses_call ?_) fun _ => ?_)
      · rintro (h | h) <;> cases h
      refine uses_run_bind (uses_call id) fun outcome => ?_
      refine uses_run_bind (uses_clock id) fun now' => ?_
      cases outcome with
      | confirmed =>
          refine uses_core_ok.mpr (uses_run_bind (uses_call ?_) fun _ => trivial)
          rintro (h | h) <;> cases h
      | submitted =>
          refine uses_core_ok.mpr (uses_run_bind (uses_call ?_) fun _ => trivial)
          rintro (h | h) <;> cases h
      | failed =>
          refine uses_core_ok.mpr (uses_run_bind (uses_call ?_) fun _ => trivial)
          rintro (h | h) <;> cases h

theorem reclaim_unprivileged (user : String) (seq : UInt64) :
    (RedemptionService.reclaim user seq).run.Uses fun s => ¬ privileged s := by
  refine uses_run_bind (uses_call id) fun found => ?_
  refine uses_run_bind (uses_okOrNotFound _) fun r => ?_
  refine uses_run_bind (uses_clock id) fun now => ?_
  cases hrec : r.reclaim now with
  | error e => trivial
  | ok r' =>
      obtain ⟨-, -, rfl⟩ := Redemption.reclaim_ok.mp hrec
      refine uses_core_ok.mpr (uses_run_bind (uses_call id) fun outcome => ?_)
      cases outcome with
      | submitted => trivial
      | failed => trivial
      | confirmed =>
          refine uses_call ?_
          rintro (h | h) <;> cases h

theorem getRedemption_unprivileged (user : String) (seq : UInt64) :
    (getRedemption user seq).run.Uses fun s => ¬ privileged s := by
  refine uses_run_bind (uses_run_bind (uses_call id) fun found => uses_okOrNotFound _)
    fun r => ?_
  exact uses_run_bind (uses_clock id) fun now => trivial

variable [Sha256]

theorem deposit_uses (state : AppState) (headers : HeaderMap) (body : DepositWebhook) :
    (depositWebhook state headers body).run.Uses onRampPort := by
  rw [depositWebhook]
  split
  · trivial
  · cases body.wallet with
    | none => trivial
    | some wallet =>
        cases BankRef.new body.bankRef with
        | error e => trivial
        | ok bankRef =>
            refine uses_run_bind trivial fun b => ?_
            exact uses_run_bind (uses_service (handleDeposit_uses _ _ _ _)) fun _ => trivial

theorem tick_unprivileged : Reconciler.tick.Uses fun s => ¬ privileged s := by
  refine uses_bind (reconcile_uses.mono fun _ => not_privileged_of_readPort) fun r => ?_
  refine uses_bind (retryAllHeld_uses.mono fun _ => not_privileged_of_onRampPort) fun h => ?_
  exact uses_bind (sweepReclaimable_uses.mono fun _ => not_privileged_of_readPort)
    fun d => trivial

/-- What a task without the role asks for. -/
theorem task_unprivileged (state : AppState) {t : Task} (h : t.bearsRole = false) :
    (t.prog state).Uses fun s => ¬ privileged s := by
  have hread : ∀ {p : Prog Port Port.Reply Response}, p.Uses readPort →
      p.Uses fun s => ¬ privileged s := fun hp => hp.mono fun _ => not_privileged_of_readPort
  cases t with
  | reconciler intervalSecs ticks =>
      exact uses_bind (spawn_uses tick_unprivileged _ _) fun _ => trivial
  | request rq =>
      refine uses_bind ?_ fun _ => trivial
      cases rq with
      | health => trivial
      | ready => exact hread (getReady_uses state)
      | requestRedemption user amountMinor =>
          exact uses_respond (requestRedemption_uses (request_unprivileged _ _ _)) _
      | getRedemption user seq =>
          exact uses_respond (uses_service (getRedemption_unprivileged user seq)) _
      | reclaim user seq => exact uses_respond (uses_service (reclaim_unprivileged user seq)) _
      | quoteBuy grxInAtoms => exact hread (uses_respond (postQuoteBuy_uses _) _)
      | quoteSell thbcInMinor => exact hread (uses_respond (postQuoteSell_uses _) _)
      | deposit headers body =>
          exact (uses_respond (deposit_uses state headers body) _).mono
            fun _ => not_privileged_of_onRampPort
      | admin headers r =>
          rw [Request.serve]
          rw [Task.bearsRole] at h
          cases hgate : requireAdminRole headers with
          | error e => trivial
          | ok u =>
              rw [hgate] at h
              cases h

end Privileged

/-! ## The bank's -/

section Filing

variable {s : Port}

theorem not_filing_of_offRampPort (h : offRampPort s) : ¬ filing s := by
  cases s with
  | deposits m => exact h.elim
  | compliance m => exact h.elim
  | _ => exact id

theorem not_filing_of_common (h : common s) : ¬ filing s := by
  cases s with
  | deposits m => cases m <;> first | exact h.elim | exact id
  | compliance m => exact h.elim
  | _ => exact id

theorem not_filing_of_readPort (h : readPort s) : ¬ filing s :=
  not_filing_of_common (common_of_readPort h)

theorem not_filing_of_issuingPort (h : issuingPort s) : ¬ filing s := by
  cases s with
  | deposits m => cases m <;> first | exact h.elim | exact id
  | compliance m => exact h.elim
  | _ => exact id

variable [Sha256]

theorem retryHeld_files_none (bankRef : BankRef) :
    (IssuanceService.retryHeld bankRef).run.Uses fun s => ¬ filing s := by
  refine uses_run_bind (uses_call id) fun found => ?_
  refine uses_run_bind (uses_okOrNotFound _) fun d => ?_
  by_cases hd : d.state = .screened
  · rw [if_neg (not_not.mpr hd)]
    refine uses_run_bind (uses_clock id) fun now => ?_
    refine uses_run_bind (effectiveReserve_uses.mono
      fun _ => not_filing_of_issuingPort) fun state => ?_
    cases state.checkIssuance d.amount now with
    | error e => trivial
    | ok v =>
        refine uses_run_bind (uses_core _) fun d' => ?_
        refine uses_run_bind (uses_call id) fun _ => ?_
        refine uses_run_bind (uses_call id) fun outcome => ?_
        cases outcome with
        | submitted => trivial
        | failed => trivial
        | confirmed =>
            refine uses_run_bind (uses_core _) fun d'' => ?_
            exact uses_run_bind (uses_call id) fun _ => trivial
  · rw [if_pos hd]
    trivial

theorem retryEach_files_none (ds : List Deposit) (issued : ℕ) :
    (IssuanceService.retryEach ds issued).run.Uses fun s => ¬ filing s := by
  induction ds generalizing issued with
  | nil => trivial
  | cons d ds ih =>
      refine uses_run_bind (uses_attempt (retryHeld_files_none d.bankRef)) fun r => ?_
      cases r with
      | error e => exact ih issued
      | ok o =>
          cases o with
          | issued amount => exact ih (issued + 1)
          | _ => exact ih issued

theorem tick_files_none : Reconciler.tick.Uses fun s => ¬ filing s := by
  refine uses_bind (reconcile_uses.mono fun _ => not_filing_of_readPort) fun r => ?_
  refine uses_bind (uses_run_bind (uses_call id) fun ds => ?_) fun h => ?_
  · cases ds with
    | nil => trivial
    | cons d ds => exact uses_run_bind (retryEach_files_none (d :: ds) 0) fun _ => trivial
  · exact uses_bind (sweepReclaimable_uses.mono fun _ => not_filing_of_readPort)
      fun d => trivial

omit [Sha256] in
theorem adminServe_files_none (state : AppState) (r : AdminRequest) :
    (r.serve state).Uses fun s => ¬ filing s := by
  cases r with
  | reserve =>
      exact (uses_respond (getReserve_uses state) _).mono fun _ => not_filing_of_readPort
  | reconciliation =>
      exact (uses_respond (getReconciliation_uses state) _).mono fun _ => not_filing_of_readPort
  | redemptionQueue =>
      exact (uses_respond getRedemptionQueue_uses _).mono fun _ => not_filing_of_readPort
  | attest reserveMinor =>
      exact (uses_respond (attest_uses _) _).mono fun _ => not_filing_of_common
  | confirmRedemption user seq =>
      exact (uses_respond (uses_service (confirm_uses user seq)) _).mono
        fun _ => not_filing_of_offRampPort
  | processPayout user seq =>
      exact (uses_respond (uses_service (processPayout_uses user seq)) _).mono
        fun _ => not_filing_of_offRampPort

/-- What a task that is no signed webhook asks for. -/
theorem task_files_none (state : AppState) {t : Task} (h : t.isSigned = false) :
    (t.prog state).Uses fun s => ¬ filing s := by
  have hread : ∀ {p : Prog Port Port.Reply Response}, p.Uses readPort →
      p.Uses fun s => ¬ filing s := fun hp => hp.mono fun _ => not_filing_of_readPort
  have hoff : ∀ {p : Prog Port Port.Reply Response}, p.Uses offRampPort →
      p.Uses fun s => ¬ filing s := fun hp => hp.mono fun _ => not_filing_of_offRampPort
  cases t with
  | reconciler intervalSecs ticks =>
      exact uses_bind (spawn_uses tick_files_none _ _) fun _ => trivial
  | request rq =>
      refine uses_bind ?_ fun _ => trivial
      cases rq with
      | health => trivial
      | ready => exact hread (getReady_uses state)
      | requestRedemption user amountMinor =>
          exact hoff (uses_respond (requestRedemption_uses (request_uses _ _ _)) _)
      | getRedemption user seq =>
          exact hoff (uses_respond (uses_service (getRedemption_uses user seq)) _)
      | reclaim user seq => exact hoff (uses_respond (uses_service (reclaim_uses user seq)) _)
      | quoteBuy grxInAtoms => exact hread (uses_respond (postQuoteBuy_uses _) _)
      | quoteSell thbcInMinor => exact hread (uses_respond (postQuoteSell_uses _) _)
      | deposit headers body =>
          have hunsigned : headers.containsKey signatureHeader = false := h
          refine uses_respond ?_ _
          rw [depositWebhook, if_pos hunsigned]
          trivial
      | admin headers r =>
          rw [Request.serve]
          cases requireAdminRole headers with
          | error e => trivial
          | ok u => exact adminServe_files_none state r

end Filing

/-! ## Over a run -/

section Runs

variable [Sha256] {rows₀ rows rows' : List RedemptionRow}

/-- The rows that are past an operator's decision have been so from the beginning. -/
def Undecided (rows₀ rows : List RedemptionRow) : Prop :=
  ∀ row ∈ rows, row.state = "payout_queued" ∨ row.state = "confirmed" →
    ∃ row₀ ∈ rows₀, row₀.userId = row.userId ∧ row₀.seq = row.seq ∧ row₀.state = row.state

omit [Sha256] in
theorem privileged_of_asStr {s : RedemptionState}
    (h : s.asStr = "payout_queued" ∨ s.asStr = "confirmed") :
    s = .payoutQueued ∨ s = .confirmed :=
  h.imp (fun h => RedemptionState.asStr_inj (h.trans rfl))
    fun h => RedemptionState.asStr_inj (h.trans rfl)

theorem Undecided.exec {e : Conditions} {s : Port} {w : Tables}
    (h : Undecided rows₀ w.redemptions) (hs : ¬ privileged s) :
    Undecided rows₀ (Durable.exec e s w).2.redemptions := by
  cases s with
  | redemptions m =>
      obtain ⟨b, rows', hx, hb⟩ := exec_redemptions e m w
      rw [hx]
      show Undecided rows₀ rows'
      cases m with
      | insert r =>
          obtain ⟨rfl, -⟩ | ⟨-, -, -, rfl⟩ := replies_insert hb
          · exact h
          · refine List.forall_mem_append.mpr ⟨h, List.forall_mem_singleton.mpr fun hnew => ?_⟩
            exact absurd (privileged_of_asStr hnew) hs
      | update r =>
          obtain ⟨rfl, -⟩ | ⟨-, rfl⟩ := replies_update hb
          · exact h
          · refine List.forall_mem_map.mpr fun row hrow => ?_
            unfold touched
            split
            · exact fun hnew => absurd (privileged_of_asStr hnew) hs
            · exact h row hrow
      | _ =>
          obtain rfl := Payouts.replies_read (fun _ => rfl) hb
          exact h
  | _ => exact h

theorem keys_exec {e : Conditions} {s : Port} {w : Tables} (hs : ¬ filing s) :
    (Durable.exec e s w).2.deposits.map DepositRow.bankRefHash =
      w.deposits.map DepositRow.bankRefHash := by
  cases s with
  | deposits m =>
      obtain ⟨b, rows', hx, hb⟩ := exec_deposits e m w
      rw [hx]
      show rows'.map _ = _
      cases m with
      | insert d => exact absurd trivial hs
      | update d =>
          obtain ⟨rfl, -⟩ | ⟨-, rfl⟩ := replies_written hb
          · rfl
          · rw [List.map_map]
            exact List.map_congr_left fun row _ => (touched_key d row).1
      | _ =>
          obtain rfl := replies_read (fun _ => rfl) hb
          rfl
  | _ => rfl

/-- Without a request that bears the role nothing privileged is asked of any port, and no
redemption comes to be past an operator's decision. Without a signed webhook nobody is
screened, and the deposits on file remain those on file. -/
theorem gates_hold (state : AppState) (tasks : List Task) (w : Tables)
    (ts : List (ℕ × Conditions)) :
    let c := (Tasks.start state tasks w).run Durable.exec ts
    ((∀ t ∈ tasks, t.bearsRole = false) →
      (∀ a ∈ c.log.map Prod.snd, ¬ privileged a.1) ∧
        Undecided w.redemptions c.world.redemptions) ∧
    ((∀ t ∈ tasks, t.isSigned = false) →
      (∀ a ∈ c.log.map Prod.snd, ¬ filing a.1) ∧
        c.world.deposits.map DepositRow.bankRefHash =
          w.deposits.map DepositRow.bankRefHash) := by
  refine ⟨fun hrole => ?_, fun hsigned => ?_⟩
  · refine Pool.uses_run (N := fun s => ¬ privileged s)
      (I := fun v : State => (∀ a ∈ v.2, ¬ privileged a.1) ∧
        Undecided w.redemptions v.1.redemptions)
      (fun p hp => ?_) (fun e s v hs hv => ?_) ?_ ts
    · obtain ⟨t, ht, rfl⟩ := List.mem_map.mp hp
      exact task_unprivileged state (hrole t ht)
    · exact ⟨List.forall_mem_cons.mpr ⟨hs, hv.1⟩, hv.2.exec hs⟩
    · exact ⟨fun a ha => absurd ha List.not_mem_nil, fun row hrow _ => ⟨row, hrow, rfl, rfl, rfl⟩⟩
  · refine Pool.uses_run (N := fun s => ¬ filing s)
      (I := fun v : State => (∀ a ∈ v.2, ¬ filing a.1) ∧
        v.1.deposits.map DepositRow.bankRefHash = w.deposits.map DepositRow.bankRefHash)
      (fun p hp => ?_) (fun e s v hs hv => ?_) ?_ ts
    · obtain ⟨t, ht, rfl⟩ := List.mem_map.mp hp
      exact task_files_none state (hsigned t ht)
    · exact ⟨List.forall_mem_cons.mpr ⟨hs, hv.1⟩, (keys_exec hs).trans hv.2⟩
    · exact ⟨fun a ha => absurd ha List.not_mem_nil, rfl⟩

end Runs

/-! ## Knocking at both -/

section Knocking

open Sample

/-- An attestation with another role and a webhook without a signature, beside a request
and a reconciler. -/
def knocking : List Task :=
  [.request (.admin [(adminRoleHeader, ⟨"user".toUTF8.toList⟩)] (.attest 100)),
    .request (.deposit [] ⟨"SCB-2", 100, "alice", some "alice"⟩),
    .request (.requestRedemption "alice" 100), .reconciler 3600 1]

/-- A deposit that waits, and a redemption in escrow. -/
def shelf : Tables where
  deposits := [⟨scb1.hash.toHex, "SCB-1", 100, "alice", "alice", "screened", 0⟩]
  redemptions := [⟨"alice", 1, 100, "escrowed", 0, some 0, 86400⟩]
  runs := []

def knocks : List (ℕ × Conditions) :=
  [(0, ample), (1, ample)] ++ List.replicate 6 (2, ample) ++ List.replicate 20 (3, ample)

abbrev knocked : Tasks :=
  (Tasks.start ⟨86400, true⟩ knocking shelf).run Durable.exec knocks

/-- The deposit that waits is sent to the ledger and a redemption is requested, which is for
neither gate. -/
theorem gates_hold_knocking :
    knocked.result 0 = some (.response ⟨.forbidden, .error "admin_role_required"
      "this surface is reachable only through the gateway's admin route"⟩) ∧
    knocked.result 1 = some (.response ⟨.unauthorized, .error "missing_signature"
      "x-thbc-signature is required on partner webhooks"⟩) ∧
    knocked.world.deposits.map DepositRow.state = ["attested"] ∧
    knocked.world.redemptions.map RedemptionRow.state = ["escrowed", "requested"] ∧
    (∀ a ∈ knocked.log.map Prod.snd, ¬ privileged a.1) ∧
    Undecided shelf.redemptions knocked.world.redemptions ∧
    (∀ a ∈ knocked.log.map Prod.snd, ¬ filing a.1) ∧
    knocked.world.deposits.map DepositRow.bankRefHash =
      shelf.deposits.map DepositRow.bankRefHash := by
  have h := gates_hold ⟨86400, true⟩ knocking shelf knocks
  have hrole : ∀ t ∈ knocking, t.bearsRole = false := by decide +kernel
  have hsigned : ∀ t ∈ knocking, t.isSigned = false := by decide +kernel
  exact ⟨by decide +kernel, by decide +kernel, by decide +kernel, by decide +kernel,
    (h.1 hrole).1, (h.1 hrole).2, (h.2 hsigned).1, (h.2 hsigned).2⟩

end Knocking

end Thbc.Server
