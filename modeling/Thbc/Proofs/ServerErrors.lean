import Thbc.Proofs.Answers

/-!
# Who is to blame for a 5xx

A 5xx asks the caller to come again, and the bank does. None is the service's own
making: it is an error that a port has answered to this very request, as the mapping of
errors prints it, or what an answer comes to that is no error, an attestation that is
submitted and no more, and a quote on a treasury that trades nothing. All that the
service refuses by itself is a 4xx.
-/

namespace Thbc.Server

open Thbc.Lib Thbc.Service Thbc.Durable

/-! ## What the core refuses with -/

section Core

variable {α β : Type} {Q : CoreError → Prop}

/-- Every error of `x` is a `Q`. -/
def Refuses (Q : CoreError → Prop) (x : CoreResult α) : Prop := ∀ e, x = .error e → Q e

theorem refuses_ok (a : α) : Refuses Q (.ok a : CoreResult α) := fun e he => by cases he

theorem refuses_error {e : CoreError} (h : Q e) : Refuses Q (.error e : CoreResult α) := by
  intro e' he
  cases he
  exact h

theorem refuses_bind {x : CoreResult α} {f : α → CoreResult β} (hx : Refuses Q x)
    (hf : ∀ a, Refuses Q (f a)) : Refuses Q (x >>= f) := by
  cases x with
  | ok a => exact hf a
  | error e => exact fun e' he => hx e' (by cases he; rfl)

theorem refuses_ite {p : Prop} [Decidable p] {x y : CoreResult α} (hx : Refuses Q x)
    (hy : Refuses Q y) : Refuses Q (if p then x else y) := by
  split
  · exact hx
  · exact hy

/-- An error of the core that is the caller's to mend. -/
def Mild (e : CoreError) : Prop := (ApiError.ofCore e).status.isServerError = false

theorem mild_mul (a b : ℕ) : Refuses Mild (checkedMulU128 a b) :=
  refuses_ite (refuses_ok _) (refuses_error rfl)

theorem mild_u64 (n : ℕ) : Refuses Mild (tryFromU128 n) :=
  refuses_ite (refuses_ok _) (refuses_error rfl)

theorem mild_observe (bankRef : BankRef) (amount : Thb) (beneficiary wallet : String)
    (now : Int64) : Refuses Mild (Deposit.observe bankRef amount beneficiary wallet now) :=
  refuses_ite (refuses_error rfl) (refuses_ite (refuses_error rfl) (refuses_ok _))

theorem mild_expect (d : Deposit) (want target : DepositState) :
    Refuses Mild (d.expect want target) :=
  refuses_ite (refuses_ok _) (refuses_error rfl)

theorem mild_screen (d : Deposit) (o : ScreenOutcome) : Refuses Mild (d.screen o) :=
  refuses_bind (mild_expect d _ _) fun _ => refuses_ok _

theorem mild_markAttested (d : Deposit) : Refuses Mild d.markAttested :=
  refuses_bind (mild_expect d _ _) fun _ => refuses_ok _

theorem mild_markIssued (d : Deposit) : Refuses Mild d.markIssued :=
  refuses_bind (mild_expect d _ _) fun _ => refuses_ok _

theorem mild_request (user : String) (seq : UInt64) (amount : Thb) (deltaSecs now : Int64) :
    Refuses Mild (Redemption.request user seq amount deltaSecs now) :=
  refuses_ite (refuses_error rfl) (refuses_ok _)

theorem mild_applyEscrowOutcome (r : Redemption) (o : ConfirmOutcome) (now : Int64) :
    Refuses Mild (r.applyEscrowOutcome o now) := by
  refine refuses_ite (refuses_error rfl) ?_
  cases o with
  | confirmed => exact refuses_ok _
  | failed => exact refuses_ok _
  | submitted => exact refuses_ok _

theorem mild_enqueuePayout (r : Redemption) : Refuses Mild r.enqueuePayout :=
  refuses_ite (refuses_error rfl) (refuses_ok _)

theorem mild_confirm (r : Redemption) : Refuses Mild r.confirm := by
  unfold Redemption.confirm
  split
  · exact refuses_ok _
  · exact refuses_ok _
  · exact refuses_error rfl

theorem mild_reclaim (r : Redemption) (now : Int64) : Refuses Mild (r.reclaim now) :=
  refuses_ite (refuses_error rfl) (refuses_ite (refuses_error rfl) (refuses_ok _))

theorem mild_reconcile (tally : LedgerTally) (reserve : ReserveState) (now : Int64) :
    Refuses Mild (reconcile tally reserve now) :=
  refuses_bind (refuses_ite (refuses_ok _) (refuses_error rfl)) fun _ => refuses_ok _

/-- A quote is refused for what it asks, or for what the treasury's parameters are. -/
theorem refuses_quoteBuy (grxIn : Grx) (params : ExchangeParams) (inventory : Inventory) :
    Refuses (fun e => Mild e ∨ params.validate = .error e)
      (quoteGrxForThbc grxIn params inventory) := by
  have hmild : ∀ {γ : Type} {x : CoreResult γ}, Refuses Mild x →
      Refuses (fun e => Mild e ∨ params.validate = .error e) x := fun h e he => .inl (h e he)
  rw [quoteGrxForThbc_eq]
  refine refuses_ite (refuses_error (.inl rfl)) (refuses_bind (fun e he => .inr he) fun _ => ?_)
  refine refuses_bind (hmild (mild_mul _ _)) fun product => ?_
  refine refuses_bind (hmild (mild_u64 _)) fun gross => ?_
  refine refuses_bind (hmild (refuses_bind (mild_mul _ _) fun fee =>
    refuses_bind (mild_u64 _) fun _ => refuses_ok _)) fun fee => ?_
  refine refuses_ite (refuses_error (.inl rfl)) (refuses_ite (refuses_error (.inl rfl)) ?_)
  refine refuses_bind (hmild (refuses_ite (refuses_ok _) (refuses_error rfl))) fun thbc => ?_
  exact refuses_bind (hmild (refuses_ite (refuses_ok _) (refuses_error rfl)))
    fun grx => refuses_ok _

theorem refuses_quoteSell (thbcIn : Thb) (params : ExchangeParams) (inventory : Inventory) :
    Refuses (fun e => Mild e ∨ params.validate = .error e)
      (quoteThbcForGrx thbcIn params inventory) := by
  have hmild : ∀ {γ : Type} {x : CoreResult γ}, Refuses Mild x →
      Refuses (fun e => Mild e ∨ params.validate = .error e) x := fun h e he => .inl (h e he)
  rw [quoteThbcForGrx_eq]
  refine refuses_ite (refuses_error (.inl rfl)) (refuses_bind (fun e he => .inr he) fun _ => ?_)
  refine refuses_bind (hmild (mild_mul _ _)) fun product => ?_
  refine refuses_bind (hmild (mild_u64 _)) fun gross => ?_
  refine refuses_bind (hmild (mild_mul _ _)) fun feeProduct => ?_
  refine refuses_bind (hmild (mild_u64 _)) fun fee => ?_
  refine refuses_ite (refuses_error (.inl rfl)) (refuses_ite (refuses_error (.inl rfl)) ?_)
  refine refuses_bind (hmild (refuses_ite (refuses_ok _) (refuses_error rfl))) fun thbc => ?_
  exact refuses_bind (hmild (refuses_ite (refuses_ok _) (refuses_error rfl)))
    fun grx => refuses_ok _

theorem mild_bankRef (raw : String) : Refuses Mild (BankRef.new raw) := by
  unfold BankRef.new
  split
  · exact refuses_error rfl
  · exact refuses_ok _

end Core

/-! ## What an answer comes to -/

/-- The error of a result. -/
def errorOf {α : Type} : PortResult α → Option PortError
  | .error e => some e
  | .ok _ => none

/-- The error that an answer of the ledger comes to which is none. -/
def turned : (m : LedgerPort) → m.Answer → Option PortError
  | .updateAttestation .., .submitted => some (.transient
      "attestation submitted but not confirmed on-chain; re-send to verify")
  | .snapshot, s => errorOf (s.params.validate.mapError .domain)
  | _, _ => none

/-- The error that an answer is, or comes to. -/
def failure : Act Port Port.Reply → Option PortError
  | ⟨.clock, _⟩ => none
  | ⟨.deposits _, r⟩ => errorOf r
  | ⟨.redemptions _, r⟩ => errorOf r
  | ⟨.ledger _, .error e⟩ => some e
  | ⟨.ledger m, .ok a⟩ => turned m a
  | ⟨.compliance _, r⟩ => errorOf r
  | ⟨.payouts _, r⟩ => errorOf r
  | ⟨.history _, r⟩ => errorOf r
  | ⟨.simulator _, r⟩ => errorOf r

/-- An error that is no 5xx. -/
def Gentle (e : PortError) : Prop := (ApiError.ofPort e).status.isServerError = false

section Services

variable {α β : Type}

/-- The method fails with what it was answered, or gently. -/
abbrev Passes (x : Service α) : Prop := Blames failure Gentle x

theorem passes_deposits (m : DepositRepository) : Passes (deposits m) :=
  fun h => tells_call.mpr fun b e he => .inl ⟨_, List.mem_cons_self, by rw [he]; rfl⟩

theorem passes_redemptions (m : RedemptionRepository) : Passes (redemptions m) :=
  fun h => tells_call.mpr fun b e he => .inl ⟨_, List.mem_cons_self, by rw [he]; rfl⟩

theorem passes_ledger (m : LedgerPort) : Passes (ledger m) :=
  fun h => tells_call.mpr fun b e he => .inl ⟨_, List.mem_cons_self, by rw [he]; rfl⟩

theorem passes_compliance (m : CompliancePort) : Passes (compliance m) :=
  fun h => tells_call.mpr fun b e he => .inl ⟨_, List.mem_cons_self, by rw [he]; rfl⟩

theorem passes_payouts (m : PayoutPort) : Passes (payouts m) :=
  fun h => tells_call.mpr fun b e he => .inl ⟨_, List.mem_cons_self, by rw [he]; rfl⟩

theorem passes_history (m : ReconciliationRepository) : Passes (history m) :=
  fun h => tells_call.mpr fun b e he => .inl ⟨_, List.mem_cons_self, by rw [he]; rfl⟩

theorem passes_clock : Passes clock :=
  fun h => tells_bind.mpr (tells_call.mpr fun b e he => by cases he)

theorem passes_core {x : CoreResult α} (hx : Refuses Mild x) : Passes (core x) := by
  cases x with
  | ok a => exact blames_pure a
  | error e => exact blames_throw (hx e rfl)

theorem passes_okOrNotFound (o : Option α) : Passes (okOrNotFound o) := by
  cases o with
  | none => exact blames_throw rfl
  | some a => exact blames_pure a

theorem passes_effectiveReserve : Passes IssuanceService.effectiveReserve :=
  blames_bind (passes_ledger .snapshot) fun _ =>
    blames_bind (passes_deposits .totalEncumbered) fun _ => blames_pure _

theorem passes_attestAndIssue (d : Deposit) (amount : Thb) (wallet : String) (n : BankRefHash)
    (now : Int64) : Passes (IssuanceService.attestAndIssue d amount wallet n now) := by
  refine blames_bind passes_effectiveReserve fun state => ?_
  cases state.checkIssuance amount now with
  | error e => exact blames_pure _
  | ok v =>
      refine blames_bind (passes_core (mild_markAttested d)) fun d' => ?_
      refine blames_bind (passes_deposits (.update d')) fun _ => ?_
      refine blames_bind (passes_ledger (.issue wallet amount n)) fun outcome => ?_
      cases outcome with
      | submitted => exact blames_pure _
      | failed => exact blames_pure _
      | confirmed =>
          refine blames_bind (passes_core (mild_markIssued d')) fun d'' => ?_
          exact blames_bind (passes_deposits (.update d'')) fun _ => blames_pure _

theorem passes_handleDeposit [Sha256] (bankRef : BankRef) (amount : Thb)
    (beneficiary wallet : String) :
    Passes (IssuanceService.handleDeposit bankRef amount beneficiary wallet) := by
  refine blames_bind passes_clock fun now => ?_
  refine blames_bind (passes_core (mild_observe _ _ _ _ _)) fun d => ?_
  refine blames_attempt (passes_deposits (.insert d)) (fun u => ?_) fun e => ?_
  · refine blames_bind (passes_compliance (.screen beneficiary amount)) fun screen => ?_
    refine blames_bind (passes_core (mild_screen d screen)) fun d' => ?_
    cases screen with
    | fail => exact blames_bind (passes_deposits (.update d')) fun _ => blames_pure _
    | pass =>
        exact blames_bind (passes_deposits (.update d')) fun _ =>
          passes_attestAndIssue _ _ _ _ _
  · cases e with
    | conflict text =>
        exact .inr (blames_bind (passes_deposits (.find d.nullifier)) fun _ => blames_pure _)
    | _ => exact .inl rfl

theorem passes_request (deltaSecs : Int64) (user : String) (amount : Thb) :
    Passes (RedemptionService.request deltaSecs user amount) := by
  refine blames_bind passes_clock fun now => ?_
  refine blames_bind (passes_redemptions (.nextSeq user)) fun seq => ?_
  refine blames_bind (passes_core (mild_request _ _ _ _ _)) fun r => ?_
  refine blames_bind (passes_redemptions (.insert r)) fun _ => ?_
  refine blames_bind (passes_ledger (.escrowRedemption r)) fun outcome => ?_
  refine blames_bind passes_clock fun now' => ?_
  refine blames_bind (passes_core (mild_applyEscrowOutcome r outcome now')) fun r' => ?_
  exact blames_bind (passes_redemptions (.update r')) fun _ => blames_pure _

theorem passes_processPayout (user : String) (seq : UInt64) :
    Passes (RedemptionService.processPayout user seq) := by
  refine blames_bind (passes_redemptions (.find user seq)) fun found => ?_
  refine blames_bind (passes_okOrNotFound found) fun r => ?_
  refine blames_bind (passes_core (mild_enqueuePayout r)) fun r' => ?_
  exact blames_bind (passes_redemptions (.update r')) fun _ => passes_payouts _

theorem passes_confirm (user : String) (seq : UInt64) :
    Passes (RedemptionService.confirm user seq) := by
  refine blames_bind (passes_redemptions (.find user seq)) fun found => ?_
  refine blames_bind (passes_okOrNotFound found) fun r => ?_
  refine blames_bind (passes_ledger (.confirmRedemption user seq)) fun outcome => ?_
  cases outcome with
  | confirmed =>
      exact blames_bind (passes_core (mild_confirm r)) fun r' => passes_redemptions (.update r')
  | submitted => exact blames_throw rfl
  | failed => exact blames_throw rfl

theorem passes_reclaim (user : String) (seq : UInt64) :
    Passes (RedemptionService.reclaim user seq) := by
  refine blames_bind (passes_redemptions (.find user seq)) fun found => ?_
  refine blames_bind (passes_okOrNotFound found) fun r => ?_
  refine blames_bind passes_clock fun now => ?_
  refine blames_bind (passes_core (mild_reclaim r now)) fun r' => ?_
  refine blames_bind (passes_ledger (.reclaimRedemption user seq)) fun outcome => ?_
  cases outcome with
  | confirmed => exact passes_redemptions (.update r')
  | submitted => exact blames_throw rfl
  | failed => exact blames_throw rfl

theorem passes_getRedemption (user : String) (seq : UInt64) :
    Passes (getRedemption user seq) := by
  refine blames_bind (blames_bind (passes_redemptions (.find user seq)) fun found =>
    passes_okOrNotFound found) fun r => ?_
  exact blames_bind passes_clock fun now => blames_pure _

theorem passes_current : Passes ReserveService.current := passes_effectiveReserve

theorem passes_run : Passes ReconciliationService.run := by
  refine blames_bind (passes_deposits .totalIssued) fun issued => ?_
  refine blames_bind (passes_redemptions .totalRedeemed) fun redeemed => ?_
  refine blames_bind passes_current fun state => ?_
  refine blames_bind passes_clock fun now => ?_
  refine blames_bind (passes_core (mild_reconcile _ _ _)) fun report => ?_
  exact blames_bind (passes_history (.record report)) fun _ => blames_pure _

/-- Errors after an answer of the ledger, of which some come to what it answered. -/
theorem passes_ledger_bind {m : LedgerPort} {f : m.Answer → Service α}
    (hf : ∀ a, Blames failure (fun e => Gentle e ∨ turned m a = some e) (f a)) :
    Passes (ledger m >>= f) := by
  refine fun h => tells_run_bind.mpr (tells_call.mpr fun b => ?_)
  cases b with
  | error e => exact fun e' he => .inl ⟨_, List.mem_cons_self, congrArg some (Except.error.inj he)⟩
  | ok a =>
      refine (hf a _).since.mono fun r h' ⟨hr, hsuf⟩ e he => ?_
      obtain hblamed | hgentle | hturned := hr e he
      · exact .inl hblamed
      · exact .inr hgentle
      · exact .inl ⟨_, hsuf.subset List.mem_cons_self, hturned⟩

theorem passes_publish (reserve : Thb) : Passes (ReserveService.attest.publish reserve) := by
  refine blames_bind (passes_deposits .totalEncumbered) fun encumbered => ?_
  refine passes_ledger_bind fun outcome => ?_
  cases outcome with
  | confirmed => exact blames_pure _
  | submitted => exact blames_throw (.inr rfl)
  | failed => exact blames_throw (.inl rfl)

theorem passes_attest (reserve : Thb) : Passes (ReserveService.attest reserve) := by
  refine blames_attempt passes_current (fun s => passes_publish reserve) fun e => ?_
  cases e with
  | unsupported text => exact .inr (passes_publish reserve)
  | _ => exact .inl rfl

theorem passes_quoted {x : TreasurySnapshot → CoreResult α}
    (hx : ∀ s, Refuses (fun e => Mild e ∨ s.params.validate = .error e) (x s)) :
    Passes (ledger .snapshot >>= fun s => core (x s)) := by
  refine passes_ledger_bind fun s => ?_
  cases hs : x s with
  | ok a => exact blames_pure a
  | error e =>
      refine blames_throw ((hx s e hs).imp id fun hbad => ?_)
      rw [turned, hbad]
      rfl

end Services

/-! ## Handlers -/

section Handlers

variable {α β : Type}

/-- The response of an error that is, or comes from, an answer of the history. -/
def Blamed (r : Response) (h : History Port Port.Reply) : Prop :=
  ∃ a ∈ h, ∃ e, failure a = some e ∧ r = (ApiError.ofPort e).intoResponse

/-- Whatever error the handler ends in. -/
abbrev Relays (x : Endpoint α) : Prop :=
  Blames (fun a => (failure a).map ApiError.ofPort) (fun e => e.status.isServerError = false) x

theorem relays_service {x : Service α} (hx : Passes x) : Relays (Endpoint.service x) := by
  refine fun h => tells_bind.mpr ((hx h).mono fun r h' hr e he => ?_)
  cases r with
  | ok a => cases he
  | error e' =>
      obtain rfl : ApiError.ofPort e' = e := Except.error.inj he
      refine (hr e' rfl).imp (fun ⟨a, ha, hfail⟩ => ⟨a, ha, ?_⟩) id
      exact congrArg (Option.map ApiError.ofPort) hfail

theorem relays_now : Relays Endpoint.now :=
  fun h => tells_bind.mpr (tells_call.mpr fun b e he => by cases he)

/-- A 5xx is an error, where no success is one. -/
theorem respond_blamed {x : Endpoint α} (hx : Relays x) {f : α → Response}
    (hf : ∀ a, (f a).status.isServerError = false) (h : History Port Port.Reply) :
    (x.respond f).Tells (fun r h' => r.status.isServerError = true → Blamed r h') h := by
  refine tells_bind.mpr ((hx h).mono fun r h' hr => ?_)
  cases r with
  | ok a => exact fun hs => absurd hs (by rw [hf a]; decide)
  | error e =>
      intro hs
      obtain ⟨a, ha, hfail⟩ | hmild := hr e rfl
      · obtain ⟨e', he', rfl⟩ := Option.map_eq_some_iff.mp hfail
        exact ⟨a, ha, e', he', rfl⟩
      · exact absurd hs (by rw [ApiError.intoResponse, hmild]; decide)

theorem respondOk_blamed {x : Endpoint α} (hx : Relays x) {f : α → Body}
    (h : History Port Port.Reply) :
    (x.respondOk f).Tells (fun r h' => r.status.isServerError = true → Blamed r h') h :=
  respond_blamed hx (fun _ => rfl) h

theorem relays_map {x : Service α} (hx : Passes x) (f : α → β) :
    Relays (Endpoint.service x >>= fun a => pure (f a)) :=
  blames_bind (relays_service hx) fun a => blames_pure (f a)

theorem tells_respond_map {R : Response → History Port Port.Reply → Prop} {x : Endpoint α}
    {g : α → β} {f : β → Response} {h : History Port Port.Reply}
    (hx : (x.respond fun a => f (g a)).Tells R h) :
    ((x >>= fun a => pure (g a)).respond f).Tells R h := by
  refine tells_bind.mpr (tells_run_bind.mpr ((tells_bind.mp hx).mono fun r h' hr => ?_))
  cases r with
  | ok a => exact hr
  | error e => exact hr

theorem depositResponse_mild (simulated : Bool) (o : IssuanceOutcome) :
    (depositResponse simulated o).1.isServerError = false := by
  cases o <;> rfl

theorem admin_blamed (state : AppState) (r : AdminRequest) (h : History Port Port.Reply) :
    (r.serve state).Tells (fun r h' => r.status.isServerError = true → Blamed r h') h := by
  cases r with
  | reserve =>
      exact respondOk_blamed (blames_bind (relays_service passes_current) fun s =>
        blames_bind relays_now fun now => blames_pure _) h
  | reconciliation =>
      exact respondOk_blamed (blames_bind (relays_service passes_run) fun r =>
        relays_map (passes_history .unhealthyCount) _) h
  | redemptionQueue =>
      refine respondOk_blamed (blames_bind (relays_service (passes_redemptions .pendingCount))
        fun pending => relays_map ?_ _) h
      exact blames_bind passes_clock fun now => passes_redemptions (.reclaimable now)
  | attest reserveMinor => exact respondOk_blamed (relays_map (passes_attest _) _) h
  | confirmRedemption user seq => exact respondOk_blamed (relays_service (passes_confirm _ _)) h
  | processPayout user seq => exact respondOk_blamed (relays_service (passes_processPayout _ _)) h

variable [Sha256]

theorem deposit_blamed (state : AppState) (headers : HeaderMap) (body : DepositWebhook)
    (h : History Port Port.Reply) :
    ((Request.deposit headers body).serve state).Tells
      (fun r h' => r.status.isServerError = true → Blamed r h') h := by
  rw [Request.serve, depositWebhook]
  split
  · exact fun hs => by cases hs
  · cases body.wallet with
    | none => exact fun hs => by cases hs
    | some wallet =>
        cases href : BankRef.new body.bankRef with
        | error e =>
            intro hs
            have hmild : (ApiError.ofCore e).status.isServerError = false :=
              mild_bankRef body.bankRef e href
            exact absurd hs (by rw [ApiError.intoResponse, hmild]; decide)
        | ok bankRef =>
            refine tells_respond_map (x := Endpoint.service (IssuanceService.handleDeposit bankRef
              ⟨body.amountMinor⟩ body.beneficiary wallet)) ?_
            exact respond_blamed (relays_service (passes_handleDeposit _ _ _ _))
              (fun o => depositResponse_mild _ o) h

/-- Every route. -/
theorem serve_blamed (state : AppState) (rq : Request) (h : History Port Port.Reply) :
    (rq.serve state).Tells (fun r h' => r.status.isServerError = true → Blamed r h') h := by
  cases rq with
  | health => exact fun hs => by cases hs
  | ready => exact tells_bind.mpr (tells_of_forall fun a h' hs => by cases hs)
  | requestRedemption user amountMinor =>
      exact respondOk_blamed (relays_map (passes_request _ _ _) _) h
  | getRedemption user seq => exact respondOk_blamed (relays_service (passes_getRedemption _ _)) h
  | reclaim user seq => exact respondOk_blamed (relays_service (passes_reclaim _ _)) h
  | quoteBuy grxInAtoms =>
      exact respondOk_blamed (relays_map (passes_quoted fun s => refuses_quoteBuy _ _ _) _) h
  | quoteSell thbcInMinor =>
      exact respondOk_blamed (relays_map (passes_quoted fun s => refuses_quoteSell _ _ _) _) h
  | deposit headers body => exact deposit_blamed state headers body h
  | admin headers r =>
      rw [Request.serve]
      cases hrole : requireAdminRole headers with
      | error e =>
          intro hs
          rw [ApiError.intoResponse, requireAdminRole_error hrole] at hs
          cases hs
      | ok u => exact admin_blamed state r h

end Handlers

/-! ## The 5xx of a run -/

section Runs

variable [Sha256]

/-- Behind every 5xx of a run is an answer that its own request was given: the response
is that answer's error, or what the answer comes to. -/
theorem server_error_blames (state : AppState) (tasks : List Task) (w : Tables)
    (ts : List (ℕ × Conditions)) :
    let c := (Tasks.start state tasks w).run Durable.exec ts
    ∀ i rq r, tasks[i]? = some (.request rq) → c.result i = some (.response r) →
      r.status.isServerError = true → Blamed r (own i c.log) :=
  fun _ rq _ htask hr => response_tells htask (serve_blamed state rq []) hr

end Runs

section Submitted

open Sample

/-- An attestation that is sent, and not seen on the chain. -/
def attesting : Task := .request (.admin [(adminRoleHeader, ⟨"admin".toUTF8.toList⟩)] (.attest 100))

def unseen : Conditions where
  answer
    | .ledger (.updateAttestation ..) => .ok .submitted
    | s => ample.answer s
  depositTie _ := 0
  redemptionTie _ := 0
  runTie _ := 0
  fault := none

abbrev submitted : Tasks :=
  (Tasks.start ⟨86400, true⟩ [attesting] ⟨[], [], []⟩).run Durable.exec
    (List.replicate 4 (0, unseen))

theorem server_error_submitted :
    submitted.result 0 = some (.response ⟨.serviceUnavailable, .error "transient"
      (PortError.transient
        "attestation submitted but not confirmed on-chain; re-send to verify").display⟩) ∧
    Blamed ⟨.serviceUnavailable, .error "transient"
      (PortError.transient
        "attestation submitted but not confirmed on-chain; re-send to verify").display⟩
      (own 0 submitted.log) := by
  have hresult : submitted.result 0 = some (.response ⟨.serviceUnavailable, .error "transient"
      (PortError.transient
        "attestation submitted but not confirmed on-chain; re-send to verify").display⟩) := by
    decide +kernel
  exact ⟨hresult, server_error_blames ⟨86400, true⟩ [attesting] ⟨[], [], []⟩
    (List.replicate 4 (0, unseen)) 0 _ _ rfl hresult rfl⟩

end Submitted

end Thbc.Server
