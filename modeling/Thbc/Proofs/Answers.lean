import Thbc.System.Server
import Thbc.Proofs.Backed
import Thbc.Proofs.References

/-!
# One 201 for a reference

A webhook that is answered 201 has filed the deposit itself, had it screened, and had
the ledger confirm the mint of its amount to its wallet; and no two webhooks for one
reference are answered so, however the requests overlap and wherever they stop, since
no two of them can file. Nothing is asked of the tables for that.
-/

namespace Thbc.Server

open Thbc.Lib Thbc.Service Thbc.Durable

section

variable [Sha256]

/-! ## Successes -/

omit [Sha256] in
theorem ofCore_not_success (e : CoreError) : (ApiError.ofCore e).status.isSuccess = false := by
  cases e <;> rfl

omit [Sha256] in
/-- No error is answered with a success. -/
theorem ofPort_not_success (e : PortError) : (ApiError.ofPort e).status.isSuccess = false := by
  cases e with
  | domain e => exact ofCore_not_success e
  | _ => rfl

section Handlers

variable {α β : Type} {x : Service α} {y : Endpoint α} {R : α → History Port Port.Reply → Prop}
  {h : History Port Port.Reply}

/-- What the handler returns is `R` of its history, and its errors are no successes. -/
def Answers (R : α → History Port Port.Reply → Prop) (y : Endpoint α)
    (h : History Port Port.Reply) : Prop :=
  y.run.Tells (fun r h' => match r with
    | .ok a => R a h'
    | .error e => e.status.isSuccess = false) h

omit [Sha256] in
theorem answers_service (hx : x.run.Tells (fun r h' => ∀ a, r = .ok a → R a h') h) :
    Answers R (Endpoint.service x) h := by
  refine tells_bind.mpr (hx.mono fun r h' hr => ?_)
  cases r with
  | ok a => exact hr a rfl
  | error e => exact ofPort_not_success e

omit [Sha256] in
theorem answers_map (hy : Answers R y h) (g : α → β) :
    Answers (fun b h' => ∃ a, R a h' ∧ b = g a) (y >>= fun a => pure (g a)) h := by
  refine tells_run_bind.mpr (hy.mono fun r h' hr => ?_)
  cases r with
  | ok a => exact ⟨a, hr, rfl⟩
  | error e => exact hr

omit [Sha256] in
/-- A success is what the handler returned. -/
theorem answers_respond (hy : Answers R y h) (f : α → Response) :
    (y.respond f).Tells
      (fun r h' => r.status.isSuccess = true → ∃ a, R a h' ∧ r = f a) h := by
  refine tells_bind.mpr (hy.mono fun r h' hr => ?_)
  cases r with
  | ok a => exact fun _ => ⟨a, hr, rfl⟩
  | error e =>
      intro hs
      have hno : e.status.isSuccess = false := hr
      exact absurd hs (by rw [ApiError.intoResponse, hno]; decide)

end Handlers

/-! ## What a deposit's outcome says of its calls -/

section Told

variable {bankRef : BankRef} {amount : Thb} {beneficiary wallet : String} {now : Int64}
  {n : BankRefHash} {h h' : History Port Port.Reply}

/-- The state of the reserve, as a call puts it together from two answers. -/
inductive Assembled (h : History Port Port.Reply) : PortResult ReserveState → Prop
  | state {snapshot : TreasurySnapshot} {encumbered : Thb}
      (hsnapshot : ⟨.ledger .snapshot, .ok snapshot⟩ ∈ h)
      (hencumbered : ⟨.deposits .totalEncumbered, .ok encumbered⟩ ∈ h) :
      Assembled h (.ok ⟨snapshot.reserve.attestation, encumbered, snapshot.reserve.supply⟩)
  | noSnapshot {e : PortError} (hsnapshot : ⟨.ledger .snapshot, .error e⟩ ∈ h) :
      Assembled h (.error e)
  | noTotal {e : PortError} (hencumbered : ⟨.deposits .totalEncumbered, .error e⟩ ∈ h) :
      Assembled h (.error e)

omit [Sha256] in
theorem Assembled.mono {r : PortResult ReserveState} (hr : Assembled h r) (hh : h ⊆ h') :
    Assembled h' r := by
  cases hr with
  | state hsnapshot hencumbered => exact .state (hh hsnapshot) (hh hencumbered)
  | noSnapshot hsnapshot => exact .noSnapshot (hh hsnapshot)
  | noTotal hencumbered => exact .noTotal (hh hencumbered)

/-- The deposit of a webhook has been filed, as it was observed at `now`, and its screen
answered. -/
structure Vetted (bankRef : BankRef) (amount : Thb) (beneficiary wallet : String)
    (verdict : ScreenOutcome) (now : Int64) (h : History Port Port.Reply) : Prop where
  clock : ⟨.clock, now⟩ ∈ h
  filed : ⟨.deposits (.insert ⟨bankRef, amount, beneficiary, wallet, .observed, now⟩), .ok ()⟩ ∈ h
  screened : ⟨.compliance (.screen beneficiary amount), .ok verdict⟩ ∈ h

omit [Sha256] in
theorem Vetted.mono {verdict : ScreenOutcome}
    (hv : Vetted bankRef amount beneficiary wallet verdict now h) (hh : h ⊆ h') :
    Vetted bankRef amount beneficiary wallet verdict now h' :=
  ⟨hh hv.clock, hh hv.filed, hh hv.screened⟩

/-- What the outcome of a deposit claims. -/
inductive Told (bankRef : BankRef) (amount : Thb) (beneficiary wallet : String)
    (h : History Port Port.Reply) : IssuanceOutcome → Prop
  | issued {now : Int64} (hvetted : Vetted bankRef amount beneficiary wallet .pass now h)
      (hmint : ⟨.ledger (.issue wallet amount bankRef.hash), .ok .confirmed⟩ ∈ h) :
      Told bankRef amount beneficiary wallet h (.issued amount)
  | refused {now : Int64} (hvetted : Vetted bankRef amount beneficiary wallet .fail now h) :
      Told bankRef amount beneficiary wallet h (.encumbered amount "compliance screen failed")
  | gated {now : Int64} {s : ReserveState} {e : CoreError}
      (hvetted : Vetted bankRef amount beneficiary wallet .pass now h)
      (hs : Assembled h (.ok s)) (hgate : s.checkIssuance amount now = .error e) :
      Told bankRef amount beneficiary wallet h (.held e.display)
  | submitted {now : Int64} (hvetted : Vetted bankRef amount beneficiary wallet .pass now h)
      (hmint : ⟨.ledger (.issue wallet amount bankRef.hash), .ok .submitted⟩ ∈ h) :
      Told bankRef amount beneficiary wallet h (.held "issuance submitted but not confirmed")
  | failed {now : Int64} (hvetted : Vetted bankRef amount beneficiary wallet .pass now h)
      (hmint : ⟨.ledger (.issue wallet amount bankRef.hash), .ok .failed⟩ ∈ h) :
      Told bankRef amount beneficiary wallet h (.held "issuance transaction failed")
  | alreadyIssued {d : Deposit}
      (hfound : ⟨.deposits (.find bankRef.hash), .ok (some d)⟩ ∈ h) (hd : d.state = .issued) :
      Told bankRef amount beneficiary wallet h .alreadyIssued
  | encumbered {d : Deposit}
      (hfound : ⟨.deposits (.find bankRef.hash), .ok (some d)⟩ ∈ h)
      (hd : d.isEncumbering = true) :
      Told bankRef amount beneficiary wallet h (.encumbered d.amount "previously encumbered")
  | incomplete {found : Option Deposit}
      (hfound : ⟨.deposits (.find bankRef.hash), .ok found⟩ ∈ h)
      (hd : ∀ d, found = some d → d.state ≠ .issued ∧ d.isEncumbering = false) :
      Told bankRef amount beneficiary wallet h
        (.held "duplicate bank_ref, prior attempt incomplete")

omit [Sha256] in
theorem effectiveReserve_tells :
    IssuanceService.effectiveReserve.run.Tells (fun r h' => Assembled h' r) h := by
  refine meets_ledger trivial (fun e => .noSnapshot List.mem_cons_self) fun s _ => ?_
  refine meets_deposits trivial (fun e => .noTotal List.mem_cons_self) fun encumbered _ => ?_
  exact .state (List.mem_cons_of_mem _ List.mem_cons_self) List.mem_cons_self

/-- From the gate on, once a deposit is filed and screened. -/
theorem attestAndIssue_tells (d : Deposit)
    (hvetted : Vetted bankRef amount beneficiary wallet .pass now h) :
    (IssuanceService.attestAndIssue d amount wallet bankRef.hash now).run.Tells
      (fun r h' => ∀ o, r = .ok o → Told bankRef amount beneficiary wallet h' o) h := by
  refine meets_run_bind.mpr (effectiveReserve_tells.since.mono fun r h₁ ⟨hs, hsuf⟩ => ?_)
  have hvetted₁ := hvetted.mono hsuf.subset
  cases r with
  | error e => exact fun o ho => by cases ho
  | ok s =>
      cases hg : s.checkIssuance amount now with
      | error err =>
          simp only [hg]
          intro o ho
          obtain rfl := Except.ok.inj ho
          exact .gated hvetted₁ hs hg
      | ok v =>
          cases hatt : d.markAttested with
          | error err =>
              simp only [hg]
              exact fun o ho => by cases ho
          | ok d' =>
              simp only [hg]
              refine meets_core_ok.mpr (meets_deposits trivial (fun _ _ ho => by cases ho) ?_)
              refine fun u _ => meets_ledger trivial (fun _ _ ho => by cases ho) fun o _ => ?_
              have hvetted₂ : ∀ a₁ a₂, Vetted bankRef amount beneficiary wallet .pass now
                  (a₂ :: a₁ :: h₁) := fun _ _ => hvetted₁.mono fun _ => mem_two_later
              cases o with
              | submitted =>
                  intro o ho
                  obtain rfl := Except.ok.inj ho
                  exact .submitted (hvetted₂ _ _) List.mem_cons_self
              | failed =>
                  intro o ho
                  obtain rfl := Except.ok.inj ho
                  exact .failed (hvetted₂ _ _) List.mem_cons_self
              | confirmed =>
                  cases hiss : d'.markIssued with
                  | error err =>
                      dsimp only
                      exact fun o ho => by cases ho
                  | ok d'' =>
                      dsimp only
                      refine meets_core_ok.mpr
                        (meets_deposits trivial (fun _ _ ho => by cases ho) fun u _ o ho => ?_)
                      obtain rfl := Except.ok.inj ho
                      exact .issued ((hvetted₂ _ _).mono (List.subset_cons_self _ _))
                        (List.mem_cons_of_mem _ List.mem_cons_self)

theorem screenAndIssue_tells (d : Deposit) (hnow : ⟨.clock, now⟩ ∈ h)
    (hfiled : ⟨.deposits (.insert ⟨bankRef, amount, beneficiary, wallet, .observed, now⟩),
      .ok ()⟩ ∈ h) :
    (IssuanceService.screenAndIssue d amount beneficiary wallet bankRef.hash now).run.Tells
      (fun r h' => ∀ o, r = .ok o → Told bankRef amount beneficiary wallet h' o) h := by
  refine meets_run_bind.mpr (tells_call.mpr fun b => ?_)
  rcases b with e | verdict
  · exact fun o ho => by cases ho
  · have hvetted : Vetted bankRef amount beneficiary wallet verdict now
        (⟨.compliance (.screen beneficiary amount), .ok verdict⟩ :: h) :=
      ⟨List.mem_cons_of_mem _ hnow, List.mem_cons_of_mem _ hfiled, List.mem_cons_self⟩
    cases hs : d.screen verdict with
    | error err =>
        simp only [hs]
        exact fun o ho => by cases ho
    | ok d' =>
        simp only [hs]
        cases verdict with
        | fail =>
            refine meets_core_ok.mpr (meets_deposits trivial (fun _ _ he => by cases he) ?_)
            intro u _ o ho
            obtain rfl := Except.ok.inj ho
            exact .refused (hvetted.mono (List.subset_cons_self _ _))
        | pass =>
            refine meets_core_ok.mpr (meets_deposits trivial (fun _ _ he => by cases he) ?_)
            exact fun u _ => attestAndIssue_tells d' (hvetted.mono (List.subset_cons_self _ _))

/-- A replay is told of the row that is there. -/
theorem replay_told {found : Option Deposit}
    (hfound : ⟨.deposits (.find bankRef.hash), .ok found⟩ ∈ h) :
    Told bankRef amount beneficiary wallet h (IssuanceService.replay found) := by
  cases found with
  | none =>
      rw [IssuanceService.replay]
      exact .incomplete hfound fun d hd => by cases hd
  | some d =>
      rw [IssuanceService.replay]
      split
      · next hd => exact .alreadyIssued hfound hd
      · next hopen =>
          split
          · next hd => exact .encumbered hfound hd
          · next hfree =>
              refine .incomplete hfound fun d' hd' => ?_
              obtain rfl := Option.some.inj hd'
              exact ⟨hopen, Bool.eq_false_iff.mpr hfree⟩

theorem handleDeposit_tells :
    (IssuanceService.handleDeposit bankRef amount beneficiary wallet).run.Tells
      (fun r h' => ∀ o, r = .ok o → Told bankRef amount beneficiary wallet h' o) h := by
  refine meets_now trivial fun now => ?_
  cases hobs : Deposit.observe bankRef amount beneficiary wallet now with
  | error e => exact fun o ho => by cases ho
  | ok d =>
      obtain ⟨-, -, rfl⟩ := Deposit.observe_ok.mp hobs
      refine meets_core_ok.mpr (meets_run_bind.mpr (meets_attempt.mpr (tells_call.mpr fun b => ?_)))
      rcases b with e | u
      · cases e with
        | conflict text =>
            refine meets_deposits trivial (fun _ _ he => by cases he) fun found _ o ho => ?_
            obtain rfl := Except.ok.inj ho
            exact replay_told List.mem_cons_self
        | _ => exact fun o ho => by cases ho
      · exact screenAndIssue_tells _ (List.mem_cons_of_mem _ List.mem_cons_self)
          List.mem_cons_self

/-- A webhook that is let through, and what comes of its deposit. -/
theorem deposit_tells {state : AppState} {headers : HeaderMap} {body : DepositWebhook} :
    ((depositWebhook state headers body).respond fun r => ⟨r.1, .deposit r.2⟩).Tells
      (fun r h' => r.status.isSuccess = true →
        ∃ bankRef wallet o, BankRef.new body.bankRef = .ok bankRef ∧ body.wallet = some wallet ∧
          Told bankRef ⟨body.amountMinor⟩ body.beneficiary wallet h' o ∧
          r = ⟨(depositResponse state.simulated o).1,
            .deposit (depositResponse state.simulated o).2⟩) h := by
  rw [depositWebhook]
  split
  · exact fun hs => by cases hs
  · cases hwallet : body.wallet with
    | none => exact fun hs => by cases hs
    | some wallet =>
        cases href : BankRef.new body.bankRef with
        | error e =>
            obtain ⟨-, rfl⟩ := BankRef.new_error.mp href
            exact fun hs => by cases hs
        | ok bankRef =>
            refine (answers_respond (answers_map (answers_service handleDeposit_tells)
              (depositResponse state.simulated)) fun r => ⟨r.1, .deposit r.2⟩).mono ?_
            intro r h' hr hs
            obtain ⟨_, ⟨o, ho, rfl⟩, rfl⟩ := hr hs
            exact ⟨bankRef, wallet, o, rfl, rfl, ho, rfl⟩

end Told

/-! ## At most one of them has filed -/

section Once

variable {α : Type} {w : Tables} {d : Deposit}

/-- A row stays where it is. -/
theorem keys_kept (e : Conditions) (s : Port) {row : DepositRow} (hrow : row ∈ w.deposits) :
    ∃ row' ∈ (Durable.exec e s w).2.deposits, row'.bankRefHash = row.bankRefHash := by
  cases s with
  | deposits m =>
      obtain ⟨r, rows', hx, hr⟩ := exec_deposits e m w
      rw [hx]
      show ∃ row' ∈ rows', _
      cases m with
      | insert d =>
          obtain ⟨rfl, -⟩ | ⟨-, -, rfl⟩ := Intake.replies_insert hr
          · exact ⟨row, hrow, rfl⟩
          · exact ⟨row, List.mem_append_left _ hrow, rfl⟩
      | update d =>
          obtain ⟨rfl, -⟩ | ⟨-, rfl⟩ := replies_written hr
          · exact ⟨row, hrow, rfl⟩
          · exact ⟨_, List.mem_map_of_mem hrow, (touched_key d row).1⟩
      | _ =>
          obtain rfl := replies_read (fun _ => rfl) hr
          exact ⟨row, hrow, rfl⟩
  | _ => exact ⟨row, hrow, rfl⟩

/-- To file is to be the first. -/
theorem filed_first {e : Conditions}
    (h : (Durable.exec e (.deposits (.insert d)) w).1 = .ok ()) :
    (∀ row ∈ w.deposits, row.bankRefHash ≠ d.nullifier.toHex) ∧
      ∃ row ∈ (Durable.exec e (.deposits (.insert d)) w).2.deposits,
        row.bankRefHash = d.nullifier.toHex := by
  obtain ⟨r, rows', hx, hr⟩ := exec_deposits e (.insert d) w
  rw [hx] at h ⊢
  obtain ⟨-, hne⟩ | ⟨-, hfree, rfl⟩ := Intake.replies_insert hr
  · exact absurd h hne
  · exact ⟨hfree, .of d, List.mem_append_right _ List.mem_cons_self, rfl⟩

/-- A reference has been filed by one program at most, and then it has its row. -/
structure FiledOnce (c : Pool Port Port.Reply α Tables) : Prop where
  row : ∀ i d, (i, ⟨.deposits (.insert d), .ok ()⟩) ∈ c.log →
    ∃ row ∈ c.world.deposits, row.bankRefHash = d.nullifier.toHex
  once : ∀ i j d d', (i, ⟨.deposits (.insert d), .ok ()⟩) ∈ c.log →
    (j, ⟨.deposits (.insert d'), .ok ()⟩) ∈ c.log → d.nullifier = d'.nullifier → i = j

theorem FiledOnce.step {c : Pool Port Port.Reply α Tables} (h : FiledOnce c)
    (t : ℕ × Conditions) : FiledOnce (c.step Durable.exec t) := by
  cases hp : c.pending t.1 with
  | none =>
      rw [Pool.step_of_pending_none hp]
      exact h
  | some s =>
      obtain ⟨hworld, hlog⟩ := Pool.step_of_pending Durable.exec hp
      -- What is filed by this step, if anything is, is not filed yet.
      have hnew : ∀ i d, (i, ⟨.deposits (.insert d), .ok ()⟩) =
          (t.1, (⟨s, (Durable.exec t.2 s c.world).1⟩ : Act Port Port.Reply)) →
          i = t.1 ∧ (∀ row ∈ c.world.deposits, row.bankRefHash ≠ d.nullifier.toHex) ∧
            ∃ row ∈ (Durable.exec t.2 s c.world).2.deposits,
              row.bankRefHash = d.nullifier.toHex := by
        intro i d heq
        obtain ⟨hi, ha⟩ := Prod.mk.inj heq
        obtain ⟨rfl, hb⟩ := Sigma.mk.inj ha
        exact ⟨hi, filed_first (eq_of_heq hb).symm⟩
      refine ⟨fun i d hmem => ?_, fun i j d d' hi hj hd => ?_⟩
      · rw [hlog] at hmem
        rw [hworld]
        obtain heq | hmem := List.mem_cons.mp hmem
        · exact (hnew i d heq).2.2
        · obtain ⟨row, hrow, hkey⟩ := h.row i d hmem
          obtain ⟨row', hrow', hsame⟩ := keys_kept t.2 s hrow
          exact ⟨row', hrow', hsame.trans hkey⟩
      · rw [hlog] at hi hj
        obtain hi | hi := List.mem_cons.mp hi
        · obtain hj | hj := List.mem_cons.mp hj
          · exact (hnew i d hi).1.trans (hnew j d' hj).1.symm
          · obtain ⟨row, hrow, hkey⟩ := h.row j d' hj
            exact absurd (hkey.trans (congrArg _ hd.symm)) ((hnew i d hi).2.1 row hrow)
        · obtain hj | hj := List.mem_cons.mp hj
          · obtain ⟨row, hrow, hkey⟩ := h.row i d hi
            exact absurd (hkey.trans (congrArg _ hd)) ((hnew j d' hj).2.1 row hrow)
          · exact h.once i j d d' hi hj hd

theorem filedOnce_run {c : Pool Port Port.Reply α Tables} (h : FiledOnce c)
    (ts : List (ℕ × Conditions)) : FiledOnce (c.run Durable.exec ts) :=
  Pool.run_induct (fun _ t hc _ => hc.step t) (Pool.along_true _ c ts) h

end Once

/-! ## The answers of a run -/

section Runs

variable {state : AppState} {tasks : List Task} {w : Tables} {ts : List (ℕ × Conditions)}

/-- What a response claims is true of what its request has gone through. -/
theorem response_tells {R : Response → History Port Port.Reply → Prop} {i : ℕ} {rq : Request}
    {r : Response} (htask : tasks[i]? = some (.request rq)) (hrq : (rq.serve state).Tells R [])
    (hr : ((Tasks.start state tasks w).run Durable.exec ts).result i = some (.response r)) :
    R r (own i ((Tasks.start state tasks w).run Durable.exec ts).log) := by
  have hprog : (Task.prog state (.request rq)).Tells (fun o h => ∀ r, o = .response r → R r h) [] :=
    tells_bind.mpr (hrq.mono fun a h hR r heq => Outcome.response.inj heq ▸ hR)
  exact result_tells htask hprog hr r rfl

/-- The request has filed the deposit, and the mint of its amount to its wallet has been
confirmed to it. -/
structure Minted (body : DepositWebhook) (bankRef : BankRef) (wallet : String)
    (h : History Port Port.Reply) : Prop where
  filed : ∃ d : Deposit, d.nullifier = bankRef.hash ∧ ⟨.deposits (.insert d), .ok ()⟩ ∈ h
  passed : ⟨.compliance (.screen body.beneficiary ⟨body.amountMinor⟩), .ok .pass⟩ ∈ h
  minted : ⟨.ledger (.issue wallet ⟨body.amountMinor⟩ bankRef.hash), .ok .confirmed⟩ ∈ h

theorem minted_of_created {i : ℕ} {headers : HeaderMap} {body : DepositWebhook} {r : Response}
    (htask : tasks[i]? = some (.request (.deposit headers body)))
    (hr : ((Tasks.start state tasks w).run Durable.exec ts).result i = some (.response r))
    (hs : r.status = .created) :
    ∃ bankRef wallet, BankRef.new body.bankRef = .ok bankRef ∧ body.wallet = some wallet ∧
      Minted body bankRef wallet
        (own i ((Tasks.start state tasks w).run Durable.exec ts).log) := by
  obtain ⟨bankRef, wallet, o, href, hwallet, htold, rfl⟩ :=
    response_tells htask deposit_tells hr (by rw [hs]; decide)
  cases htold with
  | issued hvetted hmint =>
      exact ⟨bankRef, wallet, href, hwallet, ⟨_, rfl, hvetted.filed⟩, hvetted.screened, hmint⟩
  | _ => cases hs

/-- At most one webhook for a reference is answered 201, however the requests overlap and
wherever they stop, and it is the one that has filed the deposit and had it minted. -/
theorem created_at_most_once (state : AppState) (tasks : List Task) (w : Tables)
    (ts : List (ℕ × Conditions)) :
    let c := (Tasks.start state tasks w).run Durable.exec ts
    (∀ i headers body r, tasks[i]? = some (.request (.deposit headers body)) →
      c.result i = some (.response r) → r.status = .created →
      ∃ bankRef wallet, BankRef.new body.bankRef = .ok bankRef ∧ body.wallet = some wallet ∧
        Minted body bankRef wallet (own i c.log)) ∧
    ∀ i j headers headers' body body' r r' bankRef bankRef',
      tasks[i]? = some (.request (.deposit headers body)) →
      tasks[j]? = some (.request (.deposit headers' body')) →
      c.result i = some (.response r) → c.result j = some (.response r') →
      r.status = .created → r'.status = .created →
      BankRef.new body.bankRef = .ok bankRef → BankRef.new body'.bankRef = .ok bankRef' →
      bankRef.hash = bankRef'.hash → i = j := by
  intro c
  refine ⟨fun i headers body r htask hr hs => minted_of_created htask hr hs, ?_⟩
  intro i j headers headers' body body' r r' bankRef bankRef' hi hj hr hr' hs hs' hb hb' hhash
  obtain ⟨b, wallet, href, -, hminted⟩ := minted_of_created hi hr hs
  obtain ⟨b', wallet', href', -, hminted'⟩ := minted_of_created hj hr' hs'
  obtain ⟨d, hd, hfiled⟩ := hminted.filed
  obtain ⟨d', hd', hfiled'⟩ := hminted'.filed
  obtain rfl := Except.ok.inj (hb.symm.trans href)
  obtain rfl := Except.ok.inj (hb'.symm.trans href')
  have honce : FiledOnce c := filedOnce_run
    ⟨fun _ _ h => absurd h List.not_mem_nil, fun _ _ _ _ h => absurd h List.not_mem_nil⟩ ts
  exact honce.once i j d d' (mem_own.mp hfiled) (mem_own.mp hfiled')
    (hd.trans (hhash.trans hd'.symm))

end Runs

end

/-! ## A webhook and its redelivery -/

section Redelivered

open Sample

/-- A deposit of one hundred satang for alice, signed. -/
def webhook : Task :=
  .request (.deposit [(signatureHeader, ⟨[]⟩)] ⟨"SCB-1", 100, "alice", some "alice"⟩)

/-- A moment at which everybody agrees. -/
def agreed : Conditions where
  answer
    | .compliance _ => .ok .pass
    | .ledger (.issue ..) => .ok .confirmed
    | s => ample.answer s
  depositTie _ := 0
  redemptionTie _ := 0
  runTie _ := 0
  fault := none

/-- The webhook, and then the same again. -/
def turns : List (ℕ × Conditions) :=
  List.replicate 9 (0, agreed) ++ List.replicate 3 (1, agreed)

abbrev redelivered : Tasks :=
  (Tasks.start ⟨86400, true⟩ [webhook, webhook] ⟨[], [], []⟩).run Durable.exec turns

theorem created_redelivered :
    redelivered.result 0 = some (.response ⟨.created,
      .deposit ⟨"issued", "THBC issued to beneficiary", some 100, true⟩⟩) ∧
    ∃ bankRef wallet, BankRef.new "SCB-1" = .ok bankRef ∧ wallet = "alice" ∧
      Minted ⟨"SCB-1", 100, "alice", some "alice"⟩ bankRef wallet (own 0 redelivered.log) := by
  have hresult : redelivered.result 0 = some (.response ⟨.created,
      .deposit ⟨"issued", "THBC issued to beneficiary", some 100, true⟩⟩) := by decide +kernel
  obtain ⟨bankRef, wallet, href, hwallet, hminted⟩ :=
    (created_at_most_once ⟨86400, true⟩ [webhook, webhook] ⟨[], [], []⟩ turns).1 0 _ _ _ rfl
      hresult rfl
  refine ⟨hresult, bankRef, wallet, href, ?_, hminted⟩
  exact Option.some.inj (hwallet.symm.trans (by decide +kernel))

example : redelivered.result 1 = some (.response ⟨.ok, .deposit ⟨"already_issued",
    "duplicate bank_ref; no second issuance (F3)", none, true⟩⟩) := by decide +kernel

end Redelivered

end Thbc.Server
