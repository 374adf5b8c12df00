import Thbc.Proofs.Answers
import Thbc.Proofs.Seen

/-!
# What a success says

Every answer in the 200s is true of what the ports have answered, from empty tables on.
What is reported of the request's own doing has been answered to the request itself: an
`escrowed` is a confirmed escrow, an `attested` a confirmed attestation, a quote the
price on a snapshot, and the views of the operator are of the figures that were read.
What is reported of a row was true when it was read, whoever has brought it about: an
`already_issued` has a confirmed mint behind it, and the state of a redemption what the
ledger has answered to it. Nothing is reported done because it was sent.
-/

namespace Thbc.Server

open Thbc.Lib Thbc.Service Thbc.Durable

section Tells

variable {user : String} {seq : UInt64} {amount : Thb} {h : History Port Port.Reply}

/-! ## What the off-ramp's methods return -/

/-- What the outcome of a request says of its escrow. -/
inductive Placed (h : History Port Port.Reply) (rd : Redemption) : RedemptionOutcome → Prop
  | escrowed (hescrow : ⟨.ledger (.escrowRedemption rd), .ok .confirmed⟩ ∈ h) :
      Placed h rd (.escrowed rd.user rd.seq)
  | pending (hescrow : ⟨.ledger (.escrowRedemption rd), .ok .submitted⟩ ∈ h) :
      Placed h rd (.pending rd.user rd.seq)
  | failed (hescrow : ⟨.ledger (.escrowRedemption rd), .ok .failed⟩ ∈ h) :
      Placed h rd (.failed "escrow transaction failed")

theorem Placed.mono {h' : History Port Port.Reply} {rd : Redemption} {o : RedemptionOutcome}
    (hplaced : Placed h rd o) (hh : h ⊆ h') : Placed h' rd o := by
  cases hplaced with
  | escrowed hescrow => exact .escrowed (hh hescrow)
  | pending hescrow => exact .pending (hh hescrow)
  | failed hescrow => exact .failed (hh hescrow)

theorem current_tells : ReserveService.current.run.Tells (fun r h' => Assembled h' r) h :=
  effectiveReserve_tells

/-- A report is what comes of the figures that were answered, and has been recorded. -/
inductive Reconciled (h : History Port Port.Reply) (report : ReconciliationReport) : Prop
  | intro {issued redeemed : Thb} {s : ReserveState} {now : Int64}
      (hissued : ⟨.deposits .totalIssued, .ok issued⟩ ∈ h)
      (hredeemed : ⟨.redemptions .totalRedeemed, .ok redeemed⟩ ∈ h)
      (hs : Assembled h (.ok s)) (hnow : ⟨.clock, now⟩ ∈ h)
      (hreport : reconcile ⟨issued, redeemed⟩ s now = .ok report)
      (hrecorded : ⟨.history (.record report), .ok ()⟩ ∈ h) : Reconciled h report

theorem Reconciled.mono {h' : History Port Port.Reply} {report : ReconciliationReport}
    (hr : Reconciled h report) (hh : h ⊆ h') : Reconciled h' report := by
  obtain ⟨hissued, hredeemed, hs, hnow, hreport, hrecorded⟩ := hr
  exact ⟨hh hissued, hh hredeemed, hs.mono hh, hh hnow, hreport, hh hrecorded⟩

theorem Reconciled.recorded {report : ReconciliationReport} (hr : Reconciled h report) :
    ⟨.history (.record report), .ok ()⟩ ∈ h := by
  obtain ⟨-, -, -, -, -, hrecorded⟩ := hr
  exact hrecorded

theorem run_tells :
    ReconciliationService.run.run.Tells
      (fun r h' => ∀ report, r = .ok report → Reconciled h' report) h := by
  refine meets_deposits trivial (fun _ _ hr => by cases hr) fun issued _ => ?_
  refine meets_redemptions trivial (fun _ _ hr => by cases hr) fun redeemed _ => ?_
  refine meets_run_bind.mpr (current_tells.since.mono fun r h₁ ⟨hs, hsuf⟩ => ?_)
  cases r with
  | error e => exact fun _ hr => by cases hr
  | ok state =>
      refine meets_now trivial fun now => ?_
      cases hrec : reconcile ⟨issued, redeemed⟩ state now with
      | error e => exact fun _ hr => by cases hr
      | ok report =>
          refine meets_core_ok.mpr (meets_run_bind.mpr (tells_call.mpr fun b => ?_))
          cases b with
          | error e => exact fun _ hr => by cases hr
          | ok u =>
              intro _ hr
              obtain rfl := Except.ok.inj hr
              refine ⟨mem_two_later (hsuf.subset ?_),
                mem_two_later (hsuf.subset List.mem_cons_self), hs.mono fun _ => mem_two_later,
                List.mem_cons_of_mem _ List.mem_cons_self, hrec, List.mem_cons_self⟩
              exact List.mem_cons_of_mem _ List.mem_cons_self

/-- A view is of a report that has been recorded before the unhealthy runs were counted. -/
def Viewed (simulated : Bool) (v : ReconciliationView) (h : History Port Port.Reply) : Prop :=
  ∃ report n h₁, v = .of report n simulated ∧
    h = ⟨.history .unhealthyCount, .ok n⟩ :: h₁ ∧ Reconciled h₁ report

theorem getReconciliation_tells {state : AppState} :
    Answers (Viewed state.simulated) (getReconciliation state) h := by
  refine tells_run_bind.mpr (tells_bind.mpr (run_tells.mono fun r h₁ hr => ?_))
  cases r with
  | error e => exact ofPort_not_success e
  | ok report =>
      refine tells_run_bind.mpr (tells_bind.mpr (tells_call.mpr fun b => ?_))
      cases b with
      | error e => exact ofPort_not_success e
      | ok n => exact ⟨report, n, h₁, rfl, rfl, hr report rfl⟩

theorem sweep_tells :
    RedemptionService.sweepReclaimable.run.Tells
      (fun r h' => ∀ due, r = .ok due →
        ∃ now, ⟨.clock, now⟩ ∈ h' ∧ ⟨.redemptions (.reclaimable now), .ok due⟩ ∈ h') h := by
  refine meets_now trivial fun now => tells_call.mpr fun b due hb => ?_
  exact ⟨now, List.mem_cons_of_mem _ List.mem_cons_self, hb ▸ List.mem_cons_self⟩

end Tells

section

variable [Sha256]

/-- Past the operator's gate. -/
theorem admin_tells {state : AppState} {headers : HeaderMap} {rq : AdminRequest}
    {R : Response → History Port Port.Reply → Prop} {h : History Port Port.Reply}
    (hrq : (rq.serve state).Tells (fun r h' => r.status.isSuccess = true → R r h') h) :
    ((Request.admin headers rq).serve state).Tells
      (fun r h' => r.status.isSuccess = true → R r h') h := by
  rw [Request.serve]
  cases hgate : requireAdminRole headers with
  | ok u => exact hrq
  | error e =>
      intro hs
      have hforbidden : e.intoResponse.status = .forbidden := requireAdminRole_error hgate
      rw [hforbidden] at hs
      cases hs

/-! ## What stands behind a success -/

/-- What has been answered, for a success to be true, where `own` is what the request has
gone through itself and `log` what everybody has. -/
inductive Stands (state : AppState) (log own : History Port Port.Reply) :
    Request → Response → Prop
  | health : Stands state log own .health ⟨.ok, .health state.simulated⟩
  | ready {s : ReserveState} {now : Int64} (hs : Assembled own (.ok s))
      (hnow : ⟨.clock, now⟩ ∈ own) :
      Stands state log own .ready
        ⟨.ok, .ready (s.attestation.isFresh now && !s.headroom.isZero) state.simulated⟩
  | unread {e : PortError} (hs : Assembled own (.error e)) :
      Stands state log own .ready ⟨.ok, .ready false state.simulated⟩
  | deposit {headers : HeaderMap} {body : DepositWebhook} {bankRef : BankRef} {wallet : String}
      {o : IssuanceOutcome} (href : BankRef.new body.bankRef = .ok bankRef)
      (hwallet : body.wallet = some wallet)
      (htold : Told bankRef ⟨body.amountMinor⟩ body.beneficiary wallet own o)
      -- Where the outcome is read off a row, it is the row of the reference, and is true.
      (hfound : ∀ d, ⟨.deposits (.find bankRef.hash), .ok (some d)⟩ ∈ own →
        d.nullifier = bankRef.hash ∧ d.state ≠ .disputed ∧ Claims log d) :
      Stands state log own (.deposit headers body)
        ⟨(depositResponse state.simulated o).1, .deposit (depositResponse state.simulated o).2⟩
  | requested {rd : Redemption} {o : RedemptionOutcome}
      (hfiled : ⟨.redemptions (.insert rd), .ok ()⟩ ∈ own) (hplaced : Placed own rd o) :
      Stands state log own (.requestRedemption rd.user rd.amount.minor)
        ⟨.ok, .redemption (redemptionResponse state.deltaSecs rd.user o)⟩
  | status {rd : Redemption} {now : Int64}
      (hfound : ⟨.redemptions (.find rd.user rd.seq), .ok (some rd)⟩ ∈ own)
      (hnow : ⟨.clock, now⟩ ∈ own) (hclaims : Payouts.Claims log rd) :
      Stands state log own (.getRedemption rd.user rd.seq) ⟨.ok, .redemptionStatus (.of rd now)⟩
  | reclaimed {user : String} {seq : UInt64}
      (hreturn : ⟨.ledger (.reclaimRedemption user seq), .ok .confirmed⟩ ∈ own) :
      Stands state log own (.reclaim user seq) ⟨.ok, .reclaimed⟩
  | quoteBuy {grxInAtoms : UInt64} {s : TreasurySnapshot} {q : ExchangeQuote}
      (hs : ⟨.ledger .snapshot, .ok s⟩ ∈ own)
      (hq : quoteGrxForThbc ⟨grxInAtoms⟩ s.params s.inventory = .ok q) :
      Stands state log own (.quoteBuy grxInAtoms) ⟨.ok,
        .quote ⟨q.grxIn.atoms, q.thbcOut.minor, q.fee.minor, false, quotedAgainstInventory⟩⟩
  | quoteSell {thbcInMinor : UInt64} {s : TreasurySnapshot} {q : ReverseQuote}
      (hs : ⟨.ledger .snapshot, .ok s⟩ ∈ own)
      (hq : quoteThbcForGrx ⟨thbcInMinor⟩ s.params s.inventory = .ok q) :
      Stands state log own (.quoteSell thbcInMinor) ⟨.ok,
        .quote ⟨q.thbcIn.minor, q.grxOut.atoms, q.fee.atoms, false, quotedAgainstInventory⟩⟩
  | reserve {headers : HeaderMap} {s : ReserveState} {now : Int64}
      (hs : Assembled own (.ok s)) (hnow : ⟨.clock, now⟩ ∈ own) :
      Stands state log own (.admin headers .reserve)
        ⟨.ok, .reserve (.of s now state.simulated)⟩
  | reconciliation {headers : HeaderMap} {v : ReconciliationView}
      (hviewed : Viewed state.simulated v own) :
      Stands state log own (.admin headers .reconciliation) ⟨.ok, .reconciliation v⟩
  | redemptionQueue {headers : HeaderMap} {pending : UInt32} {now : Int64}
      {due : List Redemption} (hpending : ⟨.redemptions .pendingCount, .ok pending⟩ ∈ own)
      (hnow : ⟨.clock, now⟩ ∈ own) (hdue : ⟨.redemptions (.reclaimable now), .ok due⟩ ∈ own)
      (hpast : ∀ rd ∈ due, PastDelta log now rd) :
      Stands state log own (.admin headers .redemptionQueue)
        ⟨.ok, .queue ⟨pending, due.length, due.map .of⟩⟩
  | attested {headers : HeaderMap} {reserveMinor : UInt64} {encumbered : Thb}
      (hread : ⟨.deposits .totalEncumbered, .ok encumbered⟩ ∈ own)
      (hattest : ⟨.ledger (.updateAttestation ⟨reserveMinor⟩ encumbered), .ok .confirmed⟩ ∈ own) :
      Stands state log own (.admin headers (.attest reserveMinor)) ⟨.ok, .attested reserveMinor⟩
  | confirmed {headers : HeaderMap} {user : String} {seq : UInt64}
      (hburn : ⟨.ledger (.confirmRedemption user seq), .ok .confirmed⟩ ∈ own) :
      Stands state log own (.admin headers (.confirmRedemption user seq)) ⟨.ok, .confirmed⟩
  | payoutQueued {headers : HeaderMap} {rd : Redemption}
      (hescrow : ⟨.ledger (.escrowRedemption rd), .ok .confirmed⟩ ∈ log)
      (hqueued : ⟨.payouts (.enqueue rd.user rd.seq rd.amount), .ok ()⟩ ∈ own) :
      Stands state log own (.admin headers (.processPayout rd.user rd.seq)) ⟨.ok, .payoutQueued⟩

section Runs

variable {state : AppState} {tasks : List Task}

end Runs

end

end Thbc.Server
