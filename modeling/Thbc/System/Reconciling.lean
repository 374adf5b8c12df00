import Thbc.System.Uses

/-!
# What a reconciliation reads

`ReconciliationService::run` reads the issued tally, the redeemed tally and the
supply in three calls, and records a report made of the three. `Reading` is how
far it has got.

The calls it may overlap with here, `handle_deposit`, `retry_held`, `confirm`
and `reclaim`, work on one record each, which they are called for. A `confirm`
finds out only after the burn whether the row could be confirmed; if not, it
ends in an error, and `Claim` keeps that in mind.
-/

namespace Thbc

open Thbc.Lib

/-- The record a call works on. -/
inductive Record where
  | deposit (nullifier : BankRefHash)
  | redemption (user : String) (seq : UInt64)
  deriving DecidableEq

variable [Sha256]

def Call.record : Call → Option Record
  | .handleDeposit bankRef _ _ _ | .retryHeld bankRef => some (.deposit bankRef.hash)
  | .confirm user seq | .reclaim user seq => some (.redemption user seq)
  | _ => none

omit [Sha256] in
/-- A reconciliation, or one of the calls that mint, burn or give back. -/
def Call.isTraffic : Call → Bool
  | .handleDeposit _ _ _ _ | .retryHeld _ | .confirm _ _ | .reclaim _ _
  | .reconcile => true
  | _ => false

namespace Reconciling

open Thbc.Service

variable {deltaSecs : Int64}

/-- How far a reconciliation has read. -/
inductive Reading where
  | unread
  | issued (issued : Thb)
  | tallied (issued redeemed : Thb)
  | sighted (issued redeemed supply : Thb)
  deriving DecidableEq

/-- What a confirm knows of its row, and whether it has burned for a row that
cannot be confirmed. -/
inductive Claim where
  | unread
  | found (r : Redemption)
  | spent
  deriving DecidableEq

def Reading.advance : Reading → Act Port Port.Reply → Reading
  | .unread, ⟨.deposits .totalIssued, .ok i⟩ => .issued i
  | .issued i, ⟨.redemptions .totalRedeemed, .ok r⟩ => .tallied i r
  | .tallied i r, ⟨.ledger .snapshot, .ok s⟩ => .sighted i r s.reserve.supply
  | q, _ => q

def Claim.advance : Claim → Act Port Port.Reply → Claim
  | .spent, _ => .spent
  | _, ⟨.redemptions (.find _ _), .ok (some r)⟩ => .found r
  | .found r, ⟨.ledger (.confirmRedemption _ _), .ok .confirmed⟩ =>
      if r.state.isPending then .found r else .spent
  | q, _ => q

/-- What a call asks about single records is about its own, it makes no new
redemption and burns for a confirm only. -/
def touches (call : Call) : Port → Prop
  | .deposits (.insert d) => call.record = some (.deposit d.nullifier)
  | .deposits (.find n) => call.record = some (.deposit n)
  | .redemptions (.find user seq) => call.record = some (.redemption user seq)
  | .redemptions (.insert _) => False
  | .ledger (.confirmRedemption user seq) => call = .confirm user seq
  | .history (.record _) => call = .reconcile
  | _ => True

/-- A report is recorded once the three figures are read, and its drift is
theirs. -/
def records (q : Reading) : Port → Prop
  | .history (.record report) => ∃ issued redeemed supply,
      q = .sighted issued redeemed supply ∧
        report.drift = (supply.toNat : ℤ) - ((issued.toNat : ℤ) - redeemed.toNat)
  | _ => True

/-- What the calls do, as far as the identity is concerned. -/
def grammar (call : Call) : Grammar Port Port.Reply (Reading × Claim) where
  start := (.unread, .unread)
  advance q a := (q.1.advance a, q.2.advance a)
  asks q s := touches call s ∧ records q.1 s
  ends _ := True
  hears _ _ := True

/-- A call that has burned in vain has failed. -/
def Honest (r : PortResult CallOutcome) (q : Reading × Claim) : Prop :=
  q.2 = .spent → ∃ e, r = .error e

/-! ## The calls -/

theorem touches_of_issuingPort {call : Call} {s : Port} (h : issuingPort s) :
    touches call s := by
  cases s with
  | deposits m => cases m <;> first | exact h.elim | trivial
  | redemptions m => exact h.elim
  | ledger m => cases m <;> first | exact h.elim | trivial
  | history m => exact h.elim
  | _ => trivial

theorem handleDeposit_touches (bankRef : BankRef) (amount : Thb)
    (beneficiary beneficiaryWallet : String) :
    (IssuanceService.handleDeposit bankRef amount beneficiary
      beneficiaryWallet).run.Uses
        (touches (.handleDeposit bankRef amount beneficiary beneficiaryWallet)) := by
  refine uses_run_bind (uses_clock trivial) fun now => ?_
  cases hobs : Deposit.observe bankRef amount beneficiary beneficiaryWallet now with
  | error e => trivial
  | ok d =>
      obtain ⟨-, -, rfl⟩ := Deposit.observe_ok.mp hobs
      refine uses_core_ok.mpr (uses_run_bind (uses_attempt (uses_call rfl))
        fun r => ?_)
      cases r with
      | error e =>
          cases e with
          | conflict text => exact uses_run_bind (uses_call rfl) fun _ => trivial
          | _ => trivial
      | ok u =>
          refine uses_run_bind (uses_call trivial) fun screen => ?_
          refine uses_run_bind (uses_core _) fun d' => ?_
          cases screen with
          | fail => exact uses_run_bind (uses_call trivial) fun _ => trivial
          | pass =>
              exact uses_run_bind (uses_call trivial) fun _ =>
                (attestAndIssue_uses _ _ _ _ _).mono fun _ => touches_of_issuingPort

theorem retryHeld_touches (bankRef : BankRef) :
    (IssuanceService.retryHeld bankRef).run.Uses (touches (.retryHeld bankRef)) := by
  refine uses_run_bind (uses_call rfl) fun found => ?_
  refine uses_run_bind (uses_okOrNotFound _) fun d => ?_
  by_cases hd : d.state = .screened
  · rw [if_neg (not_not.mpr hd)]
    refine uses_run_bind (uses_clock trivial) fun now => ?_
    refine uses_run_bind (effectiveReserve_uses.mono
      fun _ => touches_of_issuingPort) fun state => ?_
    cases state.checkIssuance d.amount now with
    | error e => trivial
    | ok v =>
        refine uses_run_bind (uses_core _) fun d' => ?_
        refine uses_run_bind (uses_call trivial) fun _ => ?_
        refine uses_run_bind (uses_call trivial) fun outcome => ?_
        cases outcome with
        | submitted => trivial
        | failed => trivial
        | confirmed =>
            refine uses_run_bind (uses_core _) fun d'' => ?_
            exact uses_run_bind (uses_call trivial) fun _ => trivial
  · rw [if_pos hd]
    trivial

theorem reclaim_touches (user : String) (seq : UInt64) :
    (RedemptionService.reclaim user seq).run.Uses (touches (.reclaim user seq)) := by
  refine uses_run_bind (uses_call rfl) fun found => ?_
  refine uses_run_bind (uses_okOrNotFound _) fun r => ?_
  refine uses_run_bind (uses_clock trivial) fun now => ?_
  refine uses_run_bind (uses_core _) fun r' => ?_
  refine uses_run_bind (uses_call trivial) fun outcome => ?_
  cases outcome with
  | confirmed => exact uses_call trivial
  | submitted => trivial
  | failed => trivial

omit [Sha256] in
theorem Claim.advance_ne_spent {q : Claim} {s : Port} {b : s.Reply}
    (hq : q ≠ .spent) (hs : ∀ user seq, s ≠ .ledger (.confirmRedemption user seq)) :
    q.advance ⟨s, b⟩ ≠ .spent := by
  unfold Claim.advance
  split
  · exact hq
  · simp
  · next heq =>
      obtain ⟨rfl, -⟩ := Sigma.mk.inj heq
      exact absurd rfl (hs _ _)
  · exact hq

/-- Where no confirm is made nothing is burned in vain, and nobody but a
reconciliation records. -/
theorem meets_of_touches {call : Call} {p : Prog Port Port.Reply (PortResult CallOutcome)}
    (hp : p.Uses (touches call)) (hconfirm : ∀ user seq, call ≠ .confirm user seq)
    (hrec : call ≠ .reconcile) {q : Reading × Claim} (hq : q.2 ≠ .spent) :
    p.Meets (grammar call).arena Honest q := by
  induction p generalizing q with
  | pure r => exact fun h => absurd h hq
  | request s k ih =>
      refine ⟨⟨hp.1, ?_⟩, ?_⟩
      · cases s with
        | history m =>
            cases m with
            | record report => exact absurd hp.1 hrec
            | _ => trivial
        | _ => trivial
      · intro b q' ⟨_, hq'⟩
        subst hq'
        refine ih b (hp.2 b) (Claim.advance_ne_spent hq ?_)
        intro user seq hs
        subst hs
        exact hconfirm user seq hp.1

theorem confirm_meets (user : String) (seq : UInt64) :
    (Call.prog deltaSecs (.confirm user seq)).Meets (grammar (.confirm user seq)).arena
      Honest (.unread, .unread) := by
  refine meets_run_bind.mpr
    (meets_redemptions ⟨rfl, trivial⟩ (fun e _ => ⟨e, rfl⟩) ?_)
  intro found _
  cases found with
  | none => exact fun _ => ⟨_, rfl⟩
  | some r =>
      refine meets_some.mpr (meets_ledger ⟨rfl, trivial⟩ (fun e _ => ⟨e, rfl⟩) ?_)
      intro o _
      cases o with
      | submitted => exact fun _ => ⟨_, rfl⟩
      | failed => exact fun _ => ⟨_, rfl⟩
      | confirmed =>
          have hq : Claim.advance (.found r)
              ⟨.ledger (.confirmRedemption user seq), .ok .confirmed⟩ =
                if r.state.isPending then .found r else .spent := rfl
          show (core r.confirm >>= _).run.Meets _ _ (_, Claim.advance (.found r) _)
          rw [hq]
          cases hp : r.state.isPending with
          | true =>
              rw [Redemption.confirm_ok.mpr ⟨hp, rfl⟩, if_pos rfl]
              refine meets_core_ok.mpr
                (Grammar.meets_call.mpr ⟨⟨trivial, trivial⟩, ?_⟩)
              intro b _
              cases b with
              | error e => exact fun _ => ⟨e, rfl⟩
              | ok u =>
                  intro h
                  cases h
          | false =>
              cases hc : r.confirm with
              | error e => exact fun _ => ⟨_, rfl⟩
              | ok r' =>
                  rw [(Redemption.confirm_ok.mp hc).1] at hp
                  cases hp

theorem reconcile_meets :
    (Call.prog deltaSecs .reconcile).Meets (grammar .reconcile).arena
      Honest (.unread, .unread) := by
  refine meets_run_bind.mpr
    (meets_deposits ⟨trivial, trivial⟩ (fun e _ => ⟨e, rfl⟩) ?_)
  intro issued _
  refine meets_redemptions ⟨trivial, trivial⟩ (fun e _ => ⟨e, rfl⟩) ?_
  intro redeemed _
  refine meets_run_bind.mpr
    (meets_ledger ⟨trivial, trivial⟩ (fun e _ => ⟨e, rfl⟩) ?_)
  intro s _
  refine meets_deposits ⟨trivial, trivial⟩ (fun e _ => ⟨e, rfl⟩) ?_
  intro enc _
  refine meets_now ⟨trivial, trivial⟩ ?_
  intro now
  show (core (reconcile ⟨issued, redeemed⟩ ⟨s.reserve.attestation, enc,
    s.reserve.supply⟩ now) >>= _).run.Meets _ _ _
  cases hrec : reconcile ⟨issued, redeemed⟩ ⟨s.reserve.attestation, enc,
      s.reserve.supply⟩ now with
  | error e => exact fun _ => ⟨_, rfl⟩
  | ok report =>
      refine meets_core_ok.mpr (meets_run_bind.mpr (Grammar.meets_call.mpr
        ⟨⟨rfl, issued, redeemed, s.reserve.supply, rfl, reconcile_drift hrec⟩, ?_⟩))
      intro b _
      cases b with
      | error e => exact fun _ => ⟨e, rfl⟩
      | ok u =>
          intro h
          cases h

/-- Every call of the traffic, from its beginning. -/
theorem call_meets {call : Call} (h : call.isTraffic = true) :
    (call.prog deltaSecs).Meets (grammar call).arena Honest (.unread, .unread) := by
  have hother : ∀ {call : Call}, (call.prog deltaSecs).Uses (touches call) →
      (∀ user seq, call ≠ .confirm user seq) → call ≠ .reconcile →
      (call.prog deltaSecs).Meets (grammar call).arena Honest (.unread, .unread) :=
    fun hp hconfirm hrec => meets_of_touches hp hconfirm hrec Claim.noConfusion
  cases call with
  | handleDeposit bankRef amount beneficiary wallet =>
      exact hother (uses_run_bind (handleDeposit_touches _ _ _ _) fun _ => trivial)
        (by simp) (by simp)
  | retryHeld bankRef =>
      exact hother (uses_run_bind (retryHeld_touches _) fun _ => trivial)
        (by simp) (by simp)
  | confirm user seq => exact confirm_meets user seq
  | reclaim user seq =>
      exact hother (uses_run_bind (reclaim_touches _ _) fun _ => trivial)
        (by simp) (by simp)
  | reconcile => exact reconcile_meets
  | _ => cases h

end Reconciling

end Thbc
