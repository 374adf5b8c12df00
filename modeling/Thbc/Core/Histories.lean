import Thbc.Core.Deposit
import Thbc.Core.Redemption
import Thbc.Lib.Record

/-!
# Deposits and redemptions under any calls

The transition methods of `crates/thbc-core/src/deposit.rs` and
`crates/thbc-core/src/redemption.rs` as data, so that a client that calls them
in any order, with any arguments, is a list of them. `invoke` is the method as
a function to the new record. In the source the methods assign to `self`;
`assign` writes them that way, and `assign_implements` says that it comes to the
same: a method that refuses has assigned nothing.

`Goes` is the diagram of the states: which calls are answered `Ok` in which
state, and what state they leave. Facts about whole histories are proved on the
diagram and not on the methods.
-/

namespace Thbc

open Thbc.Lib

namespace Deposit

inductive Method where
  | screen (outcome : ScreenOutcome)
  | dispute
  | resolveDispute (settled : Thb)
  | markAttested
  | markIssued
  deriving DecidableEq

def invoke (d : Deposit) : Method → CoreResult Deposit
  | .screen outcome => d.screen outcome
  | .dispute => d.dispute
  | .resolveDispute settled => d.resolveDispute settled
  | .markAttested => d.markAttested
  | .markIssued => d.markIssued

/-- The methods as the source writes them, on `&mut self`. -/
def assign : Method → Mut CoreError Deposit Unit
  | .screen outcome => do
      let target := screenTarget outcome
      MonadExcept.ofExcept ((← get).expect .observed target)
      modify fun d => { d with state := target }
  | .dispute => do
      match (← get).state with
      | .observed | .screened => modify fun d => { d with state := .disputed }
      | other => throw (.invalidDepositTransition other.asStr
          DepositState.disputed.asStr)
  | .resolveDispute settled => do
      if settled.isZero then throw .zeroAmount
      MonadExcept.ofExcept ((← get).expect .disputed .screened)
      modify fun d => { d with amount := settled }
      modify fun d => { d with state := .screened }
  | .markAttested => do
      MonadExcept.ofExcept ((← get).expect .screened .attested)
      modify fun d => { d with state := .attested }
  | .markIssued => do
      MonadExcept.ofExcept ((← get).expect .attested .issued)
      modify fun d => { d with state := .issued }

theorem assign_implements (m : Method) :
    (assign m).Implements fun d => d.invoke m := by
  intro d
  obtain ⟨bankRef, amount, beneficiary, wallet, state, observedAt⟩ := d
  cases m with
  | screen outcome => cases state <;> rfl
  | dispute => cases state <;> rfl
  | resolveDispute settled =>
      simp only [assign, invoke, resolveDispute]
      cases settled.isZero with
      | true => rfl
      | false => cases state <;> rfl
  | markAttested => cases state <;> rfl
  | markIssued => cases state <;> rfl

/-! ## What a deposit goes through -/

/-- What the webhook said and nothing changes. -/
def origin (d : Deposit) : BankRef × String × String × Int64 :=
  (d.bankRef, d.beneficiary, d.beneficiaryWallet, d.observedAt)

theorem invoke_origin {d d' : Deposit} {m : Method} (h : d.invoke m = .ok d') :
    d'.origin = d.origin := by
  cases m with
  | screen outcome => rw [(screen_ok.mp h).2]; rfl
  | dispute => rw [(dispute_ok.mp h).2]; rfl
  | resolveDispute settled => rw [(resolveDispute_ok.mp h).2.2]; rfl
  | markAttested => rw [(markAttested_ok.mp h).2]; rfl
  | markIssued => rw [(markIssued_ok.mp h).2]; rfl

theorem origin_after (d : Deposit) (ms : List Method) :
    (after invoke d ms).origin = d.origin :=
  after_induct (J := fun d' : Deposit => d'.origin = d.origin)
    (fun _ _ _ _ h hm => (invoke_origin hm).trans h) rfl

theorem amount_pos_after {d : Deposit} (hd : 0 < d.amount.toNat) (ms : List Method) :
    0 < (after invoke d ms).amount.toNat := by
  refine after_induct (J := fun d' : Deposit => 0 < d'.amount.toNat)
    (fun d m d' _ h hm => ?_) hd
  cases m with
  | screen outcome => rw [(screen_ok.mp hm).2]; exact h
  | dispute => rw [(dispute_ok.mp hm).2]; exact h
  | resolveDispute settled =>
      rw [(resolveDispute_ok.mp hm).2.2]
      exact (resolveDispute_ok.mp hm).1
  | markAttested => rw [(markAttested_ok.mp hm).2]; exact h
  | markIssued => rw [(markIssued_ok.mp hm).2]; exact h

/-- The states a call leads from and to. -/
inductive Goes : DepositState → Method → DepositState → Prop where
  | pass : Goes .observed (.screen .pass) .screened
  | fail : Goes .observed (.screen .fail) .encumbered
  | disputeObserved : Goes .observed .dispute .disputed
  | disputeScreened : Goes .screened .dispute .disputed
  | resolve (settled : Thb) : Goes .disputed (.resolveDispute settled) .screened
  | attest : Goes .screened .markAttested .attested
  | issue : Goes .attested .markIssued .issued

theorem invoke_goes {d d' : Deposit} {m : Method} (h : d.invoke m = .ok d') :
    Goes d.state m d'.state := by
  cases m with
  | screen outcome =>
      obtain ⟨hs, rfl⟩ := screen_ok.mp h
      rw [hs]
      cases outcome with
      | pass => exact .pass
      | fail => exact .fail
  | dispute =>
      obtain ⟨hs | hs, rfl⟩ := dispute_ok.mp h
      · rw [hs]; exact .disputeObserved
      · rw [hs]; exact .disputeScreened
  | resolveDispute settled =>
      obtain ⟨-, hs, rfl⟩ := resolveDispute_ok.mp h
      rw [hs]
      exact .resolve settled
  | markAttested =>
      obtain ⟨hs, rfl⟩ := markAttested_ok.mp h
      rw [hs]
      exact .attest
  | markIssued =>
      obtain ⟨hs, rfl⟩ := markIssued_ok.mp h
      rw [hs]
      exact .issue

end Deposit

namespace Redemption

inductive Method where
  | applyEscrowOutcome (outcome : ConfirmOutcome) (now : Int64)
  | enqueuePayout
  | confirm
  | reclaim (now : Int64)
  deriving DecidableEq

def invoke (r : Redemption) : Method → CoreResult Redemption
  | .applyEscrowOutcome outcome now => r.applyEscrowOutcome outcome now
  | .enqueuePayout => r.enqueuePayout
  | .confirm => r.confirm
  | .reclaim now => r.reclaim now

/-- The methods as the source writes them, on `&mut self`. -/
def assign : Method → Mut CoreError Redemption Unit
  | .applyEscrowOutcome outcome now => do
      let r ← get
      if r.state ≠ .requested then throw (r.reject .escrowed)
      match outcome with
      | .confirmed =>
          modify fun r => { r with state := .escrowed }
          modify fun r => { r with escrowedAt := some now }
      | .failed => modify fun r => { r with state := .failed }
      | .submitted => return ()
  | .enqueuePayout => do
      let r ← get
      if r.state ≠ .escrowed then throw (.burnNotConfirmed r.state.asStr)
      modify fun r => { r with state := .payoutQueued }
  | .confirm => do
      let r ← get
      match r.state with
      | .escrowed | .payoutQueued => modify fun r => { r with state := .confirmed }
      | _ => throw (r.reject .confirmed)
  | .reclaim now => do
      let r ← get
      if !r.state.isPending then throw (r.reject .reclaimed)
      let elapsed := (r.escrowAge now).getD 0
      if elapsed < r.deltaSecs then throw (.timelockNotExpired elapsed r.deltaSecs)
      modify fun r => { r with state := .reclaimed }

theorem assign_implements (m : Method) :
    (assign m).Implements fun r => r.invoke m := by
  intro r
  cases m with
  | applyEscrowOutcome outcome now =>
      obtain ⟨user, seq, amount, state, requestedAt, escrowedAt, deltaSecs⟩ := r
      cases state <;> cases outcome <;> rfl
  | enqueuePayout =>
      obtain ⟨user, seq, amount, state, requestedAt, escrowedAt, deltaSecs⟩ := r
      cases state <;> rfl
  | confirm =>
      obtain ⟨user, seq, amount, state, requestedAt, escrowedAt, deltaSecs⟩ := r
      cases state <;> rfl
  | reclaim now =>
      show ((do
        if !r.state.isPending then throw (r.reject .reclaimed)
        let elapsed := (r.escrowAge now).getD 0
        if elapsed < r.deltaSecs then throw (.timelockNotExpired elapsed r.deltaSecs)
        modify fun r => { r with state := .reclaimed } :
          Mut CoreError Redemption Unit)).run.run r = settle r (r.reclaim now)
      unfold reclaim
      by_cases hp : (!r.state.isPending) = true
      · rw [if_pos hp, if_pos hp]
        rfl
      · rw [if_neg hp, if_neg hp]
        by_cases hlt : (r.escrowAge now).getD 0 < r.deltaSecs
        · simp only [if_pos hlt]
          rfl
        · simp only [if_neg hlt]
          rfl

/-! ## What a redemption goes through -/

/-- What the user signed and nothing changes. -/
def origin (r : Redemption) : (String × UInt64) × Thb × Int64 × Int64 :=
  (r.key, r.amount, r.requestedAt, r.deltaSecs)

theorem invoke_origin {r r' : Redemption} {m : Method} (h : r.invoke m = .ok r') :
    r'.origin = r.origin := by
  cases m with
  | applyEscrowOutcome outcome now =>
      obtain ⟨s, since, rfl⟩ := applyEscrowOutcome_cases h
      rfl
  | enqueuePayout => rw [(enqueuePayout_ok.mp h).2]; rfl
  | confirm => rw [(confirm_ok.mp h).2]; rfl
  | reclaim now => rw [(reclaim_ok.mp h).2.2]; rfl

theorem origin_after (r : Redemption) (ms : List Method) :
    (after invoke r ms).origin = r.origin :=
  after_induct (J := fun r' : Redemption => r'.origin = r.origin)
    (fun _ _ _ _ h hm => (invoke_origin hm).trans h) rfl

/-- The states a call leads from and to. -/
inductive Goes : RedemptionState → Method → RedemptionState → Prop where
  | land (now : Int64) : Goes .requested (.applyEscrowOutcome .confirmed now) .escrowed
  | fail (now : Int64) : Goes .requested (.applyEscrowOutcome .failed now) .failed
  | wait (now : Int64) : Goes .requested (.applyEscrowOutcome .submitted now) .requested
  | enqueue : Goes .escrowed .enqueuePayout .payoutQueued
  | confirm {s : RedemptionState} (hs : s.isPending = true) : Goes s .confirm .confirmed
  | reclaim {s : RedemptionState} (hs : s.isPending = true) (now : Int64) :
      Goes s (.reclaim now) .reclaimed

/-- What a call makes of `escrowed_at`. -/
def Method.stamp : Method → Option Int64 → Option Int64
  | .applyEscrowOutcome .confirmed now, _ => some now
  | _, since => since

theorem invoke_goes {r r' : Redemption} {m : Method} (h : r.invoke m = .ok r') :
    Goes r.state m r'.state ∧ r'.escrowedAt = m.stamp r.escrowedAt := by
  cases m with
  | applyEscrowOutcome outcome now =>
      simp only [invoke, applyEscrowOutcome] at h
      rw [guard_ok, not_not] at h
      obtain ⟨hs, h⟩ := h
      rw [hs]
      cases outcome with
      | confirmed => cases h; exact ⟨.land now, rfl⟩
      | failed => cases h; exact ⟨.fail now, rfl⟩
      | submitted => cases h; rw [hs]; exact ⟨.wait now, rfl⟩
  | enqueuePayout =>
      obtain ⟨hs, rfl⟩ := enqueuePayout_ok.mp h
      rw [hs]
      exact ⟨.enqueue, rfl⟩
  | confirm =>
      obtain ⟨hs, rfl⟩ := confirm_ok.mp h
      exact ⟨.confirm hs, rfl⟩
  | reclaim now =>
      obtain ⟨hs, -, rfl⟩ := reclaim_ok.mp h
      exact ⟨.reclaim hs now, rfl⟩

end Redemption

end Thbc
