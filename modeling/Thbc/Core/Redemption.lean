import Thbc.Core.Money
import Mathlib.Data.Nat.Notation

/-!
# The redemption state machine

`crates/thbc-core/src/redemption.rs`. As for deposits, a transition returns
the new record or refuses. `enqueuePayout` is the F4 barrier and `reclaim`
the F7 timelock; `supplyReduction` is the only thing F2 reads.
-/

namespace Thbc

/-- What the chain reported: a confirmed effect, or a mere acceptance. -/
inductive ConfirmOutcome where
  | submitted
  | confirmed
  | failed
  deriving DecidableEq

/-- The outcome as its `Debug` text. -/
def ConfirmOutcome.debug : ConfirmOutcome → String
  | .submitted => "Submitted"
  | .confirmed => "Confirmed"
  | .failed => "Failed"

inductive RedemptionState where
  | requested
  | escrowed
  | payoutQueued
  | confirmed
  | reclaimed
  | failed
  deriving DecidableEq

namespace RedemptionState

def asStr : RedemptionState → String
  | .requested => "requested"
  | .escrowed => "escrowed"
  | .payoutQueued => "payout_queued"
  | .confirmed => "confirmed"
  | .reclaimed => "reclaimed"
  | .failed => "failed"

def isTerminal : RedemptionState → Bool
  | .confirmed | .reclaimed | .failed => true
  | _ => false

/-- States that count toward `redemption_queue_len`. -/
def isPending : RedemptionState → Bool
  | .escrowed | .payoutQueued => true
  | _ => false

theorem ne_of_isPending {s : RedemptionState} (h : s.isPending = true) :
    s ≠ .requested ∧ s ≠ .failed := by
  cases s <;> simp_all [isPending]

theorem ne_confirmed_of_isPending {s : RedemptionState} (h : s.isPending = true) :
    s ≠ .confirmed := by
  rintro rfl
  cases h

theorem isPending_of_isTerminal {s : RedemptionState} (h : s.isTerminal = true) :
    s.isPending = false := by
  cases s <;> simp_all [isPending, isTerminal]

end RedemptionState

/-- One redemption, from the user's signature to fiat or reclaim. -/
structure Redemption where
  user : String
  seq : UInt64
  amount : Thb
  state : RedemptionState
  requestedAt : Int64
  escrowedAt : Option Int64
  deltaSecs : Int64
  deriving DecidableEq

namespace Redemption

def request (user : String) (seq : UInt64) (amount : Thb)
    (deltaSecs now : Int64) : CoreResult Redemption :=
  if amount.isZero then .error .zeroAmount
  else .ok {
    user, seq, amount
    state := .requested
    requestedAt := now
    escrowedAt := none
    deltaSecs }

def reject (r : Redemption) (target : RedemptionState) : CoreError :=
  .invalidRedemptionTransition r.state.asStr target.asStr

/-- The escrow result came back from the chain. `Submitted` grants nothing
and is no error. -/
def applyEscrowOutcome (r : Redemption) (outcome : ConfirmOutcome)
    (now : Int64) : CoreResult Redemption :=
  if r.state ≠ .requested then .error (r.reject .escrowed)
  else match outcome with
    | .confirmed => .ok { r with state := .escrowed, escrowedAt := some now }
    | .failed => .ok { r with state := .failed }
    | .submitted => .ok r

/-- The F4 barrier. -/
def enqueuePayout (r : Redemption) : CoreResult Redemption :=
  if r.state ≠ .escrowed then .error (.burnNotConfirmed r.state.asStr)
  else .ok { r with state := .payoutQueued }

def confirm (r : Redemption) : CoreResult Redemption :=
  match r.state with
  | .escrowed | .payoutQueued => .ok { r with state := .confirmed }
  | _ => .error (r.reject .confirmed)

/-- Seconds since the escrow confirmed, if it did. -/
def escrowAge (r : Redemption) (now : Int64) : Option Int64 :=
  r.escrowedAt.map fun t => saturatingSub now t

def isReclaimable (r : Redemption) (now : Int64) : Bool :=
  r.state.isPending &&
    match r.escrowAge now with
    | some age => decide (age ≥ r.deltaSecs)
    | none => false

/-- F7: after Δ with no confirm, the tokens go back to the holder. -/
def reclaim (r : Redemption) (now : Int64) : CoreResult Redemption :=
  if !r.state.isPending then .error (r.reject .reclaimed)
  else
    let elapsed := (r.escrowAge now).getD 0
    if elapsed < r.deltaSecs then
      .error (.timelockNotExpired elapsed r.deltaSecs)
    else .ok { r with state := .reclaimed }

/-- Effect on supply: a confirmed redemption reduces it, nothing else does. -/
def supplyReduction (r : Redemption) : Thb :=
  match r.state with
  | .confirmed => r.amount
  | _ => .zero

theorem supplyReduction_of_ne {r : Redemption} (h : r.state ≠ .confirmed) :
    r.supplyReduction = .zero := by
  unfold supplyReduction
  cases hs : r.state with
  | confirmed => exact absurd hs h
  | _ => rfl

/-- The record's key, `[b"redeem", user, seq]`. -/
def key (r : Redemption) : String × UInt64 := (r.user, r.seq)

theorem request_ok {user : String} {seq : UInt64} {amount : Thb}
    {deltaSecs now : Int64} {r : Redemption} :
    request user seq amount deltaSecs now = .ok r ↔
      0 < amount.toNat ∧
        r = ⟨user, seq, amount, .requested, now, none, deltaSecs⟩ := by
  rw [request, guard_ok, Thb.isZero_iff, Nat.pos_iff_ne_zero, Except.ok.injEq,
    eq_comm (b := r)]

theorem applyEscrowOutcome_confirmed {r r' : Redemption} {now : Int64} :
    r.applyEscrowOutcome .confirmed now = .ok r' ↔
      r.state = .requested ∧
        r' = { r with state := .escrowed, escrowedAt := some now } := by
  rw [applyEscrowOutcome, guard_ok, not_not, Except.ok.injEq, eq_comm (b := r')]

/-- Whatever the chain reported, the record stays the same one. -/
theorem applyEscrowOutcome_cases {r r' : Redemption} {o : ConfirmOutcome}
    {now : Int64} (h : r.applyEscrowOutcome o now = .ok r') :
    ∃ s since, r' = { r with state := s, escrowedAt := since } := by
  unfold applyEscrowOutcome at h
  rw [guard_ok] at h
  cases o with
  | confirmed => exact ⟨_, _, (Except.ok.inj h.2).symm⟩
  | submitted => exact ⟨r.state, r.escrowedAt, (Except.ok.inj h.2).symm⟩
  | failed => exact ⟨_, r.escrowedAt, (Except.ok.inj h.2).symm⟩

theorem applyEscrowOutcome_key {r r' : Redemption} {o : ConfirmOutcome}
    {now : Int64} (h : r.applyEscrowOutcome o now = .ok r') : r'.key = r.key := by
  obtain ⟨s, since, rfl⟩ := applyEscrowOutcome_cases h
  rfl

theorem applyEscrowOutcome_amount {r r' : Redemption} {o : ConfirmOutcome}
    {now : Int64} (h : r.applyEscrowOutcome o now = .ok r') :
    r'.amount = r.amount := by
  obtain ⟨s, since, rfl⟩ := applyEscrowOutcome_cases h
  rfl

theorem enqueuePayout_ok {r r' : Redemption} :
    r.enqueuePayout = .ok r' ↔
      r.state = .escrowed ∧ r' = { r with state := .payoutQueued } := by
  rw [enqueuePayout, guard_ok, not_not, Except.ok.injEq, eq_comm (b := r')]

theorem confirm_ok {r r' : Redemption} :
    r.confirm = .ok r' ↔
      r.state.isPending = true ∧ r' = { r with state := .confirmed } := by
  unfold confirm
  cases hs : r.state <;>
    simp [RedemptionState.isPending, eq_comm]

theorem confirm_refuses {r : Redemption} (h : r.state.isPending = false) :
    r.confirm = .error (r.reject .confirmed) := by
  unfold confirm
  cases hs : r.state with
  | escrowed => rw [hs] at h; cases h
  | payoutQueued => rw [hs] at h; cases h
  | _ => rfl

/-- A reclaim asks for a pending record whose timelock has run out, and
changes the state only. -/
theorem reclaim_ok {r r' : Redemption} {now : Int64} :
    r.reclaim now = .ok r' ↔
      r.state.isPending = true ∧ r.deltaSecs ≤ (r.escrowAge now).getD 0 ∧
        r' = { r with state := .reclaimed } := by
  have hlt : ¬ (r.escrowAge now).getD 0 < r.deltaSecs ↔
      r.deltaSecs ≤ (r.escrowAge now).getD 0 := by
    rw [Int64.lt_iff_toInt_lt, Int64.le_iff_toInt_le]
    omega
  simp only [reclaim]
  rw [guard_ok, guard_ok, hlt, Except.ok.injEq, eq_comm (b := r')]
  simp only [Bool.not_eq_true', Bool.not_eq_false]

/-! With times that are not negative, Δ is counted from the escrow on. -/

theorem isReclaimable_of_nonneg {r : Redemption} {since now : Int64}
    (hesc : r.escrowedAt = some since) (hsince : 0 ≤ since.toInt)
    (hnow : 0 ≤ now.toInt) :
    r.isReclaimable now = true ↔
      r.state.isPending = true ∧ since.toInt + r.deltaSecs.toInt ≤ now.toInt := by
  have hage : r.escrowAge now = some (saturatingSub now since) := by
    rw [escrowAge, hesc]
    rfl
  have hsub := toInt_saturatingSub_of_nonneg hnow hsince
  simp only [isReclaimable, hage, Bool.and_eq_true, decide_eq_true_eq]
  rw [ge_iff_le, Int64.le_iff_toInt_le, hsub]
  refine and_congr_right fun _ => ?_
  omega

theorem reclaim_ok_of_nonneg {r r' : Redemption} {since now : Int64}
    (hesc : r.escrowedAt = some since) (hsince : 0 ≤ since.toInt)
    (hnow : 0 ≤ now.toInt) :
    r.reclaim now = .ok r' ↔
      r.state.isPending = true ∧
        since.toInt + r.deltaSecs.toInt ≤ now.toInt ∧
        r' = { r with state := .reclaimed } := by
  have hage : (r.escrowAge now).getD 0 = saturatingSub now since := by
    rw [escrowAge, hesc]
    rfl
  rw [reclaim_ok, hage, Int64.le_iff_toInt_le,
    toInt_saturatingSub_of_nonneg hnow hsince]
  refine and_congr_right fun _ => and_congr_left fun _ => ?_
  omega

end Redemption

end Thbc
