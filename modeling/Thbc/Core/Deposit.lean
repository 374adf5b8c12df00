import Thbc.Core.Money
import Thbc.Core.BankRef

/-!
# The deposit state machine

`crates/thbc-core/src/deposit.rs`. A method that takes `&mut self` in the
source returns the new value here, and leaves no value at all when it
refuses. The four transitions the services use are characterised exactly by
`screen_ok`, `markAttested_ok` and `markIssued_ok`: each asks for one state
and changes the state and nothing else.
-/

namespace Thbc

/-- Outcome of the compliance screen. -/
inductive ScreenOutcome where
  | pass
  | fail
  deriving DecidableEq

inductive DepositState where
  | observed
  | screened
  | attested
  | issued
  | encumbered
  | disputed
  deriving DecidableEq

namespace DepositState

def asStr : DepositState → String
  | .observed => "observed"
  | .screened => "screened"
  | .attested => "attested"
  | .issued => "issued"
  | .encumbered => "encumbered"
  | .disputed => "disputed"

def isTerminal : DepositState → Bool
  | .issued | .encumbered => true
  | _ => false

end DepositState

/-- One fiat deposit, tracked from webhook to issuance. -/
structure Deposit where
  bankRef : BankRef
  amount : Thb
  beneficiary : String
  beneficiaryWallet : String
  state : DepositState
  observedAt : Int64
  deriving DecidableEq

namespace Deposit

/-- A signature-verified webhook has arrived. -/
def observe (bankRef : BankRef) (amount : Thb)
    (beneficiary beneficiaryWallet : String) (now : Int64) :
    CoreResult Deposit :=
  if amount.isZero then .error .zeroAmount
  else if trim beneficiaryWallet = "" then .error .missingBeneficiaryWallet
  else .ok {
    bankRef, amount, beneficiary, beneficiaryWallet
    state := .observed
    observedAt := now }

def nullifier [Sha256] (d : Deposit) : BankRefHash := d.bankRef.hash

def expect (d : Deposit) (want target : DepositState) : CoreResult Unit :=
  if d.state = want then .ok ()
  else .error (.invalidDepositTransition d.state.asStr target.asStr)

/-- Where a screen outcome leads. -/
def screenTarget : ScreenOutcome → DepositState
  | .pass => .screened
  | .fail => .encumbered

def screen (d : Deposit) (outcome : ScreenOutcome) : CoreResult Deposit := do
  let target := screenTarget outcome
  d.expect .observed target
  return { d with state := target }

def dispute (d : Deposit) : CoreResult Deposit :=
  match d.state with
  | .observed | .screened => .ok { d with state := .disputed }
  | other =>
      .error (.invalidDepositTransition other.asStr DepositState.disputed.asStr)

def resolveDispute (d : Deposit) (settled : Thb) : CoreResult Deposit := do
  if settled.isZero then throw .zeroAmount
  d.expect .disputed .screened
  return { d with amount := settled, state := .screened }

def markAttested (d : Deposit) : CoreResult Deposit := do
  d.expect .screened .attested
  return { d with state := .attested }

def markIssued (d : Deposit) : CoreResult Deposit := do
  d.expect .attested .issued
  return { d with state := .issued }

/-- Whether this deposit's fiat counts toward `reserve_encumbered`. -/
def isEncumbering (d : Deposit) : Bool :=
  match d.state with
  | .encumbered | .disputed => true
  | _ => false

theorem observe_ok {bankRef : BankRef} {amount : Thb}
    {beneficiary beneficiaryWallet : String} {now : Int64} {d : Deposit} :
    observe bankRef amount beneficiary beneficiaryWallet now = .ok d ↔
      0 < amount.toNat ∧ trim beneficiaryWallet ≠ "" ∧
        d = ⟨bankRef, amount, beneficiary, beneficiaryWallet, .observed, now⟩ := by
  rw [observe, guard_ok, guard_ok, Thb.isZero_iff, Nat.pos_iff_ne_zero,
    Except.ok.injEq, eq_comm (b := d)]

/-- A step guarded by `expect` answers exactly from the state it wants. -/
theorem expect_bind_ok {d d' e : Deposit} {want target : DepositState} :
    (d.expect want target >>= fun _ => pure e) = (.ok d' : CoreResult Deposit) ↔
      d.state = want ∧ d' = e := by
  unfold expect
  split
  · next h =>
      refine ⟨fun h' => ⟨h, (Except.ok.inj h').symm⟩, fun h' => ?_⟩
      rw [h'.2]
      rfl
  · next h =>
      refine ⟨fun h' => ?_, fun h' => absurd h'.1 h⟩
      cases h'

theorem screen_ok {d d' : Deposit} {outcome : ScreenOutcome} :
    d.screen outcome = .ok d' ↔
      d.state = .observed ∧ d' = { d with state := screenTarget outcome } :=
  expect_bind_ok

theorem dispute_ok {d d' : Deposit} :
    d.dispute = .ok d' ↔
      (d.state = .observed ∨ d.state = .screened) ∧
        d' = { d with state := .disputed } := by
  unfold dispute
  cases d.state <;> simp [eq_comm]

theorem resolveDispute_ok {d d' : Deposit} {settled : Thb} :
    d.resolveDispute settled = .ok d' ↔
      0 < settled.toNat ∧ d.state = .disputed ∧
        d' = { d with amount := settled, state := .screened } := by
  have hbind : d.resolveDispute settled =
      if settled.isZero then .error .zeroAmount
      else d.expect .disputed .screened >>= fun _ =>
        pure { d with amount := settled, state := .screened } := by
    unfold resolveDispute
    cases settled.isZero <;> rfl
  rw [hbind, guard_ok, expect_bind_ok, Thb.isZero_iff, Nat.pos_iff_ne_zero]

theorem markAttested_ok {d d' : Deposit} :
    d.markAttested = .ok d' ↔
      d.state = .screened ∧ d' = { d with state := .attested } :=
  expect_bind_ok

theorem markIssued_ok {d d' : Deposit} :
    d.markIssued = .ok d' ↔
      d.state = .attested ∧ d' = { d with state := .issued } :=
  expect_bind_ok

end Deposit

end Thbc
