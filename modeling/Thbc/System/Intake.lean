import Thbc.Logic.Issuance
import Thbc.Persistence.Postgres

/-!
# The on-ramp over its database

`handle_deposit`, `retry_held` and `retry_all_held` over the table `deposits`, one
call after the other. Nothing is assumed of the other ports: what each would answer
comes in with the port call, and so does a fault of the database, which may have
carried the statement out all the same. Beside the table stands what is asked about
here, the wallets that `issue` was called with.
-/

namespace Thbc.Intake

open Thbc.Lib Thbc.Service

/-- What a port call meets that the table does not decide. -/
structure Conditions where
  answer : (s : Port) → s.Reply
  tie : DepositRow → ℕ
  /-- An error in place of the reply, and whether the statement was carried out. -/
  fault : Option (PortError × Bool)

structure State where
  rows : List DepositRow
  /-- The latest first. -/
  wallets : List String

section Calls

variable [Sha256]

def exec : Handler Port Port.Reply Conditions State
  | c, .deposits m, w =>
      let (r, rows) := PgDepositRepository.call w.rows c.tie m
      match c.fault with
      | none => (r, { w with rows := rows })
      | some (e, done) => (.error e, { w with rows := if done then rows else w.rows })
  | c, .ledger (.issue beneficiary amount nullifier), w =>
      (c.answer (.ledger (.issue beneficiary amount nullifier)),
        { w with wallets := beneficiary :: w.wallets })
  | c, s, w => (c.answer s, w)

inductive Call where
  | handleDeposit (bankRef : BankRef) (amount : Thb)
      (beneficiary beneficiaryWallet : String)
  | retryHeld (bankRef : BankRef)
  | retryAllHeld
  deriving DecidableEq

/-- The state that a call leaves. -/
def Call.apply (es : ℕ → Conditions) (w : State) : Call → State
  | .handleDeposit bankRef amount beneficiary beneficiaryWallet =>
      ((IssuanceService.handleDeposit bankRef amount beneficiary
        beneficiaryWallet).run.run exec es w).2
  | .retryHeld bankRef => ((IssuanceService.retryHeld bankRef).run.run exec es w).2
  | .retryAllHeld => (IssuanceService.retryAllHeld.run.run exec es w).2

/-- Calls one after the other. -/
def runCalls (w : State) : List (Call × (ℕ → Conditions)) → State
  | [] => w
  | (call, es) :: rest => runCalls (call.apply es w) rest

/-! ## Rules -/

variable {α : Type} {w : State}

/-- What may come of a call of the repository: what it does, or an error. -/
def Replies (m : DepositRepository) (rows : List DepositRow) (r : PortResult m.Answer)
    (rows' : List DepositRow) : Prop :=
  ∃ tie, PgDepositRepository.call rows tie m = (r, rows') ∨
    ∃ e, r = .error e ∧
      (rows' = rows ∨ rows' = (PgDepositRepository.call rows tie m).2)

theorem meets_deposits {m : DepositRepository} {Q : PortResult m.Answer → State → Prop}
    (h : ∀ r rows', Replies m w.rows r rows' → Q r { w with rows := rows' }) :
    (deposits m).run.Meets (Handler.arena exec) Q w := by
  refine meets_call.mpr ⟨trivial, fun b w' ⟨c, heq⟩ => ?_⟩
  cases hf : c.fault with
  | none =>
      simp only [exec, hf] at heq
      obtain ⟨rfl, rfl⟩ := Prod.mk.inj heq
      exact h _ _ ⟨c.tie, .inl rfl⟩
  | some f =>
      obtain ⟨e, done⟩ := f
      simp only [exec, hf] at heq
      obtain ⟨rfl, rfl⟩ := Prod.mk.inj heq
      refine h _ _ ⟨c.tie, .inr ⟨e, rfl, ?_⟩⟩
      cases done with
      | true => exact .inr rfl
      | false => exact .inl rfl

theorem meets_clock {Q : PortResult Int64 → State → Prop} (h : ∀ now, Q (.ok now) w) :
    clock.run.Meets (Handler.arena exec) Q w := by
  refine Service.meets_clock.mpr ⟨trivial, fun b w' ⟨c, heq⟩ => ?_⟩
  obtain ⟨-, rfl⟩ := Prod.mk.inj heq
  exact h b

theorem meets_compliance {m : CompliancePort} {Q : PortResult ScreenOutcome → State → Prop}
    (h : ∀ r, Q r w) : (compliance m).run.Meets (Handler.arena exec) Q w := by
  refine meets_call.mpr ⟨trivial, fun b w' ⟨c, heq⟩ => ?_⟩
  obtain ⟨-, rfl⟩ := Prod.mk.inj heq
  exact h b

theorem meets_snapshot {Q : PortResult TreasurySnapshot → State → Prop}
    (h : ∀ r, Q r w) : (ledger .snapshot).run.Meets (Handler.arena exec) Q w := by
  refine meets_call.mpr ⟨trivial, fun b w' ⟨c, heq⟩ => ?_⟩
  obtain ⟨-, rfl⟩ := Prod.mk.inj heq
  exact h b

theorem meets_issue {beneficiary : String} {amount : Thb} {nullifier : BankRefHash}
    {Q : PortResult ConfirmOutcome → State → Prop}
    (h : ∀ r, Q r { w with wallets := beneficiary :: w.wallets }) :
    (ledger (.issue beneficiary amount nullifier)).run.Meets (Handler.arena exec) Q w := by
  refine meets_call.mpr ⟨trivial, fun b w' ⟨c, heq⟩ => ?_⟩
  obtain ⟨-, rfl⟩ := Prod.mk.inj heq
  exact h b

/-- What every call keeps holds after all of them. -/
theorem runCalls_induct {I : State → Prop} {calls : List (Call × (ℕ → Conditions))}
    (hstep : ∀ (call : Call) es w, I w → I (call.apply es w)) (h : I w) :
    I (runCalls w calls) := by
  induction calls generalizing w with
  | nil => exact h
  | cons c rest ih => exact ih (hstep c.1 c.2 w h)

end Calls

end Thbc.Intake
