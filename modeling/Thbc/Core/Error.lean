/-!
# Domain errors of the payment leg

`crates/thbc-core/src/error.rs`. Every variant names the guard that fired,
with the figures the guard compared; `display` is the text the service logs
and puts in a held deposit's reason.
-/

namespace Thbc

inductive CoreError where
  | mathOverflow
  | underflow
  | zeroAmount
  | missingBeneficiaryWallet
  | reserveInsufficient (requested resultingSupply freeBacking attestedReserve
      encumbered : UInt64)
  | staleAttestation (ageSecs ttlSecs : Int64)
  | attestationInFuture (ts now : Int64)
  | duplicateBankRef (bankRefHash : String)
  | emptyBankRef
  | attestorIsAuthority
  | invalidDepositTransition (source target : String)
  | invalidRedemptionTransition (source target : String)
  | burnNotConfirmed (state : String)
  | timelockNotExpired (elapsedSecs deltaSecs : Int64)
  | insufficientInventory (requested available : UInt64) (asset : String)
  | rateNotSet
  | invalidFeeBps (bps : UInt16)
  | reconciliationDrift (issued redeemed expected actual : UInt64)
      (drift : Int)
  | paused
  deriving DecidableEq

abbrev CoreResult (α : Type) : Type := Except CoreError α

/-- Past a guard that refuses with `e`. -/
theorem guard_ok {ε α : Type} {p : Prop} [Decidable p] {e : ε} {x : Except ε α}
    {a : α} :
    (if p then .error e else x) = .ok a ↔ ¬ p ∧ x = .ok a := by
  split
  · next h => simp [h]
  · next h => simp [h]

/-- Past a `?`. -/
theorem bind_ok {ε α β : Type} {x : Except ε β} {f : β → Except ε α} {a : α} :
    (x >>= f) = .ok a ↔ ∃ b, x = .ok b ∧ f b = .ok a := by
  cases x with
  | error e => simp [bind, Except.bind]
  | ok b => simp [bind, Except.bind]

/-- Past a `?`, or stopped by it. -/
theorem bind_error {ε α β : Type} {x : Except ε β} {f : β → Except ε α} {e : ε} :
    (x >>= f) = .error e ↔ x = .error e ∨ ∃ b, x = .ok b ∧ f b = .error e := by
  cases x with
  | error e' => simp [bind, Except.bind]
  | ok b => simp [bind, Except.bind]

/-- Past a `map_err`. -/
theorem mapError_ok {ε δ α : Type} {x : Except ε α} {f : ε → δ} {a : α} :
    x.mapError f = .ok a ↔ x = .ok a := by
  cases x with
  | ok b =>
      show Except.ok b = .ok a ↔ _
      rw [Except.ok.injEq, Except.ok.injEq]
  | error e =>
      refine ⟨fun h => ?_, fun h => ?_⟩
      · cases h
      · cases h

theorem mapError_error {ε δ α : Type} {x : Except ε α} {f : ε → δ} {e : δ} :
    x.mapError f = .error e ↔ ∃ e', x = .error e' ∧ f e' = e := by
  cases x with
  | ok b =>
      refine ⟨fun h => ?_, fun ⟨_, h, _⟩ => ?_⟩
      · cases h
      · cases h
  | error e' =>
      show Except.error (f e') = .error e ↔ _
      simp only [Except.error.injEq, exists_eq_left']

/-- An error that neither part gives. -/
theorem bind_ne_error {α β : Type} {x : CoreResult β} {f : β → CoreResult α}
    {e : CoreError} (hx : x ≠ .error e) (hf : ∀ b, x = .ok b → f b ≠ .error e) :
    (x >>= f) ≠ .error e := by
  cases x with
  | ok b => exact hf b rfl
  | error e' =>
      intro h
      cases h
      exact hx rfl

/-- `to_string` of an error. -/
def CoreError.display : CoreError → String
  | .mathOverflow => "arithmetic overflow"
  | .underflow => "arithmetic underflow — a liability exceeded its backing"
  | .zeroAmount => "amount must be greater than zero"
  | .missingBeneficiaryWallet =>
      "beneficiary_wallet is required — this service cannot resolve an IAM " ++
        "user id to a Solana wallet, so the partner must supply it"
  | .reserveInsufficient requested resultingSupply freeBacking attestedReserve
      encumbered =>
      s!"F1 breach: issuing {requested} would put supply at " ++
        s!"{resultingSupply} against free backing {freeBacking} " ++
        s!"(attested {attestedReserve} − encumbered {encumbered})"
  | .staleAttestation ageSecs ttlSecs =>
      s!"F5 breach: attestation is {ageSecs}s old, ttl is {ttlSecs}s — " ++
        "issuance is halted until the attestor refreshes"
  | .attestationInFuture ts now =>
      s!"attestation timestamp {ts} is in the future relative to now {now}"
  | .duplicateBankRef bankRefHash =>
      s!"F3: bank_ref {bankRefHash} has already been issued against"
  | .emptyBankRef => "bank_ref must not be empty"
  | .attestorIsAuthority =>
      "F9 breach: attestor key must differ from the parameter-authority key"
  | .invalidDepositTransition source target =>
      s!"invalid deposit transition: {source} -> {target}"
  | .invalidRedemptionTransition source target =>
      s!"invalid redemption transition: {source} -> {target}"
  | .burnNotConfirmed state =>
      s!"F4 breach: payout may not be enqueued from state {state} — the burn " ++
        "must be CONFIRMED on-chain first, not merely submitted"
  | .timelockNotExpired elapsedSecs deltaSecs =>
      s!"F7: redemption is still inside the {deltaSecs}s timelock " ++
        s!"({elapsedSecs}s elapsed)"
  | .insufficientInventory requested available asset =>
      s!"F6: exchange needs {requested} {asset} but platform inventory holds " ++
        s!"{available} — the exchange path must never mint to cover a shortfall"
  | .rateNotSet => "exchange rate is not configured"
  | .invalidFeeBps _ => "fee_bps must not exceed 10000 (100%)"
  | .reconciliationDrift issued redeemed expected actual drift =>
      s!"F2 breach: issued {issued} − redeemed {redeemed} = {expected} but " ++
        s!"ledger supply is {actual} (drift {drift})"
  | .paused => "treasury is paused"

end Thbc
