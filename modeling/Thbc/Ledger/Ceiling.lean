import Thbc.Ledger.Conservation

/-!
# F1 and F5 on the ledger

The supply rises in one place only, past the gate of `issue`, and there it
ends below the free backing. So no call breaks F1 except by moving the
ceiling itself, which is what an attestation and the encumbrance setter do.
-/

namespace Thbc.SimulatedLedger.State

/-- The two operations that write the ceiling. -/
def movesCeiling : Op → Bool
  | .port (.updateAttestation ..) => true
  | .control (.setEncumbered _) => true
  | _ => false

/-- What an operation does to the reserve: nothing, a new ceiling, a lower
supply, or, for an issue that the gate lets through, a higher one. -/
theorem apply_reserve {s : State} (hs : s.Conserved) (op : Op) :
    (s.apply op).reserve = s.reserve ∨
    (movesCeiling op = true ∧
      (s.apply op).reserve.supply = s.reserve.supply) ∨
    (∃ supply : Thb, supply.toNat ≤ s.reserve.supply.toNat ∧
      (s.apply op).reserve = { s.reserve with supply := supply }) ∨
    (∃ beneficiary amount nullifier v,
      op = .port (.issue beneficiary amount nullifier) ∧
      (s.issue beneficiary amount nullifier).1 = .ok .confirmed ∧
      s.reserve.checkIssuance amount s.now = .ok v ∧
      (s.apply op).reserve = { s.reserve with supply := v }) := by
  cases op with
  | port m =>
      cases m with
      | snapshot => exact .inl rfl
      | issue beneficiary amount nullifier =>
          obtain ⟨e, heq, -⟩ | ⟨-, v, balance, hg, -, heq⟩ :=
            issue_conserved hs beneficiary amount nullifier
          · left
            show (s.issue beneficiary amount nullifier).2.reserve = s.reserve
            rw [heq]
          · refine .inr (.inr (.inr ⟨beneficiary, amount, nullifier, v, rfl, ?_, hg, ?_⟩))
            · rw [heq]
            · show (s.issue beneficiary amount nullifier).2.reserve = _
              rw [heq]
      | escrowRedemption r =>
          left
          show (s.escrowRedemption r).2.reserve = s.reserve
          obtain ⟨e, heq⟩ | ⟨-, remaining, -, heq⟩ := escrowRedemption_cases s r
          · rw [heq]
          · rw [heq]
      | confirmRedemption user seq =>
          obtain ⟨e, heq, -⟩ | ⟨record, supply, -, -, hsup, heq⟩ :=
            confirmRedemption_cases s user seq
          · left
            show (s.confirmRedemption user seq).2.reserve = s.reserve
            rw [heq]
          · refine .inr (.inr (.inl ⟨supply, by omega, ?_⟩))
            show (s.confirmRedemption user seq).2.reserve = _
            rw [heq]
      | reclaimRedemption user seq =>
          left
          show (s.reclaimRedemption user seq).2.reserve = s.reserve
          obtain ⟨e, heq⟩ | ⟨record, balance, -, -, -, -, heq⟩ :=
            reclaimRedemption_conserved hs user seq
          · rw [heq]
          · rw [heq]
      | updateAttestation reserve encumbered => exact .inr (.inl ⟨rfl, rfl⟩)
  | control m =>
      cases m with
      | setNow now => exact .inl rfl
      | setParams params => exact .inl rfl
      | fundInventory fromUser amount =>
          left
          show (s.fundInventory fromUser amount).2.reserve = s.reserve
          obtain ⟨e, heq⟩ | ⟨remaining, thbc, -, -, heq⟩ :=
            fundInventory_conserved hs fromUser amount
          · rw [heq]
          · rw [heq]
      | fundGrxInventory amount =>
          left
          obtain ⟨grx, heq⟩ := fundGrxInventory_snd s amount
          show (s.fundGrxInventory amount).2.reserve = s.reserve
          rw [heq]
      | setEncumbered amount => exact .inr (.inl ⟨rfl, rfl⟩)

/-- (a) An operation that does not move the ceiling keeps F1. -/
theorem f1Holds_apply {s : State} (hs : s.Conserved) {op : Op}
    (hop : movesCeiling op = false) (hf : s.reserve.f1Holds = true) :
    (s.apply op).reserve.f1Holds = true := by
  rw [ReserveState.f1Holds_iff_le] at hf ⊢
  obtain heq | ⟨hm, -⟩ | ⟨supply, hle, heq⟩ | ⟨b, a, n, v, -, -, hg, heq⟩ :=
    apply_reserve hs op
  · rw [heq]; exact hf
  · rw [hop] at hm; cases hm
  · rw [heq]
    show supply.toNat ≤ s.reserve.freeBacking.toNat
    omega
  · rw [heq]
    exact (ReserveState.checkIssuance_ok.mp hg).2.2.2

/-- (b) Where F1 is broken no operation raises the supply. -/
theorem supply_apply_le {s : State} (hs : s.Conserved) (op : Op)
    (hf : s.reserve.f1Holds = false) :
    (s.apply op).reserve.supply.toNat ≤ s.reserve.supply.toNat := by
  obtain heq | ⟨-, heq⟩ | ⟨supply, hle, heq⟩ | ⟨b, a, n, v, -, -, hg, -⟩ :=
    apply_reserve hs op
  · rw [heq]
  · rw [heq]
  · rw [heq]; exact hle
  · obtain ⟨-, -, hv, hle⟩ := ReserveState.checkIssuance_ok.mp hg
    have : s.reserve.f1Holds = true := by
      rw [ReserveState.f1Holds_iff_le]
      omega
    rw [this] at hf
    cases hf

/-- (c) An issue that confirms passed the gate. -/
theorem issue_confirmed {s : State} (hs : s.Conserved) {beneficiary : String}
    {amount : Thb} {nullifier : BankRefHash}
    (h : (s.issue beneficiary amount nullifier).1 = .ok .confirmed) :
    (s.issue beneficiary amount nullifier).2.reserve.supply.toNat =
        s.reserve.supply.toNat + amount.toNat ∧
      s.reserve.attestation.checkFresh s.now = .ok () ∧
      (s.issue beneficiary amount nullifier).2.reserve.f1Holds = true := by
  obtain ⟨e, heq, -⟩ | ⟨-, v, balance, hg, -, heq⟩ :=
    issue_conserved hs beneficiary amount nullifier
  · rw [heq] at h; cases h
  · obtain ⟨-, hfresh, hv, hle⟩ := ReserveState.checkIssuance_ok.mp hg
    rw [heq]
    exact ⟨hv, hfresh, ReserveState.f1Holds_iff_le.mpr hle⟩

/-- Nothing but an issue that confirms raises the supply. -/
theorem issue_of_supply_lt {s : State} (hs : s.Conserved) {op : Op}
    (h : s.reserve.supply.toNat < (s.apply op).reserve.supply.toNat) :
    ∃ beneficiary amount nullifier,
      op = .port (.issue beneficiary amount nullifier) ∧
      (s.issue beneficiary amount nullifier).1 = .ok .confirmed := by
  obtain heq | ⟨-, heq⟩ | ⟨supply, hle, heq⟩ | ⟨b, a, n, v, hop, hc, -, -⟩ :=
    apply_reserve hs op
  · rw [heq] at h; omega
  · rw [heq] at h; omega
  · rw [heq] at h
    simp only at h
    omega
  · exact ⟨b, a, n, hop, hc⟩

/-- The ceiling and the freshness of the ledger, after any operations and for
any next one. -/
theorem ceiling (reserve : Thb) (ttlSecs now : Int64) (ops : List Op) (op : Op) :
    let s := (new reserve ttlSecs now).applyAll ops
    -- F1 as a plain inequality
    (s.reserve.f1Holds = true ↔ (s.reserve.supply.toNat : ℤ) ≤
      max ((s.reserve.attestation.reserve.toNat : ℤ) -
        s.reserve.encumbered.toNat) 0) ∧
    -- (a)
    (movesCeiling op = false → s.reserve.f1Holds = true →
      (s.apply op).reserve.f1Holds = true) ∧
    -- (b)
    (s.reserve.f1Holds = false →
      (s.apply op).reserve.supply.toNat ≤ s.reserve.supply.toNat) ∧
    -- (c)
    (∀ beneficiary amount nullifier,
      op = .port (.issue beneficiary amount nullifier) →
      (s.issue beneficiary amount nullifier).1 = .ok .confirmed →
      (s.apply op).reserve.supply.toNat = s.reserve.supply.toNat + amount.toNat ∧
      (s.apply op).reserve.f1Holds = true ∧
      (0 ≤ s.now.toInt → 0 ≤ s.reserve.attestation.ts.toInt →
        0 ≤ s.now.toInt - s.reserve.attestation.ts.toInt ∧
        s.now.toInt - s.reserve.attestation.ts.toInt ≤
          s.reserve.attestation.ttlSecs.toInt)) ∧
    (s.reserve.supply.toNat < (s.apply op).reserve.supply.toNat →
      ∃ beneficiary amount nullifier,
        op = .port (.issue beneficiary amount nullifier) ∧
        (s.issue beneficiary amount nullifier).1 = .ok .confirmed) := by
  intro s
  have hs : s.Conserved := conserved_applyAll (conserved_new _ _ _) ops
  refine ⟨ReserveState.f1Holds_iff, f1Holds_apply hs, supply_apply_le hs op, ?_,
    issue_of_supply_lt hs⟩
  intro beneficiary amount nullifier heq hc
  subst heq
  obtain ⟨hsup, hfresh, hf1⟩ := issue_confirmed hs hc
  refine ⟨hsup, hf1, fun hnow hts => ?_⟩
  exact (Attestation.checkFresh_ok_of_nonneg hts hnow).mp hfresh

end Thbc.SimulatedLedger.State
