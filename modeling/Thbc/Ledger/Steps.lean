import Thbc.Ledger.Simulated

/-!
# What one ledger call can do

Each method of the simulated ledger, as the list of its possible results
with the state each of them leaves. Everything proved about the ledger is a
case analysis on these lists; no proof further on unfolds a method. A
refusal leaves the state as it was, except where a balance or the inventory
would leave `u64`: those cases are listed too, and `Conservation` shows that
no reachable state has them.
-/

namespace Thbc.SimulatedLedger.State

theorem credit_cases (s : State) (user : String) (amount : Thb) :
    (∃ sum : Thb, sum.toNat = (s.balanceOf user).toNat + amount.toNat ∧
      s.credit user amount =
        (.ok (), { s with balances := s.balances.insert user sum })) ∨
    (∃ e, UInt64.size ≤ (s.balanceOf user).toNat + amount.toNat ∧
      s.credit user amount = (.error (.domain e),
        { s with balances := s.balances.insert user (s.balanceOf user) })) := by
  cases h : (s.balanceOf user).checkedAdd amount with
  | ok sum =>
      refine .inl ⟨sum, (Thb.checkedAdd_ok.mp h).symm, ?_⟩
      simp only [credit, h, AList.insert_insert]
  | error e =>
      refine .inr ⟨e, ?_, by simp only [credit, h]⟩
      by_contra hlt
      obtain ⟨c, hc⟩ := Thb.checkedAdd_of_lt (Nat.lt_of_not_le hlt)
      rw [h] at hc
      cases hc

/-- A refusal changes nothing; past the gate the nullifier is taken and the
supply is the gate's answer, and only the credit is left to go wrong. -/
theorem issue_cases (s : State) (beneficiary : String) (amount : Thb)
    (nullifier : BankRefHash) :
    (∃ e, s.issue beneficiary amount nullifier = (.error e, s) ∧
      (nullifier ∈ s.nullifiers ∨
        ∃ e', s.reserve.checkIssuance amount s.now = .error e')) ∨
    (nullifier ∉ s.nullifiers ∧ ∃ v balance : Thb, ∃ r,
      s.reserve.checkIssuance amount s.now = .ok v ∧
      s.issue beneficiary amount nullifier = (r, { s with
        nullifiers := insert nullifier s.nullifiers
        reserve := { s.reserve with supply := v }
        balances := s.balances.insert beneficiary balance }) ∧
      ((r = .ok .confirmed ∧
          balance.toNat = (s.balanceOf beneficiary).toNat + amount.toNat) ∨
        (∃ e, r = .error e ∧
          UInt64.size ≤ (s.balanceOf beneficiary).toNat + amount.toNat))) := by
  by_cases hn : nullifier ∈ s.nullifiers
  · simp only [issue, if_pos hn]
    exact .inl ⟨_, rfl, .inl hn⟩
  · cases hg : s.reserve.checkIssuance amount s.now with
    | error e =>
        refine .inl ⟨.domain e, ?_, .inr ⟨e, rfl⟩⟩
        simp only [issue, hg]
        rw [if_neg hn, Finset.erase_insert hn]
    | ok v =>
        refine .inr ⟨hn, v, ?_⟩
        obtain ⟨sum, hsum, hc⟩ | ⟨e, hover, hc⟩ :=
          credit_cases { s with
            nullifiers := insert nullifier s.nullifiers
            reserve := { s.reserve with supply := v } } beneficiary amount
        · refine ⟨sum, .ok .confirmed, rfl, ?_, .inl ⟨rfl, hsum⟩⟩
          simp only [issue, hg, hc]
          rw [if_neg hn]
        · refine ⟨s.balanceOf beneficiary, .error (.domain e), rfl, ?_,
            .inr ⟨.domain e, rfl, hover⟩⟩
          simp only [issue, hg, hc]
          exact if_neg hn

theorem escrowRedemption_cases (s : State) (r : Redemption) :
    (∃ e, s.escrowRedemption r = (.error e, s)) ∨
    (s.escrows.lookup r.key = none ∧ ∃ remaining : Thb,
      (s.balanceOf r.user).toNat = r.amount.toNat + remaining.toNat ∧
      s.escrowRedemption r = (.ok .confirmed, { s with
        balances := s.balances.insert r.user remaining
        escrows := s.escrows.insert r.key ⟨r.amount, s.now, false⟩ })) := by
  unfold escrowRedemption
  by_cases hk : r.key ∈ s.escrows
  · exact .inl ⟨_, if_pos hk⟩
  · cases hb : (s.balanceOf r.user).checkedSub r.amount with
    | error e => exact .inl ⟨.domain e, if_neg hk⟩
    | ok remaining =>
        exact .inr ⟨AList.lookup_eq_none.mpr hk, remaining,
          Thb.checkedSub_ok.mp hb, if_neg hk⟩

theorem confirmRedemption_cases (s : State) (user : String) (seq : UInt64) :
    (∃ e, s.confirmRedemption user seq = (.error e, s) ∧
      ∀ record, s.escrows.lookup (user, seq) = some record →
        record.burned = false →
        s.reserve.supply.toNat < record.amount.toNat) ∨
    (∃ record, ∃ supply : Thb, s.escrows.lookup (user, seq) = some record ∧
      record.burned = false ∧
      s.reserve.supply.toNat = record.amount.toNat + supply.toNat ∧
      s.confirmRedemption user seq = (.ok .confirmed, { s with
        reserve := { s.reserve with supply := supply }
        escrows := s.escrows.insert (user, seq)
          { record with burned := true } })) := by
  unfold confirmRedemption
  cases hk : s.escrows.lookup (user, seq) with
  | none =>
      refine .inl ⟨_, rfl, ?_⟩
      intro record h
      cases h
  | some record =>
      simp only []
      cases hb : record.burned with
      | true =>
          rw [if_pos rfl]
          refine .inl ⟨_, rfl, ?_⟩
          intro r hr hf
          cases hr
          rw [hb] at hf
          cases hf
      | false =>
          rw [if_neg (by simp)]
          cases hs : s.reserve.supply.checkedSub record.amount with
          | error e =>
              refine .inl ⟨_, rfl, ?_⟩
              intro r hr _
              cases hr
              by_contra hle
              obtain ⟨c, hc⟩ := Thb.checkedSub_of_le (Nat.le_of_not_lt hle)
              rw [hs] at hc
              cases hc
          | ok supply =>
              exact .inr ⟨record, supply, rfl, hb, Thb.checkedSub_ok.mp hs, rfl⟩

theorem reclaimRedemption_cases (s : State) (user : String) (seq : UInt64) :
    (∃ e, s.reclaimRedemption user seq = (.error e, s)) ∨
    (∃ record, ∃ balance : Thb, s.escrows.lookup (user, seq) = some record ∧
      record.burned = false ∧
      SIMULATED_DELTA_SECS ≤ saturatingSub s.now record.escrowedAt ∧
      ((balance.toNat = (s.balanceOf user).toNat + record.amount.toNat ∧
          s.reclaimRedemption user seq = (.ok .confirmed, { s with
            balances := s.balances.insert user balance
            escrows := s.escrows.erase (user, seq) })) ∨
        (UInt64.size ≤ (s.balanceOf user).toNat + record.amount.toNat ∧
          balance = s.balanceOf user ∧
          ∃ e, s.reclaimRedemption user seq = (.error e, { s with
            balances := s.balances.insert user balance })))) := by
  cases hk : s.escrows.lookup (user, seq) with
  | none =>
      refine .inl ⟨.notFound, ?_⟩
      simp only [reclaimRedemption, hk]
  | some record =>
      cases hb : record.burned with
      | true =>
          simp only [reclaimRedemption, hk, hb, if_true]
          exact .inl ⟨_, rfl⟩
      | false =>
          by_cases hd : saturatingSub s.now record.escrowedAt < SIMULATED_DELTA_SECS
          · left
            simp only [reclaimRedemption, hk, hb]
            rw [if_neg (by simp), if_pos hd]
            exact ⟨_, rfl⟩
          · have hle : SIMULATED_DELTA_SECS ≤ saturatingSub s.now record.escrowedAt := by
              rw [Int64.lt_iff_toInt_lt] at hd
              exact Int64.le_iff_toInt_le.mpr (by omega)
            obtain ⟨sum, hsum, hc⟩ | ⟨e, hover, hc⟩ :=
              credit_cases s user record.amount
            · refine .inr ⟨record, sum, rfl, hb, hle, .inl ⟨hsum, ?_⟩⟩
              simp only [reclaimRedemption, hk, hb, hc]
              rw [if_neg (by simp), if_neg hd]
            · refine .inr ⟨record, _, rfl, hb, hle, .inr ⟨hover, rfl, .domain e, ?_⟩⟩
              simp only [reclaimRedemption, hk, hb, hc]
              rw [if_neg (by simp), if_neg hd]

theorem fundInventory_cases (s : State) (fromUser : String) (amount : Thb) :
    (∃ e, s.fundInventory fromUser amount = (.error e, s)) ∨
    (∃ remaining : Thb,
      (s.balanceOf fromUser).toNat = amount.toNat + remaining.toNat ∧
      ((∃ thbc : Thb, thbc.toNat = s.inventory.thbc.toNat + amount.toNat ∧
          s.fundInventory fromUser amount = (.ok (), { s with
            balances := s.balances.insert fromUser remaining
            inventory := { s.inventory with thbc := thbc } })) ∨
        (UInt64.size ≤ s.inventory.thbc.toNat + amount.toNat ∧
          ∃ e, s.fundInventory fromUser amount = (.error e, { s with
            balances := s.balances.insert fromUser remaining })))) := by
  unfold fundInventory
  cases hb : (s.balanceOf fromUser).checkedSub amount with
  | error e => exact .inl ⟨_, rfl⟩
  | ok remaining =>
      refine .inr ⟨remaining, Thb.checkedSub_ok.mp hb, ?_⟩
      cases hi : s.inventory.thbc.checkedAdd amount with
      | ok thbc =>
          refine .inl ⟨thbc, (Thb.checkedAdd_ok.mp hi).symm, ?_⟩
          simp only [hi]
      | error e =>
          refine .inr ⟨?_, .domain e, ?_⟩
          · by_contra hlt
            obtain ⟨c, hc⟩ := Thb.checkedAdd_of_lt (Nat.lt_of_not_le hlt)
            rw [hi] at hc
            cases hc
          · simp only [hi]

/-- The vault of GRX is the only thing its funding touches. -/
theorem fundGrxInventory_snd (s : State) (amount : Grx) :
    ∃ grx, (s.fundGrxInventory amount).2 =
      { s with inventory := { s.inventory with grx := grx } } := by
  unfold fundGrxInventory
  split
  · exact ⟨s.inventory.grx, rfl⟩
  · next grx _ => exact ⟨grx, rfl⟩

/-- Of the methods on the port, `update_attestation` is the only one that
touches the attestation or the encumbrance, and none touches the clock. -/
theorem call_attestation (s : State) (m : LedgerPort) :
    (s.call m).2.now = s.now ∧
      ((s.call m).2.reserve = { s.reserve with
          supply := (s.call m).2.reserve.supply } ∨
        ∃ reserve encumbered, m = .updateAttestation reserve encumbered ∧
          (s.call m).2.reserve = { s.reserve with
            attestation :=
              { s.reserve.attestation with reserve := reserve, ts := s.now }
            encumbered := encumbered }) := by
  cases m with
  | snapshot => exact ⟨rfl, .inl rfl⟩
  | issue beneficiary amount nullifier =>
      show (s.issue beneficiary amount nullifier).2.now = _ ∧
        ((s.issue beneficiary amount nullifier).2.reserve = { s.reserve with
          supply := (s.issue beneficiary amount nullifier).2.reserve.supply } ∨ _)
      obtain ⟨e, heq, -⟩ | ⟨-, v, balance, r, -, heq, -⟩ :=
        issue_cases s beneficiary amount nullifier
      · rw [heq]; exact ⟨rfl, .inl rfl⟩
      · rw [heq]; exact ⟨rfl, .inl rfl⟩
  | escrowRedemption r =>
      show (s.escrowRedemption r).2.now = _ ∧
        ((s.escrowRedemption r).2.reserve = { s.reserve with
          supply := (s.escrowRedemption r).2.reserve.supply } ∨ _)
      obtain ⟨e, heq⟩ | ⟨-, remaining, -, heq⟩ := escrowRedemption_cases s r
      · rw [heq]; exact ⟨rfl, .inl rfl⟩
      · rw [heq]; exact ⟨rfl, .inl rfl⟩
  | confirmRedemption user seq =>
      show (s.confirmRedemption user seq).2.now = _ ∧
        ((s.confirmRedemption user seq).2.reserve = { s.reserve with
          supply := (s.confirmRedemption user seq).2.reserve.supply } ∨ _)
      obtain ⟨e, heq, -⟩ | ⟨record, supply, -, -, -, heq⟩ :=
        confirmRedemption_cases s user seq
      · rw [heq]; exact ⟨rfl, .inl rfl⟩
      · rw [heq]; exact ⟨rfl, .inl rfl⟩
  | reclaimRedemption user seq =>
      show (s.reclaimRedemption user seq).2.now = _ ∧
        ((s.reclaimRedemption user seq).2.reserve = { s.reserve with
          supply := (s.reclaimRedemption user seq).2.reserve.supply } ∨ _)
      obtain ⟨e, heq⟩ | ⟨record, balance, -, -, -, ⟨-, heq⟩ | ⟨-, -, e, heq⟩⟩ :=
        reclaimRedemption_cases s user seq
      · rw [heq]; exact ⟨rfl, .inl rfl⟩
      · rw [heq]; exact ⟨rfl, .inl rfl⟩
      · rw [heq]; exact ⟨rfl, .inl rfl⟩
  | updateAttestation reserve encumbered =>
      exact ⟨rfl, .inr ⟨reserve, encumbered, rfl, rfl⟩⟩

/-- A hand on the simulator touches neither the nullifiers nor the escrow
records nor the supply. Only `set_now` moves the clock, and only
`set_encumbered` the encumbrance. -/
theorem control_cases (s : State) (m : SimulatorControl) :
    ∃ balances inventory params now encumbered,
      (s.control m).2 = { s with
        balances := balances
        inventory := inventory
        params := params
        now := now
        reserve := { s.reserve with encumbered := encumbered } } ∧
      ((∀ t, m ≠ .setNow t) → now = s.now) ∧
      ((∀ a, m ≠ .setEncumbered a) → encumbered = s.reserve.encumbered) := by
  cases m with
  | setNow t => exact ⟨_, _, _, t, _, rfl, fun h => absurd rfl (h t), fun _ => rfl⟩
  | setParams params => exact ⟨_, _, params, _, _, rfl, fun _ => rfl, fun _ => rfl⟩
  | fundInventory fromUser amount =>
      show ∃ _ _ _ _ _, (s.fundInventory fromUser amount).2 = _ ∧ _
      obtain ⟨e, heq⟩ | ⟨remaining, -, ⟨thbc, -, heq⟩ | ⟨-, e, heq⟩⟩ :=
        fundInventory_cases s fromUser amount
      · rw [heq]; exact ⟨_, _, _, _, _, rfl, fun _ => rfl, fun _ => rfl⟩
      · rw [heq]; exact ⟨_, _, _, _, _, rfl, fun _ => rfl, fun _ => rfl⟩
      · rw [heq]; exact ⟨_, _, _, _, _, rfl, fun _ => rfl, fun _ => rfl⟩
  | fundGrxInventory amount =>
      obtain ⟨grx, heq⟩ := fundGrxInventory_snd s amount
      show ∃ _ _ _ _ _, (s.fundGrxInventory amount).2 = _ ∧ _
      rw [heq]
      exact ⟨_, _, _, _, _, rfl, fun _ => rfl, fun _ => rfl⟩
  | setEncumbered amount =>
      exact ⟨_, _, _, _, amount, rfl, fun _ => rfl, fun h => absurd rfl (h amount)⟩

theorem control_now (s : State) {m : SimulatorControl} (h : ∀ t, m ≠ .setNow t) :
    (s.control m).2.now = s.now := by
  obtain ⟨_, _, _, _, _, heq, hnow, -⟩ := control_cases s m
  rw [heq]
  exact hnow h

end Thbc.SimulatedLedger.State
