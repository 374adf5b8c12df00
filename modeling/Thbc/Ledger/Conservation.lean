import Thbc.Ledger.Steps

/-!
# Tokens are conserved

Every token of the supply is in a balance, in an escrow record that has not
been burned, or in the platform's inventory. The four containers are written
one after the other by five methods; `conserved_call` and `conserved_control`
check each method against its list of results, with `AList.tally_insert` and
`AList.tally_erase` for the writes.

The overflow cases of those lists are refuted on the way. What the code adds
to a balance or to the inventory is counted in the supply already, or is
let in by the gate, so the sum is at most a supply and a supply is a `u64`.
-/

namespace Thbc.SimulatedLedger

/-- What an escrow record still holds. -/
def EscrowRecord.outstanding (e : EscrowRecord) : ℕ :=
  if e.burned then 0 else e.amount.toNat

namespace State

/-- All tokens there are, by where they are. -/
def outstanding (s : State) : ℕ :=
  s.balances.tally Thb.toNat + s.escrows.tally EscrowRecord.outstanding +
    s.inventory.thbc.toNat

/-- The supply is what is outstanding. -/
def Conserved (s : State) : Prop := s.reserve.supply.toNat = s.outstanding

theorem weight_balances (s : State) (user : String) :
    s.balances.weight Thb.toNat user = (s.balanceOf user).toNat := by
  unfold AList.weight balanceOf
  cases s.balances.lookup user with
  | none => rfl
  | some b => rfl

theorem tally_balances_insert (s : State) (user : String) (balance : Thb) :
    (s.balances.insert user balance).tally Thb.toNat + (s.balanceOf user).toNat =
      s.balances.tally Thb.toNat + balance.toNat := by
  rw [← weight_balances]
  exact AList.tally_insert _ _ _ _

theorem weight_escrows {s : State} {k : String × UInt64} {record : EscrowRecord}
    (hk : s.escrows.lookup k = some record) (hb : record.burned = false) :
    s.escrows.weight EscrowRecord.outstanding k = record.amount.toNat := by
  rw [AList.weight_of_lookup hk, EscrowRecord.outstanding, hb]
  rfl

/-! ## No sum leaves `u64` -/

theorem balance_le {s : State} (hs : s.Conserved) (user : String) :
    (s.balanceOf user).toNat ≤ s.reserve.supply.toNat := by
  have := AList.weight_le_tally Thb.toNat s.balances user
  rw [weight_balances] at this
  unfold Conserved outstanding at hs
  omega

theorem balance_add_record_le {s : State} (hs : s.Conserved) (user : String)
    {k : String × UInt64} {record : EscrowRecord}
    (hk : s.escrows.lookup k = some record) (hb : record.burned = false) :
    (s.balanceOf user).toNat + record.amount.toNat ≤ s.reserve.supply.toNat := by
  have h₁ := AList.weight_le_tally Thb.toNat s.balances user
  have h₂ := AList.weight_le_tally EscrowRecord.outstanding s.escrows k
  rw [weight_balances] at h₁
  rw [weight_escrows hk hb] at h₂
  unfold Conserved outstanding at hs
  omega

theorem balance_add_inventory_le {s : State} (hs : s.Conserved) (user : String) :
    (s.balanceOf user).toNat + s.inventory.thbc.toNat ≤ s.reserve.supply.toNat := by
  have := AList.weight_le_tally Thb.toNat s.balances user
  rw [weight_balances] at this
  unfold Conserved outstanding at hs
  omega

/-! ## What is refused in a conserving state is refused whole -/

/-- The gate's answer leaves room for the credit. -/
theorem issue_conserved {s : State} (hs : s.Conserved) (beneficiary : String)
    (amount : Thb) (nullifier : BankRefHash) :
    (∃ e, s.issue beneficiary amount nullifier = (.error e, s) ∧
      (nullifier ∈ s.nullifiers ∨
        ∃ e', s.reserve.checkIssuance amount s.now = .error e')) ∨
    (nullifier ∉ s.nullifiers ∧ ∃ v balance : Thb,
      s.reserve.checkIssuance amount s.now = .ok v ∧
      balance.toNat = (s.balanceOf beneficiary).toNat + amount.toNat ∧
      s.issue beneficiary amount nullifier = (.ok .confirmed, { s with
        nullifiers := insert nullifier s.nullifiers
        reserve := { s.reserve with supply := v }
        balances := s.balances.insert beneficiary balance })) := by
  obtain h | ⟨hn, v, balance, r, hg, heq, ⟨rfl, hbal⟩ | ⟨e, rfl, hover⟩⟩ :=
    issue_cases s beneficiary amount nullifier
  · exact .inl h
  · exact .inr ⟨hn, v, balance, hg, hbal, heq⟩
  · have hv := (ReserveState.checkIssuance_ok.mp hg).2.2.1
    have := balance_le hs beneficiary
    have := v.toNat_lt
    omega

theorem reclaimRedemption_conserved {s : State} (hs : s.Conserved)
    (user : String) (seq : UInt64) :
    (∃ e, s.reclaimRedemption user seq = (.error e, s)) ∨
    (∃ record, ∃ balance : Thb, s.escrows.lookup (user, seq) = some record ∧
      record.burned = false ∧
      SIMULATED_DELTA_SECS ≤ saturatingSub s.now record.escrowedAt ∧
      balance.toNat = (s.balanceOf user).toNat + record.amount.toNat ∧
      s.reclaimRedemption user seq = (.ok .confirmed, { s with
        balances := s.balances.insert user balance
        escrows := s.escrows.erase (user, seq) })) := by
  obtain h | ⟨record, balance, hk, hb, hd, ⟨hbal, heq⟩ | ⟨hover, -⟩⟩ :=
    reclaimRedemption_cases s user seq
  · exact .inl h
  · exact .inr ⟨record, balance, hk, hb, hd, hbal, heq⟩
  · have := balance_add_record_le hs user hk hb
    have := s.reserve.supply.toNat_lt
    omega

/-- Before its own timelock has run out the ledger gives nothing back. -/
theorem reclaimRedemption_early (s : State) {user : String} {seq : UInt64}
    {record : EscrowRecord} (hk : s.escrows.lookup (user, seq) = some record)
    (hb : record.burned = false)
    (hd : saturatingSub s.now record.escrowedAt < SIMULATED_DELTA_SECS) :
    ∃ e, s.reclaimRedemption user seq = (.error e, s) := by
  simp only [reclaimRedemption, hk, hb]
  rw [if_neg (by simp), if_pos hd]
  exact ⟨_, rfl⟩

/-- And afterwards it does, on whatever balance. -/
theorem reclaimRedemption_due {s : State} (hs : s.Conserved) {user : String}
    {seq : UInt64} {record : EscrowRecord}
    (hk : s.escrows.lookup (user, seq) = some record) (hb : record.burned = false)
    (hd : ¬ saturatingSub s.now record.escrowedAt < SIMULATED_DELTA_SECS) :
    ∃ balance : Thb,
      balance.toNat = (s.balanceOf user).toNat + record.amount.toNat ∧
      s.reclaimRedemption user seq = (.ok .confirmed, { s with
        balances := s.balances.insert user balance
        escrows := s.escrows.erase (user, seq) }) := by
  obtain ⟨balance, hsum, hc⟩ | ⟨e, hover, -⟩ := credit_cases s user record.amount
  · refine ⟨balance, hsum, ?_⟩
    simp only [reclaimRedemption, hk, hb, hc]
    rw [if_neg (by simp), if_neg hd]
  · have := balance_add_record_le hs user hk hb
    have := s.reserve.supply.toNat_lt
    omega

theorem fundInventory_conserved {s : State} (hs : s.Conserved)
    (fromUser : String) (amount : Thb) :
    (∃ e, s.fundInventory fromUser amount = (.error e, s)) ∨
    (∃ remaining thbc : Thb,
      (s.balanceOf fromUser).toNat = amount.toNat + remaining.toNat ∧
      thbc.toNat = s.inventory.thbc.toNat + amount.toNat ∧
      s.fundInventory fromUser amount = (.ok (), { s with
        balances := s.balances.insert fromUser remaining
        inventory := { s.inventory with thbc := thbc } })) := by
  obtain h | ⟨remaining, hrem, ⟨thbc, hthbc, heq⟩ | ⟨hover, -⟩⟩ :=
    fundInventory_cases s fromUser amount
  · exact .inl h
  · exact .inr ⟨remaining, thbc, hrem, hthbc, heq⟩
  · have := balance_add_inventory_le hs fromUser
    have := s.reserve.supply.toNat_lt
    omega

/-! ## Every call conserves -/

theorem conserved_new (reserve : Thb) (ttlSecs now : Int64) :
    (new reserve ttlSecs now).Conserved := rfl

theorem conserved_issue {s : State} (hs : s.Conserved) (beneficiary : String)
    (amount : Thb) (nullifier : BankRefHash) :
    (s.issue beneficiary amount nullifier).2.Conserved := by
  obtain ⟨e, heq, -⟩ | ⟨-, v, balance, hg, hbal, heq⟩ :=
    issue_conserved hs beneficiary amount nullifier
  · rw [heq]; exact hs
  · have hv := (ReserveState.checkIssuance_ok.mp hg).2.2.1
    have ht := tally_balances_insert s beneficiary balance
    rw [heq]
    unfold Conserved outstanding at hs ⊢
    simp only
    omega

theorem conserved_escrowRedemption {s : State} (hs : s.Conserved)
    (r : Redemption) : (s.escrowRedemption r).2.Conserved := by
  obtain ⟨e, heq⟩ | ⟨hk, remaining, hrem, heq⟩ := escrowRedemption_cases s r
  · rw [heq]; exact hs
  · have ht := tally_balances_insert s r.user remaining
    have he := AList.tally_insert EscrowRecord.outstanding s.escrows r.key
      ⟨r.amount, s.now, false⟩
    have hw : s.escrows.weight EscrowRecord.outstanding r.key = 0 :=
      AList.weight_of_none hk
    have ho : EscrowRecord.outstanding ⟨r.amount, s.now, false⟩ = r.amount.toNat := rfl
    rw [heq]
    unfold Conserved outstanding at hs ⊢
    simp only
    omega

theorem conserved_confirmRedemption {s : State} (hs : s.Conserved)
    (user : String) (seq : UInt64) :
    (s.confirmRedemption user seq).2.Conserved := by
  obtain ⟨e, heq, -⟩ | ⟨record, supply, hk, hb, hsup, heq⟩ :=
    confirmRedemption_cases s user seq
  · rw [heq]; exact hs
  · have he := AList.tally_insert EscrowRecord.outstanding s.escrows (user, seq)
      { record with burned := true }
    have hw := weight_escrows hk hb
    have ho : EscrowRecord.outstanding { record with burned := true } = 0 := rfl
    rw [heq]
    unfold Conserved outstanding at hs ⊢
    simp only
    omega

theorem conserved_reclaimRedemption {s : State} (hs : s.Conserved)
    (user : String) (seq : UInt64) :
    (s.reclaimRedemption user seq).2.Conserved := by
  obtain ⟨e, heq⟩ | ⟨record, balance, hk, hb, -, hbal, heq⟩ :=
    reclaimRedemption_conserved hs user seq
  · rw [heq]; exact hs
  · have ht := tally_balances_insert s user balance
    have he := AList.tally_erase EscrowRecord.outstanding s.escrows (user, seq)
    have hw := weight_escrows hk hb
    rw [heq]
    unfold Conserved outstanding at hs ⊢
    simp only
    omega

theorem conserved_fundInventory {s : State} (hs : s.Conserved)
    (fromUser : String) (amount : Thb) :
    (s.fundInventory fromUser amount).2.Conserved := by
  obtain ⟨e, heq⟩ | ⟨remaining, thbc, hrem, hthbc, heq⟩ :=
    fundInventory_conserved hs fromUser amount
  · rw [heq]; exact hs
  · have ht := tally_balances_insert s fromUser remaining
    rw [heq]
    unfold Conserved outstanding at hs ⊢
    simp only
    omega

theorem conserved_call {s : State} (hs : s.Conserved) (m : LedgerPort) :
    (s.call m).2.Conserved := by
  cases m with
  | snapshot => exact hs
  | issue beneficiary amount nullifier => exact conserved_issue hs _ _ _
  | escrowRedemption r => exact conserved_escrowRedemption hs r
  | confirmRedemption user seq => exact conserved_confirmRedemption hs _ _
  | reclaimRedemption user seq => exact conserved_reclaimRedemption hs _ _
  | updateAttestation reserve encumbered => exact hs

theorem conserved_control {s : State} (hs : s.Conserved) (m : SimulatorControl) :
    (s.control m).2.Conserved := by
  cases m with
  | setNow now => exact hs
  | setParams params => exact hs
  | fundInventory fromUser amount => exact conserved_fundInventory hs _ _
  | fundGrxInventory amount =>
      obtain ⟨grx, heq⟩ := fundGrxInventory_snd s amount
      show (s.fundGrxInventory amount).2.Conserved
      rw [heq]
      exact hs
  | setEncumbered amount => exact hs

/-! ## Every run conserves -/

theorem conserved_applyAll {s : State} (hs : s.Conserved) (ops : List Op) :
    (s.applyAll ops).Conserved := by
  induction ops generalizing s with
  | nil => exact hs
  | cons op ops ih =>
      apply ih
      cases op with
      | port m => exact conserved_call hs m
      | control m => exact conserved_control hs m

/-- Conservation in every reachable state, and with it the four checked
operations that cannot fail there. -/
theorem supply_eq_outstanding (reserve : Thb) (ttlSecs now : Int64)
    (ops : List Op) :
    let s := (new reserve ttlSecs now).applyAll ops
    s.reserve.supply.toNat =
        (s.balances.values.map Thb.toNat).sum +
          ((s.escrows.values.filter fun e => !e.burned).map
            fun e => e.amount.toNat).sum +
          s.inventory.thbc.toNat ∧
      (∀ beneficiary amount v, s.reserve.checkIssuance amount s.now = .ok v →
        ∃ b, (s.balanceOf beneficiary).checkedAdd amount = .ok b) ∧
      (∀ user seq record, s.escrows.lookup (user, seq) = some record →
        record.burned = false →
        (∃ b, (s.balanceOf user).checkedAdd record.amount = .ok b) ∧
        ∃ supply, s.reserve.supply.checkedSub record.amount = .ok supply) ∧
      (∀ fromUser amount remaining,
        (s.balanceOf fromUser).checkedSub amount = .ok remaining →
        ∃ thbc, s.inventory.thbc.checkedAdd amount = .ok thbc) := by
  intro s
  have hs : s.Conserved := conserved_applyAll (conserved_new _ _ _) ops
  refine ⟨?_, ?_, ?_, ?_⟩
  · rw [AList.sum_filter_values]
    have hf : (fun e : EscrowRecord => if !e.burned then e.amount.toNat else 0) =
        EscrowRecord.outstanding := by
      funext e
      cases h : e.burned <;> simp [EscrowRecord.outstanding, h]
    rw [hf]
    exact hs
  · intro beneficiary amount v hg
    have hv := (ReserveState.checkIssuance_ok.mp hg).2.2.1
    have := balance_le hs beneficiary
    have := v.toNat_lt
    exact Thb.checkedAdd_of_lt (by omega)
  · intro user seq record hk hb
    have hle := balance_add_record_le hs user hk hb
    have := s.reserve.supply.toNat_lt
    exact ⟨Thb.checkedAdd_of_lt (by omega), Thb.checkedSub_of_le (by omega)⟩
  · intro fromUser amount remaining hrem
    have hle := balance_add_inventory_le hs fromUser
    have hsub := Thb.checkedSub_ok.mp hrem
    have := s.reserve.supply.toNat_lt
    exact Thb.checkedAdd_of_lt (by omega)

end State

end Thbc.SimulatedLedger
