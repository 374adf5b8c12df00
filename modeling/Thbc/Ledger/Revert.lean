import Thbc.Ledger.Conservation

/-!
# Instructions revert as a unit

`issue` takes the nullifier and raises the supply before its last fallible
step, and `fund_inventory` debits a balance before the addition to the
inventory; neither undoes what it wrote. They need not: the step that would
fail is an addition to a balance or to the inventory, and in a state that
conserves tokens it stays below the supply. So an error leaves every
reachable state as it was, the whole of it.
-/

namespace Thbc.SimulatedLedger

/-- The operation returns an error. -/
def State.Fails (s : State) : Op → Prop
  | .port m => ∃ e, (s.call m).1 = .error e
  | .control m => ∃ e, (s.control m).1 = .error e

namespace State

/-- A method that either refuses and changes nothing or succeeds. -/
theorem snd_of_error {α : Type} {x : PortResult α × State} {s : State}
    {e : PortError} (hx : (∃ e', x = (.error e', s)) ∨ ∃ a s', x = (.ok a, s'))
    (he : x.1 = .error e) : x.2 = s := by
  obtain ⟨e', rfl⟩ | ⟨a, s', rfl⟩ := hx
  · rfl
  · cases he

theorem call_of_fails {s : State} (hs : s.Conserved) {m : LedgerPort}
    (h : s.Fails (.port m)) : (s.call m).2 = s := by
  obtain ⟨e, he⟩ := h
  cases m with
  | snapshot => cases he
  | issue beneficiary amount nullifier =>
      refine snd_of_error (x := s.issue beneficiary amount nullifier) ?_ he
      obtain ⟨e', heq, -⟩ | ⟨-, v, balance, -, -, heq⟩ :=
        issue_conserved hs beneficiary amount nullifier
      · exact .inl ⟨e', heq⟩
      · exact .inr ⟨_, _, heq⟩
  | escrowRedemption r =>
      refine snd_of_error (x := s.escrowRedemption r) ?_ he
      obtain ⟨e', heq⟩ | ⟨-, remaining, -, heq⟩ := escrowRedemption_cases s r
      · exact .inl ⟨e', heq⟩
      · exact .inr ⟨_, _, heq⟩
  | confirmRedemption user seq =>
      refine snd_of_error (x := s.confirmRedemption user seq) ?_ he
      obtain ⟨e', heq, -⟩ | ⟨record, supply, -, -, -, heq⟩ :=
        confirmRedemption_cases s user seq
      · exact .inl ⟨e', heq⟩
      · exact .inr ⟨_, _, heq⟩
  | reclaimRedemption user seq =>
      refine snd_of_error (x := s.reclaimRedemption user seq) ?_ he
      obtain ⟨e', heq⟩ | ⟨record, balance, -, -, -, -, heq⟩ :=
        reclaimRedemption_conserved hs user seq
      · exact .inl ⟨e', heq⟩
      · exact .inr ⟨_, _, heq⟩
  | updateAttestation reserve encumbered => cases he

theorem control_of_fails {s : State} (hs : s.Conserved) {m : SimulatorControl}
    (h : s.Fails (.control m)) : (s.control m).2 = s := by
  obtain ⟨e, he⟩ := h
  cases m with
  | fundInventory fromUser amount =>
      refine snd_of_error (x := s.fundInventory fromUser amount) ?_ he
      obtain ⟨e', heq⟩ | ⟨remaining, thbc, -, -, heq⟩ :=
        fundInventory_conserved hs fromUser amount
      · exact .inl ⟨e', heq⟩
      · exact .inr ⟨_, _, heq⟩
  | fundGrxInventory amount =>
      refine snd_of_error (x := s.fundGrxInventory amount) ?_ he
      unfold fundGrxInventory
      cases s.inventory.grx.checkedAdd amount with
      | error e' => exact .inl ⟨_, rfl⟩
      | ok grx => exact .inr ⟨_, _, rfl⟩
  | setNow now => cases he
  | setParams params => cases he
  | setEncumbered amount => cases he

/-- After any operations on a new ledger, an operation that returns an error
leaves all of the state as it was: supply, nullifiers, escrow records, both
inventories and every balance among it. -/
theorem fails_reverts (reserve : Thb) (ttlSecs now : Int64) (ops : List Op)
    (op : Op) (h : ((new reserve ttlSecs now).applyAll ops).Fails op) :
    ((new reserve ttlSecs now).applyAll ops).apply op =
      (new reserve ttlSecs now).applyAll ops := by
  have hs := conserved_applyAll (conserved_new reserve ttlSecs now) ops
  cases op with
  | port m => exact call_of_fails hs h
  | control m => exact control_of_fails hs h

/-- Everything is in the inventory, and a second mint has no headroom. -/
theorem fails_reverts_over_ceiling :
    let nullifier : BankRefHash := ⟨List.replicate 32 1, rfl⟩
    let ops : List Op := [.port (.issue "alice" ⟨100⟩ ⟨List.replicate 32 0, rfl⟩),
      .control (.fundInventory "alice" ⟨100⟩)]
    let s := (new ⟨100⟩ 3600 0).applyAll ops
    s.apply (.port (.issue "bob" ⟨1⟩ nullifier)) = s :=
  fails_reverts ⟨100⟩ 3600 0 _ _ ⟨_, rfl⟩

end State

end Thbc.SimulatedLedger
