import Thbc.System.World
import Thbc.Ledger.Steps

/-!
# What a refused redemption request leaves behind

`request` inserts its row before it asks the ledger, and nothing takes the row
out again. A request for nothing stops before the insert; one that the ledger
refuses stops after it, so the row stays `Requested` for good and its sequence
number is gone.
-/

namespace Thbc

open Thbc.Lib

namespace SimulatedLedger.State

/-- What `escrow_redemption` asks: no record under the key yet, and the amount
in the balance. -/
def Escrowable (s : State) (user : String) (seq : UInt64) (amount : Thb) : Prop :=
  s.escrows.lookup (user, seq) = none ∧ amount.toNat ≤ (s.balanceOf user).toNat

theorem escrowRedemption_confirmed {s : State} {r : Redemption} :
    (s.escrowRedemption r).1 = .ok .confirmed ↔
      s.Escrowable r.user r.seq r.amount := by
  unfold Escrowable escrowRedemption
  by_cases hk : r.key ∈ s.escrows
  · have hrec : s.escrows.lookup (r.user, r.seq) ≠ none := fun h =>
      AList.lookup_eq_none.mp h hk
    simp [hk, hrec]
  · have hnone : s.escrows.lookup (r.user, r.seq) = none :=
      AList.lookup_eq_none.mpr hk
    rw [if_neg hk]
    cases hb : (s.balanceOf r.user).checkedSub r.amount with
    | error e =>
        have hlt : ¬ r.amount.toNat ≤ (s.balanceOf r.user).toNat := by
          intro hle
          obtain ⟨c, hc⟩ := Thb.checkedSub_of_le hle
          rw [hb] at hc
          cases hc
        simp [hlt]
    | ok remaining =>
        have hsub := Thb.checkedSub_ok.mp hb
        have hle : r.amount.toNat ≤ (s.balanceOf r.user).toNat := by omega
        simp [hnone, hle]

end SimulatedLedger.State

/-- The four ways a request under the number `seq` can end. -/
inductive RequestEnds (w : World) (user : String) (amount : Thb) (seq : UInt64) :
    PortResult CallOutcome → World → Prop where
  | zero (h : amount.toNat = 0) :
      RequestEnds w user amount seq (.error (.domain .zeroAmount)) w
  | taken (h : (user, seq) ∈ w.redemptions) (e : PortError) :
      RequestEnds w user amount seq (.error e) w
  | refused (hpos : 0 < amount.toNat)
      (hrefuse : ¬ w.ledger.Escrowable user seq amount) (e : PortError)
      (r : Redemption) :
      RequestEnds w user amount seq (.error e)
        { w with redemptions := AList.insert (user, seq) r w.redemptions }
  | accepted (hfree : (user, seq) ∉ w.redemptions)
      (h : w.ledger.Escrowable user seq amount) (w' : World) :
      RequestEnds w user amount seq (.ok (.redemption (.escrowed user seq))) w'

section Exec

variable [Sha256] {w : World} {e : Env} {r : Redemption}

theorem exec_insert_redemption (h : w.redemptions.lookup r.key = none) :
    World.exec e (.redemptions (.insert r)) w =
      (.ok (), { w with redemptions := AList.insert r.key r w.redemptions }) := by
  have hk : r.key ∉ w.redemptions := AList.lookup_eq_none.mp h
  simp only [World.exec, InMemoryRedemptionRepo.call, InMemoryRedemptionRepo.insert,
    if_neg hk]

theorem exec_insert_taken (h : r.key ∈ w.redemptions) :
    ∃ text, World.exec e (.redemptions (.insert r)) w = (.error (.conflict text), w) := by
  simp only [World.exec, InMemoryRedemptionRepo.call, InMemoryRedemptionRepo.insert,
    if_pos h]
  exact ⟨_, rfl⟩

theorem exec_update_redemption {row : Redemption}
    (h : w.redemptions.lookup r.key = some row) :
    World.exec e (.redemptions (.update r)) w =
      (.ok (), { w with redemptions := AList.insert r.key r w.redemptions }) := by
  obtain ⟨hnone, -⟩ | ⟨row', -, heq⟩ := w.redemptions.update_cases r
  · rw [h] at hnone
    cases hnone
  · simp only [World.exec, InMemoryRedemptionRepo.call, heq]

end Exec

section Request

variable [Sha256] {w : World} {user : String} {seq : UInt64}

/-- What is left of a request once its row is in. -/
theorem escrow_ends {r : Redemption} (hr : r.state = .requested)
    (hfree : w.redemptions.lookup r.key = none) (hpos : 0 < r.amount.toNat) :
    Prog.Meets (Handler.arenaWhere World.exec fun _ _ => True)
      (fun o w' => match o with
        | .ok o => RequestEnds w r.user r.amount r.seq (.ok (.redemption o)) w'
        | .error e => RequestEnds w r.user r.amount r.seq (.error e) w')
      (Service.ledger (.escrowRedemption r) >>= fun outcome =>
        Service.clock >>= fun now =>
          Service.core (r.applyEscrowOutcome outcome now) >>= fun redemption =>
            Service.redemptions (.update redemption) >>= fun _ =>
              pure (RedemptionService.requestOutcome redemption r.user r.seq)).run
      { w with redemptions := AList.insert r.key r w.redemptions } := by
  have hiff := w.ledger.escrowRedemption_confirmed (r := r)
  refine meets_run_bind.mpr (meets_call_where.mpr fun e _ => ?_)
  simp only [World.exec, SimulatedLedger.State.call]
  obtain ⟨err, heq⟩ | ⟨-, remaining, -, heq⟩ := w.ledger.escrowRedemption_cases r
  · have hrefuse : ¬ w.ledger.Escrowable r.user r.seq r.amount := by
      intro hok
      have hconf := hiff.mpr hok
      rw [heq] at hconf
      cases hconf
    rw [heq]
    exact .refused hpos hrefuse err r
  · have hok : w.ledger.Escrowable r.user r.seq r.amount := hiff.mp (by rw [heq])
    rw [heq]
    refine meets_run_bind.mpr (meets_clock_exec.mpr fun e' _ => ?_)
    have happly : r.applyEscrowOutcome .confirmed e'.clock =
        .ok { r with state := .escrowed, escrowedAt := some e'.clock } :=
      Redemption.applyEscrowOutcome_confirmed.mpr ⟨hr, rfl⟩
    simp only [happly]
    refine Service.meets_core_ok.mpr (meets_run_bind.mpr ?_)
    refine meets_call_det (fun e'' _ => exec_update_redemption (AList.lookup_insert _)) ?_
    exact .accepted (AList.lookup_eq_none.mp hfree) hok _

theorem request_ends (hseq : w.redemptions.nextSeq user = .ok seq) (amount : Thb)
    (deltaSecs : Int64) (es : ℕ → Env) :
    RequestEnds w user amount seq
      (w.runCall deltaSecs (.request user amount, es)).1
      (w.runCall deltaSecs (.request user amount, es)).2 := by
  have hmeets : (Call.prog deltaSecs (.request user amount)).Meets
      (Handler.arenaWhere World.exec fun _ _ => True)
      (RequestEnds w user amount seq) w := by
    refine meets_run_bind.mpr (meets_run_bind.mpr (meets_clock_exec.mpr fun e _ => ?_))
    refine meets_run_bind.mpr ?_
    refine meets_call_where.mpr fun e' _ => ?_
    simp only [World.exec, InMemoryRedemptionRepo.call, hseq]
    cases hreq : Redemption.request user seq amount deltaSecs e.clock with
    | error err =>
        have hzero : amount.toNat = 0 ∧ err = .zeroAmount := by
          unfold Redemption.request at hreq
          by_cases hz : amount.isZero = true
          · rw [if_pos hz] at hreq
            exact ⟨Thb.isZero_iff.mp hz, (Except.error.inj hreq).symm⟩
          · rw [if_neg hz] at hreq
            cases hreq
        obtain ⟨hz, rfl⟩ := hzero
        exact RequestEnds.zero hz
    | ok r =>
        obtain ⟨hpos, rfl⟩ := Redemption.request_ok.mp hreq
        refine Service.meets_core_ok.mpr (meets_run_bind.mpr ?_)
        by_cases hk : (user, seq) ∈ w.redemptions
        · refine meets_call_where.mpr fun e' _ => ?_
          obtain ⟨text, heq⟩ := exec_insert_taken (e := e')
            (r := ⟨user, seq, amount, .requested, e.clock, none, deltaSecs⟩) hk
          rw [heq]
          exact RequestEnds.taken hk _
        · have hfree := AList.lookup_eq_none.mpr hk
          refine meets_call_det (fun e' _ => exec_insert_redemption hfree) ?_
          exact meets_mono (escrow_ends rfl hfree hpos) fun o w' h => by
            cases o with
            | ok o => exact h
            | error e => exact h
  exact meets_run_along hmeets (Prog.along_of_forall (fun _ _ => trivial) _ w)

/-- A request of this amount that returns an error has changed neither the rows
nor the ledger, the number it drew is still free, and the next request that is
accepted gets it. -/
def LeavesNothing (deltaSecs : Int64) (w : World) (user : String) (amount : Thb)
    (seq : UInt64) : Prop :=
  ∀ es e w', w.runCall deltaSecs (.request user amount, es) = (.error e, w') →
    w'.redemptions = w.redemptions ∧ w'.ledger = w.ledger ∧
    w'.redemptions.find user seq = .ok none ∧
    ∀ amount' es' o,
      (w'.runCall deltaSecs (.request user amount', es')).1 = .ok o →
      o = .redemption (.escrowed user seq)

/-- A request that is refused leaves nothing behind exactly where its number is
free and it asks for nothing, or for what the ledger grants. -/
theorem leaves_nothing_iff (hseq : w.redemptions.nextSeq user = .ok seq)
    (deltaSecs : Int64) (amount : Thb) :
    LeavesNothing deltaSecs w user amount seq ↔
      w.redemptions.find user seq = .ok none ∧
        (amount.isZero = true ∨ w.ledger.escrows.lookup (user, seq) = none ∧
          amount.toNat ≤ (w.ledger.balanceOf user).toNat) := by
  constructor
  · intro h
    let es : ℕ → Env := fun _ => ⟨0, .ok .pass, none, fun _ => 0, fun _ => 0⟩
    have hends := request_ends hseq amount deltaSecs es
    have hnone : ∀ {e : PortError} {w' : World},
        w.runCall deltaSecs (.request user amount, es) = (.error e, w') →
        w'.redemptions.lookup (user, seq) = none := by
      intro e w' hrun
      exact Except.ok.inj (h es e w' hrun).2.2.1
    cases hrun : w.runCall deltaSecs (.request user amount, es) with
    | mk r w' =>
        rw [hrun] at hends
        cases hends with
        | zero hz =>
            exact ⟨congrArg Except.ok (hnone hrun), .inl (Thb.isZero_iff.mpr hz)⟩
        | taken hk e =>
            exact absurd hk (AList.lookup_eq_none.mp (hnone hrun))
        | refused hpos hrefuse e r =>
            have hrow := hnone hrun
            rw [AList.lookup_insert] at hrow
            cases hrow
        | accepted hfree hok =>
            exact ⟨congrArg Except.ok (AList.lookup_eq_none.mpr hfree), .inr hok⟩
  · intro ⟨hfind, hcond⟩ es e w' hrun
    have hfree : (user, seq) ∉ w.redemptions :=
      AList.lookup_eq_none.mp (Except.ok.inj hfind)
    have hends := request_ends hseq amount deltaSecs es
    rw [hrun] at hends
    have hw : w' = w := by
      cases hends with
      | zero hz => rfl
      | taken hk e => rfl
      | refused hpos hrefuse e r =>
          obtain hz | hok := hcond
          · rw [Thb.isZero_iff.mp hz] at hpos
            cases hpos
          · exact absurd hok hrefuse
    rw [hw]
    refine ⟨rfl, rfl, hfind, fun amount' es' o ho => ?_⟩
    have hnext := request_ends hseq amount' deltaSecs es'
    rw [ho] at hnext
    cases hnext with
    | accepted hfree' hok => rfl

end Request

open Sample

/-- Nothing was asked for, in an empty treasury. -/
theorem leaves_nothing_iff_zero : LeavesNothing 86400 treasury "alice" .zero 1 :=
  have hseq : treasury.redemptions.nextSeq "alice" = .ok 1 := rfl
  (leaves_nothing_iff hseq 86400 .zero).mpr ⟨rfl, .inl rfl⟩

/-- Alice owns nothing and asks for 100: her row stays. -/
theorem refused_request_remains : ¬ LeavesNothing 86400 treasury "alice" ⟨100⟩ 1 := by
  intro h
  have hfind := (h (fun _ => env 0 .pass) _ _ rfl).2.2.1
  cases hfind

end Thbc
