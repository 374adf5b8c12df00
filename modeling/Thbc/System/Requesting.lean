import Thbc.System.Uses
import Thbc.Ledger.Conservation

/-!
# What a redemption request may do

`request` takes the next free number in one call and inserts a row under it in
another. The grammar keeps the number a call has read, and allows an insert
under that number and no other. A request touches no tokens but those it
escrows: what a user holds, in the balance and in escrow records together,
stays the same (`holdings_exec`).
-/

namespace Thbc.Requesting

open Thbc.Lib Thbc.Service

/-- What a request asks for; every other call may ask for anything. -/
def grammar (call : Call) : Grammar Port Port.Reply (Option UInt64) where
  start := none
  advance q a :=
    match a with
    | ⟨.redemptions (.nextSeq _), .ok seq⟩ => some seq
    | _ => q
  asks q s := call.isRequest = true →
    match s with
    | .clock | .redemptions (.update _) | .ledger (.escrowRedemption _) => True
    | .redemptions (.nextSeq user) => ∃ amount, call = .request user amount
    | .redemptions (.insert r) => call = .request r.user r.amount ∧ q = some r.seq
    | _ => False
  ends _ := True
  hears _ _ := True

theorem request_obeys (deltaSecs : Int64) (user : String) (amount : Thb) :
    (RedemptionService.request deltaSecs user amount).run.Obeys
      (grammar (.request user amount)) none := by
  refine meets_now (fun _ => trivial) ?_
  intro now
  refine meets_redemptions (fun _ => ⟨amount, rfl⟩) (fun _ => trivial) ?_
  intro seq _
  cases hreq : Redemption.request user seq amount deltaSecs now with
  | error e => trivial
  | ok r =>
      obtain ⟨-, rfl⟩ := Redemption.request_ok.mp hreq
      refine meets_core_ok.mpr
        (meets_redemptions (fun _ => ⟨rfl, rfl⟩) (fun _ => trivial) ?_)
      intro u _
      refine meets_ledger (fun _ => trivial) (fun _ => trivial) ?_
      intro o _
      refine meets_now (fun _ => trivial) ?_
      intro now'
      have hrest : ∀ r', (core r' >>= fun r' =>
          (redemptions (.update r') >>= fun _ =>
            pure (RedemptionService.requestOutcome r' user seq))).run.Obeys
          (grammar (.request user amount)) (some seq) := by
        intro r'
        cases r' with
        | error e => trivial
        | ok r' =>
            exact meets_core_ok.mpr
              (meets_redemptions (fun _ => trivial) (fun _ => trivial)
                fun _ _ => trivial)
      exact hrest _

section Calls

variable [Sha256]

theorem call_obeys (deltaSecs : Int64) (call : Call) :
    (call.prog deltaSecs).Obeys (grammar call) none := by
  have hother : call.isRequest = false →
      (call.prog deltaSecs).Obeys (grammar call) none := by
    intro h
    refine (call_uses deltaSecs call).obeys_within (J := fun _ => True)
      (fun q s _ _ => ⟨fun hreq => ?_, fun _ => trivial⟩) (fun _ _ => trivial)
      trivial
    rw [h] at hreq
    cases hreq
  cases call with
  | request user amount =>
      refine meets_run_bind.mpr (meets_mono (request_obeys deltaSecs user amount) ?_)
      intro r q _
      cases r with
      | error e => trivial
      | ok o => trivial
  | _ => exact hother rfl

end Calls

/-! ## What a user holds -/

/-- The tokens of a user: the balance, and what the user's escrow records
hold. -/
def holdings (s : SimulatedLedger.State) (user : String) : ℕ :=
  (s.balanceOf user).toNat +
    s.escrows.tallyBy fun k record => if k.1 = user then record.amount.toNat else 0

theorem balanceOf_insert (s : SimulatedLedger.State) (user other : String)
    (balance : Thb) :
    ((s.balances.insert user balance).lookup other).getD .zero =
      if other = user then balance else s.balanceOf other := by
  by_cases h : other = user
  · rw [if_pos h, h, AList.lookup_insert]
    rfl
  · rw [if_neg h, AList.lookup_insert_ne h]
    rfl

theorem holdings_escrow (s : SimulatedLedger.State) (r : Redemption)
    (user : String) : holdings (s.escrowRedemption r).2 user = holdings s user := by
  obtain ⟨e, heq⟩ | ⟨hnone, remaining, hsum, heq⟩ := s.escrowRedemption_cases r
  · rw [heq]
  · rw [heq]
    have hrec := AList.tallyBy_insert (fun (k : String × UInt64)
        (record : SimulatedLedger.EscrowRecord) =>
      if k.1 = user then record.amount.toNat else 0) s.escrows r.key
      ⟨r.amount, s.now, false⟩
    rw [AList.weight_of_none hnone] at hrec
    unfold holdings SimulatedLedger.State.balanceOf
    dsimp only
    rw [balanceOf_insert]
    by_cases h : user = r.user
    · subst h
      rw [if_pos rfl]
      rw [show r.key.1 = r.user from rfl, if_pos rfl] at hrec
      unfold SimulatedLedger.State.balanceOf at hsum
      dsimp only at hrec
      omega
    · rw [if_neg h]
      rw [show r.key.1 = r.user from rfl, if_neg (fun h' => h h'.symm)] at hrec
      unfold SimulatedLedger.State.balanceOf
      omega

section Exec

variable [Sha256]

/-- A request leaves everyone's holdings as they are. -/
theorem holdings_exec {call : Call} {q : Option UInt64} {e : Env} {s : Port}
    {w : World} (hcall : call.isRequest = true) (h : (grammar call).asks q s)
    (user : String) :
    holdings (World.exec e s w).2.ledger user = holdings w.ledger user := by
  have hs := h hcall
  cases s with
  | ledger m =>
      cases m with
      | escrowRedemption r => exact holdings_escrow w.ledger r user
      | _ => exact hs.elim
  | clock => rfl
  | redemptions m => rfl
  | _ => exact hs.elim

/-- A number a call holds is one it held before, or the one it was just
given. -/
theorem seq_exec {call : Call} {q : Option UInt64} {e : Env} {s : Port}
    {w : World} {seq : UInt64} (hcall : call.isRequest = true)
    (hs : (grammar call).asks q s)
    (h : (grammar call).advance q ⟨s, (World.exec e s w).1⟩ = some seq) :
    q = some seq ∨ ∃ user amount, call = .request user amount ∧
      w.redemptions.nextSeq user = .ok seq := by
  cases s with
  | redemptions m =>
      cases m with
      | nextSeq user =>
          obtain ⟨amount, hreq⟩ := hs hcall
          replace h : (grammar call).advance q ⟨.redemptions (.nextSeq user),
            w.redemptions.nextSeq user⟩ = some seq := h
          cases hn : w.redemptions.nextSeq user with
          | error err => rw [hn] at h; exact .inl h
          | ok n =>
              rw [hn] at h
              refine .inr ⟨user, amount, hreq, ?_⟩
              rw [hn]
              exact congrArg _ (Option.some.inj h)
      | _ => exact .inl h
  | _ => exact .inl h

end Exec

end Thbc.Requesting
