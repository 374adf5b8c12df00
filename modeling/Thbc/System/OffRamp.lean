import Thbc.System.Uses

/-!
# What a call may do on the off-ramp

The counterpart of `OnRamp` for redemptions. A `request` drafts a new row
and has its tokens escrowed; `process_payout`, `confirm` and `reclaim` settle
a row they have read. Again a call in the middle of one of these has exactly
one request to make next, and an idle call writes no row, queues no payout
and moves no escrow.
-/

namespace Thbc.OffRamp

open Thbc.Lib Thbc.Service

/-! ## The calls that have no business here -/

/-- What leaves an idle call idle. -/
def neutral : Port → Prop
  | .redemptions (.insert _) | .redemptions (.find _ _)
  | .redemptions (.update _) => False
  | .payouts _ => False
  | .ledger (.escrowRedemption _) | .ledger (.confirmRedemption _ _)
  | .ledger (.reclaimRedemption _ _) => False
  | _ => True

theorem neutral_of_onRampPort {s : Port} (h : onRampPort s) : neutral s := by
  cases s with
  | redemptions m => exact h.elim
  | ledger m => cases m <;> first | exact h.elim | trivial
  | payouts m => exact h.elim
  | _ => trivial

theorem neutral_of_common {s : Port} (h : common s) : neutral s := by
  cases s with
  | redemptions m => cases m <;> first | exact h.elim | trivial
  | ledger m => cases m <;> first | exact h.elim | trivial
  | payouts m => exact h.elim
  | _ => trivial

/-! ## How far a call has got -/

inductive Draft where
  /-- the row is inserted as `Requested` -/
  | inserted
  /-- the ledger has answered -/
  | answered (outcome : ConfirmOutcome)
  /-- the answer is applied to the copy -/
  | applied
  deriving DecidableEq

inductive Settlement where
  /-- a payout: found `Escrowed` -/
  | queueing
  /-- a payout: persisted as `PayoutQueued` -/
  | queued
  /-- a confirm: read -/
  | confirming
  /-- a confirm: the ledger has burned -/
  | burned
  /-- a reclaim: read -/
  | reclaiming
  /-- a reclaim: the timelock has run out on the copy -/
  | returning
  /-- a reclaim: the ledger has returned the tokens -/
  | returned
  deriving DecidableEq

/-- What a call is in the middle of, with its copy of the row. The copy of a
settlement is the row as it was read. -/
inductive Phase where
  | idle
  | drafting (r : Redemption) (stage : Draft)
  | settling (r : Redemption) (stage : Settlement)
  deriving DecidableEq

/-- The one request that can follow, in the middle of something. -/
def Phase.next : Phase → Option Port
  | .idle => none
  | .drafting r .inserted => some (.ledger (.escrowRedemption r))
  | .drafting _ (.answered _) => some .clock
  | .drafting r .applied => some (.redemptions (.update r))
  | .settling r .queueing =>
      some (.redemptions (.update { r with state := .payoutQueued }))
  | .settling r .queued => some (.payouts (.enqueue r.user r.seq r.amount))
  | .settling r .confirming => some (.ledger (.confirmRedemption r.user r.seq))
  | .settling r .burned =>
      some (.redemptions (.update { r with state := .confirmed }))
  | .settling _ .reclaiming => some .clock
  | .settling r .returning => some (.ledger (.reclaimRedemption r.user r.seq))
  | .settling r .returned =>
      some (.redemptions (.update { r with state := .reclaimed }))

def opens (call : Call) : Port → Prop
  | .redemptions (.insert r) =>
      r.state = .requested ∧ call = .request r.user r.amount
  | .redemptions (.update _) => False
  | .payouts _ => False
  | .ledger (.escrowRedemption _) | .ledger (.confirmRedemption _ _)
  | .ledger (.reclaimRedemption _ _) => False
  | _ => True

def settles : Call → Redemption → Option Settlement
  | .processPayout _ _, r => if r.state = .escrowed then some .queueing else none
  | .confirm _ _, _ => some .confirming
  | .reclaim _ _, _ => some .reclaiming
  | _, _ => none

theorem settles_cases {call : Call} {r : Redemption} {stage : Settlement}
    (h : settles call r = some stage) :
    (stage = .queueing ∧ r.state = .escrowed ∧
      ∃ user seq, call = .processPayout user seq) ∨
    (stage = .confirming ∧ ∃ user seq, call = .confirm user seq) ∨
    (stage = .reclaiming ∧ ∃ user seq, call = .reclaim user seq) := by
  cases call with
  | processPayout user seq =>
      by_cases hst : r.state = .escrowed
      · rw [settles, if_pos hst] at h
        cases h
        exact .inl ⟨rfl, hst, user, seq, rfl⟩
      · rw [settles, if_neg hst] at h
        cases h
  | confirm user seq => cases h; exact .inr (.inl ⟨rfl, user, seq, rfl⟩)
  | reclaim user seq => cases h; exact .inr (.inr ⟨rfl, user, seq, rfl⟩)
  | _ => cases h

def Phase.advance (call : Call) : Phase → Act Port Port.Reply → Phase
  | .idle, ⟨.redemptions (.insert r), .ok _⟩ => .drafting r .inserted
  | .idle, ⟨.redemptions (.find _ _), .ok (some r)⟩ =>
      match settles call r with
      | some stage => .settling r stage
      | none => .idle
  | .drafting r .inserted, ⟨.ledger (.escrowRedemption _), .ok o⟩ =>
      .drafting r (.answered o)
  | .drafting r (.answered o), ⟨.clock, now⟩ =>
      match r.applyEscrowOutcome o now with
      | .ok r' => .drafting r' .applied
      | .error _ => .idle
  | .settling r .queueing, ⟨.redemptions (.update _), .ok _⟩ => .settling r .queued
  | .settling r .confirming, ⟨.ledger (.confirmRedemption _ _), .ok .confirmed⟩ =>
      if r.state.isPending then .settling r .burned else .idle
  | .settling r .reclaiming, ⟨.clock, now⟩ =>
      match r.reclaim now with
      | .ok _ => .settling r .returning
      | .error _ => .idle
  | .settling r .returning, ⟨.ledger (.reclaimRedemption _ _), .ok .confirmed⟩ =>
      .settling r .returned
  | _, _ => .idle

/-- What the code does on the off-ramp. The rows it is handed are filed under
their own key. -/
def grammar (call : Call) : Grammar Port Port.Reply Phase where
  start := .idle
  advance := Phase.advance call
  asks q s :=
    match q.next with
    | some r => s = r
    | none => opens call s
  ends q := q = .idle
  hears
    | .redemptions (.find user seq), b => ∀ r, b = .ok (some r) → r.key = (user, seq)
    | _, _ => True

/-! ## The walk through the services -/

/-- The code returns, with whatever result, and nothing is under way. -/
abbrev Settles {α : Type} (call : Call) (x : Service α) (q : Phase) : Prop :=
  x.run.Meets (grammar call).arena (fun _ q' => q' = .idle) q

theorem request_settles (deltaSecs : Int64) (user : String) (amount : Thb) :
    Settles (.request user amount)
      (RedemptionService.request deltaSecs user amount) .idle := by
  refine meets_now trivial ?_
  intro now
  refine meets_redemptions trivial (fun _ => rfl) ?_
  intro seq _
  cases hreq : Redemption.request user seq amount deltaSecs now with
  | error e => exact rfl
  | ok r =>
      obtain ⟨-, rfl⟩ := Redemption.request_ok.mp hreq
      refine meets_core_ok.mpr (meets_redemptions ⟨rfl, rfl⟩ (fun _ => rfl) ?_)
      intro u _
      refine meets_ledger rfl (fun _ => rfl) ?_
      intro o _
      refine meets_now rfl ?_
      intro now'
      cases o with
      | confirmed =>
          exact meets_core_ok.mpr (meets_redemptions rfl (fun _ => rfl) fun _ _ => rfl)
      | submitted =>
          exact meets_core_ok.mpr (meets_redemptions rfl (fun _ => rfl) fun _ _ => rfl)
      | failed =>
          exact meets_core_ok.mpr (meets_redemptions rfl (fun _ => rfl) fun _ _ => rfl)

theorem advance_find {call : Call} (r : Redemption) (user : String) (seq : UInt64) :
    (grammar call).advance .idle
        ⟨.redemptions (.find user seq), .ok (some r)⟩ =
      match settles call r with
      | some stage => .settling r stage
      | none => .idle := rfl

theorem advance_answered {call : Call} {r r' : Redemption} {o : ConfirmOutcome}
    {now : Int64} (h : r.applyEscrowOutcome o now = .ok r') :
    (grammar call).advance (.drafting r (.answered o)) ⟨.clock, now⟩ =
      .drafting r' .applied := by
  simp only [grammar, Phase.advance, h]

theorem advance_unanswered {call : Call} {r : Redemption} {o : ConfirmOutcome}
    {now : Int64} {e : CoreError} (h : r.applyEscrowOutcome o now = .error e) :
    (grammar call).advance (.drafting r (.answered o)) ⟨.clock, now⟩ = .idle := by
  simp only [grammar, Phase.advance, h]

theorem advance_due {call : Call} {r r' : Redemption} {now : Int64}
    (h : r.reclaim now = .ok r') :
    (grammar call).advance (.settling r .reclaiming) ⟨.clock, now⟩ =
      .settling r .returning := by
  simp only [grammar, Phase.advance, h]

theorem advance_early {call : Call} {r : Redemption} {now : Int64} {e : CoreError}
    (h : r.reclaim now = .error e) :
    (grammar call).advance (.settling r .reclaiming) ⟨.clock, now⟩ = .idle := by
  simp only [grammar, Phase.advance, h]

theorem processPayout_settles (user : String) (seq : UInt64) :
    Settles (.processPayout user seq)
      (RedemptionService.processPayout user seq) .idle := by
  refine meets_redemptions trivial (fun _ => rfl) ?_
  intro found hfind
  cases found with
  | none => exact rfl
  | some r =>
      refine meets_some.mpr ?_
      obtain ⟨rfl, rfl⟩ := Prod.mk.inj (hfind r rfl)
      by_cases hs : r.state = .escrowed
      · rw [advance_find, settles, if_pos hs,
          Redemption.enqueuePayout_ok.mpr ⟨hs, rfl⟩]
        refine meets_core_ok.mpr (meets_redemptions rfl (fun _ => rfl) ?_)
        intro u _
        refine Grammar.meets_call.mpr ⟨rfl, ?_⟩
        intro b _
        cases b with
        | error e => exact rfl
        | ok u => exact rfl
      · have herr : r.enqueuePayout = .error (.burnNotConfirmed r.state.asStr) :=
          if_pos hs
        rw [advance_find, settles, if_neg hs, herr]
        exact rfl

theorem confirm_settles (user : String) (seq : UInt64) :
    Settles (.confirm user seq) (RedemptionService.confirm user seq) .idle := by
  refine meets_redemptions trivial (fun _ => rfl) ?_
  intro found hfind
  cases found with
  | none => exact rfl
  | some r =>
      refine meets_some.mpr ?_
      obtain ⟨rfl, rfl⟩ := Prod.mk.inj (hfind r rfl)
      rw [advance_find, settles]
      refine meets_ledger rfl (fun _ => rfl) ?_
      intro o _
      cases o with
      | submitted => exact rfl
      | failed => exact rfl
      | confirmed =>
          have hq : (grammar (.confirm r.user r.seq)).advance
              (.settling r .confirming)
              ⟨.ledger (.confirmRedemption r.user r.seq), .ok .confirmed⟩ =
                if r.state.isPending then .settling r .burned else .idle := rfl
          rw [hq]
          show (core r.confirm >>= _).run.Meets _ _ _
          cases hp : r.state.isPending with
          | true =>
              rw [Redemption.confirm_ok.mpr ⟨hp, rfl⟩, if_pos rfl]
              refine meets_core_ok.mpr (Grammar.meets_call.mpr ⟨rfl, ?_⟩)
              intro b _
              cases b with
              | error e => exact rfl
              | ok u => exact rfl
          | false =>
              rw [if_neg (by simp)]
              cases hc : r.confirm with
              | error e => exact rfl
              | ok r' =>
                  rw [(Redemption.confirm_ok.mp hc).1] at hp
                  cases hp

theorem reclaim_settles (user : String) (seq : UInt64) :
    Settles (.reclaim user seq) (RedemptionService.reclaim user seq) .idle := by
  refine meets_redemptions trivial (fun _ => rfl) ?_
  intro found hfind
  cases found with
  | none => exact rfl
  | some r =>
      refine meets_some.mpr ?_
      obtain ⟨rfl, rfl⟩ := Prod.mk.inj (hfind r rfl)
      rw [advance_find, settles]
      refine meets_now rfl ?_
      intro now
      have hq : (grammar (.reclaim r.user r.seq)).advance
          (.settling r .reclaiming) ⟨.clock, now⟩ =
            match r.reclaim now with
            | .ok _ => .settling r .returning
            | .error _ => .idle := rfl
      rw [hq]
      show (core (r.reclaim now) >>= _).run.Meets _ _ _
      cases hr : r.reclaim now with
      | error e => exact rfl
      | ok r' =>
          obtain ⟨-, -, rfl⟩ := Redemption.reclaim_ok.mp hr
          refine meets_core_ok.mpr (meets_ledger rfl (fun _ => rfl) ?_)
          intro o _
          cases o with
          | submitted => exact rfl
          | failed => exact rfl
          | confirmed =>
              refine Grammar.meets_call.mpr ⟨rfl, ?_⟩
              intro b _
              cases b with
              | error e => exact rfl
              | ok u => exact rfl

/-! ## Every call -/

theorem asks_of_neutral {call : Call} {s : Port} (h : neutral s) :
    (grammar call).asks .idle s ∧
      ∀ b, (grammar call).advance .idle ⟨s, b⟩ = .idle := by
  cases s with
  | redemptions m =>
      cases m <;> first | exact h.elim | exact ⟨trivial, fun b => rfl⟩
  | ledger m => cases m <;> first | exact h.elim | exact ⟨trivial, fun b => rfl⟩
  | payouts m => exact h.elim
  | _ => exact ⟨trivial, fun b => rfl⟩

theorem neutral_obeys {call : Call} {α : Type} {p : Prog Port Port.Reply α}
    (h : p.Uses neutral) : p.Obeys (grammar call) .idle :=
  h.obeys (fun _ => asks_of_neutral) rfl

theorem call_obeys [Sha256] (deltaSecs : Int64) (call : Call) :
    (call.prog deltaSecs).Obeys (grammar call) .idle := by
  have hmap : ∀ {α : Type} {x : Service α} {f : α → CallOutcome},
      Settles call x .idle →
        Settles call (x >>= fun a => pure (f a)) .idle := by
    intro α x f hx
    refine meets_run_bind.mpr (meets_mono hx ?_)
    intro r q hq
    subst hq
    cases r with
    | error e => exact rfl
    | ok a => exact rfl
  have hon : call.ports = onRampPort →
      (call.prog deltaSecs).Obeys (grammar call) .idle := by
    intro h
    refine neutral_obeys ((call_uses deltaSecs call).mono fun s hs => ?_)
    rw [h] at hs
    exact neutral_of_onRampPort hs
  cases call with
  | handleDeposit b a ben wal => exact hon rfl
  | retryHeld b => exact hon rfl
  | retryAllHeld => exact hon rfl
  | request user amount => exact hmap (request_settles deltaSecs user amount)
  | processPayout user seq => exact hmap (processPayout_settles user seq)
  | confirm user seq => exact hmap (confirm_settles user seq)
  | reclaim user seq => exact hmap (reclaim_settles user seq)
  | _ => exact neutral_obeys ((call_common _ _ rfl).mono fun s => neutral_of_common)

end Thbc.OffRamp
