import Thbc.Proofs.InFlight
import Thbc.Lib.Run

/-!
# A payout whose order got lost

`process_payout` writes `PayoutQueued` and then orders the wire. When the order
fails the row has left `Escrowed`, and the F4 barrier that let it through once
refuses it from then on: the order of the rail is idempotent, but no retry gets
to it.
-/

namespace Thbc.OffRamp

open Thbc.Lib Thbc.Service

/-! ## The queue and the rows -/

/-- Every wire that was ordered is for a row past its escrow. -/
def Ordered (rows : InMemoryRedemptionRepo) (sent : RecordingPayoutQueue) : Prop :=
  ∀ p ∈ sent, ∃ row, rows.lookup (p.1, p.2.1) = some row ∧ isPast row.state = true

theorem Aligned.past_of_step {call : Call} {w w' : World} {stage : ℕ → Phase} {t : ℕ}
    {q q' : Phase} {a : Act Port Port.Reply}
    (h : Aligned w.redemptions w.ledger.escrows stage) (ht : stage t = q)
    (hs : Step call w w' q a q') {k : String × UInt64} {row : Redemption}
    (hrow : w.redemptions.lookup k = some row) (hpast : isPast row.state = true) :
    ∃ row', w'.redemptions.lookup k = some row' ∧ isPast row'.state = true := by
  have hsame : w'.redemptions = w.redemptions →
      ∃ row', w'.redemptions.lookup k = some row' ∧ isPast row'.state = true := by
    intro heq
    rw [heq]
    exact ⟨row, hrow, hpast⟩
  have hwrite : ∀ (r : Redemption) (st : RedemptionState), isPast st = true →
      w'.redemptions = AList.insert r.key { r with state := st } w.redemptions →
      ∃ row', w'.redemptions.lookup k = some row' ∧ isPast row'.state = true := by
    intro r st hst heq
    rw [heq]
    by_cases hk : k = r.key
    · rw [hk]
      exact ⟨_, AList.lookup_insert _, hst⟩
    · rw [AList.lookup_insert_ne hk]
      exact ⟨row, hrow, hpast⟩
  cases hs with
  | @inserted r _ _ hnone heq _ =>
      have hk : k ≠ r.key := AList.ne_of_lookup hrow hnone
      rw [heq, AList.lookup_insert_ne hk]
      exact ⟨row, hrow, hpast⟩
  | @recorded r heq _ =>
      obtain ⟨⟨row', hrow', hreq⟩, -⟩ := h.drafting t r _ ht
      have hk : k ≠ r.key := by
        intro hk
        rw [hk, hrow'] at hrow
        rw [← Option.some.inj hrow, hreq] at hpast
        cases hpast
      rw [heq, AList.lookup_insert_ne hk]
      exact ⟨row, hrow, hpast⟩
  | queued heq _ => exact hwrite _ _ rfl heq
  | confirmed heq _ => exact hwrite _ _ rfl heq
  | reclaimed heq _ => exact hwrite _ _ rfl heq
  | found _ _ hw => exact hsame (by rw [hw])
  | escrowed heq _ _ => exact hsame heq
  | applied _ hw => exact hsame (by rw [hw])
  | enqueued heq _ => exact hsame heq
  | burned _ heq _ _ _ => exact hsame heq
  | due _ hw => exact hsame (by rw [hw])
  | returned heq _ _ _ _ _ => exact hsame heq
  | other _ _ heq _ => exact hsame heq

section Exec

variable [Sha256]

/-- The queue grows by what the rail is asked to pay. -/
theorem sent_exec (e : Env) (s : Port) (w : World) :
    (World.exec e s w).2.sent = w.sent ∨
    ∃ user seq amount, s = .payouts (.enqueue user seq amount) ∧
      (World.exec e s w).2.sent = w.sent ++ [(user, seq, amount)] := by
  cases s with
  | payouts m =>
      cases m with
      | enqueue user seq amount =>
          cases hf : e.payoutFault with
          | some f =>
              left
              simp only [World.exec, hf]
          | none =>
              by_cases hin : (w.sent.any fun p => p.1 = user && p.2.1 = seq) = true
              · left
                simp only [World.exec, hf, RecordingPayoutQueue.enqueue, if_pos hin]
              · right
                refine ⟨user, seq, amount, rfl, ?_⟩
                simp only [World.exec, hf, RecordingPayoutQueue.enqueue, if_neg hin]
  | _ => exact .inl rfl

variable {calls : List Call} {c : Calls}

theorem Working.ordered_step (h : Working calls c)
    (hord : Ordered c.world.redemptions c.world.sent) (t : ℕ × Env) :
    Ordered (c.step World.exec t).world.redemptions (c.step World.exec t).world.sent := by
  obtain heq | ⟨s, hworld, hm⟩ := Pool.step_cases (fun i => grammar (callAt calls i))
    World.exec c t
  · rw [heq]
    exact hord
  · have hstep := step_exec (e := t.2) (w := c.world) (h.obeys.asks hm.asked)
    rw [hworld]
    intro p hp
    have hkeep : ∀ {row : Redemption},
        c.world.redemptions.lookup (p.1, p.2.1) = some row → isPast row.state = true →
        ∃ row', (World.exec t.2 s c.world).2.redemptions.lookup (p.1, p.2.1) =
          some row' ∧ isPast row'.state = true := fun hrow hpast =>
      h.aligned.past_of_step rfl hstep hrow hpast
    obtain hsent | ⟨user, seq, amount, rfl, hsent⟩ := sent_exec t.2 s c.world
    · rw [hsent] at hp
      obtain ⟨row, hrow, hpast⟩ := hord p hp
      exact hkeep hrow hpast
    · rw [hsent, List.mem_append, List.mem_singleton] at hp
      obtain hp | rfl := hp
      · obtain ⟨row, hrow, hpast⟩ := hord p hp
        exact hkeep hrow hpast
      · have hasks := h.obeys.asks hm.asked
        change (grammar (callAt calls t.1)).asks (phaseAt calls c t.1) _ at hasks
        obtain ⟨row, hrow, hpast⟩ : ∃ row,
            c.world.redemptions.lookup (user, seq) = some row ∧
              isPast row.state = true := by
          cases hq : phaseAt calls c t.1 with
          | idle =>
              rw [hq] at hasks
              exact hasks.elim
          | drafting r s =>
              rw [hq] at hasks
              cases s <;> cases hasks
          | settling r s =>
              rw [hq] at hasks
              cases s with
              | queued =>
                  have hport : Port.payouts (.enqueue user seq amount) =
                    .payouts (.enqueue r.user r.seq r.amount) := hasks
                  cases hport
                  have hheld := h.aligned.settling t.1 r .queued hq
                  have hesc := hheld.queueing (.inr rfl)
                  obtain ⟨row, hrow, -, hpast⟩ := hheld.left (by simp [hesc])
                  exact ⟨row, hrow, hpast rfl⟩
              | _ => cases hasks
        exact hkeep hrow hpast

theorem Working.ordered_run (h : Working calls c)
    (hord : Ordered c.world.redemptions c.world.sent) (ts : List (ℕ × Env)) :
    Working calls (c.run World.exec ts) ∧
      Ordered (c.run World.exec ts).world.redemptions (c.run World.exec ts).world.sent :=
  Pool.run_induct (I := fun c => Working calls c ∧
      Ordered c.world.redemptions c.world.sent)
    (fun _ t ⟨h, hord⟩ _ => ⟨h.step t, h.ordered_step hord t⟩)
    (Pool.along_true _ _ _) ⟨h, hord⟩

/-! ## Attempts -/

omit [Sha256] in
def railFault (faults : ℕ → PortError) (k : ℕ) : (s : Port) → Option s.Reply
  | .payouts _ => some (.error (faults k))
  | _ => none

/-- The world with a rail that fails the next so many orders, and none after. -/
def flaky (faults : ℕ → PortError) : Handler Port Port.Reply Env (World × ℕ) :=
  Handler.failing (fun e => World.exec { e with payoutFault := none }) (railFault faults)

/-- `process_payout` for one redemption, again and again: what each call returns,
and what they leave. -/
def attempts (deltaSecs : Int64) (faults : ℕ → PortError) (user : String)
    (seq : UInt64) : List (ℕ → Env) → World × ℕ →
      List (PortResult CallOutcome) × (World × ℕ)
  | [], x => ([], x)
  | es :: ess, x =>
      let r := (Call.prog deltaSecs (.processPayout user seq)).run (flaky faults) es x
      let rest := attempts deltaSecs faults user seq ess r.2
      (r.1 :: rest.1, rest.2)

variable {w : World} {user : String} {seq : UInt64} {r : Redemption}
  {faults : ℕ → PortError} {k : ℕ}

theorem flaky_redemptions (e : Env) (m : RedemptionRepository) (w : World) (k : ℕ) :
    flaky faults e (.redemptions m) (w, k) =
      ((World.exec { e with payoutFault := none } (.redemptions m) w).1,
        (World.exec { e with payoutFault := none } (.redemptions m) w).2, k) :=
  failing_of_sound (fun _ => rfl) e w k

theorem processPayout_found {Q : PortResult Unit → World × ℕ → Prop}
    (hrow : w.redemptions.lookup (user, seq) = some r)
    (h : (core r.enqueuePayout >>= fun r' => redemptions (.update r') >>= fun _ =>
        payouts (.enqueue user seq r'.amount)).run.Meets
      (Handler.arenaWhere (flaky faults) fun _ _ => True) Q (w, k)) :
    (RedemptionService.processPayout user seq).run.Meets
      (Handler.arenaWhere (flaky faults) fun _ _ => True) Q (w, k) := by
  refine meets_run_bind.mpr (meets_call_where.mpr fun e _ => ?_)
  rw [flaky_redemptions]
  simp only [World.exec, InMemoryRedemptionRepo.call, InMemoryRedemptionRepo.find, hrow]
  exact meets_some.mpr h

theorem attempt_refused (hrow : w.redemptions.lookup (user, seq) = some r)
    (hst : r.state ≠ .escrowed) (deltaSecs : Int64) (es : ℕ → Env) :
    (Call.prog deltaSecs (.processPayout user seq)).run (flaky faults) es (w, k) =
      (.error (.domain (.burnNotConfirmed r.state.asStr)), (w, k)) := by
  have hmeets : (Call.prog deltaSecs (.processPayout user seq)).Meets
      (Handler.arenaWhere (flaky faults) fun _ _ => True)
      (fun b x => (b, x) =
        (.error (.domain (.burnNotConfirmed r.state.asStr)), (w, k))) (w, k) := by
    refine meets_run_bind.mpr (processPayout_found hrow ?_)
    have hrefuse : r.enqueuePayout = .error (.burnNotConfirmed r.state.asStr) :=
      if_pos hst
    rw [hrefuse]
    exact rfl
  exact meets_run_along hmeets (Prog.along_of_forall (fun _ _ => trivial) _ _)

def queuedAt (w : World) (r : Redemption) : World :=
  { w with redemptions :=
    AList.insert r.key { r with state := .payoutQueued } w.redemptions }

def orderedAt (w : World) (r : Redemption) : World :=
  { queuedAt w r with
    sent := (RecordingPayoutQueue.enqueue w.sent r.user r.seq r.amount).2 }

/-- Past the barrier the row is written, and then the rail decides. -/
theorem attempt_passed (hrow : w.redemptions.lookup (user, seq) = some r)
    (hkey : r.key = (user, seq)) (hst : r.state = .escrowed) (deltaSecs : Int64)
    (es : ℕ → Env) :
    (Call.prog deltaSecs (.processPayout user seq)).run (flaky faults) es (w, k) =
      match k with
      | 0 => (.ok .done, (orderedAt w r, 0))
      | k + 1 => (.error (faults k), (queuedAt w r, k)) := by
  obtain ⟨rfl, rfl⟩ := Prod.mk.inj hkey
  have hmeets : (Call.prog deltaSecs (.processPayout r.user r.seq)).Meets
      (Handler.arenaWhere (flaky faults) fun _ _ => True)
      (fun b x => (b, x) = match k with
        | 0 => (.ok .done, (orderedAt w r, 0))
        | k + 1 => (.error (faults k), (queuedAt w r, k))) (w, k) := by
    refine meets_run_bind.mpr (processPayout_found hrow ?_)
    rw [Redemption.enqueuePayout_ok.mpr ⟨hst, rfl⟩]
    refine meets_core_ok.mpr (meets_run_bind.mpr (meets_call_where.mpr fun e _ => ?_))
    have hwrite : World.exec { e with payoutFault := none }
        (.redemptions (.update { r with state := .payoutQueued })) w =
        (.ok (), queuedAt w r) := by
      obtain ⟨hnone, -⟩ | heq :=
        @exec_update _ { e with payoutFault := none } w { r with state := .payoutQueued }
      · have hsome : w.redemptions.lookup r.key = none := hnone
        rw [show r.key = (r.user, r.seq) from rfl, hrow] at hsome
        cases hsome
      · exact heq
    rw [flaky_redemptions, hwrite]
    refine meets_call_where.mpr fun e' _ => ?_
    cases k with
    | zero =>
        have hpaid :
            (RecordingPayoutQueue.enqueue w.sent r.user r.seq r.amount).1 = .ok () := by
          unfold RecordingPayoutQueue.enqueue
          split <;> rfl
        simp only [flaky, Handler.failing, World.exec]
        rw [show (queuedAt w r).sent = w.sent from rfl, hpaid]
        exact rfl
    | succ k => exact rfl
  exact meets_run_along hmeets (Prog.along_of_forall (fun _ _ => trivial) _ _)

theorem attempts_refused (hrow : w.redemptions.lookup (user, seq) = some r)
    (hst : r.state ≠ .escrowed) (deltaSecs : Int64) (ess : List (ℕ → Env)) :
    .ok .done ∉ (attempts deltaSecs faults user seq ess (w, k)).1 ∧
      (attempts deltaSecs faults user seq ess (w, k)).2 = (w, k) := by
  induction ess with
  | nil => exact ⟨List.not_mem_nil, rfl⟩
  | cons es ess ih =>
      simp only [attempts, attempt_refused hrow hst deltaSecs es]
      refine ⟨?_, ih.2⟩
      rw [List.mem_cons, not_or]
      exact ⟨by simp, ih.1⟩

/-- However often `process_payout` is called, while the rail fails its first `k`
orders: if that is more than `k` times one of the calls succeeds, and the rail has
one order for the redemption, with this amount. -/
def Survives (deltaSecs : Int64) (w : World) (faults : ℕ → PortError) (k : ℕ)
    (user : String) (seq : UInt64) (amount : Thb) : Prop :=
  ∀ ess : List (ℕ → Env), k < ess.length →
    .ok .done ∈ (attempts deltaSecs faults user seq ess (w, k)).1 ∧
    ((attempts deltaSecs faults user seq ess (w, k)).2.1.sent.filter fun p =>
      p.1 = user && p.2.1 = seq) = [(user, seq, amount)]

omit [Sha256] in
theorem lookup_queuedAt (w : World) (hkey : r.key = (user, seq)) :
    (queuedAt w r).redemptions.lookup (user, seq) =
      some { r with state := .payoutQueued } := by
  rw [← hkey]
  exact AList.lookup_insert _

omit [Sha256] in
theorem filter_of_escrowed (hord : Ordered w.redemptions w.sent)
    (hrow : w.redemptions.lookup (user, seq) = some r) (hst : r.state = .escrowed) :
    (w.sent.filter fun p => p.1 = user && p.2.1 = seq) = [] := by
  refine List.filter_eq_nil_iff.mpr fun p hp hkey => ?_
  simp only [Bool.and_eq_true, decide_eq_true_eq] at hkey
  obtain ⟨row, hrow', hpast⟩ := hord p hp
  rw [hkey.1, hkey.2, hrow, Option.some.injEq] at hrow'
  rw [← hrow', hst] at hpast
  cases hpast

/-- Whatever calls have overlapped before: the payout of an escrowed redemption
survives the faults of the rail exactly where there are none. -/
theorem payout_survives_iff {ledger : SimulatedLedger.State} (hesc : ledger.escrows = ∅)
    (deltaSecs : Int64) (calls : List Call) (ts : List (ℕ × Env))
    (hw : w = ((Calls.start deltaSecs calls (.fresh ledger)).run World.exec ts).world)
    (hrow : w.redemptions.lookup (user, seq) = some r) (hst : r.state = .escrowed)
    (faults : ℕ → PortError) (k : ℕ) :
    Survives deltaSecs w faults k user seq r.amount ↔ k = 0 := by
  obtain ⟨hwork, hord⟩ := (working_fresh hesc deltaSecs calls).ordered_run
    (fun p hp => by cases hp) ts
  rw [← hw] at hord
  have hkey : r.key = (user, seq) := by
    have hkeyed := hwork.aligned.keyed
    rw [← hw] at hkeyed
    exact hkeyed _ _ hrow
  have hlook := lookup_queuedAt w hkey
  have hgone : RedemptionState.payoutQueued ≠ .escrowed := by simp
  constructor
  · intro h
    cases k with
    | zero => rfl
    | succ k =>
        exfalso
        let es : ℕ → Env := fun _ => ⟨0, .ok .pass, none, fun _ => 0, fun _ => 0⟩
        have hok := (h (List.replicate (k + 2) es) (by simp)).1
        rw [List.replicate_succ, attempts,
          attempt_passed hrow hkey hst deltaSecs es] at hok
        obtain hok | hok := List.mem_cons.mp hok
        · cases hok
        · exact (attempts_refused hlook hgone deltaSecs _).1 hok
  · intro hk ess hlen
    subst hk
    cases ess with
    | nil => cases hlen
    | cons es ess =>
        have hnone := filter_of_escrowed hord hrow hst
        have hsent : (orderedAt w r).sent = w.sent ++ [(user, seq, r.amount)] := by
          obtain ⟨rfl, rfl⟩ := Prod.mk.inj hkey
          have hany : ¬ (w.sent.any fun p => p.1 = r.user && p.2.1 = r.seq) = true := by
            rw [List.any_eq_true]
            intro ⟨p, hp, hp'⟩
            exact List.filter_eq_nil_iff.mp hnone p hp hp'
          simp only [orderedAt, RecordingPayoutQueue.enqueue, if_neg hany]
        have hlook' : (orderedAt w r).redemptions.lookup (user, seq) =
            some { r with state := .payoutQueued } := hlook
        simp only [attempts, attempt_passed hrow hkey hst deltaSecs es]
        refine ⟨List.mem_cons_self, ?_⟩
        rw [(attempts_refused hlook' hgone deltaSecs ess).2, hsent, List.filter_append,
          hnone]
        simp

end Exec

open Sample

theorem payout_survives_iff_sound :
    Survives 86400 ((Calls.start 86400 [.request "alice" ⟨100⟩] (.fresh funded)).run
      World.exec (schedule (env 0 .pass) [0, 0, 0, 0, 0, 0])).world
      (fun _ => .transient "down") 0 "alice" 1 ⟨100⟩ :=
  (payout_survives_iff (r := ⟨"alice", 1, ⟨100⟩, .escrowed, 0, some 0, 86400⟩) rfl 86400
    _ _ rfl (by decide) rfl _ 0).mpr rfl

/-- The rail refuses the first order, and the second never gets there. -/
theorem payout_lost :
    ¬ Survives 86400 ((Calls.start 86400 [.request "alice" ⟨100⟩] (.fresh funded)).run
      World.exec (schedule (env 0 .pass) [0, 0, 0, 0, 0, 0])).world
      (fun _ => .transient "down") 1 "alice" 1 ⟨100⟩ := by
  intro h
  have hsent := (h [fun _ => env 0 .pass, fun _ => env 0 .pass] (by decide)).2
  exact absurd hsent (by decide)

end Thbc.OffRamp
