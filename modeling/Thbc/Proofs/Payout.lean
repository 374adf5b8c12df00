import Thbc.Proofs.Settling

/-!
# Payouts and returned tokens

The F4 barrier of `process_payout` looks at a copy. Between the read of the
row and the order to the rail a `reclaim` can take the tokens back from the
ledger, and a row that `reclaim` has not written back yet still says
`Escrowed` when the ledger's record is gone. Either way a wire goes out for
tokens that the holder has again.

`paysInTime` says of a step that it opens neither window: the ledger gives no
tokens back while another call is on its way to the rail with the same
redemption, and no payout picks up a redemption that a `reclaim` has yet to
write. Under it every wire has its tokens, escrowed or burned.
-/

namespace Thbc.OffRamp

open Thbc.Lib

/-- The ledger would give the tokens of `k` back if it were asked now. -/
def due (s : SimulatedLedger.State) (k : String × UInt64) : Bool :=
  match s.escrows.lookup k with
  | some record =>
      !record.burned &&
        decide (SimulatedLedger.SIMULATED_DELTA_SECS ≤
          saturatingSub s.now record.escrowedAt) &&
        decide ((s.balanceOf k.1).toNat + record.amount.toNat < UInt64.size)
  | none => false

/-- The ledger gives the tokens of a redemption back only while no other call
is between finding it `Escrowed` and ordering its wire; and a payout finds a
row `Escrowed` only while no other call has had the tokens given back and not
yet written so. -/
def paysInTime (calls : List Call) (c : Calls) (t : ℕ × Env) : Bool :=
  match phaseAt calls c t.1 with
  | .settling r .returning =>
      !due c.world.ledger r.key ||
        !elsewhere calls c t.1 [.queueing, .queued] r.key
  | .idle =>
      match callAt calls t.1, c.pending t.1 with
      | .processPayout _ _, some (.redemptions (.find user seq)) =>
          !isRow .escrowed c.world.redemptions (user, seq) ||
            !elsewhere calls c t.1 [.returned] (user, seq)
      | _, _ => true
  | _ => true

/-- When a wire is ordered, the ledger holds the tokens or has burned them. -/
def Backed (c : Calls) (t : ℕ × Env) : Prop :=
  ∀ user seq amount,
    c.pending t.1 = some (.payouts (.enqueue user seq amount)) →
    ∃ record, c.world.ledger.escrows.lookup (user, seq) = some record ∧
      record.amount = amount

/-- Copies on their way to the rail, and rows that may get there, have their
tokens on the ledger; a row may lag behind a `reclaim` that is about to write
it. -/
structure Covered (calls : List Call) (c : Calls) : Prop where
  paying : ∀ i r s, phaseAt calls c i = .settling r s →
    s ∈ [Settlement.queueing, Settlement.queued] →
    ∃ record, c.world.ledger.escrows.lookup r.key = some record ∧
      record.amount = r.amount
  escrowed : ∀ k row, c.world.redemptions.lookup k = some row →
    row.state = .escrowed →
    (∃ record, c.world.ledger.escrows.lookup k = some record ∧
      record.amount = row.amount) ∨
    ∃ i r, phaseAt calls c i = .settling r .returned ∧ r.key = k

section Move

variable {calls : List Call} {c c' : Calls} {t : ℕ × Env}
  {a : Act Port Port.Reply} {q' : Phase}

theorem due_of_lookup {s : SimulatedLedger.State} {k : String × UInt64}
    {record : SimulatedLedger.EscrowRecord}
    (hrec : s.escrows.lookup k = some record) (hb : record.burned = false)
    (hdue : SimulatedLedger.SIMULATED_DELTA_SECS ≤
      saturatingSub s.now record.escrowedAt)
    (hroom : (s.balanceOf k.1).toNat + record.amount.toNat < UInt64.size) :
    due s k = true := by
  unfold due
  rw [hrec]
  simp only [hb, decide_eq_true hdue, decide_eq_true hroom]
  rfl

theorem backing_of_move (hc : Coherent calls c) (hm : Move calls c c' t.1 a q')
    {k : String × UInt64} {amount : Thb}
    (h : ∃ record, c.world.ledger.escrows.lookup k = some record ∧
      record.amount = amount) :
    (∃ record, c'.world.ledger.escrows.lookup k = some record ∧
      record.amount = amount) ∨
    ∃ r, r.key = k ∧ phaseAt calls c t.1 = .settling r .returning ∧
      q' = .settling r .returned ∧ due c.world.ledger k = true := by
  obtain ⟨record, hrec, hamount⟩ := h
  rcases hc.record_of_move hm k with
    heq | ⟨r, e, hk, he, hb, ⟨-, heq⟩ | ⟨hq, hq', hdue, hroom, -⟩⟩
  · exact .inl ⟨record, by rw [heq]; exact hrec, hamount⟩
  · rw [hrec] at he
    cases he
    exact .inl ⟨_, heq, hamount⟩
  · exact .inr ⟨r, hk, hq, hq', due_of_lookup he hb hdue hroom⟩

theorem paying_of_move (hc : Coherent calls c) (hm : Move calls c c' t.1 a q')
    {r : Redemption} {s : Settlement} (hq' : q' = .settling r s)
    (hs : s ∈ [Settlement.queueing, Settlement.queued]) :
    c'.world.ledger = c.world.ledger ∧
      (phaseAt calls c t.1 = .settling r .queueing ∨
        (phaseAt calls c t.1 = .idle ∧
          c.pending t.1 = some (.redemptions (.find r.user r.seq)) ∧
          (∃ user seq, callAt calls t.1 = .processPayout user seq) ∧
          c.world.redemptions.lookup r.key = some r ∧ r.state = .escrowed)) := by
  subst hq'
  have hstep := hm.step
  have hasked := hm.asked
  generalize hq : phaseAt calls c t.1 = q at hstep
  cases hstep with
  | @found user seq _ _ hstage hfind hw =>
      have hkey : (user, seq) = r.key := (hc.copies.keyed _ _ hfind).symm
      rw [hkey] at hfind
      obtain ⟨rfl, rfl⟩ := Prod.mk.inj hkey
      refine ⟨by rw [hw], .inr ⟨rfl, hasked, ?_⟩⟩
      obtain ⟨-, hst, hcall⟩ | ⟨rfl, -⟩ | ⟨rfl, -⟩ := settles_cases hstage
      · exact ⟨hcall, hfind, hst⟩
      · simp at hs
      · simp at hs
  | queued _ hled => exact ⟨hled, .inl rfl⟩
  | @burned r' _ _ hq' _ _ _ _ =>
      by_cases hp : r'.state.isPending = true
      · rw [if_pos hp] at hq'
        cases hq'
        simp at hs
      · rw [if_neg hp] at hq'
        cases hq'
  | due _ _ => simp at hs
  | returned _ _ _ _ _ _ => simp at hs

theorem Covered.move (hc : Coherent calls c) (h : Covered calls c)
    (ht : paysInTime calls c t = true) (hm : Move calls c c' t.1 a q') :
    Covered calls c' where
  paying i r s hi hs := by
    by_cases hit : i = t.1
    · rw [hit, hm.phase_self] at hi
      obtain ⟨hled, hq | ⟨hq, hasked, ⟨user, seq, hcall⟩, hlook, hst⟩⟩ :=
        paying_of_move hc hm hi hs
      · rw [hled]
        exact h.paying t.1 r _ hq (by simp)
      · rw [hled]
        rcases h.escrowed r.key r hlook hst with hrec | ⟨j, r', hj, hk⟩
        · exact hrec
        · exfalso
          have hjt : j ≠ t.1 := by
            intro hjt
            rw [hjt, hq] at hj
            cases hj
          have hrow : isRow .escrowed c.world.redemptions (r.user, r.seq) =
              true := isRow_eq_true.mpr ⟨r, hlook, hst⟩
          have helse : elsewhere calls c t.1 [.returned] (r.user, r.seq) =
              true := by
            rw [show (r.user, r.seq) = r'.key from hk.symm]
            exact hc.elsewhere hjt hj (by simp)
          unfold paysInTime at ht
          rw [hq, hcall, hasked] at ht
          simp only [hrow, helse] at ht
          cases ht
    · rw [hm.phase_of_ne hit] at hi
      rcases backing_of_move hc hm (h.paying i r s hi hs) with
        hrec | ⟨r', hk, hq, -, hdue⟩
      · exact hrec
      · exfalso
        have helse := hc.elsewhere hit hi hs
        unfold paysInTime at ht
        rw [hq] at ht
        rw [← hk] at hdue helse
        simp only [hdue, helse] at ht
        cases ht
  escrowed k row hrow hst := by
    rcases hc.row_of_move hm k with
      heq | ⟨r, s, st, row₀, -, -, hwrites, -, heq⟩
    · rw [heq] at hrow
      rcases h.escrowed k row hrow hst with hrec | ⟨i, r, hi, hk⟩
      · rcases backing_of_move hc hm hrec with hrec' | ⟨r, hk, -, hq', -⟩
        · exact .inl hrec'
        · exact .inr ⟨t.1, r, by rw [hm.phase_self, hq'], hk⟩
      · by_cases hit : i = t.1
        · -- The `reclaim` writes the row it was ahead of.
          exfalso
          rw [hit] at hi
          have hs := hm.step
          rw [hi] at hs
          obtain ⟨hins, -, -⟩ := hc.copies.write hi rfl hs
          rw [hins, ← hk, AList.lookup_insert, hk, hrow] at heq
          cases heq
          cases hst
        · exact .inr ⟨i, r, by rw [hm.phase_of_ne hit]; exact hi, hk⟩
    · rw [heq] at hrow
      cases hrow
      cases hst
      cases s with
      | queueing => cases hwrites
      | burned => cases hwrites
      | returned => cases hwrites
      | _ => cases hwrites

/-- Only a call that has queued its row orders a wire. -/
theorem Covered.backed (hc : Coherent calls c) (h : Covered calls c)
    (t : ℕ × Env) : Backed c t := by
  intro user seq amount hp
  have hasks : (grammar (callAt calls t.1)).asks (phaseAt calls c t.1)
    (.payouts (.enqueue user seq amount)) := hc.obeys.asks hp
  generalize hq : phaseAt calls c t.1 = q at hasks
  cases q with
  | idle => exact hasks.elim
  | drafting r stage => exact absurd hq (hc.copies.drafting t.1 r stage)
  | settling r stage =>
      cases stage with
      | queued =>
          have heq : Port.payouts (.enqueue user seq amount) =
            .payouts (.enqueue r.user r.seq r.amount) := hasks
          cases heq
          exact h.paying t.1 r .queued hq (by simp)
      | _ => cases hasks

end Move

section Runs

variable [Sha256]

def PayoutsBacked (deltaSecs : Int64) (calls : List Call) (w : World)
    (ts : List (ℕ × Env)) : Prop :=
  Pool.Along World.exec Backed (Calls.start deltaSecs calls w) ts

/-- In any run of settlements whose steps pay in time, no wire is ordered for
tokens that were given back. -/
theorem payouts_backed (deltaSecs : Int64) (calls : List Call) (w : World)
    (ts : List (ℕ × Env)) (hw : InStep w)
    (hcalls : ∀ call ∈ calls, call.isRequest = false)
    (h : Pool.Along World.exec (fun c t => paysInTime calls c t = true)
      (Calls.start deltaSecs calls w) ts) :
    PayoutsBacked deltaSecs calls w ts := by
  refine Pool.Along.mono (I := fun c => Coherent calls c ∧ Covered calls c)
    ?_ ?_ h ⟨coherent_start deltaSecs hcalls hw.keyed, ?_, ?_⟩
  · intro c t ⟨hc, hcov⟩ ht
    refine ⟨hc.step t, ?_⟩
    rcases hc.step_cases t with heq | ⟨a, q', hm⟩
    · rw [heq]; exact hcov
    · exact hcov.move hc ht hm
  · intro c t ⟨hc, hcov⟩ _
    exact hcov.backed hc t
  · intro i r s hi
    cases hi
  · intro k row hrow hst
    have hk := hw.agrees k
    rw [show w.redemptions.lookup k = some row from hrow] at hk
    obtain ⟨record, hrec, hamount, -⟩ := hk.pending (pending_of_escrowed hst)
    exact .inl ⟨record, hrec, hamount⟩

end Runs

open Sample

theorem payouts_backed_in_turn :
    let calls : List Call := [.processPayout "alice" 1, .reclaim "alice" 1]
    let ts := schedule (env 86400 .pass) [0, 0, 0, 1, 1, 1, 1]
    Pool.Along World.exec (fun c t => paysInTime calls c t = true)
        (Calls.start 86400 calls escrowed) ts ∧
      PayoutsBacked 86400 calls escrowed ts :=
  ⟨by decide, payouts_backed 86400 _ _ _ inStep_escrowed (by decide) (by decide)⟩

/-- The payout reads the row, the holder reclaims, and the wire goes out all
the same. -/
theorem payout_of_returned_tokens :
    let calls : List Call := [.processPayout "alice" 1, .reclaim "alice" 1]
    InStep escrowed ∧
      ¬ PayoutsBacked 86400 calls escrowed
        (schedule (env 86400 .pass) [0, 1, 1, 1, 1, 0] ++
          schedule (env 86400 .pass) [0]) := by
  intro calls
  refine ⟨inStep_escrowed, fun h => ?_⟩
  -- The wire is the last port call; the record is gone when it is ordered.
  obtain ⟨-, hlast, -⟩ := Pool.along_append.mp h
  obtain ⟨record, hrec, -⟩ := hlast "alice" 1 ⟨100⟩ (by decide)
  have hgone : ((Calls.start 86400 calls escrowed).run World.exec
      (schedule (env 86400 .pass) [0, 1, 1, 1, 1, 0])).world.ledger.escrows.lookup
        ("alice", 1) = none := by decide
  rw [hgone] at hrec
  cases hrec

end Thbc.OffRamp
