import Thbc.Proofs.Settling

/-!
# Where a finished redemption comes back

`process_payout` writes its row without asking the ledger. If a `confirm` or
a `reclaim` of the same redemption is persisted between its read and its
write, the write puts `PayoutQueued` over `Confirmed` or `Reclaimed`: the
redeemed total goes down, and the queue counts a redemption that is over.

Between `confirm` and `reclaim` themselves the ledger decides: a burned record
is never given back and a returned one is never burned, so of two calls that
hold one pending row at most one gets to write. `finishesAlone` says of a
step that it does not open the one window there is.
-/

namespace Thbc.OffRamp

open Thbc.Lib

def isFinished : RedemptionState → Bool
  | .confirmed | .reclaimed => true
  | _ => false

/-- A call persists a redemption as `Confirmed` or `Reclaimed` only while no
payout is between finding the row `Escrowed` and writing it. -/
def finishesAlone (calls : List Call) (c : Calls) (t : ℕ × Env) : Bool :=
  match phaseAt calls c t.1 with
  | .settling r .burned | .settling r .returned =>
      !elsewhere calls c t.1 [.queueing] r.key
  | _ => true

/-- From one moment to a later one: every finished row is still there as it
was, the redeemed total has not gone down, and no pending row is one that was
finished. -/
structure FinishedKept (c c' : Calls) : Prop where
  rows : ∀ k row, c.world.redemptions.lookup k = some row →
    isFinished row.state = true → c'.world.redemptions.lookup k = some row
  redeemed : c.world.redemptions.redeemed ≤ c'.world.redemptions.redeemed
  pending : ∀ k row row', c.world.redemptions.lookup k = some row →
    isFinished row.state = true → c'.world.redemptions.lookup k = some row' →
    row'.state.isPending = false

/-- The ledger stands behind every finished row and every call that is about
to finish one, and no payout holds the copy of a finished row. -/
structure Decided (calls : List Call) (c : Calls) : Prop where
  burned : ∀ i r, phaseAt calls c i = .settling r .burned →
    ∃ record, c.world.ledger.escrows.lookup r.key = some record ∧
      record.burned = true
  returned : ∀ i r, phaseAt calls c i = .settling r .returned →
    c.world.ledger.escrows.lookup r.key = none
  confirmed : ∀ k row, c.world.redemptions.lookup k = some row →
    row.state = .confirmed →
    ∃ record, c.world.ledger.escrows.lookup k = some record ∧
      record.burned = true
  reclaimed : ∀ k row, c.world.redemptions.lookup k = some row →
    row.state = .reclaimed → c.world.ledger.escrows.lookup k = none
  queueing : ∀ i r, phaseAt calls c i = .settling r .queueing →
    ∀ row, c.world.redemptions.lookup r.key = some row →
      isFinished row.state = false

section Move

variable {calls : List Call} {c c' : Calls} {t : ℕ × Env}
  {a : Act Port Port.Reply} {q' : Phase}

theorem burned_of_move (hc : Coherent calls c) (hm : Move calls c c' t.1 a q')
    {k : String × UInt64}
    (h : ∃ record, c.world.ledger.escrows.lookup k = some record ∧
      record.burned = true) :
    ∃ record, c'.world.ledger.escrows.lookup k = some record ∧
      record.burned = true := by
  obtain ⟨record, hrec, hb⟩ := h
  rcases hc.record_of_move hm k with heq | ⟨r, e, -, he, hfresh, -⟩
  · exact ⟨record, by rw [heq]; exact hrec, hb⟩
  · rw [hrec] at he
    cases he
    rw [hb] at hfresh
    cases hfresh

theorem gone_of_move (hc : Coherent calls c) (hm : Move calls c c' t.1 a q')
    {k : String × UInt64} (h : c.world.ledger.escrows.lookup k = none) :
    c'.world.ledger.escrows.lookup k = none := by
  rcases hc.record_of_move hm k with heq | ⟨r, e, -, he, -⟩
  · rw [heq]; exact h
  · rw [h] at he; cases he

/-- How a call comes to hold a copy it has something to write from. -/
theorem settling_of_move (hc : Coherent calls c) (hm : Move calls c c' t.1 a q')
    {r : Redemption} {s : Settlement} {st : RedemptionState}
    (hq' : q' = .settling r s) (hs : s.writes = some st) :
    (s = .queueing ∧ c'.world = c.world ∧ r.state = .escrowed ∧
      c.world.redemptions.lookup r.key = some r) ∨
    (s = .burned ∧ ∃ record,
      c'.world.ledger.escrows.lookup r.key = some record ∧
        record.burned = true) ∨
    (s = .returned ∧ c'.world.ledger.escrows.lookup r.key = none) := by
  subst hq'
  have hstep := hm.step
  generalize phaseAt calls c t.1 = q at hstep
  cases hstep with
  | @found user seq _ _ hstage hfind hw =>
      have hkey : (user, seq) = r.key := (hc.copies.keyed _ _ hfind).symm
      rw [hkey] at hfind
      obtain ⟨rfl, hst, -⟩ | ⟨rfl, -⟩ | ⟨rfl, -⟩ := settles_cases hstage
      · exact .inl ⟨rfl, hw, hst, hfind⟩
      · cases hs
      · cases hs
  | queued _ _ => cases hs
  | @burned r' record _ hq' _ _ _ hesc =>
      by_cases hp : r'.state.isPending = true
      · rw [if_pos hp] at hq'
        cases hq'
        refine .inr (.inl ⟨rfl, { record with burned := true }, ?_, rfl⟩)
        rw [hesc, AList.lookup_insert]
      · rw [if_neg hp] at hq'
        cases hq'
  | due _ _ => cases hs
  | returned _ _ _ _ _ hesc =>
      refine .inr (.inr ⟨rfl, ?_⟩)
      rw [hesc, AList.lookup_erase]

/-- A row that is finished after a step was so before, or the step wrote it
for a call that had the ledger decide. -/
theorem finished_of_move (hc : Coherent calls c) (hm : Move calls c c' t.1 a q')
    {k : String × UInt64} {row : Redemption}
    (hrow : c'.world.redemptions.lookup k = some row)
    (hst : isFinished row.state = true) :
    c.world.redemptions.lookup k = some row ∨
    ∃ r, r.key = k ∧ c'.world.ledger = c.world.ledger ∧
      ((phaseAt calls c t.1 = .settling r .burned ∧ row.state = .confirmed) ∨
        (phaseAt calls c t.1 = .settling r .returned ∧
          row.state = .reclaimed)) := by
  rcases hc.row_of_move hm k with
    heq | ⟨r, s, st, row₀, hq, hk, hwrites, -, heq⟩
  · rw [heq] at hrow
    exact .inl hrow
  · rw [heq] at hrow
    cases hrow
    have hs := hm.step
    rw [hq] at hs
    obtain ⟨-, hled, -⟩ := hc.copies.write hq hwrites hs
    cases s with
    | queueing => cases hwrites; cases hst
    | burned => cases hwrites; exact .inr ⟨r, hk, hled, .inl ⟨hq, rfl⟩⟩
    | returned => cases hwrites; exact .inr ⟨r, hk, hled, .inr ⟨hq, rfl⟩⟩
    | _ => cases hwrites

theorem Decided.move (hc : Coherent calls c) (h : Decided calls c)
    (ht : finishesAlone calls c t = true) (hm : Move calls c c' t.1 a q') :
    Decided calls c' where
  burned i r hi := by
    by_cases hit : i = t.1
    · rw [hit, hm.phase_self] at hi
      rcases settling_of_move hc hm hi rfl with ⟨hs, -⟩ | ⟨-, hrec⟩ | ⟨hs, -⟩
      · cases hs
      · exact hrec
      · cases hs
    · rw [hm.phase_of_ne hit] at hi
      exact burned_of_move hc hm (h.burned i r hi)
  returned i r hi := by
    by_cases hit : i = t.1
    · rw [hit, hm.phase_self] at hi
      rcases settling_of_move hc hm hi rfl with ⟨hs, -⟩ | ⟨hs, -⟩ | ⟨-, hrec⟩
      · cases hs
      · cases hs
      · exact hrec
    · rw [hm.phase_of_ne hit] at hi
      exact gone_of_move hc hm (h.returned i r hi)
  confirmed k row hrow hst := by
    rcases finished_of_move hc hm hrow (by rw [hst]; rfl) with
      hold | ⟨r, hk, hled, ⟨hq, -⟩ | ⟨-, hst'⟩⟩
    · exact burned_of_move hc hm (h.confirmed k row hold hst)
    · rw [hled, ← hk]
      exact h.burned t.1 r hq
    · rw [hst] at hst'; cases hst'
  reclaimed k row hrow hst := by
    rcases finished_of_move hc hm hrow (by rw [hst]; rfl) with
      hold | ⟨r, hk, hled, ⟨-, hst'⟩ | ⟨hq, -⟩⟩
    · exact gone_of_move hc hm (h.reclaimed k row hold hst)
    · rw [hst] at hst'; cases hst'
    · rw [hled, ← hk]
      exact h.returned t.1 r hq
  queueing i r hi row hrow := by
    by_contra hfin
    rw [Bool.not_eq_false] at hfin
    by_cases hit : i = t.1
    · rw [hit, hm.phase_self] at hi
      rcases settling_of_move hc hm hi rfl with
        ⟨-, hw, hst, hlook⟩ | ⟨hs, -⟩ | ⟨hs, -⟩
      · rw [hw, hlook] at hrow
        cases hrow
        rw [hst] at hfin
        cases hfin
      · cases hs
      · cases hs
    · rw [hm.phase_of_ne hit] at hi
      have halone : ∀ r' : Redemption, r'.key = r.key →
          elsewhere calls c t.1 [.queueing] r'.key = true := by
        intro r' hk
        rw [hk]
        exact hc.elsewhere hit hi (by simp)
      rcases finished_of_move hc hm hrow hfin with
        hold | ⟨r', hk, -, ⟨hq, -⟩ | ⟨hq, -⟩⟩
      · rw [h.queueing i r hi row hold] at hfin
        cases hfin
      · unfold finishesAlone at ht
        rw [hq] at ht
        simp only [halone r' hk] at ht
        cases ht
      · unfold finishesAlone at ht
        rw [hq] at ht
        simp only [halone r' hk] at ht
        cases ht

/-- A finished row survives the step: the only call that would change it is a
payout, and none holds its copy. -/
theorem Decided.kept (hc : Coherent calls c) (h : Decided calls c)
    (hm : Move calls c c' t.1 a q') {k : String × UInt64} {row : Redemption}
    (hrow : c.world.redemptions.lookup k = some row)
    (hfin : isFinished row.state = true) :
    c'.world.redemptions.lookup k = some row := by
  rcases hc.row_of_move hm k with
    heq | ⟨r, s, st, row₀, hq, hk, hwrites, hrow₀, heq⟩
  · rw [heq]; exact hrow
  · rw [hrow] at hrow₀
    cases hrow₀
    rw [heq]
    suffices hst : st = row.state by rw [hst]
    subst hk
    cases hs : row.state with
    | confirmed =>
        obtain ⟨record, hrec, hb⟩ := h.confirmed _ _ hrow hs
        cases s with
        | queueing =>
            rw [h.queueing t.1 r hq row hrow] at hfin
            cases hfin
        | burned => cases hwrites; rfl
        | returned =>
            rw [h.returned t.1 r hq] at hrec
            cases hrec
        | _ => cases hwrites
    | reclaimed =>
        have hnone := h.reclaimed _ _ hrow hs
        cases s with
        | queueing =>
            rw [h.queueing t.1 r hq row hrow] at hfin
            cases hfin
        | burned =>
            obtain ⟨record, hrec, -⟩ := h.burned t.1 r hq
            rw [hnone] at hrec
            cases hrec
        | returned => cases hwrites; rfl
        | _ => cases hwrites
    | _ => rw [hs] at hfin; cases hfin

end Move

theorem finishedKept_of_rows {c c' : Calls}
    (h : ∀ k row, c.world.redemptions.lookup k = some row →
      isFinished row.state = true → c'.world.redemptions.lookup k = some row) :
    FinishedKept c c' where
  rows := h
  redeemed := by
    refine AList.tally_mono fun k => ?_
    cases hrow : c.world.redemptions.lookup k with
    | none => rw [AList.weight_of_none hrow]; omega
    | some row =>
        by_cases hst : row.state = .confirmed
        · have hrow' := h k row hrow (by rw [hst]; rfl)
          rw [AList.weight_of_lookup hrow, AList.weight_of_lookup hrow']
        · rw [AList.weight_of_lookup hrow, Redemption.supplyReduction_of_ne hst,
            Thb.toNat_zero]
          omega
  pending k row row' hrow hfin hrow' := by
    rw [h k row hrow hfin] at hrow'
    cases hrow'
    cases hs : row.state with
    | confirmed => rfl
    | reclaimed => rfl
    | _ => rw [hs] at hfin; cases hfin

theorem InStep.decided {calls : List Call} {deltaSecs : Int64} {w : World}
    [Sha256] (h : InStep w) :
    Decided calls (Calls.start deltaSecs calls w) where
  burned i r hi := by cases hi
  returned i r hi := by cases hi
  confirmed k row hrow hst := by
    have hk := h.agrees k
    rw [show w.redemptions.lookup k = some row from hrow] at hk
    cases hrec : w.ledger.escrows.lookup k with
    | none =>
        rw [hrec, Agrees, hst] at hk
        simp at hk
    | some record =>
        rw [hrec, Agrees, hst] at hk
        obtain ⟨-, ⟨hp, -⟩ | ⟨-, hb⟩⟩ := hk
        · cases hp
        · exact ⟨record, hrec, hb⟩
  reclaimed k row hrow hst := by
    have hk := h.agrees k
    rw [show w.redemptions.lookup k = some row from hrow] at hk
    cases hrec : w.ledger.escrows.lookup k with
    | none => exact hrec
    | some record =>
        rw [hrec, Agrees, hst] at hk
        obtain ⟨-, ⟨hp, -⟩ | ⟨hs, -⟩⟩ := hk
        · cases hp
        · cases hs
  queueing i r hi := by cases hi

section Runs

variable [Sha256]

def FinishedAbsorbing (deltaSecs : Int64) (calls : List Call) (w : World)
    (ts : List (ℕ × Env)) : Prop :=
  ∀ before between after, ts = before ++ between ++ after →
    FinishedKept ((Calls.start deltaSecs calls w).run World.exec before)
      ((Calls.start deltaSecs calls w).run World.exec (before ++ between))

/-- In any run of settlements whose steps finish alone, `Confirmed` and
`Reclaimed` are for good. -/
theorem finished_absorbing (deltaSecs : Int64) (calls : List Call) (w : World)
    (ts : List (ℕ × Env)) (hw : InStep w)
    (hcalls : ∀ call ∈ calls, call.isRequest = false)
    (h : Pool.Along World.exec (fun c t => finishesAlone calls c t = true)
      (Calls.start deltaSecs calls w) ts) :
    FinishedAbsorbing deltaSecs calls w ts := by
  intro before between after hts
  subst hts
  obtain ⟨h, -⟩ := Pool.along_append.mp h
  obtain ⟨hbefore, hbetween⟩ := Pool.along_append.mp h
  have hstep : ∀ c t, Coherent calls c ∧ Decided calls c →
      finishesAlone calls c t = true →
      Coherent calls (c.step World.exec t) ∧ Decided calls (c.step World.exec t) := by
    intro c t ⟨hc, hd⟩ ht
    refine ⟨hc.step t, ?_⟩
    rcases hc.step_cases t with heq | ⟨a, q', hm⟩
    · rw [heq]; exact hd
    · exact hd.move hc ht hm
  have hstart := Pool.run_induct hstep hbefore
    ⟨coherent_start deltaSecs hcalls hw.keyed, hw.decided⟩
  rw [Pool.run_append]
  generalize (Calls.start deltaSecs calls w).run World.exec before = c₀ at hstart hbetween
  refine finishedKept_of_rows ?_
  refine (Pool.run_induct (I := fun c => (Coherent calls c ∧ Decided calls c) ∧
    ∀ k row, c₀.world.redemptions.lookup k = some row →
      isFinished row.state = true → c.world.redemptions.lookup k = some row)
    ?_ hbetween ⟨hstart, fun _ _ hrow _ => hrow⟩).2
  intro c t ⟨hI, hkept⟩ ht
  refine ⟨hstep c t hI ht, fun k row hrow hfin => ?_⟩
  rcases hI.1.step_cases t with heq | ⟨a, q', hm⟩
  · rw [heq]; exact hkept k row hrow hfin
  · exact hI.2.kept hI.1 hm (hkept k row hrow hfin) hfin

end Runs

open Sample

theorem finished_absorbing_in_turn :
    let calls : List Call := [.processPayout "alice" 1, .confirm "alice" 1]
    let ts := schedule (env 86400 .pass) [0, 0, 0, 1, 1, 1]
    Pool.Along World.exec (fun c t => finishesAlone calls c t = true)
        (Calls.start 86400 calls escrowed) ts ∧
      FinishedAbsorbing 86400 calls escrowed ts :=
  ⟨by decide, finished_absorbing 86400 _ _ _ inStep_escrowed (by decide) (by decide)⟩

/-- The payout reads the row, the issuer confirms, and the payout's write puts
`PayoutQueued` over `Confirmed`. -/
theorem confirmed_overwritten :
    let calls : List Call := [.processPayout "alice" 1, .confirm "alice" 1]
    InStep escrowed ∧
      ¬ FinishedAbsorbing 86400 calls escrowed
        (schedule (env 86400 .pass) [0, 1, 1, 1, 0]) := by
  intro calls
  refine ⟨inStep_escrowed, fun h => ?_⟩
  have hkept := h (schedule (env 86400 .pass) [0, 1, 1, 1])
    (schedule (env 86400 .pass) [0]) [] rfl
  have hbefore : isRow .confirmed ((Calls.start 86400 calls escrowed).run World.exec
      (schedule (env 86400 .pass) [0, 1, 1, 1])).world.redemptions ("alice", 1) =
        true := by decide
  have hafter : isRow .confirmed ((Calls.start 86400 calls escrowed).run World.exec
      (schedule (env 86400 .pass) [0, 1, 1, 1] ++
        schedule (env 86400 .pass) [0])).world.redemptions ("alice", 1) =
        false := by decide
  obtain ⟨row, hrow, hst⟩ := isRow_eq_true.mp hbefore
  have hrow' := hkept.rows _ row hrow (by rw [hst]; rfl)
  rw [isRow_eq_true.mpr ⟨row, hrow', hst⟩] at hafter
  cases hafter

end Thbc.OffRamp
