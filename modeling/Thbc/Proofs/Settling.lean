import Thbc.Proofs.Refinement

/-!
# Redemptions in several hands

Any number of `process_payout`, `confirm` and `reclaim` calls work on
redemptions whose requests have returned, and nothing keeps two of them from
holding a copy of one row. `Coherent` is what such a pool always has: every
copy is its row in some state, for rows come from `request` alone and no
other call changes more of them than the state.

`row_of_move` and `record_of_move` list what one port call can do to the row
and to the escrow record of one key. The proofs about overlapping settlements
are case analyses on these two lists.
-/

namespace Thbc.OffRamp

open Thbc.Lib

/-- The state that is written at the end of a stage. -/
def Settlement.writes : Settlement → Option RedemptionState
  | .queueing => some .payoutQueued
  | .burned => some .confirmed
  | .returned => some .reclaimed
  | _ => none

/-- Every copy is its row, in some state, and no request is under way. -/
structure Copies (rows : InMemoryRedemptionRepo) (stage : ℕ → Phase) : Prop where
  keyed : Keyed rows
  settling : ∀ i r s, stage i = .settling r s →
    ∃ st, rows.lookup r.key = some { r with state := st }
  drafting : ∀ i r s, stage i ≠ .drafting r s

namespace Copies

variable {rows : InMemoryRedemptionRepo} {stage : ℕ → Phase}

/-- A call takes or keeps a copy. -/
theorem hold (h : Copies rows stage) (t : ℕ) {r : Redemption} (s : Settlement)
    {st : RedemptionState} (hrow : rows.lookup r.key = some { r with state := st }) :
    Copies rows (Function.update stage t (.settling r s)) where
  keyed := h.keyed
  settling i r' s' hi := by
    obtain ⟨-, hq⟩ | ⟨-, hi⟩ := Pool.update_cases hi
    · cases hq
      exact ⟨st, hrow⟩
    · exact h.settling i r' s' hi
  drafting i r' s' hi := by
    obtain ⟨-, hq⟩ | ⟨-, hi⟩ := Pool.update_cases hi
    · cases hq
    · exact h.drafting i r' s' hi

/-- A call puts its copy down. -/
theorem drop (h : Copies rows stage) (t : ℕ) :
    Copies rows (Function.update stage t .idle) where
  keyed := h.keyed
  settling i r s hi := by
    obtain ⟨-, hq⟩ | ⟨-, hi⟩ := Pool.update_cases hi
    · cases hq
    · exact h.settling i r s hi
  drafting i r s hi := by
    obtain ⟨-, hq⟩ | ⟨-, hi⟩ := Pool.update_cases hi
    · cases hq
    · exact h.drafting i r s hi

/-- A copy is written over its row. -/
theorem rewrite (h : Copies rows stage) {t : ℕ} {r : Redemption}
    {s : Settlement} (ht : stage t = .settling r s) (st : RedemptionState) :
    Copies (AList.insert r.key { r with state := st } rows) stage where
  keyed := keyed_insert h.keyed rfl
  settling i r' s' hi := by
    obtain ⟨st', hrow'⟩ := h.settling i r' s' hi
    by_cases hk : r'.key = r.key
    · obtain ⟨st₀, hrow⟩ := h.settling t r s ht
      rw [hk, hrow, Option.some.injEq, Redemption.mk.injEq] at hrow'
      obtain ⟨h₁, h₂, h₃, -, h₄, h₅, h₆⟩ := hrow'
      refine ⟨st, ?_⟩
      rw [hk, AList.lookup_insert, h₁, h₂, h₃, h₄, h₅, h₆]
    · rw [AList.lookup_insert_ne hk]
      exact ⟨st', hrow'⟩
  drafting := h.drafting

section Step

variable {call : Call} {w w' : World} {t : ℕ} {q q' : Phase}
  {a : Act Port Port.Reply}

/-- A call that has a row to write does not lose it. -/
theorem keeps (h : Copies w.redemptions stage) {r : Redemption}
    {s : Settlement} {st : RedemptionState} (ht : stage t = .settling r s)
    (hst : s.writes = some st) : ¬ mayDrop w (.settling r s) := by
  intro hdrop
  obtain ⟨st₀, hrow⟩ := h.settling t r s ht
  have hnone : w.redemptions.lookup r.key = none := by
    cases s with
    | queueing => exact hdrop { r with state := .payoutQueued } rfl
    | burned => exact hdrop { r with state := .confirmed } rfl
    | returned => exact hdrop { r with state := .reclaimed } rfl
    | _ => cases hst
  rw [hrow] at hnone
  cases hnone

/-- What a call that has a row to write goes on to do. -/
theorem write (h : Copies w.redemptions stage) {r : Redemption}
    {s : Settlement} {st : RedemptionState} (ht : stage t = .settling r s)
    (hst : s.writes = some st) (hs : Step call w w' (.settling r s) a q') :
    w'.redemptions = AList.insert r.key { r with state := st } w.redemptions ∧
      w'.ledger = w.ledger ∧
      (q' = .idle ∨ (s = .queueing ∧ q' = .settling r .queued)) := by
  cases hs with
  | queued hrow hled => cases hst; exact ⟨hrow, hled, .inr ⟨rfl, rfl⟩⟩
  | confirmed hrow hled => cases hst; exact ⟨hrow, hled, .inl rfl⟩
  | reclaimed hrow hled => cases hst; exact ⟨hrow, hled, .inl rfl⟩
  | other _ hdrop _ _ => exact absurd hdrop (h.keeps ht hst)
  | _ => cases hst

/-- One port call of a settlement keeps copies and rows together. -/
theorem step (h : Copies w.redemptions stage) (ht : stage t = q)
    (hno : ∀ user amount, call ≠ .request user amount)
    (hs : Step call w w' q a q') :
    Copies w'.redemptions (Function.update stage t q') := by
  cases hs with
  | inserted _ hcall _ _ _ => exact absurd hcall (hno _ _)
  | @found user seq r s _ hfind hw =>
      subst hw
      have hkey : (user, seq) = r.key := (h.keyed _ _ hfind).symm
      rw [hkey] at hfind
      have hself : _ = some { r with state := r.state } := hfind
      exact h.hold t s hself
  | escrowed _ _ _ => exact absurd ht (h.drafting t _ _)
  | applied _ _ => exact absurd ht (h.drafting t _ _)
  | recorded _ _ => exact absurd ht (h.drafting t _ _)
  | @queued r hrow _ =>
      rw [hrow]
      exact (h.rewrite ht _).hold t _ (AList.lookup_insert _)
  | enqueued hrow _ => rw [hrow]; exact h.drop t
  | @burned r record _ hq' hrow _ _ _ =>
      rw [hrow, hq']
      obtain ⟨st, hlook⟩ := h.settling t _ _ ht
      by_cases hp : r.state.isPending = true
      · rw [if_pos hp]; exact h.hold t _ hlook
      · rw [if_neg hp]; exact h.drop t
  | confirmed hrow _ => rw [hrow]; exact (h.rewrite ht _).drop t
  | due _ hw =>
      subst hw
      obtain ⟨st, hlook⟩ := h.settling t _ _ ht
      exact h.hold t _ hlook
  | returned hrow _ _ _ _ _ =>
      rw [hrow]
      obtain ⟨st, hlook⟩ := h.settling t _ _ ht
      exact h.hold t _ hlook
  | reclaimed hrow _ => rw [hrow]; exact (h.rewrite ht _).drop t
  | other _ _ hrow _ => rw [hrow]; exact h.drop t

/-- A row stays as it is, or a call writes its state. -/
theorem row_of_step (h : Copies w.redemptions stage) (ht : stage t = q)
    (hno : ∀ user amount, call ≠ .request user amount)
    (hs : Step call w w' q a q') (k : String × UInt64) :
    w'.redemptions.lookup k = w.redemptions.lookup k ∨
    ∃ r s st row, q = .settling r s ∧ r.key = k ∧ s.writes = some st ∧
      w.redemptions.lookup k = some row ∧
      w'.redemptions.lookup k = some { row with state := st } := by
  have hwrite : ∀ r s st, q = .settling r s → s.writes = some st →
      w'.redemptions =
        AList.insert r.key { r with state := st } w.redemptions →
      w'.redemptions.lookup k = w.redemptions.lookup k ∨
      ∃ r s st row, q = .settling r s ∧ r.key = k ∧ s.writes = some st ∧
        w.redemptions.lookup k = some row ∧
        w'.redemptions.lookup k = some { row with state := st } := by
    intro r s st hq hst hrow
    by_cases hk : k = r.key
    · obtain ⟨st₀, hlook⟩ := h.settling t r s (ht.trans hq)
      refine .inr ⟨r, s, st, _, hq, hk.symm, hst, by rw [hk]; exact hlook, ?_⟩
      rw [hrow, hk, AList.lookup_insert]
    · rw [hrow, AList.lookup_insert_ne hk]
      exact .inl rfl
  cases hs with
  | inserted _ hcall _ _ _ => exact absurd hcall (hno _ _)
  | found _ _ hw => subst hw; exact .inl rfl
  | escrowed _ _ _ => exact absurd ht (h.drafting t _ _)
  | applied _ _ => exact absurd ht (h.drafting t _ _)
  | recorded _ _ => exact absurd ht (h.drafting t _ _)
  | queued hrow _ => exact hwrite _ _ _ rfl rfl hrow
  | enqueued hrow _ => rw [hrow]; exact .inl rfl
  | burned _ hrow _ _ _ => rw [hrow]; exact .inl rfl
  | confirmed hrow _ => exact hwrite _ _ _ rfl rfl hrow
  | due _ hw => subst hw; exact .inl rfl
  | returned hrow _ _ _ _ _ => rw [hrow]; exact .inl rfl
  | reclaimed hrow _ => exact hwrite _ _ _ rfl rfl hrow
  | other _ _ hrow _ => rw [hrow]; exact .inl rfl

end Step

end Copies

/-- An escrow record stays as it is, or is burned, or its tokens go back. -/
theorem record_of_step {call : Call} {w w' : World} {q q' : Phase}
    {a : Act Port Port.Reply} (hs : Step call w w' q a q')
    (hno : ∀ r s, q ≠ .drafting r s) (k : String × UInt64) :
    w'.ledger.escrows.lookup k = w.ledger.escrows.lookup k ∨
    ∃ r record, r.key = k ∧ w.ledger.escrows.lookup k = some record ∧
      record.burned = false ∧
      ((q = .settling r .confirming ∧
          w'.ledger.escrows.lookup k = some { record with burned := true }) ∨
        (q = .settling r .returning ∧ q' = .settling r .returned ∧
          SimulatedLedger.SIMULATED_DELTA_SECS ≤
            saturatingSub w.ledger.now record.escrowedAt ∧
          (w.ledger.balanceOf k.1).toNat + record.amount.toNat < UInt64.size ∧
          w'.ledger.escrows.lookup k = none)) := by
  cases hs with
  | inserted _ _ _ _ hled => rw [hled]; exact .inl rfl
  | found _ _ hw => subst hw; exact .inl rfl
  | escrowed _ _ _ => exact absurd rfl (hno _ _)
  | applied _ _ => exact absurd rfl (hno _ _)
  | recorded _ _ => exact absurd rfl (hno _ _)
  | queued _ hled => rw [hled]; exact .inl rfl
  | enqueued _ hled => rw [hled]; exact .inl rfl
  | @burned r record _ _ _ hrec hb hesc =>
      by_cases hk : k = r.key
      · subst hk
        refine .inr ⟨r, record, rfl, hrec, hb, .inl ⟨rfl, ?_⟩⟩
        rw [hesc, AList.lookup_insert]
      · rw [hesc, AList.lookup_insert_ne hk]
        exact .inl rfl
  | confirmed _ hled => rw [hled]; exact .inl rfl
  | due _ hw => subst hw; exact .inl rfl
  | @returned r record _ hrec hb hdue hroom hesc =>
      by_cases hk : k = r.key
      · subst hk
        refine .inr ⟨r, record, rfl, hrec, hb,
          .inr ⟨rfl, rfl, hdue, hroom, ?_⟩⟩
        rw [hesc, AList.lookup_erase]
      · rw [hesc, AList.lookup_erase_ne hk]
        exact .inl rfl
  | reclaimed _ hled => rw [hled]; exact .inl rfl
  | other _ _ _ hesc => rw [hesc]; exact .inl rfl

/-! ## Pools -/

/-- Where call `i` of a pool has got to. -/
def phaseAt (calls : List Call) (c : Calls) (i : ℕ) : Phase :=
  c.stage (fun i => grammar (callAt calls i)) i

/-- What holds of a pool of settlements at any moment. -/
structure Coherent (calls : List Call) (c : Calls) : Prop where
  obeys : c.Obeys fun i => grammar (callAt calls i)
  copies : Copies c.world.redemptions (phaseAt calls c)
  settled : ∀ call ∈ calls, call.isRequest = false
  size : c.threads.length = calls.length
  inRange : c.InRange

/-- Call `t` of a pool goes through the port call `a`; everyone else stays
where they were. -/
structure Move (calls : List Call) (c c' : Calls) (t : ℕ)
    (a : Act Port Port.Reply) (q' : Phase) : Prop extends
    Pool.Moved (fun i => grammar (callAt calls i)) c c' t a q' where
  step : Step (callAt calls t) c.world c'.world (phaseAt calls c t) a q'

/-- The row under `k` is there, and in state `s`. -/
def isRow (s : RedemptionState) (rows : InMemoryRedemptionRepo)
    (k : String × UInt64) : Bool :=
  match rows.lookup k with
  | some row => row.state = s
  | none => false

theorem isRow_eq_true {s : RedemptionState} {rows : InMemoryRedemptionRepo}
    {k : String × UInt64} :
    isRow s rows k = true ↔ ∃ row, rows.lookup k = some row ∧ row.state = s := by
  unfold isRow
  cases rows.lookup k with
  | none => simp
  | some row => simp

/-- Whether a call other than `t` is in one of these stages with `k`. -/
def elsewhere (calls : List Call) (c : Calls) (t : ℕ)
    (stages : List Settlement) (k : String × UInt64) : Bool :=
  (List.range calls.length).any fun j =>
    j ≠ t &&
      match phaseAt calls c j with
      | .settling r s => decide (s ∈ stages) && decide (r.key = k)
      | _ => false

section Pools

variable {calls : List Call} {c c' : Calls} {t : ℕ}
  {a : Act Port Port.Reply} {q' : Phase}

theorem Move.phase_self (h : Move calls c c' t a q') :
    phaseAt calls c' t = q' := h.stage_self

theorem Move.phase_of_ne {i : ℕ} (h : Move calls c c' t a q') (hi : i ≠ t) :
    phaseAt calls c' i = phaseAt calls c i := h.stage_of_ne hi

theorem Coherent.noRequest (h : Coherent calls c) (t : ℕ) (user : String)
    (amount : Thb) : callAt calls t ≠ .request user amount := by
  intro hcall
  rcases callAt_cases calls t with hmem | heq
  · have hno := h.settled _ hmem
    rw [hcall] at hno
    cases hno
  · rw [hcall] at heq
    cases heq

theorem Coherent.row_of_move (h : Coherent calls c)
    (hm : Move calls c c' t a q') (k : String × UInt64) :
    c'.world.redemptions.lookup k = c.world.redemptions.lookup k ∨
    ∃ r s st row, phaseAt calls c t = .settling r s ∧ r.key = k ∧
      s.writes = some st ∧ c.world.redemptions.lookup k = some row ∧
      c'.world.redemptions.lookup k = some { row with state := st } :=
  h.copies.row_of_step rfl (h.noRequest t) hm.step k

/-- Nothing but a confirm's burn and a reclaim's return moves an escrow
record. -/
theorem Coherent.record_of_move (h : Coherent calls c)
    (hm : Move calls c c' t a q') (k : String × UInt64) :
    c'.world.ledger.escrows.lookup k = c.world.ledger.escrows.lookup k ∨
    ∃ r record, r.key = k ∧ c.world.ledger.escrows.lookup k = some record ∧
      record.burned = false ∧
      ((phaseAt calls c t = .settling r .confirming ∧
          c'.world.ledger.escrows.lookup k =
            some { record with burned := true }) ∨
        (phaseAt calls c t = .settling r .returning ∧ q' = .settling r .returned ∧
          SimulatedLedger.SIMULATED_DELTA_SECS ≤
            saturatingSub c.world.ledger.now record.escrowedAt ∧
          (c.world.ledger.balanceOf k.1).toNat + record.amount.toNat <
            UInt64.size ∧
          c'.world.ledger.escrows.lookup k = none)) :=
  record_of_step hm.step (h.copies.drafting t) k

theorem Coherent.beyond (h : Coherent calls c) (i : ℕ) (hi : calls.length ≤ i) :
    phaseAt calls c i = .idle :=
  h.inRange.stage (by rw [h.size]; exact hi)

theorem Coherent.elsewhere (h : Coherent calls c) {j : ℕ} {r : Redemption}
    {s : Settlement} {stages : List Settlement} (hjt : j ≠ t)
    (hj : phaseAt calls c j = .settling r s) (hs : s ∈ stages) :
    elsewhere calls c t stages r.key = true := by
  have hlt : j < calls.length := by
    by_contra hge
    rw [h.beyond j (by omega)] at hj
    cases hj
  refine List.any_eq_true.mpr ⟨j, List.mem_range.mpr hlt, ?_⟩
  rw [hj]
  simp [hjt, hs]

variable [Sha256]

theorem coherent_start {w : World} (deltaSecs : Int64)
    (hcalls : ∀ call ∈ calls, call.isRequest = false)
    (hw : Keyed w.redemptions) : Coherent calls (Calls.start deltaSecs calls w) where
  obeys := Calls.obeys_start (call_obeys deltaSecs) calls w
  copies := by
    refine ⟨hw, ?_, ?_⟩
    · intro i r s h; cases h
    · intro i r s h; cases h
  settled := hcalls
  size := List.length_map _
  inRange := Pool.inRange_start _ _

/-- A pool's step is a move, or nothing at all. -/
theorem move_cases (hobeys : c.Obeys fun i => grammar (callAt calls i)) (t : ℕ × Env) :
    c.step World.exec t = c ∨
    ∃ a q', Move calls c (c.step World.exec t) t.1 a q' := by
  rcases Pool.step_cases (fun i => grammar (callAt calls i)) World.exec c t with
    heq | ⟨s, hworld, hm⟩
  · exact .inl heq
  · refine .inr ⟨_, _, hm, ?_⟩
    rw [hworld]
    exact step_exec (hobeys.asks hm.asked)

theorem Coherent.step_cases (h : Coherent calls c) (t : ℕ × Env) :
    c.step World.exec t = c ∨
    ∃ a q', Move calls c (c.step World.exec t) t.1 a q' :=
  move_cases h.obeys t

theorem Coherent.step (h : Coherent calls c) (t : ℕ × Env) :
    Coherent calls (c.step World.exec t) where
  obeys := Pool.obeys_step h.obeys fun s => hears_exec h.copies.keyed s
  copies := by
    rcases h.step_cases t with heq | ⟨a, q', hm⟩
    · rw [heq]; exact h.copies
    · have hphase : phaseAt calls (c.step World.exec t) =
          Function.update (phaseAt calls c) t.1 q' := hm.stage
      rw [hphase]
      exact h.copies.step rfl (h.noRequest t.1) hm.step
  settled := h.settled
  size := by rw [Pool.length_threads_step, h.size]
  inRange := Pool.inRange_step h.inRange t

end Pools

end Thbc.OffRamp
