import Thbc.Proofs.Issued

/-!
# Deposits that are stranded

`Attested` is persisted before the ledger is asked to mint. Where the ledger
then refuses, because its own F5 or F1 check no longer passes, the row stays
`Attested`: no sweep lists it, no call writes it again, and it encumbers
nothing.

A deposit past its screen is safe as long as it is `Screened`, or minted, or
in the hands of a call. `handsOver` says of a step that it does not put the
last copy of an `Attested`, unminted deposit down, and a run all of whose
steps do so strands nothing.
-/

namespace Thbc.OnRamp

open Thbc.Lib

section Stranded

variable [Sha256]

/-- The nullifier of the copy past its screen that a call holds. -/
def Phase.holding : Phase → Option BankRefHash
  | .passed d _ => some d.nullifier
  | _ => none

def heldElsewhere (calls : List Call) (c : Calls) (t : ℕ) (n : BankRefHash) :
    Bool :=
  (List.range calls.length).any fun j =>
    j ≠ t && (phaseAt calls c j).holding = some n

/-- The step a call is about to take ends with nothing minted: the ledger's
own check refuses the mint, or the call's ceiling check refuses to ask for
it. -/
def letsGo (w : World) : Phase → Bool
  | .passed d .attested =>
      match w.ledger.reserve.checkIssuance d.amount w.ledger.now with
      | .ok _ => false
      | .error _ => true
  | .passed d (.sighted now s) =>
      match w.deposits.totalEncumbered with
      | .ok e => !admits d now s e
      | .error _ => true
  | _ => false

/-- A call that lets go of a deposit whose row is `Attested` and whose
nullifier the ledger does not hold is not the last to hold a copy. -/
def handsOver (calls : List Call) (c : Calls) (t : ℕ × Env) : Bool :=
  match (phaseAt calls c t.1).holding with
  | none => true
  | some n =>
      !letsGo c.world (phaseAt calls c t.1) ||
        !isRow .attested c.world.deposits n ||
        decide (n ∈ c.world.ledger.nullifiers) || heldElsewhere calls c t.1 n

/-- Once every call has returned: each deposit whose screen passed and for
which the ledger holds no nullifier is `Screened`, and listed as held. -/
def Unstranded (calls : List Call) (c : Calls) : Prop :=
  c.Quiet → ∀ n, (∃ e ∈ c.log, isVerdict calls n .pass e = true) →
    n ∉ c.world.ledger.nullifiers →
    ∃ row, c.world.deposits.lookup n = some row ∧ row.state = .screened ∧
      ∀ rank ds, c.world.deposits.held rank = .ok ds → row ∈ ds

/-- Everything past its screen is accounted for. -/
structure Kept (calls : List Call) (n : BankRefHash) (c : Calls) : Prop where
  owned : Owned calls c
  pass : (∃ e ∈ c.log, isVerdict calls n .pass e = true) →
    (∃ i d, phaseAt calls c i = .fresh d (some .pass) ∧ d.nullifier = n) ∨
    ∃ row, c.world.deposits.lookup n = some row ∧ pastScreen row.state = true
  minted : ∀ i d, phaseAt calls c i = .passed d .minted → d.nullifier = n →
    n ∈ c.world.ledger.nullifiers
  issued : isRow .issued c.world.deposits n = true →
    n ∈ c.world.ledger.nullifiers
  attested : isRow .attested c.world.deposits n = true →
    n ∉ c.world.ledger.nullifiers →
    ∃ i, (phaseAt calls c i).holding = some n

/-- A row becomes `Attested` by a call that goes on to ask for the mint. -/
theorem attested_of_move {calls : List Call} {c c' : Calls} {t : ℕ}
    {a : Act Port Port.Reply} {q' : Phase} (hc : Coherent calls c)
    (hm : Move calls c c' t a q') {n : BankRefHash}
    (h : isRow .attested c.world.deposits n = false)
    (h' : isRow .attested c'.world.deposits n = true) :
    (phaseAt calls c' t).holding = some n := by
  rcases state_of_move hc hm h h' with
    hs | ⟨o, hs⟩ | ⟨d, hn, ⟨-, hq⟩ | ⟨hs, -⟩⟩
  · cases hs
  · cases o with
    | pass => cases hs
    | fail => cases hs
  · have hs := hm.step
    rw [hq] at hs
    rw [hm.phase_self]
    cases hs with
    | attested _ _ => exact congrArg some hn
    | other _ hdrop _ _ => exact absurd hdrop (hc.sound.keeps hq rfl)
  · cases hs

theorem holding_of_move {calls : List Call} {c c' : Calls} {t : ℕ}
    {a : Act Port Port.Reply} {q' : Phase} (hc : Coherent calls c)
    (hm : Move calls c c' t a q') {n : BankRefHash}
    (h : (phaseAt calls c t).holding = some n) :
    (phaseAt calls c' t).holding = some n ∨ n ∈ c'.world.ledger.nullifiers ∨
    letsGo c.world (phaseAt calls c t) = true ∨
    (∃ d, phaseAt calls c t = .passed d .minted ∧ d.nullifier = n) := by
  have hs := hm.step
  rw [hm.phase_self]
  generalize hq : phaseAt calls c t = q at hs h
  cases hs with
  | timed _ => exact .inl h
  | sighted _ _ => exact .inl h
  | cleared _ _ _ => exact .inl h
  | attested _ _ => exact .inl h
  | minted _ _ => exact .inl h
  | @refused d r _ _ hled =>
      have hn : d.nullifier = n := Option.some.inj h
      rcases c.world.ledger.issue_cases d.beneficiaryWallet d.amount d.nullifier with
        ⟨e, heq, hmem | ⟨e', hg⟩⟩ | ⟨-, v, b, r', -, heq, -⟩
      · rw [heq] at hled
        rw [← (Prod.mk.inj hled).2, ← hn]
        exact .inr (.inl hmem)
      · refine .inr (.inr (.inl ?_))
        simp only [letsGo, hg]
      · rw [heq] at hled
        rw [← (Prod.mk.inj hled).2, ← hn]
        exact .inr (.inl (Finset.mem_insert_self _ _))
  | @issued d _ _ => exact .inr (.inr (.inr ⟨d, rfl, Option.some.inj h⟩))
  | @other q a _ hdrop _ _ =>
      cases q with
      | idle => cases h
      | fresh d v => cases h
      | passed d g =>
          cases g with
          | sighted now s =>
              refine .inr (.inr (.inl ?_))
              unfold letsGo
              cases he : c.world.deposits.totalEncumbered with
              | error err => rfl
              | ok e => simp only [hdrop e he, Bool.not_false]
          | found => obtain ⟨d', hd', -⟩ := hdrop; cases hd'
          | timed now => obtain ⟨d', hd', -⟩ := hdrop; cases hd'
          | attested => obtain ⟨d', hd', -⟩ := hdrop; cases hd'
          | cleared => exact absurd hdrop (hc.sound.keeps hq rfl)
          | minted => exact absurd hdrop (hc.sound.keeps hq rfl)
  | inserted _ _ _ _ _ => cases h
  | found _ _ _ => cases h
  | screened _ => cases h
  | unscreened _ => cases h
  | judged _ _ => cases h

theorem Kept.move {calls : List Call} {n : BankRefHash} {c c' : Calls}
    {t : ℕ × Env} {a : Act Port Port.Reply} {q' : Phase}
    (hc : Coherent calls c) (h : Kept calls n c)
    (ht : handsOver calls c t = true) (hm : Move calls c c' t.1 a q') :
    Kept calls n c' where
  owned := h.owned.move hm
  pass := by
    intro ⟨e, he, hv⟩
    rw [hm.log] at he
    have hbefore : (∃ i d, phaseAt calls c i = .fresh d (some .pass) ∧
          d.nullifier = n) ∨
        (∃ row, c.world.deposits.lookup n = some row ∧
          pastScreen row.state = true) →
        (∃ i d, phaseAt calls c' i = .fresh d (some .pass) ∧ d.nullifier = n) ∨
        ∃ row, c'.world.deposits.lookup n = some row ∧
          pastScreen row.state = true := by
      intro h
      obtain ⟨i, d, hi, hn⟩ | ⟨row, hrow, hst⟩ := h
      · by_cases hit : i = t.1
        · subst hit
          right
          have hs := hm.step
          rw [hi] at hs
          cases hs with
          | judged hdep _ =>
              refine ⟨{ d with state := .screened }, ?_, rfl⟩
              rw [hdep, ← hn, AList.lookup_insert]
              rfl
          | other _ hdrop _ _ => exact absurd hdrop (hc.sound.keeps hi rfl)
        · left
          refine ⟨i, d, ?_, hn⟩
          rw [hm.phase_of_ne hit]
          exact hi
      · exact .inr (pastScreen_of_move hc hm hrow hst)
    rcases List.mem_cons.mp he with rfl | he
    · obtain ⟨d, hq, hn⟩ := fresh_of_verdict h.owned hm hv
      exact .inl ⟨t.1, d, hq, hn⟩
    · exact hbefore (h.pass ⟨e, he, hv⟩)
  minted := by
    intro i d hi hn
    by_cases hit : i = t.1
    · subst hit
      rw [hm.phase_self] at hi
      have hs := hm.step
      generalize hq : phaseAt calls c t.1 = q at hs
      cases hs with
      | minted _ _ =>
          cases hi
          exact (isMint_fires hm (decide_eq_true hn)).2
      | @judged d' o _ _ =>
          cases o with
          | pass => cases hi
          | fail => cases hi
      | _ => cases hi
    · rw [hm.phase_of_ne hit] at hi
      exact nullifiers_of_step hm.step (h.minted i d hi hn)
  issued := by
    intro hi
    refine nullifiers_of_step hm.step ?_
    cases hi₀ : isRow .issued c.world.deposits n with
    | true => exact h.issued hi₀
    | false =>
        obtain ⟨d, hq, hn⟩ := issued_of_move hc hm hi₀ hi
        exact h.minted t.1 d hq hn
  attested := by
    intro hi hno
    have hno₀ : n ∉ c.world.ledger.nullifiers :=
      fun hmem => hno (nullifiers_of_step hm.step hmem)
    cases hi₀ : isRow .attested c.world.deposits n with
    | false => exact ⟨t.1, attested_of_move hc hm hi₀ hi⟩
    | true =>
        obtain ⟨i, hhold⟩ := h.attested hi₀ hno₀
        by_cases hit : i = t.1
        · subst hit
          rcases holding_of_move hc hm hhold with hkeep | hmem | hgo | ⟨d, hq, hn⟩
          · exact ⟨t.1, hkeep⟩
          · exact absurd hmem hno
          · -- The last copy is not put down: some other call has one.
            unfold handsOver at ht
            rw [hhold] at ht
            simp only [hgo, hi₀, hno₀, Bool.not_true, decide_false,
              Bool.false_or] at ht
            obtain ⟨j, -, hj⟩ := List.any_eq_true.mp ht
            obtain ⟨hne, hjn⟩ := Bool.and_eq_true_iff.mp hj
            refine ⟨j, ?_⟩
            rw [hm.phase_of_ne (of_decide_eq_true hne)]
            exact of_decide_eq_true hjn
          · exact absurd (h.minted t.1 d hq hn) hno₀
        · refine ⟨i, ?_⟩
          rw [hm.phase_of_ne hit]
          exact hhold

theorem kept_start {calls : List Call} {deltaSecs : Int64} {w : World}
    (hw : w.deposits = ∅) (n : BankRefHash) :
    Kept calls n (Calls.start deltaSecs calls w) where
  owned := by intro i d v hi; cases hi
  pass := by intro ⟨e, he, _⟩; cases he
  minted := by intro i d hi; cases hi
  issued := by
    intro hi
    obtain ⟨row, hrow, -⟩ := isRow_eq_true.mp hi
    have hnone : w.deposits.lookup n = none := by rw [hw]; rfl
    rw [show (Calls.start deltaSecs calls w).world = w from rfl, hnone] at hrow
    cases hrow
  attested := by
    intro hi
    obtain ⟨row, hrow, -⟩ := isRow_eq_true.mp hi
    have hnone : w.deposits.lookup n = none := by rw [hw]; rfl
    rw [show (Calls.start deltaSecs calls w).world = w from rfl, hnone] at hrow
    cases hrow

theorem Kept.unstranded {calls : List Call} {c : Calls} (hc : Coherent calls c)
    (h : ∀ n, Kept calls n c) : Unstranded calls c := by
  intro hquiet n hpass hno
  have hk := h n
  have hidle := hc.idle_of_quiet hquiet
  rcases hk.pass hpass with ⟨i, d, hi, -⟩ | ⟨row, hrow, hst⟩
  · rw [hidle i] at hi; cases hi
  · have hscr : row.state = .screened := by
      cases hs : row.state with
      | screened => rfl
      | attested =>
          obtain ⟨i, hi⟩ := hk.attested (isRow_eq_true.mpr ⟨row, hrow, hs⟩) hno
          rw [hidle i] at hi
          cases hi
      | issued => exact absurd (hk.issued (isRow_eq_true.mpr ⟨row, hrow, hs⟩)) hno
      | observed => rw [hs] at hst; cases hst
      | encumbered => rw [hs] at hst; cases hst
      | disputed => rw [hs] at hst; cases hst
    refine ⟨row, hrow, hscr, fun rank ds hds => ?_⟩
    exact (InMemoryDepositRepo.mem_held hds).mpr ⟨hscr, n, hrow⟩

/-- A run whose steps all hand over strands no deposit. -/
theorem nothing_stranded (deltaSecs : Int64) (calls : List Call)
    (ledger : SimulatedLedger.State) (ts : List (ℕ × Env))
    (h : Pool.Along World.exec (fun c t => handsOver calls c t = true)
      (Calls.start deltaSecs calls (.fresh ledger)) ts) :
    Unstranded calls
      ((Calls.start deltaSecs calls (.fresh ledger)).run World.exec ts) := by
  have hrun := Pool.run_induct
    (I := fun c => Coherent calls c ∧ ∀ n, Kept calls n c) ?_ h
    ⟨coherent_fresh calls deltaSecs ledger, kept_start rfl⟩
  · exact Kept.unstranded hrun.1 hrun.2
  · intro c t ⟨hc, hk⟩ ht
    refine ⟨hc.step t, fun n => ?_⟩
    rcases hc.step_cases t with heq | ⟨a, q', hm⟩
    · rw [heq]; exact hk n
    · exact (hk n).move hc ht hm

end Stranded

open Sample

/-- The second deposit finds the reserve used up and stays `Screened`. -/
theorem nothing_stranded_in_turn :
    let calls : List Call := [deposit scb1, deposit scb2]
    let ledger := SimulatedLedger.new ⟨100⟩ 3600 0
    let ts := schedule (env 0 .pass) [0, 0, 0, 0, 0, 0, 0, 0, 0, 1, 1, 1, 1, 1, 1]
    Pool.Along World.exec (fun c t => handsOver calls c t = true)
        (Calls.start 86400 calls (.fresh ledger)) ts ∧
      Unstranded calls
        ((Calls.start 86400 calls (.fresh ledger)).run World.exec ts) :=
  ⟨by decide, nothing_stranded 86400 _ _ _ (by decide)⟩

/-- Two deposits pass the check for the last 100 before either is minted. The
ledger refuses the second, whose row stays `Attested`. The clocks agree, and
nothing fails. -/
theorem deposit_stranded :
    let calls : List Call := [deposit scb1, deposit scb2]
    let ts := schedule (env 0 .pass)
      [0, 0, 0, 0, 0, 0, 1, 1, 1, 1, 1, 1, 0, 0, 0, 1, 1]
    Pool.Along World.exec (fun c t => t.2.clock = c.world.ledger.now)
        (Calls.start 86400 calls treasury) ts ∧
      ¬ Unstranded calls ((Calls.start 86400 calls treasury).run World.exec ts) := by
  intro calls ts
  refine ⟨by decide, fun h => ?_⟩
  obtain ⟨row, hrow, hst, -⟩ := h (by decide) scb2.hash (by decide) (by decide)
  have hno : isRow .screened ((Calls.start 86400 calls treasury).run World.exec
      ts).world.deposits scb2.hash = false := by decide
  rw [isRow_eq_true.mpr ⟨row, hrow, hst⟩] at hno
  cases hno

end Thbc.OnRamp
