import Thbc.Proofs.Compliance

/-!
# Where `Issued` gets lost

`update` is a blind overwrite, and `handle_deposit` and `retry_held` may both
hold a `Screened` copy of one deposit. The one that comes second to its
`Attested` write puts it over the `Issued` of the other; the ledger then
refuses the second mint and the row stays `Attested` for good.

That is the only way. `attestsInTime` says of a step that it opens no such
window, and a run all of whose steps do keeps every `Issued` row.
-/

namespace Thbc.OnRamp

open Thbc.Lib

section Absorbing

variable [Sha256]

/-- The nullifier of the row that is about to be written `Attested`. -/
def Phase.clearing : Phase → Option BankRefHash
  | .passed d .cleared => some d.nullifier
  | _ => none

def isRow (s : DepositState) (rows : InMemoryDepositRepo) (n : BankRefHash) :
    Bool :=
  match rows.lookup n with
  | some row => row.state = s
  | none => false

/-- A call that persists a deposit as `Issued` does so while no other call is
between its passed ceiling check and its `Attested` write of that deposit, and
a ceiling check of a deposit that is `Issued` already does not pass. -/
def attestsInTime (calls : List Call) (c : Calls) (t : ℕ × Env) : Bool :=
  match phaseAt calls c t.1 with
  | .passed d .minted =>
      (List.range calls.length).all fun j =>
        j = t.1 || (phaseAt calls c j).clearing ≠ some d.nullifier
  | .passed d (.sighted now s) =>
      !isRow .issued c.world.deposits d.nullifier ||
        match c.world.deposits.totalEncumbered with
        | .ok e => !admits d now s e
        | .error _ => true
  | _ => true

/-- Every `Issued` row is still there as it was, and the issued total has not
gone down. -/
def IssuedKept (c c' : Calls) : Prop :=
  (∀ n row, c.world.deposits.lookup n = some row → row.state = .issued →
    c'.world.deposits.lookup n = some row) ∧
  c.world.deposits.amountOf (fun d => d.state = .issued) ≤
    c'.world.deposits.amountOf (fun d => d.state = .issued)

/-- A call about to write `Attested` does not write over `Issued`. -/
def ClearingFresh (calls : List Call) (c : Calls) : Prop :=
  ∀ j n, (phaseAt calls c j).clearing = some n →
    isRow .issued c.world.deposits n = false

omit [Sha256] in
theorem isRow_eq_true {s : DepositState} {rows : InMemoryDepositRepo}
    {n : BankRefHash} :
    isRow s rows n = true ↔ ∃ row, rows.lookup n = some row ∧ row.state = s := by
  unfold isRow
  cases rows.lookup n with
  | none => simp
  | some row => simp

theorem state_of_move {calls : List Call} {c c' : Calls} {t : ℕ}
    {a : Act Port Port.Reply} {q' : Phase} (hc : Coherent calls c)
    (hm : Move calls c c' t a q') {n : BankRefHash} {s : DepositState}
    (h : isRow s c.world.deposits n = false)
    (h' : isRow s c'.world.deposits n = true) :
    s = .observed ∨ (∃ o, s = Deposit.screenTarget o) ∨
    (∃ d, d.nullifier = n ∧
      ((s = .attested ∧ phaseAt calls c t = .passed d .cleared) ∨
        (s = .issued ∧ phaseAt calls c t = .passed d .minted))) := by
  obtain ⟨row', hrow', rfl⟩ := isRow_eq_true.mp h'
  cases hrow : c.world.deposits.lookup n with
  | none =>
      rcases row_of_step hc.sound rfl hm.step hrow' with
        ⟨row, hold, -⟩ | ⟨-, -, ha⟩
      · rw [hrow] at hold; cases hold
      · have hs := hm.step
        rw [ha] at hs
        generalize phaseAt calls c t = q at hs
        cases hs with
        | inserted hd _ _ _ _ => exact .inl hd
        | other ha _ _ _ => cases ha
  | some row =>
      rcases write_of_step hc.sound rfl hm.step hrow with
        heq | ⟨-, o, heq, -⟩ | ⟨-, d, hn, ⟨hq, heq, -⟩ | ⟨hq, heq, -⟩⟩
      · rw [heq] at hrow'
        cases hrow'
        rw [isRow_eq_true.mpr ⟨row', hrow, rfl⟩] at h
        cases h
      · rw [heq] at hrow'
        cases hrow'
        exact .inr (.inl ⟨o, rfl⟩)
      · rw [heq] at hrow'
        cases hrow'
        exact .inr (.inr ⟨d, hn, .inl ⟨rfl, hq⟩⟩)
      · rw [heq] at hrow'
        cases hrow'
        exact .inr (.inr ⟨d, hn, .inr ⟨rfl, hq⟩⟩)

/-- The row that a step makes `Issued` is the one a minting call persists. -/
theorem issued_of_move {calls : List Call} {c c' : Calls} {t : ℕ}
    {a : Act Port Port.Reply} {q' : Phase} (hc : Coherent calls c)
    (hm : Move calls c c' t a q') {n : BankRefHash}
    (h : isRow .issued c.world.deposits n = false)
    (h' : isRow .issued c'.world.deposits n = true) :
    ∃ d, phaseAt calls c t = .passed d .minted ∧ d.nullifier = n := by
  rcases state_of_move hc hm h h' with
    hs | ⟨o, hs⟩ | ⟨d, hn, ⟨hs, -⟩ | ⟨-, hq⟩⟩
  · cases hs
  · cases o with
    | pass => cases hs
    | fail => cases hs
  · cases hs
  · exact ⟨d, hq, hn⟩

theorem ClearingFresh.move {calls : List Call} {c c' : Calls} {t : ℕ × Env}
    {a : Act Port Port.Reply} {q' : Phase} (hc : Coherent calls c)
    (h : ClearingFresh calls c) (ht : attestsInTime calls c t = true)
    (hm : Move calls c c' t.1 a q') : ClearingFresh calls c' := by
  intro j n hj
  cases hi : isRow .issued c'.world.deposits n with
  | false => rfl
  | true =>
      exfalso
      cases hi₀ : isRow .issued c.world.deposits n with
      | false =>
          -- The row becomes `Issued` in this step.
          obtain ⟨d, hq, hn⟩ := issued_of_move hc hm hi₀ hi
          unfold attestsInTime at ht
          rw [hq] at ht
          have hjt : j ≠ t.1 := by
            intro hjt
            subst hjt
            have hs := hm.step
            rw [hq] at hs
            rw [hm.phase_self] at hj
            cases hs with
            | issued _ _ => cases hj
            | other _ _ _ _ => cases hj
          rw [hm.phase_of_ne hjt] at hj
          have hlt : j < calls.length := by
            by_contra hge
            rw [hc.beyond j (by omega)] at hj
            cases hj
          have hno := List.all_eq_true.mp ht j (List.mem_range.mpr hlt)
          rw [hn, hj] at hno
          simp [hjt] at hno
      | true =>
          -- It was `Issued`, and the call has just passed its check.
          by_cases hjt : j = t.1
          · subst hjt
            rw [hm.phase_self] at hj
            have hs := hm.step
            generalize hq : phaseAt calls c t.1 = q at hs
            cases hs with
            | @cleared d now s e _ he ha =>
                unfold attestsInTime at ht
                rw [hq] at ht
                cases hj
                simp only [hi₀, he, ha] at ht
                cases ht
            | @judged d o _ _ =>
                cases o with
                | pass => cases hj
                | fail => cases hj
            | _ => cases hj
          · rw [hm.phase_of_ne hjt] at hj
            rw [h j n hj] at hi₀
            cases hi₀

omit [Sha256] in
theorem amountOf_issued_le {rows rows' : InMemoryDepositRepo}
    (h : ∀ n row, rows.lookup n = some row → row.state = .issued →
      rows'.lookup n = some row) :
    rows.amountOf (fun d => d.state = .issued) ≤
      rows'.amountOf (fun d => d.state = .issued) := by
  refine AList.tally_mono fun n => ?_
  cases hrow : rows.lookup n with
  | none => rw [AList.weight_of_none hrow]; omega
  | some row =>
      by_cases hst : row.state = .issued
      · rw [AList.weight_of_lookup hrow, AList.weight_of_lookup (h n row hrow hst)]
      · rw [AList.weight_of_lookup hrow, if_neg (by simpa using hst)]
        omega

theorem issuedKept_of_move {calls : List Call} {c c' : Calls} {t : ℕ}
    {a : Act Port Port.Reply} {q' : Phase} (hc : Coherent calls c)
    (h : ClearingFresh calls c) (hm : Move calls c c' t a q') :
    IssuedKept c c' := by
  have hkept : ∀ n row, c.world.deposits.lookup n = some row →
      row.state = .issued → c'.world.deposits.lookup n = some row := by
    intro n row hrow hst
    rcases write_of_step hc.sound rfl hm.step hrow with
      heq | ⟨hobs, -⟩ | ⟨-, d, hn, ⟨hq, -, -⟩ | ⟨-, heq, -⟩⟩
    · exact heq
    · rw [hst] at hobs; cases hobs
    · have hno := h t n (by rw [hq, ← hn]; rfl)
      rw [isRow_eq_true.mpr ⟨row, hrow, hst⟩] at hno
      cases hno
    · rw [heq, ← hst]
  exact ⟨hkept, amountOf_issued_le hkept⟩

def IssuedAbsorbing (deltaSecs : Int64) (calls : List Call)
    (ledger : SimulatedLedger.State) (ts : List (ℕ × Env)) : Prop :=
  Pool.Along World.exec (fun c t => IssuedKept c (c.step World.exec t))
    (Calls.start deltaSecs calls (.fresh ledger)) ts

/-- Any run whose steps attest in time loses no `Issued` row. -/
theorem issued_absorbing (deltaSecs : Int64) (calls : List Call)
    (ledger : SimulatedLedger.State) (ts : List (ℕ × Env))
    (h : Pool.Along World.exec (fun c t => attestsInTime calls c t = true)
      (Calls.start deltaSecs calls (.fresh ledger)) ts) :
    IssuedAbsorbing deltaSecs calls ledger ts := by
  refine Pool.Along.mono (I := fun c => Coherent calls c ∧ ClearingFresh calls c)
    ?_ ?_ h ⟨coherent_fresh calls deltaSecs ledger, ?_⟩
  · intro c t ⟨hc, hf⟩ ht
    refine ⟨hc.step t, ?_⟩
    rcases hc.step_cases t with heq | ⟨a, q', hm⟩
    · rw [heq]; exact hf
    · exact hf.move hc ht hm
  · intro c t ⟨hc, hf⟩ ht
    rcases hc.step_cases t with heq | ⟨a, q', hm⟩
    · rw [heq]; exact ⟨fun n row hrow _ => hrow, Nat.le_refl _⟩
    · exact issuedKept_of_move hc hf hm
  · intro j n hj
    cases hj

end Absorbing

open Sample

/-- A retry after the deposit is through attests nothing. -/
theorem issued_absorbing_in_turn :
    let calls : List Call := [deposit scb1, .retryHeld scb1]
    let ledger := SimulatedLedger.new ⟨100⟩ 3600 0
    let ts := schedule (env 0 .pass) [0, 0, 0, 0, 0, 0, 0, 0, 0, 1]
    Pool.Along World.exec (fun c t => attestsInTime calls c t = true)
        (Calls.start 86400 calls (.fresh ledger)) ts ∧
      IssuedAbsorbing 86400 calls ledger ts :=
  ⟨by decide, issued_absorbing 86400 _ _ _ (by decide)⟩

/-- The retry passes its check while the webhook's call does, and writes
`Attested` after the other has written `Issued`. -/
theorem issued_overwritten :
    let calls : List Call := [deposit scb1, .retryHeld scb1]
    let before := schedule (env 0 .pass) [0, 0, 0, 0, 1, 1, 1, 1, 0, 0, 0, 0, 0]
    ¬ IssuedAbsorbing 86400 calls (SimulatedLedger.new ⟨100⟩ 3600 0)
      (before ++ [(1, env 0 .pass)]) := by
  intro calls before h
  have hbefore : isRow .issued ((Calls.start 86400 calls (.fresh (SimulatedLedger.new
      ⟨100⟩ 3600 0))).run World.exec before).world.deposits scb1.hash = true := by
    decide
  have hafter : isRow .issued (((Calls.start 86400 calls (.fresh (SimulatedLedger.new
      ⟨100⟩ 3600 0))).run World.exec before).step World.exec
      (1, env 0 .pass)).world.deposits scb1.hash = false := by
    decide
  obtain ⟨-, ⟨hkept, -⟩, -⟩ := Pool.along_append.mp h
  obtain ⟨row, hrow, hst⟩ := isRow_eq_true.mp hbefore
  rw [isRow_eq_true.mpr ⟨row, hkept _ row hrow hst, hst⟩] at hafter
  cases hafter

end Thbc.OnRamp
