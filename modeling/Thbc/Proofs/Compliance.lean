import Thbc.Proofs.Uniqueness

/-!
# A deposit that failed its screen

From the answer `Fail` on, the deposit is either still in the hands of the
call that asked, its row `Observed`, or its row is `Encumbered`. In both
cases no call holds a copy that is past the screen, so none can ask for the
mint or write the row again.
-/

namespace Thbc.OnRamp

open Thbc.Lib

section Compliance

variable [Sha256]

/-- The compliance port answered `o` to a call that handles a deposit with the
nullifier `n`. -/
def isVerdict (calls : List Call) (n : BankRefHash) (o : ScreenOutcome)
    (e : ℕ × Act Port Port.Reply) : Bool :=
  match e with
  | (_, ⟨.compliance _, .ok o'⟩) => o' = o && isScreen calls n e
  | _ => false

def isIssue (n : BankRefHash) : ℕ × Act Port Port.Reply → Bool
  | (_, ⟨.ledger (.issue _ _ m), _⟩) => m = n
  | _ => false

/-! ## What no step undoes -/

/-- The row of a call's fresh deposit is not past its screen, and the row of a
copy past its screen is. Whatever a step writes, it writes over one of
these. -/
theorem write_of_step {call : Call} {w w' : World} {t : ℕ} {q q' : Phase}
    {a : Act Port Port.Reply} {stage : ℕ → Phase} (h : Sound w.deposits stage)
    (hq : stage t = q) (hs : Step call w w' q a q') {n : BankRefHash}
    {row : Deposit} (hrow : w.deposits.lookup n = some row) :
    w'.deposits.lookup n = some row ∨
    (row.state = .observed ∧ ∃ o, w'.deposits.lookup n =
        some { row with state := Deposit.screenTarget o } ∧
      stage t = .fresh row (some o) ∧ a = ⟨.deposits (.update
        { row with state := Deposit.screenTarget o }), .ok ()⟩) ∨
    (pastScreen row.state = true ∧ ∃ d, d.nullifier = n ∧
      ((stage t = .passed d .cleared ∧
          w'.deposits.lookup n = some { row with state := .attested } ∧
          a = ⟨.deposits (.update { d with state := .attested }), .ok ()⟩) ∨
        (stage t = .passed d .minted ∧
          w'.deposits.lookup n = some { row with state := .issued } ∧
          a = ⟨.deposits (.update { d with state := .issued }), .ok ()⟩))) := by
  have hsame : w'.deposits = w.deposits → w'.deposits.lookup n = some row :=
    fun hdep => by rw [hdep]; exact hrow
  cases hs with
  | @inserted d hd _ hnone hdep _ =>
      left
      have hn : n ≠ d.nullifier := AList.ne_of_lookup hrow hnone
      rw [hdep, AList.lookup_insert_ne hn]
      exact hrow
  | @judged d o hdep _ =>
      obtain ⟨hd, hold⟩ := h.fresh t d _ hq
      by_cases hn : n = d.nullifier
      · subst hn
        rw [hold] at hrow
        cases hrow
        rw [hdep, AList.lookup_insert]
        exact .inr (.inl ⟨hd, o, rfl, hq, rfl⟩)
      · left
        rw [hdep, AList.lookup_insert_ne hn]
        exact hrow
  | @attested d hdep _ =>
      obtain ⟨s, hs, hold⟩ := h.passed t d _ hq
      by_cases hn : n = d.nullifier
      · subst hn
        rw [hold] at hrow
        cases hrow
        rw [hdep, AList.lookup_insert]
        exact .inr (.inr ⟨hs, d, rfl, .inl ⟨hq, rfl, rfl⟩⟩)
      · left
        rw [hdep, AList.lookup_insert_ne hn]
        exact hrow
  | @issued d hdep _ =>
      obtain ⟨s, hs, hold⟩ := h.passed t d _ hq
      by_cases hn : n = d.nullifier
      · subst hn
        rw [hold] at hrow
        cases hrow
        rw [hdep, AList.lookup_insert]
        exact .inr (.inr ⟨hs, d, rfl, .inr ⟨hq, rfl, rfl⟩⟩)
      · left
        rw [hdep, AList.lookup_insert_ne hn]
        exact hrow
  | found _ _ hw => exact .inl (hsame (by rw [hw]))
  | screened hw => exact .inl (hsame (by rw [hw]))
  | unscreened hw => exact .inl (hsame (by rw [hw]))
  | timed hw => exact .inl (hsame (by rw [hw]))
  | sighted hw _ => exact .inl (hsame (by rw [hw]))
  | cleared hw _ _ => exact .inl (hsame (by rw [hw]))
  | minted hdep _ => exact .inl (hsame hdep)
  | refused hdep _ _ => exact .inl (hsame hdep)
  | other _ _ hdep _ => exact .inl (hsame hdep)

theorem encumbered_of_move {calls : List Call} {c c' : Calls} {t : ℕ}
    {a : Act Port Port.Reply} {q' : Phase} (hc : Coherent calls c)
    (hm : Move calls c c' t a q') {n : BankRefHash} {row : Deposit}
    (hrow : c.world.deposits.lookup n = some row)
    (hst : row.state = .encumbered) :
    c'.world.deposits.lookup n = some row := by
  rcases write_of_step hc.sound rfl hm.step hrow with h | ⟨hobs, -⟩ | ⟨hpast, -⟩
  · exact h
  · rw [hst] at hobs; cases hobs
  · rw [hst] at hpast; cases hpast

theorem pastScreen_of_move {calls : List Call} {c c' : Calls} {t : ℕ}
    {a : Act Port Port.Reply} {q' : Phase} (hc : Coherent calls c)
    (hm : Move calls c c' t a q') {n : BankRefHash} {row : Deposit}
    (hrow : c.world.deposits.lookup n = some row)
    (hst : pastScreen row.state = true) :
    ∃ row', c'.world.deposits.lookup n = some row' ∧
      pastScreen row'.state = true := by
  rcases write_of_step hc.sound rfl hm.step hrow with
    h | ⟨hobs, -⟩ | ⟨-, d, -, ⟨-, h, -⟩ | ⟨-, h, -⟩⟩
  · exact ⟨row, h, hst⟩
  · rw [hobs] at hst; cases hst
  · exact ⟨_, h, rfl⟩
  · exact ⟨_, h, rfl⟩

/-! ## From the verdict on -/

/-- After the verdict: it is about to be persisted, or it is. -/
def Barred (calls : List Call) (n : BankRefHash) (c : Calls) : Prop :=
  (∃ i d, phaseAt calls c i = .fresh d (some .fail) ∧ d.nullifier = n) ∨
  (∃ row, c.world.deposits.lookup n = some row ∧ row.state = .encumbered)

theorem Barred.move {calls : List Call} {n : BankRefHash} {c c' : Calls}
    {t : ℕ} {a : Act Port Port.Reply} {q' : Phase} (hc : Coherent calls c)
    (h : Barred calls n c) (hm : Move calls c c' t a q') : Barred calls n c' := by
  rcases h with ⟨i, d, hi, hn⟩ | ⟨row, hrow, hst⟩
  · by_cases hit : i = t
    · subst hit
      have hs := hm.step
      rw [hi] at hs
      cases hs with
      | judged hdep _ =>
          right
          refine ⟨{ d with state := .encumbered }, ?_, rfl⟩
          rw [hdep, ← hn, AList.lookup_insert]
          rfl
      | other _ hdrop _ _ => exact absurd hdrop (hc.sound.keeps hi rfl)
    · left
      refine ⟨i, d, ?_, hn⟩
      rw [hm.phase_of_ne hit]
      exact hi
  · exact .inr ⟨row, encumbered_of_move hc hm hrow hst, hst⟩

theorem Barred.not_pastScreen {calls : List Call} {n : BankRefHash} {c : Calls}
    (hc : Coherent calls c) (h : Barred calls n c) {row : Deposit}
    (hrow : c.world.deposits.lookup n = some row) :
    pastScreen row.state = false := by
  rcases h with ⟨i, d, hi, rfl⟩ | ⟨row', hrow', hst⟩
  · obtain ⟨hd, hold⟩ := hc.sound.fresh i d _ hi
    rw [hold] at hrow
    cases hrow
    rw [hd]
    rfl
  · rw [hrow'] at hrow
    cases hrow
    rw [hst]
    rfl

theorem fresh_of_verdict {calls : List Call} {c c' : Calls} {t : ℕ}
    {a : Act Port Port.Reply} {q' : Phase} (ho : Owned calls c)
    (hm : Move calls c c' t a q') {n : BankRefHash} {o : ScreenOutcome}
    (h : isVerdict calls n o (t, a) = true) :
    ∃ d, phaseAt calls c' t = .fresh d (some o) ∧ d.nullifier = n := by
  have hs := hm.step
  generalize hq : phaseAt calls c t = q at hs
  cases hs with
  | @screened d o' _ =>
      obtain ⟨ho', hp⟩ := Bool.and_eq_true_iff.mp h
      obtain rfl := of_decide_eq_true ho'
      unfold isScreen at hp
      simp only [ho t d none hq] at hp
      exact ⟨d, hm.phase_self, of_decide_eq_true hp⟩
  | other ha _ _ _ =>
      exfalso
      unfold isVerdict at h
      split at h
      · next heq => cases heq; cases ha
      · cases h
  | _ => cases h

/-- A mint is asked for only where the row is past its screen. -/
theorem pastScreen_of_issue {calls : List Call} {c c' : Calls} {t : ℕ}
    {a : Act Port Port.Reply} {q' : Phase} (hc : Coherent calls c)
    (hm : Move calls c c' t a q') {n : BankRefHash}
    (h : isIssue n (t, a) = true) :
    ∃ row, c.world.deposits.lookup n = some row ∧ pastScreen row.state = true := by
  have hpassed : ∀ d, phaseAt calls c t = .passed d .attested → d.nullifier = n →
      ∃ row, c.world.deposits.lookup n = some row ∧
        pastScreen row.state = true := by
    intro d hq hn
    obtain ⟨s, hs, hrow⟩ := hc.sound.passed t d _ hq
    exact ⟨_, hn ▸ hrow, hs⟩
  have hs := hm.step
  generalize hq : phaseAt calls c t = q at hs
  cases hs with
  | minted _ _ => exact hpassed _ hq (of_decide_eq_true h)
  | refused _ _ _ => exact hpassed _ hq (of_decide_eq_true h)
  | other ha _ _ _ =>
      exfalso
      unfold isIssue at h
      split at h
      · next heq => cases heq; cases ha
      · cases h
  | _ => cases h

/-- What is known of one nullifier: after a `Fail` it is barred, and if it was
ever sent to the ledger its row is past the screen. -/
structure Screening (calls : List Call) (n : BankRefHash) (c : Calls) : Prop where
  owned : Owned calls c
  fail : ∀ e ∈ c.log, isVerdict calls n .fail e = true → Barred calls n c
  issue : ∀ e ∈ c.log, isIssue n e = true →
    ∃ row, c.world.deposits.lookup n = some row ∧ pastScreen row.state = true

theorem screening_start {calls : List Call} {deltaSecs : Int64} {w : World}
    (n : BankRefHash) : Screening calls n (Calls.start deltaSecs calls w) where
  owned := by intro i d v h; cases h
  fail := by intro e h; cases h
  issue := by intro e h; cases h

theorem Screening.move {calls : List Call} {n : BankRefHash} {c c' : Calls}
    {t : ℕ} {a : Act Port Port.Reply} {q' : Phase} (hc : Coherent calls c)
    (h : Screening calls n c) (hm : Move calls c c' t a q') :
    Screening calls n c' where
  owned := h.owned.move hm
  fail := by
    intro e he hf
    rw [hm.log] at he
    rcases List.mem_cons.mp he with rfl | he
    · obtain ⟨d, hq, hn⟩ := fresh_of_verdict h.owned hm hf
      exact .inl ⟨t, d, hq, hn⟩
    · exact (h.fail e he hf).move hc hm
  issue := by
    intro e he hi
    rw [hm.log] at he
    have hrow : ∃ row, c.world.deposits.lookup n = some row ∧
        pastScreen row.state = true := by
      rcases List.mem_cons.mp he with rfl | he
      · exact pastScreen_of_issue hc hm hi
      · exact h.issue e he hi
    obtain ⟨row, hrow, hst⟩ := hrow
    exact pastScreen_of_move hc hm hrow hst

omit [Sha256] in
theorem amount_le_encumbered {rows : InMemoryDepositRepo} {n : BankRefHash}
    {row : Deposit} (hrow : rows.lookup n = some row)
    (hst : row.state = .encumbered) :
    row.amount.toNat ≤ rows.amountOf Deposit.isEncumbering := by
  have hw := AList.weight_le_tally
    (fun d : Deposit => if d.isEncumbering then d.amount.toNat else 0) rows n
  rw [AList.weight_of_lookup hrow] at hw
  have henc : row.isEncumbering = true := by
    rw [Deposit.isEncumbering, hst]
  rw [if_pos henc] at hw
  exact hw

/-- Whatever happens after a `Fail`, before or after its row is written: the
ledger is never asked for the mint, and once the row is `Encumbered` it stays
as it is and counts in the encumbered total. -/
theorem failed_never_issued (deltaSecs : Int64) (calls : List Call)
    (ledger : SimulatedLedger.State) (ts us : List (ℕ × Env))
    (bankRef : BankRef)
    (hfail : ∃ e ∈ ((Calls.start deltaSecs calls (.fresh ledger)).run
      World.exec ts).log, isVerdict calls bankRef.hash .fail e = true) :
    let c := (Calls.start deltaSecs calls (.fresh ledger)).run World.exec ts
    let c' := c.run World.exec us
    (∀ e ∈ c'.log, isIssue bankRef.hash e = false) ∧
      ∀ row, c.world.deposits.lookup bankRef.hash = some row →
        row.state = .encumbered →
        c'.world.deposits.lookup bankRef.hash = some row ∧
          row.amount.toNat ≤
            c'.world.deposits.amountOf Deposit.isEncumbering ∧
          ∀ t, c'.world.deposits.totalEncumbered = .ok t →
            row.amount.toNat ≤ t.toNat := by
  intro c c'
  obtain ⟨hc, hscr⟩ := Coherent.run_induct calls
    (I := Screening calls bankRef.hash) (fun hc h hm => h.move hc hm)
    (coherent_fresh calls deltaSecs ledger) (screening_start _) ts
  obtain ⟨e, he, hf⟩ := hfail
  refine ⟨?_, ?_⟩
  · obtain ⟨hc', hscr', hbar⟩ := Coherent.run_induct calls
      (I := fun c => Screening calls bankRef.hash c ∧ Barred calls bankRef.hash c)
      (fun hc h hm => ⟨h.1.move hc hm, h.2.move hc hm⟩) hc
      ⟨hscr, hscr.fail e he hf⟩ us
    intro e' he'
    cases hi : isIssue bankRef.hash e' with
    | false => rfl
    | true =>
        obtain ⟨row, hrow, hst⟩ := hscr'.issue e' he' hi
        rw [hbar.not_pastScreen hc' hrow] at hst
        cases hst
  · intro row hrow hst
    obtain ⟨-, hrow'⟩ := Coherent.run_induct calls
      (I := fun c => c.world.deposits.lookup bankRef.hash = some row)
      (fun hc h hm => encumbered_of_move hc hm h hst) hc hrow us
    have hle := amount_le_encumbered hrow' hst
    refine ⟨hrow', hle, fun t ht => ?_⟩
    rw [InMemoryDepositRepo.total_ok.mp ht]
    exact hle

end Compliance

open Sample

/-- A deposit that fails its screen while a retry is under way. -/
theorem failed_never_issued_scb1 :
    let calls : List Call := [deposit scb1, .retryHeld scb1]
    let c := (Calls.start 86400 calls treasury).run World.exec
      (schedule (env 0 .fail) [0, 0, 0, 1, 0])
    let c' := c.run World.exec (schedule (env 0 .pass) [1, 1, 1])
    (∀ e ∈ c'.log, isIssue scb1.hash e = false) ∧
      ∀ row, c.world.deposits.lookup scb1.hash = some row →
        row.state = .encumbered →
        c'.world.deposits.lookup scb1.hash = some row ∧
          row.amount.toNat ≤
            c'.world.deposits.amountOf Deposit.isEncumbering ∧
          ∀ t, c'.world.deposits.totalEncumbered = .ok t →
            row.amount.toNat ≤ t.toNat :=
  failed_never_issued 86400 [deposit scb1, .retryHeld scb1] _
    (schedule (env 0 .fail) [0, 0, 0, 1, 0]) (schedule (env 0 .pass) [1, 1, 1])
    scb1 (by decide)

end Thbc.OnRamp
