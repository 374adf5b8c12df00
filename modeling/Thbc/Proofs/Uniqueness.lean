import Thbc.Proofs.Copies

/-!
# F3: one reference, one mint

Under any interleaving a bank reference is inserted once, screened once and
minted once, and the mint is for the amount and the wallet that were
inserted. Each of the three happens at most once because it needs something
that it also ends: an insert needs the row absent, a screen needs the one
call that inserted the row and has not screened yet, a mint needs the
nullifier absent from the ledger (`Lib.Once`). References with one digest
count as one throughout.
-/

namespace Thbc.OnRamp

open Thbc.Lib

variable [Sha256]

/-! ## The three events -/

/-- A row was inserted under `n`. -/
def isInsert (n : BankRefHash) : ℕ × Act Port Port.Reply → Bool
  | (_, ⟨.deposits (.insert d), .ok _⟩) => d.nullifier = n
  | _ => false

/-- The compliance port was asked by a call that handles a deposit with the
nullifier `n`. -/
def isScreen (calls : List Call) (n : BankRefHash) :
    ℕ × Act Port Port.Reply → Bool
  | (i, ⟨.compliance _, _⟩) =>
      match callAt calls i with
      | .handleDeposit bankRef _ _ _ => bankRef.hash = n
      | _ => false
  | _ => false

/-- The ledger confirmed a mint under `n`. -/
def isMint (n : BankRefHash) : ℕ × Act Port Port.Reply → Bool
  | (_, ⟨.ledger (.issue _ _ m), .ok .confirmed⟩) => m = n
  | _ => false

omit [Sha256] in
theorem quiet_isMint {n : BankRefHash} {t : ℕ} {a : Act Port Port.Reply}
    (h : isMint n (t, a) = true) : quiet a = false := by
  unfold isMint at h
  split at h
  · next heq => cases heq; rfl
  · cases h

/-- An insert happens to a row that is not there, and then it is. -/
theorem isInsert_fires {calls : List Call} {c c' : Calls} {t : ℕ}
    {a : Act Port Port.Reply} {q' : Phase} (hm : Move calls c c' t a q')
    {n : BankRefHash} (h : isInsert n (t, a) = true) :
    c.world.deposits.lookup n = none ∧ c'.world.deposits.lookup n ≠ none := by
  have hs := hm.step
  generalize phaseAt calls c t = q at hs
  cases hs with
  | inserted _ _ hnone hdep _ =>
      have hn := of_decide_eq_true h
      rw [← hn, hdep, AList.lookup_insert]
      exact ⟨hnone, fun h => by cases h⟩
  | other ha _ _ _ =>
      exfalso
      unfold isInsert at h
      split at h
      · next heq => cases heq; cases ha
      · cases h
  | _ => cases h

theorem isMint_fires {calls : List Call} {c c' : Calls} {t : ℕ}
    {a : Act Port Port.Reply} {q' : Phase} (hm : Move calls c c' t a q')
    {n : BankRefHash} (h : isMint n (t, a) = true) :
    n ∉ c.world.ledger.nullifiers ∧ n ∈ c'.world.ledger.nullifiers := by
  have hs := hm.step
  generalize phaseAt calls c t = q at hs
  cases hs with
  | @minted d hdep hled =>
      have hn : d.nullifier = n := of_decide_eq_true h
      rcases c.world.ledger.issue_cases d.beneficiaryWallet d.amount d.nullifier with
        ⟨e, heq, -⟩ | ⟨hno, v, b, r, -, heq, -⟩
      · rw [heq] at hled; cases hled
      · rw [heq] at hled
        rw [← hn, ← (Prod.mk.inj hled).2]
        exact ⟨hno, Finset.mem_insert_self _ _⟩
  | other ha _ _ _ => rw [quiet_isMint h] at ha; cases ha
  | refused _ hr _ =>
      exfalso
      unfold isMint at h
      split at h
      · next heq => cases heq; exact hr rfl
      · cases h
  | _ => cases h

/-! ## The screen -/

/-- A call that has a fresh deposit is the one that handles it. -/
def Owned (calls : List Call) (c : Calls) : Prop :=
  ∀ i d v, phaseAt calls c i = .fresh d v →
    callAt calls i = .handleDeposit d.bankRef d.amount d.beneficiary
      d.beneficiaryWallet

theorem Owned.move {calls : List Call} {c c' : Calls} {t : ℕ}
    {a : Act Port Port.Reply} {q' : Phase} (h : Owned calls c)
    (hm : Move calls c c' t a q') : Owned calls c' := by
  intro i d v hi
  by_cases hit : i = t
  · subst hit
    rw [hm.phase_self] at hi
    have hs := hm.step
    generalize hq : phaseAt calls c i = q at hs
    cases hs with
    | inserted _ hcall _ _ _ => cases hi; exact hcall
    | screened _ => cases hi; exact h i d none hq
    | @judged d' o _ _ =>
        cases o with
        | pass => cases hi
        | fail => cases hi
    | _ => cases hi
  · rw [hm.phase_of_ne hit] at hi
    exact h i d v hi

/-- Nobody is screened but by a call that handles a deposit, for what that call is about. -/
def Screeners (calls : List Call) (c : Calls) : Prop :=
  ∀ i user amount r,
    (i, (⟨.compliance (.screen user amount), r⟩ : Act Port Port.Reply)) ∈ c.log →
      ∃ bankRef wallet, callAt calls i = .handleDeposit bankRef amount user wallet

theorem Screeners.move {calls : List Call} {c c' : Calls} {t : ℕ}
    {a : Act Port Port.Reply} {q' : Phase} (h : Screeners calls c) (ho : Owned calls c)
    (hm : Move calls c c' t a q') : Screeners calls c' := by
  intro i user amount r hmem
  rw [hm.log] at hmem
  rcases List.mem_cons.mp hmem with heq | hmem
  · obtain ⟨rfl, rfl⟩ := Prod.mk.inj heq
    have hs := hm.step
    generalize hq : phaseAt calls c i = q at hs
    cases hs with
    | @screened d _ _ => exact ⟨_, _, ho i d none hq⟩
    | @unscreened d _ _ => exact ⟨_, _, ho i d none hq⟩
    | other ha _ _ _ => cases ha
  · exact h i user amount r hmem

/-- The row is there and nobody is about to have it screened. -/
def ScreenDone (calls : List Call) (n : BankRefHash) (c : Calls) : Prop :=
  c.world.deposits.lookup n ≠ none ∧
    ∀ i d, phaseAt calls c i = .fresh d none → d.nullifier ≠ n

theorem ScreenDone.move {calls : List Call} {n : BankRefHash} {c c' : Calls}
    {t : ℕ} {a : Act Port Port.Reply} {q' : Phase} (h : ScreenDone calls n c)
    (hm : Move calls c c' t a q') : ScreenDone calls n c' := by
  refine ⟨fun hnone => h.1 (lookup_of_step hm.step hnone), ?_⟩
  intro i d hi
  by_cases hit : i = t
  · subst hit
    rw [hm.phase_self] at hi
    have hs := hm.step
    generalize phaseAt calls c i = q at hs
    cases hs with
    | inserted _ _ hnone _ _ =>
        cases hi
        intro hn
        exact h.1 (hn ▸ hnone)
    | @judged d' o _ _ =>
        cases o with
        | pass => cases hi
        | fail => cases hi
    | _ => cases hi
  · rw [hm.phase_of_ne hit] at hi
    exact h.2 i d hi

/-- Nobody is about to have a deposit screened that has just been. -/
theorem screenDone_of_answer {calls : List Call} {c c' : Calls} {t : ℕ}
    {a : Act Port Port.Reply} {q' : Phase} {d : Deposit}
    (hc : Coherent calls c) (hm : Move calls c c' t a q')
    (ht : phaseAt calls c t = .fresh d none) (hq' : ∀ d', q' ≠ .fresh d' none) :
    ScreenDone calls d.nullifier c' := by
  have hrow := (hc.sound.fresh t d none ht).2
  refine ⟨fun hnone => ?_, ?_⟩
  · rw [lookup_of_step hm.step hnone] at hrow
    cases hrow
  · intro i d' hi hn
    by_cases hit : i = t
    · subst hit
      rw [hm.phase_self] at hi
      exact hq' d' hi
    · rw [hm.phase_of_ne hit] at hi
      exact hit (hc.sound.unique i t d' d none none hi ht hn)

theorem isScreen_fires {calls : List Call} {c c' : Calls} {t : ℕ}
    {a : Act Port Port.Reply} {q' : Phase} (hc : Coherent calls c)
    (ho : Owned calls c) (hm : Move calls c c' t a q') {n : BankRefHash}
    (h : isScreen calls n (t, a) = true) :
    ¬ ScreenDone calls n c ∧ ScreenDone calls n c' := by
  have hn : ∀ d u m r, phaseAt calls c t = .fresh d none →
      isScreen calls n (t, ⟨.compliance (.screen u m), r⟩) = true →
      d.nullifier = n := by
    intro d u m r hq hp
    have hcall := ho t d none hq
    unfold isScreen at hp
    simp only [hcall] at hp
    exact of_decide_eq_true hp
  have hs := hm.step
  generalize hq : phaseAt calls c t = q at hs
  cases hs with
  | screened _ =>
      have hd := hn _ _ _ _ hq h
      subst hd
      exact ⟨fun hdone => hdone.2 t _ hq rfl,
        screenDone_of_answer hc hm hq fun d' h => by cases h⟩
  | unscreened _ =>
      have hd := hn _ _ _ _ hq h
      subst hd
      exact ⟨fun hdone => hdone.2 t _ hq rfl,
        screenDone_of_answer hc hm hq fun d' h => by cases h⟩
  | other ha _ _ _ =>
      exfalso
      unfold isScreen at h
      split at h
      · next heq => cases heq; cases ha
      · cases h
  | _ => cases h

/-! ## What was inserted is what is minted -/

/-- The row's amount and wallet were inserted. -/
def Original (n : BankRefHash) (log : List (ℕ × Act Port Port.Reply))
    (wallet : String) (amount : Thb) : Prop :=
  ∃ j d, (j, (⟨.deposits (.insert d), .ok ()⟩ : Act Port Port.Reply)) ∈ log ∧
    d.nullifier = n ∧ d.beneficiaryWallet = wallet ∧ d.amount = amount

theorem Original.cons {n : BankRefHash} {log : List (ℕ × Act Port Port.Reply)}
    {wallet : String} {amount : Thb} (h : Original n log wallet amount)
    (e : ℕ × Act Port Port.Reply) : Original n (e :: log) wallet amount := by
  obtain ⟨j, d, hmem, hd⟩ := h
  exact ⟨j, d, List.mem_cons_of_mem e hmem, hd⟩

structure Faithful (n : BankRefHash) (c : Calls) : Prop where
  row : ∀ d, c.world.deposits.lookup n = some d →
    Original n c.log d.beneficiaryWallet d.amount
  mint : ∀ i wallet amount, (i, (⟨.ledger (.issue wallet amount n),
      .ok .confirmed⟩ : Act Port Port.Reply)) ∈ c.log →
    Original n c.log wallet amount

theorem Faithful.move {calls : List Call} {n : BankRefHash} {c c' : Calls}
    {t : ℕ} {a : Act Port Port.Reply} {q' : Phase} (hc : Coherent calls c)
    (h : Faithful n c) (hm : Move calls c c' t a q') : Faithful n c' where
  row := by
    intro d hrow
    rw [hm.log]
    rcases row_of_step hc.sound rfl hm.step hrow with
      ⟨row, hold, s, rfl⟩ | ⟨-, hn, ha⟩
    · exact (h.row row hold).cons _
    · exact ⟨t, d, by rw [ha]; exact List.mem_cons_self, hn, rfl, rfl⟩
  mint := by
    intro i wallet amount hmem
    rw [hm.log] at hmem ⊢
    rcases List.mem_cons.mp hmem with heq | hmem
    · obtain ⟨rfl, rfl⟩ := Prod.mk.inj heq
      have hs := hm.step
      generalize hq : phaseAt calls c i = q at hs
      cases hs with
      | @minted d _ _ =>
          obtain ⟨s, -, hrow⟩ := hc.sound.passed i d _ hq
          exact (h.row _ hrow).cons _
      | refused _ hr _ => exact absurd rfl hr
      | other ha _ _ _ => cases ha
    · exact (h.mint i wallet amount hmem).cons _

/-! ## F3 -/

/-- At most one insert, one screen and one mint for each reference, whatever
the calls and their schedule, and the mint is of what was inserted. No retry has
anybody screened. -/
theorem f3_once (deltaSecs : Int64) (calls : List Call)
    (ledger : SimulatedLedger.State) (ts : List (ℕ × Env)) (bankRef : BankRef) :
    let c := (Calls.start deltaSecs calls (.fresh ledger)).run World.exec ts
    c.log.countP (isInsert bankRef.hash) ≤ 1 ∧
      c.log.countP (isScreen calls bankRef.hash) ≤ 1 ∧
      (∀ i user amount r,
        (i, (⟨.compliance (.screen user amount), r⟩ : Act Port Port.Reply)) ∈ c.log →
          ∃ bankRef' wallet, callAt calls i = .handleDeposit bankRef' amount user wallet) ∧
      c.log.countP (isMint bankRef.hash) ≤ 1 ∧
      ∀ i wallet amount, (i, (⟨.ledger (.issue wallet amount bankRef.hash),
          .ok .confirmed⟩ : Act Port Port.Reply)) ∈ c.log →
        ∃ j d, (j, (⟨.deposits (.insert d), .ok ()⟩ : Act Port Port.Reply)) ∈ c.log ∧
          d.nullifier = bankRef.hash ∧ d.beneficiaryWallet = wallet ∧
          d.amount = amount := by
  intro c
  have hrun := Coherent.run_induct calls
    (I := fun c => Owned calls c ∧ Screeners calls c ∧ Faithful bankRef.hash c ∧
      Once (isInsert bankRef.hash)
        (c.world.deposits.lookup bankRef.hash ≠ none) c.log ∧
      Once (isScreen calls bankRef.hash) (ScreenDone calls bankRef.hash c) c.log ∧
      Once (isMint bankRef.hash)
        (bankRef.hash ∈ c.world.ledger.nullifiers) c.log)
    ?_ (coherent_fresh calls deltaSecs ledger) ?_ ts
  · obtain ⟨-, -, hscreeners, hf, hi, hs, hmint⟩ := hrun
    exact ⟨hi.once, hs.once, hscreeners, hmint.once, hf.mint⟩
  · intro c c' t a q' hc ⟨ho, hscreeners, hf, hi, hs, hmint⟩ hm
    refine ⟨ho.move hm, hscreeners.move ho hm, hf.move hc hm, ?_, ?_, ?_⟩
    · rw [hm.log]
      refine hi.cons (fun h hnone => h (lookup_of_step hm.step hnone)) fun hp => ?_
      obtain ⟨hnone, hsome⟩ := isInsert_fires hm hp
      exact ⟨fun h => h hnone, hsome⟩
    · rw [hm.log]
      exact hs.cons (fun h => h.move hm) (isScreen_fires hc ho hm)
    · rw [hm.log]
      exact hmint.cons (nullifiers_of_step hm.step) (isMint_fires hm)
  · refine ⟨?_, ?_, ⟨?_, ?_⟩, ?_, ?_, ?_⟩
    · intro i d v h; cases h
    · intro i user amount r h; cases h
    · intro d h; cases h
    · intro i wallet amount h; cases h
    · exact ⟨fun _ => rfl, Nat.zero_le 1⟩
    · exact ⟨fun _ => rfl, Nat.zero_le 1⟩
    · exact ⟨fun _ => rfl, Nat.zero_le 1⟩

end Thbc.OnRamp
