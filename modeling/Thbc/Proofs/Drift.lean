import Thbc.Proofs.Exclusive

/-!
# The drift a reconciliation reports

The three figures of a report are read one after the other, and calls go on in
between. A mint is in the supply one port call before its row is `Issued`, so
the reading of the rows misses it if it comes in between, and it misses every
mint from then on that the supply still shows (`missedMints`); and likewise
for burns. Where issued minus redeemed was the supply to start with, the drift
in the report is the difference of the two, and nothing else
(`Tracked.drift`).
-/

namespace Thbc.Reconciling

open Thbc.Lib

variable [Sha256]

/-! ## What a reading misses -/

abbrev Log : Type := List (ℕ × Act Port Port.Reply)

/-- Where call `i` has got to, by the log. -/
def stageOf (calls : List Call) (log : Log) (i : ℕ) : Watch :=
  (watch (callAt calls i)).state (own i log)

/-- How far reconciliation `k` has read. -/
def readingOf (calls : List Call) (log : Log) (k : ℕ) : Reading :=
  (stageOf calls log k).2.2.1

/-- The mints whose rows do not say so yet. -/
def unwrittenMints (calls : List Call) (log : Log) : ℕ :=
  ∑ i ∈ Finset.range calls.length, (stageOf calls log i).1.owed

/-- The burns whose rows do not say so yet. -/
def unwrittenBurns (calls : List Call) (log : Log) : ℕ :=
  ∑ i ∈ Finset.range calls.length, (stageOf calls log i).2.1.owed

/-- The mints that the snapshot of reconciliation `k` shows and its issued
tally lacks: those not yet written when the tally is read, and those made
between the two readings. -/
def missedMints (calls : List Call) (k : ℕ) : Log → ℕ
  | [] => 0
  | (i, a) :: log => missedMints calls k log +
      match readingOf calls log k, readingOf calls ((i, a) :: log) k with
      | .unread, .issued _ => unwrittenMints calls log
      | .issued _, _ | .tallied _ _, _ => minted a
      | _, _ => 0

/-- The same for burns and the redeemed tally. -/
def missedBurns (calls : List Call) (k : ℕ) : Log → ℕ
  | [] => 0
  | (i, a) :: log => missedBurns calls k log +
      match readingOf calls log k, readingOf calls ((i, a) :: log) k with
      | .issued _, .tallied _ _ => unwrittenBurns calls log
      | .tallied _ _, _ => (stageOf calls log i).2.1.burns a
      | _, _ => 0

/-! ## One port call -/

omit [Sha256] in
theorem Reading.advance_cases (q : Reading) (a : Act Port Port.Reply) :
    q.advance a = q ∨
    (∃ i, q = .unread ∧ a = ⟨.deposits .totalIssued, .ok i⟩ ∧
      q.advance a = .issued i) ∨
    (∃ i r, q = .issued i ∧ a = ⟨.redemptions .totalRedeemed, .ok r⟩ ∧
      q.advance a = .tallied i r) ∨
    ∃ i r s, q = .tallied i r ∧ a = ⟨.ledger .snapshot, .ok s⟩ ∧
      q.advance a = .sighted i r s.reserve.supply := by
  unfold Reading.advance
  split
  · exact .inr (.inl ⟨_, rfl, rfl, rfl⟩)
  · exact .inr (.inr (.inl ⟨_, _, rfl, rfl, rfl⟩))
  · exact .inr (.inr (.inr ⟨_, _, _, rfl, rfl, rfl⟩))
  · exact .inl rfl

section Step

variable {calls : List Call} {c c' : Calls} {t : ℕ} {a : Act Port Port.Reply}

/-- A move in the sums over all calls. -/
theorem mints_of_moves (hm : Moves calls c c' t a) :
    issuedRows c'.world.deposits + unwrittenMints calls c'.log =
      issuedRows c.world.deposits + unwrittenMints calls c.log + minted a := by
  have hsum := sum_update (fun q => q.1.owed) (stage calls c) hm.lt (stage calls c' t)
  have hupd : Function.update (stage calls c) t (stage calls c' t) = stage calls c' := by
    rw [hm.stage, Function.update_self]
  rw [hupd] at hsum
  have hissued := hm.issued
  show issuedRows c'.world.deposits +
      ∑ i ∈ Finset.range calls.length, (stage calls c' i).1.owed =
    issuedRows c.world.deposits +
      ∑ i ∈ Finset.range calls.length, (stage calls c i).1.owed + minted a
  omega

theorem burns_of_moves (hm : Moves calls c c' t a)
    (hwaste : ¬ (stage calls c t).2.1.Wastes a) :
    c'.world.redemptions.redeemed + unwrittenBurns calls c'.log =
      c.world.redemptions.redeemed + unwrittenBurns calls c.log +
        (stage calls c t).2.1.burns a := by
  have hsum := sum_update (fun q => q.2.1.owed) (stage calls c) hm.lt (stage calls c' t)
  have hupd : Function.update (stage calls c) t (stage calls c' t) = stage calls c' := by
    rw [hm.stage, Function.update_self]
  rw [hupd] at hsum
  have hredeemed := hm.redeemed.resolve_left hwaste
  show c'.world.redemptions.redeemed +
      ∑ i ∈ Finset.range calls.length, (stage calls c' i).2.1.owed =
    c.world.redemptions.redeemed +
      ∑ i ∈ Finset.range calls.length, (stage calls c i).2.1.owed +
        (stage calls c t).2.1.burns a
  omega

/-- Where reconciliation `k` stands after a move. -/
theorem reading_of_moves (hm : Moves calls c c' t a) (k : ℕ) :
    readingOf calls c'.log k = readingOf calls c.log k ∨
    (k = t ∧ readingOf calls c'.log k = (readingOf calls c.log k).advance a) := by
  have hstage : ∀ i, readingOf calls c'.log i = (stage calls c' i).2.2.1 := fun _ => rfl
  by_cases hk : k = t
  · subst hk
    refine .inr ⟨rfl, ?_⟩
    rw [hstage, hm.stage, Function.update_self]
    rfl
  · refine .inl ?_
    rw [hstage, hm.stage, Function.update_of_ne hk]
    rfl

/-- What the reading of reconciliation `k` comes to once the mints and burns it
misses are put in. -/
def Reading.Balances (q : Reading) (mints burns issued redeemed : ℕ) : Prop :=
  match q with
  | .unread => mints = 0 ∧ burns = 0
  | .issued i => i.toNat + mints = issued ∧ burns = 0
  | .tallied i r => i.toNat + mints = issued ∧ r.toNat + burns = redeemed
  | .sighted i r s => s.toNat + (r.toNat + burns) = i.toNat + mints

/-- The reading of reconciliation `k` against the world it is made in. -/
def Accounts (calls : List Call) (k : ℕ) (c : Calls) : Prop :=
  (readingOf calls c.log k).Balances (missedMints calls k c.log)
    (missedBurns calls k c.log)
    (issuedRows c.world.deposits + unwrittenMints calls c.log)
    (c.world.redemptions.redeemed + unwrittenBurns calls c.log)

/-- The identity of the run, in these sums. -/
theorem Running.unwritten (h : Running calls c)
    (hspent : ∀ i, (stage calls c i).2.2.2 ≠ .spent) :
    issuedRows c.world.deposits + unwrittenMints calls c.log =
      c.world.ledger.reserve.supply.toNat +
        (c.world.redemptions.redeemed + unwrittenBurns calls c.log) :=
  h.identity hspent

theorem accounts_step (h : Running calls c) (hm : Moves calls c c' t a)
    (hspent : ∀ i, (stage calls c i).2.2.2 ≠ .spent)
    (hwaste : ¬ (stage calls c t).2.1.Wastes a) {k : ℕ} (hk : Accounts calls k c) :
    Accounts calls k c' := by
  have hmints := mints_of_moves hm
  have hburns := burns_of_moves hm hwaste
  have hidentity := h.unwritten hspent
  obtain ⟨e, hreply⟩ := hm.reply
  have hmissed : missedMints calls k c'.log = missedMints calls k c.log +
      match readingOf calls c.log k, readingOf calls c'.log k with
      | .unread, .issued _ => unwrittenMints calls c.log
      | .issued _, _ | .tallied _ _, _ => minted a
      | _, _ => 0 := by
    rw [hm.log]
    rfl
  have hunburned : missedBurns calls k c'.log = missedBurns calls k c.log +
      match readingOf calls c.log k, readingOf calls c'.log k with
      | .issued _, .tallied _ _ => unwrittenBurns calls c.log
      | .tallied _ _, _ => (stage calls c t).2.1.burns a
      | _, _ => 0 := by
    rw [hm.log]
    rfl
  unfold Accounts at hk ⊢
  generalize hq : readingOf calls c.log k = q at hk hmissed hunburned
  generalize hq' : readingOf calls c'.log k = q' at hmissed hunburned ⊢
  have hcases : q' = q ∨ q' = q.advance a := by
    rw [← hq, ← hq']
    exact (reading_of_moves hm k).imp_right And.right
  have hkept : q' = q → q'.Balances (missedMints calls k c'.log)
      (missedBurns calls k c'.log)
      (issuedRows c'.world.deposits + unwrittenMints calls c'.log)
      (c'.world.redemptions.redeemed + unwrittenBurns calls c'.log) := by
    intro heq
    subst heq
    cases q' with
    | unread =>
        obtain ⟨hi, hr⟩ := hk
        dsimp only at hmissed hunburned
        exact ⟨by omega, by omega⟩
    | issued i =>
        obtain ⟨hi, hr⟩ := hk
        dsimp only at hmissed hunburned
        exact ⟨by omega, by omega⟩
    | tallied i r =>
        obtain ⟨hi, hr⟩ := hk
        dsimp only at hmissed hunburned
        exact ⟨by omega, by omega⟩
    | sighted i r s =>
        dsimp only at hmissed hunburned
        rw [hmissed, hunburned]
        exact hk
  obtain hsame | hnext := hcases
  · exact hkept hsame
  · obtain hidle | ⟨i, rfl, rfl, hadv⟩ | ⟨i, r, rfl, rfl, hadv⟩ |
      ⟨i, r, s, rfl, rfl, hadv⟩ := q.advance_cases a
    · exact hkept (hnext.trans hidle)
    · have hi : i.toNat = issuedRows c.world.deposits :=
        InMemoryDepositRepo.total_ok.mp hreply.symm
      rw [hnext.trans hadv] at hmissed hunburned ⊢
      dsimp only at hmissed hunburned
      have hminted : minted ⟨.deposits .totalIssued, .ok i⟩ = 0 := rfl
      obtain ⟨hm₀, hr⟩ := hk
      exact ⟨by omega, by omega⟩
    · have hr : r.toNat = c.world.redemptions.redeemed :=
        InMemoryRedemptionRepo.totalRedeemed_ok.mp hreply.symm
      rw [hnext.trans hadv] at hmissed hunburned ⊢
      dsimp only at hmissed hunburned
      have hburned : (stage calls c t).2.1.burns
          ⟨.redemptions .totalRedeemed, .ok r⟩ = 0 :=
        OffRamp.Phase.burns_of_ne _ (by simp)
      obtain ⟨hi, hr₀⟩ := hk
      exact ⟨by omega, by omega⟩
    · have hs : s.reserve.supply = c.world.ledger.reserve.supply := by
        have hs : Except.ok s = c.world.ledger.snapshot.1 := hreply
        obtain rfl := Except.ok.inj hs
        rfl
      rw [hnext.trans hadv] at hmissed hunburned ⊢
      dsimp only at hmissed hunburned
      obtain ⟨hi, hr⟩ := hk
      have hsupply := hm.supply
      show s.reserve.supply.toNat + (r.toNat + _) = i.toNat + _
      rw [hs]
      have hburned : (stage calls c t).2.1.burns ⟨.ledger .snapshot, .ok s⟩ = 0 :=
        OffRamp.Phase.burns_of_ne _ (by simp)
      have hminted : minted ⟨.ledger .snapshot, .ok s⟩ = 0 := rfl
      omega

/-- A report that call `k` has recorded is made of the three figures it has
read. -/
def Recorded (calls : List Call) (c : Calls) : Prop :=
  ∀ k report b, (k, (⟨.history (.record report), b⟩ : Act Port Port.Reply)) ∈ c.log →
    records (readingOf calls c.log k) (.history (.record report))

theorem recorded_step (h : Recorded calls c) (hm : Moves calls c c' t a) :
    Recorded calls c' := by
  intro k report b hmem
  have hsighted : records (readingOf calls c.log k) (.history (.record report)) := by
    rw [hm.log] at hmem
    obtain heq | hmem := List.mem_cons.mp hmem
    · obtain ⟨rfl, rfl⟩ := Prod.mk.inj heq
      exact hm.asks.2.2.2
    · exact h k report b hmem
  obtain hsame | ⟨rfl, hadv⟩ := reading_of_moves hm k
  · rw [hsame]
    exact hsighted
  · obtain ⟨i, r, s, hq, hdrift⟩ := hsighted
    rw [hadv, hq]
    exact ⟨i, r, s, rfl, hdrift⟩

end Step

/-! ## A run -/

/-- What holds at every moment of a run, in which calls keep off each other's
records. -/
structure Tracked (calls : List Call) (c : Calls) : Prop where
  running : Running calls c
  recorded : Recorded calls c
  accounts : (∀ i, (stage calls c i).2.2.2 ≠ .spent) → ∀ k, Accounts calls k c

section Run

variable {calls : List Call} {c : Calls}

theorem Tracked.step (hcalls : ∀ call ∈ calls, call.isTraffic = true)
    (h : Tracked calls c) (hex : Exclusive calls c) (t : ℕ × Env) :
    Tracked calls (c.step World.exec t) := by
  refine ⟨h.running.step hcalls hex t, ?_, fun hspent k => ?_⟩
  · obtain heq | ⟨s, -, hm⟩ := h.running.step_cases hcalls t
    · rw [heq]
      exact h.recorded
    · exact recorded_step h.recorded hm
  · obtain heq | ⟨s, -, hm⟩ := h.running.step_cases hcalls t
    · rw [heq] at hspent ⊢
      exact h.accounts hspent k
    · obtain ⟨hbefore, hwaste⟩ := h.running.spent_of_moves hm hspent
      exact accounts_step h.running hm hbefore hwaste (h.accounts hbefore k)

theorem tracked_start (deltaSecs : Int64) {w : World}
    (hcalls : ∀ call ∈ calls, call.isTraffic = true) (hw : Consistent w)
    (hbalance : issuedRows w.deposits =
      w.ledger.reserve.supply.toNat + w.redemptions.redeemed) :
    Tracked calls (Calls.start deltaSecs calls w) where
  running := running_start deltaSecs hcalls hw hbalance
  recorded k report b hmem := by cases hmem
  accounts _ k := ⟨rfl, rfl⟩

/-- Every call has returned, and without an error. -/
def Succeeded (c : Calls) : Prop :=
  ∀ p ∈ c.threads, succeeded p = true
where
  succeeded : Prog Port Port.Reply (PortResult CallOutcome) → Bool
    | .pure (.ok _) => true
    | _ => false

instance (c : Calls) : Decidable (Succeeded c) :=
  inferInstanceAs (Decidable (∀ p ∈ c.threads, _))

/-- Then none has burned in vain. -/
theorem Tracked.not_spent (h : Tracked calls c) (hok : Succeeded c) (i : ℕ) :
    (stage calls c i).2.2.2 ≠ .spent := by
  intro hspent
  by_cases hi : i < c.threads.length
  · have hp := List.getElem?_eq_getElem hi
    have hmeets := h.running.meets i _ hp
    have hdone := hok _ (List.getElem_mem hi)
    cases hq : c.threads[i] with
    | request s k => rw [hq] at hdone; cases hdone
    | pure r =>
        rw [hq] at hdone hmeets
        obtain ⟨e, rfl⟩ := hmeets.2.2 hspent
        cases hdone
  · have hstart : stage calls c i = (watch (callAt calls i)).start :=
      h.running.inRange.stage (Nat.le_of_not_lt hi)
    rw [hstart] at hspent
    cases hspent

/-- The drift of a report is what the readings have missed. -/
theorem Tracked.drift (h : Tracked calls c) (hok : Succeeded c) {k : ℕ}
    {report : ReconciliationReport}
    {b : (Port.history (.record report)).Reply}
    (hmem : (k, (⟨.history (.record report), b⟩ : Act Port Port.Reply)) ∈ c.log) :
    report.drift = (missedMints calls k c.log : ℤ) - missedBurns calls k c.log := by
  obtain ⟨i, r, s, hq, hdrift⟩ := h.recorded k report b hmem
  have hk := h.accounts (h.not_spent hok) k
  rw [Accounts, hq] at hk
  have hk : s.toNat + (r.toNat + missedBurns calls k c.log) =
    i.toNat + missedMints calls k c.log := hk
  omega

end Run

/-- Over calls that all succeed and keep off each other's records, from a
ledger that agrees with its rows, a reconciliation records no drift exactly
when the mints its readings miss come to as much as the burns. -/
theorem drift_zero_iff (deltaSecs : Int64) {calls : List Call}
    (hcalls : ∀ call ∈ calls, call.isTraffic = true) {w : World} (hw : Consistent w)
    (hbalance : issuedRows w.deposits =
      w.ledger.reserve.supply.toNat + w.redemptions.redeemed)
    {ts : List (ℕ × Env)}
    (hex : Pool.Along World.exec (fun c _ => Exclusive calls c)
      (Calls.start deltaSecs calls w) ts)
    (hok : Succeeded ((Calls.start deltaSecs calls w).run World.exec ts)) {k : ℕ}
    {report : ReconciliationReport} {b : (Port.history (.record report)).Reply}
    (hmem : (k, (⟨.history (.record report), b⟩ : Act Port Port.Reply)) ∈
      ((Calls.start deltaSecs calls w).run World.exec ts).log) :
    report.drift = 0 ↔
      missedMints calls k ((Calls.start deltaSecs calls w).run World.exec ts).log =
        missedBurns calls k ((Calls.start deltaSecs calls w).run World.exec ts).log := by
  have htracked : Tracked calls ((Calls.start deltaSecs calls w).run World.exec ts) :=
    Pool.run_induct (fun c t h hex => h.step hcalls hex t) hex
      (tracked_start deltaSecs hcalls hw hbalance)
  rw [htracked.drift hok hmem, Int.sub_eq_zero, Int.natCast_inj]

end Thbc.Reconciling

namespace Thbc

open Lib Reconciling Sample

/-- A reconciliation next to a deposit, and who makes which port call. -/
def overlapped (is : List ℕ) : Calls :=
  (Calls.start 86400 [.reconcile, deposit scb1] treasury).run World.exec
    (schedule (env 0 .pass) is)

theorem consistent_treasury : Consistent treasury :=
  consistent_run 86400 [] ⟨100⟩ 3600 0 []

/-- The deposit starts first, but mints only when the snapshot is taken. -/
theorem drift_zero_late :
    let report : ReconciliationReport := ⟨.ok, 0, ⟨0⟩, ⟨0⟩, ⟨100⟩, ⟨0⟩, 0⟩
    let c := overlapped [1, 1, 0, 0, 0, 1, 1, 1, 1, 1, 1, 1, 0, 0, 0]
    c.world.runs = [report] ∧ c.world.ledger.reserve.supply = ⟨100⟩ ∧
      report.drift = 0 := by
  refine ⟨by decide, by decide, ?_⟩
  refine (@drift_zero_iff _ 86400 [.reconcile, deposit scb1] (by decide) treasury
    consistent_treasury (by decide)
    (schedule (env 0 .pass) [1, 1, 0, 0, 0, 1, 1, 1, 1, 1, 1, 1, 0, 0, 0])
    (by decide) (by decide) 0 _ (.ok ()) ?_).mpr ?_
  · exact List.mem_of_getElem? (i := 0) rfl
  · decide

/-- The deposit runs between the first reading and the third: the ledger and
the rows agree before and after, and yet a drift is recorded. -/
theorem fabricated_drift :
    let c := overlapped [0, 1, 1, 1, 1, 1, 1, 1, 1, 1, 0, 0, 0, 0, 0]
    (issuedRows treasury.deposits =
        treasury.ledger.reserve.supply.toNat + treasury.redemptions.redeemed ∧
      issuedRows c.world.deposits =
        c.world.ledger.reserve.supply.toNat + c.world.redemptions.redeemed) ∧
      Pool.Along World.exec (fun c _ => Exclusive [.reconcile, deposit scb1] c)
        (Calls.start 86400 [.reconcile, deposit scb1] treasury)
        (schedule (env 0 .pass) [0, 1, 1, 1, 1, 1, 1, 1, 1, 1, 0, 0, 0, 0, 0]) ∧
      Succeeded c ∧
      c.world.runs = [⟨.drift, 100, ⟨0⟩, ⟨100⟩, ⟨100⟩, ⟨0⟩, 0⟩] := by
  decide

end Thbc
