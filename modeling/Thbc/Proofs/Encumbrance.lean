import Thbc.System.Attesting
import Thbc.Proofs.Compliance

/-!
# The service's gate against the ledger's

The ledger's encumbrance is a figure some `attest` has read from the rows and
published later. Nothing orders two attestations, so a stale figure may
overwrite a newer one. It does not matter: an encumbering row is never written
again (`encumbered_le_of_move`), the encumbrance of the rows only grows, and a
figure read at any time stays below it. With the rest of the reserve the same
on both sides, what the service admits the ledger admits.
-/

namespace Thbc.OnRamp

open Thbc.Lib

section Encumbrance

variable [Sha256]

abbrev encumbrance (rows : InMemoryDepositRepo) : ℕ :=
  rows.amountOf Deposit.isEncumbering

theorem encumbered_le_of_step {call : Call} {w w' : World} {t : ℕ} {q q' : Phase}
    {a : Act Port Port.Reply} {stage : ℕ → Phase} (h : Sound w.deposits stage)
    (hq : stage t = q) (hs : Step call w w' q a q') :
    encumbrance w.deposits ≤ encumbrance w'.deposits := by
  refine AList.tally_mono fun n => ?_
  cases hrow : w.deposits.lookup n with
  | none =>
      rw [AList.weight_of_none hrow]
      exact Nat.zero_le _
  | some row =>
      rw [AList.weight_of_lookup hrow]
      rcases write_of_step h hq hs hrow with hsame | ⟨hobs, -⟩ | ⟨hpast, -⟩
      · rw [AList.weight_of_lookup hsame]
      · rw [if_neg (by simp [Deposit.isEncumbering, hobs])]
        exact Nat.zero_le _
      · rw [if_neg]
        · exact Nat.zero_le _
        · cases hs : row.state <;> simp [hs, pastScreen, Deposit.isEncumbering] at hpast ⊢

theorem encumbered_le_of_move {calls : List Call} {c c' : Calls} {t : ℕ}
    {a : Act Port Port.Reply} {q' : Phase} (hc : Coherent calls c)
    (hm : Move calls c c' t a q') :
    encumbrance c.world.deposits ≤ encumbrance c'.world.deposits :=
  encumbered_le_of_step hc.sound rfl hm.step

/-- The figure call `i` of a pool has read last. -/
def figureAt (calls : List Call) (c : Calls) (i : ℕ) : Option Thb :=
  c.stage (fun i => Attesting.grammar (callAt calls i)) i

/-- Every figure that is read or published is covered by the rows. -/
structure Covered (calls : List Call) (c : Calls) : Prop where
  obeys : c.Obeys fun i => Attesting.grammar (callAt calls i)
  read : ∀ i e, figureAt calls c i = some e →
    e.toNat ≤ encumbrance c.world.deposits
  published : c.world.ledger.reserve.encumbered.toNat ≤
    encumbrance c.world.deposits

/-- No call of the pool has a hand on the simulator. -/
def Uncontrolled (calls : List Call) : Prop :=
  ∀ m, Call.control m ∉ calls

omit [Sha256] in
theorem Uncontrolled.callAt_ne {calls : List Call} (h : Uncontrolled calls)
    (i : ℕ) (m : SimulatorControl) : callAt calls i ≠ .control m := by
  intro hcall
  rcases callAt_cases calls i with hmem | heq
  · rw [hcall] at hmem
    exact h m hmem
  · rw [hcall] at heq
    cases heq

omit [Sha256] in
theorem Covered.not_simulator {calls : List Call} {c : Calls}
    (hcalls : Uncontrolled calls) (h : Covered calls c) {i : ℕ} {s : Port}
    (hs : c.pending i = some s) : ∀ m, s ≠ .simulator m := by
  intro m heq
  subst heq
  exact hcalls.callAt_ne i m (h.obeys.asks hs)

theorem Covered.step {calls : List Call} {c : Calls} (hcalls : Uncontrolled calls)
    (hc : Coherent calls c) (h : Covered calls c) (t : ℕ × Env) :
    Covered calls (c.step World.exec t) := by
  have hgrows : encumbrance c.world.deposits ≤
      encumbrance (c.step World.exec t).world.deposits := by
    rcases hc.step_cases t with heq | ⟨a, q', hm⟩
    · rw [heq]
    · exact encumbered_le_of_move hc hm
  have hobeys : (c.step World.exec t).Obeys _ :=
    Pool.obeys_step h.obeys fun _ => trivial
  rcases Pool.step_cases (fun i => Attesting.grammar (callAt calls i)) World.exec
    c t with heq | ⟨s, hworld, hm⟩
  · rw [heq]; exact h
  · refine ⟨hobeys, ?_, ?_⟩
    · intro i e hi
      refine Nat.le_trans ?_ hgrows
      by_cases hit : i = t.1
      · subst hit
        rcases Attesting.figure_exec (hm.stage_self.symm.trans hi) with hold | hnew
        · exact h.read _ e hold
        · exact (InMemoryDepositRepo.total_ok.mp hnew).le
      · exact h.read i e ((hm.stage_of_ne hit).symm.trans hi)
    · refine Nat.le_trans ?_ hgrows
      rw [hworld]
      obtain ⟨-, hres | ⟨reserve, figure, rfl, hres⟩⟩ :=
        Attesting.attestation_exec (e := t.2) (w := c.world)
          (h.not_simulator hcalls hm.asked)
      · rw [hres]
        exact h.published
      · rw [hres]
        exact h.read _ figure (h.obeys.asks hm.asked).2

theorem covered_start (calls : List Call) (deltaSecs : Int64) (reserve : Thb)
    (ttlSecs now : Int64) :
    Covered calls (Calls.start deltaSecs calls
      (.fresh (SimulatedLedger.new reserve ttlSecs now))) where
  obeys := Calls.obeys_start (Attesting.call_obeys deltaSecs) calls _
  read := by intro i e h; cases h
  published := Nat.zero_le _

/-- What holds of a run of calls over a new ledger, none of which has a hand
on the simulator. -/
theorem covered_run (calls : List Call) (hcalls : Uncontrolled calls)
    {c : Calls} (hc : Coherent calls c) (h : Covered calls c)
    (ts : List (ℕ × Env)) :
    Coherent calls (c.run World.exec ts) ∧ Covered calls (c.run World.exec ts) ∧
      encumbrance c.world.deposits ≤
        encumbrance (c.run World.exec ts).world.deposits := by
  refine Pool.run_induct (I := fun c' => Coherent calls c' ∧ Covered calls c' ∧
      encumbrance c.world.deposits ≤ encumbrance c'.world.deposits) ?_
    (Pool.along_true _ _ _) ⟨hc, h, Nat.le_refl _⟩
  intro c' t ⟨hc', h', hle⟩ _
  refine ⟨hc'.step t, h'.step hcalls hc' t, Nat.le_trans hle ?_⟩
  rcases hc'.step_cases t with heq | ⟨a, q', hm⟩
  · rw [heq]
  · exact encumbered_le_of_move hc' hm

/-- What `current` comes to in one state. -/
theorem current_run (w : World) (es : ℕ → Env) :
    (ReserveService.current.run.run World.exec es w).1 =
      w.deposits.totalEncumbered.map w.current := by
  have hmeets : ReserveService.current.run.Meets (Handler.arena World.exec)
      (fun r _ => r = w.deposits.totalEncumbered.map w.current) w := by
    refine meets_run_bind.mpr ⟨trivial, fun b w₁ hm => ?_⟩
    obtain ⟨e, heq⟩ := hm
    obtain ⟨rfl, rfl⟩ := Prod.mk.inj heq
    refine meets_run_bind.mpr ⟨trivial, fun b w₁ hm => ?_⟩
    obtain ⟨e', heq⟩ := hm
    obtain ⟨rfl, rfl⟩ := Prod.mk.inj heq
    cases w.deposits.totalEncumbered <;> rfl
  exact meets_run hmeets es

theorem effectiveReserve_run (w : World) (es : ℕ → Env) :
    (IssuanceService.effectiveReserve.run.run World.exec es w).1 =
      w.deposits.totalEncumbered.map w.current :=
  current_run w es

theorem current_returns {w : World} {es : ℕ → Env} {state : ReserveState}
    (h : (ReserveService.current.run.run World.exec es w).1 = .ok state) :
    ∃ e, w.deposits.totalEncumbered = .ok e ∧ state = w.current e := by
  rw [current_run] at h
  cases ht : w.deposits.totalEncumbered with
  | error e => rw [ht] at h; cases h
  | ok e =>
      rw [ht] at h
      exact ⟨e, rfl, (Except.ok.inj h).symm⟩

/-- At any moment of any interleaving the ledger counts no more as encumbered
than the rows do, the rows' figure never falls, and what the reserve admits that
`current` or `effective_reserve` assembles then, the ledger's own admits with the
same answer. -/
theorem service_gate_tighter (deltaSecs : Int64) (calls : List Call)
    (hcalls : Uncontrolled calls) (reserve : Thb) (ttlSecs now : Int64)
    (ts us : List (ℕ × Env)) :
    let c := (Calls.start deltaSecs calls
      (.fresh (SimulatedLedger.new reserve ttlSecs now))).run World.exec ts
    c.world.ledger.reserve.encumbered.toNat ≤
        c.world.deposits.amountOf Deposit.isEncumbering ∧
      c.world.deposits.amountOf Deposit.isEncumbering ≤
        (c.run World.exec us).world.deposits.amountOf Deposit.isEncumbering ∧
      ∀ es state,
        ((ReserveService.current.run.run World.exec es c.world).1 = .ok state ∨
          (IssuanceService.effectiveReserve.run.run World.exec es c.world).1 = .ok state) →
        ∀ amount at' v, state.checkIssuance amount at' = .ok v →
          c.world.ledger.reserve.checkIssuance amount at' = .ok v := by
  intro c
  obtain ⟨hc, hcov, -⟩ := covered_run calls hcalls
    (coherent_fresh calls deltaSecs _)
    (covered_start calls deltaSecs reserve ttlSecs now) ts
  refine ⟨hcov.published, (covered_run calls hcalls hc hcov us).2.2, ?_⟩
  intro es state hstate amount at' v hv
  have hcurrent : (ReserveService.current.run.run World.exec es c.world).1 = .ok state := by
    rcases hstate with h | h
    · exact h
    · rwa [effectiveReserve_run, ← current_run c.world es] at h
  obtain ⟨e, he, rfl⟩ := current_returns hcurrent
  refine ReserveState.checkIssuance_mono (r := c.world.current e) rfl rfl ?_ hv
  show c.world.ledger.reserve.encumbered.toNat ≤ e.toNat
  rw [InMemoryDepositRepo.total_ok.mp he]
  exact hcov.published

end Encumbrance

open Sample

abbrev attestedTwice : List Call :=
  [deposit scb1, .attest ⟨500⟩, .attest ⟨500⟩, deposit scb2]

/-- The first attestation to read the rows is the last to publish. -/
abbrev overtaken : Calls :=
  (Calls.start 86400 attestedTwice treasury).run World.exec
    (schedule (env 0 .fail) [2, 2, 2, 0, 0, 0, 0, 1, 1, 1, 1, 2])

/-- Two attestations around a failed screen. The ledger counts nothing as encumbered,
the service a hundred satang; it admits four hundred of five, and so does the ledger. -/
theorem service_gate_tighter_stale :
    overtaken.world.ledger.reserve.encumbered = .zero ∧
      overtaken.world.deposits.amountOf Deposit.isEncumbering = 100 ∧
      100 ≤ (overtaken.run World.exec (schedule (env 0 .fail)
        [3, 3, 3, 3])).world.deposits.amountOf Deposit.isEncumbering ∧
      (ReserveService.current.run.run World.exec (fun _ => env 0 .fail)
        overtaken.world).1 = .ok ⟨⟨⟨500⟩, 0, 3600⟩, ⟨100⟩, .zero⟩ ∧
      overtaken.world.ledger.reserve.checkIssuance ⟨400⟩ 0 = .ok ⟨400⟩ := by
  have h := service_gate_tighter 86400 attestedTwice
    (by intro m h; simp [attestedTwice, deposit] at h) ⟨100⟩ 3600 0
    (schedule (env 0 .fail) [2, 2, 2, 0, 0, 0, 0, 1, 1, 1, 1, 2])
    (schedule (env 0 .fail) [3, 3, 3, 3])
  have hrows : overtaken.world.deposits.amountOf Deposit.isEncumbering = 100 := by
    decide +kernel
  have hcurrent : (ReserveService.current.run.run World.exec (fun _ => env 0 .fail)
      overtaken.world).1 = .ok ⟨⟨⟨500⟩, 0, 3600⟩, ⟨100⟩, .zero⟩ := by decide +kernel
  exact ⟨by decide +kernel, hrows, hrows ▸ h.2.1, hcurrent,
    h.2.2 _ _ (.inl hcurrent) ⟨400⟩ 0 ⟨400⟩ (by decide)⟩

end Thbc.OnRamp
