import Thbc.Logic.Issuance
import Thbc.System.World

/-!
# What time the gate goes by

`check_issuance` is handed a clock reading that is older than the snapshot it
judges: `handle_deposit` reads the clock on entry, before the insert and the
compliance screen, and `retry_held` one call before the snapshot. Nothing is
known of the adapters here. A `Moment` is what a port call meets, the answer that
each port would give then, and the time is the answer of the clock; the log of a
run is stamped with it.
-/

namespace Thbc.Current

open Thbc.Lib Thbc.Service

/-- What each port would answer. -/
abbrev Moment : Type := (s : Port) → s.Reply

/-- The time of a moment. -/
def Moment.now (m : Moment) : Int64 := m .clock

/-- The port calls of a run with their times, the latest first. -/
abbrev Log : Type := List (Int64 × Act Port Port.Reply)

/-- The port call that comes after `n` others meets the moment `n`. -/
def meeting (ms : ℕ → Moment) : Handler Port Port.Reply Unit Log :=
  fun _ s log =>
    (ms log.length s, ((ms log.length).now, ⟨s, ms log.length s⟩) :: log)

/-- The snapshot that was read last, with the time it was asked for. -/
def lastSnapshot : Log → Option (Int64 × TreasurySnapshot)
  | [] => none
  | (t, ⟨.ledger .snapshot, .ok s⟩) :: _ => some (t, s)
  | _ :: log => lastSnapshot log

/-- Whenever a deposit was persisted as `Attested`, the attestation of the
snapshot read before was fresh when that was asked for. -/
def AttestsFresh : Log → Prop
  | [] => True
  | (_, ⟨.deposits (.update d), .ok _⟩) :: log =>
      (d.state = .attested → ∃ t s, lastSnapshot log = some (t, s) ∧
        s.reserve.attestation.checkFresh t = .ok ()) ∧ AttestsFresh log
  | _ :: log => AttestsFresh log

/-- A request that persists no `Attested` deposit. -/
def attestsNone : Port → Prop
  | .deposits (.update d) => d.state ≠ .attested
  | _ => True

theorem attestsFresh_cons {s : Port} (hs : attestsNone s) (t : Int64) (b : s.Reply)
    (log : Log) : AttestsFresh ((t, ⟨s, b⟩) :: log) ↔ AttestsFresh log := by
  cases s with
  | deposits m =>
      cases m with
      | update d =>
          cases b with
          | error e => exact Iff.rfl
          | ok u => exact ⟨fun h => h.2, fun h => ⟨fun hd => absurd hd hs, h⟩⟩
      | _ => exact Iff.rfl
  | _ => exact Iff.rfl

section Rules

variable {ms : ℕ → Moment} {α β : Type} {log : Log}

theorem meets_call_meeting {s : Port} {Q : s.Reply → Log → Prop} :
    (Prog.call s).Meets (Handler.arena (meeting ms)) Q log ↔
      Q (ms log.length s) (((ms log.length).now, ⟨s, ms log.length s⟩) :: log) := by
  constructor
  · intro h
    exact h.2 _ _ ⟨(), rfl⟩
  · intro h
    refine ⟨trivial, fun b log' ⟨_, heq⟩ => ?_⟩
    obtain ⟨rfl, rfl⟩ := Prod.mk.inj heq
    exact h

theorem meets_clock_meeting {Q : PortResult Int64 → Log → Prop} :
    clock.run.Meets (Handler.arena (meeting ms)) Q log ↔
      Q (.ok (ms log.length).now)
        (((ms log.length).now, ⟨.clock, (ms log.length).now⟩) :: log) := by
  rw [meets_clock]
  constructor
  · intro h
    exact h.2 _ _ ⟨(), rfl⟩
  · intro h
    refine ⟨trivial, fun b log' ⟨_, heq⟩ => ?_⟩
    obtain ⟨rfl, rfl⟩ := Prod.mk.inj heq
    exact h

/-- A program that persists no `Attested` deposit. -/
theorem meets_attestsNone {p : Prog Port Port.Reply α} (hp : p.Uses attestsNone)
    (log : Log) : p.Meets (Handler.arena (meeting ms))
      (fun _ log' => AttestsFresh log' ↔ AttestsFresh log) log := by
  induction p generalizing log with
  | pure a => exact Iff.rfl
  | request s k ih =>
      refine ⟨trivial, fun b log' ⟨_, heq⟩ => ?_⟩
      obtain ⟨rfl, rfl⟩ := Prod.mk.inj heq
      refine meets_mono (ih _ (hp.2 _) _) fun a log' h => ?_
      exact h.trans (attestsFresh_cons hp.1 _ _ _)

end Rules

/-! ## The gate -/

/-- A deposit goes through the gate of a call that asks for the snapshot at the moment
`n`, judged at the time `now`: it is within the headroom and the attestation is fresh at
`now`, but it was no longer when it was asked for. -/
def Lapsed (ms : ℕ → Moment) (n : ℕ) (now : Int64) (d : Deposit) : Prop :=
  ∃ s e, ms n (.ledger .snapshot) = .ok s ∧
    ms (n + 1) (.deposits .totalEncumbered) = .ok e ∧
    s.reserve.attestation.isFresh now = true ∧ 0 < d.amount.toNat ∧
    d.amount.toNat ≤ (ReserveState.mk s.reserve.attestation e s.reserve.supply).headroom.toNat ∧
    ms (n + 2) (.deposits (.update { d with state := .attested })) = .ok () ∧
    s.reserve.attestation.isFresh (ms n).now = false

/-- A clock that stands still lets nothing lapse. -/
theorem not_lapsed_of_still {ms : ℕ → Moment} {n : ℕ} {now : Int64} {d : Deposit}
    (h : (ms n).now = now) : ¬ Lapsed ms n now d := by
  intro ⟨s, e, _, _, hfresh, _, _, _, hstale⟩
  rw [h, hfresh] at hstale
  cases hstale

section Gate

variable {ms : ℕ → Moment} {d : Deposit} {now : Int64} {log : Log}

/-- The gate, and what is left of the call after it. -/
theorem gate_current (hd : d.state = .screened) (hlog : AttestsFresh log)
    {rest : Deposit → Service IssuanceOutcome}
    (hrest : (rest { d with state := .attested }).run.Uses attestsNone) :
    (IssuanceService.effectiveReserve >>= fun state =>
      match state.checkIssuance d.amount now with
      | .error e => pure (.held e.display)
      | .ok _ => core d.markAttested >>= fun d' =>
          deposits (.update d') >>= fun _ => rest d').run.Meets
      (Handler.arena (meeting ms))
      (fun _ log' => AttestsFresh log' ↔ ¬ Lapsed ms log.length now d) log := by
  refine meets_run_bind.mpr (meets_run_bind.mpr (meets_call_meeting.mpr ?_))
  cases hs : ms log.length (.ledger .snapshot) with
  | error e =>
      refine iff_of_true hlog ?_
      intro ⟨s, _, hs', _⟩
      rw [hs] at hs'
      cases hs'
  | ok s =>
      refine meets_run_bind.mpr (meets_call_meeting.mpr ?_)
      rw [List.length_cons]
      cases he : ms (log.length + 1) (.deposits .totalEncumbered) with
      | error err =>
          refine iff_of_true hlog ?_
          intro ⟨_, e, _, he', _⟩
          rw [he] at he'
          cases he'
      | ok e =>
          show (match (ReserveState.mk s.reserve.attestation e
              s.reserve.supply).checkIssuance d.amount now with
            | .error err => pure (.held err.display)
            | .ok _ => core d.markAttested >>= fun d' =>
                deposits (.update d') >>= fun _ => rest d' : Service _).run.Meets _ _ _
          cases hv : (ReserveState.mk s.reserve.attestation e
              s.reserve.supply).checkIssuance d.amount now with
          | error err =>
              refine iff_of_true hlog ?_
              intro ⟨s', e', hs', he', hfresh, hpos, hroom, _⟩
              rw [hs] at hs'
              rw [he] at he'
              cases hs'
              cases he'
              obtain ⟨v, hv'⟩ := ReserveState.checkIssuance_accepts
                (r := ⟨s.reserve.attestation, e, s.reserve.supply⟩) |>.mpr ⟨hfresh, hpos, hroom⟩
              rw [hv] at hv'
              cases hv'
          | ok v =>
              rw [Deposit.markAttested_ok.mpr ⟨hd, rfl⟩]
              refine meets_core_ok.mpr (meets_run_bind.mpr (meets_call_meeting.mpr ?_))
              rw [List.length_cons, List.length_cons]
              cases hu : ms (log.length + 1 + 1)
                  (.deposits (.update { d with state := .attested })) with
              | error err =>
                  refine iff_of_true hlog ?_
                  intro ⟨_, _, _, _, _, _, _, hu', _⟩
                  rw [hu] at hu'
                  cases hu'
              | ok u =>
                  refine meets_mono (meets_attestsNone hrest _) fun _ log' h => ?_
                  rw [h]
                  constructor
                  · intro ⟨hfresh, _⟩ ⟨s', _, hs', _, _, _, _, _, hstale⟩
                    obtain ⟨t, s'', hlast, hok⟩ := hfresh rfl
                    rw [hs] at hs'
                    cases hs'
                    cases hlast
                    rw [Attestation.isFresh_iff.mpr hok] at hstale
                    cases hstale
                  · intro hno
                    refine ⟨fun _ => ⟨_, s, rfl, ?_⟩, hlog⟩
                    cases hf : s.reserve.attestation.isFresh (ms log.length).now with
                    | true => exact Attestation.isFresh_iff.mp hf
                    | false =>
                        obtain ⟨hfresh, hpos, hroom⟩ :=
                          ReserveState.checkIssuance_accepts.mp ⟨v, hv⟩
                        exact absurd ⟨s, e, hs, he, hfresh, hpos, hroom, hu, hf⟩ hno

end Gate

/-! ## The two calls -/

/-- The end of a call whose mint was confirmed. -/
theorem uses_issued {d : Deposit} (hd : d.state = .attested)
    (o : Deposit → IssuanceOutcome) :
    (core d.markIssued >>= fun d' =>
      deposits (.update d') >>= fun _ => pure (o d') : Service IssuanceOutcome).run.Uses
        attestsNone := by
  rw [Deposit.markIssued_ok.mpr ⟨hd, rfl⟩]
  refine uses_core_ok.mpr (uses_run_bind (uses_call ?_) fun _ => trivial)
  intro h
  cases h

section Calls

variable [Sha256] {ms : ℕ → Moment}

/-- A `handle_deposit` comes through to its gate and lets a lapsed attestation
through: the clock is read at the moment 0 and the snapshot at the moment 4. -/
def DepositLapses (ms : ℕ → Moment) (bankRef : BankRef) (amount : Thb)
    (beneficiary beneficiaryWallet : String) : Prop :=
  ∃ d, Deposit.observe bankRef amount beneficiary beneficiaryWallet (ms 0).now = .ok d ∧
    ms 1 (.deposits (.insert d)) = .ok () ∧
    ms 2 (.compliance (.screen beneficiary amount)) = .ok .pass ∧
    ms 3 (.deposits (.update { d with state := .screened })) = .ok () ∧
    Lapsed ms 4 (ms 0).now { d with state := .screened }

/-- The same of a `retry_held`: moment 1 and moment 2. -/
def RetryLapses (ms : ℕ → Moment) (bankRef : BankRef) : Prop :=
  ∃ d, ms 0 (.deposits (.find bankRef.hash)) = .ok (some d) ∧ d.state = .screened ∧
    Lapsed ms 2 (ms 1).now d

/-- The log of a run. -/
def runLog (deltaSecs : Int64) (call : Call) (ms : ℕ → Moment) : Log :=
  ((call.prog deltaSecs).run (meeting ms) (fun _ => ()) []).2

theorem retryHeld_current (bankRef : BankRef) :
    (IssuanceService.retryHeld bankRef).run.Meets (Handler.arena (meeting ms))
      (fun _ log => AttestsFresh log ↔ ¬ RetryLapses ms bankRef) [] := by
  refine meets_run_bind.mpr (meets_call_meeting.mpr ?_)
  rw [List.length_nil]
  cases hf : ms 0 (.deposits (.find bankRef.hash)) with
  | error e =>
      refine iff_of_true trivial ?_
      intro ⟨d, hf', _⟩
      rw [hf] at hf'
      cases hf'
  | ok found =>
      cases found with
      | none =>
          refine iff_of_true trivial ?_
          intro ⟨d, hf', _⟩
          rw [hf] at hf'
          cases hf'
      | some d =>
          refine meets_some.mpr ?_
          by_cases hd : d.state = .screened
          · rw [if_neg (not_not.mpr hd)]
            refine meets_run_bind.mpr (meets_clock_meeting.mpr ?_)
            refine meets_mono (gate_current hd ?_ ?_) fun _ log' h => ?_
            · trivial
            · refine uses_run_bind (uses_call trivial) fun outcome => ?_
              by_cases ho : outcome = .confirmed
              · rw [if_pos ho]
                exact uses_issued rfl fun d' => .issued d'.amount
              · rw [if_neg ho]
                trivial
            · rw [h]
              refine not_congr ⟨fun hl => ⟨d, hf, hd, hl⟩, fun ⟨d', hf', _, hl⟩ => ?_⟩
              rw [hf] at hf'
              cases hf'
              exact hl
          · rw [if_pos hd]
            refine iff_of_true trivial ?_
            intro ⟨d', hf', hd', _⟩
            rw [hf] at hf'
            cases hf'
            exact hd hd'

theorem attestAndIssue_current {d : Deposit} (hd : d.state = .screened) {now : Int64}
    {log : Log} (hlog : AttestsFresh log) :
    (IssuanceService.attestAndIssue d d.amount d.beneficiaryWallet d.nullifier
      now).run.Meets (Handler.arena (meeting ms))
      (fun _ log' => AttestsFresh log' ↔ ¬ Lapsed ms log.length now d) log := by
  refine gate_current hd hlog ?_
  refine uses_run_bind (uses_call trivial) fun outcome => ?_
  cases outcome with
  | confirmed => exact uses_issued rfl fun _ => .issued d.amount
  | submitted => trivial
  | failed => trivial

theorem screenAndIssue_current {d : Deposit} (hd : d.state = .observed) {now : Int64}
    {log : Log} (hlog : AttestsFresh log) :
    (IssuanceService.screenAndIssue d d.amount d.beneficiary d.beneficiaryWallet
      d.nullifier now).run.Meets (Handler.arena (meeting ms))
      (fun _ log' => AttestsFresh log' ↔
        ¬ (ms log.length (.compliance (.screen d.beneficiary d.amount)) = .ok .pass ∧
          ms (log.length + 1) (.deposits (.update { d with state := .screened })) =
            .ok () ∧
          Lapsed ms (log.length + 2) now { d with state := .screened })) log := by
  refine meets_run_bind.mpr (meets_call_meeting.mpr ?_)
  cases hc : ms log.length (.compliance (.screen d.beneficiary d.amount)) with
  | error e => exact iff_of_true hlog fun ⟨h, _⟩ => by cases h
  | ok screen =>
      change (core (d.screen screen) >>= _).run.Meets _ _ _
      cases screen with
      | fail =>
          have hscreen : d.screen .fail = .ok { d with state := .encumbered } :=
            Deposit.screen_ok.mpr ⟨hd, rfl⟩
          rw [hscreen]
          refine meets_core_ok.mpr ?_
          have hnone : (deposits (.update { d with state := .encumbered }) >>= fun _ =>
              pure (.encumbered d.amount "compliance screen failed") :
                Service IssuanceOutcome).run.Uses attestsNone :=
            uses_run_bind (uses_call fun h => by cases h) fun _ => trivial
          refine meets_mono (meets_attestsNone hnone _) fun _ log' h => ?_
          rw [h]
          exact iff_of_true hlog fun ⟨h, _⟩ => by cases h
      | pass =>
          have hscreen : d.screen .pass = .ok { d with state := .screened } :=
            Deposit.screen_ok.mpr ⟨hd, rfl⟩
          rw [hscreen]
          refine meets_core_ok.mpr (meets_run_bind.mpr (meets_call_meeting.mpr ?_))
          rw [List.length_cons]
          have hnone : attestsNone (.deposits (.update { d with state := .screened })) := by
            intro h
            cases h
          have hskip : ∀ (t : Int64) (b : PortResult Unit), AttestsFresh
              ((t, ⟨.deposits (.update { d with state := .screened }), b⟩) ::
                ((ms log.length).now, ⟨.compliance (.screen d.beneficiary d.amount),
                  .ok .pass⟩) :: log) := fun t b =>
            (attestsFresh_cons hnone t b _).mpr hlog
          cases hu : ms (log.length + 1)
              (.deposits (.update { d with state := .screened })) with
          | error e => exact iff_of_true (hskip _ _) fun ⟨_, h, _⟩ => by cases h
          | ok u =>
              refine meets_mono (attestAndIssue_current
                (d := { d with state := .screened }) rfl (hskip _ (.ok u))) fun _ log' h => ?_
              rw [h]
              exact not_congr ⟨fun hl => ⟨rfl, rfl, hl⟩, fun hl => hl.2.2⟩

theorem handleDeposit_current (bankRef : BankRef) (amount : Thb)
    (beneficiary beneficiaryWallet : String) :
    (IssuanceService.handleDeposit bankRef amount beneficiary
      beneficiaryWallet).run.Meets (Handler.arena (meeting ms))
      (fun _ log => AttestsFresh log ↔
        ¬ DepositLapses ms bankRef amount beneficiary beneficiaryWallet) [] := by
  refine meets_run_bind.mpr (meets_clock_meeting.mpr ?_)
  rw [List.length_nil]
  change (core (Deposit.observe bankRef amount beneficiary beneficiaryWallet
    (ms 0).now) >>= _).run.Meets _ _ _
  cases hobs : Deposit.observe bankRef amount beneficiary beneficiaryWallet
      (ms 0).now with
  | error e =>
      refine iff_of_true trivial ?_
      intro ⟨d, hobs', _⟩
      rw [hobs] at hobs'
      cases hobs'
  | ok d =>
      have hd := (Deposit.observe_ok.mp hobs).2.2
      refine meets_core_ok.mpr (meets_run_bind.mpr ?_)
      refine meets_attempt.mpr (meets_call_meeting.mpr ?_)
      rw [List.length_singleton]
      cases hins : ms 1 (.deposits (.insert d)) with
      | error e =>
          have hno : ¬ DepositLapses ms bankRef amount beneficiary beneficiaryWallet := by
            intro ⟨d', hobs', hins', _⟩
            rw [hobs] at hobs'
            cases hobs'
            rw [hins] at hins'
            cases hins'
          cases e with
          | conflict text =>
              refine meets_run_bind.mpr (meets_call_meeting.mpr ?_)
              cases ms 2 (.deposits (.find d.nullifier)) with
              | error e => exact iff_of_true trivial hno
              | ok existing => exact iff_of_true trivial hno
          | _ => exact iff_of_true trivial hno
      | ok u =>
          subst hd
          refine meets_mono (screenAndIssue_current
            (d := ⟨bankRef, amount, beneficiary, beneficiaryWallet, .observed, (ms 0).now⟩)
            rfl trivial) fun _ log' h => ?_
          rw [h]
          refine not_congr ⟨fun hl => ⟨_, hobs, hins, hl⟩, fun ⟨d', hobs', _, hl⟩ => ?_⟩
          rw [hobs] at hobs'
          cases hobs'
          exact hl

theorem deposit_attests_fresh (deltaSecs : Int64) (bankRef : BankRef) (amount : Thb)
    (beneficiary beneficiaryWallet : String) :
    AttestsFresh (runLog deltaSecs
        (.handleDeposit bankRef amount beneficiary beneficiaryWallet) ms) ↔
      ¬ DepositLapses ms bankRef amount beneficiary beneficiaryWallet := by
  have hmeets : (Call.prog deltaSecs (.handleDeposit bankRef amount beneficiary
      beneficiaryWallet)).Meets (Handler.arena (meeting ms))
      (fun _ log => AttestsFresh log ↔
        ¬ DepositLapses ms bankRef amount beneficiary beneficiaryWallet) [] := by
    refine meets_run_bind.mpr (meets_mono
      (handleDeposit_current bankRef amount beneficiary beneficiaryWallet) ?_)
    intro b log h
    cases b with
    | error e => exact h
    | ok o => exact h
  exact meets_run hmeets _

theorem retry_attests_fresh (deltaSecs : Int64) (bankRef : BankRef) :
    AttestsFresh (runLog deltaSecs (.retryHeld bankRef) ms) ↔ ¬ RetryLapses ms bankRef := by
  have hmeets : (Call.prog deltaSecs (.retryHeld bankRef)).Meets
      (Handler.arena (meeting ms))
      (fun _ log => AttestsFresh log ↔ ¬ RetryLapses ms bankRef) [] := by
    refine meets_run_bind.mpr (meets_mono (retryHeld_current bankRef) ?_)
    intro b log h
    cases b with
    | error e => exact h
    | ok o => exact h
  exact meets_run hmeets _

/-- The gate goes by the time of its snapshot in every run but those that let an
attestation through that was fresh when the clock was read and no longer is. -/
theorem attests_fresh_iff (deltaSecs : Int64) (ms : ℕ → Moment) :
    (∀ bankRef amount beneficiary beneficiaryWallet,
      AttestsFresh (runLog deltaSecs
          (.handleDeposit bankRef amount beneficiary beneficiaryWallet) ms) ↔
        ¬ DepositLapses ms bankRef amount beneficiary beneficiaryWallet) ∧
    (∀ bankRef, AttestsFresh (runLog deltaSecs (.retryHeld bankRef) ms) ↔
      ¬ RetryLapses ms bankRef) :=
  ⟨deposit_attests_fresh deltaSecs, retry_attests_fresh deltaSecs⟩

/-- A screen that takes no time leaves nothing to lapse. -/
theorem deposit_attests_fresh_of_still (deltaSecs : Int64) (bankRef : BankRef) (amount : Thb)
    (beneficiary beneficiaryWallet : String) (hstill : (ms 4).now = (ms 0).now) :
    AttestsFresh (runLog deltaSecs
      (.handleDeposit bankRef amount beneficiary beneficiaryWallet) ms) :=
  (deposit_attests_fresh deltaSecs bankRef amount beneficiary beneficiaryWallet).mpr
    fun ⟨_, _, _, _, _, hlapsed⟩ => not_lapsed_of_still hstill hlapsed

theorem retry_attests_fresh_of_still (deltaSecs : Int64) (bankRef : BankRef)
    (hstill : (ms 2).now = (ms 1).now) :
    AttestsFresh (runLog deltaSecs (.retryHeld bankRef) ms) :=
  (retry_attests_fresh deltaSecs bankRef).mpr
    fun ⟨_, _, _, hlapsed⟩ => not_lapsed_of_still hstill hlapsed

/-! ## The in-memory adapters -/

/-- What the port calls of a run meet: the adapters, as they are by then. -/
def moments {α : Type} : Prog Port Port.Reply α → (ℕ → Env) → World → ℕ → Moment
  | .pure _, es, w, n => fun s => (World.exec (es n) s w).1
  | .request _ _, es, w, 0 => fun s => (World.exec (es 0) s w).1
  | .request s k, es, w, n + 1 =>
      moments (k (World.exec (es 0) s w).1) (fun n => es (n + 1))
        (World.exec (es 0) s w).2 n

/-- A run over the adapters is a run through its moments. -/
theorem run_moments {α : Type} {p : Prog Port Port.Reply α} {es : ℕ → Env} {w : World}
    {ms : ℕ → Moment} {log : Log} (h : ∀ n, ms (log.length + n) = moments p es w n) :
    (p.run (meeting ms) (fun _ => ()) log).1 = (p.run World.exec es w).1 := by
  induction p generalizing es w log with
  | pure a => rfl
  | request s k ih =>
      have h₀ : ms log.length s = (World.exec (es 0) s w).1 := congrFun (h 0) s
      have hrest := @ih (ms log.length s) (fun n => es (n + 1)) (World.exec (es 0) s w).2
      refine (hrest ?_).trans ?_
      · intro n
        show ms (log.length + 1 + n) = _
        rw [Nat.add_right_comm, Nat.add_assoc, h (n + 1), h₀]
        rfl
      · rw [h₀]
        rfl

end Calls

open Sample

/-- The screen takes longer than the attestation lasts, and the deposit is
persisted as `Attested` all the same. -/
theorem attested_on_stale :
    ¬ AttestsFresh (runLog 86400 (deposit scb1)
      (moments (Call.prog 86400 (deposit scb1))
        (fun n => if n ≤ 2 then env 0 .pass else env 5000 .pass) treasury)) := by
  intro h
  obtain ⟨t, s, hlast, hok⟩ := h.2.1 rfl
  cases hlast
  exact absurd (Attestation.isFresh_iff.mpr hok) (by decide)

end Thbc.Current
