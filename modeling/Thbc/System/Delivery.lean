import Thbc.System.World
import Thbc.Ledger.Conservation
import Thbc.Lib.Run

/-!
# A delivery with nothing else going on

What `handle_deposit` does for a new reference when every answer is the one it
hopes for: eight calls that can fail, one after the other, each leaving the
world where `Reached` says. If one of them fails the delivery stops there, and
`handleDeposit_reaches` covers all of these with one walk through the code. A
replay finds the row and leaves the world alone.
-/

namespace Thbc

open Thbc.Lib Thbc.Service

variable [Sha256]

/-- The world with the row of `d` written in the state `s`. -/
def World.rowAt (w : World) (d : Deposit) (s : DepositState) : World :=
  { w with deposits := AList.insert d.nullifier { d with state := s } w.deposits }

theorem World.lookup_rowAt (w : World) (d : Deposit) (s : DepositState) :
    (w.rowAt d s).deposits.lookup d.nullifier = some { d with state := s } :=
  AList.lookup_insert w.deposits

theorem World.rowAt_rowAt (w : World) (d : Deposit) (s s' : DepositState) :
    (w.rowAt d s).rowAt d s' = w.rowAt d s' := by
  simp only [rowAt, AList.insert_insert]

/-- Both gates let `amount` through: the service's at `now` with the
encumbrance of the rows, and the ledger's at its own time with its own. -/
structure Admitted (w : World) (amount : Thb) (now : Int64) : Prop where
  service : ∃ e v, w.deposits.totalEncumbered = .ok e ∧
    (w.current e).checkIssuance amount now = .ok v
  ledger : ∃ v, w.ledger.reserve.checkIssuance amount w.ledger.now = .ok v

/-- Both gates, evaluated. -/
def admittedBool (w : World) (amount : Thb) (now : Int64) : Bool :=
  match w.deposits.totalEncumbered with
  | .error _ => false
  | .ok e =>
      ((w.current e).checkIssuance amount now).isOk &&
        (w.ledger.reserve.checkIssuance amount w.ledger.now).isOk

instance (w : World) (amount : Thb) (now : Int64) :
    Decidable (Admitted w amount now) :=
  decidable_of_iff (admittedBool w amount now = true) (by
    have hok : ∀ r : CoreResult Thb, r.isOk = true ↔ ∃ v, r = .ok v := by
      intro r
      cases r with
      | error e => simp [Except.isOk, Except.toBool]
      | ok v => simp [Except.isOk, Except.toBool]
    unfold admittedBool
    cases he : w.deposits.totalEncumbered with
    | error err =>
        refine ⟨fun h => absurd h Bool.false_ne_true, fun h => ?_⟩
        obtain ⟨e, v, he', -⟩ := h.service
        rw [he] at he'
        cases he'
    | ok e =>
        simp only [Bool.and_eq_true, hok]
        refine ⟨fun ⟨⟨v, hv⟩, hl⟩ => ⟨⟨e, v, he, hv⟩, hl⟩, fun h => ?_⟩
        obtain ⟨e', v, he', hv⟩ := h.service
        obtain rfl : e = e' := Except.ok.inj (he.symm.trans he')
        exact ⟨⟨v, hv⟩, h.ledger⟩)

/-- Rows that do not encumber do not count at the gates. -/
theorem Admitted.rowAt {w : World} {amount : Thb} {now : Int64}
    (h : Admitted w amount now) {d : Deposit} {s : DepositState}
    (hs : Deposit.isEncumbering { d with state := s } = false)
    (hnew : w.deposits.lookup d.nullifier = none) :
    Admitted (w.rowAt d s) amount now := by
  obtain ⟨e, v, he, hv⟩ := h.service
  refine ⟨⟨e, v, InMemoryDepositRepo.total_ok.mpr ?_, hv⟩, h.ledger⟩
  have hrow : ∀ row, w.deposits.lookup d.nullifier = some row →
      row.isEncumbering = false := by
    intro row hrow
    rw [hnew] at hrow
    cases hrow
  have hamount := InMemoryDepositRepo.amountOf_insert (d := { d with state := s }) hrow
  rw [hs] at hamount
  exact (InMemoryDepositRepo.total_ok.mp he).trans hamount.symm

section Exec

variable {w : World} {e : Env} {d : Deposit}

theorem exec_insert_of_new (h : w.deposits.lookup d.nullifier = none) :
    World.exec e (.deposits (.insert d)) w = (.ok (), { w with
      deposits := AList.insert d.nullifier d w.deposits }) := by
  obtain ⟨row, text, hrow, -⟩ | ⟨-, heq⟩ := w.deposits.insert_cases d
  · rw [h] at hrow
    cases hrow
  · simp only [World.exec, InMemoryDepositRepo.call, heq]

theorem exec_insert_of_row {row : Deposit}
    (h : w.deposits.lookup d.nullifier = some row) :
    ∃ text, World.exec e (.deposits (.insert d)) w =
      (.error (.conflict text), w) := by
  obtain ⟨row', text, -, heq⟩ | ⟨hnone, -⟩ := w.deposits.insert_cases d
  · exact ⟨text, by simp only [World.exec, InMemoryDepositRepo.call, heq]⟩
  · rw [h] at hnone
    cases hnone

theorem exec_update_of_row {row : Deposit} {s : DepositState}
    (h : w.deposits.lookup d.nullifier = some row) :
    World.exec e (.deposits (.update { d with state := s })) w =
      (.ok (), w.rowAt d s) := by
  have hd : Deposit.nullifier { d with state := s } = d.nullifier := rfl
  obtain ⟨hnone, -⟩ | ⟨row', -, heq⟩ := w.deposits.update_cases { d with state := s }
  · rw [hd, h] at hnone
    cases hnone
  · simp only [World.exec, InMemoryDepositRepo.call, heq]
    rfl

omit [Sha256] in
/-- The mint goes through where the ledger's gate is open and the nullifier
free. -/
theorem issue_confirmed {s : SimulatedLedger.State} {amount v : Thb}
    (hgate : s.reserve.checkIssuance amount s.now = .ok v) (hcons : s.Conserved)
    {n : BankRefHash} (hfree : n ∉ s.nullifiers) (wallet : String) :
    ∃ s', s.issue wallet amount n = (.ok .confirmed, s') := by
  obtain ⟨e', -, hin | ⟨err, herr⟩⟩ | ⟨-, v, balance, -, -, heq⟩ :=
    SimulatedLedger.State.issue_conserved hcons wallet amount n
  · exact absurd hin hfree
  · rw [hgate] at herr
    cases herr
  · exact ⟨_, heq⟩

omit [Sha256] in
theorem mem_nullifiers_of_issue {s s' : SimulatedLedger.State} {wallet : String}
    {amount : Thb} {n : BankRefHash}
    (h : s.issue wallet amount n = (.ok .confirmed, s')) : n ∈ s'.nullifiers := by
  rcases s.issue_cases wallet amount n with
    ⟨e, heq, -⟩ | ⟨-, v, balance, r, -, heq, -⟩
  · rw [heq] at h
    cases h
  · rw [heq] at h
    rw [← (Prod.mk.inj h).2]
    exact Finset.mem_insert_self _ _

theorem exec_issue {wallet : String} {amount : Thb} {n : BankRefHash}
    {r : PortResult ConfirmOutcome} {s : SimulatedLedger.State}
    (h : w.ledger.issue wallet amount n = (r, s)) :
    World.exec e (.ledger (.issue wallet amount n)) w =
      (r, { w with ledger := s }) := by
  simp only [World.exec, SimulatedLedger.State.call, h]

theorem exec_find {n : BankRefHash} {row : Option Deposit}
    (h : w.deposits.lookup n = row) (e : Env) :
    World.exec e (.deposits (.find n)) w = (.ok row, w) := by
  rw [← h]
  rfl

theorem exec_totalEncumbered {r : PortResult Thb}
    (h : w.deposits.totalEncumbered = r) (e : Env) :
    World.exec e (.deposits .totalEncumbered) w = (r, w) := by
  rw [← h]
  rfl

end Exec

/-- What a delivery of `d` has left after `m` of its eight calls that can
fail: `insert`, `screen`, `update`, `snapshot`, `total_encumbered`, `update`,
`issue` and `update`. -/
def Reached (w : World) (d : Deposit) (m : ℕ) (w' : World) : Prop :=
  match m with
  | 0 => w' = w
  | 1 | 2 => w' = w.rowAt d .observed
  | 3 | 4 | 5 => w' = w.rowAt d .screened
  | 6 => w' = w.rowAt d .attested
  | 7 => ∃ ledger, w.ledger.issue d.beneficiaryWallet d.amount d.nullifier =
      (.ok .confirmed, ledger) ∧ w' = { w with ledger := ledger }.rowAt d .attested
  | _ => ∃ ledger, w.ledger.issue d.beneficiaryWallet d.amount d.nullifier =
      (.ok .confirmed, ledger) ∧ w' = { w with ledger := ledger }.rowAt d .issued

/-- A reply that says the call got lost. A clock has no such reply. -/
def lost (text : String) : (s : Port) → Option s.Reply
  | .clock => none
  | .deposits _ => some (.error (.transient text))
  | .redemptions _ => some (.error (.transient text))
  | .ledger _ => some (.error (.transient text))
  | .compliance _ => some (.error (.transient text))
  | .payouts _ => some (.error (.transient text))
  | .history _ => some (.error (.transient text))
  | .simulator _ => some (.error (.transient text))

section Delivery

variable {φ : World × Option ℕ → Env → Prop} {text : String} {w : World}
  {d : Deposit} {m : ℕ}

/-- How a delivery of `d` ends: `m` calls are done, and if that is all of them
it reports the mint. -/
def Delivered (w : World) (d : Deposit) (m : ℕ) (r : PortResult IssuanceOutcome)
    (x : World × Option ℕ) : Prop :=
  Reached w d m x.1 ∧ (m = 8 → r = .ok (.issued d.amount))

theorem delivered_lost {i : ℕ} {b : PortResult IssuanceOutcome}
    {x : World × Option ℕ} (hm : m = i) (hi : i < 8) (h : Reached w d i x.1) :
    Delivered w d m b x := by
  subst hm
  exact ⟨h, by omega⟩

theorem effectiveReserve_delivers {enc : Thb}
    (henc : w.deposits.totalEncumbered = .ok enc) {k : Option ℕ}
    (hm : cut 8 3 k = m) {Q : PortResult ReserveState → World × Option ℕ → Prop}
    (hfail : m = 3 ∨ m = 4 → ∀ e, Q (.error e) (w, none))
    (hdone : ∀ k', cut 8 5 k' = m → Q (.ok (w.current enc)) (w, k')) :
    IssuanceService.effectiveReserve.run.Meets
      ((Handler.faulty World.exec (lost text)).arenaWhere φ) Q (w, k) := by
  refine meets_run_bind.mpr (meets_call_faulty rfl hm (by omega)
    (fun _ _ => rfl) (fun h => hfail (.inl h) _) fun k' hm => ?_)
  refine meets_run_bind.mpr (meets_call_faulty rfl hm (by omega)
    (fun e _ => exec_totalEncumbered henc e) (fun h => hfail (.inr h) _) fun k' hm => ?_)
  exact hdone k' hm

/-- From the persisted screen on. -/
theorem attestAndIssue_delivers {now : Int64}
    (hadm : Admitted (w.rowAt d .screened) d.amount now)
    (hcons : w.ledger.Conserved) (hfree : d.nullifier ∉ w.ledger.nullifiers)
    {k : Option ℕ} (hm : cut 8 3 k = m) :
    (IssuanceService.attestAndIssue { d with state := .screened } d.amount
      d.beneficiaryWallet d.nullifier now).run.Meets
      ((Handler.faulty World.exec (lost text)).arenaWhere φ) (Delivered w d m)
      (w.rowAt d .screened, k) := by
  have hatt : Deposit.markAttested { d with state := .screened } =
      .ok { d with state := .attested } := Deposit.markAttested_ok.mpr ⟨rfl, rfl⟩
  have hiss : Deposit.markIssued { d with state := .attested } =
      .ok { d with state := .issued } := Deposit.markIssued_ok.mpr ⟨rfl, rfl⟩
  obtain ⟨enc, v, henc, hv⟩ := hadm.service
  refine meets_run_bind.mpr (effectiveReserve_delivers henc hm ?_ fun k hm => ?_)
  · intro h e
    rcases h with h | h
    · exact delivered_lost h (by omega) rfl
    · exact delivered_lost h (by omega) rfl
  · simp only [hv, hatt]
    refine meets_core_ok.mpr (meets_run_bind.mpr (meets_call_faulty rfl hm
      (by omega) (fun e _ => exec_update_of_row (w.lookup_rowAt d _)) ?_
      fun k hm => ?_))
    · intro h
      exact delivered_lost h (by omega) rfl
    · rw [World.rowAt_rowAt]
      obtain ⟨u, hu⟩ := hadm.ledger
      obtain ⟨ledger, hledger⟩ :=
        issue_confirmed hu hcons hfree d.beneficiaryWallet
      refine meets_run_bind.mpr (meets_call_faulty rfl hm (by omega)
        (fun e _ => exec_issue hledger) ?_ fun k hm => ?_)
      · intro h
        exact delivered_lost h (by omega) rfl
      · simp only [hiss]
        refine meets_core_ok.mpr (meets_run_bind.mpr (meets_call_faulty rfl hm
          (by omega) (fun e _ => exec_update_of_row (World.lookup_rowAt
            { w with ledger := ledger } d .attested)) ?_ fun k hm => ?_))
        · intro h
          exact delivered_lost h (by omega) ⟨ledger, hledger, rfl⟩
        · rw [cut_self] at hm
          subst hm
          refine ⟨⟨ledger, hledger, ?_⟩, fun _ => rfl⟩
          exact World.rowAt_rowAt { w with ledger := ledger } d .attested .issued

theorem screenAndIssue_delivers (hd : d.state = .observed)
    (hnew : w.deposits.lookup d.nullifier = none)
    (hadm : Admitted w d.amount d.observedAt)
    (hcons : w.ledger.Conserved) (hfree : d.nullifier ∉ w.ledger.nullifiers)
    (hpass : ∀ x e, φ x e → e.screen = .ok .pass) {k : Option ℕ}
    (hm : cut 8 1 k = m) :
    (IssuanceService.screenAndIssue d d.amount d.beneficiary d.beneficiaryWallet
      d.nullifier d.observedAt).run.Meets
      ((Handler.faulty World.exec (lost text)).arenaWhere φ) (Delivered w d m)
      (w.rowAt d .observed, k) := by
  have hscreen : d.screen .pass = .ok { d with state := .screened } :=
    Deposit.screen_ok.mpr ⟨hd, rfl⟩
  have hask : ∀ e, φ (w.rowAt d .observed, k) e →
      World.exec e (.compliance (.screen d.beneficiary d.amount))
        (w.rowAt d .observed) = (.ok .pass, w.rowAt d .observed) := by
    intro e he
    rw [← hpass _ e he]
    rfl
  refine meets_run_bind.mpr (meets_call_faulty rfl hm (by omega) hask ?_
    fun k hm => ?_)
  · intro h
    exact delivered_lost h (by omega) rfl
  · simp only [hscreen]
    refine meets_core_ok.mpr (meets_run_bind.mpr (meets_call_faulty rfl hm
      (by omega) (fun e _ => exec_update_of_row (w.lookup_rowAt d _)) ?_
      fun k hm => ?_))
    · intro h
      exact delivered_lost h (by omega) rfl
    · rw [World.rowAt_rowAt]
      exact attestAndIssue_delivers (hadm.rowAt rfl hnew) hcons hfree hm

/-- The walk: a new and valid deposit whose amount both gates let through is
taken as far as the fault allows. -/
theorem handleDeposit_delivers {bankRef : BankRef} {amount : Thb}
    {beneficiary beneficiaryWallet : String}
    (hnew : w.deposits.lookup bankRef.hash = none) (hpos : 0 < amount.toNat)
    (hwallet : trim beneficiaryWallet ≠ "") (hcons : w.ledger.Conserved)
    (hfree : bankRef.hash ∉ w.ledger.nullifiers) {k : Option ℕ}
    (hadm : ∀ e, φ (w, k) e → Admitted w amount e.clock)
    (hpass : ∀ x e, φ x e → e.screen = .ok .pass) (hm : cut 8 0 k = m) :
    (IssuanceService.handleDeposit bankRef amount beneficiary
      beneficiaryWallet).run.Meets
      ((Handler.faulty World.exec (lost text)).arenaWhere φ)
      (fun r x => ∃ now, Delivered w
        ⟨bankRef, amount, beneficiary, beneficiaryWallet, .observed, now⟩ m r x)
      (w, k) := by
  refine meets_run_bind.mpr (meets_clock.mpr ⟨trivial, fun now x hmove => ?_⟩)
  obtain ⟨e, he, heq⟩ := hmove
  rw [faulty_of_sound rfl] at heq
  obtain ⟨rfl, rfl⟩ := Prod.mk.inj heq
  have hobs : Deposit.observe bankRef amount beneficiary beneficiaryWallet e.clock =
      .ok ⟨bankRef, amount, beneficiary, beneficiaryWallet, .observed, e.clock⟩ :=
    Deposit.observe_ok.mpr ⟨hpos, hwallet, rfl⟩
  change (core (Deposit.observe bankRef amount beneficiary beneficiaryWallet
    e.clock) >>= _).run.Meets _ _ (w, k)
  rw [hobs]
  refine meets_core_ok.mpr (meets_run_bind.mpr (meets_attempt.mpr
    (meets_call_faulty rfl hm (by omega) (fun e _ => exec_insert_of_new hnew) ?_
      fun k hm => ?_)))
  · intro h
    exact ⟨e.clock, delivered_lost h (by omega) rfl⟩
  · refine meets_mono (screenAndIssue_delivers
      (d := ⟨bankRef, amount, beneficiary, beneficiaryWallet, .observed, e.clock⟩)
      rfl hnew (hadm e he) hcons hfree hpass hm) ?_
    intro r x h
    exact ⟨e.clock, h⟩

end Delivery

section Calls

variable {w : World} {bankRef : BankRef} {amount : Thb}
  {beneficiary beneficiaryWallet : String}

/-- A deposit the service takes for new and valid, and the ledger does not
know. -/
structure Deliverable (w : World) (bankRef : BankRef) (amount : Thb)
    (beneficiaryWallet : String) : Prop where
  new : w.deposits.lookup bankRef.hash = none
  free : bankRef.hash ∉ w.ledger.nullifiers
  positive : 0 < amount.toNat
  wallet : trim beneficiaryWallet ≠ ""

/-- The call, with a fault or without. -/
theorem prog_delivers (h : Deliverable w bankRef amount beneficiaryWallet)
    (hcons : w.ledger.Conserved) {φ : World → Env → Prop}
    (hadm : ∀ e, φ w e → Admitted w amount e.clock)
    (hpass : ∀ w e, φ w e → e.screen = .ok .pass) (deltaSecs : Int64)
    (text : String) {k : Option ℕ} {m : ℕ} (hm : cut 8 0 k = m) :
    (Call.prog deltaSecs (.handleDeposit bankRef amount beneficiary
      beneficiaryWallet)).Meets
      ((Handler.faulty World.exec (lost text)).arenaWhere fun x => φ x.1)
      (fun r x => ∃ now, Reached w
          ⟨bankRef, amount, beneficiary, beneficiaryWallet, .observed, now⟩ m x.1 ∧
        (m = 8 → r = .ok (.issuance (.issued amount))))
      (w, k) := by
  refine meets_run_bind.mpr (meets_mono (handleDeposit_delivers h.new h.positive
    h.wallet hcons h.free hadm (fun x e => hpass x.1 e) hm) ?_)
  intro r x ⟨now, hreached, hr⟩
  cases r with
  | error e =>
      refine ⟨now, hreached, fun h8 => ?_⟩
      cases hr h8
  | ok o =>
      refine ⟨now, hreached, fun h8 => ?_⟩
      cases hr h8
      rfl

/-- A call without a fault. -/
theorem runCall_delivers (h : Deliverable w bankRef amount beneficiaryWallet)
    (hcons : w.ledger.Conserved) {φ : World → Env → Prop}
    (hadm : ∀ e, φ w e → Admitted w amount e.clock)
    (hpass : ∀ w e, φ w e → e.screen = .ok .pass) (deltaSecs : Int64)
    {es : ℕ → Env}
    (hes : (Call.prog deltaSecs (.handleDeposit bankRef amount beneficiary
      beneficiaryWallet)).Along World.exec φ es w) :
    (w.runCall deltaSecs (.handleDeposit bankRef amount beneficiary
        beneficiaryWallet, es)).1 = .ok (.issuance (.issued amount)) ∧
      ∃ now, Reached w
        ⟨bankRef, amount, beneficiary, beneficiaryWallet, .observed, now⟩ 8
        (w.runCall deltaSecs (.handleDeposit bankRef amount beneficiary
          beneficiaryWallet, es)).2 := by
  obtain ⟨now, hreached, hr⟩ := meets_run_sound
    (prog_delivers (k := none) h hcons hadm hpass deltaSecs "" rfl) hes
  exact ⟨hr rfl, now, hreached⟩

/-- A reference that is there already is not handled again. -/
theorem runCall_replays {row : Deposit}
    (hrow : w.deposits.lookup bankRef.hash = some row) (deltaSecs : Int64)
    (es : ℕ → Env) :
    (w.runCall deltaSecs (.handleDeposit bankRef amount beneficiary
      beneficiaryWallet, es)).2 = w := by
  have hmeets : (Call.prog deltaSecs (.handleDeposit bankRef amount beneficiary
      beneficiaryWallet)).Meets (Handler.arena World.exec) (fun _ w' => w' = w) w := by
    refine meets_run_bind.mpr (meets_run_bind.mpr
      (meets_clock.mpr ⟨trivial, fun now w₁ hm => ?_⟩))
    obtain ⟨e, heq⟩ := hm
    obtain ⟨-, rfl⟩ := Prod.mk.inj heq
    dsimp only
    cases hobs : Deposit.observe bankRef amount beneficiary beneficiaryWallet now with
    | error err => exact rfl
    | ok d =>
        obtain ⟨-, -, rfl⟩ := Deposit.observe_ok.mp hobs
        refine meets_core_ok.mpr (meets_run_bind.mpr
          (meets_attempt.mpr ⟨trivial, fun b w₁ hm => ?_⟩))
        obtain ⟨e', heq⟩ := hm
        obtain ⟨text, hx⟩ := exec_insert_of_row (e := e') (w := w)
          (d := ⟨bankRef, amount, beneficiary, beneficiaryWallet, .observed, now⟩) hrow
        rw [hx] at heq
        obtain ⟨rfl, rfl⟩ := Prod.mk.inj heq
        refine meets_run_bind.mpr ⟨trivial, fun b w₁ hm => ?_⟩
        obtain ⟨e'', heq⟩ := hm
        obtain ⟨rfl, rfl⟩ := Prod.mk.inj heq
        exact rfl
  exact meets_run hmeets es

end Calls

end Thbc
