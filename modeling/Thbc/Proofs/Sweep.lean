import Thbc.Lib.Greedy
import Thbc.Proofs.Encumbrance
import Thbc.Proofs.Redelivery

/-!
# What the sweep issues

Between calls every `Screened` row is one the ledger has not minted, for an
amount that is not zero, and the ledger counts no more as encumbered than the
rows do. Then a retry has one question left, whether the amount fits in the
headroom of a fresh reserve, and the ledger never refuses what fits
(`retryHeld_screened`). The sweep is thereby `fill` over the rows, in whatever
order `held` lists them (`retryEach_fills`): what it leaves held would not fit
next to what it has issued.
-/

namespace Thbc

open Thbc.Lib Thbc.Service

section Sweep

variable [Sha256]

/-! ## Between calls -/

/-- A webhook is only filed with an amount. -/
def observes (call : Call) : Grammar Port Port.Reply Unit where
  start := ()
  advance _ _ := ()
  asks _ s := ∀ d, s = .deposits (.insert d) →
    call = .handleDeposit d.bankRef d.amount d.beneficiary d.beneficiaryWallet →
    0 < d.amount.toNat
  ends _ := True
  hears _ _ := True

theorem handleDeposit_observes (bankRef : BankRef) (amount : Thb)
    (beneficiary beneficiaryWallet : String) :
    (IssuanceService.handleDeposit bankRef amount beneficiary
      beneficiaryWallet).run.Uses fun s =>
        ∀ d, s = .deposits (.insert d) → 0 < d.amount.toNat := by
  have hno : ∀ {s : Port}, (∀ d, s ≠ .deposits (.insert d)) →
      ∀ d, s = .deposits (.insert d) → 0 < d.amount.toNat :=
    fun h d hd => absurd hd (h d)
  refine uses_run_bind (uses_clock (hno (by intro d h; cases h))) fun now => ?_
  cases hobs : Deposit.observe bankRef amount beneficiary beneficiaryWallet now with
  | error e => trivial
  | ok d =>
      obtain ⟨hpos, -, rfl⟩ := Deposit.observe_ok.mp hobs
      refine uses_core_ok.mpr (uses_run_bind (uses_attempt (uses_call ?_)) fun r => ?_)
      · intro d h
        cases h
        exact hpos
      · cases r with
        | error e =>
            cases e with
            | conflict text =>
                exact uses_run_bind (uses_call (hno (by intro d h; cases h)))
                  fun _ => trivial
            | transient text => trivial
            | rejected text => trivial
            | unsupported why => trivial
            | notFound => trivial
            | domain e => trivial
        | ok u =>
            refine uses_run_bind (uses_call (hno (by intro d h; cases h))) fun o => ?_
            refine uses_run_bind (uses_core _) fun d' => ?_
            cases o with
            | fail =>
                exact uses_run_bind (uses_call (hno (by intro d h; cases h)))
                  fun _ => trivial
            | pass =>
                refine uses_run_bind (uses_call (hno (by intro d h; cases h)))
                  fun _ => (attestAndIssue_uses _ _ _ _ _).mono fun s hs => hno ?_
                intro d heq
                subst heq
                exact hs

theorem call_observes (deltaSecs : Int64) (call : Call) :
    (call.prog deltaSecs).Obeys (observes call) () := by
  cases call with
  | handleDeposit bankRef amount beneficiary wallet =>
      have huses : (Call.prog deltaSecs (.handleDeposit bankRef amount beneficiary
          wallet)).Uses _ :=
        uses_run_bind (handleDeposit_observes bankRef amount beneficiary wallet)
          fun _ => trivial
      exact huses.obeys (fun s hs => ⟨fun d hd _ => hs d hd, fun _ => rfl⟩) trivial
  | _ =>
      refine (uses_any _).obeys (fun s _ => ⟨fun d _ h => ?_, fun _ => rfl⟩) trivial
      cases h

namespace OnRamp

theorem Alone.sound {q : Phase} {w : World} (h : Alone q w) :
    Sound w.deposits fun i => if i = 0 then q else .idle := by
  obtain ⟨hkeyed, hcopied⟩ := h
  have hself : ∀ {i : ℕ} {q' : Phase}, q' ≠ .idle →
      (if i = 0 then q else .idle) = q' → i = 0 ∧ q = q' := by
    intro i q' hne hq
    by_cases hi : i = 0
    · rw [if_pos hi] at hq
      exact ⟨hi, hq⟩
    · rw [if_neg hi] at hq
      exact absurd hq.symm hne
  refine ⟨hkeyed, ?_, ?_, ?_⟩
  · intro i d v hq
    obtain ⟨-, rfl⟩ := hself (fun h => by cases h) hq
    exact hcopied.symm
  · intro i j d d' v v' hq hq' _
    exact (hself (fun h => by cases h) hq).1.trans
      (hself (fun h => by cases h) hq').1.symm
  · intro i d g hq
    obtain ⟨-, rfl⟩ := hself (fun h => by cases h) hq
    refine ⟨g.persisted, ?_, hcopied⟩
    cases g with
    | _ => rfl

/-- Amounts are never rewritten. -/
theorem Alone.positive_amount {call : Call} {w w' : World} {q q' : Phase}
    {a : Act Port Port.Reply} (h : Alone q w) (hs : Step call w w' q a q')
    (hobs : ∀ d, a.1 = .deposits (.insert d) →
      call = .handleDeposit d.bankRef d.amount d.beneficiary d.beneficiaryWallet →
      0 < d.amount.toNat)
    (hpos : ∀ n d, w.deposits.lookup n = some d → 0 < d.amount.toNat)
    {n : BankRefHash} {d : Deposit} (hrow : w'.deposits.lookup n = some d) :
    0 < d.amount.toNat := by
  rcases row_of_step (t := 0) h.sound rfl hs hrow with
    ⟨row, hold, st, rfl⟩ | ⟨-, -, rfl⟩
  · exact hpos n row hold
  · cases hs with
    | inserted _ hcall _ _ _ => exact hobs d rfl hcall
    | other hquiet _ _ _ => cases hquiet

/-- What is minted is past `Screened`. -/
theorem Alone.minted_past {call : Call} {w w' : World} {q q' : Phase}
    {a : Act Port Port.Reply} (h : Alone q w) (hs : Step call w w' q a q')
    (hmint : ∀ n ∈ w.ledger.nullifiers, ∃ d, w.deposits.lookup n = some d ∧
      (d.state = .attested ∨ d.state = .issued)) :
    ∀ n ∈ w'.ledger.nullifiers, ∃ d, w'.deposits.lookup n = some d ∧
      (d.state = .attested ∨ d.state = .issued) := by
  intro n hn
  rcases taken_of_step hs hn with hold | ⟨d, rfl, rfl⟩
  · obtain ⟨row, hrow, hst⟩ := hmint n hold
    rcases write_of_step (t := 0) h.sound rfl hs hrow with
      hsame | ⟨hobs, -⟩ | ⟨-, d, -, ⟨-, hnew, -⟩ | ⟨-, hnew, -⟩⟩
    · exact ⟨row, hsame, hst⟩
    · rw [hobs] at hst
      rcases hst with hst | hst
      · cases hst
      · cases hst
    · exact ⟨_, hnew, .inl rfl⟩
    · exact ⟨_, hnew, .inr rfl⟩
  · have hrow : w.deposits.lookup d.nullifier =
        some { d with state := .attested } := h.copied
    cases hs with
    | minted hdep _ => exact ⟨_, by rw [hdep]; exact hrow, .inl rfl⟩
    | refused hdep _ _ => exact ⟨_, by rw [hdep]; exact hrow, .inl rfl⟩
    | other _ _ hdep _ => exact ⟨_, by rw [hdep]; exact hrow, .inl rfl⟩

end OnRamp

/-- What holds at every port call of a call that nothing overlaps. `figure` is
the encumbrance the call has read last. -/
structure Steady (q : OnRamp.Phase) (figure : Option Thb) (w : World) : Prop where
  alone : OnRamp.Alone q w
  conserved : w.ledger.Conserved
  read : ∀ e, figure = some e → e.toNat ≤ OnRamp.encumbrance w.deposits
  published : w.ledger.reserve.encumbered.toNat ≤ OnRamp.encumbrance w.deposits
  positive : ∀ n d, w.deposits.lookup n = some d → 0 < d.amount.toNat
  minted : ∀ n ∈ w.ledger.nullifiers, ∃ d, w.deposits.lookup n = some d ∧
    (d.state = .attested ∨ d.state = .issued)

theorem Steady.step {call : Call}
    (hcall : ∀ amount, call ≠ .control (.setEncumbered amount))
    {q : OnRamp.Phase × Unit × Option Thb} {w : World} {s : Port} {e : Env}
    (h : Steady q.1 q.2.2 w)
    (hs : ((OnRamp.grammar call).prod
      ((observes call).prod (Attesting.grammar call))).asks q s) :
    Steady ((OnRamp.grammar call).advance q.1 ⟨s, (World.exec e s w).1⟩)
      ((Attesting.grammar call).advance q.2.2 ⟨s, (World.exec e s w).1⟩)
      (World.exec e s w).2 := by
  obtain ⟨hramp, hobs, hatt⟩ := hs
  have hstep := OnRamp.step_exec (e := e) (w := w) hramp
  have hgrows := OnRamp.encumbered_le_of_step (t := 0) h.alone.sound rfl hstep
  refine ⟨h.alone.step hstep, conserved_exec h.conserved e s, ?_, ?_,
    fun n d hrow => h.alone.positive_amount hstep hobs h.positive hrow,
    h.alone.minted_past hstep h.minted⟩
  · intro figure hf
    refine Nat.le_trans ?_ hgrows
    rcases Attesting.figure_exec hf with hold | hnew
    · exact h.read figure hold
    · exact (InMemoryDepositRepo.total_ok.mp hnew).le
  · refine Nat.le_trans ?_ hgrows
    have hno : ∀ amount, s ≠ .simulator (.setEncumbered amount) := by
      intro amount heq
      subst heq
      exact hcall amount hatt
    rcases Attesting.encumbered_exec (e := e) (w := w) hno with
      hsame | ⟨reserve, figure, rfl, hnew⟩
    · rw [hsame]
      exact h.published
    · rw [hnew]
      exact h.read figure hatt.2

theorem Steady.runCall {w : World} (h : Steady .idle none w) (deltaSecs : Int64)
    {call : Call × (ℕ → Env)}
    (hcall : ∀ amount, call.1 ≠ .control (.setEncumbered amount)) :
    Steady .idle none (w.runCall deltaSecs call).2 := by
  obtain ⟨q, ⟨hq, -⟩, hw⟩ := Prog.Obeys.run
    (J := fun (q : OnRamp.Phase × Unit × Option Thb) w => Steady q.1 q.2.2 w)
    (G := (OnRamp.grammar call.1).prod
      ((observes call.1).prod (Attesting.grammar call.1)))
    (fun _ _ s _ hJ => ⟨OnRamp.hears_exec hJ.alone.keyed s, trivial, trivial⟩)
    (fun _ _ _ _ hJ hs => hJ.step hcall hs)
    ((OnRamp.call_obeys deltaSecs call.1).prod
      ((call_observes deltaSecs call.1).prod (Attesting.call_obeys deltaSecs call.1)))
    h call.2
  have hidle : q.1 = .idle := hq
  rw [hidle] at hw
  exact { hw with read := by intro e he; cases he }

/-- After any calls, none of which writes the ledger's encumbrance past
`attest`. -/
theorem steady_runCalls (deltaSecs : Int64) (reserve : Thb) (ttlSecs start : Int64)
    {calls : List (Call × (ℕ → Env))}
    (hcalls : ∀ call ∈ calls, ∀ amount, call.1 ≠ .control (.setEncumbered amount)) :
    Steady .idle none
      ((World.fresh (SimulatedLedger.new reserve ttlSecs start)).runCalls
        deltaSecs calls) := by
  refine World.runCalls_induct
    (fun w call hmem h => h.runCall deltaSecs (hcalls call hmem)) ?_
  refine ⟨⟨?_, trivial⟩, rfl, ?_, Nat.zero_le _, ?_, ?_⟩
  · intro n d h; cases h
  · intro e h; cases h
  · intro n d h; cases h
  · intro n h; cases h

/-! ## One retry -/

/-- The room an issuance at `now` may fill. -/
def World.room (w : World) (encumbered : Thb) (now : Int64) : ℕ :=
  if w.ledger.reserve.attestation.isFresh now then
    (w.current encumbered).headroom.toNat
  else 0

def World.release (w : World) (d : Deposit) : World :=
  World.rowAt { w with ledger :=
    (w.ledger.issue d.beneficiaryWallet d.amount d.nullifier).2 } d .issued

/-- What a retry at `now` relies on. -/
structure Ready (encumbered : Thb) (now : Int64) (w : World) : Prop where
  conserved : w.ledger.Conserved
  clock : w.ledger.now = now
  figure : w.deposits.totalEncumbered = .ok encumbered
  published : w.ledger.reserve.encumbered.toNat ≤ encumbered.toNat

/-- `d` is a row that is held and that a retry could issue. -/
structure Waiting (w : World) (d : Deposit) : Prop where
  row : w.deposits.lookup d.nullifier = some d
  screened : d.state = .screened
  positive : 0 < d.amount.toNat
  free : d.nullifier ∉ w.ledger.nullifiers

section Retry

variable {w : World} {encumbered : Thb} {now : Int64} {d : Deposit}

omit [Sha256] in
theorem World.fits_iff (hpos : 0 < d.amount.toNat) :
    (∃ v, (w.current encumbered).checkIssuance d.amount now = .ok v) ↔
      d.amount.toNat ≤ w.room encumbered now := by
  rw [ReserveState.checkIssuance_accepts]
  have hatt : (w.current encumbered).attestation = w.ledger.reserve.attestation := rfl
  unfold World.room
  split
  · next hfresh => exact ⟨fun h => h.2.2, fun h => ⟨hatt ▸ hfresh, hpos, h⟩⟩
  · next hfresh =>
      refine ⟨fun h => absurd (hatt ▸ h.1) hfresh, fun h => ?_⟩
      omega

omit [Sha256] in
theorem Ready.admitted (h : Ready encumbered now w) (hpos : 0 < d.amount.toNat)
    (hfit : d.amount.toNat ≤ w.room encumbered now) : Admitted w d.amount now := by
  obtain ⟨v, hv⟩ := World.fits_iff hpos |>.mpr hfit
  refine ⟨⟨encumbered, v, h.figure, hv⟩, v, ?_⟩
  rw [h.clock]
  exact ReserveState.checkIssuance_mono (r := w.current encumbered) rfl rfl
    h.published hv

theorem Ready.release_eq (h : Ready encumbered now w) (hd : Waiting w d)
    (hfit : d.amount.toNat ≤ w.room encumbered now) :
    ∃ v balance : Thb, (w.current encumbered).checkIssuance d.amount now = .ok v ∧
      w.release d = { w with
        deposits := AList.insert d.nullifier { d with state := .issued } w.deposits
        ledger := { w.ledger with
          nullifiers := insert d.nullifier w.ledger.nullifiers
          reserve := { w.ledger.reserve with supply := v }
          balances := w.ledger.balances.insert d.beneficiaryWallet balance } } := by
  obtain ⟨⟨_, v, he, hv⟩, u, hu⟩ := h.admitted hd.positive hfit
  obtain rfl := Except.ok.inj (h.figure.symm.trans he)
  rcases SimulatedLedger.State.issue_conserved h.conserved d.beneficiaryWallet
    d.amount d.nullifier with
    ⟨e, -, hin | ⟨e', he'⟩⟩ | ⟨-, v', balance, hv', -, heq⟩
  · exact absurd hin hd.free
  · rw [hu] at he'
    cases he'
  · refine ⟨v, balance, hv, ?_⟩
    have hsum := (ReserveState.checkIssuance_ok.mp hv).2.2.1
    have hsum' := (ReserveState.checkIssuance_ok.mp hv').2.2.1
    have hvv : v' = v := Thb.toNat_inj.mp (hsum'.trans hsum.symm)
    rw [World.release, heq, hvv]
    rfl

theorem retryHeld_fits (h : Ready encumbered now w) (hd : Waiting w d)
    (hfit : d.amount.toNat ≤ w.room encumbered now) :
    (IssuanceService.retryHeld d.bankRef).run.Meets
      (Handler.arenaWhere World.exec fun _ e => e.clock = now)
      (fun r w' => issuedBy r = 1 ∧ w' = w.release d) w := by
  refine meets_mono (retryHeld_issues hd.row rfl hd.screened h.conserved hd.free
    fun e he => he ▸ h.admitted hd.positive hfit) ?_
  intro r w' ⟨hr, ledger, hissue, hw⟩
  refine ⟨by rw [hr]; rfl, ?_⟩
  rw [hw, World.release, show w.ledger.issue d.beneficiaryWallet d.amount
    d.nullifier = _ from hissue]

theorem retryHeld_short (h : Ready encumbered now w) (hd : Waiting w d)
    (hshort : w.room encumbered now < d.amount.toNat) :
    (IssuanceService.retryHeld d.bankRef).run.Meets
      (Handler.arenaWhere World.exec fun _ e => e.clock = now)
      (fun r w' => issuedBy r = 0 ∧ w' = w) w := by
  refine meets_run_bind.mpr (meets_call_det (fun e _ => exec_find hd.row e)
    (meets_some.mpr ?_))
  rw [if_neg (not_not.mpr hd.screened)]
  refine meets_run_bind.mpr (meets_clock_exec.mpr fun e he => ?_)
  dsimp only
  rw [he]
  refine meets_run_bind.mpr (effectiveReserve_where ?_ ?_)
  · intro err herr
    exact ⟨rfl, rfl⟩
  · intro enc henc
    obtain rfl := Except.ok.inj (h.figure.symm.trans henc)
    dsimp only
    cases hg : (w.current encumbered).checkIssuance d.amount now with
    | error err => exact ⟨rfl, rfl⟩
    | ok v =>
        have hfit := (World.fits_iff hd.positive).mp ⟨v, hg⟩
        omega

/-! ## One release -/

/-- A release takes its amount off the room and changes nothing the next retry
relies on. -/
theorem Ready.release (h : Ready encumbered now w) (hd : Waiting w d)
    (hfit : d.amount.toNat ≤ w.room encumbered now) :
    Ready encumbered now (w.release d) ∧
      (w.release d).room encumbered now = w.room encumbered now - d.amount.toNat ∧
      (w.release d).ledger.reserve.supply.toNat =
        w.ledger.reserve.supply.toNat + d.amount.toNat ∧
      (w.release d).ledger.reserve.attestation = w.ledger.reserve.attestation := by
  obtain ⟨v, balance, hv, heq⟩ := h.release_eq hd hfit
  have hsum := (ReserveState.checkIssuance_ok.mp hv).2.2.1
  refine ⟨⟨?_, ?_, ?_, ?_⟩, ?_, ?_, by rw [heq]⟩
  · exact SimulatedLedger.State.conserved_issue h.conserved d.beneficiaryWallet
      d.amount d.nullifier
  · rw [heq]
    exact h.clock
  · have hrow : ∀ row, w.deposits.lookup d.nullifier = some row →
        row.isEncumbering = false := by
      intro row hrow
      obtain rfl := Option.some.inj (hd.row.symm.trans hrow)
      rw [Deposit.isEncumbering, hd.screened]
    have hamount := InMemoryDepositRepo.amountOf_insert
      (d := { d with state := .issued }) hrow
    rw [heq]
    exact InMemoryDepositRepo.total_ok.mpr
      ((InMemoryDepositRepo.total_ok.mp h.figure).trans hamount.symm)
  · rw [heq]
    exact h.published
  · have hhead := (ReserveState.headroom_of_checkIssuance hv).2
    rw [heq]
    show (if w.ledger.reserve.attestation.isFresh now then _ else 0) =
      (if w.ledger.reserve.attestation.isFresh now then _ else 0) - d.amount.toNat
    split
    · exact Nat.eq_sub_of_add_eq hhead
    · rw [Nat.zero_sub]
  · rw [heq]
    exact hsum

theorem Waiting.release (h : Ready encumbered now w) (hd : Waiting w d)
    (hfit : d.amount.toNat ≤ w.room encumbered now) {d' : Deposit}
    (hd' : Waiting w d') (hne : d'.nullifier ≠ d.nullifier) :
    Waiting (w.release d) d' := by
  obtain ⟨v, balance, -, heq⟩ := h.release_eq hd hfit
  refine ⟨?_, hd'.screened, hd'.positive, ?_⟩
  · rw [heq]
    exact (AList.lookup_insert_ne hne).trans hd'.row
  · rw [heq]
    intro hin
    exact hd'.free (Finset.mem_of_mem_insert_of_ne hin hne)

end Retry

/-! ## The loop -/

section Loop

variable {w : World} {encumbered : Thb} {now : Int64}

abbrev Deposit.size (d : Deposit) : ℕ := d.amount.toNat

/-- The sweep fills the room with the rows it is given, in their order. -/
theorem retryEach_fills {ds : List Deposit} (h : Ready encumbered now w)
    (hwait : ∀ d ∈ ds, Waiting w d) (hnodup : (ds.map Deposit.nullifier).Nodup)
    (issued : ℕ) :
    (IssuanceService.retryEach ds issued).run.Meets
      (Handler.arenaWhere World.exec fun _ e => e.clock = now)
      (fun r w' =>
        r = .ok (issued + (fill Deposit.size (w.room encumbered now) ds).length) ∧
        w' = (fill Deposit.size (w.room encumbered now) ds).foldl World.release w)
      w := by
  induction ds generalizing w issued with
  | nil => exact ⟨rfl, rfl⟩
  | cons d ds ih =>
      have hd := hwait d List.mem_cons_self
      have hds : ∀ d' ∈ ds, Waiting w d' :=
        fun d' hmem => hwait d' (List.mem_cons_of_mem d hmem)
      obtain ⟨hnot, hnodup⟩ := List.nodup_cons.mp hnodup
      refine retryEach_cons ?_
      rcases Nat.lt_or_ge (w.room encumbered now) d.size with hshort | hfit
      · refine meets_mono (retryHeld_short h hd hshort) ?_
        intro r w' ⟨hr, hw⟩
        subst hw
        rw [hr, fill_cons_of_lt hshort]
        exact ih h hds hnodup issued
      · refine meets_mono (retryHeld_fits h hd hfit) ?_
        intro r w' ⟨hr, hw⟩
        obtain ⟨hready, hroom, -, -⟩ := h.release hd hfit
        have hrest : ∀ d' ∈ ds, Waiting (w.release d) d' := by
          intro d' hmem
          refine Waiting.release h hd hfit (hds d' hmem) ?_
          intro heq
          exact hnot (heq ▸ List.mem_map_of_mem hmem)
        rw [hw, hr, fill_cons_of_le hfit]
        refine meets_mono (ih hready hrest hnodup (issued + 1)) ?_
        intro r w' ⟨hr, hw⟩
        rw [hroom] at hr hw
        refine ⟨?_, hw⟩
        rw [hr, List.length_cons, Nat.add_assoc, Nat.add_comm 1]

/-- What has become of `w` when `taken` is released. -/
structure Released (encumbered : Thb) (now : Int64) (taken : List Deposit)
    (w w' : World) : Prop where
  ready : Ready encumbered now w'
  room : w'.room encumbered now + (taken.map Deposit.size).sum =
    w.room encumbered now
  supply : w'.ledger.reserve.supply.toNat =
    w.ledger.reserve.supply.toNat + (taken.map Deposit.size).sum
  issued : ∀ d ∈ taken, w'.deposits.lookup d.nullifier =
    some { d with state := .issued }
  others : ∀ n, (∀ d ∈ taken, d.nullifier ≠ n) →
    w'.deposits.lookup n = w.deposits.lookup n
  elsewhere : w' = { w with deposits := w'.deposits, ledger := w'.ledger }
  attestation : w'.ledger.reserve.attestation = w.ledger.reserve.attestation

theorem Ready.released {taken : List Deposit} (h : Ready encumbered now w)
    (hwait : ∀ d ∈ taken, Waiting w d)
    (hnodup : (taken.map Deposit.nullifier).Nodup)
    (hfit : (taken.map Deposit.size).sum ≤ w.room encumbered now) :
    Released encumbered now taken w (taken.foldl World.release w) := by
  induction taken generalizing w with
  | nil =>
      refine ⟨h, rfl, rfl, ?_, fun _ _ => rfl, rfl, rfl⟩
      intro d hd
      cases hd
  | cons d ds ih =>
      obtain ⟨hnot, hnodup⟩ := List.nodup_cons.mp hnodup
      rw [List.map_cons, List.sum_cons] at hfit
      have hd := hwait d List.mem_cons_self
      have hle : d.size ≤ w.room encumbered now := by omega
      obtain ⟨hready, hroom, hsupply, hatt⟩ := h.release hd hle
      have hrest : ∀ d' ∈ ds, Waiting (w.release d) d' := by
        intro d' hmem
        refine Waiting.release h hd hle (hwait d' (List.mem_cons_of_mem d hmem)) ?_
        intro heq
        exact hnot (heq ▸ List.mem_map_of_mem hmem)
      have hr := ih hready hrest hnodup (by rw [hroom]; exact Nat.le_sub_of_add_le' hfit)
      have hlookup : ∀ n, d.nullifier ≠ n →
          (w.release d).deposits.lookup n = w.deposits.lookup n :=
        fun n hn => AList.lookup_insert_ne hn.symm
      refine ⟨hr.ready, ?_, ?_, ?_, ?_, hr.elsewhere, hr.attestation.trans hatt⟩
      · have hsum := hr.room
        rw [hroom] at hsum
        rw [List.foldl_cons, List.map_cons, List.sum_cons, Nat.add_left_comm, hsum]
        exact Nat.add_sub_of_le hle
      · have hsum := hr.supply
        rw [hsupply] at hsum
        rw [List.foldl_cons, List.map_cons, List.sum_cons]
        exact hsum.trans (Nat.add_assoc _ _ _)
      · intro d' hmem
        rcases List.mem_cons.mp hmem with rfl | hmem
        · have hn : ∀ d'' ∈ ds, d''.nullifier ≠ d'.nullifier :=
            fun d'' hmem heq => hnot (heq ▸ List.mem_map_of_mem hmem)
          exact (hr.others _ hn).trans (World.lookup_rowAt _ d' .issued)
        · exact hr.issued d' hmem
      · intro n hn
        refine (hr.others n fun d' hmem => hn d' (List.mem_cons_of_mem d hmem)).trans ?_
        exact hlookup n (hn d List.mem_cons_self)

end Loop

/-! ## The sweep -/

def World.screened (w : World) : List Deposit :=
  w.deposits.values.filter fun d => d.state = .screened

def World.isIssued (w : World) (d : Deposit) : Bool :=
  w.deposits.lookup d.nullifier = some { d with state := .issued }

/-- A sweep of `w` that answered `r` and left `w'`. It reports the rows that
were held and how many of them are issued now. The others are as they were, and
they are held because the attestation is not fresh or because they do not fit
in the headroom that is left. No other row has changed, here or in the other
repositories, and the supply is up by what is issued. -/
structure SweepsFully (encumbered : Thb) (now : Int64) (w : World)
    (r : PortResult CallOutcome) (w' : World) : Prop where
  result : r = .ok (.retried w.screened.length
    (w.screened.filter w'.isIssued).length)
  kept : ∀ d ∈ w.screened, w'.isIssued d = false →
    w'.deposits.lookup d.nullifier = some d
  figure : w'.deposits.totalEncumbered = .ok encumbered
  full : w.ledger.reserve.attestation.isFresh now = true →
    ∀ d ∈ w.screened, w'.isIssued d = false →
      (w'.current encumbered).headroom < d.amount
  halted : w.ledger.reserve.attestation.isFresh now = false →
    w.screened.filter w'.isIssued = []
  supply : w'.ledger.reserve.supply.toNat = w.ledger.reserve.supply.toNat +
    ((w.screened.filter w'.isIssued).map fun d => d.amount.toNat).sum
  others : ∀ n, (∀ d ∈ w.screened, d.nullifier ≠ n) →
    w'.deposits.lookup n = w.deposits.lookup n
  elsewhere : w' = { w with deposits := w'.deposits, ledger := w'.ledger }

section Rows

variable {w : World}

theorem OnRamp.Keyed.nodup {rows : InMemoryDepositRepo} (h : Keyed rows) :
    (rows.values.map Deposit.nullifier).Nodup := by
  have hkeys : rows.values.map Deposit.nullifier = rows.keys := by
    rw [AList.values, List.map_map]
    refine List.map_congr_left fun e he => ?_
    exact h e.1 e.2 (AList.mem_lookup_iff.mpr he)
  rw [hkeys]
  exact rows.keys_nodup

theorem Steady.waiting (h : Steady .idle none w) {d : Deposit}
    (hd : d ∈ w.screened) : Waiting w d := by
  obtain ⟨hmem, hst⟩ := List.mem_filter.mp hd
  have hst : d.state = .screened := of_decide_eq_true hst
  obtain ⟨n, hrow⟩ := AList.mem_values.mp hmem
  obtain rfl := h.alone.keyed n d hrow
  refine ⟨hrow, hst, h.positive _ d hrow, fun hin => ?_⟩
  obtain ⟨row, hrow', hst'⟩ := h.minted _ hin
  obtain rfl := Option.some.inj (hrow.symm.trans hrow')
  rw [hst] at hst'
  rcases hst' with hst' | hst'
  · cases hst'
  · cases hst'

theorem Steady.nodup (h : Steady .idle none w) :
    (w.screened.map Deposit.nullifier).Nodup :=
  h.alone.keyed.nodup.sublist (List.filter_sublist.map Deposit.nullifier)

theorem Steady.ready (h : Steady .idle none w) {encumbered : Thb}
    (he : w.deposits.totalEncumbered = .ok encumbered) :
    Ready encumbered w.ledger.now w where
  conserved := h.conserved
  clock := rfl
  figure := he
  published := by
    rw [InMemoryDepositRepo.total_ok.mp he]
    exact h.published

theorem Released.isIssued_iff {encumbered : Thb} {now : Int64}
    {taken : List Deposit} {w' : World} (h : Released encumbered now taken w w')
    (htaken : ∀ d ∈ taken, Waiting w d) {d : Deposit} (hd : Waiting w d) :
    w'.isIssued d = true ↔ d ∈ taken := by
  constructor
  · intro hissued
    by_contra hnot
    have hother : ∀ d' ∈ taken, d'.nullifier ≠ d.nullifier := by
      intro d' hmem heq
      have hrow := (htaken d' hmem).row
      rw [heq, hd.row] at hrow
      exact hnot (Option.some.inj hrow ▸ hmem)
    have hrow := (h.others _ hother).trans hd.row
    have hst := congrArg (Option.map Deposit.state)
      (hrow.symm.trans (of_decide_eq_true hissued))
    rw [Option.map_some, hd.screened] at hst
    cases hst
  · intro hmem
    exact decide_eq_true (h.issued d hmem)

theorem Released.sweepsFully {encumbered : Thb} {ds : List Deposit} {w' : World}
    (h : Steady .idle none w) (hds : ds.Perm w.screened)
    (hrel : Released encumbered w.ledger.now
      (fill Deposit.size (w.room encumbered w.ledger.now) ds) w w') :
    SweepsFully encumbered w.ledger.now w (.ok (.retried ds.length
      (fill Deposit.size (w.room encumbered w.ledger.now) ds).length)) w' := by
  generalize htaken : fill Deposit.size (w.room encumbered w.ledger.now) ds = taken
    at hrel ⊢
  have hsub : taken.Sublist ds := htaken ▸ fill_sublist _ _ _
  have hmem : ∀ d ∈ taken, d ∈ w.screened := fun d hd => hds.subset (hsub.subset hd)
  have hissued : ∀ d ∈ w.screened, (w'.isIssued d = true ↔ d ∈ taken) :=
    fun d hd => hrel.isIssued_iff (fun d' hd' => h.waiting (hmem d' hd')) (h.waiting hd)
  have hnot : ∀ d ∈ w.screened, w'.isIssued d = false → d ∉ taken := by
    intro d hd hfalse hin
    rw [(hissued d hd).mpr hin] at hfalse
    cases hfalse
  have hnodup : w.screened.Nodup := h.nodup.of_map
  have hperm : (w.screened.filter w'.isIssued).Perm taken := by
    refine (List.perm_ext_iff_of_nodup (hnodup.filter _)
      ((hds.nodup_iff.mpr hnodup).sublist hsub)).mpr fun d => ?_
    rw [List.mem_filter]
    exact ⟨fun hd => (hissued d hd.1).mp hd.2,
      fun hd => ⟨hmem d hd, (hissued d (hmem d hd)).mpr hd⟩⟩
  refine ⟨?_, ?_, hrel.ready.figure, ?_, ?_, ?_, ?_, hrel.elsewhere⟩
  · rw [hds.length_eq, hperm.length_eq]
  · intro d hd hfalse
    refine (hrel.others _ fun d' hd' heq => ?_).trans (h.waiting hd).row
    have hrow := (h.waiting (hmem d' hd')).row
    rw [heq, (h.waiting hd).row] at hrow
    exact hnot d hd hfalse (Option.some.inj hrow ▸ hd')
  · intro hfresh d hd hfalse
    have hlt := lt_of_notMem_fill (hds.mem_iff.mpr hd)
      (htaken ▸ hnot d hd hfalse : d ∉ fill Deposit.size
        (w.room encumbered w.ledger.now) ds)
    have hroom := hrel.room
    have hleft : w'.room encumbered w.ledger.now =
        (w'.current encumbered).headroom.toNat := by
      rw [World.room, if_pos (hrel.attestation ▸ hfresh)]
    rw [htaken] at hlt
    rw [Thb.lt_iff]
    show _ < d.size
    omega
  · intro hstale
    have hroom : w.room encumbered w.ledger.now = 0 := by
      rw [World.room, if_neg (by rw [hstale]; exact Bool.false_ne_true)]
    rw [hroom, fill_zero fun d hd => (h.waiting (hds.subset hd)).positive] at htaken
    subst htaken
    exact hperm.eq_nil
  · rw [(hperm.map _).sum_eq]
    exact hrel.supply
  · intro n hn
    exact hrel.others n fun d hd => hn d (hmem d hd)

/-- From any state between calls the sweep does all it can. -/
theorem Steady.sweepsFully (h : Steady .idle none w) {encumbered : Thb}
    (he : w.deposits.totalEncumbered = .ok encumbered) (deltaSecs : Int64)
    {es : ℕ → Env} (hes : ∀ n, (es n).clock = w.ledger.now) :
    SweepsFully encumbered w.ledger.now w
      (w.runCall deltaSecs (.retryAllHeld, es)).1
      (w.runCall deltaSecs (.retryAllHeld, es)).2 := by
  have hready := h.ready he
  have hmeets := retryAllHeld_where (φ := fun _ e => e.clock = w.ledger.now)
    (Q := SweepsFully encumbered w.ledger.now w) (w := w) ?_ deltaSecs
  · exact meets_run_along hmeets (Prog.along_of_forall (fun _ n => hes n) _ _)
  · intro rank ds hheld
    have hds := InMemoryDepositRepo.held_perm hheld
    have hwait : ∀ d ∈ ds, Waiting w d := fun d hd => h.waiting (hds.subset hd)
    have hnodup : (ds.map Deposit.nullifier).Nodup :=
      (hds.map _).nodup_iff.mpr h.nodup
    refine meets_mono (retryEach_fills hready hwait hnodup 0) ?_
    intro r w' ⟨hr, hw⟩
    have hsub := fill_sublist Deposit.size (w.room encumbered w.ledger.now) ds
    have hrel := hready.released (fun d hd => hwait d (hsub.subset hd))
      (hnodup.sublist (hsub.map _)) (sum_fill_le _ _ _)
    rw [← hw] at hrel
    rw [hr, Nat.zero_add]
    exact hrel.sweepsFully h hds

/-- After any calls, one after the other, with the ledger's clock and the
service's showing the same time: the sweep is exact and cannot be added to, in
whatever order the rows are listed. -/
theorem sweep_maximal (deltaSecs : Int64) (reserve : Thb) (ttlSecs start : Int64)
    (calls : List (Call × (ℕ → Env)))
    (hcalls : ∀ call ∈ calls, ∀ amount, call.1 ≠ .control (.setEncumbered amount))
    (now : Int64) (encumbered : Thb) (es : ℕ → Env)
    (hes : ∀ n, (es n).clock = now) :
    let w := (World.fresh (SimulatedLedger.new reserve ttlSecs start)).runCalls
      deltaSecs calls
    w.ledger.now = now → w.deposits.totalEncumbered = .ok encumbered →
    SweepsFully encumbered now w (w.runCall deltaSecs (.retryAllHeld, es)).1
      (w.runCall deltaSecs (.retryAllHeld, es)).2 := by
  intro w hnow he
  have hsteady : Steady .idle none w :=
    steady_runCalls deltaSecs reserve ttlSecs start hcalls
  subst hnow
  exact hsteady.sweepsFully he deltaSecs hes

end Rows

end Sweep

open Sample

/-- Two deposits of 100 come in when the attestation has expired, and then 100
are attested. -/
theorem sweep_maximal_one :
    let w := treasury.runCalls 86400
      ([deposit scb1, deposit scb2, .control (.setNow 5000), .attest ⟨100⟩].map
        fun call => (call, fun _ => env 5000 .pass))
    let r := w.runCall 86400 (.retryAllHeld, fun _ => env 5000 .pass)
    r.1 = .ok (.retried 2 1) ∧ SweepsFully .zero 5000 w r.1 r.2 :=
  ⟨by decide, sweep_maximal 86400 ⟨100⟩ 3600 0 _
    (by
      intro call hcall amount h
      simp only [List.map_cons, List.map_nil, List.mem_cons, List.not_mem_nil,
        or_false] at hcall
      rcases hcall with rfl | rfl | rfl | rfl
      all_goals cases h)
    5000 .zero (fun _ => env 5000 .pass) (fun _ => rfl) (by decide) (by decide)⟩

end Thbc
