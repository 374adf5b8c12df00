import Thbc.System.Delivery
import Thbc.Proofs.Uniqueness
import Thbc.Proofs.Identity

/-!
# A webhook that is sent again

One call of a delivery fails without an effect, the bank sends the webhook
again, and the sweep for held deposits runs. The redelivery only does something
if there is no row yet, and the sweep lists `Screened` rows only. What the
first delivery leaves behind is `Reached`, so whether the deposit gets through
depends on the call that failed and on nothing else (`issued_once_iff`): a
failed screen leaves the row `Observed` and a failed mint leaves it `Attested`,
and nobody comes back for either.
-/

namespace Thbc

open Thbc.Lib Thbc.Service

section Redelivery

variable [Sha256]

/-! ## The sweep -/

section Sweep

variable {φ : World → Env → Prop} {w : World} {n : BankRefHash}

/-- What a retry of `n` leaves alone. -/
structure Besides (n : BankRefHash) (w w' : World) : Prop where
  keyed : OnRamp.Keyed w'.deposits
  row : ∀ m, m ≠ n → w'.deposits.lookup m = w.deposits.lookup m
  nullifier : ∀ m, m ≠ n →
    (m ∈ w'.ledger.nullifiers ↔ m ∈ w.ledger.nullifiers)

theorem Besides.refl (h : OnRamp.Keyed w.deposits) : Besides n w w :=
  ⟨h, fun _ _ => rfl, fun _ _ => Iff.rfl⟩

theorem Besides.rowAt {w' : World} (h : Besides n w w') {d : Deposit}
    (hd : d.nullifier = n) (s : DepositState) : Besides n w (w'.rowAt d s) where
  keyed := OnRamp.keyed_insert h.keyed rfl
  row := by
    intro m hm
    rw [← h.row m hm]
    exact AList.lookup_insert_ne (hd ▸ hm)
  nullifier := h.nullifier

theorem Besides.issue {w' : World} (h : Besides n w w') {wallet : String}
    {amount : Thb} {r : PortResult ConfirmOutcome} {s : SimulatedLedger.State}
    (hissue : w'.ledger.issue wallet amount n = (r, s)) :
    Besides n w { w' with ledger := s } where
  keyed := h.keyed
  row := h.row
  nullifier := by
    intro m hm
    rw [← h.nullifier m hm]
    rcases w'.ledger.issue_cases wallet amount n with
      ⟨e, heq, -⟩ | ⟨-, v, balance, r', -, heq, -⟩
    · rw [heq] at hissue
      rw [← (Prod.mk.inj hissue).2]
    · rw [heq] at hissue
      rw [← (Prod.mk.inj hissue).2]
      exact Finset.mem_insert.trans (or_iff_right hm)

theorem Besides.update {w' : World} (h : Besides n w w') {d : Deposit}
    (hd : d.nullifier = n) (s : DepositState) (e : Env) :
    Besides n w (World.exec e (.deposits (.update { d with state := s })) w').2 := by
  rcases OnRamp.exec_update (e := e) (w := w') (d := d) (s := s) with ⟨-, hx⟩ | hx
  · rw [hx]; exact h
  · rw [hx]; exact h.rowAt hd s

theorem effectiveReserve_where {Q : PortResult ReserveState → World → Prop}
    (herr : ∀ e, w.deposits.totalEncumbered = .error e → Q (.error e) w)
    (hok : ∀ enc, w.deposits.totalEncumbered = .ok enc → Q (.ok (w.current enc)) w) :
    IssuanceService.effectiveReserve.run.Meets (Handler.arenaWhere World.exec φ)
      Q w := by
  refine meets_run_bind.mpr (meets_call_det (fun _ _ => rfl)
    (meets_run_bind.mpr ?_))
  cases he : w.deposits.totalEncumbered with
  | error err =>
      exact meets_call_det (fun e _ => exec_totalEncumbered he e) (herr err he)
  | ok enc =>
      exact meets_call_det (fun e _ => exec_totalEncumbered he e) (hok enc he)

/-- A retry works on its own row and its own nullifier. -/
theorem retryHeld_besides (hkeyed : OnRamp.Keyed w.deposits) (bankRef : BankRef) :
    (IssuanceService.retryHeld bankRef).run.Meets
      (Handler.arenaWhere World.exec φ)
      (fun _ w' => Besides bankRef.hash w w') w := by
  have hrefl : Besides bankRef.hash w w := .refl hkeyed
  cases hrow : w.deposits.lookup bankRef.hash with
  | none =>
      exact meets_run_bind.mpr
        (meets_call_det (fun e _ => exec_find hrow e) hrefl)
  | some d =>
      have hd : d.nullifier = bankRef.hash := hkeyed _ _ hrow
      refine meets_run_bind.mpr (meets_call_det (fun e _ => exec_find hrow e)
        (meets_some.mpr ?_))
      split
      · exact hrefl
      · next hs =>
          have hatt : d.markAttested = .ok { d with state := .attested } :=
            Deposit.markAttested_ok.mpr ⟨not_not.mp hs, rfl⟩
          have hiss : Deposit.markIssued { d with state := .attested } =
              .ok { d with state := .issued } := Deposit.markIssued_ok.mpr ⟨rfl, rfl⟩
          refine meets_run_bind.mpr (meets_clock.mpr ⟨trivial, fun now w₁ hm => ?_⟩)
          obtain ⟨e', -, heq⟩ := hm
          obtain ⟨-, rfl⟩ := Prod.mk.inj heq
          refine meets_run_bind.mpr (effectiveReserve_where (fun _ _ => hrefl)
            fun enc _ => ?_)
          dsimp only
          cases hg : (w.current enc).checkIssuance d.amount now with
          | error err => exact hrefl
          | ok v =>
              simp only [hatt]
              refine meets_core_ok.mpr (meets_run_bind.mpr
                (meets_call_where.mpr fun e _ => ?_))
              have hw₁ := hrefl.update hd .attested e
              generalize World.exec e (.deposits (.update { d with state := .attested }))
                w = x₁ at hw₁ ⊢
              obtain ⟨r₁ | u, w₁⟩ := x₁
              · exact hw₁
              · refine meets_run_bind.mpr (meets_call_where.mpr fun e _ => ?_)
                have hw₂ : Besides bankRef.hash w (World.exec e (.ledger (.issue
                    d.beneficiaryWallet d.amount bankRef.hash)) w₁).2 :=
                  hw₁.issue rfl
                generalize World.exec e (.ledger (.issue d.beneficiaryWallet
                  d.amount bankRef.hash)) w₁ = x₂ at hw₂ ⊢
                obtain ⟨r₂ | outcome, w₂⟩ := x₂
                · exact hw₂
                · dsimp only
                  split
                  · simp only [hiss]
                    refine meets_core_ok.mpr (meets_run_bind.mpr
                      (meets_call_where.mpr fun e _ => ?_))
                    have hw₃ := hw₂.update hd .issued e
                    generalize World.exec e (.deposits (.update
                      { d with state := .issued })) w₂ = x₃ at hw₃ ⊢
                    obtain ⟨r₃ | u, w₃⟩ := x₃
                    · exact hw₃
                    · exact hw₃
                  · exact hw₂

/-- A retry of a row that is not `Screened` only looks at it. -/
theorem retryHeld_unscreened {bankRef : BankRef} {row : Deposit}
    (hrow : w.deposits.lookup bankRef.hash = some row)
    (hs : row.state ≠ .screened) :
    (IssuanceService.retryHeld bankRef).run.Meets
      (Handler.arenaWhere World.exec φ) (fun _ w' => w' = w) w := by
  refine meets_run_bind.mpr (meets_call_det (fun e _ => exec_find hrow e)
    (meets_some.mpr ?_))
  rw [if_pos hs]
  exact rfl

theorem retryHeld_issues {bankRef : BankRef} {d : Deposit}
    (hrow : w.deposits.lookup bankRef.hash = some d)
    (hd : d.nullifier = bankRef.hash) (hs : d.state = .screened)
    (hcons : w.ledger.Conserved) (hfree : bankRef.hash ∉ w.ledger.nullifiers)
    (hadm : ∀ e, φ w e → Admitted w d.amount e.clock) :
    (IssuanceService.retryHeld bankRef).run.Meets
      (Handler.arenaWhere World.exec φ)
      (fun r w' => r = .ok (.issued d.amount) ∧
        ∃ ledger, w.ledger.issue d.beneficiaryWallet d.amount bankRef.hash =
          (.ok .confirmed, ledger) ∧
          w' = { w with ledger := ledger }.rowAt d .issued) w := by
  have hatt : d.markAttested = .ok { d with state := .attested } :=
    Deposit.markAttested_ok.mpr ⟨hs, rfl⟩
  have hiss : Deposit.markIssued { d with state := .attested } =
      .ok { d with state := .issued } := Deposit.markIssued_ok.mpr ⟨rfl, rfl⟩
  refine meets_run_bind.mpr (meets_call_det (fun e _ => exec_find hrow e)
    (meets_some.mpr ?_))
  rw [if_neg (not_not.mpr hs)]
  refine meets_run_bind.mpr (meets_clock.mpr ⟨trivial, fun now w₁ hm => ?_⟩)
  obtain ⟨e, he, heq⟩ := hm
  obtain ⟨rfl, rfl⟩ := Prod.mk.inj heq
  obtain ⟨⟨enc, v, henc, hv⟩, u, hu⟩ := hadm e he
  obtain ⟨ledger, hledger⟩ := issue_confirmed hu hcons hfree d.beneficiaryWallet
  refine meets_run_bind.mpr (effectiveReserve_where ?_ ?_)
  · intro err herr
    rw [henc] at herr
    cases herr
  · intro enc' henc'
    obtain rfl : enc = enc' := Except.ok.inj (henc.symm.trans henc')
    simp only [hv, hatt]
    refine meets_core_ok.mpr (meets_run_bind.mpr (meets_call_det
      (fun e _ => exec_update_of_row (hd ▸ hrow)) ?_))
    refine meets_run_bind.mpr (meets_call_det (fun e _ => exec_issue hledger) ?_)
    simp only [hiss]
    refine meets_core_ok.mpr (meets_run_bind.mpr (meets_call_det
      (fun e _ => exec_update_of_row (World.lookup_rowAt
        { w with ledger := ledger } d .attested)) ?_))
    exact ⟨rfl, ledger, hledger,
      World.rowAt_rowAt { w with ledger := ledger } d .attested .issued⟩

omit [Sha256] in
/-- What one deposit adds to the count of the sweep. -/
def issuedBy : PortResult IssuanceOutcome → ℕ
  | .ok (.issued _) => 1
  | _ => 0

/-- The loop goes on whatever became of one deposit. -/
theorem retryEach_cons {Q : PortResult ℕ → World → Prop} {d : Deposit}
    {ds : List Deposit} {issued : ℕ}
    (h : (IssuanceService.retryHeld d.bankRef).run.Meets
      (Handler.arenaWhere World.exec φ) (fun r w' =>
        (IssuanceService.retryEach ds (issued + issuedBy r)).run.Meets
          (Handler.arenaWhere World.exec φ) Q w') w) :
    (IssuanceService.retryEach (d :: ds) issued).run.Meets
      (Handler.arenaWhere World.exec φ) Q w := by
  refine meets_run_bind.mpr (meets_attempt.mpr (meets_mono h ?_))
  intro r w' hrest
  cases r with
  | error e => exact hrest
  | ok o =>
      cases o with
      | issued amount => exact hrest
      | alreadyIssued => exact hrest
      | encumbered amount reason => exact hrest
      | held reason => exact hrest

theorem retryEach_keeps {row : Deposit} (hkeyed : OnRamp.Keyed w.deposits)
    (hrow : w.deposits.lookup n = some row) (hs : row.state ≠ .screened)
    (ds : List Deposit) (issued : ℕ) :
    (IssuanceService.retryEach ds issued).run.Meets
      (Handler.arenaWhere World.exec φ)
      (fun _ w' => w'.deposits.lookup n = some row ∧
        (n ∈ w'.ledger.nullifiers ↔ n ∈ w.ledger.nullifiers)) w := by
  induction ds generalizing w issued with
  | nil => exact ⟨hrow, Iff.rfl⟩
  | cons d ds ih =>
      refine retryEach_cons ?_
      by_cases hn : d.bankRef.hash = n
      · refine meets_mono (retryHeld_unscreened (hn ▸ hrow) hs) ?_
        intro r w' hw
        subst hw
        exact ih hkeyed hrow _
      · refine meets_mono (retryHeld_besides hkeyed d.bankRef) ?_
        intro r w' h
        have hne : n ≠ d.bankRef.hash := fun h => hn h.symm
        refine meets_mono (ih h.keyed ((h.row n hne).trans hrow) _) ?_
        intro _ w'' ⟨hr, hnull⟩
        exact ⟨hr, hnull.trans (h.nullifier n hne)⟩

/-- The sweep issues a `Screened` row it has been given, as long as both gates
let it through. -/
theorem retryEach_issues {d : Deposit} (hd : d.nullifier = n)
    (hs : d.state = .screened)
    (hadm : ∀ w e, φ w e → n ∉ w.ledger.nullifiers → Admitted w d.amount e.clock)
    (hkeyed : OnRamp.Keyed w.deposits) (hcons : w.ledger.Conserved)
    (hrow : w.deposits.lookup n = some d) (hfree : n ∉ w.ledger.nullifiers)
    {ds : List Deposit} (hmem : d ∈ ds) (issued : ℕ) :
    (IssuanceService.retryEach ds issued).run.Meets
      (Handler.arenaWhere World.exec φ)
      (fun _ w' => w'.deposits.lookup n = some { d with state := .issued } ∧
        n ∈ w'.ledger.nullifiers) w := by
  induction ds generalizing w issued with
  | nil => cases hmem
  | cons d' ds ih =>
      refine retryEach_cons ?_
      by_cases hn : d'.bankRef.hash = n
      · subst hn
        refine meets_mono (retryHeld_issues hrow hd hs hcons hfree
          fun e he => hadm w e he hfree) ?_
        intro r w' ⟨_, ledger, hissue, hw⟩
        subst hw
        have hkeyed' : OnRamp.Keyed
            (World.rowAt { w with ledger := ledger } d .issued).deposits :=
          OnRamp.keyed_insert hkeyed rfl
        have hlookup : (World.rowAt { w with ledger := ledger } d
            .issued).deposits.lookup d'.bankRef.hash =
              some { d with state := .issued } :=
          hd ▸ World.lookup_rowAt { w with ledger := ledger } d .issued
        refine meets_mono (retryEach_keeps hkeyed' hlookup (fun h => by cases h)
          ds _) ?_
        intro _ w'' ⟨hr, hnull⟩
        exact ⟨hr, hnull.mpr (mem_nullifiers_of_issue hissue)⟩
      · have hd' : d ∈ ds := by
          rcases List.mem_cons.mp hmem with rfl | h
          · exact absurd hd hn
          · exact h
        refine meets_mono (meets_keeps (I := fun w => w.ledger.Conserved)
          (fun e s w hw => conserved_exec hw e s)
          (retryHeld_besides hkeyed d'.bankRef) hcons) ?_
        intro r w' ⟨h, hcons'⟩
        have hne : n ≠ d'.bankRef.hash := fun h => hn h.symm
        exact ih h.keyed hcons' ((h.row n hne).trans hrow)
          (fun hin => hfree ((h.nullifier n hne).mp hin)) hd' _

theorem retryAllHeld_where {Q : PortResult CallOutcome → World → Prop}
    (h : ∀ rank ds, w.deposits.held rank = .ok ds →
      (IssuanceService.retryEach ds 0).run.Meets (Handler.arenaWhere World.exec φ)
        (fun r w' => Q (r.map (.retried ds.length)) w') w) (deltaSecs : Int64) :
    (Call.prog deltaSecs .retryAllHeld).Meets (Handler.arenaWhere World.exec φ)
      Q w := by
  refine meets_run_bind.mpr (meets_run_bind.mpr (meets_call_where.mpr fun e _ => ?_))
  have hloop := h e.depositRank _ rfl
  generalize hds : ((w.deposits.values.filter fun d => d.state = .screened).insertionSort
    fun a b => e.depositRank a.nullifier ≤ e.depositRank b.nullifier) = ds at hloop
  have hx : World.exec e (.deposits .held) w = (.ok ds, w) := by
    rw [← hds]
    rfl
  rw [hx]
  dsimp only
  cases ds with
  | nil => exact hloop
  | cons d ds =>
      refine meets_run_bind.mpr (meets_mono hloop ?_)
      intro r w' hq
      cases r with
      | error e => exact hq
      | ok issued => exact hq

end Sweep

theorem runCall_retryAllHeld_keeps {w : World} {n : BankRefHash} {row : Deposit}
    (hkeyed : OnRamp.Keyed w.deposits) (hrow : w.deposits.lookup n = some row)
    (hs : row.state ≠ .screened) (deltaSecs : Int64) (es : ℕ → Env) :
    (w.runCall deltaSecs (.retryAllHeld, es)).2.deposits.lookup n = some row ∧
      (n ∈ (w.runCall deltaSecs (.retryAllHeld, es)).2.ledger.nullifiers ↔
        n ∈ w.ledger.nullifiers) := by
  have hmeets := retryAllHeld_where (φ := fun _ _ => True)
    (Q := fun _ w' => w'.deposits.lookup n = some row ∧
      (n ∈ w'.ledger.nullifiers ↔ n ∈ w.ledger.nullifiers))
    (fun _ ds _ => retryEach_keeps hkeyed hrow hs ds 0) deltaSecs
  exact meets_run_along hmeets (Prog.along_of_forall (fun _ _ => trivial) _ _)

theorem runCall_retryAllHeld_issues {φ : World → Env → Prop} {w : World}
    {d : Deposit} (hs : d.state = .screened)
    (hadm : ∀ w e, φ w e → d.nullifier ∉ w.ledger.nullifiers →
      Admitted w d.amount e.clock)
    (hkeyed : OnRamp.Keyed w.deposits) (hcons : w.ledger.Conserved)
    (hrow : w.deposits.lookup d.nullifier = some d)
    (hfree : d.nullifier ∉ w.ledger.nullifiers) (deltaSecs : Int64)
    {es : ℕ → Env}
    (hes : (Call.prog deltaSecs .retryAllHeld).Along World.exec φ es w) :
    (w.runCall deltaSecs (.retryAllHeld, es)).2.deposits.lookup d.nullifier =
        some { d with state := .issued } ∧
      d.nullifier ∈ (w.runCall deltaSecs (.retryAllHeld, es)).2.ledger.nullifiers := by
  have hmeets := retryAllHeld_where (φ := φ)
    (Q := fun _ w' => w'.deposits.lookup d.nullifier =
      some { d with state := .issued } ∧ d.nullifier ∈ w'.ledger.nullifiers)
    (fun rank ds hds => retryEach_issues rfl hs hadm hkeyed hcons hrow hfree
      ((InMemoryDepositRepo.mem_held hds).mpr ⟨hs, _, hrow⟩) 0) deltaSecs
  exact meets_run_along hmeets hes

/-! ## Mints, by the log -/

def mints (n : BankRefHash) (h : History Port Port.Reply) : ℕ :=
  h.countP fun a => OnRamp.isMint n (0, a)

omit [Sha256] in
theorem mints_cons (n : BankRefHash) (a : Act Port Port.Reply)
    (h : History Port Port.Reply) :
    mints n (a :: h) = mints n h + if OnRamp.isMint n (0, a) = true then 1 else 0 :=
  List.countP_cons

/-- A mint takes the nullifier, and nothing else takes it or gives it back. -/
theorem mints_exec {w : World} (hcons : w.ledger.Conserved) (n : BankRefHash)
    (e : Env) (s : Port) (h : History Port Port.Reply)
    (hcount : mints n h = if n ∈ w.ledger.nullifiers then 1 else 0) :
    mints n (⟨s, (World.exec e s w).1⟩ :: h) =
      if n ∈ (World.exec e s w).2.ledger.nullifiers then 1 else 0 := by
  have hquiet : OnRamp.isMint n (0, ⟨s, (World.exec e s w).1⟩) = false →
      (World.exec e s w).2.ledger.nullifiers = w.ledger.nullifiers →
      mints n (⟨s, (World.exec e s w).1⟩ :: h) =
        if n ∈ (World.exec e s w).2.ledger.nullifiers then 1 else 0 := by
    intro hno heq
    rw [heq, ← hcount, mints_cons, hno]
    rfl
  cases s with
  | ledger m =>
      cases m with
      | issue wallet amount k =>
          obtain ⟨err, heq, -⟩ | ⟨hfree, v, balance, -, -, heq⟩ :=
            SimulatedLedger.State.issue_conserved hcons wallet amount k
          · rw [exec_issue heq] at hquiet ⊢
            exact hquiet rfl rfl
          · rw [exec_issue heq, mints_cons, hcount]
            change (if n ∈ w.ledger.nullifiers then 1 else 0) +
                (if decide (k = n) = true then 1 else 0) =
              if n ∈ insert k w.ledger.nullifiers then 1 else 0
            by_cases hk : k = n
            · subst hk
              simp [hfree]
            · have hk' : n ≠ k := fun h => hk h.symm
              simp [hk, hk']
      | _ => exact hquiet rfl (OnRamp.nullifiers_exec trivial)
  | simulator m => exact hquiet rfl (OnRamp.nullifiers_exec trivial)
  | payouts m => exact hquiet rfl (OnRamp.nullifiers_exec trivial)
  | _ => exact hquiet rfl rfl

theorem mints_run {n : BankRefHash} {W : Type}
    {exec : Handler Port Port.Reply Env W} {f : W → World}
    (hstep : ∀ e s x,
      ((exec e s x).1 = (World.exec e s (f x)).1 ∧
        f (exec e s x).2 = (World.exec e s (f x)).2) ∨
      (OnRamp.isMint n (0, ⟨s, (exec e s x).1⟩) = false ∧
        f (exec e s x).2 = f x))
    {α : Type} (p : Prog Port Port.Reply α) (es : ℕ → Env) {x : W}
    {h : History Port Port.Reply} (hcons : (f x).ledger.Conserved)
    (hcount : mints n h = if n ∈ (f x).ledger.nullifiers then 1 else 0) :
    (f (p.run (Handler.logged exec) es (x, h)).2.1).ledger.Conserved ∧
      mints n (p.run (Handler.logged exec) es (x, h)).2.2 =
        if n ∈ (f (p.run (Handler.logged exec) es (x, h)).2.1).ledger.nullifiers
        then 1 else 0 := by
  refine run_keeps (I := fun y : W × History Port Port.Reply =>
    (f y.1).ledger.Conserved ∧
      mints n y.2 = if n ∈ (f y.1).ledger.nullifiers then 1 else 0)
    ?_ p es ⟨hcons, hcount⟩
  intro e s ⟨x, h⟩ ⟨hcons, hcount⟩
  rcases hstep e s x with ⟨hr, hw⟩ | ⟨hno, hw⟩
  · show (f (exec e s x).2).ledger.Conserved ∧
      mints n (⟨s, (exec e s x).1⟩ :: h) =
        if n ∈ (f (exec e s x).2).ledger.nullifiers then 1 else 0
    rw [hw, hr]
    exact ⟨conserved_exec hcons e s, mints_exec hcons n e s h hcount⟩
  · show (f (exec e s x).2).ledger.Conserved ∧
      mints n (⟨s, (exec e s x).1⟩ :: h) =
        if n ∈ (f (exec e s x).2).ledger.nullifiers then 1 else 0
    rw [hw, mints_cons, hno]
    exact ⟨hcons, hcount⟩

omit [Sha256] in
theorem not_isMint_lost {n : BankRefHash} {text : String} {s : Port} {b : s.Reply}
    (h : lost text s = some b) : OnRamp.isMint n (0, ⟨s, b⟩) = false := by
  cases s with
  | clock => rfl
  | ledger m =>
      obtain rfl := Option.some.inj h
      cases m <;> rfl
  | _ =>
      obtain rfl := Option.some.inj h
      rfl

/-! ## The episode -/

/-- A webhook that is delivered, with one call lost on the way, and delivered
again before the sweep. -/
structure Episode where
  webhook : Call
  /-- which of the calls that can fail is lost, from zero -/
  lost : ℕ
  text : String
  first : ℕ → Env
  second : ℕ → Env
  sweep : ℕ → Env

namespace Episode

variable (ep : Episode) (deltaSecs : Int64) (w : World)

/-- What the first delivery leaves, with the log of it. -/
def delivered : World × History Port Port.Reply :=
  let r := (ep.webhook.prog deltaSecs).run
    (Handler.logged (Handler.faulty World.exec (Thbc.lost ep.text))) ep.first
    ((w, some ep.lost), [])
  (r.2.1.1, r.2.2)

def redelivered : World × History Port Port.Reply :=
  ((ep.webhook.prog deltaSecs).run (Handler.logged World.exec) ep.second
    (ep.delivered deltaSecs w)).2

def swept : World × History Port Port.Reply :=
  ((Call.prog deltaSecs .retryAllHeld).run (Handler.logged World.exec) ep.sweep
    (ep.redelivered deltaSecs w)).2

structure Throughout (φ : World → Env → Prop) : Prop where
  first : (ep.webhook.prog deltaSecs).Along
    (Handler.faulty World.exec (Thbc.lost ep.text)) (fun x => φ x.1) ep.first
    (w, some ep.lost)
  second : (ep.webhook.prog deltaSecs).Along World.exec φ ep.second
    (ep.delivered deltaSecs w).1
  sweep : (Call.prog deltaSecs .retryAllHeld).Along World.exec φ ep.sweep
    (ep.redelivered deltaSecs w).1

end Episode

/-- The screen passes, and until `n` is minted the attestation is fresh and the
headroom covers `amount`, for the service and for the ledger. -/
structure Favourable (n : BankRefHash) (amount : Thb) (w : World) (e : Env) :
    Prop where
  passes : e.screen = .ok .pass
  admitted : n ∉ w.ledger.nullifiers → Admitted w amount e.clock

instance (n : BankRefHash) (amount : Thb) (w : World) (e : Env) :
    Decidable (Favourable n amount w e) :=
  decidable_of_iff (e.screen = .ok .pass ∧
      (n ∉ w.ledger.nullifiers → Admitted w amount e.clock))
    ⟨fun h => ⟨h.1, h.2⟩, fun h => ⟨h.passes, h.admitted⟩⟩

namespace Episode

variable {ep : Episode} {deltaSecs : Int64} {w : World}

theorem world_delivered (ep : Episode) (deltaSecs : Int64) (w : World) :
    (ep.delivered deltaSecs w).1 = ((ep.webhook.prog deltaSecs).run
      (Handler.faulty World.exec (Thbc.lost ep.text)) ep.first
      (w, some ep.lost)).2.1 :=
  congrArg Prod.fst (run_logged (Handler.faulty World.exec (Thbc.lost ep.text))
    (ep.webhook.prog deltaSecs) ep.first (w, some ep.lost) []).2

theorem world_redelivered (ep : Episode) (deltaSecs : Int64) (w : World) :
    (ep.redelivered deltaSecs w).1 =
      ((ep.delivered deltaSecs w).1.runCall deltaSecs (ep.webhook, ep.second)).2 :=
  (run_logged _ _ _ _ _).2

theorem world_swept (ep : Episode) (deltaSecs : Int64) (w : World) :
    (ep.swept deltaSecs w).1 =
      ((ep.redelivered deltaSecs w).1.runCall deltaSecs (.retryAllHeld, ep.sweep)).2 :=
  (run_logged _ _ _ _ _).2

/-- By the log, what is minted in an episode is what is booked after it. -/
theorem mints_swept (ep : Episode) (deltaSecs : Int64) (hcons : w.ledger.Conserved)
    {n : BankRefHash} (hfree : n ∉ w.ledger.nullifiers) :
    mints n (ep.swept deltaSecs w).2 =
      if n ∈ (ep.swept deltaSecs w).1.ledger.nullifiers then 1 else 0 := by
  have hfaulty : ∀ e s (x : World × Option ℕ),
      ((Handler.faulty World.exec (Thbc.lost ep.text) e s x).1 =
          (World.exec e s x.1).1 ∧
        (Handler.faulty World.exec (Thbc.lost ep.text) e s x).2.1 =
          (World.exec e s x.1).2) ∨
      (OnRamp.isMint n (0, ⟨s, (Handler.faulty World.exec (Thbc.lost ep.text) e s
          x).1⟩) = false ∧
        (Handler.faulty World.exec (Thbc.lost ep.text) e s x).2.1 = x.1) := by
    intro e s ⟨w, k⟩
    obtain ⟨k', hx⟩ | ⟨b, hb, hx⟩ :=
      faulty_cases World.exec (Thbc.lost ep.text) e s w k
    · rw [hx]
      exact .inl ⟨rfl, rfl⟩
    · rw [hx]
      exact .inr ⟨not_isMint_lost hb, rfl⟩
  have hfirst := mints_run hfaulty (ep.webhook.prog deltaSecs) ep.first
    (x := (w, some ep.lost)) (h := []) hcons (by rw [if_neg hfree]; rfl)
  have hsecond := mints_run (n := n) (f := id) (fun _ _ _ => .inl ⟨rfl, rfl⟩)
    (ep.webhook.prog deltaSecs) ep.second hfirst.1 hfirst.2
  exact (mints_run (n := n) (f := id) (fun _ _ _ => .inl ⟨rfl, rfl⟩)
    (Call.prog deltaSecs .retryAllHeld) ep.sweep hsecond.1 hsecond.2).2

end Episode

theorem World.keyed_rowAt {w : World} (h : OnRamp.Keyed w.deposits) (d : Deposit)
    (s : DepositState) : OnRamp.Keyed (w.rowAt d s).deposits :=
  OnRamp.keyed_insert h rfl

def IssuedOnce (d : Deposit) (x : World × History Port Port.Reply) : Prop :=
  x.1.deposits.lookup d.nullifier = some { d with state := .issued } ∧
    mints d.nullifier x.2 = 1

section Outcome

variable {ep : Episode} {deltaSecs : Int64} {w w₁ : World} {d : Deposit}
  {s : DepositState}

/-- A redelivery adds nothing to a row that is there. -/
theorem Episode.redelivered_of_row
    (hep : ep.webhook = .handleDeposit d.bankRef d.amount d.beneficiary
      d.beneficiaryWallet) (hw : (ep.delivered deltaSecs w).1 = w₁.rowAt d s) :
    (ep.redelivered deltaSecs w).1 = w₁.rowAt d s := by
  rw [ep.world_redelivered, hep, hw]
  exact runCall_replays (w₁.lookup_rowAt d s) deltaSecs ep.second

/-- The sweep adds nothing to a row that is not `Screened`. -/
theorem Episode.swept_of_row (hkeyed : OnRamp.Keyed w₁.deposits)
    (hs : s ≠ .screened) (hw : (ep.redelivered deltaSecs w).1 = w₁.rowAt d s) :
    (ep.swept deltaSecs w).1.deposits.lookup d.nullifier =
        some { d with state := s } ∧
      (d.nullifier ∈ (ep.swept deltaSecs w).1.ledger.nullifiers ↔
        d.nullifier ∈ w₁.ledger.nullifiers) := by
  rw [ep.world_swept, hw]
  exact runCall_retryAllHeld_keeps (World.keyed_rowAt hkeyed d s)
    (w₁.lookup_rowAt d s) hs deltaSecs ep.sweep

/-- All eight calls are done by the redelivery: the sweep adds nothing. -/
theorem Episode.issuedOnce_of_done (hkeyed : OnRamp.Keyed w.deposits)
    (hcons : w.ledger.Conserved) (hfree : d.nullifier ∉ w.ledger.nullifiers)
    (h : Reached w d 8 (ep.redelivered deltaSecs w).1) :
    IssuedOnce d (ep.swept deltaSecs w) := by
  obtain ⟨ledger, hissue, hw⟩ := h
  have hkeyed' : OnRamp.Keyed (World.deposits { w with ledger := ledger }) := hkeyed
  obtain ⟨hrow, hnull⟩ := Episode.swept_of_row hkeyed' (fun h => by cases h) hw
  refine ⟨hrow, ?_⟩
  rw [ep.mints_swept deltaSecs hcons hfree]
  exact if_pos (hnull.mpr (mem_nullifiers_of_issue hissue))

/-- The row is `Screened`: the redelivery reports it and the sweep issues
it. -/
theorem Episode.issuedOnce_of_held (hkeyed : OnRamp.Keyed w.deposits)
    (hcons : w.ledger.Conserved) (hfree : d.nullifier ∉ w.ledger.nullifiers)
    (hfav : ep.Throughout deltaSecs w (Favourable d.nullifier d.amount))
    (hw : (ep.redelivered deltaSecs w).1 = w.rowAt d .screened) :
    IssuedOnce d (ep.swept deltaSecs w) := by
  have hsweep := hfav.sweep
  rw [hw] at hsweep
  obtain ⟨hissued, hin⟩ := runCall_retryAllHeld_issues
    (d := { d with state := .screened }) rfl (fun _ _ he => he.admitted)
    (World.keyed_rowAt hkeyed d .screened) hcons (w.lookup_rowAt d .screened) hfree
    deltaSecs hsweep
  rw [← hw, ← ep.world_swept] at hissued hin
  refine ⟨hissued, ?_⟩
  rw [ep.mints_swept deltaSecs hcons hfree]
  exact if_pos hin

/-- A row in another state is nobody's business any more. -/
theorem Episode.not_issuedOnce (hkeyed : OnRamp.Keyed w₁.deposits)
    (hs : s ≠ .screened) (hs' : s ≠ .issued)
    (hw : (ep.redelivered deltaSecs w).1 = w₁.rowAt d s) (now : Int64) :
    ¬ IssuedOnce { d with observedAt := now } (ep.swept deltaSecs w) := by
  intro h
  have hlookup := (Episode.swept_of_row hkeyed hs hw).1
  have heq : some { d with observedAt := now, state := .issued } =
      some { d with state := s } := h.1.symm.trans hlookup
  exact hs' (congrArg Deposit.state (Option.some.inj heq)).symm

end Outcome

/-- The webhook of a new deposit is delivered with one call lost, delivered
again, and the held deposits are swept, all in favourable surroundings. The
deposit ends up `Issued` and minted exactly once if and only if the lost call is
none of the screen, the update to `Screened`, the mint and the update to
`Issued`. -/
theorem issued_once_iff (deltaSecs : Int64) (w : World)
    (hkeyed : OnRamp.Keyed w.deposits) (hcons : w.ledger.Conserved)
    (bankRef : BankRef) (amount : Thb) (beneficiary beneficiaryWallet : String)
    (hnew : Deliverable w bankRef amount beneficiaryWallet) (ep : Episode)
    (hep : ep.webhook = .handleDeposit bankRef amount beneficiary beneficiaryWallet)
    (hfav : ep.Throughout deltaSecs w (Favourable bankRef.hash amount)) :
    (∃ now, IssuedOnce
        ⟨bankRef, amount, beneficiary, beneficiaryWallet, .observed, now⟩
        (ep.swept deltaSecs w)) ↔
      ep.lost ≠ 1 ∧ ep.lost ≠ 2 ∧ ep.lost ≠ 6 ∧ ep.lost ≠ 7 := by
  have hadm : ∀ e, Favourable bankRef.hash amount w e → Admitted w amount e.clock :=
    fun e he => he.admitted hnew.free
  have hfirst := hfav.first
  rw [hep] at hfirst
  obtain ⟨now, hreached, -⟩ := meets_run_along (prog_delivers hnew hcons hadm
    (fun _ _ he => he.passes) deltaSecs ep.text rfl) hfirst
  rw [← hep, ← ep.world_delivered] at hreached
  have hstuck : ∀ {s : DepositState} {w₁ : World}, OnRamp.Keyed w₁.deposits →
      s ≠ .screened → s ≠ .issued →
      (ep.delivered deltaSecs w).1 = w₁.rowAt
        ⟨bankRef, amount, beneficiary, beneficiaryWallet, .observed, now⟩ s →
      ¬ ∃ now, IssuedOnce
        ⟨bankRef, amount, beneficiary, beneficiaryWallet, .observed, now⟩
        (ep.swept deltaSecs w) := by
    intro s w₁ hk hs hs' hw ⟨now', h⟩
    exact Episode.not_issuedOnce hk hs hs' (Episode.redelivered_of_row hep hw) now' h
  have hheld : (ep.delivered deltaSecs w).1 = w.rowAt
        ⟨bankRef, amount, beneficiary, beneficiaryWallet, .observed, now⟩ .screened →
      ∃ now, IssuedOnce
        ⟨bankRef, amount, beneficiary, beneficiaryWallet, .observed, now⟩
        (ep.swept deltaSecs w) := by
    intro hw
    exact ⟨now, Episode.issuedOnce_of_held hkeyed hcons hnew.free hfav
      (Episode.redelivered_of_row hep hw)⟩
  have hdone : ∀ now, Reached w
        ⟨bankRef, amount, beneficiary, beneficiaryWallet, .observed, now⟩ 8
        (ep.redelivered deltaSecs w).1 →
      ∃ now, IssuedOnce
        ⟨bankRef, amount, beneficiary, beneficiaryWallet, .observed, now⟩
        (ep.swept deltaSecs w) := by
    intro now' h
    exact ⟨now', Episode.issuedOnce_of_done hkeyed hcons hnew.free h⟩
  -- One case for each call that can be lost, and one for none of them.
  rcases hlost : ep.lost with _ | _ | _ | _ | _ | _ | _ | _ | k
  all_goals rw [hlost] at hreached
  · have hw : (ep.delivered deltaSecs w).1 = w := hreached
    have hsecond := hfav.second
    rw [hw, hep] at hsecond
    obtain ⟨-, now', hre⟩ := runCall_delivers hnew hcons hadm
      (fun _ _ he => he.passes) deltaSecs hsecond
    rw [← hep, ← hw, ← ep.world_redelivered, hw] at hre
    exact iff_of_true (hdone now' hre) (by omega)
  · exact iff_of_false (hstuck hkeyed (by decide) (by decide) hreached) (by omega)
  · exact iff_of_false (hstuck hkeyed (by decide) (by decide) hreached) (by omega)
  · exact iff_of_true (hheld hreached) (by omega)
  · exact iff_of_true (hheld hreached) (by omega)
  · exact iff_of_true (hheld hreached) (by omega)
  · exact iff_of_false (hstuck hkeyed (by decide) (by decide) hreached) (by omega)
  · obtain ⟨ledger, -, hw⟩ := hreached
    have hkeyed' : OnRamp.Keyed (World.deposits { w with ledger := ledger }) := hkeyed
    exact iff_of_false (hstuck hkeyed' (by decide) (by decide) hw) (by omega)
  · have hcut : cut 8 0 (some (k + 8)) = 8 := by
      show min (0 + (k + 8)) 8 = 8
      omega
    rw [hcut] at hreached
    obtain ⟨ledger, hissue, hw⟩ := hreached
    have hre := Episode.redelivered_of_row hep hw
    exact iff_of_true (hdone now ⟨ledger, hissue, hre⟩) (by omega)

end Redelivery

open Sample

/-- The webhook of `SCB-1` with its `k`-th call lost. -/
def Sample.episode (k : ℕ) : Episode where
  webhook := deposit scb1
  lost := k
  text := "connection reset"
  first := fun _ => env 0 .pass
  second := fun _ => env 0 .pass
  sweep := fun _ => env 0 .pass

theorem issued_once_iff_held :
    (∃ now, IssuedOnce ⟨scb1, ⟨100⟩, "alice", "alice", .observed, now⟩
        ((episode 4).swept 86400 treasury)) ↔
      (episode 4).lost ≠ 1 ∧ (episode 4).lost ≠ 2 ∧ (episode 4).lost ≠ 6 ∧
        (episode 4).lost ≠ 7 :=
  issued_once_iff 86400 treasury (by intro n d h; cases h) rfl scb1 ⟨100⟩ "alice"
    "alice" ⟨by decide, by decide, by decide, by decide⟩ (episode 4) rfl
    ⟨by decide, by decide, by decide⟩

/-- The screen is lost: the row stays `Observed`, and nothing is minted. -/
theorem deposit_forgotten :
    Deliverable treasury scb1 ⟨100⟩ "alice" ∧
      (episode 1).Throughout 86400 treasury (Favourable scb1.hash ⟨100⟩) ∧
      ((episode 1).swept 86400 treasury).1.deposits.lookup scb1.hash =
        some ⟨scb1, ⟨100⟩, "alice", "alice", .observed, 0⟩ ∧
      mints scb1.hash ((episode 1).swept 86400 treasury).2 = 0 :=
  ⟨⟨by decide, by decide, by decide, by decide⟩,
    ⟨by decide, by decide, by decide⟩, by decide, by decide⟩

end Thbc
