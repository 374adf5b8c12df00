import Thbc.System.Uses

/-!
# What a call may do on the on-ramp

A call that works on a deposit carries a copy of it from one port call to the
next. `Phase` is how far it has got, read off its own history: the copy, and
what has been done with it. In every phase but `idle` there is exactly one
request the code can make next (`Phase.next`), and in `idle` the code never
screens, never issues and never writes a row (`opens`).

That this is what the code does is `call_obeys`, one walk through each
service method. The proofs about stores and ledgers take it from there and
do not look at the services again.
-/

namespace Thbc.OnRamp

open Thbc.Lib Thbc.Service

/-! ## The calls that have no business here -/

/-- What leaves an idle call idle. -/
def neutral : Port → Prop
  | .deposits (.insert _) | .deposits (.find _) | .deposits (.update _) => False
  | .compliance _ => False
  | .ledger (.issue _ _ _) => False
  | _ => True

theorem neutral_of_offRampPort {s : Port} (h : offRampPort s) : neutral s := by
  cases s with
  | deposits m => exact h.elim
  | ledger m => cases m <;> first | exact h.elim | trivial
  | compliance m => exact h.elim
  | _ => trivial

theorem neutral_of_common {s : Port} (h : common s) : neutral s := by
  cases s with
  | deposits m => cases m <;> first | exact h.elim | trivial
  | ledger m => cases m <;> first | exact h.elim | trivial
  | compliance m => exact h.elim
  | _ => trivial

/-! ## How far a call has got -/

variable [Sha256]

/-- How far a deposit has been taken that passed its screen. -/
inductive Gate where
  /-- read by a retry -/
  | found
  /-- the time to judge the attestation by is fixed -/
  | timed (now : Int64)
  /-- the ledger's side of the ceiling is read -/
  | sighted (now : Int64) (snapshot : TreasurySnapshot)
  /-- the ceiling admits the amount -/
  | cleared
  /-- persisted as `Attested` -/
  | attested
  /-- the ledger confirmed the mint -/
  | minted
  deriving DecidableEq

/-- What a call is in the middle of. `fresh` carries the inserted deposit and
the answer of the screen, `passed` the copy in state `Screened`. -/
inductive Phase where
  | idle
  | fresh (d : Deposit) (verdict : Option ScreenOutcome)
  | passed (d : Deposit) (gate : Gate)
  deriving DecidableEq

namespace Phase

/-- The one request that can follow, in the middle of something. -/
def next : Phase → Option Port
  | .idle => none
  | .fresh d none => some (.compliance (.screen d.beneficiary d.amount))
  | .fresh d (some o) =>
      some (.deposits (.update { d with state := Deposit.screenTarget o }))
  | .passed _ .found => some .clock
  | .passed _ (.timed _) => some (.ledger .snapshot)
  | .passed _ (.sighted _ _) => some (.deposits .totalEncumbered)
  | .passed d .cleared =>
      some (.deposits (.update { d with state := .attested }))
  | .passed d .attested =>
      some (.ledger (.issue d.beneficiaryWallet d.amount d.nullifier))
  | .passed d .minted => some (.deposits (.update { d with state := .issued }))

end Phase

def opens (call : Call) : Port → Prop
  | .deposits (.insert d) =>
      d.state = .observed ∧
        call = .handleDeposit d.bankRef d.amount d.beneficiary d.beneficiaryWallet
  | .deposits (.update _) => False
  | .compliance _ => False
  | .ledger (.issue _ _ _) => False
  | _ => True

/-- A retry goes on with a row it finds `Screened`; a replayed webhook only
reports what it finds. -/
def retries : Call → Bool
  | .retryHeld _ | .retryAllHeld => true
  | _ => false

def admits (d : Deposit) (now : Int64) (s : TreasurySnapshot) (e : Thb) : Bool :=
  match (ReserveState.mk s.reserve.attestation e s.reserve.supply).checkIssuance
      d.amount now with
  | .ok _ => true
  | .error _ => false

def Phase.advance (call : Call) : Phase → Act Port Port.Reply → Phase
  | .idle, ⟨.deposits (.insert d), .ok _⟩ => .fresh d none
  | .idle, ⟨.deposits (.find _), .ok (some d)⟩ =>
      if retries call ∧ d.state = .screened then .passed d .found else .idle
  | .fresh d none, ⟨.compliance _, .ok o⟩ => .fresh d (some o)
  | .fresh d (some .pass), ⟨.deposits (.update _), .ok _⟩ =>
      .passed { d with state := .screened } (.timed d.observedAt)
  | .passed d .found, ⟨.clock, now⟩ => .passed d (.timed now)
  | .passed d (.timed now), ⟨.ledger .snapshot, .ok s⟩ =>
      .passed d (.sighted now s)
  | .passed d (.sighted now s), ⟨.deposits .totalEncumbered, .ok e⟩ =>
      if admits d now s e then .passed d .cleared else .idle
  | .passed d .cleared, ⟨.deposits (.update _), .ok _⟩ => .passed d .attested
  | .passed d .attested, ⟨.ledger (.issue _ _ _), .ok .confirmed⟩ =>
      .passed d .minted
  | _, _ => .idle

/-- What the code does on the on-ramp. The rows it is handed are filed under
their own nullifier. -/
def grammar (call : Call) : Grammar Port Port.Reply Phase where
  start := .idle
  advance := Phase.advance call
  asks q s :=
    match q.next with
    | some r => s = r
    | none => opens call s
  ends q := q = .idle
  hears
    | .deposits (.find n), b => ∀ d, b = .ok (some d) → d.nullifier = n
    | _, _ => True

/-! ## The walk through the services -/

variable {call : Call}

/-- The code returns, with whatever result, and nothing is under way. -/
abbrev Settles {α : Type} (call : Call) (x : Service α) (q : Phase) : Prop :=
  x.run.Meets (grammar call).arena (fun _ q' => q' = .idle) q

theorem effectiveReserve_meets {d : Deposit} {now : Int64}
    {Q : PortResult ReserveState → Phase → Prop}
    (herr : ∀ e, Q (.error e) .idle)
    (hok : ∀ (s : TreasurySnapshot) (e : Thb),
      Q (.ok ⟨s.reserve.attestation, e, s.reserve.supply⟩)
        (if admits d now s e then .passed d .cleared else .idle)) :
    IssuanceService.effectiveReserve.run.Meets (grammar call).arena Q
      (.passed d (.timed now)) := by
  refine meets_ledger rfl herr ?_
  intro s _
  refine meets_deposits rfl herr ?_
  intro e _
  exact hok s e

theorem attestAndIssue_settles {d : Deposit} {now : Int64}
    (hd : d.state = .screened) :
    Settles call (IssuanceService.attestAndIssue d d.amount
      d.beneficiaryWallet d.nullifier now) (.passed d (.timed now)) := by
  have hatt : d.markAttested = .ok { d with state := .attested } :=
    Deposit.markAttested_ok.mpr ⟨hd, rfl⟩
  refine meets_run_bind.mpr (effectiveReserve_meets (fun _ => rfl) fun s e => ?_)
  cases hg : (ReserveState.mk s.reserve.attestation e
      s.reserve.supply).checkIssuance d.amount now with
  | error err =>
      simp only [admits, hg]
      exact rfl
  | ok v =>
      simp only [admits, hg, hatt]
      refine meets_core_ok.mpr (meets_deposits rfl (fun _ => rfl) ?_)
      intro u _
      refine meets_ledger rfl (fun _ => rfl) ?_
      intro o _
      cases o with
      | submitted => exact rfl
      | failed => exact rfl
      | confirmed =>
          exact meets_core_ok.mpr (meets_deposits rfl (fun _ => rfl) fun _ _ => rfl)

theorem screenAndIssue_settles {d : Deposit} (hd : d.state = .observed) :
    Settles call (IssuanceService.screenAndIssue d d.amount d.beneficiary
      d.beneficiaryWallet d.nullifier d.observedAt) (.fresh d none) := by
  refine meets_run_bind.mpr (Grammar.meets_call.mpr ⟨rfl, ?_⟩)
  intro b _
  cases b with
  | error e => exact rfl
  | ok o =>
      have hs : d.screen o = .ok { d with state := Deposit.screenTarget o } :=
        Deposit.screen_ok.mpr ⟨hd, rfl⟩
      simp only [hs]
      cases o with
      | fail =>
          exact meets_core_ok.mpr (meets_deposits rfl (fun _ => rfl) fun _ _ => rfl)
      | pass =>
          refine meets_core_ok.mpr (meets_deposits rfl (fun _ => rfl) ?_)
          intro u _
          exact attestAndIssue_settles (d := { d with state := .screened }) rfl

theorem handleDeposit_settles (bankRef : BankRef) (amount : Thb)
    (beneficiary beneficiaryWallet : String) :
    Settles (.handleDeposit bankRef amount beneficiary beneficiaryWallet)
      (IssuanceService.handleDeposit bankRef amount beneficiary
        beneficiaryWallet) .idle := by
  refine meets_now trivial ?_
  intro now
  cases hobs : Deposit.observe bankRef amount beneficiary beneficiaryWallet now with
  | error e => exact rfl
  | ok d =>
      obtain ⟨-, -, rfl⟩ := Deposit.observe_ok.mp hobs
      refine meets_core_ok.mpr (meets_run_bind.mpr
        (meets_attempt.mpr (Grammar.meets_call.mpr ⟨⟨rfl, rfl⟩, ?_⟩)))
      intro b _
      cases b with
      | ok u => exact screenAndIssue_settles rfl
      | error e =>
          cases e with
          | conflict text =>
              refine meets_deposits trivial (fun _ => rfl) ?_
              intro found _
              cases found with
              | none => exact rfl
              | some row => exact rfl
          | transient text => exact rfl
          | rejected text => exact rfl
          | unsupported text => exact rfl
          | notFound => exact rfl
          | domain e => exact rfl

theorem retryHeld_settles (hr : retries call = true) (bankRef : BankRef) :
    Settles call (IssuanceService.retryHeld bankRef) .idle := by
  refine meets_deposits trivial (fun _ => rfl) ?_
  intro found hfind
  cases found with
  | none => exact rfl
  | some d =>
      have hn : d.nullifier = bankRef.hash := hfind d rfl
      by_cases hd : d.state = .screened
      · have hq : (grammar call).advance .idle
            ⟨.deposits (.find bankRef.hash), .ok (some d)⟩ =
              .passed d .found := if_pos ⟨hr, hd⟩
        rw [hq, ← hn]
        refine meets_some.mpr ?_
        rw [if_neg (not_not.mpr hd)]
        refine meets_now rfl ?_
        intro now
        refine meets_run_bind.mpr (effectiveReserve_meets (fun _ => rfl)
          fun s e => ?_)
        cases hg : (ReserveState.mk s.reserve.attestation e
            s.reserve.supply).checkIssuance d.amount now with
        | error err =>
            simp only [admits, hg]
            exact rfl
        | ok v =>
            have hatt : d.markAttested = .ok { d with state := .attested } :=
              Deposit.markAttested_ok.mpr ⟨hd, rfl⟩
            simp only [admits, hg, hatt]
            refine meets_core_ok.mpr (meets_deposits rfl (fun _ => rfl) ?_)
            intro u _
            refine meets_ledger rfl (fun _ => rfl) ?_
            intro o _
            cases o with
            | submitted => exact rfl
            | failed => exact rfl
            | confirmed =>
                exact meets_core_ok.mpr
                  (meets_deposits rfl (fun _ => rfl) fun _ _ => rfl)
      · have hq : (grammar call).advance .idle
            ⟨.deposits (.find bankRef.hash), .ok (some d)⟩ = .idle :=
          if_neg fun h => hd h.2
        rw [hq]
        refine meets_some.mpr ?_
        rw [if_pos hd]
        exact rfl

theorem retryEach_settles (hr : retries call = true) (ds : List Deposit)
    (issued : ℕ) : Settles call (IssuanceService.retryEach ds issued) .idle := by
  induction ds generalizing issued with
  | nil => exact rfl
  | cons d ds ih =>
      refine meets_run_bind.mpr (meets_attempt.mpr
        (meets_mono (retryHeld_settles hr d.bankRef) ?_))
      intro r q hq
      subst hq
      cases r with
      | error e => exact ih issued
      | ok o =>
          cases o with
          | issued amount => exact ih (issued + 1)
          | alreadyIssued => exact ih issued
          | encumbered amount reason => exact ih issued
          | held reason => exact ih issued

theorem retryAllHeld_settles (hr : retries call = true) :
    Settles call IssuanceService.retryAllHeld .idle := by
  refine meets_deposits trivial (fun _ => rfl) ?_
  intro ds _
  cases ds with
  | nil => exact rfl
  | cons d ds =>
      refine meets_run_bind.mpr (meets_mono (retryEach_settles hr (d :: ds) 0) ?_)
      intro r q hq
      subst hq
      cases r with
      | error e => exact rfl
      | ok issued => exact rfl

/-! ## Every call -/

theorem asks_of_neutral {s : Port} (h : neutral s) :
    (grammar call).asks .idle s ∧
      ∀ b, (grammar call).advance .idle ⟨s, b⟩ = .idle := by
  cases s with
  | deposits m => cases m <;> first | exact h.elim | exact ⟨trivial, fun b => rfl⟩
  | ledger m => cases m <;> first | exact h.elim | exact ⟨trivial, fun b => rfl⟩
  | compliance m => exact h.elim
  | _ => exact ⟨trivial, fun b => rfl⟩

theorem neutral_obeys {α : Type} {p : Prog Port Port.Reply α} (h : p.Uses neutral) :
    p.Obeys (grammar call) .idle :=
  h.obeys (fun _ => asks_of_neutral) rfl

theorem call_obeys (deltaSecs : Int64) (call : Call) :
    (call.prog deltaSecs).Obeys (grammar call) .idle := by
  have hmap : ∀ {α : Type} {x : Service α} {f : α → CallOutcome},
      Settles call x .idle →
        Settles call (x >>= fun a => pure (f a)) .idle := by
    intro α x f hx
    refine meets_run_bind.mpr (meets_mono hx ?_)
    intro r q hq
    subst hq
    cases r with
    | error e => exact rfl
    | ok a => exact rfl
  have hoff : call.ports = offRampPort →
      (call.prog deltaSecs).Obeys (grammar call) .idle := by
    intro h
    refine neutral_obeys ((call_uses deltaSecs call).mono fun s hs => ?_)
    rw [h] at hs
    exact neutral_of_offRampPort hs
  cases call with
  | handleDeposit b a ben wal => exact hmap (handleDeposit_settles b a ben wal)
  | retryHeld b => exact hmap (retryHeld_settles rfl b)
  | retryAllHeld => exact hmap (retryAllHeld_settles rfl)
  | request user amount => exact hoff rfl
  | processPayout user seq => exact hoff rfl
  | confirm user seq => exact hoff rfl
  | reclaim user seq => exact hoff rfl
  | _ => exact neutral_obeys ((call_common _ _ rfl).mono fun s => neutral_of_common)

end Thbc.OnRamp
