import Thbc.Proofs.References
import Thbc.Proofs.Stored
import Thbc.System.Intake
import Thbc.System.World

/-!
# Wallets of stored rows

A wallet is checked where a deposit is observed, and a row that was there before
the column has the empty one. Such a row is issued to nobody as long as nothing
picks it up: `handle_deposit` issues to the wallet it has checked, and only
`retry_held` issues to the wallet of a row, which it does not look at. It picks up
the rows that are `screened`, so one of those with a blank wallet is enough.

The one thing that then keeps it from issuing is a sum that is no `BIGINT`: with
that much encumbered there is no reserve to judge by, and since nothing takes an
encumbered row out of the sum, there never is.
-/

namespace Thbc.Intake

open Thbc.Lib Thbc.Service

/-- Empty or only whitespace. -/
def Blank (wallet : String) : Prop := trim wallet = ""

/-- What the sum of `total_encumbered` adds up. -/
def owed (rows : List DepositRow) : ℤ :=
  ((rows.filter fun r => r.state ∈ ["encumbered", "disputed"]).map fun r =>
    r.amountMinor.toInt).sum

/-- A row that `retry_held` finds, reads and does not turn away. -/
structure Retryable [Sha256] (row : DepositRow) : Prop where
  screened : row.state = "screened"
  filed : ∃ b : BankRef, row.bankRefHash = b.hash.toHex
  readable : ∃ b, BankRef.new row.bankRef = .ok b

/-- What the constraints of the table admit. A `TEXT` has no NUL. -/
structure Admitted (rows : List DepositRow) : Prop where
  nodup : (rows.map DepositRow.bankRefHash).Nodup
  checks : ∀ row ∈ rows, PgDepositRepository.deposits.violated row = none
  text : ∀ row ∈ rows, NulFree row.bankRef ∧ NulFree row.beneficiary ∧
    NulFree row.beneficiaryWallet

/-! ## What the statements do to the table -/

/-- The row as `update` leaves it. -/
def touched [Sha256] (d : Deposit) (r : DepositRow) : DepositRow :=
  if r.bankRefHash = d.nullifier.toHex then
    { r with amountMinor := d.amount.minor.toInt64, state := d.state.asStr } else r

section Statements

variable [Sha256] {rows rows' : List DepositRow} {d : Deposit}

theorem replies_insert {r : PortResult Unit} (h : Replies (.insert d) rows r rows') :
    (rows' = rows ∧ r ≠ .ok ()) ∨
      (d.amount.toNat < 2 ^ 63 ∧ (∀ row ∈ rows, row.bankRefHash ≠ d.nullifier.toHex) ∧
        rows' = rows ++ [.of d]) := by
  have hcall : ∀ {r rows'}, PgDepositRepository.insert rows d = (r, rows') →
      (rows' = rows ∧ r ≠ .ok ()) ∨
        (d.amount.toNat < 2 ^ 63 ∧
          (∀ row ∈ rows, row.bankRefHash ≠ d.nullifier.toHex) ∧
          rows' = rows ++ [.of d]) := by
    intro r rows' h
    obtain ⟨e, -, rfl, rfl⟩ | ⟨-, rfl⟩ := execute_cases h
    · exact .inl ⟨rfl, fun he => by cases he⟩
    · exact .inr (PgDepositRepository.insert_ok h)
  obtain ⟨tie, h | ⟨e, rfl, rfl | rfl⟩⟩ := h
  · exact hcall h
  · exact .inl ⟨rfl, fun he => by cases he⟩
  · exact (hcall (Prod.mk.eta).symm).imp (fun h => ⟨h.1, fun he => by cases he⟩) id

theorem replies_update {r : PortResult Unit} (h : Replies (.update d) rows r rows') :
    rows' = rows ∨ d.amount.toNat < 2 ^ 63 ∧ rows' = rows.map (touched d) := by
  have hcall : ∀ {r rows'}, PgDepositRepository.update rows d = (r, rows') →
      rows' = rows ∨ d.amount.toNat < 2 ^ 63 ∧ rows' = rows.map (touched d) := by
    intro r rows' h
    obtain ⟨hsame, -⟩ | ⟨hlt, hrows, -⟩ := PgDepositRepository.update_cases h
    · exact .inl hsame
    · exact .inr ⟨hlt, hrows⟩
  obtain ⟨tie, h | ⟨e, rfl, rfl | rfl⟩⟩ := h
  · exact hcall h
  · exact .inl rfl
  · exact hcall (Prod.mk.eta).symm

theorem replies_find {n : BankRefHash} {r : PortResult (Option Deposit)}
    (h : Replies (.find n) rows r rows') :
    rows' = rows ∧ ∀ d, r = .ok (some d) →
      ∃ row ∈ rows, row.bankRefHash = n.toHex ∧
        PgDepositRepository.rowToDeposit row = .ok d := by
  obtain ⟨tie, h | ⟨e, rfl, rfl | rfl⟩⟩ := h
  · obtain ⟨hr, rfl⟩ := Prod.mk.inj h
    exact ⟨rfl, fun d hd => PgDepositRepository.find_some (hr.trans hd)⟩
  · exact ⟨rfl, fun d hd => by cases hd⟩
  · exact ⟨rfl, fun d hd => by cases hd⟩

theorem replies_held {r : PortResult (List Deposit)} (h : Replies .held rows r rows') :
    rows' = rows := by
  obtain ⟨tie, h | ⟨e, rfl, rfl | rfl⟩⟩ := h
  · exact (Prod.mk.inj h).2.symm
  · rfl
  · rfl

/-- A total is answered only where the sum is a `BIGINT`. -/
theorem replies_totalEncumbered {r : PortResult Thb}
    (h : Replies .totalEncumbered rows r rows') :
    rows' = rows ∧ ∀ t, r = .ok t → owed rows < 2 ^ 63 := by
  obtain ⟨tie, h | ⟨e, rfl, rfl | rfl⟩⟩ := h
  · obtain ⟨rfl, rfl⟩ := Prod.mk.inj h
    refine ⟨rfl, fun t ht => ?_⟩
    unfold PgDepositRepository.totalEncumbered PgDepositRepository.total at ht
    simp only [bind_ok, query_eq_ok] at ht
    obtain ⟨v, hv, -⟩ := ht
    unfold sumBigint toBigint at hv
    split at hv
    · next hrange => exact hrange.2
    · cases hv
  · exact ⟨rfl, fun t ht => by cases ht⟩
  · exact ⟨rfl, fun t ht => by cases ht⟩

end Statements

/-! ## What holds of the table -/

/-- No amount is negative, so what is left out of a sum makes it no larger. -/
def Counted (rows : List DepositRow) : Prop := ∀ row ∈ rows, 0 ≤ row.amountMinor.toInt

def Safe [Sha256] (rows : List DepositRow) : Prop :=
  ∀ row ∈ rows, Retryable row → ¬ Blank row.beneficiaryWallet

/-- Between two calls. -/
structure Sound [Sha256] (rows : List DepositRow) : Prop where
  counted : Counted rows
  safe : 2 ^ 63 ≤ owed rows ∨ Safe rows

/-- While a call handles the deposit that it has filed under `k`. The sum of the
other rows is what it cannot change. -/
structure Handling [Sha256] (k : String) (rows : List DepositRow) : Prop where
  counted : Counted rows
  safe : 2 ^ 63 ≤ owed (rows.filter fun r => r.bankRefHash ≠ k) ∨ Safe rows
  own : ∀ row ∈ rows, row.bankRefHash = k → ¬ Blank row.beneficiaryWallet

theorem owed_filter_le {rows : List DepositRow} (h : Counted rows) (p : DepositRow → Bool) :
    owed (rows.filter p) ≤ owed rows := by
  refine List.Sublist.sum_le_sum ((List.filter_sublist.filter _).map _) ?_
  intro n hn
  obtain ⟨row, hrow, rfl⟩ := List.mem_map.mp hn
  exact h row (List.mem_of_mem_filter hrow)

theorem toInt_nonneg {amount : Thb} (h : amount.toNat < 2 ^ 63) :
    0 ≤ amount.minor.toInt64.toInt := by
  rw [toInt_toInt64 h]
  exact Int.natCast_nonneg _

section Table

variable [Sha256] {rows : List DepositRow} {d : Deposit} {k : String}

theorem Handling.sound (h : Handling k rows) : Sound rows where
  counted := h.counted
  safe := h.safe.imp_left fun hle => Int.le_trans hle (owed_filter_le h.counted _)

/-- A new row is the call's own. -/
theorem Sound.append (h : Sound rows) (hlt : d.amount.toNat < 2 ^ 63)
    (hfree : ∀ row ∈ rows, row.bankRefHash ≠ d.nullifier.toHex)
    (hwallet : ¬ Blank d.beneficiaryWallet) :
    Handling d.nullifier.toHex (rows ++ [.of d]) where
  counted := by
    intro row hrow
    obtain hrow | hrow := List.mem_append.mp hrow
    · exact h.counted row hrow
    · obtain rfl := List.mem_singleton.mp hrow
      exact toInt_nonneg hlt
  safe := by
    refine h.safe.imp (fun hle => ?_) fun hsafe row hrow hretry => ?_
    · have hrest : (rows ++ [DepositRow.of d]).filter
          (fun r => r.bankRefHash ≠ d.nullifier.toHex) = rows := by
        rw [List.filter_append, List.filter_eq_self.mpr fun r hr => by simpa using hfree r hr]
        simp [DepositRow.of]
      rwa [hrest]
    · obtain hrow | hrow := List.mem_append.mp hrow
      · exact hsafe row hrow hretry
      · obtain rfl := List.mem_singleton.mp hrow
        exact hwallet
  own := by
    intro row hrow hkey
    obtain hrow | hrow := List.mem_append.mp hrow
    · exact absurd hkey (hfree row hrow)
    · obtain rfl := List.mem_singleton.mp hrow
      exact hwallet

theorem Counted.touched (h : Counted rows) (hlt : d.amount.toNat < 2 ^ 63) :
    Counted (rows.map (touched d)) := by
  intro row hrow
  obtain ⟨r, hr, rfl⟩ := List.mem_map.mp hrow
  unfold Intake.touched
  split
  · exact toInt_nonneg hlt
  · exact h r hr

/-- The rows under another key are not touched. -/
theorem filter_touched : (rows.map (touched d)).filter
      (fun r => r.bankRefHash ≠ d.nullifier.toHex) =
    rows.filter fun r => r.bankRefHash ≠ d.nullifier.toHex := by
  induction rows with
  | nil => rfl
  | cons r rows ih =>
      rw [List.map_cons, List.filter_cons, List.filter_cons, ih, touched]
      by_cases hkey : r.bankRefHash = d.nullifier.toHex
      · simp [hkey]
      · simp [hkey]

/-- The call's own row may take any state. -/
theorem Handling.touched (h : Handling d.nullifier.toHex rows)
    (hlt : d.amount.toNat < 2 ^ 63) :
    Handling d.nullifier.toHex (rows.map (touched d)) := by
  have hown : ∀ row ∈ rows.map (Intake.touched d), row.bankRefHash = d.nullifier.toHex →
      ¬ Blank row.beneficiaryWallet := by
    intro row hrow hkey
    obtain ⟨r, hr, rfl⟩ := List.mem_map.mp hrow
    unfold Intake.touched at hkey ⊢
    split
    · next hk => exact h.own r hr hk
    · next hk =>
        rw [if_neg hk] at hkey
        exact absurd hkey hk
  refine ⟨h.counted.touched hlt, h.safe.imp (fun hle => ?_) fun hsafe row hrow hretry => ?_,
    hown⟩
  · rwa [filter_touched]
  · by_cases hkey : row.bankRefHash = d.nullifier.toHex
    · exact hown row hrow hkey
    · have hmem : row ∈ (rows.map (Intake.touched d)).filter
          fun r => r.bankRefHash ≠ d.nullifier.toHex :=
        List.mem_filter.mpr ⟨hrow, by simpa using hkey⟩
      rw [filter_touched] at hmem
      exact hsafe row (List.mem_of_mem_filter hmem) hretry

/-- Nothing becomes retryable but by a state of `screened`. -/
theorem Safe.touched (h : Safe rows) (hstate : d.state ≠ .screened) :
    Safe (rows.map (touched d)) := by
  intro row hrow hretry
  obtain ⟨r, hr, rfl⟩ := List.mem_map.mp hrow
  unfold Intake.touched at hretry ⊢
  split at hretry
  · exact absurd (DepositState.asStr_inj hretry.screened) hstate
  · next hk =>
      rw [if_neg hk]
      exact h r hr hretry

end Table

/-! ## The calls -/

section Walk

variable [Sha256] {w : State} {d : Deposit}

/-- No wallet that was issued to is blank, and the table is sound. -/
structure Unblemished (w : State) : Prop where
  sound : Sound w.rows
  wallets : ∀ wallet ∈ w.wallets, ¬ Blank wallet

/-- There is a reserve only where the sum can be had. -/
theorem meets_effectiveReserve {Q : PortResult ReserveState → State → Prop}
    (herr : ∀ e, Q (.error e) w) (hok : ∀ state, owed w.rows < 2 ^ 63 → Q (.ok state) w) :
    IssuanceService.effectiveReserve.run.Meets (Handler.arena exec) Q w := by
  refine meets_run_bind.mpr (meets_snapshot fun r => ?_)
  cases r with
  | error e => exact herr e
  | ok s =>
      refine meets_run_bind.mpr (meets_deposits fun r rows' hr => ?_)
      obtain ⟨rfl, hsum⟩ := replies_totalEncumbered hr
      cases r with
      | error e => exact herr e
      | ok t => exact hok _ (hsum t rfl)

/-- A deposit is written in a state other than `screened`. -/
theorem meets_update {Q : PortResult Unit → State → Prop} (hcounted : Counted w.rows)
    (hsafe : Safe w.rows) (hstate : d.state ≠ .screened)
    (h : ∀ r rows', Counted rows' → Safe rows' → Q r { w with rows := rows' }) :
    (deposits (.update d)).run.Meets (Handler.arena exec) Q w := by
  refine meets_deposits fun r rows' hr => ?_
  obtain rfl | ⟨hlt, rfl⟩ := replies_update hr
  · exact h r _ hcounted hsafe
  · exact h r _ (hcounted.touched hlt) (hsafe.touched hstate)

theorem retryHeld_keeps (bankRef : BankRef) (h : Unblemished w) :
    (IssuanceService.retryHeld bankRef).run.Meets (Handler.arena exec)
      (fun _ w' => Unblemished w') w := by
  refine meets_run_bind.mpr (meets_deposits fun r rows' hr => ?_)
  obtain ⟨rfl, hfind⟩ := replies_find hr
  cases r with
  | error e => exact h
  | ok found =>
    cases found with
    | none => exact h
    | some d =>
      obtain ⟨row, hmem, hkey, hread⟩ := hfind d rfl
      obtain ⟨href, -, -, hwallet, hstate, -⟩ := PgDepositRepository.rowToDeposit_ok.mp hread
      refine meets_some.mpr ?_
      split
      · exact h
      · next hscreened =>
        have hd : d.state = .screened := not_not.mp hscreened
        refine meets_run_bind.mpr (meets_clock fun now => ?_)
        refine meets_run_bind.mpr (meets_effectiveReserve (fun e => h) fun state hsum => ?_)
        have hsafe : Safe w.rows := h.sound.safe.resolve_left (Int.not_le.mpr hsum)
        have hissue : ¬ Blank d.beneficiaryWallet := by
          rw [← hwallet]
          exact hsafe row hmem ⟨by rw [hstate, hd]; rfl, ⟨bankRef, hkey⟩, ⟨_, href⟩⟩
        dsimp only
        split
        · exact h
        · rw [Deposit.markAttested_ok.mpr ⟨hd, rfl⟩]
          refine meets_core_ok.mpr (meets_run_bind.mpr ?_)
          refine meets_update h.sound.counted hsafe nofun fun r rows₁ hc₁ hs₁ => ?_
          have hsound₁ : Sound rows₁ := ⟨hc₁, .inr hs₁⟩
          cases r with
          | error e => exact ⟨hsound₁, h.wallets⟩
          | ok u =>
              refine meets_run_bind.mpr (meets_issue fun r => ?_)
              have hw : ∀ wallet ∈ d.beneficiaryWallet :: w.wallets, ¬ Blank wallet :=
                List.forall_mem_cons.mpr ⟨hissue, h.wallets⟩
              cases r with
              | error e => exact ⟨hsound₁, hw⟩
              | ok outcome =>
                  dsimp only
                  split
                  · rw [Deposit.markIssued_ok.mpr ⟨rfl, rfl⟩]
                    refine meets_core_ok.mpr (meets_run_bind.mpr ?_)
                    refine meets_update hc₁ hs₁ nofun fun r rows₂ hc₂ hs₂ => ?_
                    cases r with
                    | error e => exact ⟨⟨hc₂, .inr hs₂⟩, hw⟩
                    | ok u => exact ⟨⟨hc₂, .inr hs₂⟩, hw⟩
                  · exact ⟨hsound₁, hw⟩

/-- After the screen. From the gate on the table is safe, since there is a
reserve. -/
theorem attestAndIssue_keeps {amount : Thb} {wallet : String} {nullifier : BankRefHash}
    {now : Int64} (hd : d.state = .screened) (hwallet : ¬ Blank wallet)
    (h : Handling d.nullifier.toHex w.rows) (hw : ∀ x ∈ w.wallets, ¬ Blank x) :
    (IssuanceService.attestAndIssue d amount wallet nullifier now).run.Meets
      (Handler.arena exec) (fun _ w' => Unblemished w') w := by
  have hold : Unblemished w := ⟨h.sound, hw⟩
  refine meets_run_bind.mpr (meets_effectiveReserve (fun e => hold) fun state hsum => ?_)
  have hsafe : Safe w.rows := h.sound.safe.resolve_left (Int.not_le.mpr hsum)
  dsimp only
  split
  · exact hold
  · rw [Deposit.markAttested_ok.mpr ⟨hd, rfl⟩]
    refine meets_core_ok.mpr (meets_run_bind.mpr ?_)
    refine meets_update h.counted hsafe nofun fun r rows₁ hc₁ hs₁ => ?_
    have hsound₁ : Sound rows₁ := ⟨hc₁, .inr hs₁⟩
    cases r with
    | error e => exact ⟨hsound₁, hw⟩
    | ok u =>
        refine meets_run_bind.mpr (meets_issue fun r => ?_)
        have hw' : ∀ x ∈ wallet :: w.wallets, ¬ Blank x :=
          List.forall_mem_cons.mpr ⟨hwallet, hw⟩
        cases r with
        | error e => exact ⟨hsound₁, hw'⟩
        | ok outcome =>
            cases outcome with
            | submitted => exact ⟨hsound₁, hw'⟩
            | failed => exact ⟨hsound₁, hw'⟩
            | confirmed =>
                dsimp only
                rw [Deposit.markIssued_ok.mpr ⟨rfl, rfl⟩]
                refine meets_core_ok.mpr (meets_run_bind.mpr ?_)
                refine meets_update hc₁ hs₁ nofun fun r rows₂ hc₂ hs₂ => ?_
                cases r with
                | error e => exact ⟨⟨hc₂, .inr hs₂⟩, hw'⟩
                | ok u => exact ⟨⟨hc₂, .inr hs₂⟩, hw'⟩

/-- The update of the call's own row. -/
theorem meets_own {Q : PortResult Unit → State → Prop}
    (hown : Handling d.nullifier.toHex w.rows)
    (h : ∀ r rows', Handling d.nullifier.toHex rows' → Q r { w with rows := rows' }) :
    (deposits (.update d)).run.Meets (Handler.arena exec) Q w := by
  refine meets_deposits fun r rows' hr => ?_
  obtain rfl | ⟨hlt, rfl⟩ := replies_update hr
  · exact h r _ hown
  · exact h r _ (hown.touched hlt)

theorem screenAndIssue_keeps {amount : Thb} {beneficiary wallet : String}
    {nullifier : BankRefHash} {now : Int64} (hd : d.state = .observed)
    (hwallet : ¬ Blank wallet) (h : Handling d.nullifier.toHex w.rows)
    (hw : ∀ x ∈ w.wallets, ¬ Blank x) :
    (IssuanceService.screenAndIssue d amount beneficiary wallet nullifier now).run.Meets
      (Handler.arena exec) (fun _ w' => Unblemished w') w := by
  refine meets_run_bind.mpr (meets_compliance fun r => ?_)
  cases r with
  | error e => exact ⟨h.sound, hw⟩
  | ok outcome =>
      dsimp only
      rw [Deposit.screen_ok.mpr ⟨hd, rfl⟩]
      refine meets_core_ok.mpr ?_
      cases outcome with
      | fail =>
          refine meets_run_bind.mpr (meets_own h fun r rows₁ h₁ => ?_)
          cases r with
          | error e => exact ⟨h₁.sound, hw⟩
          | ok u => exact ⟨h₁.sound, hw⟩
      | pass =>
          refine meets_run_bind.mpr (meets_own h fun r rows₁ h₁ => ?_)
          cases r with
          | error e => exact ⟨h₁.sound, hw⟩
          | ok u => exact attestAndIssue_keeps rfl hwallet h₁ hw

theorem handleDeposit_keeps (bankRef : BankRef) (amount : Thb)
    (beneficiary wallet : String) (h : Unblemished w) :
    (IssuanceService.handleDeposit bankRef amount beneficiary wallet).run.Meets
      (Handler.arena exec) (fun _ w' => Unblemished w') w := by
  refine meets_run_bind.mpr (meets_clock fun now => ?_)
  dsimp only
  cases hobs : Deposit.observe bankRef amount beneficiary wallet now with
  | error e => exact h
  | ok d =>
      obtain ⟨-, hwallet, rfl⟩ := Deposit.observe_ok.mp hobs
      refine meets_core_ok.mpr (meets_run_bind.mpr (meets_attempt.mpr ?_))
      refine meets_deposits fun r rows' hr => ?_
      have hrows : Sound rows' ∧ (r = .ok () → Handling bankRef.hash.toHex rows') := by
        obtain ⟨rfl, hne⟩ | ⟨hlt, hfree, rfl⟩ := replies_insert hr
        · exact ⟨h.sound, fun hok => absurd hok hne⟩
        · have hown := h.sound.append hlt hfree hwallet
          exact ⟨hown.sound, fun _ => hown⟩
      cases r with
      | ok u => exact screenAndIssue_keeps rfl hwallet (hrows.2 rfl) h.wallets
      | error e =>
          have hend : Unblemished { w with rows := rows' } := ⟨hrows.1, h.wallets⟩
          cases e with
          | conflict text =>
              refine meets_run_bind.mpr (meets_deposits fun r rows₁ hr => ?_)
              obtain ⟨rfl, -⟩ := replies_find hr
              cases r with
              | error e => exact hend
              | ok found => exact hend
          | transient text => exact hend
          | rejected text => exact hend
          | unsupported text => exact hend
          | notFound => exact hend
          | domain e => exact hend

theorem retryEach_keeps (held : List Deposit) (issued : ℕ) (h : Unblemished w) :
    (IssuanceService.retryEach held issued).run.Meets (Handler.arena exec)
      (fun _ w' => Unblemished w') w := by
  induction held generalizing issued w with
  | nil => exact h
  | cons d rest ih =>
      refine meets_run_bind.mpr (meets_attempt.mpr ?_)
      refine meets_mono (retryHeld_keeps d.bankRef h) fun r w' h' => ?_
      cases r with
      | error e => exact ih issued h'
      | ok outcome =>
          cases outcome with
          | issued amount => exact ih (issued + 1) h'
          | alreadyIssued => exact ih issued h'
          | encumbered amount reason => exact ih issued h'
          | held reason => exact ih issued h'

theorem retryAllHeld_keeps (h : Unblemished w) :
    IssuanceService.retryAllHeld.run.Meets (Handler.arena exec)
      (fun _ w' => Unblemished w') w := by
  refine meets_run_bind.mpr (meets_deposits fun r rows' hr => ?_)
  obtain rfl := replies_held hr
  cases r with
  | error e => exact h
  | ok held =>
      dsimp only
      split
      · exact h
      · refine meets_run_bind.mpr (meets_mono (retryEach_keeps held 0 h) fun r w' h' => ?_)
        cases r with
        | error e => exact h'
        | ok issued => exact h'

/-- Every call keeps it. -/
theorem Unblemished.apply (h : Unblemished w) (call : Call) (es : ℕ → Conditions) :
    Unblemished (call.apply es w) := by
  cases call with
  | handleDeposit bankRef amount beneficiary wallet =>
      exact meets_run (handleDeposit_keeps bankRef amount beneficiary wallet h) es
  | retryHeld bankRef => exact meets_run (retryHeld_keeps bankRef h) es
  | retryAllHeld => exact meets_run (retryAllHeld_keeps h) es

end Walk

/-! ## How a blank wallet is issued to -/

/-- A moment with a reserve for everything, at which no issuance goes through. -/
def ample : Conditions where
  answer
    | .clock => 0
    | .ledger .snapshot =>
        .ok ⟨⟨⟨⟨18446744073709551615⟩, 0, 0⟩, .zero, .zero⟩, ⟨.zero, .zero⟩,
          ⟨0, 0, false⟩, none⟩
    | .ledger _ => .error .notFound
    | .deposits _ => .error .notFound
    | .redemptions _ => .error .notFound
    | .compliance _ => .error .notFound
    | .payouts _ => .error .notFound
    | .history _ => .error .notFound
    | .simulator _ => .error .notFound
  tie _ := 0
  fault := none

theorem nulFree_normalise {s : String} (h : NulFree s) : NulFree (normalise s) := by
  intro hmem
  rw [normalise, toAsciiUppercase, String.toList_ofList, List.mem_map] at hmem
  obtain ⟨c, hc, hupper⟩ := hmem
  have hc0 : c = Char.ofNat 0 := by
    have hnat := congrArg Char.toNat hupper
    have h0 : (Char.ofNat 0).toNat = 0 := rfl
    rw [toNat_toUpper, h0] at hnat
    rw [← char_toNat_inj, h0]
    split at hnat <;> omega
  rw [trim, String.toList_ofList] at hc
  have hdrop : c ∈ s.toList.dropWhile isWhitespace :=
    (List.rdropWhile_prefix _ _).subset hc
  have hmem : c ∈ s.toList := (List.dropWhile_suffix _).subset hdrop
  exact h (hc0 ▸ hmem)

/-- Rows that are observed do not count. -/
theorem totalEncumbered_append {rows rest : List DepositRow}
    (hrest : ∀ r ∈ rest, r.state = "observed") :
    PgDepositRepository.totalEncumbered (rows ++ rest) =
      PgDepositRepository.totalEncumbered rows := by
  have hnil : rest.filter (fun r => r.state ∈ ["encumbered", "disputed"]) = [] := by
    refine List.filter_eq_nil_iff.mpr fun r hr => ?_
    rw [hrest r hr]
    decide
  unfold PgDepositRepository.totalEncumbered PgDepositRepository.total
  rw [List.filter_append, hnil, List.append_nil]

theorem totalEncumbered_of_lt {rows : List DepositRow} (hcounted : Counted rows)
    (hlt : owed rows < 2 ^ 63) :
    ∃ t : Thb, PgDepositRepository.totalEncumbered rows = .ok t ∧ t.toNat < 2 ^ 63 := by
  have hpos : 0 ≤ owed rows := by
    refine List.sum_nonneg fun n hn => ?_
    obtain ⟨row, hrow, rfl⟩ := List.mem_map.mp hn
    exact hcounted row (List.mem_of_mem_filter hrow)
  obtain ⟨v, hv, hint⟩ := toBigint_of_le (Int.le_trans (by decide) hpos) hlt
  obtain ⟨t, ht, hnat⟩ := fromI64_toInt (v := v) (n := (owed rows).toNat) (by omega)
  refine ⟨t, ?_, by omega⟩
  unfold PgDepositRepository.totalEncumbered PgDepositRepository.total
  show query (toBigint (owed rows)) >>= fromI64 = _
  rw [hv]
  exact ht

section Ample

variable [Sha256] {rows rest : List DepositRow} {d : Deposit} {w : State}

/-- Under fixed conditions a port call has one outcome. -/
theorem meets_ample {s : Port} {Q : s.Reply → State → Prop}
    (h : Q (exec ample s w).1 (exec ample s w).2) :
    (Prog.call s).Meets (exec.arenaWhere fun _ c => c = ample) Q w := by
  refine meets_call_where.mpr fun c hc => ?_
  rw [hc]
  exact h

theorem along_ample {α : Type} (p : Prog Port Port.Reply α) (w : State) :
    p.Along exec (fun _ c => c = ample) (fun _ => ample) w := by
  refine Prog.along_of_forall (fun w n => ?_) p w
  rfl

/-- A storable deposit is filed, or its key is taken. -/
theorem insert_files (hd : d.Storable) (rows : List DepositRow) :
    (∃ e, PgDepositRepository.insert rows d = (.error e, rows) ∧
      ∃ row ∈ rows, row.bankRefHash = d.nullifier.toHex) ∨
    PgDepositRepository.insert rows d = (.ok (), rows ++ [.of d]) := by
  rw [hd.insert_eq]
  cases h : depositLayout.schema.insert (depositLayout.enc d) rows with
  | ok rows' =>
      obtain ⟨-, -, rfl⟩ := Schema.insert_ok.mp h
      exact .inr rfl
  | error e =>
      refine .inl ⟨_, rfl, ?_⟩
      by_contra hnone
      have hfree : ∀ row ∈ rows, depositLayout.schema.key row ≠ d.nullifier.toHex :=
        fun row hrow hkey => hnone ⟨row, hrow, hkey⟩
      have hok := Schema.insert_ok.mpr ⟨hd.checks, hfree, rfl⟩
      rw [hok] at h
      cases h

/-- A storable deposit is written where there is a row for it. -/
theorem update_writes (hd : d.Storable)
    (hrow : ∃ row ∈ rows, row.bankRefHash = d.nullifier.toHex) :
    ∃ rows', PgDepositRepository.update rows d = (.ok (), rows') := by
  obtain ⟨row, hmem, hkey⟩ := hrow
  let p : DepositRow → Bool := fun r =>
    depositLayout.schema.key r = depositLayout.col d.nullifier
  let f : DepositRow → DepositRow := fun r =>
    { r with amountMinor := d.amount.minor.toInt64, state := d.state.asStr }
  have hok : depositLayout.schema.update p f rows = .ok ((rows.filter p).length,
      rows.map fun r => if p r then f r else r) :=
    Schema.update_ok.mpr ⟨fun r _ _ => hd.checks, rfl, rfl⟩
  have hfound : (rows.filter p).length ≠ 0 :=
    List.length_pos_of_mem (List.mem_filter.mpr ⟨hmem, decide_eq_true hkey⟩) |>.ne'
  refine ⟨rows.map fun r => if p r then f r else r, ?_⟩
  rw [hd.update_eq]
  show executeFound rows (query (depositLayout.schema.update p f rows)) = _
  rw [hok]
  show (if (rows.filter p).length = 0 then _ else _, _) = _
  rw [if_neg hfound]

theorem meets_clock_ample {Q : PortResult Int64 → State → Prop} (h : Q (.ok 0) w) :
    clock.run.Meets (exec.arenaWhere fun _ c => c = ample) Q w := by
  refine Service.meets_clock.mpr ⟨trivial, fun b w' ⟨c, hc, heq⟩ => ?_⟩
  subst hc
  obtain ⟨rfl, rfl⟩ := Prod.mk.inj heq
  exact h

theorem meets_deposits_ample {m : DepositRepository} {r : PortResult m.Answer}
    {Q : PortResult m.Answer → State → Prop}
    (hcall : PgDepositRepository.call w.rows (fun _ => 0) m = (r, rows))
    (h : Q r { w with rows := rows }) :
    (deposits m).run.Meets (exec.arenaWhere fun _ c => c = ample) Q w := by
  refine meets_ample ?_
  have hexec : exec ample (.deposits m) w = (r, { w with rows := rows }) := by
    simp only [exec, ample, hcall]
  rw [hexec]
  exact h

theorem meets_effectiveReserve_ample {t : Thb} {Q : PortResult ReserveState → State → Prop}
    (htotal : PgDepositRepository.totalEncumbered w.rows = .ok t)
    (h : Q (.ok ⟨⟨⟨18446744073709551615⟩, 0, 0⟩, t, .zero⟩) w) :
    IssuanceService.effectiveReserve.run.Meets (exec.arenaWhere fun _ c => c = ample) Q w := by
  refine meets_run_bind.mpr (meets_ample ?_)
  exact meets_run_bind.mpr (meets_deposits_ample (Prod.ext htotal rfl) h)

/-- A deposit that gets no further than its row. -/
theorem handleDeposit_files {b : BankRef} (hb : NulFree b.text) (w : State) :
    (IssuanceService.handleDeposit b ⟨1⟩ "a" "a").run.Meets
      (exec.arenaWhere fun _ c => c = ample)
      (fun _ w' => ∃ rest, w'.rows = w.rows ++ rest ∧ (∀ r ∈ rest, r.state = "observed") ∧
        ∃ row ∈ w'.rows, row.bankRefHash = b.hash.toHex) w := by
  have hobs : Deposit.observe b ⟨1⟩ "a" "a" 0 = .ok ⟨b, ⟨1⟩, "a", "a", .observed, 0⟩ :=
    Deposit.observe_ok.mpr ⟨by decide, by decide, rfl⟩
  have ha : NulFree "a" := by decide
  have hd : (Deposit.mk b ⟨1⟩ "a" "a" .observed 0).Storable :=
    ⟨show 0 < 1 by decide, show 1 < 2 ^ 63 by decide, hb, ha, ha⟩
  refine meets_run_bind.mpr (meets_clock_ample ?_)
  dsimp only
  rw [hobs]
  refine meets_core_ok.mpr (meets_run_bind.mpr (meets_attempt.mpr ?_))
  obtain ⟨e, hins, hrow⟩ | hins := insert_files hd w.rows
  · refine meets_deposits_ample hins ?_
    have hend : ∃ rest, w.rows = w.rows ++ rest ∧ (∀ r ∈ rest, r.state = "observed") ∧
        ∃ row ∈ w.rows, row.bankRefHash = b.hash.toHex :=
      ⟨[], (List.append_nil _).symm, fun r hr => (by cases hr), hrow⟩
    cases e with
    | conflict text =>
        refine meets_run_bind.mpr (meets_deposits_ample rfl ?_)
        split
        · exact hend
        · exact hend
    | transient text => exact hend
    | rejected text => exact hend
    | unsupported text => exact hend
    | notFound => exact hend
    | domain e => exact hend
  · refine meets_deposits_ample hins (meets_run_bind.mpr (meets_ample ?_))
    refine ⟨[.of ⟨b, ⟨1⟩, "a", "a", .observed, 0⟩], rfl, ?_, ?_⟩
    · exact List.forall_mem_singleton.mpr rfl
    · exact ⟨_, List.mem_append_right _ List.mem_cons_self, rfl⟩

omit [Sha256] in
/-- The row is the one that its key finds. -/
theorem find_row {row : DepositRow} {n : BankRefHash}
    (hnodup : (rows.map DepositRow.bankRefHash).Nodup) (hrow : row ∈ rows)
    (hkey : row.bankRefHash = n.toHex) (hread : PgDepositRepository.rowToDeposit row = .ok d)
    (rest : List DepositRow) :
    PgDepositRepository.find (rows ++ rest) n = .ok (some d) := by
  have hmem : row ∈ rows.filter fun r => r.bankRefHash = n.toHex :=
    List.mem_filter.mpr ⟨hrow, decide_eq_true hkey⟩
  have hhead : ((rows ++ rest).filter fun r => r.bankRefHash = n.toHex).head? =
      some row := by
    rw [List.filter_append]
    cases hfilter : rows.filter fun r => r.bankRefHash = n.toHex with
    | nil =>
        rw [hfilter] at hmem
        cases hmem
    | cons r rs =>
        have hr : r ∈ rows.filter fun r => r.bankRefHash = n.toHex := by
          rw [hfilter]
          exact List.mem_cons_self
        obtain ⟨hr, hrkey⟩ := List.mem_filter.mp hr
        have heq : r = row := List.inj_on_of_nodup_map hnodup hr hrow
          ((of_decide_eq_true hrkey).trans hkey.symm)
        rw [heq]
        rfl
  unfold PgDepositRepository.find
  rw [toText_ok (nulFree_toHex n), query_ok]
  refine (pure_bind _ _).trans ?_
  rw [hhead]
  dsimp only
  rw [hread]
  rfl

omit [Sha256] in
theorem amountMinor_pos {row : DepositRow}
    (h : PgDepositRepository.deposits.violated row = none) : 0 < row.amountMinor.toInt := by
  have hcheck := of_decide_eq_true (Schema.checks_of_violated h List.mem_cons_self)
  exact Int64.lt_iff_toInt_lt.mp hcheck

/-- What is read of a row that can be retried. -/
theorem Retryable.read {row : DepositRow} (h : Retryable row)
    (hchecks : PgDepositRepository.deposits.violated row = none)
    (htext : NulFree row.bankRef ∧ NulFree row.beneficiary ∧ NulFree row.beneficiaryWallet) :
    ∃ d, PgDepositRepository.rowToDeposit row = .ok d ∧ d.state = .screened ∧
      d.beneficiaryWallet = row.beneficiaryWallet ∧ d.Storable := by
  obtain ⟨b, hb⟩ := h.readable
  have hpos := amountMinor_pos hchecks
  have hlt := row.amountMinor.toInt_lt
  obtain ⟨t, ht, hnat⟩ := fromI64_toInt (v := row.amountMinor)
    (n := row.amountMinor.toInt.toNat) (by omega)
  have hb' : NulFree b.text := by
    rw [BankRef.new_ok.mp hb]
    exact nulFree_normalise htext.1
  refine ⟨⟨b, t, row.beneficiary, row.beneficiaryWallet, .screened, row.observedAt⟩,
    PgDepositRepository.rowToDeposit_ok.mpr ⟨hb, ht, rfl, rfl, h.screened, rfl⟩, rfl, rfl,
    ?_, ?_, hb', htext.2.1, htext.2.2⟩
  · show 0 < t.toNat
    omega
  · show t.toNat < 2 ^ 63
    omega

/-- A retry of a blank row, with a reserve that suffices and a row to update. -/
theorem retryHeld_issues {b : BankRef} {t : Thb} (hd : d.Storable)
    (hstate : d.state = .screened) (hblank : Blank d.beneficiaryWallet)
    (hfind : PgDepositRepository.find w.rows b.hash = .ok (some d))
    (htotal : PgDepositRepository.totalEncumbered w.rows = .ok t) (ht : t.toNat < 2 ^ 63)
    (hfiled : ∃ row ∈ w.rows, row.bankRefHash = d.nullifier.toHex) :
    (IssuanceService.retryHeld b).run.Meets (exec.arenaWhere fun _ c => c = ample)
      (fun _ w' => ∃ wallet ∈ w'.wallets, Blank wallet) w := by
  have hpos := hd.amount_pos
  have hlt := hd.amount_lt
  have hfresh : (Attestation.mk ⟨18446744073709551615⟩ 0 0).isFresh 0 = true := by decide
  have hgate : ∃ v, (ReserveState.mk ⟨⟨18446744073709551615⟩, 0, 0⟩ t .zero).checkIssuance
      d.amount 0 = .ok v := by
    refine ReserveState.checkIssuance_accepts.mpr ⟨hfresh, hpos, ?_⟩
    rw [ReserveState.toNat_headroom, ReserveState.toNat_freeBacking]
    show d.amount.toNat ≤ 18446744073709551615 - t.toNat - 0
    omega
  obtain ⟨v, hv⟩ := hgate
  have hwrites : ∃ rows', PgDepositRepository.update w.rows { d with state := .attested } =
      (.ok (), rows') :=
    update_writes ⟨hpos, hlt, hd.bankRef, hd.beneficiary, hd.beneficiaryWallet⟩ hfiled
  obtain ⟨rows', hwrites⟩ := hwrites
  refine meets_run_bind.mpr (meets_deposits_ample (Prod.ext hfind rfl) ?_)
  refine meets_some.mpr ?_
  rw [if_neg (not_not.mpr hstate)]
  refine meets_run_bind.mpr (meets_clock_ample ?_)
  refine meets_run_bind.mpr (meets_effectiveReserve_ample htotal ?_)
  dsimp only
  rw [hv, Deposit.markAttested_ok.mpr ⟨hstate, rfl⟩]
  refine meets_core_ok.mpr (meets_run_bind.mpr (meets_deposits_ample hwrites ?_))
  exact meets_run_bind.mpr (meets_ample ⟨_, List.mem_cons_self, hblank⟩)

/-- A deposit under the reference of the row, so that there is a row to update, and
the retry. -/
theorem blank_issued {row : DepositRow} (hrows : Admitted rows) (howed : owed rows < 2 ^ 63)
    (hrow : row ∈ rows) (hretry : Retryable row) (hblank : Blank row.beneficiaryWallet) :
    ∃ calls, ∃ wallet ∈ (runCalls ⟨rows, []⟩ calls).wallets, Blank wallet := by
  have hcounted : Counted rows := fun r hr =>
    Int.le_of_lt (amountMinor_pos (hrows.checks r hr))
  obtain ⟨b, hkey⟩ := hretry.filed
  obtain ⟨d, hread, hstate, hwallet, hd⟩ :=
    hretry.read (hrows.checks row hrow) (hrows.text row hrow)
  obtain ⟨rest, happend, hobserved, hfiled⟩ := meets_run_along
    (handleDeposit_files hd.bankRef ⟨rows, []⟩) (along_ample _ _)
  obtain ⟨t, htotal, ht⟩ := totalEncumbered_of_lt hcounted howed
  rw [← totalEncumbered_append hobserved, ← happend] at htotal
  have hfind := find_row hrows.nodup hrow hkey hread rest
  rw [← happend] at hfind
  refine ⟨[(.handleDeposit d.bankRef ⟨1⟩ "a" "a", fun _ => ample),
    (.retryHeld b, fun _ => ample)], ?_⟩
  exact meets_run_along
    (retryHeld_issues hd hstate (hwallet ▸ hblank) hfind htotal ht hfiled) (along_ample _ _)

end Ample

/-- No wallet issued to is ever blank exactly where no blank row can be retried, or
where the sum is out of reach. -/
theorem never_blank_iff [Sha256] {rows : List DepositRow} (hrows : Admitted rows) :
    (∀ calls, ∀ wallet ∈ (runCalls ⟨rows, []⟩ calls).wallets, ¬ Blank wallet) ↔
      2 ^ 63 ≤ owed rows ∨ ∀ row ∈ rows, Retryable row → ¬ Blank row.beneficiaryWallet := by
  constructor
  · intro h
    by_cases howed : 2 ^ 63 ≤ owed rows
    · exact .inl howed
    · refine .inr fun row hrow hretry hblank => ?_
      obtain ⟨calls, wallet, hmem, hwallet⟩ :=
        blank_issued hrows (Int.not_le.mp howed) hrow hretry hblank
      exact h calls wallet hmem hwallet
  · intro h calls
    have hstart : Unblemished ⟨rows, []⟩ := by
      refine ⟨⟨fun r hr => ?_, h⟩, fun wallet hwallet => by cases hwallet⟩
      exact Int.le_of_lt (amountMinor_pos (hrows.checks r hr))
    exact (runCalls_induct (fun call es w hw => hw.apply call es) hstart).wallets

open Sample

/-- A deposit that was screened before there was a wallet to it. -/
def backfilled : DepositRow :=
  ⟨scb1.hash.toHex, "SCB-1", 100, "alice", "", "screened", 0⟩

theorem admitted_backfilled : Admitted [backfilled] where
  nodup := List.nodup_singleton _
  checks := List.forall_mem_singleton.mpr (by decide)
  text := List.forall_mem_singleton.mpr (by decide)

/-- With such a deposit the law is broken by some calls. -/
theorem never_blank_iff_backfilled :
    ¬ ∀ calls, ∀ wallet ∈ (runCalls ⟨[backfilled], []⟩ calls).wallets, ¬ Blank wallet := by
  rw [never_blank_iff admitted_backfilled]
  rintro (howed | hsafe)
  · exact absurd howed (by decide)
  · refine hsafe backfilled List.mem_cons_self ⟨rfl, ⟨scb1, rfl⟩, ⟨scb1, by decide⟩⟩ ?_
    show trim "" = ""
    decide

/-- One retry is enough. -/
theorem blank_wallet_issued :
    Admitted [backfilled] ∧
      (runCalls ⟨[backfilled], []⟩ [(.retryHeld scb1, fun _ => ample)]).wallets = [""] ∧
      Blank "" := by
  refine ⟨admitted_backfilled, by decide, ?_⟩
  show trim "" = ""
  decide

end Thbc.Intake
