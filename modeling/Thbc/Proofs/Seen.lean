import Thbc.System.Server
import Thbc.Proofs.Backed
import Thbc.Proofs.References

/-!
# What has been read

Whatever a run of the server has read of a deposit or a redemption was true: of the
states that the row went through, the ledger and the compliance provider have answered
so. What a sweep has listed is past Δ besides. All of it holds from empty tables on,
since the rows are backed.
-/

namespace Thbc.Server

open Thbc.Lib Thbc.Service Thbc.Durable

/-! ## Deposits and redemptions -/

section Seen

variable [Sha256]

/-- What calls have read of deposits was true. -/
structure Seen (w : State) : Prop where
  undisputed : ∀ row ∈ w.1.deposits, row.state ≠ DepositState.disputed.asStr
  found : ∀ n d, ⟨.deposits (.find n), .ok (some d)⟩ ∈ w.2 →
    d.nullifier = n ∧ d.state ≠ .disputed ∧ Claims w.2 d

/-- No call disputes a deposit. -/
theorem update_undisputed {call : Call} {q : OnRamp.Phase} {d : Deposit}
    (hasks : (OnRamp.grammar call).asks q (.deposits (.update d))) : d.state ≠ .disputed := by
  cases q with
  | idle => exact hasks.elim
  | fresh d' verdict =>
      cases verdict with
      | none => cases hasks
      | some o =>
          obtain rfl | hasks : _ = _ := hasks
          cases o with
          | pass => exact DepositState.noConfusion
          | fail => exact DepositState.noConfusion
  | passed d' gate =>
      cases gate with
      | cleared =>
          obtain rfl | hasks : _ = _ := hasks
          exact DepositState.noConfusion
      | minted =>
          obtain rfl | hasks : _ = _ := hasks
          exact DepositState.noConfusion
      | _ => cases hasks

theorem Seen.step {call : Call} {q : OnRamp.Phase} {s : Port} {w : State} {e : Conditions}
    (hI : Filed w.1.deposits ∧ ∀ row ∈ w.1.deposits, Backed w.2 row) (h : Seen w)
    (hasks : (OnRamp.grammar call).asks q s) : Seen (Durable.exec.logged e s w).2 := by
  have hlater : ∀ n d, ⟨.deposits (.find n), .ok (some d)⟩ ∈ w.2 →
      d.nullifier = n ∧ d.state ≠ .disputed ∧ Claims (⟨s, (Durable.exec e s w.1).1⟩ :: w.2) d := by
    intro n d hmem
    obtain ⟨hn, hd, hclaims⟩ := h.found n d hmem
    exact ⟨hn, hd, hclaims.mono (List.subset_cons_self _ _)⟩
  refine ⟨?_, fun n d hmem => ?_⟩
  · -- Whatever is written has another state.
    cases s with
    | deposits m =>
        obtain ⟨r, rows', hx, hr⟩ := exec_deposits e m w.1
        show ∀ row ∈ (Durable.exec e (.deposits m) w.1).2.deposits, _
        rw [hx]
        show ∀ row ∈ rows', _
        cases m with
        | insert d =>
            obtain ⟨rfl, -⟩ | ⟨-, -, rfl⟩ := Intake.replies_insert hr
            · exact h.undisputed
            · refine List.forall_mem_append.mpr ⟨h.undisputed, List.forall_mem_singleton.mpr ?_⟩
              intro hd
              have hobs : d.state = .disputed := DepositState.asStr_inj hd
              rw [insert_asked hasks] at hobs
              cases hobs
        | update d =>
            obtain ⟨rfl, -⟩ | ⟨-, rfl⟩ := replies_written hr
            · exact h.undisputed
            · refine List.forall_mem_map.mpr fun row hrow => ?_
              unfold Intake.touched
              split
              · exact fun hd => update_undisputed hasks (DepositState.asStr_inj hd)
              · exact h.undisputed row hrow
        | _ =>
            obtain rfl := replies_read (fun _ => rfl) hr
            exact h.undisputed
    | _ => exact h.undisputed
  · obtain heq | hmem := List.mem_cons.mp hmem
    · obtain ⟨rfl, hb⟩ := Sigma.mk.inj heq
      obtain ⟨r, rows', hx, hr⟩ := exec_deposits e (.find n) w.1
      have hreply : r = .ok (some d) :=
        (congrArg Prod.fst hx).symm.trans (eq_of_heq hb).symm
      obtain ⟨row, hrow, hkey, hread⟩ := (Intake.replies_find hr).2 d hreply
      obtain ⟨d', hread', hclaims⟩ := hI.2 row hrow
      obtain rfl := Except.ok.inj (hread.symm.trans hread')
      refine ⟨BankRefHash.toHex_inj ((hI.1.key hrow hread).symm.trans hkey), fun hd => ?_,
        hclaims.mono (List.subset_cons_self _ _)⟩
      obtain ⟨-, -, -, -, hstate, -⟩ := PgDepositRepository.rowToDeposit_ok.mp hread
      exact h.undisputed row hrow (hstate.trans (congrArg _ hd))
    · exact hlater n d hmem

/-- What calls have read of redemptions was true. -/
def Read (w : State) : Prop :=
  ∀ user seq rd, ⟨.redemptions (.find user seq), .ok (some rd)⟩ ∈ w.2 →
    rd.key = (user, seq) ∧ Payouts.Claims w.2 rd

theorem Read.step {s : Port} {w : State} {e : Conditions}
    (hrows : ∀ row ∈ w.1.redemptions, Payouts.Backed w.2 row) (h : Read w) :
    Read (Durable.exec.logged e s w).2 := by
  intro user seq rd hmem
  obtain heq | hmem := List.mem_cons.mp hmem
  · obtain ⟨rfl, hb⟩ := Sigma.mk.inj heq
    have hreply := (eq_of_heq hb).symm
    obtain ⟨r, rows', hx, hr⟩ := exec_redemptions e (.find user seq) w.1
    obtain ⟨-, row, hrow, -, hread⟩ :=
      (replies_find hr).2 rd ((congrArg Prod.fst hx).symm.trans hreply)
    obtain ⟨rd', hread', hclaims⟩ := hrows row hrow
    obtain rfl := Except.ok.inj (hread.symm.trans hread')
    have hhears : (OffRamp.grammar .queueLen).hears (.redemptions (.find user seq))
        (Durable.exec.logged e (.redemptions (.find user seq)) w).1 :=
      Payouts.hears_redemptions e _
    exact ⟨hhears rd hreply, hclaims.mono (List.subset_cons_self _ _)⟩
  · obtain ⟨hkey, hclaims⟩ := h user seq rd hmem
    exact ⟨hkey, hclaims.mono (List.subset_cons_self _ _)⟩

end Seen

/-! ## What is past Δ -/

/-- `rd` is past Δ at `now`, and the ledger has confirmed its escrow. -/
structure PastDelta (log : History Port Port.Reply) (now : Int64) (rd : Redemption) : Prop where
  pending : rd.state.isPending = true
  waited : ∃ since, rd.escrowedAt = some since ∧ rd.deltaSecs.toInt ≤ now.toInt - since.toInt
  escrowed : Payouts.Answered log rd .confirmed

theorem due_of_isDue {row : RedemptionRow} {rd : Redemption} {now : Int64}
    (hread : PgRedemptionRepository.rowToRedemption row = .ok rd)
    (hdue : PgRedemptionRepository.isDue now row = .ok true) :
    rd.state.isPending = true ∧
      ∃ since, rd.escrowedAt = some since ∧ rd.deltaSecs.toInt ≤ now.toInt - since.toInt := by
  obtain ⟨-, -, -, hstate, -, hsince, hdelta⟩ := PgRedemptionRepository.rowToRedemption_ok.mp hread
  unfold PgRedemptionRepository.isDue at hdue
  split at hdue
  · next hpending =>
      refine ⟨?_, ?_⟩
      · rw [hstate] at hpending
        generalize rd.state = s at hpending
        cases s with
        | escrowed => rfl
        | payoutQueued => rfl
        | _ => exact absurd hpending (by decide)
      · rw [hsince] at hdue
        cases hat : rd.escrowedAt with
        | none =>
            rw [hat] at hdue
            cases hdue
        | some since =>
            rw [hat] at hdue
            obtain ⟨age, hage, hle⟩ := bind_ok.mp hdue
            have hle : row.deltaSecs ≤ age := of_decide_eq_true (Except.ok.inj hle)
            obtain ⟨hlo, hhi, rfl⟩ := toBigint_eq_ok.mp hage
            rw [hdelta, Int64.le_iff_toInt_le, Int64.toInt_ofInt_of_le hlo hhi] at hle
            exact ⟨since, rfl, hle⟩
  · cases hdue

theorem mem_reclaimable {rows : List RedemptionRow} {tie : RedemptionRow → ℕ} {now : Int64}
    {due : List Redemption} (h : PgRedemptionRepository.reclaimable rows tie now = .ok due)
    {rd : Redemption} (hrd : rd ∈ due) :
    ∃ row ∈ rows, PgRedemptionRepository.rowToRedemption row = .ok rd ∧
      PgRedemptionRepository.isDue now row = .ok true := by
  obtain ⟨kept, hkept, hread⟩ := bind_ok.mp h
  obtain ⟨row, hrow, hrd⟩ := mem_of_mapM hread hrd
  obtain ⟨hmem, hdue⟩ := mem_of_selectWhere (query_eq_ok.mp hkept)
    ((orderBy_perm _ _ _).mem_iff.mp hrow)
  exact ⟨row, hmem, hrd, hdue⟩

section Swept

variable [Sha256]

/-- What the sweep has listed is past Δ. -/
def Swept (w : State) : Prop :=
  ∀ now due, ⟨.redemptions (.reclaimable now), .ok due⟩ ∈ w.2 → ∀ rd ∈ due, PastDelta w.2 now rd

theorem Swept.step {s : Port} {w : State} {e : Conditions}
    (hrows : ∀ row ∈ w.1.redemptions, Payouts.Backed w.2 row) (h : Swept w) :
    Swept (Durable.exec.logged e s w).2 := by
  intro now due hmem rd hrd
  obtain heq | hmem := List.mem_cons.mp hmem
  · obtain ⟨rfl, hb⟩ := Sigma.mk.inj heq
    obtain ⟨r, rows', hx, tie, hr⟩ := exec_redemptions e (.reclaimable now) w.1
    have hreply : r = .ok due := (congrArg Prod.fst hx).symm.trans (eq_of_heq hb).symm
    obtain hcall | ⟨e', herr, -⟩ := hr
    · obtain ⟨row, hrow, hread, hdue⟩ :=
        mem_reclaimable ((congrArg Prod.fst hcall).trans hreply) hrd
      obtain ⟨rd', hread', hclaims⟩ := hrows row hrow
      obtain rfl := Except.ok.inj (hread.symm.trans hread')
      obtain ⟨hpending, hwaited⟩ := due_of_isDue hread hdue
      exact ⟨hpending, hwaited,
        (hclaims.escrowed_of_pending hpending).mono (List.subset_cons_self _ _)⟩
    · cases herr.symm.trans hreply
  · obtain ⟨hpending, hwaited, hescrowed⟩ := h now due hmem rd hrd
    exact ⟨hpending, hwaited, hescrowed.mono (List.subset_cons_self _ _)⟩

end Swept

/-! ## From empty tables -/

section Runs

variable [Sha256]

/-- What is known of a run that has begun with empty tables. -/
structure Known (w : State) : Prop where
  seen : Seen w
  covered : Payouts.Covered w.2
  read : Read w
  swept : Swept w

theorem known_run (state : AppState) (tasks : List Task) (runs : List ReconciliationRow)
    (ts : List (ℕ × Conditions)) :
    Known ((Tasks.start state tasks ⟨[], [], runs⟩).run Durable.exec ts).view := by
  have hnone : ∀ {α : Type} {p : α → Prop}, ∀ a ∈ ([] : List α), p a :=
    fun a ha => absurd ha List.not_mem_nil
  have hon := Pool.rely
    (Relies.also (J := Seen) (relies_deposits (tasks.map Task.call))
      fun i q s e w hI _ hasks hJ => hJ.step hI hasks)
    (c := Tasks.start state tasks ⟨[], [], runs⟩)
    ⟨obeys_start (task_onRamp state) _ _, ⟨⟨⟨List.nodup_nil, hnone⟩, hnone⟩,
      ⟨hnone, fun _ _ hmem => absurd hmem List.not_mem_nil⟩⟩, fun i => trivial⟩ ts
  have hoff := Pool.rely
    (Relies.also (J := fun w => Read w ∧ Swept w) (Payouts.relies_redemptions (tasks.map Task.call))
      fun i q s e w hI _ _ hJ => ⟨hJ.1.step hI.1.2, hJ.2.step hI.1.2⟩)
    (c := Tasks.start state tasks ⟨[], [], runs⟩)
    ⟨obeys_start (task_offRamp state) _ _, ⟨⟨⟨List.nodup_nil, hnone⟩,
      fun _ _ _ _ hmem => absurd hmem List.not_mem_nil⟩,
      fun _ _ _ hmem => absurd hmem List.not_mem_nil,
      fun _ _ hmem => absurd hmem List.not_mem_nil⟩, fun i => trivial⟩ ts
  exact ⟨hon.inv.2, hoff.inv.1.2, hoff.inv.2.1, hoff.inv.2.2⟩

end Runs

end Thbc.Server
