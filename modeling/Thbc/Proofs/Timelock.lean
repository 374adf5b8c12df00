import Thbc.Proofs.Stored

/-!
# The timelock is one and the same everywhere

`reclaim`, `is_reclaimable` and the `WHERE` clause of `reclaimable` each say when
Δ has run out. They differ on records without an escrow time and on times far
apart. Neither occurs: a record is `Escrowed` and has its time in one step, so
the records that `request` and the methods make are `Stamped`.
-/

namespace Thbc

open Thbc.Lib

namespace Redemption

/-- The check `redemption_payout_requires_confirmed_escrow`, both ways round. -/
def Stamped (r : Redemption) : Prop :=
  r.escrowedAt.isSome = true ↔ r.state ≠ .requested ∧ r.state ≠ .failed

/-- The calls that write `escrowed_at`. -/
def Method.stamps : Method → Bool
  | .applyEscrowOutcome .confirmed _ => true
  | _ => false

variable {r r' : Redemption} {m : Method} {ms : List Method}

theorem Stamped.isSome (h : r.Stamped) (hp : r.state.isPending = true) :
    r.escrowedAt.isSome = true :=
  h.mpr (RedemptionState.ne_of_isPending hp)

theorem Stamped.step (h : r.Stamped) (hm : r.invoke m = .ok r') : r'.Stamped := by
  obtain ⟨hgoes, hstamp⟩ := invoke_goes hm
  unfold Stamped at h ⊢
  rw [hstamp]
  generalize r.state = s at h hgoes
  generalize r'.state = s' at hgoes ⊢
  generalize r.escrowedAt = since at h ⊢
  cases hgoes with
  | land now => simp [Method.stamp]
  | fail now => simpa [Method.stamp] using h
  | wait now => exact h
  | enqueue => simpa [Method.stamp] using h
  | confirm hp => simpa [Method.stamp, RedemptionState.ne_of_isPending hp] using h
  | reclaim hp now => simpa [Method.stamp, RedemptionState.ne_of_isPending hp] using h

theorem stamped_of_request {user : String} {seq : UInt64} {amount : Thb}
    {deltaSecs now : Int64} (hr : request user seq amount deltaSecs now = .ok r) :
    r.Stamped := by
  obtain ⟨-, rfl⟩ := request_ok.mp hr
  simp [Stamped]

theorem Stamped.after (h : r.Stamped) (ms : List Method) :
    (after invoke r ms).Stamped :=
  after_induct (J := Stamped) (fun _ _ _ _ h hm => h.step hm) h

/-- An escrow time, once there, stays. -/
theorem escrowedAt_after (h : r.Stamped) {since : Int64}
    (hsince : r.escrowedAt = some since) (ms : List Method) :
    (after invoke r ms).escrowedAt = some since := by
  have hkeep : (after invoke r ms).Stamped ∧
      (after invoke r ms).escrowedAt = some since := by
    refine after_induct
      (J := fun r : Redemption => r.Stamped ∧ r.escrowedAt = some since)
      (fun r m r' _ ⟨h, hsince⟩ hm => ⟨h.step hm, ?_⟩) ⟨h, hsince⟩
    obtain ⟨hgoes, hstamp⟩ := invoke_goes hm
    have hne : r.state ≠ .requested := (h.mp (by rw [hsince]; rfl)).1
    rw [hstamp, hsince]
    generalize r.state = s at hgoes hne
    generalize r'.state = s' at hgoes
    cases hgoes with
    | land now => exact absurd rfl hne
    | _ => rfl
  exact hkeep.2

/-- Of the calls that succeed at most one writes it. -/
theorem countP_stamps_le (r : Redemption) (ms : List Method) :
    (done invoke r ms).countP (fun c => c.2.stamps) ≤ 1 := by
  have hcount : (done invoke r ms).countP (fun c => c.2.stamps) ≤ 1 ∧
      ((after invoke r ms).state = .requested →
        (done invoke r ms).countP (fun c => c.2.stamps) = 0) := by
    refine done_induct (l := [])
      (J := fun (r : Redemption) (ds : List (Redemption × Method)) =>
        ds.countP (fun c => c.2.stamps) ≤ 1 ∧
          (r.state = .requested → ds.countP (fun c => c.2.stamps) = 0))
      (fun r ds m r' _ ⟨hle, hzero⟩ hm => ?_) ⟨Nat.zero_le 1, fun _ => rfl⟩
    obtain ⟨hgoes, -⟩ := invoke_goes hm
    rw [List.countP_append, List.countP_singleton]
    generalize ds.countP (fun c => c.2.stamps) = n at hle hzero ⊢
    generalize r.state = s at hgoes hzero
    generalize r'.state = s' at hgoes ⊢
    cases hgoes with
    | land now => simp [Method.stamps, hzero]
    | wait now => simp [Method.stamps, hzero]
    | _ => simp [Method.stamps, hle]
  exact hcount.1

theorem terminal_refuses (hs : r.state.isTerminal = true) (m : Method) :
    ∃ e, r.invoke m = .error e := by
  cases hm : r.invoke m with
  | error e => exact ⟨e, rfl⟩
  | ok r' =>
      obtain ⟨hgoes, -⟩ := invoke_goes hm
      generalize r.state = s at hgoes hs
      generalize r'.state = s' at hgoes
      cases hgoes with
      | confirm hp =>
          rw [RedemptionState.isPending_of_isTerminal hs] at hp
          cases hp
      | reclaim hp now =>
          rw [RedemptionState.isPending_of_isTerminal hs] at hp
          cases hp
      | _ => cases hs

/-- With an escrow time, to be reclaimable is to be reclaimed without error. -/
theorem reclaim_iff (h : r.Stamped) (now : Int64) :
    (∃ r', r.reclaim now = .ok r') ↔ r.isReclaimable now = true := by
  simp only [reclaim_ok, isReclaimable, Bool.and_eq_true]
  constructor
  · intro hrec
    obtain ⟨_, hp, hage, _⟩ := hrec
    obtain ⟨since, hsince⟩ := Option.isSome_iff_exists.mp (h.isSome hp)
    simp only [escrowAge, hsince, Option.map_some, Option.getD_some] at hage ⊢
    exact ⟨hp, decide_eq_true hage⟩
  · intro hrec
    obtain ⟨hp, hage⟩ := hrec
    obtain ⟨since, hsince⟩ := Option.isSome_iff_exists.mp (h.isSome hp)
    simp only [escrowAge, hsince, Option.map_some, Option.getD_some] at hage ⊢
    exact ⟨_, hp, of_decide_eq_true hage, rfl⟩

/-- Whatever is called on a redemption, and whenever, its timelock is one. -/
theorem timelock_agrees {user : String} {seq : UInt64} {amount : Thb}
    {deltaSecs requestedAt : Int64}
    (hr : request user seq amount deltaSecs requestedAt = .ok r) (ms : List Method) :
    ((after invoke r ms).escrowedAt.isSome = true ↔
      (after invoke r ms).state ≠ .requested ∧ (after invoke r ms).state ≠ .failed) ∧
    (∀ now, (∃ r', (after invoke r ms).reclaim now = .ok r') ↔
      (after invoke r ms).isReclaimable now = true) ∧
    (∀ now, 0 ≤ now.toInt →
      (∀ since, (after invoke r ms).escrowedAt = some since → 0 ≤ since.toInt) →
      PgRedemptionRepository.isDue now (.of (after invoke r ms)) =
        .ok ((after invoke r ms).isReclaimable now)) ∧
    (∀ m e, ((assign m).run.run (after invoke r ms)).1 = .error e →
      ((assign m).run.run (after invoke r ms)).2 = after invoke r ms) ∧
    ((after invoke r ms).user = user ∧ (after invoke r ms).seq = seq ∧
      (after invoke r ms).amount = amount ∧
      (after invoke r ms).requestedAt = requestedAt ∧
      (after invoke r ms).deltaSecs = deltaSecs) ∧
    (∀ since, (after invoke r ms).escrowedAt = some since →
      ∀ ms', (after invoke r (ms ++ ms')).escrowedAt = some since) ∧
    (done invoke r ms).countP (fun c => c.2.stamps) ≤ 1 ∧
    ((after invoke r ms).state.isTerminal = true →
      ∀ m, ∃ e, (after invoke r ms).invoke m = .error e) := by
  have h : (after invoke r ms).Stamped := (stamped_of_request hr).after ms
  have horigin : (after invoke r ms).origin = r.origin := r.origin_after ms
  obtain ⟨-, rfl⟩ := request_ok.mp hr
  obtain ⟨hkey, hrest⟩ := Prod.mk.inj horigin
  obtain ⟨hamount, hrest⟩ := Prod.mk.inj hrest
  obtain ⟨hrequested, hdelta⟩ := Prod.mk.inj hrest
  obtain ⟨huser, hseq⟩ := Prod.mk.inj hkey
  refine ⟨h, reclaim_iff h, fun now hnow hsince => isDue_of h.isSome hsince hnow,
    fun m e he => ?_, ⟨huser, hseq, hamount, hrequested, hdelta⟩, fun since hsince ms' => ?_,
    countP_stamps_le _ ms, terminal_refuses⟩
  · exact (assign_implements m).unchanged he
  · rw [after_append]
    exact escrowedAt_after h hsince ms'

/-- A day after it has been escrowed. -/
theorem timelock_agrees_day :
    let r : Redemption := after invoke ⟨"alice", 1, ⟨100⟩, .requested, 0, none, 86400⟩
      [.applyEscrowOutcome .confirmed 5]
    (∃ r', r.reclaim 86405 = .ok r') ∧
      PgRedemptionRepository.isDue 86405 (.of r) = .ok true := by
  have hr : request "alice" 1 ⟨100⟩ 86400 0 =
      .ok ⟨"alice", 1, ⟨100⟩, .requested, 0, none, 86400⟩ := rfl
  have h := timelock_agrees hr [.applyEscrowOutcome .confirmed 5]
  refine ⟨(h.2.1 86405).mpr (by decide), h.2.2.1 86405 (by decide) fun since hsince => ?_⟩
  rw [← Option.some.inj hsince]
  decide

end Redemption

end Thbc
