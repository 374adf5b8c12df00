import Thbc.Api.Public
import Thbc.Proofs.Timelock
import Thbc.System.Repositories

/-!
# What the countdown says

The countdown is read off the age of the escrow and nothing else, and the guard
of `reclaim` asks for a pending record first. While a redemption is pending the
two agree, and both are about one moment, its deadline, as long as there is such
a moment in an `i64`. Once it is `Confirmed` or `Reclaimed` the countdown goes on
as if nothing had happened, down to a zero that stands for a reclaim that can only
be refused.
-/

namespace Thbc.Redemption

open Thbc.Lib

/-- What the view promises about the record at `now`. -/
structure CountsDown (r : Redemption) (now : Int64) : Prop where
  zero : (RedemptionStatus.of r now).reclaimInSecs = some 0 ↔ ∃ r', r.reclaim now = .ok r'
  ahead : ∀ k, (RedemptionStatus.of r now).reclaimInSecs = some k → 0 < k.toInt →
    (∃ t : Int64, t.toInt = now.toInt + k.toInt ∧ ∃ r', r.reclaim t = .ok r') ∧
      ∀ t : Int64, t.toInt = now.toInt + k.toInt - 1 → ∃ e, r.reclaim t = .error e
  flag : (RedemptionStatus.of r now).reclaimableNow = true ↔
    (RedemptionStatus.of r now).reclaimInSecs = some 0

/-- The redemption is neither `Confirmed` nor `Reclaimed`, and its deadline, if it
has one, is an `i64`. -/
def Reckonable (r : Redemption) : Prop :=
  r.state ≠ .confirmed ∧ r.state ≠ .reclaimed ∧
    ∀ since, r.escrowedAt = some since → since.toInt + r.deltaSecs.toInt < 2 ^ 63

theorem since_nonneg_after {r : Redemption} {ms : List Method} (hms : ∀ m ∈ ms, m.Timely)
    (hr : r.escrowedAt = none) (since : Int64)
    (hsince : (after invoke r ms).escrowedAt = some since) : 0 ≤ since.toInt := by
  have hstep : ∀ (r : Redemption) (m : Method) (r' : Redemption), m ∈ ms →
      (∀ since, r.escrowedAt = some since → 0 ≤ since.toInt) → invoke r m = .ok r' →
      ∀ since, r'.escrowedAt = some since → 0 ≤ since.toInt := by
    intro r m r' hm h hr' since hs
    rw [(invoke_goes hr').2] at hs
    cases m with
    | applyEscrowOutcome outcome now =>
        cases outcome with
        | confirmed =>
            obtain rfl := Option.some.inj hs
            exact hms _ hm
        | submitted => exact h since hs
        | failed => exact h since hs
    | _ => exact h since hs
  have hstart : ∀ since, r.escrowedAt = some since → 0 ≤ since.toInt := by
    intro since hs
    rw [hr] at hs
    cases hs
  exact after_induct hstep hstart since hsince

theorem toInt_max_zero (k : Int64) : (max k 0).toInt = max k.toInt 0 := by
  show (if k ≤ 0 then 0 else k).toInt = _
  have h0 : (0 : Int64).toInt = 0 := rfl
  split
  · next h =>
      rw [Int64.le_iff_toInt_le, h0] at h
      rw [h0]
      omega
  · next h =>
      rw [Int64.le_iff_toInt_le, h0] at h
      omega

section Escrowed

variable {r : Redemption} {since now : Int64}

theorem reclaimInSecs_of (hsince : r.escrowedAt = some since) (h₀ : 0 ≤ since.toInt)
    (hnow : 0 ≤ now.toInt) :
    ∃ k : Int64, (RedemptionStatus.of r now).reclaimInSecs = some k ∧
      k.toInt = max ((r.deltaSecs.toInt - (now.toInt - since.toInt)).bmod (2 ^ 64)) 0 := by
  refine ⟨max (r.deltaSecs - saturatingSub now since) 0, ?_, ?_⟩
  · show (r.escrowAge now).map _ = _
    rw [escrowAge, hsince]
    rfl
  · rw [toInt_max_zero, Int64.toInt_sub, toInt_saturatingSub_of_nonneg hnow h₀]

theorem int64_eq_zero_iff {k : Int64} : k = 0 ↔ k.toInt = 0 := by
  rw [← Int64.toInt_inj]
  rfl

/-- Up to the deadline and from the deadline on. -/
theorem countsDown_of_pending (hp : r.state.isPending = true)
    (hsince : r.escrowedAt = some since) (h₀ : 0 ≤ since.toInt) (hnow : 0 ≤ now.toInt)
    (hdelta : 0 < r.deltaSecs.toInt)
    (hfits : since.toInt + r.deltaSecs.toInt < 2 ^ 63) : r.CountsDown now := by
  have hreclaim : ∀ {t : Int64}, 0 ≤ t.toInt →
      ((∃ r', r.reclaim t = .ok r') ↔ since.toInt + r.deltaSecs.toInt ≤ t.toInt) := by
    intro t ht
    simp only [reclaim_ok_of_nonneg hsince h₀ ht, hp, true_and, exists_and_left,
      exists_eq, and_true]
  obtain ⟨k, hk, hkto⟩ := reclaimInSecs_of hsince h₀ hnow
  have hsmall := now.toInt_lt
  rw [Int.bmod_eq_of_le (by omega) (by omega)] at hkto
  have hzero : (RedemptionStatus.of r now).reclaimInSecs = some 0 ↔
      since.toInt + r.deltaSecs.toInt ≤ now.toInt := by
    rw [hk, Option.some.injEq, int64_eq_zero_iff, hkto]
    omega
  refine ⟨hzero.trans (hreclaim hnow).symm, fun k' hk' hpos => ?_, ?_⟩
  · obtain rfl : k = k' := Option.some.inj (hk.symm.trans hk')
    refine ⟨?_, fun t ht => ?_⟩
    · refine ⟨Int64.ofInt (since.toInt + r.deltaSecs.toInt), ?_, ?_⟩
      · rw [Int64.toInt_ofInt_of_le (by omega) (by omega)]
        omega
      · have hto : (Int64.ofInt (since.toInt + r.deltaSecs.toInt)).toInt =
            since.toInt + r.deltaSecs.toInt :=
          Int64.toInt_ofInt_of_le (by omega) (by omega)
        exact (hreclaim (by omega)).mpr (by omega)
    · have hno : ¬ ∃ r', r.reclaim t = .ok r' := by
        rw [hreclaim (by omega)]
        omega
      cases hr : r.reclaim t with
      | error e => exact ⟨e, rfl⟩
      | ok r' => exact absurd ⟨r', hr⟩ hno
  · rw [hzero]
    show r.isReclaimable now = true ↔ _
    rw [isReclaimable_of_nonneg hsince h₀ hnow, hp]
    simp

/-- A deadline past the last `i64` comes never, and the countdown has an end. -/
theorem not_countsDown_of_late (hsince : r.escrowedAt = some since)
    (h₀ : 0 ≤ since.toInt) (hnow : 0 ≤ now.toInt)
    (hlate : 2 ^ 63 ≤ since.toInt + r.deltaSecs.toInt) : ¬ r.CountsDown now := by
  intro h
  obtain ⟨k, hk, hkto⟩ := reclaimInSecs_of hsince h₀ hnow
  have hsmall := now.toInt_lt
  have hdelta := r.deltaSecs.toInt_lt
  have hsince' := since.toInt_lt
  by_cases hlt : r.deltaSecs.toInt - (now.toInt - since.toInt) < 2 ^ 63
  · rw [Int.bmod_eq_of_le (by omega) (by omega)] at hkto
    obtain ⟨⟨t, ht, -⟩, -⟩ := h.ahead k hk (by omega)
    have := t.toInt_lt
    omega
  · -- The subtraction has wrapped.
    have hneg : (r.deltaSecs.toInt - (now.toInt - since.toInt)).bmod (2 ^ 64) < 0 := by
      rw [Int.bmod_def]
      omega
    have hk0 : k = 0 := by
      rw [int64_eq_zero_iff, hkto]
      omega
    rw [hk0] at hk
    obtain ⟨r', hr⟩ := h.zero.mp hk
    have := ((reclaim_ok_of_nonneg hsince h₀ hnow).mp hr).2.1
    omega

/-- There is a countdown, and no reclaim to count down to. -/
theorem not_countsDown_of_over (hp : r.state.isPending = false)
    (hsince : r.escrowedAt = some since) : ¬ r.CountsDown now := by
  intro h
  have hno : ∀ t r', r.reclaim t ≠ .ok r' := by
    intro t r' hr
    rw [(reclaim_ok.mp hr).1] at hp
    cases hp
  have hk : (RedemptionStatus.of r now).reclaimInSecs =
      some (max (r.deltaSecs - saturatingSub now since) 0) := by
    show (r.escrowAge now).map _ = _
    rw [escrowAge, hsince]
    rfl
  have hpos := toInt_max_zero (r.deltaSecs - saturatingSub now since)
  by_cases hk0 : max (r.deltaSecs - saturatingSub now since) 0 = 0
  · rw [hk0] at hk
    obtain ⟨r', hr⟩ := h.zero.mp hk
    exact hno _ _ hr
  · rw [int64_eq_zero_iff] at hk0
    obtain ⟨⟨t, -, r', hr⟩, -⟩ := h.ahead _ hk (by omega)
    exact hno _ _ hr

end Escrowed

theorem countsDown_of_none {r : Redemption} (h : r.Stamped) (hnone : r.escrowedAt = none)
    (now : Int64) : r.CountsDown now := by
  have hk : (RedemptionStatus.of r now).reclaimInSecs = none := by
    show (r.escrowAge now).map _ = _
    rw [escrowAge, hnone]
    rfl
  have hflag : r.isReclaimable now = false := by
    rw [isReclaimable, escrowAge, hnone]
    exact Bool.and_false _
  refine ⟨?_, fun k hk' _ => ?_, ?_⟩
  · rw [hk, reclaim_iff h, hflag]
    simp
  · rw [hk] at hk'
    cases hk'
  · rw [hk, show (RedemptionStatus.of r now).reclaimableNow = false from hflag]
    simp

theorem countsDown_iff {r : Redemption} {now : Int64} (h : r.Stamped)
    (hsince : ∀ since, r.escrowedAt = some since → 0 ≤ since.toInt)
    (hdelta : 0 < r.deltaSecs.toInt) (hnow : 0 ≤ now.toInt) :
    r.CountsDown now ↔ r.Reckonable := by
  cases hesc : r.escrowedAt with
  | none =>
      have hstate : ¬ (r.state ≠ .requested ∧ r.state ≠ .failed) := by
        rw [← show r.escrowedAt.isSome = true ↔ _ from h, hesc]
        simp
      refine ⟨fun _ => ⟨?_, ?_, fun since hs => ?_⟩, fun _ => countsDown_of_none h hesc now⟩
      · intro hs; rw [hs] at hstate; exact hstate (by decide)
      · intro hs; rw [hs] at hstate; exact hstate (by decide)
      · rw [hesc] at hs; cases hs
  | some since =>
      have h₀ := hsince since hesc
      cases hp : r.state.isPending with
      | false =>
          refine ⟨fun hc => absurd hc (not_countsDown_of_over hp hesc), fun hr => ?_⟩
          obtain ⟨hreq, hfail⟩ := h.mp (by rw [hesc]; rfl)
          obtain ⟨hconf, hrec, -⟩ := hr
          revert hp hreq hfail hconf hrec
          cases r.state <;> simp [RedemptionState.isPending]
      | true =>
          constructor
          · intro hc
            refine ⟨fun hs => ?_, fun hs => ?_, fun since' hs => ?_⟩
            · rw [hs] at hp; cases hp
            · rw [hs] at hp; cases hp
            · obtain rfl : since = since' := Option.some.inj (hesc.symm.trans hs)
              refine Int.not_le.mp fun hlate => ?_
              exact not_countsDown_of_late hesc h₀ hnow hlate hc
          · intro hr
            exact countsDown_of_pending hp hesc h₀ hnow hdelta (hr.2.2 since hesc)

/-- Whatever has been called on a redemption, the countdown that is reported of it
is true exactly when it is reckonable. -/
theorem countdown_true_iff {user : String} {seq : UInt64} {amount : Thb}
    {deltaSecs requestedAt now : Int64} {r : Redemption}
    (hr : request user seq amount deltaSecs requestedAt = .ok r)
    (hdelta : 0 < deltaSecs.toInt) {ms : List Method} (hms : ∀ m ∈ ms, m.Timely)
    (hnow : 0 ≤ now.toInt) :
    (after invoke r ms).CountsDown now ↔ (after invoke r ms).Reckonable := by
  have hstamped := (stamped_of_request hr).after ms
  have horigin := r.origin_after ms
  obtain ⟨-, rfl⟩ := request_ok.mp hr
  have hdelta' : (after invoke ⟨user, seq, amount, .requested, requestedAt, none, deltaSecs⟩
      ms).deltaSecs = deltaSecs := (Prod.mk.inj (Prod.mk.inj (Prod.mk.inj horigin).2).2).2
  refine countsDown_iff hstamped (since_nonneg_after hms rfl) ?_ hnow
  rw [hdelta']
  exact hdelta

/-- A redemption of 100 satang that was escrowed at 5, before it is confirmed and
after. -/
theorem countdown_true_iff_pending :
    let r : Redemption := ⟨"alice", 1, ⟨100⟩, .requested, 0, none, 86400⟩
    (after invoke r [.applyEscrowOutcome .confirmed 5]).CountsDown 100 ∧
      ¬ (after invoke r [.applyEscrowOutcome .confirmed 5, .confirm]).CountsDown 100 := by
  have hr : request "alice" 1 ⟨100⟩ 86400 0 =
      .ok ⟨"alice", 1, ⟨100⟩, .requested, 0, none, 86400⟩ := rfl
  refine ⟨?_, ?_⟩
  · refine (countdown_true_iff hr (by decide) (by decide) (by decide)).mpr ⟨?_, ?_, ?_⟩
    · decide
    · decide
    · intro since hs
      rw [← Option.some.inj hs]
      decide
  · rw [countdown_true_iff hr (by decide) (by decide) (by decide)]
    exact fun h => h.1 (by decide)

/-- A day after it was confirmed, the view reports a reclaim that is possible. -/
theorem countdown_after_confirm :
    let r : Redemption := ⟨"alice", 1, ⟨100⟩, .requested, 0, none, 86400⟩
    let r' := after invoke r [.applyEscrowOutcome .confirmed 0, .confirm]
    request "alice" 1 ⟨100⟩ 86400 0 = .ok r ∧
      RedemptionStatus.of r' 86400 = ⟨"alice", 1, 100, "confirmed", some 0, false⟩ ∧
      (∃ e, r'.reclaim 86400 = .error e) ∧ ¬ r'.CountsDown 86400 := by
  refine ⟨rfl, by decide, ⟨_, rfl⟩, fun h => ?_⟩
  obtain ⟨r'', hr⟩ := h.zero.mp (by decide)
  cases hr

end Thbc.Redemption
