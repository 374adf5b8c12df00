import Thbc.Core.Money
import Mathlib.Data.Int.Notation

/-!
# Reserve accounting: the F1 ceiling and F5 freshness

`crates/thbc-core/src/reserve.rs`. The gate `checkIssuance` is F5 and then
F1, in that order. Its arithmetic saturates in one place and is checked in
another; `checkIssuance_ok` and `f1Holds_iff` are what the two come to as
plain inequalities, and nothing later looks inside.
-/

namespace Thbc

/-- A reserve attestation: what is in the segregated accounts, and when. -/
structure Attestation where
  reserve : Thb
  ts : Int64
  ttlSecs : Int64
  deriving DecidableEq

namespace Attestation

/-- Age in seconds at `now`; negative for a stamp in the future. -/
def ageSecs (a : Attestation) (now : Int64) : Int64 := saturatingSub now a.ts

/-- F5. A future-dated attestation is refused, not treated as fresh. -/
def checkFresh (a : Attestation) (now : Int64) : CoreResult Unit :=
  let age := a.ageSecs now
  if age < 0 then .error (.attestationInFuture a.ts now)
  else if age > a.ttlSecs then .error (.staleAttestation age a.ttlSecs)
  else .ok ()

def isFresh (a : Attestation) (now : Int64) : Bool :=
  match a.checkFresh now with
  | .ok _ => true
  | .error _ => false

theorem isFresh_iff {a : Attestation} {now : Int64} :
    a.isFresh now = true ↔ a.checkFresh now = .ok () := by
  unfold Attestation.isFresh
  cases a.checkFresh now with
  | ok u => exact ⟨fun _ => rfl, fun _ => rfl⟩
  | error e =>
      refine ⟨fun h => ?_, fun h => ?_⟩
      · cases h
      · cases h

theorem checkFresh_ok {a : Attestation} {now : Int64} :
    a.checkFresh now = .ok () ↔
      0 ≤ (a.ageSecs now).toInt ∧ (a.ageSecs now).toInt ≤ a.ttlSecs.toInt := by
  have h0 : (0 : Int64).toInt = 0 := rfl
  simp only [checkFresh]
  rw [guard_ok, guard_ok, gt_iff_lt, Int64.lt_iff_toInt_lt, Int64.lt_iff_toInt_lt, h0]
  simp only [and_true]
  omega

/-- With times that are not negative, fresh means what it says: the stamp is
not ahead of the clock and at most the TTL behind it. -/
theorem checkFresh_ok_of_nonneg {a : Attestation} {now : Int64}
    (hts : 0 ≤ a.ts.toInt) (hnow : 0 ≤ now.toInt) :
    a.checkFresh now = .ok () ↔
      0 ≤ now.toInt - a.ts.toInt ∧ now.toInt - a.ts.toInt ≤ a.ttlSecs.toInt := by
  rw [checkFresh_ok, ageSecs, toInt_saturatingSub_of_nonneg hnow hts]

end Attestation

/-- The reserve side of the treasury. -/
structure ReserveState where
  attestation : Attestation
  /-- Fiat in the reserve account that backs nothing. -/
  encumbered : Thb
  /-- THBC outstanding on the ledger. -/
  supply : Thb
  deriving DecidableEq

namespace ReserveState

/-- `attested − encumbered`, saturating: more encumbered than attested is no
backing at all. -/
def freeBacking (r : ReserveState) : Thb :=
  r.attestation.reserve.saturatingSub r.encumbered

def headroom (r : ReserveState) : Thb := r.freeBacking.saturatingSub r.supply

/-- F1 as a state. -/
def f1Holds (r : ReserveState) : Bool := decide (r.supply ≤ r.freeBacking)

/-- Gate an issuance of `amount`: F5, then F1. Returns the resulting
supply. -/
def checkIssuance (r : ReserveState) (amount : Thb) (now : Int64) :
    CoreResult Thb := do
  if amount.isZero then throw .zeroAmount
  r.attestation.checkFresh now
  let resulting ← r.supply.checkedAdd amount
  let free := r.freeBacking
  if resulting > free then
    throw (.reserveInsufficient amount.minor resulting.minor free.minor
      r.attestation.reserve.minor r.encumbered.minor)
  return resulting

theorem toNat_freeBacking (r : ReserveState) :
    r.freeBacking.toNat = r.attestation.reserve.toNat - r.encumbered.toNat :=
  Thb.toNat_saturatingSub _ _

theorem f1Holds_iff_le {r : ReserveState} :
    r.f1Holds = true ↔ r.supply.toNat ≤ r.freeBacking.toNat := by
  rw [f1Holds, decide_eq_true_eq, Thb.le_iff]

/-- F1 over the integers: no saturation is left to think about. -/
theorem f1Holds_iff {r : ReserveState} :
    r.f1Holds = true ↔
      (r.supply.toNat : ℤ) ≤
        max ((r.attestation.reserve.toNat : ℤ) - r.encumbered.toNat) 0 := by
  rw [f1Holds_iff_le, toNat_freeBacking]
  omega

/-- What the gate admits, and what it answers. -/
theorem checkIssuance_ok {r : ReserveState} {amount : Thb} {now : Int64}
    {v : Thb} :
    r.checkIssuance amount now = .ok v ↔
      0 < amount.toNat ∧ r.attestation.checkFresh now = .ok () ∧
        v.toNat = r.supply.toNat + amount.toNat ∧
        v.toNat ≤ r.freeBacking.toNat := by
  have hgate : r.checkIssuance amount now =
      if amount.isZero = true then .error .zeroAmount
      else r.attestation.checkFresh now >>= fun _ =>
        r.supply.checkedAdd amount >>= fun resulting =>
          if resulting > r.freeBacking then
            .error (.reserveInsufficient amount.minor resulting.minor
              r.freeBacking.minor r.attestation.reserve.minor r.encumbered.minor)
          else .ok resulting := by
    unfold checkIssuance
    split
    · rfl
    · rfl
  rw [hgate, guard_ok, Thb.isZero_iff]
  simp only [bind_ok, guard_ok, Thb.checkedAdd_ok, gt_iff_lt, Thb.lt_iff,
    Except.ok.injEq]
  refine ⟨fun h => ?_, fun h => ?_⟩
  · obtain ⟨hpos, u, hfresh, c, hc, hle, rfl⟩ := h
    exact ⟨by omega, hfresh, hc.symm, by omega⟩
  · obtain ⟨hpos, hfresh, hv, hle⟩ := h
    exact ⟨by omega, (), hfresh, v, hv.symm, by omega, rfl⟩

theorem toNat_headroom (r : ReserveState) :
    r.headroom.toNat = r.freeBacking.toNat - r.supply.toNat :=
  Thb.toNat_saturatingSub _ _

/-- The gate is open to what fits in the headroom of a fresh reserve. -/
theorem checkIssuance_accepts {r : ReserveState} {amount : Thb} {now : Int64} :
    (∃ v, r.checkIssuance amount now = .ok v) ↔
      r.attestation.isFresh now = true ∧ 0 < amount.toNat ∧
        amount.toNat ≤ r.headroom.toNat := by
  rw [Attestation.isFresh_iff, toNat_headroom]
  constructor
  · intro ⟨v, hv⟩
    obtain ⟨hpos, hfresh, hsum, hle⟩ := checkIssuance_ok.mp hv
    exact ⟨hfresh, hpos, by omega⟩
  · intro ⟨hfresh, hpos, hroom⟩
    have hlt := r.freeBacking.toNat_lt
    obtain ⟨v, hv⟩ := Thb.checkedAdd_of_lt (a := r.supply) (b := amount) (by omega)
    have hsum := Thb.checkedAdd_ok.mp hv
    exact ⟨v, checkIssuance_ok.mpr ⟨hpos, hfresh, hsum.symm, by omega⟩⟩

theorem checkIssuance_of_headroom {r : ReserveState} {amount : Thb} {now : Int64}
    (hpos : 0 < amount.toNat) (hfresh : r.attestation.checkFresh now = .ok ())
    (hroom : amount ≤ r.headroom) : ∃ v, r.checkIssuance amount now = .ok v :=
  checkIssuance_accepts.mpr
    ⟨Attestation.isFresh_iff.mpr hfresh, hpos, Thb.le_iff.mp hroom⟩

/-- What the gate lets through comes off the headroom. -/
theorem headroom_of_checkIssuance {r : ReserveState} {amount v : Thb} {now : Int64}
    (h : r.checkIssuance amount now = .ok v) :
    { r with supply := v }.f1Holds = true ∧
      { r with supply := v }.headroom.toNat + amount.toNat = r.headroom.toNat := by
  obtain ⟨-, -, hsum, hle⟩ := checkIssuance_ok.mp h
  refine ⟨f1Holds_iff_le.mpr hle, ?_⟩
  rw [toNat_headroom, toNat_headroom]
  show r.freeBacking.toNat - v.toNat + amount.toNat = _
  omega

theorem headroom_of_not_f1Holds {r : ReserveState} (h : r.f1Holds = false) :
    r.headroom = .zero := by
  have hlt : ¬ r.supply.toNat ≤ r.freeBacking.toNat := by
    rw [← f1Holds_iff_le, h]
    simp
  rw [← Thb.toNat_inj, toNat_headroom, Thb.toNat_zero]
  omega

/-- The condition of `is_issuance_open`. -/
theorem issuance_open_iff {r : ReserveState} {now : Int64} :
    (r.attestation.isFresh now && !r.headroom.isZero) = true ↔
      ∃ amount v, r.checkIssuance amount now = .ok v := by
  have hzero : (!r.headroom.isZero) = true ↔ 0 < r.headroom.toNat := by
    rw [Bool.not_eq_true', ← Bool.not_eq_true, Thb.isZero_iff, Nat.pos_iff_ne_zero]
  rw [Bool.and_eq_true, hzero]
  constructor
  · intro ⟨hfresh, hpos⟩
    exact ⟨r.headroom, checkIssuance_accepts.mpr ⟨hfresh, hpos, Nat.le_refl _⟩⟩
  · intro ⟨amount, h⟩
    obtain ⟨hfresh, hpos, hle⟩ := checkIssuance_accepts.mp h
    exact ⟨hfresh, by omega⟩

/-- The figures served to operators say what the gate does. -/
theorem figures_agree (r : ReserveState) (amount : Thb) (now : Int64) :
    ((∃ v, r.checkIssuance amount now = .ok v) ↔
      r.attestation.isFresh now = true ∧ 0 < amount.toNat ∧
        amount.toNat ≤ r.headroom.toNat) ∧
    (∀ v, r.checkIssuance amount now = .ok v →
      v.toNat = r.supply.toNat + amount.toNat ∧
        { r with supply := v }.f1Holds = true ∧
        { r with supply := v }.headroom.toNat + amount.toNat = r.headroom.toNat) ∧
    (r.f1Holds = true ↔
      (r.supply.toNat : ℤ) ≤
        max ((r.attestation.reserve.toNat : ℤ) - r.encumbered.toNat) 0) ∧
    (r.f1Holds = false → r.headroom = .zero) ∧
    ((r.attestation.isFresh now && !r.headroom.isZero) = true ↔
      ∃ amount v, r.checkIssuance amount now = .ok v) :=
  ⟨checkIssuance_accepts, fun _ h => ⟨(checkIssuance_ok.mp h).2.2.1,
    headroom_of_checkIssuance h⟩, f1Holds_iff, headroom_of_not_f1Holds, issuance_open_iff⟩

/-- Less encumbered, more admitted. -/
theorem checkIssuance_mono {r r' : ReserveState} {amount v : Thb} {now : Int64}
    (hatt : r'.attestation = r.attestation) (hsupply : r'.supply = r.supply)
    (henc : r'.encumbered.toNat ≤ r.encumbered.toNat)
    (h : r.checkIssuance amount now = .ok v) :
    r'.checkIssuance amount now = .ok v := by
  rw [checkIssuance_ok] at h ⊢
  obtain ⟨hpos, hfresh, hv, hle⟩ := h
  refine ⟨hpos, by rw [hatt]; exact hfresh, by rw [hsupply]; exact hv, ?_⟩
  rw [toNat_freeBacking] at hle ⊢
  rw [hatt]
  omega

end ReserveState

end Thbc
