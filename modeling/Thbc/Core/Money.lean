import Thbc.Core.Error
import Mathlib.Algebra.GroupWithZero.Nat
import Mathlib.Data.Nat.Notation

/-!
# Money of the payment leg

`crates/thbc-core/src/money.rs`. Both units are a `u64` of minor units and
both do checked arithmetic only; `toNat` is the amount as a plain number, the
one the accounting identities are about. Time is an `i64` of Unix seconds,
and every difference of two times in the source is `i64::saturating_sub`.
-/

namespace Thbc

/-- `u128::checked_mul`. -/
def checkedMulU128 (a b : ℕ) : CoreResult ℕ :=
  if a * b < 2 ^ 128 then .ok (a * b) else .error .mathOverflow

/-- `u64::try_from`, on a `u128`. -/
def tryFromU128 (n : ℕ) : CoreResult UInt64 :=
  if n < UInt64.size then .ok (UInt64.ofNat n) else .error .mathOverflow

/-- `u64::saturating_sub`. -/
def saturatingSubU64 (a b : UInt64) : UInt64 := if b ≤ a then a - b else 0

/-- A `u64` times a `u64` fits. -/
theorem checkedMulU128_of_lt {a b : ℕ} (ha : a < 2 ^ 64) (hb : b < 2 ^ 64) :
    checkedMulU128 a b = .ok (a * b) := by
  have hlt : a * b < 2 ^ 64 * 2 ^ 64 := Nat.mul_lt_mul'' ha hb
  exact if_pos (Nat.lt_of_lt_of_le hlt (by decide))

theorem tryFromU128_ok {n : ℕ} {u : UInt64} :
    tryFromU128 n = .ok u ↔ u.toNat = n := by
  unfold tryFromU128
  split
  · next hlt =>
      have hto := UInt64.toNat_ofNat_of_lt' hlt
      rw [Except.ok.injEq, ← UInt64.toNat_inj, hto, eq_comm]
  · next hge =>
      constructor
      · intro h
        cases h
      · intro h
        rw [← h] at hge
        exact absurd u.toNat_lt hge

theorem toNat_saturatingSubU64 (a b : UInt64) :
    (saturatingSubU64 a b).toNat = a.toNat - b.toNat := by
  unfold saturatingSubU64
  split
  · next h => exact UInt64.toNat_sub_of_le _ _ h
  · next h =>
      rw [UInt64.le_iff_toNat_le] at h
      show 0 = _
      omega

/-- A Thai baht amount in THBC minor units. -/
structure Thb where
  minor : UInt64
  deriving DecidableEq

namespace Thb

def zero : Thb := ⟨0⟩

def fromMinor (minor : UInt64) : Thb := ⟨minor⟩

/-- The amount as a number. -/
def toNat (t : Thb) : ℕ := t.minor.toNat

def isZero (t : Thb) : Bool := t.minor == 0

def checkedAdd (t rhs : Thb) : CoreResult Thb :=
  if t.minor.toNat + rhs.minor.toNat < UInt64.size then
    .ok ⟨t.minor + rhs.minor⟩
  else .error .mathOverflow

def checkedSub (t rhs : Thb) : CoreResult Thb :=
  if rhs.minor ≤ t.minor then .ok ⟨t.minor - rhs.minor⟩ else .error .underflow

def saturatingSub (t rhs : Thb) : Thb :=
  if rhs.minor ≤ t.minor then ⟨t.minor - rhs.minor⟩ else ⟨0⟩

/-- Basis-point fee on the amount, truncating. -/
def feeBps (t : Thb) (bps : UInt16) : CoreResult Thb := do
  let fee ← checkedMulU128 t.minor.toNat bps.toNat
  return ⟨← tryFromU128 (fee / 10000)⟩

instance : LE Thb := ⟨fun a b => a.minor ≤ b.minor⟩
instance : LT Thb := ⟨fun a b => a.minor < b.minor⟩
instance (a b : Thb) : Decidable (a ≤ b) := inferInstanceAs (Decidable (a.minor ≤ b.minor))
instance (a b : Thb) : Decidable (a < b) := inferInstanceAs (Decidable (a.minor < b.minor))

@[simp] theorem toNat_zero : Thb.zero.toNat = 0 := rfl

theorem toNat_lt (t : Thb) : t.toNat < UInt64.size := t.minor.toNat_lt

theorem toNat_inj {a b : Thb} : a.toNat = b.toNat ↔ a = b := by
  cases a; cases b
  simp [toNat, UInt64.toNat_inj]

theorem exists_toNat {n : ℕ} (h : n < UInt64.size) : ∃ t : Thb, t.toNat = n :=
  ⟨⟨UInt64.ofNat n⟩, UInt64.toNat_ofNat_of_lt' h⟩

theorem le_iff {a b : Thb} : a ≤ b ↔ a.toNat ≤ b.toNat := UInt64.le_iff_toNat_le

theorem lt_iff {a b : Thb} : a < b ↔ a.toNat < b.toNat := UInt64.lt_iff_toNat_lt

theorem isZero_iff {t : Thb} : t.isZero = true ↔ t.toNat = 0 := by
  simp [isZero, toNat, ← UInt64.toNat_inj]

theorem checkedAdd_ok {a b c : Thb} :
    a.checkedAdd b = .ok c ↔ a.toNat + b.toNat = c.toNat := by
  unfold checkedAdd
  split
  · next h =>
      have hs : (a.minor + b.minor).toNat = a.minor.toNat + b.minor.toNat := by
        rw [UInt64.toNat_add, Nat.mod_eq_of_lt h]
      rw [Except.ok.injEq, ← toNat_inj]
      simp only [toNat, hs]
  · next h =>
      have := c.toNat_lt
      simp only [toNat] at *
      refine ⟨fun h' => ?_, fun h' => by omega⟩
      cases h'

/-- The fee is truncated, and of a rate of at most 100% it fits. -/
theorem feeBps_ok {t fee : Thb} {bps : UInt16} :
    t.feeBps bps = .ok fee ↔ fee.toNat = t.toNat * bps.toNat / 10000 := by
  have hmul : checkedMulU128 t.minor.toNat bps.toNat = .ok (t.toNat * bps.toNat) :=
    checkedMulU128_of_lt t.toNat_lt (Nat.lt_trans bps.toNat_lt (by decide))
  rw [feeBps, hmul]
  show (tryFromU128 (t.toNat * bps.toNat / 10000) >>= fun fee' =>
    pure (⟨fee'⟩ : Thb)) = .ok fee ↔ fee.minor.toNat = _
  rw [← tryFromU128_ok, bind_ok]
  refine ⟨fun ⟨u, hu, h⟩ => ?_, fun h => ⟨fee.minor, h, rfl⟩⟩
  rw [← Except.ok.inj h]
  exact hu

theorem checkedAdd_of_lt {a b : Thb} (h : a.toNat + b.toNat < UInt64.size) :
    ∃ c, a.checkedAdd b = .ok c := by
  exact ⟨_, if_pos h⟩

theorem checkedSub_ok {a b c : Thb} :
    a.checkedSub b = .ok c ↔ a.toNat = b.toNat + c.toNat := by
  unfold checkedSub
  split
  · next h =>
      have hs : (a.minor - b.minor).toNat = a.minor.toNat - b.minor.toNat :=
        UInt64.toNat_sub_of_le _ _ h
      rw [UInt64.le_iff_toNat_le] at h
      rw [Except.ok.injEq, ← toNat_inj]
      simp only [toNat, hs]
      omega
  · next h =>
      rw [UInt64.le_iff_toNat_le] at h
      simp only [toNat] at *
      refine ⟨fun h' => ?_, fun h' => by omega⟩
      cases h'

theorem checkedSub_of_le {a b : Thb} (h : b.toNat ≤ a.toNat) :
    ∃ c, a.checkedSub b = .ok c := by
  exact ⟨_, if_pos (UInt64.le_iff_toNat_le.mpr h)⟩

@[simp] theorem toNat_saturatingSub (a b : Thb) :
    (a.saturatingSub b).toNat = a.toNat - b.toNat := by
  unfold saturatingSub
  split
  · next h => exact UInt64.toNat_sub_of_le _ _ h
  · next h =>
      rw [UInt64.le_iff_toNat_le] at h
      simp only [toNat]
      show 0 = _
      omega

/-- Adding up amounts one checked step at a time gives their sum, or fails
where the sum leaves `u64`. -/
theorem foldlM_checkedAdd {α : Type} (f : α → Thb) (l : List α) (acc t : Thb) :
    l.foldlM (fun acc a => acc.checkedAdd (f a)) acc = .ok t ↔
      acc.toNat + (l.map fun a => (f a).toNat).sum = t.toNat := by
  induction l generalizing acc with
  | nil =>
      rw [List.map_nil, List.sum_nil, Nat.add_zero, toNat_inj]
      exact Except.ok.injEq acc t ▸ Iff.rfl
  | cons a as ih =>
      rw [List.foldlM_cons, bind_ok, List.map_cons, List.sum_cons]
      refine ⟨fun h => ?_, fun h => ?_⟩
      · obtain ⟨c, hc, hfold⟩ := h
        have hsum := checkedAdd_ok.mp hc
        have hrest := (ih c).mp hfold
        omega
      · have := t.toNat_lt
        obtain ⟨c, hc⟩ := checkedAdd_of_lt (a := acc) (b := f a) (by omega)
        have hsum := checkedAdd_ok.mp hc
        exact ⟨c, hc, (ih c).mpr (by omega)⟩

end Thb

/-- A GRX amount in atoms. -/
structure Grx where
  atoms : UInt64
  deriving DecidableEq

namespace Grx

def zero : Grx := ⟨0⟩

def fromAtoms (atoms : UInt64) : Grx := ⟨atoms⟩

/-- The amount as a number. -/
def toNat (g : Grx) : ℕ := g.atoms.toNat

def isZero (g : Grx) : Bool := g.atoms == 0

def checkedAdd (g rhs : Grx) : CoreResult Grx :=
  if g.atoms.toNat + rhs.atoms.toNat < UInt64.size then
    .ok ⟨g.atoms + rhs.atoms⟩
  else .error .mathOverflow

def checkedSub (g rhs : Grx) : CoreResult Grx :=
  if rhs.atoms ≤ g.atoms then .ok ⟨g.atoms - rhs.atoms⟩ else .error .underflow

instance : LT Grx := ⟨fun a b => a.atoms < b.atoms⟩
instance (a b : Grx) : Decidable (a < b) := inferInstanceAs (Decidable (a.atoms < b.atoms))

theorem toNat_lt (g : Grx) : g.toNat < UInt64.size := g.atoms.toNat_lt

theorem toNat_inj {a b : Grx} : a.toNat = b.toNat ↔ a = b := by
  cases a; cases b
  simp [toNat, UInt64.toNat_inj]

theorem exists_toNat {n : ℕ} (h : n < UInt64.size) : ∃ g : Grx, g.toNat = n :=
  ⟨⟨UInt64.ofNat n⟩, UInt64.toNat_ofNat_of_lt' h⟩

theorem lt_iff {a b : Grx} : a < b ↔ a.toNat < b.toNat := UInt64.lt_iff_toNat_lt

theorem isZero_iff {g : Grx} : g.isZero = true ↔ g.toNat = 0 := by
  simp [isZero, toNat, ← UInt64.toNat_inj]

theorem checkedAdd_ok {a b c : Grx} :
    a.checkedAdd b = .ok c ↔ a.toNat + b.toNat = c.toNat := by
  unfold checkedAdd
  split
  · next h =>
      have hs : (a.atoms + b.atoms).toNat = a.atoms.toNat + b.atoms.toNat := by
        rw [UInt64.toNat_add, Nat.mod_eq_of_lt h]
      rw [Except.ok.injEq, ← toNat_inj]
      simp only [toNat, hs]
  · next h =>
      have := c.toNat_lt
      simp only [toNat] at *
      refine ⟨fun h' => ?_, fun h' => by omega⟩
      cases h'

theorem checkedSub_ok {a b c : Grx} :
    a.checkedSub b = .ok c ↔ a.toNat = b.toNat + c.toNat := by
  unfold checkedSub
  split
  · next h =>
      have hs : (a.atoms - b.atoms).toNat = a.atoms.toNat - b.atoms.toNat :=
        UInt64.toNat_sub_of_le _ _ h
      rw [UInt64.le_iff_toNat_le] at h
      rw [Except.ok.injEq, ← toNat_inj]
      simp only [toNat, hs]
      omega
  · next h =>
      rw [UInt64.le_iff_toNat_le] at h
      simp only [toNat] at *
      refine ⟨fun h' => ?_, fun h' => by omega⟩
      cases h'

end Grx

/-- `i64::saturating_sub`. -/
def saturatingSub (a b : Int64) : Int64 :=
  Int64.ofInt (max Int64.minValue.toInt (min Int64.maxValue.toInt
    (a.toInt - b.toInt)))

theorem toInt_saturatingSub (a b : Int64) :
    (saturatingSub a b).toInt =
      max Int64.minValue.toInt (min Int64.maxValue.toInt (a.toInt - b.toInt)) := by
  have h₁ : Int64.minValue.toInt = -2 ^ 63 := rfl
  have h₂ : Int64.maxValue.toInt = 2 ^ 63 - 1 := rfl
  rw [saturatingSub, h₁, h₂, Int64.toInt_ofInt_of_le]
  · omega
  · omega

/-- Between times that are not negative nothing saturates. -/
theorem toInt_saturatingSub_of_nonneg {a b : Int64} (ha : 0 ≤ a.toInt)
    (hb : 0 ≤ b.toInt) : (saturatingSub a b).toInt = a.toInt - b.toInt := by
  have h₁ : Int64.minValue.toInt = -2 ^ 63 := rfl
  have h₂ : Int64.maxValue.toInt = 2 ^ 63 - 1 := rfl
  have := a.toInt_lt
  have := b.toInt_lt
  rw [toInt_saturatingSub, h₁, h₂]
  omega

end Thbc
