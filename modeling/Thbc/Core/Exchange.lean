import Thbc.Core.Money

/-!
# The exchange path

`crates/thbc-core/src/exchange.rs`. A quote moves tokens that exist already
between the platform's inventory and a user; no field of it could express a
change of supply. The two directions truncate at different scales, and each
of them in the platform's favour: `quoteGrxForThbc_ok` and
`quoteThbcForGrx_ok` say so without the divisions.
-/

namespace Thbc

/-- Platform-held inventory backing the exchange path. -/
structure Inventory where
  thbc : Thb
  grx : Grx
  deriving DecidableEq

/-- Admin-set exchange parameters. -/
structure ExchangeParams where
  /-- THBC minor units for one whole GRX. -/
  grxPerThbcRate : UInt64
  feeBps : UInt16
  paused : Bool
  deriving DecidableEq

/-- Atoms of one whole GRX. -/
def GRX_ATOMS_PER_WHOLE : ℕ := 1000000000

def ExchangeParams.validate (p : ExchangeParams) : CoreResult Unit :=
  if p.paused then .error .paused
  else if p.grxPerThbcRate = 0 then .error .rateNotSet
  else if p.feeBps > 10000 then .error (.invalidFeeBps p.feeBps)
  else .ok ()

/-- A priced exchange of GRX for THBC. -/
structure ExchangeQuote where
  grxIn : Grx
  thbcOut : Thb
  fee : Thb
  inventoryAfter : Inventory
  deriving DecidableEq

/-- A priced exchange of THBC for GRX. -/
structure ReverseQuote where
  thbcIn : Thb
  grxOut : Grx
  fee : Grx
  inventoryAfter : Inventory
  deriving DecidableEq

/-- The user pays GRX, the platform pays THBC from its inventory. -/
def quoteGrxForThbc (grxIn : Grx) (params : ExchangeParams)
    (inventory : Inventory) : CoreResult ExchangeQuote := do
  if grxIn.isZero then throw .zeroAmount
  params.validate
  let gross ← checkedMulU128 grxIn.atoms.toNat params.grxPerThbcRate.toNat
  let gross := Thb.fromMinor (← tryFromU128 (gross / GRX_ATOMS_PER_WHOLE))
  let fee ← gross.feeBps params.feeBps
  let net := gross.saturatingSub fee
  if net.isZero then throw .zeroAmount
  -- F6: a shortfall is a refusal, never a mint.
  if net > inventory.thbc then
    throw (.insufficientInventory net.minor inventory.thbc.minor "THBC")
  let thbc ← inventory.thbc.checkedSub net
  let grx ← inventory.grx.checkedAdd grxIn
  return ⟨grxIn, net, fee, ⟨thbc, grx⟩⟩

/-- The user pays THBC into the inventory, the platform pays GRX. -/
def quoteThbcForGrx (thbcIn : Thb) (params : ExchangeParams)
    (inventory : Inventory) : CoreResult ReverseQuote := do
  if thbcIn.isZero then throw .zeroAmount
  params.validate
  let gross ← checkedMulU128 thbcIn.minor.toNat GRX_ATOMS_PER_WHOLE
  let gross := Grx.fromAtoms
    (← tryFromU128 (gross / params.grxPerThbcRate.toNat))
  let feeAtoms ← checkedMulU128 gross.atoms.toNat params.feeBps.toNat
  let fee := Grx.fromAtoms (← tryFromU128 (feeAtoms / 10000))
  let net := Grx.fromAtoms (saturatingSubU64 gross.atoms fee.atoms)
  if net.isZero then throw .zeroAmount
  if net > inventory.grx then
    throw (.insufficientInventory net.atoms inventory.grx.atoms "GRX")
  let thbc ← inventory.thbc.checkedAdd thbcIn
  let grx ← inventory.grx.checkedSub net
  return ⟨thbcIn, net, fee, ⟨thbc, grx⟩⟩

theorem validate_ok {p : ExchangeParams} :
    p.validate = .ok () ↔
      p.paused = false ∧ 0 < p.grxPerThbcRate.toNat ∧ p.feeBps.toNat ≤ 10000 := by
  have hrate : p.grxPerThbcRate = 0 ↔ p.grxPerThbcRate.toNat = 0 :=
    UInt64.toNat_inj.symm
  have hfee : p.feeBps > 10000 ↔ 10000 < p.feeBps.toNat := UInt16.lt_iff_toNat_lt
  rw [ExchangeParams.validate, guard_ok, guard_ok, guard_ok, hrate, hfee,
    Bool.not_eq_true]
  simp only [and_true]
  refine and_congr_right fun _ => ?_
  omega

/-! The quotes as one expression, without the early returns. -/

theorem quoteGrxForThbc_eq (grxIn : Grx) (params : ExchangeParams)
    (inventory : Inventory) :
    quoteGrxForThbc grxIn params inventory =
      if grxIn.isZero = true then .error .zeroAmount
      else params.validate >>= fun _ =>
        checkedMulU128 grxIn.atoms.toNat params.grxPerThbcRate.toNat >>= fun product =>
        tryFromU128 (product / GRX_ATOMS_PER_WHOLE) >>= fun gross =>
        (Thb.mk gross).feeBps params.feeBps >>= fun fee =>
          if ((Thb.mk gross).saturatingSub fee).isZero = true then .error .zeroAmount
          else if (Thb.mk gross).saturatingSub fee > inventory.thbc then
            .error (.insufficientInventory ((Thb.mk gross).saturatingSub fee).minor
              inventory.thbc.minor "THBC")
          else inventory.thbc.checkedSub ((Thb.mk gross).saturatingSub fee) >>= fun thbc =>
            inventory.grx.checkedAdd grxIn >>= fun grx =>
              .ok ⟨grxIn, (Thb.mk gross).saturatingSub fee, fee, ⟨thbc, grx⟩⟩ := by
  unfold quoteGrxForThbc
  split
  · rfl
  · rfl

theorem quoteThbcForGrx_eq (thbcIn : Thb) (params : ExchangeParams)
    (inventory : Inventory) :
    quoteThbcForGrx thbcIn params inventory =
      if thbcIn.isZero = true then .error .zeroAmount
      else params.validate >>= fun _ =>
        checkedMulU128 thbcIn.minor.toNat GRX_ATOMS_PER_WHOLE >>= fun product =>
        tryFromU128 (product / params.grxPerThbcRate.toNat) >>= fun gross =>
        checkedMulU128 gross.toNat params.feeBps.toNat >>= fun feeProduct =>
        tryFromU128 (feeProduct / 10000) >>= fun fee =>
          if (Grx.mk (saturatingSubU64 gross fee)).isZero = true then .error .zeroAmount
          else if Grx.mk (saturatingSubU64 gross fee) > inventory.grx then
            .error (.insufficientInventory (saturatingSubU64 gross fee)
              inventory.grx.atoms "GRX")
          else inventory.thbc.checkedAdd thbcIn >>= fun thbc =>
            inventory.grx.checkedSub (Grx.mk (saturatingSubU64 gross fee)) >>= fun grx =>
              .ok ⟨thbcIn, Grx.mk (saturatingSubU64 gross fee), Grx.mk fee,
                ⟨thbc, grx⟩⟩ := by
  unfold quoteThbcForGrx
  split
  · rfl
  · rfl

/-- An accepted quote, in whole numbers. -/
theorem quoteGrxForThbc_iff {grxIn : Grx} {params : ExchangeParams}
    {inventory : Inventory} {q : ExchangeQuote} :
    quoteGrxForThbc grxIn params inventory = .ok q ↔
      0 < grxIn.toNat ∧ params.validate = .ok () ∧
        ∃ gross fee : Thb,
          gross.toNat =
            grxIn.toNat * params.grxPerThbcRate.toNat / GRX_ATOMS_PER_WHOLE ∧
          fee.toNat = gross.toNat * params.feeBps.toNat / 10000 ∧
          0 < gross.toNat - fee.toNat ∧
          q.grxIn = grxIn ∧ q.thbcOut.toNat = gross.toNat - fee.toNat ∧ q.fee = fee ∧
          inventory.thbc.toNat = q.thbcOut.toNat + q.inventoryAfter.thbc.toNat ∧
          inventory.grx.toNat + grxIn.toNat = q.inventoryAfter.grx.toNat := by
  have hmul : checkedMulU128 grxIn.atoms.toNat params.grxPerThbcRate.toNat =
      .ok (grxIn.toNat * params.grxPerThbcRate.toNat) :=
    checkedMulU128_of_lt grxIn.toNat_lt params.grxPerThbcRate.toNat_lt
  rw [quoteGrxForThbc_eq, guard_ok, Grx.isZero_iff]
  simp only [bind_ok, guard_ok, hmul, tryFromU128_ok, Thb.feeBps_ok, Thb.isZero_iff,
    Thb.toNat_saturatingSub, gt_iff_lt, Thb.lt_iff, Thb.checkedSub_ok, Grx.checkedAdd_ok,
    Except.ok.injEq, exists_eq_left']
  constructor
  · intro ⟨hpos, u, hvalid, gross, hgross, fee, hfee, hnet, hle, thbc, hthbc, grx, hgrx, hq⟩
    subst hq
    exact ⟨by omega, hvalid, ⟨gross⟩, fee, hgross, hfee, by omega, rfl,
      Thb.toNat_saturatingSub _ _, rfl, (by rw [Thb.toNat_saturatingSub]; exact hthbc),
      hgrx⟩
  · intro ⟨hpos, hvalid, gross, fee, hgross, hfee, hnet, hin, hout, hq, hthbc, hgrx⟩
    refine ⟨by omega, (), hvalid, gross.minor, hgross, fee, hfee, ?_, ?_,
      q.inventoryAfter.thbc, ?_, q.inventoryAfter.grx, hgrx, ?_⟩
    · show ¬ gross.toNat - fee.toNat = 0
      omega
    · show ¬ inventory.thbc.toNat < gross.toNat - fee.toNat
      omega
    · show inventory.thbc.toNat = gross.toNat - fee.toNat + _
      omega
    · have hout' : (Thb.mk gross.minor).saturatingSub fee = q.thbcOut := by
        rw [← Thb.toNat_inj, Thb.toNat_saturatingSub]
        exact hout.symm
      rw [hout', ← hin, ← hq]

theorem quoteThbcForGrx_iff {thbcIn : Thb} {params : ExchangeParams}
    {inventory : Inventory} {q : ReverseQuote} :
    quoteThbcForGrx thbcIn params inventory = .ok q ↔
      0 < thbcIn.toNat ∧ params.validate = .ok () ∧
        ∃ gross fee : Grx,
          gross.toNat =
            thbcIn.toNat * GRX_ATOMS_PER_WHOLE / params.grxPerThbcRate.toNat ∧
          fee.toNat = gross.toNat * params.feeBps.toNat / 10000 ∧
          0 < gross.toNat - fee.toNat ∧
          q.thbcIn = thbcIn ∧ q.grxOut.toNat = gross.toNat - fee.toNat ∧ q.fee = fee ∧
          inventory.thbc.toNat + thbcIn.toNat = q.inventoryAfter.thbc.toNat ∧
          inventory.grx.toNat = q.grxOut.toNat + q.inventoryAfter.grx.toNat := by
  have hmul : checkedMulU128 thbcIn.minor.toNat GRX_ATOMS_PER_WHOLE =
      .ok (thbcIn.toNat * GRX_ATOMS_PER_WHOLE) :=
    checkedMulU128_of_lt thbcIn.toNat_lt (by decide)
  have hfeeMul : ∀ gross : UInt64,
      checkedMulU128 gross.toNat params.feeBps.toNat =
        .ok (gross.toNat * params.feeBps.toNat) := fun gross =>
    checkedMulU128_of_lt gross.toNat_lt (Nat.lt_trans params.feeBps.toNat_lt (by decide))
  have hnet : ∀ gross fee, (Grx.mk (saturatingSubU64 gross fee)).toNat =
      gross.toNat - fee.toNat := toNat_saturatingSubU64
  rw [quoteThbcForGrx_eq, guard_ok, Thb.isZero_iff]
  simp only [bind_ok, guard_ok, hmul, hfeeMul, tryFromU128_ok, Grx.isZero_iff, hnet,
    gt_iff_lt, Grx.lt_iff, Grx.checkedSub_ok, Thb.checkedAdd_ok, Except.ok.injEq,
    exists_eq_left']
  constructor
  · intro ⟨hpos, u, hvalid, gross, hgross, fee, hfee, hle, hpay, thbc, hthbc, grx, hgrx, hq⟩
    subst hq
    exact ⟨by omega, hvalid, ⟨gross⟩, ⟨fee⟩, hgross, hfee, Nat.pos_of_ne_zero hle, rfl,
      hnet _ _, rfl, hthbc, (by rw [hnet]; exact hgrx)⟩
  · intro ⟨hpos, hvalid, gross, fee, hgross, hfee, hle, hin, hout, hq, hthbc, hgrx⟩
    refine ⟨by omega, (), hvalid, gross.atoms, hgross, fee.atoms, hfee, ?_, ?_,
      q.inventoryAfter.thbc, hthbc, q.inventoryAfter.grx, ?_, ?_⟩
    · show ¬ gross.toNat - fee.toNat = 0
      omega
    · show ¬ inventory.grx.toNat < gross.toNat - fee.toNat
      omega
    · show inventory.grx.toNat = gross.toNat - fee.toNat + _
      omega
    · have hout' : Grx.mk (saturatingSubU64 gross.atoms fee.atoms) = q.grxOut := by
        rw [← Grx.toNat_inj, hnet]
        exact hout.symm
      rw [hout', ← hin, show Grx.mk fee.atoms = q.fee from hq.symm]

/-- What an accepted quote pays out is worth no more than what it takes in,
and the two change hands between the user and the inventory. -/
theorem quoteGrxForThbc_ok {grxIn : Grx} {params : ExchangeParams}
    {inventory : Inventory} {q : ExchangeQuote}
    (h : quoteGrxForThbc grxIn params inventory = .ok q) :
    0 < params.grxPerThbcRate.toNat ∧ q.grxIn = grxIn ∧
      q.thbcOut.toNat * GRX_ATOMS_PER_WHOLE ≤
        grxIn.toNat * params.grxPerThbcRate.toNat ∧
      inventory.thbc.toNat = q.thbcOut.toNat + q.inventoryAfter.thbc.toNat ∧
      q.inventoryAfter.grx.toNat = inventory.grx.toNat + grxIn.toNat := by
  obtain ⟨-, hvalid, gross, fee, hgross, -, -, hin, hout, -, hthbc, hgrx⟩ :=
    quoteGrxForThbc_iff.mp h
  have hle : gross.toNat * GRX_ATOMS_PER_WHOLE ≤
      grxIn.toNat * params.grxPerThbcRate.toNat := by
    rw [hgross]
    exact Nat.div_mul_le_self _ _
  refine ⟨(validate_ok.mp hvalid).2.1, hin, ?_, hthbc, hgrx.symm⟩
  exact Nat.le_trans (Nat.mul_le_mul_right _ (by omega)) hle

theorem quoteThbcForGrx_ok {thbcIn : Thb} {params : ExchangeParams}
    {inventory : Inventory} {q : ReverseQuote}
    (h : quoteThbcForGrx thbcIn params inventory = .ok q) :
    0 < params.grxPerThbcRate.toNat ∧ q.thbcIn = thbcIn ∧
      q.grxOut.toNat * params.grxPerThbcRate.toNat ≤
        thbcIn.toNat * GRX_ATOMS_PER_WHOLE ∧
      q.inventoryAfter.thbc.toNat = inventory.thbc.toNat + thbcIn.toNat ∧
      inventory.grx.toNat = q.grxOut.toNat + q.inventoryAfter.grx.toNat := by
  obtain ⟨-, hvalid, gross, fee, hgross, -, -, hin, hout, -, hthbc, hgrx⟩ :=
    quoteThbcForGrx_iff.mp h
  have hle : gross.toNat * params.grxPerThbcRate.toNat ≤
      thbcIn.toNat * GRX_ATOMS_PER_WHOLE := by
    rw [hgross]
    exact Nat.div_mul_le_self _ _
  refine ⟨(validate_ok.mp hvalid).2.1, hin, ?_, hthbc.symm, hgrx⟩
  exact Nat.le_trans (Nat.mul_le_mul_right _ (by omega)) hle

end Thbc
