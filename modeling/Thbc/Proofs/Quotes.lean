import Thbc.Core.Exchange
import Thbc.Lib.Tariff

/-!
# Quotes, exactly

A quote goes through `u64` and `u128`, with multiplications that are checked and
subtractions that saturate. It comes to the formula over the integers, or to a
refusal, and the checks that could not fail do not (`quotes_exact`).

The formula is a `Tariff`, in one direction with the rate above the line and in
the other below it. So what splitting an amount can gain is the library's bound
(`pricing_bounds`).
-/

namespace Thbc

open Thbc.Lib

/-! ## Exact or refused -/

theorem validate_ne_underflow (p : ExchangeParams) : p.validate ≠ .error .underflow := by
  unfold ExchangeParams.validate
  split
  · simp
  · split
    · simp
    · split
      · simp
      · simp

theorem checkedMulU128_ne_underflow (a b : ℕ) :
    checkedMulU128 a b ≠ .error .underflow := by
  unfold checkedMulU128
  split <;> simp

theorem tryFromU128_ne_underflow (n : ℕ) : tryFromU128 n ≠ .error .underflow := by
  unfold tryFromU128
  split <;> simp

theorem Thb.feeBps_ne_underflow (t : Thb) (bps : UInt16) :
    t.feeBps bps ≠ .error .underflow :=
  bind_ne_error (checkedMulU128_ne_underflow _ _) fun fee _ =>
    bind_ne_error (tryFromU128_ne_underflow _) fun u _ h => by cases h

theorem Thb.checkedAdd_ne_underflow (a b : Thb) :
    a.checkedAdd b ≠ .error .underflow := by
  unfold Thb.checkedAdd
  split <;> simp

theorem Grx.checkedAdd_ne_underflow (a b : Grx) :
    a.checkedAdd b ≠ .error .underflow := by
  unfold Grx.checkedAdd
  split <;> simp

variable (params : ExchangeParams) (inventory : Inventory)

/-- The last subtraction comes after the check that the inventory covers it. -/
theorem quoteGrxForThbc_ne_underflow (grxIn : Grx) :
    quoteGrxForThbc grxIn params inventory ≠ .error .underflow := by
  rw [quoteGrxForThbc_eq]
  split
  · simp
  · refine bind_ne_error (validate_ne_underflow _) fun _ _ =>
      bind_ne_error (checkedMulU128_ne_underflow _ _) fun _ _ =>
      bind_ne_error (tryFromU128_ne_underflow _) fun gross _ =>
      bind_ne_error (Thb.feeBps_ne_underflow _ _) fun fee _ => ?_
    split
    · simp
    · split
      · simp
      · next hle =>
          have hle : ((Thb.mk gross).saturatingSub fee).toNat ≤ inventory.thbc.toNat := by
            rw [gt_iff_lt, Thb.lt_iff] at hle
            omega
          obtain ⟨thbc, hthbc⟩ := Thb.checkedSub_of_le hle
          refine bind_ne_error (by rw [hthbc]; simp) fun _ _ =>
            bind_ne_error (Grx.checkedAdd_ne_underflow _ _) fun _ _ => by simp

theorem quoteThbcForGrx_ne_underflow (thbcIn : Thb) :
    quoteThbcForGrx thbcIn params inventory ≠ .error .underflow := by
  rw [quoteThbcForGrx_eq]
  split
  · simp
  · refine bind_ne_error (validate_ne_underflow _) fun _ _ =>
      bind_ne_error (checkedMulU128_ne_underflow _ _) fun _ _ =>
      bind_ne_error (tryFromU128_ne_underflow _) fun gross _ =>
      bind_ne_error (checkedMulU128_ne_underflow _ _) fun _ _ =>
      bind_ne_error (tryFromU128_ne_underflow _) fun fee _ => ?_
    split
    · simp
    · split
      · simp
      · next hle =>
          have hle : (Grx.mk (saturatingSubU64 gross fee)).atoms ≤ inventory.grx.atoms := by
            rw [gt_iff_lt, Grx.lt_iff] at hle
            exact UInt64.le_iff_toNat_le.mpr (Nat.not_lt.mp hle)
          refine bind_ne_error (Thb.checkedAdd_ne_underflow _ _) fun _ _ =>
            bind_ne_error ?_ fun _ _ => by simp
          rw [Grx.checkedSub, if_pos hle]
          simp

variable {params inventory} {gross : ℕ} {net : ℤ}

theorem fee_le_gross (hfee : params.feeBps.toNat ≤ 10000) (gross : ℕ) :
    gross * params.feeBps.toNat / 10000 ≤ gross :=
  Nat.div_le_of_le_mul (by rw [Nat.mul_comm]; exact Nat.mul_le_mul_right gross hfee)

theorem quoteGrxForThbc_accepts {grxIn : Grx}
    (hgross : gross = grxIn.toNat * params.grxPerThbcRate.toNat / 10 ^ 9)
    (hnet : net = gross - (gross * params.feeBps.toNat / 10000 : ℕ)) :
    (∃ q, quoteGrxForThbc grxIn params inventory = .ok q) ↔
      0 < grxIn.toNat ∧ params.paused = false ∧ 0 < params.grxPerThbcRate.toNat ∧
        params.feeBps.toNat ≤ 10000 ∧ gross < 2 ^ 64 ∧ 0 < net ∧
        net ≤ inventory.thbc.toNat ∧ inventory.grx.toNat + grxIn.toNat < 2 ^ 64 := by
  constructor
  · intro ⟨q, hq⟩
    obtain ⟨hpos, hvalid, gross', fee, hgross', hfee, hkeep, -, hout, -, hthbc, hgrx⟩ :=
      quoteGrxForThbc_iff.mp hq
    obtain ⟨hpaused, hrate, hbps⟩ := validate_ok.mp hvalid
    obtain rfl : gross = gross'.toNat := hgross.trans hgross'.symm
    rw [← hfee] at hnet
    have hlt := gross'.toNat_lt
    have hlt' := q.inventoryAfter.grx.toNat_lt
    refine ⟨hpos, hpaused, hrate, hbps, hlt, by omega, by omega, ?_⟩
    rw [hgrx]
    exact hlt'
  · intro ⟨hpos, hpaused, hrate, hbps, hlt, hnet0, hnetle, hgrx⟩
    have hfeele := fee_le_gross hbps gross
    obtain ⟨gross', hgross'⟩ := Thb.exists_toNat hlt
    obtain ⟨fee, hfee⟩ := Thb.exists_toNat (Nat.lt_of_le_of_lt hfeele hlt)
    obtain ⟨out, hout⟩ := Thb.exists_toNat
      (Nat.lt_of_le_of_lt (Nat.sub_le gross fee.toNat) hlt)
    obtain ⟨grx, hgrx'⟩ := Grx.exists_toNat hgrx
    obtain ⟨thbc, hthbc⟩ := Thb.checkedSub_of_le (a := inventory.thbc) (b := out) (by omega)
    rw [Thb.checkedSub_ok] at hthbc
    refine ⟨⟨grxIn, out, fee, ⟨thbc, grx⟩⟩, quoteGrxForThbc_iff.mpr ⟨hpos,
      validate_ok.mpr ⟨hpaused, hrate, hbps⟩, gross', fee, by rw [hgross', hgross]; rfl,
      by rw [hfee, hgross'], by omega, rfl, ?_, rfl, hthbc, hgrx'.symm⟩⟩
    show out.toNat = _
    omega

theorem quoteGrxForThbc_pays {grxIn : Grx} {q : ExchangeQuote}
    (hgross : gross = grxIn.toNat * params.grxPerThbcRate.toNat / 10 ^ 9)
    (hnet : net = gross - (gross * params.feeBps.toNat / 10000 : ℕ))
    (hq : quoteGrxForThbc grxIn params inventory = .ok q) :
    q.grxIn = grxIn ∧ q.thbcOut.toNat = net ∧ q.thbcOut.toNat + q.fee.toNat = gross ∧
      q.inventoryAfter.thbc.toNat + q.thbcOut.toNat = inventory.thbc.toNat ∧
      q.inventoryAfter.grx.toNat = inventory.grx.toNat + grxIn.toNat := by
  obtain ⟨-, -, gross', fee, hgross', hfee, hkeep, hin, hout, rfl, hthbc, hgrx⟩ :=
    quoteGrxForThbc_iff.mp hq
  obtain rfl : gross = gross'.toNat := hgross.trans hgross'.symm
  rw [← hfee] at hnet
  exact ⟨hin, by omega, by omega, by omega, by omega⟩

theorem quoteThbcForGrx_accepts {thbcIn : Thb}
    (hgross : gross = thbcIn.toNat * 10 ^ 9 / params.grxPerThbcRate.toNat)
    (hnet : net = gross - (gross * params.feeBps.toNat / 10000 : ℕ)) :
    (∃ q, quoteThbcForGrx thbcIn params inventory = .ok q) ↔
      0 < thbcIn.toNat ∧ params.paused = false ∧ 0 < params.grxPerThbcRate.toNat ∧
        params.feeBps.toNat ≤ 10000 ∧ gross < 2 ^ 64 ∧ 0 < net ∧
        net ≤ inventory.grx.toNat ∧ inventory.thbc.toNat + thbcIn.toNat < 2 ^ 64 := by
  constructor
  · intro ⟨q, hq⟩
    obtain ⟨hpos, hvalid, gross', fee, hgross', hfee, hkeep, -, hout, -, hthbc, hgrx⟩ :=
      quoteThbcForGrx_iff.mp hq
    obtain ⟨hpaused, hrate, hbps⟩ := validate_ok.mp hvalid
    obtain rfl : gross = gross'.toNat := hgross.trans hgross'.symm
    rw [← hfee] at hnet
    have hlt := gross'.toNat_lt
    have hlt' := q.inventoryAfter.thbc.toNat_lt
    refine ⟨hpos, hpaused, hrate, hbps, hlt, by omega, by omega, ?_⟩
    rw [hthbc]
    exact hlt'
  · intro ⟨hpos, hpaused, hrate, hbps, hlt, hnet0, hnetle, hthbc⟩
    have hfeele := fee_le_gross hbps gross
    obtain ⟨gross', hgross'⟩ := Grx.exists_toNat hlt
    obtain ⟨fee, hfee⟩ := Grx.exists_toNat (Nat.lt_of_le_of_lt hfeele hlt)
    obtain ⟨out, hout⟩ := Grx.exists_toNat
      (Nat.lt_of_le_of_lt (Nat.sub_le gross fee.toNat) hlt)
    obtain ⟨thbc, hthbc'⟩ := Thb.exists_toNat hthbc
    obtain ⟨grx, hgrx⟩ := Grx.exists_toNat
      (Nat.lt_of_le_of_lt (Nat.sub_le inventory.grx.toNat out.toNat) inventory.grx.toNat_lt)
    refine ⟨⟨thbcIn, out, fee, ⟨thbc, grx⟩⟩, quoteThbcForGrx_iff.mpr ⟨hpos,
      validate_ok.mpr ⟨hpaused, hrate, hbps⟩, gross', fee, by rw [hgross', hgross]; rfl,
      by rw [hfee, hgross'], by omega, rfl, ?_, rfl, hthbc'.symm, ?_⟩⟩
    · show out.toNat = _
      omega
    · show inventory.grx.toNat = out.toNat + grx.toNat
      omega

theorem quoteThbcForGrx_pays {thbcIn : Thb} {q : ReverseQuote}
    (hgross : gross = thbcIn.toNat * 10 ^ 9 / params.grxPerThbcRate.toNat)
    (hnet : net = gross - (gross * params.feeBps.toNat / 10000 : ℕ))
    (hq : quoteThbcForGrx thbcIn params inventory = .ok q) :
    q.thbcIn = thbcIn ∧ q.grxOut.toNat = net ∧ q.grxOut.toNat + q.fee.toNat = gross ∧
      q.inventoryAfter.grx.toNat + q.grxOut.toNat = inventory.grx.toNat ∧
      q.inventoryAfter.thbc.toNat = inventory.thbc.toNat + thbcIn.toNat := by
  obtain ⟨-, -, gross', fee, hgross', hfee, hkeep, hin, hout, rfl, hthbc, hgrx⟩ :=
    quoteThbcForGrx_iff.mp hq
  obtain rfl : gross = gross'.toNat := hgross.trans hgross'.symm
  rw [← hfee] at hnet
  exact ⟨hin, by omega, by omega, by omega, by omega⟩

variable (params inventory)

/-- A quote is the formula over the integers or a refusal, in both directions. On
the way no product leaves `u128`, no fee exceeds its price and no subtraction
from the inventory fails. -/
theorem quotes_exact :
    (∀ grxIn : Grx,
      let gross : ℕ := grxIn.toNat * params.grxPerThbcRate.toNat / 10 ^ 9
      let net : ℤ := gross - (gross * params.feeBps.toNat / 10000 : ℕ)
      ((∃ q, quoteGrxForThbc grxIn params inventory = .ok q) ↔
        0 < grxIn.toNat ∧ params.paused = false ∧ 0 < params.grxPerThbcRate.toNat ∧
          params.feeBps.toNat ≤ 10000 ∧ gross < 2 ^ 64 ∧ 0 < net ∧
          net ≤ inventory.thbc.toNat ∧ inventory.grx.toNat + grxIn.toNat < 2 ^ 64) ∧
      ∀ q, quoteGrxForThbc grxIn params inventory = .ok q →
        q.grxIn = grxIn ∧ q.thbcOut.toNat = net ∧ q.thbcOut.toNat + q.fee.toNat = gross ∧
          q.inventoryAfter.thbc.toNat + q.thbcOut.toNat = inventory.thbc.toNat ∧
          q.inventoryAfter.grx.toNat = inventory.grx.toNat + grxIn.toNat) ∧
    (∀ thbcIn : Thb,
      let gross : ℕ := thbcIn.toNat * 10 ^ 9 / params.grxPerThbcRate.toNat
      let net : ℤ := gross - (gross * params.feeBps.toNat / 10000 : ℕ)
      ((∃ q, quoteThbcForGrx thbcIn params inventory = .ok q) ↔
        0 < thbcIn.toNat ∧ params.paused = false ∧ 0 < params.grxPerThbcRate.toNat ∧
          params.feeBps.toNat ≤ 10000 ∧ gross < 2 ^ 64 ∧ 0 < net ∧
          net ≤ inventory.grx.toNat ∧ inventory.thbc.toNat + thbcIn.toNat < 2 ^ 64) ∧
      ∀ q, quoteThbcForGrx thbcIn params inventory = .ok q →
        q.thbcIn = thbcIn ∧ q.grxOut.toNat = net ∧ q.grxOut.toNat + q.fee.toNat = gross ∧
          q.inventoryAfter.grx.toNat + q.grxOut.toNat = inventory.grx.toNat ∧
          q.inventoryAfter.thbc.toNat = inventory.thbc.toNat + thbcIn.toNat) ∧
    (∀ a b : ℕ, a < 2 ^ 64 → b < 2 ^ 64 → checkedMulU128 a b = .ok (a * b)) ∧
    (∀ gross : ℕ, params.validate = .ok () →
      gross * params.feeBps.toNat / 10000 ≤ gross) ∧
    (∀ grxIn, quoteGrxForThbc grxIn params inventory ≠ .error .underflow) ∧
    ∀ thbcIn, quoteThbcForGrx thbcIn params inventory ≠ .error .underflow := by
  refine ⟨fun grxIn => ⟨quoteGrxForThbc_accepts rfl rfl,
      fun q hq => quoteGrxForThbc_pays rfl rfl hq⟩,
    fun thbcIn => ⟨quoteThbcForGrx_accepts rfl rfl,
      fun q hq => quoteThbcForGrx_pays rfl rfl hq⟩,
    fun a b => checkedMulU128_of_lt,
    fun gross hvalid => fee_le_gross (validate_ok.mp hvalid).2.2 gross,
    quoteGrxForThbc_ne_underflow params inventory,
    quoteThbcForGrx_ne_underflow params inventory⟩

/-! ## Amounts in pieces -/

/-- GRX to THBC. -/
def ExchangeParams.thbcTariff (p : ExchangeParams) : Tariff where
  num := p.grxPerThbcRate.toNat
  den := GRX_ATOMS_PER_WHOLE
  cut := min p.feeBps.toNat 10000
  scale := 10000
  scale_pos := by decide
  cut_le := Nat.min_le_right _ _

/-- THBC to GRX. -/
def ExchangeParams.grxTariff (p : ExchangeParams) : Tariff where
  num := GRX_ATOMS_PER_WHOLE
  den := p.grxPerThbcRate.toNat
  cut := min p.feeBps.toNat 10000
  scale := 10000
  scale_pos := by decide
  cut_le := Nat.min_le_right _ _

theorem quoteGrxForThbc_net {grxIn : Grx} {q : ExchangeQuote}
    (h : quoteGrxForThbc grxIn params inventory = .ok q) :
    q.thbcOut.toNat = params.thbcTariff.net grxIn.toNat := by
  obtain ⟨-, hvalid, gross, fee, hgross, hfee, -, -, hout, -⟩ := quoteGrxForThbc_iff.mp h
  have hcut : min params.feeBps.toNat 10000 = params.feeBps.toNat :=
    Nat.min_eq_left (validate_ok.mp hvalid).2.2
  rw [hout, hfee, hgross, Tariff.net, Tariff.keep, Tariff.fee, Tariff.gross]
  simp only [ExchangeParams.thbcTariff, hcut]

theorem quoteThbcForGrx_net {thbcIn : Thb} {q : ReverseQuote}
    (h : quoteThbcForGrx thbcIn params inventory = .ok q) :
    q.grxOut.toNat = params.grxTariff.net thbcIn.toNat := by
  obtain ⟨-, hvalid, gross, fee, hgross, hfee, -, -, hout, -⟩ := quoteThbcForGrx_iff.mp h
  have hcut : min params.feeBps.toNat 10000 = params.feeBps.toNat :=
    Nat.min_eq_left (validate_ok.mp hvalid).2.2
  rw [hout, hfee, hgross, Tariff.net, Tariff.keep, Tariff.fee, Tariff.gross]
  simp only [ExchangeParams.grxTariff, hcut]

/-- More pays no less, and an amount in `n` pieces, each of them quoted on its own,
pays at most `n - 1` minor units more than in one. -/
structure Priced {α β : Type} (amount : α → ℕ) (out : β → ℕ)
    (quote : α → CoreResult β) : Prop where
  mono : ∀ a b qa qb, amount a ≤ amount b → quote a = .ok qa → quote b = .ok qb →
    out qa ≤ out qb
  split : ∀ pieces : List (α × β), pieces ≠ [] → (∀ p ∈ pieces, quote p.1 = .ok p.2) →
    ∀ whole q, (pieces.map fun p => amount p.1).sum = amount whole → quote whole = .ok q →
      (pieces.map fun p => out p.2).sum ≤ out q + (pieces.length - 1)

theorem Priced.of_net {α β : Type} {amount : α → ℕ} {out : β → ℕ}
    {quote : α → CoreResult β} (t : Tariff)
    (h : ∀ a q, quote a = .ok q → out q = t.net (amount a)) :
    Priced amount out quote where
  mono a b qa qb hle ha hb := by
    rw [h a qa ha, h b qb hb]
    exact t.net_mono hle
  split pieces hne hpieces whole q hsum hwhole := by
    have hout : (pieces.map fun p => out p.2) =
        (pieces.map fun p => amount p.1).map t.net := by
      rw [List.map_map]
      exact List.map_congr_left fun p hp => h p.1 p.2 (hpieces p hp)
    cases pieces with
    | nil => exact absurd rfl hne
    | cons p pieces =>
        have hle := t.net_sum_le (amount p.1) (pieces.map fun p => amount p.1)
        rw [hout, h whole q hwhole, ← hsum]
        simpa using hle

theorem pricing_bounds :
    Priced Grx.toNat (fun q => q.thbcOut.toNat)
        (fun grxIn => quoteGrxForThbc grxIn params inventory) ∧
      Priced Thb.toNat (fun q => q.grxOut.toNat)
        (fun thbcIn => quoteThbcForGrx thbcIn params inventory) :=
  ⟨.of_net params.thbcTariff fun _ _ h => quoteGrxForThbc_net params inventory h,
    .of_net params.grxTariff fun _ _ h => quoteThbcForGrx_net params inventory h⟩

end Thbc
