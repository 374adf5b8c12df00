import Thbc.Core.Exchange
import Mathlib.Logic.Function.Basic
import Mathlib.Tactic.Linarith

/-!
# The exchange cannot be drained

At a fixed rate the inventory has a value, the two holdings on one scale.
Each quote pays out no more value than it takes in, whatever the fee, so the
value never falls over a sequence of trades (`value_le_of_trade`, then
`tradeAll_cases`). On the other side of each trade the worth of the trader's
holding does not rise, and a trade of somebody else leaves it alone.
-/

namespace Thbc

/-- One trade, with what the parameters are at that moment but for the
rate. -/
inductive Trade where
  | grxForThbc (grxIn : Grx) (feeBps : UInt16) (paused : Bool)
  | thbcForGrx (thbcIn : Thb) (feeBps : UInt16) (paused : Bool)
  deriving DecidableEq

/-- The inventory, and what everyone holds. A holding is an exact integer and
may be negative: what a trader can pay is not the exchange's business. -/
structure Market where
  inventory : Inventory
  thbc : String → ℤ
  grx : String → ℤ

def Inventory.value (rate : UInt64) (i : Inventory) : ℤ :=
  (i.thbc.toNat : ℤ) * GRX_ATOMS_PER_WHOLE + (i.grx.toNat : ℤ) * rate.toNat

/-- What a trader's holding is worth, on the same scale. -/
def Market.worth (rate : UInt64) (m : Market) (who : String) : ℤ :=
  m.thbc who * GRX_ATOMS_PER_WHOLE + m.grx who * rate.toNat

def Market.trade (rate : UInt64) (m : Market) (t : String × Trade) :
    CoreResult Market :=
  match t.2 with
  | .grxForThbc grxIn feeBps paused => do
      let q ← quoteGrxForThbc grxIn ⟨rate, feeBps, paused⟩ m.inventory
      return {
        inventory := q.inventoryAfter
        thbc := Function.update m.thbc t.1 (m.thbc t.1 + q.thbcOut.toNat)
        grx := Function.update m.grx t.1 (m.grx t.1 - q.grxIn.toNat) }
  | .thbcForGrx thbcIn feeBps paused => do
      let q ← quoteThbcForGrx thbcIn ⟨rate, feeBps, paused⟩ m.inventory
      return {
        inventory := q.inventoryAfter
        thbc := Function.update m.thbc t.1 (m.thbc t.1 - q.thbcIn.toNat)
        grx := Function.update m.grx t.1 (m.grx t.1 + q.grxOut.toNat) }

def Market.tradeAll (rate : UInt64) (m : Market) (ts : List (String × Trade)) :
    CoreResult Market :=
  ts.foldlM (Market.trade rate) m

namespace Market

variable {rate : UInt64} {m m' : Market}

theorem value_le_of_trade {t : String × Trade} (h : m.trade rate t = .ok m') :
    0 < rate.toNat ∧ m.inventory.value rate ≤ m'.inventory.value rate ∧
      ∀ who, m'.worth rate who ≤ m.worth rate who := by
  obtain ⟨who, t⟩ := t
  cases t with
  | grxForThbc grxIn feeBps paused =>
      obtain ⟨q, hq, h⟩ := bind_ok.mp h
      obtain rfl := Except.ok.inj h
      obtain ⟨hrate, hin, hle, hthbc, hgrx⟩ := quoteGrxForThbc_ok hq
      have hle' : (q.thbcOut.toNat : ℤ) * GRX_ATOMS_PER_WHOLE ≤
          grxIn.toNat * rate.toNat := by exact_mod_cast hle
      refine ⟨hrate, ?_, fun other => ?_⟩
      · simp only [Inventory.value, hthbc, hgrx, Nat.cast_add]
        linarith
      · unfold worth
        by_cases hw : other = who
        · subst hw
          simp only [Function.update_self, hin]
          linarith
        · simp only [Function.update_of_ne hw, le_refl]
  | thbcForGrx thbcIn feeBps paused =>
      obtain ⟨q, hq, h⟩ := bind_ok.mp h
      obtain rfl := Except.ok.inj h
      obtain ⟨hrate, hin, hle, hthbc, hgrx⟩ := quoteThbcForGrx_ok hq
      have hle' : (q.grxOut.toNat : ℤ) * rate.toNat ≤
          thbcIn.toNat * GRX_ATOMS_PER_WHOLE := by exact_mod_cast hle
      refine ⟨hrate, ?_, fun other => ?_⟩
      · simp only [Inventory.value, hthbc, hgrx, Nat.cast_add]
        linarith
      · unfold worth
        by_cases hw : other = who
        · subst hw
          simp only [Function.update_self, hin]
          linarith
        · simp only [Function.update_of_ne hw, le_refl]

theorem tradeAll_cases {ts : List (String × Trade)}
    (h : m.tradeAll rate ts = .ok m') :
    m' = m ∨ 0 < rate.toNat ∧ m.inventory.value rate ≤ m'.inventory.value rate ∧
      ∀ who, m'.worth rate who ≤ m.worth rate who := by
  induction ts generalizing m with
  | nil => exact .inl (Except.ok.inj h).symm
  | cons t ts ih =>
      rw [tradeAll, List.foldlM_cons, bind_ok] at h
      obtain ⟨m₁, hfirst, hrest⟩ := h
      obtain ⟨hrate, hvalue, hworth⟩ := value_le_of_trade hfirst
      obtain rfl | ⟨-, hvalue', hworth'⟩ := ih hrest
      · exact .inr ⟨hrate, hvalue, hworth⟩
      · exact .inr ⟨hrate, le_trans hvalue hvalue',
          fun who => le_trans (hworth' who) (hworth who)⟩

/-- No sequence of accepted trades lowers the value of the inventory, and a
trader who is back at the same holding of the one asset has no more of the
other. -/
theorem never_drained (rate : UInt64) (m m' : Market)
    (ts : List (String × Trade)) (h : m.tradeAll rate ts = .ok m') :
    m.inventory.value rate ≤ m'.inventory.value rate ∧
      ∀ who, (m'.thbc who = m.thbc who → m'.grx who ≤ m.grx who) ∧
        (m'.grx who = m.grx who → m'.thbc who ≤ m.thbc who) := by
  obtain rfl | ⟨hrate, hvalue, hworth⟩ := tradeAll_cases h
  · exact ⟨le_refl _, fun who => ⟨fun _ => le_refl _, fun _ => le_refl _⟩⟩
  · have hrate' : (0 : ℤ) < rate.toNat := by exact_mod_cast hrate
    have hscale : (0 : ℤ) < GRX_ATOMS_PER_WHOLE := by decide
    refine ⟨hvalue, fun who => ⟨fun hthbc => ?_, fun hgrx => ?_⟩⟩
    · have hle := hworth who
      rw [worth, worth, hthbc] at hle
      exact le_of_mul_le_mul_right (by linarith) hrate'
    · have hle := hworth who
      rw [worth, worth, hgrx] at hle
      exact le_of_mul_le_mul_right (by linarith) hscale

/-- Three GRX sold and bought back, at two fees. -/
theorem never_drained_round_trip :
    let m : Market := ⟨⟨⟨1000000000⟩, ⟨1000000000000⟩⟩, 0, 0⟩
    let ts : List (String × Trade) := [("alice", .grxForThbc ⟨3000000000⟩ 25 false),
      ("alice", .thbcForGrx ⟨11970000⟩ 0 false)]
    ∃ m', m.tradeAll 4000000 ts = .ok m' ∧
      m.inventory.value 4000000 ≤ m'.inventory.value 4000000 ∧
      ∀ who, (m'.thbc who = m.thbc who → m'.grx who ≤ m.grx who) ∧
        (m'.grx who = m.grx who → m'.thbc who ≤ m.thbc who) := by
  intro m ts
  have hok : (m.tradeAll 4000000 ts).map Market.inventory =
      .ok ⟨⟨1000000000⟩, ⟨1000007500000⟩⟩ := by decide
  cases h : m.tradeAll 4000000 ts with
  | error e => rw [h] at hok; cases hok
  | ok m' => exact ⟨m', rfl, never_drained 4000000 m m' ts h⟩

end Market

end Thbc
