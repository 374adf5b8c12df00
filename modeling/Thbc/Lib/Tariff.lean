import Mathlib.Algebra.BigOperators.Group.List.Basic
import Mathlib.Algebra.Order.Group.Nat
import Mathlib.Data.Nat.ModEq

/-!
# Prices with a fee taken out

An amount is priced at a rate `num / den`, rounded down, and the fee is a part of
that price, `cut / scale`, rounded down too. The two roundings pull in opposite
directions: pieces of an amount are priced at no more than the whole
(`gross_add`), but what a piece keeps after its fee is rounded up (`keep_add_le`).
Together a piece more is worth at most one unit more (`net_sum_le`).
-/

namespace Thbc.Lib

/-- A rate, and the part of the price that is the fee. -/
structure Tariff where
  num : ℕ
  den : ℕ
  cut : ℕ
  scale : ℕ
  scale_pos : 0 < scale
  cut_le : cut ≤ scale

namespace Tariff

variable (t : Tariff)

def gross (a : ℕ) : ℕ := a * t.num / t.den

def fee (g : ℕ) : ℕ := g * t.cut / t.scale

/-- What is left of a price. -/
def keep (g : ℕ) : ℕ := g - t.fee g

def net (a : ℕ) : ℕ := t.keep (t.gross a)

theorem fee_le (g : ℕ) : t.fee g ≤ g :=
  Nat.div_le_of_le_mul (by rw [Nat.mul_comm]; exact Nat.mul_le_mul_right g t.cut_le)

/-- A unit more of the price is at most a unit more of the fee. -/
theorem fee_add_le (g d : ℕ) : t.fee (g + d) ≤ t.fee g + d := by
  have hd : d * t.cut ≤ d * t.scale := Nat.mul_le_mul_left d t.cut_le
  calc t.fee (g + d) = (g * t.cut + d * t.cut) / t.scale := by rw [fee, Nat.add_mul]
    _ ≤ (g * t.cut + d * t.scale) / t.scale := Nat.div_le_div_right (by omega)
    _ = t.fee g + d := Nat.add_mul_div_right _ _ t.scale_pos

theorem keep_mono {g g' : ℕ} (h : g ≤ g') : t.keep g ≤ t.keep g' := by
  obtain ⟨d, rfl⟩ := Nat.exists_eq_add_of_le h
  have hfee := t.fee_add_le g d
  unfold keep
  omega

/-- The fee on two prices together is at most one more than the two fees. -/
theorem fee_add (g g' : ℕ) : t.fee (g + g') ≤ t.fee g + t.fee g' + 1 := by
  unfold fee
  rw [Nat.add_mul]
  exact Nat.add_div_le_div_add_div_add_one _ _ _

theorem keep_add_le (g g' : ℕ) : t.keep g + t.keep g' ≤ t.keep (g + g') + 1 := by
  have hfee := t.fee_add g g'
  have hle := t.fee_le g
  have hle' := t.fee_le g'
  unfold keep
  omega

theorem gross_mono {a b : ℕ} (h : a ≤ b) : t.gross a ≤ t.gross b :=
  Nat.div_le_div_right (Nat.mul_le_mul_right _ h)

theorem gross_add (a b : ℕ) : t.gross a + t.gross b ≤ t.gross (a + b) := by
  unfold gross
  rw [Nat.add_mul]
  exact Nat.div_add_div_le_add_div

theorem net_mono {a b : ℕ} (h : a ≤ b) : t.net a ≤ t.net b :=
  t.keep_mono (t.gross_mono h)

theorem net_add_le (a b : ℕ) : t.net a + t.net b ≤ t.net (a + b) + 1 :=
  Nat.le_trans (t.keep_add_le _ _) (Nat.add_le_add_right (t.keep_mono (t.gross_add a b)) 1)

/-- Splitting gains at most one unit for each piece after the first. -/
theorem net_sum_le (a : ℕ) (l : List ℕ) :
    ((a :: l).map t.net).sum ≤ t.net (a :: l).sum + l.length := by
  induction l generalizing a with
  | nil => simp
  | cons b l ih =>
      have htwo := t.net_add_le a (b :: l).sum
      have hrest := ih b
      simp only [List.map_cons, List.sum_cons, List.length_cons] at htwo hrest ⊢
      omega

end Tariff

end Thbc.Lib
