import Mathlib.Algebra.BigOperators.Group.List.Basic
import Mathlib.Algebra.GroupWithZero.Nat
import Mathlib.Algebra.Order.Group.Nat

/-!
# What fits, in order

A pass over a list with so much room to fill: it takes an item that fits and
goes past one that does not. The room only shrinks on the way, so an item that
was passed over would not fit at the end either, and what has been taken cannot
be added to, whatever the order of the list (`lt_of_notMem_fill`).
-/

namespace Thbc.Lib

section Fill

variable {α : Type} {size : α → ℕ} {room : ℕ} {a : α} {l : List α}

/-- What the pass takes. -/
def fill (size : α → ℕ) : ℕ → List α → List α
  | _, [] => []
  | room, a :: l =>
      if size a ≤ room then a :: fill size (room - size a) l else fill size room l

theorem fill_cons_of_le (h : size a ≤ room) :
    fill size room (a :: l) = a :: fill size (room - size a) l := if_pos h

theorem fill_cons_of_lt (h : room < size a) :
    fill size room (a :: l) = fill size room l := if_neg (Nat.not_le_of_lt h)

theorem fill_sublist (size : α → ℕ) (room : ℕ) (l : List α) :
    (fill size room l).Sublist l := by
  induction l generalizing room with
  | nil => exact .slnil
  | cons a l ih =>
      rcases Nat.lt_or_ge room (size a) with h | h
      · rw [fill_cons_of_lt h]
        exact (ih room).cons a
      · rw [fill_cons_of_le h]
        exact (ih _).cons_cons a

/-- What is taken fits. -/
theorem sum_fill_le (size : α → ℕ) (room : ℕ) (l : List α) :
    ((fill size room l).map size).sum ≤ room := by
  induction l generalizing room with
  | nil => exact Nat.zero_le _
  | cons a l ih =>
      rcases Nat.lt_or_ge room (size a) with h | h
      · rw [fill_cons_of_lt h]
        exact ih room
      · rw [fill_cons_of_le h, List.map_cons, List.sum_cons]
        have hle := ih (room - size a)
        omega

/-- What is left behind does not fit next to what is taken. -/
theorem lt_of_notMem_fill (ha : a ∈ l) (hn : a ∉ fill size room l) :
    room < ((fill size room l).map size).sum + size a := by
  induction l generalizing room with
  | nil => cases ha
  | cons b l ih =>
      rcases Nat.lt_or_ge room (size b) with h | h
      · rw [fill_cons_of_lt h] at hn ⊢
        rcases List.mem_cons.mp ha with rfl | ha
        · omega
        · exact ih ha hn
      · rw [fill_cons_of_le h] at hn ⊢
        have hne := List.ne_of_not_mem_cons hn
        have hn := List.not_mem_of_not_mem_cons hn
        have hlt := ih (List.mem_of_ne_of_mem hne ha) hn
        rw [List.map_cons, List.sum_cons]
        omega

/-- Without room nothing is taken but what is of no size. -/
theorem fill_zero (h : ∀ a ∈ l, 0 < size a) : fill size 0 l = [] := by
  induction l with
  | nil => rfl
  | cons a l ih =>
      rw [fill_cons_of_lt (h a List.mem_cons_self)]
      exact ih fun b hb => h b (List.mem_cons_of_mem a hb)

end Fill

end Thbc.Lib
