import Mathlib.Data.List.Basic
import Mathlib.Algebra.GroupWithZero.Nat

/-!
# Numbers in bytes

Fixed-width little-endian numbers, and windows of a byte string. Reading a window
that does not lie within the string has no result, and writing one leaves the rest
of the string as it was.
-/

namespace Thbc.Lib

/-! ## Little-endian -/

/-- The number whose little-endian bytes these are. -/
def ofLe : List UInt8 → ℕ
  | [] => 0
  | b :: bs => b.toNat + 256 * ofLe bs

/-- The lower `len` bytes of a number. -/
def toLe : ℕ → ℕ → List UInt8
  | 0, _ => []
  | len + 1, n => UInt8.ofNat n :: toLe len (n / 256)

theorem length_toLe (len n : ℕ) : (toLe len n).length = len := by
  induction len generalizing n with
  | zero => rfl
  | succ len ih => rw [toLe, List.length_cons, ih]

theorem ofLe_toLe (len n : ℕ) : ofLe (toLe len n) = n % 256 ^ len := by
  induction len generalizing n with
  | zero => rw [toLe, ofLe, Nat.pow_zero, Nat.mod_one]
  | succ len ih =>
      rw [toLe, ofLe, ih, Nat.pow_succ', Nat.mod_mul]
      rfl

theorem ofLe_toLe_of_lt {len n : ℕ} (h : n < 256 ^ len) : ofLe (toLe len n) = n := by
  rw [ofLe_toLe, Nat.mod_eq_of_lt h]

/-! ## Windows -/

section Window

variable {α : Type} {bs bs' s : List α} {off len i : ℕ}

def window (bs : List α) (off len : ℕ) : List α := (bs.drop off).take len

/-- `&bs[off..off + len]`, which panics where the window is not within `bs`. -/
def window? (bs : List α) (off len : ℕ) : Option (List α) :=
  if off + len ≤ bs.length then some (window bs off len) else none

theorem window?_of_le (h : off + len ≤ bs.length) :
    window? bs off len = some (window bs off len) := if_pos h

theorem getElem?_window :
    (window bs off len)[i]? = if i < len then bs[off + i]? else none := by
  rw [window, List.getElem?_take]
  split
  · rw [List.getElem?_drop]
  · rfl

/-- A window depends on what is in it. -/
theorem window_congr (h : ∀ i, off ≤ i → i < off + len → bs[i]? = bs'[i]?) :
    window bs off len = window bs' off len := by
  refine List.ext_getElem? fun i => ?_
  rw [getElem?_window, getElem?_window]
  split
  · exact h _ (by omega) (by omega)
  · rfl

/-- `bs[off..off + s.len()].copy_from_slice(s)` -/
def patch (bs : List α) (off : ℕ) (s : List α) : List α :=
  bs.take off ++ (s ++ bs.drop (off + s.length))

theorem length_patch (h : off + s.length ≤ bs.length) :
    (patch bs off s).length = bs.length := by
  simp only [patch, List.length_append, List.length_take, List.length_drop]
  omega

theorem getElem?_patch (h : off + s.length ≤ bs.length) :
    (patch bs off s)[i]? =
      if off ≤ i ∧ i < off + s.length then s[i - off]? else bs[i]? := by
  have htake : (bs.take off).length = off := by
    rw [List.length_take]
    omega
  unfold patch
  by_cases hlo : i < off
  · rw [List.getElem?_append_left (by omega), List.getElem?_take, if_pos hlo,
      if_neg (by omega)]
  · rw [List.getElem?_append_right (by omega), htake]
    by_cases hhi : i < off + s.length
    · rw [List.getElem?_append_left (by omega), if_pos (by omega)]
    · rw [List.getElem?_append_right (by omega), List.getElem?_drop, if_neg (by omega)]
      congr 1
      omega

/-- What was written is read back. -/
theorem window_patch_self (h : off + s.length ≤ bs.length) (hlen : len = s.length) :
    window (patch bs off s) off len = s := by
  refine List.ext_getElem? fun i => ?_
  rw [getElem?_window, getElem?_patch h]
  split
  · rw [if_pos (by omega), Nat.add_sub_cancel_left]
  · exact (List.getElem?_eq_none (by omega)).symm

/-- A window beside what was written is as before. -/
theorem window_patch_of_disjoint {at' : ℕ} (h : at' + s.length ≤ bs.length)
    (hd : off + len ≤ at' ∨ at' + s.length ≤ off) :
    window (patch bs at' s) off len = window bs off len :=
  window_congr fun i hlo hhi => by rw [getElem?_patch h, if_neg (by omega)]

/-! Several writes in a row, each of them an offset and what goes there. -/

def writes (bs : List α) : List (ℕ × List α) → List α
  | [] => bs
  | (off, s) :: ws => writes (patch bs off s) ws

/-- One is over before the other begins. -/
def Apart (w w' : ℕ × List α) : Prop :=
  w.1 + w.2.length ≤ w'.1 ∨ w'.1 + w'.2.length ≤ w.1

theorem window_writes_of_apart {w : ℕ × List α} {ws : List (ℕ × List α)}
    (hfit : ∀ w' ∈ ws, w'.1 + w'.2.length ≤ bs.length) (hw : ∀ w' ∈ ws, Apart w w') :
    window (writes bs ws) w.1 w.2.length = window bs w.1 w.2.length := by
  induction ws generalizing bs with
  | nil => rfl
  | cons w' ws ih =>
      obtain ⟨hfit', hfits⟩ := List.forall_mem_cons.mp hfit
      obtain ⟨hw', hws⟩ := List.forall_mem_cons.mp hw
      rw [writes, ih (by rwa [length_patch hfit']) hws,
        window_patch_of_disjoint hfit' hw']

theorem length_writes {ws : List (ℕ × List α)}
    (hfit : ∀ w ∈ ws, w.1 + w.2.length ≤ bs.length) :
    (writes bs ws).length = bs.length := by
  induction ws generalizing bs with
  | nil => rfl
  | cons w ws ih =>
      obtain ⟨hfit', hfits⟩ := List.forall_mem_cons.mp hfit
      rw [writes, ih (by rwa [length_patch hfit']), length_patch hfit']

/-- Writes that are apart are all read back. -/
theorem window_writes {w : ℕ × List α} {ws : List (ℕ × List α)}
    (hfit : ∀ w ∈ ws, w.1 + w.2.length ≤ bs.length) (hapart : ws.Pairwise Apart)
    (hw : w ∈ ws) : window (writes bs ws) w.1 w.2.length = w.2 := by
  induction ws generalizing bs with
  | nil => cases hw
  | cons w' ws ih =>
      obtain ⟨hfit', hfits⟩ := List.forall_mem_cons.mp hfit
      obtain ⟨hw', hws⟩ := List.pairwise_cons.mp hapart
      have hfits' : ∀ w ∈ ws, w.1 + w.2.length ≤ (patch bs w'.1 w'.2).length := by
        rwa [length_patch hfit']
      obtain rfl | htail := List.mem_cons.mp hw
      · rw [writes, window_writes_of_apart hfits' hw', window_patch_self hfit' rfl]
      · exact ih hfits' hws htail

end Window

end Thbc.Lib
