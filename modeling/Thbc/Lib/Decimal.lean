import Mathlib.Algebra.Order.Ring.Int
import Mathlib.Tactic.Ring

/-!
# Integers in a text

How `str::parse` reads an integer of any width: a sign, where the type has one for it, and
then digit after digit, with a checked product and a checked sum for each. What it accepts is
`fromStr_ok`, whatever the width: no text is refused whose number fits, since the numbers on
the way to it fit as well.
-/

namespace Thbc.Lib

/-- A machine integer: the numbers of a range around zero. -/
class MachineInt (T : Type) where
  min : ℤ
  max : ℤ
  toInt : T → ℤ
  ofInt : ℤ → T
  min_nonpos : min ≤ 0
  max_nonneg : 0 ≤ max
  toInt_bounds : ∀ n, min ≤ toInt n ∧ toInt n ≤ max
  ofInt_toInt : ∀ n, ofInt (toInt n) = n
  toInt_ofInt : ∀ {k}, min ≤ k → k ≤ max → toInt (ofInt k) = k

/-- What is wrong with a text that is no integer. -/
inductive IntErrorKind where
  | empty
  | invalidDigit
  | posOverflow
  | negOverflow
  deriving DecidableEq

def IntErrorKind.text : IntErrorKind → String
  | .empty => "cannot parse integer from empty string"
  | .invalidDigit => "invalid digit found in string"
  | .posOverflow => "number too large to fit in target type"
  | .negOverflow => "number too small to fit in target type"

namespace MachineInt

variable {T : Type} [MachineInt T]

/-- The result of a checked operation. -/
def checked (k : ℤ) : Option T := if min T ≤ k ∧ k ≤ max T then some (ofInt k) else none

/-- The digits from the left, each added, or taken away under a minus sign. -/
def readDigits (sign : ℤ) (overflow : IntErrorKind) : T → List Char → Except IntErrorKind T
  | n, [] => .ok n
  | n, c :: cs =>
      if c.isDigit then
        match (checked (toInt n * 10) : Option T) with
        | none => .error overflow
        | some tens =>
          match (checked (toInt tens + sign * (c.toNat - '0'.toNat : ℕ)) : Option T) with
          | none => .error overflow
          | some next => readDigits sign overflow next cs
      else .error .invalidDigit

/-- A sign alone is no number, and a minus sign is a digit that an unsigned type does not have. -/
def fromStr (s : String) : Except IntErrorKind T :=
  match s.toList with
  | [] => .error .empty
  | ['+'] | ['-'] => .error .invalidDigit
  | c :: cs =>
      if c = '+' then readDigits 1 .posOverflow (ofInt 0) cs
      else if c = '-' ∧ min T < 0 then readDigits (-1) .negOverflow (ofInt 0) cs
      else readDigits 1 .posOverflow (ofInt 0) (c :: cs)

/-- Digits, and at least one. -/
def Digits (cs : List Char) : Prop := cs ≠ [] ∧ ∀ c ∈ cs, c.isDigit

/-- The texts of a number. -/
inductive Numeral : List Char → T → Prop
  | plain {cs n} (h : Digits cs) (hn : toInt n = Nat.ofDigitChars 10 cs 0) : Numeral cs n
  | plus {cs n} (h : Digits cs) (hn : toInt n = Nat.ofDigitChars 10 cs 0) : Numeral ('+' :: cs) n
  | minus {cs n} (hsigned : min T < 0) (h : Digits cs)
      (hn : toInt n = -Nat.ofDigitChars 10 cs 0) : Numeral ('-' :: cs) n

/-- How a number is printed. -/
def display (n : T) : String := toString (toInt n)

theorem toInt_inj {n m : T} (h : toInt n = toInt m) : n = m := by
  rw [← ofInt_toInt n, h, ofInt_toInt]

theorem checked_some {k : ℤ} {n : T} : checked k = some n ↔ toInt n = k := by
  unfold checked
  constructor
  · intro h
    split at h
    · next hk =>
        obtain rfl := Option.some.inj h
        exact toInt_ofInt hk.1 hk.2
    · cases h
  · rintro rfl
    rw [if_pos (toInt_bounds n), ofInt_toInt]

/-- Between zero and a number that fits there are none but numbers that fit. -/
theorem exists_checked {sign : ℤ} (hsign : sign = 1 ∨ sign = -1) {a b : ℕ} (hab : a ≤ b) {n : T}
    (hn : toInt n = sign * b) : ∃ m : T, checked (sign * a) = some m := by
  have hb := toInt_bounds n
  have hmin := min_nonpos (T := T)
  have hmax := max_nonneg (T := T)
  have hab' : (a : ℤ) ≤ b := Int.ofNat_le.mpr hab
  refine ⟨ofInt (sign * a), if_pos ?_⟩
  obtain rfl | rfl := hsign <;> constructor <;> omega

theorem le_ofDigitChars (cs : List Char) (m : ℕ) : m ≤ Nat.ofDigitChars 10 cs m := by
  rw [Nat.ofDigitChars_eq_ofDigitChars_zero]
  have hpos : 1 ≤ 10 ^ cs.length := Nat.one_le_pow _ _ (by decide)
  calc m = 1 * m := (Nat.one_mul m).symm
    _ ≤ 10 ^ cs.length * m := Nat.mul_le_mul_right m hpos
    _ ≤ _ := Nat.le_add_right _ _

theorem readDigits_ok {sign : ℤ} (hsign : sign = 1 ∨ sign = -1) {overflow : IntErrorKind}
    {cs : List Char} {n n' : T} {m : ℕ} (hn : toInt n = sign * m) :
    readDigits sign overflow n cs = .ok n' ↔
      (∀ c ∈ cs, c.isDigit) ∧ toInt n' = sign * Nat.ofDigitChars 10 cs m := by
  induction cs generalizing n m with
  | nil =>
      rw [readDigits, Nat.ofDigitChars_nil, ← hn]
      simp only [Except.ok.injEq, List.not_mem_nil, false_implies, implies_true, true_and]
      exact ⟨fun h => by rw [h], fun h => (toInt_inj h).symm⟩
  | cons c cs ih =>
      rw [readDigits, List.forall_mem_cons, Nat.ofDigitChars_cons]
      have htens : toInt n * 10 = sign * (10 * m : ℕ) := by
        rw [hn]
        push_cast
        ring
      split
      · next hc =>
          rw [htens]
          split
          · next hnone =>
              refine ⟨fun h => (by cases h), fun h => ?_⟩
              obtain ⟨tens, hsome⟩ := exists_checked hsign
                ((Nat.le_add_right _ _).trans (le_ofDigitChars cs _)) h.2
              rw [hnone] at hsome
              cases hsome
          · next tens hsome =>
              rw [checked_some.mp hsome, ← Int.mul_add, ← Int.natCast_add]
              split
              · next hnone =>
                  refine ⟨fun h => (by cases h), fun h => ?_⟩
                  obtain ⟨next, hsome⟩ := exists_checked hsign (le_ofDigitChars cs _) h.2
                  rw [hnone] at hsome
                  cases hsome
              · next next hsome =>
                  rw [ih (checked_some.mp hsome)]
                  exact ⟨fun h => ⟨⟨hc, h.1⟩, h.2⟩, fun h => ⟨h.1.2, h.2⟩⟩
      · next hc => exact ⟨fun h => (by cases h), fun h => absurd h.1.1 hc⟩

theorem toInt_zero : toInt (ofInt 0 : T) = 0 := toInt_ofInt min_nonpos max_nonneg

/-- `parse` accepts the texts of its numbers, and no others. -/
theorem fromStr_ok {s : String} {n : T} : fromStr s = .ok n ↔ Numeral s.toList n := by
  have hplus : ∀ cs : List Char,
      readDigits 1 .posOverflow (ofInt 0) cs = .ok n ↔
        (∀ c ∈ cs, c.isDigit) ∧ toInt n = Nat.ofDigitChars 10 cs 0 := by
    intro cs
    rw [readDigits_ok (.inl rfl) (m := 0) (by rw [toInt_zero]; rfl), Int.one_mul]
  have hminus : ∀ cs : List Char,
      readDigits (-1) .negOverflow (ofInt 0) cs = .ok n ↔
        (∀ c ∈ cs, c.isDigit) ∧ toInt n = -Nat.ofDigitChars 10 cs 0 := by
    intro cs
    rw [readDigits_ok (.inr rfl) (m := 0) (by rw [toInt_zero]; rfl), Int.neg_one_mul]
  unfold fromStr
  split
  · next h =>
      rw [h]
      exact ⟨fun h => (by cases h), fun h => by
        cases h with | plain h => exact absurd rfl h.1⟩
  · next h =>
      rw [h]
      exact ⟨fun h => (by cases h), fun h => by
        cases h with
        | plain h => exact absurd (h.2 '+' List.mem_cons_self) (by decide)
        | plus h => exact absurd rfl h.1⟩
  · next h =>
      rw [h]
      exact ⟨fun h => (by cases h), fun h => by
        cases h with
        | plain h => exact absurd (h.2 '-' List.mem_cons_self) (by decide)
        | minus _ h => exact absurd rfl h.1⟩
  · next c cs hp hm h =>
      rw [h]
      split
      · next hc =>
          subst hc
          have hcs : cs ≠ [] := by
            rintro rfl
            exact hp rfl rfl
          rw [hplus]
          constructor
          · exact fun h => .plus ⟨hcs, h.1⟩ h.2
          · intro h
            cases h with
            | plain h => exact absurd (h.2 '+' List.mem_cons_self) (by decide)
            | plus h hn => exact ⟨h.2, hn⟩
      · next hc =>
          split
          · next hsigned =>
              obtain ⟨rfl, hsigned⟩ := hsigned
              have hcs : cs ≠ [] := by
                rintro rfl
                exact hm rfl rfl
              rw [hminus]
              constructor
              · exact fun h => .minus hsigned ⟨hcs, h.1⟩ h.2
              · intro h
                cases h with
                | plain h => exact absurd (h.2 '-' List.mem_cons_self) (by decide)
                | minus _ h hn => exact ⟨h.2, hn⟩
          · next hsigned =>
              rw [hplus]
              constructor
              · exact fun h => .plain ⟨List.cons_ne_nil _ _, h.1⟩ h.2
              · intro h
                cases h with
                | plain h hn => exact ⟨h.2, hn⟩
                | plus h => exact absurd rfl hc
                | minus hneg h => exact absurd ⟨rfl, hneg⟩ hsigned

/-- A text has one number. -/
theorem Numeral.unique {s : String} {n m : T} (hn : Numeral s.toList n)
    (hm : Numeral s.toList m) : n = m :=
  Except.ok.inj ((fromStr_ok.mpr hn).symm.trans (fromStr_ok.mpr hm))

theorem digits_toDigits (m : ℕ) : Digits (Nat.toDigits 10 m) :=
  ⟨Nat.toDigits_ne_nil, fun _ hc => Nat.isDigit_of_mem_toDigits (by decide) (by decide) hc⟩

/-- What is printed is read back. -/
theorem numeral_display (n : T) : Numeral (display n).toList n := by
  unfold display
  cases h : toInt n with
  | ofNat m =>
      have htext : (toString (Int.ofNat m)).toList = Nat.toDigits 10 m := by
        show m.repr.toList = _
        rw [Nat.toList_repr]
      rw [htext]
      refine .plain (digits_toDigits m) ?_
      rw [h, Nat.ofDigitChars_ten_toDigits]
      rfl
  | negSucc m =>
      have htext : (toString (Int.negSucc m)).toList = '-' :: Nat.toDigits 10 (m + 1) := by
        show ("-" ++ (m + 1).repr).toList = _
        rw [String.toList_append, Nat.toList_repr]
        rfl
      rw [htext]
      refine .minus ?_ (digits_toDigits _) ?_
      · have := (toInt_bounds n).1
        rw [h] at this
        omega
      · rw [h, Nat.ofDigitChars_ten_toDigits]
        rfl

end MachineInt

instance : MachineInt UInt16 where
  min := 0
  max := 65535
  toInt n := n.toNat
  ofInt k := .ofNat k.toNat
  min_nonpos := le_rfl
  max_nonneg := by decide
  toInt_bounds n := by
    have := n.toNat_lt
    omega
  ofInt_toInt n := by simp
  toInt_ofInt {k} hlo hhi := by
    have hk : k.toNat < UInt16.size := by
      show k.toNat < 65536
      omega
    rw [UInt16.toNat_ofNat_of_lt' hk, Int.toNat_of_nonneg hlo]

instance : MachineInt UInt64 where
  min := 0
  max := 2 ^ 64 - 1
  toInt n := n.toNat
  ofInt k := .ofNat k.toNat
  min_nonpos := le_rfl
  max_nonneg := by decide
  toInt_bounds n := by
    have := n.toNat_lt
    omega
  ofInt_toInt n := by simp
  toInt_ofInt {k} hlo hhi := by
    have hk : k.toNat < UInt64.size := by
      show k.toNat < 2 ^ 64
      omega
    rw [UInt64.toNat_ofNat_of_lt' hk, Int.toNat_of_nonneg hlo]

instance : MachineInt Int64 where
  min := -2 ^ 63
  max := 2 ^ 63 - 1
  toInt n := n.toInt
  ofInt := .ofInt
  min_nonpos := by decide
  max_nonneg := by decide
  toInt_bounds n := by
    have hlo := n.le_toInt
    have hhi := n.toInt_lt
    omega
  ofInt_toInt n := Int64.ofInt_toInt n
  toInt_ofInt {k} hlo hhi := Int64.toInt_ofInt_of_le (by omega) (by omega)

end Thbc.Lib
