import Thbc.Persistence.Postgres
import Mathlib.Data.List.Forall2

/-!
# One reference for all retry variants

`BankRef::new` trims and then upper-cases, and the order does not matter, since
upper-casing makes no whitespace and removes none. So two inputs become the same
reference when the trimmed strings are the same up to the case of ASCII letters,
and a reference that comes back from the database is the one that was stored,
under the same digest.
-/

namespace Thbc

open Thbc.Lib

/-! ## Letters -/

/-- `char::eq_ignore_ascii_case`. -/
def eqIgnoreAsciiCase (c d : Char) : Prop := c.toLower = d.toLower

theorem toNat_toLower (c : Char) :
    c.toLower.toNat =
      if 65 ≤ c.toNat ∧ c.toNat ≤ 90 then c.toNat + 32 else c.toNat := by
  unfold Char.toLower
  split
  · next h =>
      have hlo : 65 ≤ c.toNat := h.1
      have hhi : c.toNat ≤ 90 := h.2
      rw [if_pos (And.intro hlo hhi)]
      have hd : ('a'.val - 'A'.val).toNat = 32 := by decide
      show (c.val + ('a'.val - 'A'.val)).toNat = _
      rw [UInt32.toNat_add, hd]
      simp only [Char.toNat] at *
      omega
  · next h =>
      have h' : ¬ (65 ≤ c.toNat ∧ c.toNat ≤ 90) := h
      rw [if_neg h']

theorem char_toNat_inj {c d : Char} : c.toNat = d.toNat ↔ c = d :=
  ⟨fun h => Char.ext (UInt32.toNat_inj.mp h), congrArg Char.toNat⟩

/-- The two cases tell the same characters apart. -/
theorem toUpper_eq_iff {c d : Char} :
    c.toUpper = d.toUpper ↔ eqIgnoreAsciiCase c d := by
  rw [eqIgnoreAsciiCase, ← char_toNat_inj, ← char_toNat_inj, toNat_toUpper, toNat_toUpper,
    toNat_toLower, toNat_toLower]
  split <;> split <;> split <;> split <;> omega

theorem map_toUpper_eq_iff {l l' : List Char} :
    l.map Char.toUpper = l'.map Char.toUpper ↔
      List.Forall₂ eqIgnoreAsciiCase l l' := by
  rw [← List.forall₂_eq_eq_eq, List.forall₂_map_left_iff, List.forall₂_map_right_iff]
  simp only [toUpper_eq_iff]

/-! ## References -/

theorem normalise_eq_iff {a b : String} :
    normalise a = normalise b ↔
      List.Forall₂ eqIgnoreAsciiCase (trim a).toList (trim b).toList := by
  rw [normalise, normalise, toAsciiUppercase, toAsciiUppercase, String.ofList_inj,
    map_toUpper_eq_iff]

theorem normalise_eq_empty {a : String} : normalise a = "" ↔ trim a = "" := by
  rw [normalise, toAsciiUppercase, ← String.toList_eq_nil_iff, String.toList_ofList,
    List.map_eq_nil_iff, String.toList_eq_nil_iff]

theorem BankRef.new_error {a : String} {e : CoreError} :
    BankRef.new a = .error e ↔ trim a = "" ∧ e = .emptyBankRef := by
  unfold BankRef.new
  split
  · next h =>
      rw [Except.error.injEq, eq_comm]
      exact ⟨fun he => ⟨normalise_eq_empty.mp h, he⟩, And.right⟩
  · next h =>
      refine ⟨fun he => ?_, fun he => absurd (normalise_eq_empty.mpr he.1) h⟩
      cases he

theorem BankRef.new_ok {a : String} {r : BankRef} :
    BankRef.new a = .ok r ↔ r.text = normalise a := by
  obtain ⟨text, hne, hnormal⟩ := r
  unfold BankRef.new
  split
  · next h =>
      refine ⟨fun hr => ?_, fun hr => absurd (hr.trans h) hne⟩
      cases hr
  · rw [Except.ok.injEq, BankRef.mk.injEq, eq_comm]

/-- Two inputs are the same reference, or are both refused, when one is a retry
variant of the other. -/
theorem BankRef.new_eq_iff {a b : String} :
    BankRef.new a = BankRef.new b ↔
      List.Forall₂ eqIgnoreAsciiCase (trim a).toList (trim b).toList := by
  rw [← normalise_eq_iff]
  constructor
  · intro h
    cases ha : BankRef.new a with
    | ok r =>
        have hb : BankRef.new b = .ok r := h.symm.trans ha
        rw [← BankRef.new_ok.mp ha, ← BankRef.new_ok.mp hb]
    | error e =>
        have hb : BankRef.new b = .error e := h.symm.trans ha
        rw [normalise_eq_empty.mpr (BankRef.new_error.mp ha).1,
          normalise_eq_empty.mpr (BankRef.new_error.mp hb).1]
  · intro h
    unfold BankRef.new
    simp only [h]

/-! ## Digests -/

theorem hexDigit_mem {n : ℕ} (h : n < 16) : hexDigit n ∈ "0123456789abcdef".toList := by
  have hdigits : ∀ i : Fin 16, hexDigit i ∈ "0123456789abcdef".toList := by decide
  exact hdigits ⟨n, h⟩

theorem BankRefHash.toHex_digits (n : BankRefHash) {c : Char} (hc : c ∈ n.toHex.toList) :
    c ∈ "0123456789abcdef".toList := by
  rw [BankRefHash.toHex, String.toList_ofList, List.mem_flatMap] at hc
  obtain ⟨b, -, hc⟩ := hc
  have hb := b.toNat_lt
  rw [List.mem_cons, List.mem_singleton] at hc
  obtain rfl | rfl := hc
  · exact hexDigit_mem (by omega)
  · exact hexDigit_mem (by omega)

theorem BankRefHash.length_toHex (n : BankRefHash) : n.toHex.length = 64 := by
  rw [BankRefHash.toHex, String.length_ofList, List.length_flatMap]
  simp [n.length_bytes]

/-- A reference that is stored is read back as it was, and files the row under
the digest it is read back to. -/
theorem stored_reference [Sha256] {rows rows' : List DepositRow} {d : Deposit}
    (h : PgDepositRepository.insert rows d = (.ok (), rows')) :
    ∃ row, rows' = rows ++ [row] ∧ BankRef.new row.bankRef = .ok d.bankRef ∧
      row.bankRefHash = d.bankRef.hash.toHex :=
  ⟨_, (PgDepositRepository.insert_ok h).2.2, BankRef.new_text d.bankRef, rfl⟩

/-- What normalisation identifies, and what it leaves apart. -/
theorem normalisation_exact [Sha256] :
    (∀ a b, BankRef.new a = BankRef.new b ↔
      List.Forall₂ eqIgnoreAsciiCase (trim a).toList (trim b).toList) ∧
    (∀ a, (∃ e, BankRef.new a = .error e) ↔ trim a = "") ∧
    (∀ a r, BankRef.new a = .ok r → BankRef.new r.text = .ok r) ∧
    (∀ rows d rows', PgDepositRepository.insert rows d = (.ok (), rows') →
      ∃ row, rows' = rows ++ [row] ∧ ∃ r, BankRef.new row.bankRef = .ok r ∧
        r.hash.toHex = row.bankRefHash) ∧
    Function.Injective BankRefHash.toHex ∧
    (∀ n : BankRefHash, n.toHex.length = 64 ∧
      ∀ c ∈ n.toHex.toList, c ∈ "0123456789abcdef".toList) := by
  refine ⟨fun a b => BankRef.new_eq_iff, fun a => ?_, fun a r _ => BankRef.new_text r,
    fun rows d rows' h => ?_, BankRefHash.toHex_inj,
    fun n => ⟨n.length_toHex, fun c hc => n.toHex_digits hc⟩⟩
  · constructor
    · intro ⟨e, he⟩
      exact (BankRef.new_error.mp he).1
    · intro h
      exact ⟨_, BankRef.new_error.mpr ⟨h, rfl⟩⟩
  · obtain ⟨row, hrows, href, hkey⟩ := stored_reference h
    exact ⟨row, hrows, d.bankRef, href, hkey.symm⟩

end Thbc
