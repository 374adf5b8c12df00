import Thbc.Core.Error
import Mathlib.Data.List.DropRight

/-!
# Bank references and the F3 nullifier seed

`crates/thbc-core/src/bank_ref.rs`. A reference is normalised when it is
made, trimmed and ASCII upper-cased, so that the retry variants of one
transfer hash to one nullifier; the structure carries the normal form, and a
reference that is not normalised cannot be built.

SHA-256 itself is a third-party crate. `Sha256` stands for it: some function
from bytes to 32-byte digests. Nothing proved here asks more of it, so the
results hold even where two references collide, with the nullifier in the
place of the reference.
-/

namespace Thbc

/-! ## Trimming and upper-casing -/

/-- Unicode `White_Space`, what `str::trim` removes. -/
def isWhitespace (c : Char) : Bool :=
  let n := c.toNat
  (9 ≤ n && n ≤ 13) || n == 32 || n == 133 || n == 160 || n == 5760 ||
    (8192 ≤ n && n ≤ 8202) || n == 8232 || n == 8233 || n == 8239 ||
    n == 8287 || n == 12288

def trimChars (l : List Char) : List Char :=
  (l.dropWhile isWhitespace).rdropWhile isWhitespace

/-- `str::trim`. -/
def trim (s : String) : String := String.ofList (trimChars s.toList)

/-- `str::to_ascii_uppercase`. -/
def toAsciiUppercase (s : String) : String :=
  String.ofList (s.toList.map Char.toUpper)

theorem toNat_toUpper (c : Char) :
    c.toUpper.toNat =
      if 97 ≤ c.toNat ∧ c.toNat ≤ 122 then c.toNat - 32 else c.toNat := by
  unfold Char.toUpper
  split
  · next h =>
      have hlo : 97 ≤ c.toNat := h.1
      have hhi : c.toNat ≤ 122 := h.2
      rw [if_pos (And.intro hlo hhi)]
      have hd : ('A'.val - 'a'.val).toNat = 4294967264 := by decide
      show (c.val + ('A'.val - 'a'.val)).toNat = _
      rw [UInt32.toNat_add, hd]
      simp only [Char.toNat] at *
      omega
  · next h =>
      have h' : ¬ (97 ≤ c.toNat ∧ c.toNat ≤ 122) := h
      rw [if_neg h']

theorem isWhitespace_toUpper (c : Char) :
    isWhitespace c.toUpper = isWhitespace c := by
  simp only [isWhitespace, toNat_toUpper]
  split
  · next h =>
      rw [Bool.eq_iff_iff]
      simp only [Bool.or_eq_true, Bool.and_eq_true, decide_eq_true_eq,
        beq_iff_eq]
      omega
  · rfl

theorem toUpper_toUpper (c : Char) : c.toUpper.toUpper = c.toUpper := by
  have h : c.toUpper.toUpper.toNat = c.toUpper.toNat := by
    have h₁ := toNat_toUpper c
    have h₂ := toNat_toUpper c.toUpper
    split at h₁ <;> split at h₂ <;> omega
  exact Char.ext (UInt32.toNat_inj.mp h)

theorem dropWhile_map_toUpper (l : List Char) :
    (l.map Char.toUpper).dropWhile isWhitespace =
      (l.dropWhile isWhitespace).map Char.toUpper := by
  induction l with
  | nil => rfl
  | cons c cs ih =>
      simp only [List.map_cons, List.dropWhile_cons, isWhitespace_toUpper]
      split
      · exact ih
      · rfl

theorem trimChars_map_toUpper (l : List Char) :
    trimChars (l.map Char.toUpper) = (trimChars l).map Char.toUpper := by
  simp only [trimChars, List.rdropWhile, dropWhile_map_toUpper,
    ← List.map_reverse]

theorem trimChars_trimChars (l : List Char) :
    trimChars (trimChars l) = trimChars l := by
  have hhead : (trimChars l).dropWhile isWhitespace = trimChars l := by
    rw [List.dropWhile_eq_self_iff]
    intro hpos
    have hpre : trimChars l <+: l.dropWhile isWhitespace :=
      List.rdropWhile_prefix _ _
    have hne : l.dropWhile isWhitespace ≠ [] := by
      intro h
      rw [h] at hpre
      rw [List.prefix_nil.mp hpre] at hpos
      exact absurd hpos (by simp)
    have hpos' : 0 < (l.dropWhile isWhitespace).length :=
      Nat.lt_of_lt_of_le hpos hpre.length_le
    have h0 : (trimChars l)[0] = (l.dropWhile isWhitespace)[0] :=
      hpre.getElem hpos
    rw [h0, ← List.head_eq_getElem hne]
    simp [List.head_dropWhile_not]
  rw [trimChars, hhead]
  exact List.rdropWhile_idempotent _ _

/-! ## The reference -/

/-- What `BankRef::new` makes of its input. -/
def normalise (raw : String) : String := toAsciiUppercase (trim raw)

theorem normalise_normalise (raw : String) :
    normalise (normalise raw) = normalise raw := by
  simp only [normalise, toAsciiUppercase, trim, String.toList_ofList,
    trimChars_map_toUpper, trimChars_trimChars, List.map_map]
  congr 1
  exact List.map_congr_left fun c _ => toUpper_toUpper c

/-- A bank's own unique reference for a settled transfer. -/
structure BankRef where
  text : String
  nonempty : text ≠ ""
  normal : normalise text = text
  deriving DecidableEq

def BankRef.new (raw : String) : CoreResult BankRef :=
  if h : normalise raw = "" then .error .emptyBankRef
  else .ok ⟨normalise raw, h, normalise_normalise raw⟩

/-- The 32-byte digest used as the nullifier seed. -/
structure BankRefHash where
  bytes : List UInt8
  length_bytes : bytes.length = 32
  deriving DecidableEq

def hexDigit (n : Nat) : Char :=
  if n < 10 then Char.ofNat (48 + n) else Char.ofNat (87 + n)

/-- Lowercase hex, the form stored and logged. -/
def BankRefHash.toHex (n : BankRefHash) : String :=
  String.ofList (n.bytes.flatMap fun b =>
    [hexDigit (b.toNat / 16), hexDigit (b.toNat % 16)])

theorem hexDigit_inj {n m : Nat} (hn : n < 16) (hm : m < 16)
    (h : hexDigit n = hexDigit m) : n = m := by
  have hdigits : ∀ a b : Fin 16, hexDigit a = hexDigit b → a = b := by decide
  exact congrArg Fin.val (hdigits ⟨n, hn⟩ ⟨m, hm⟩ h)

/-- Different digests are different strings. -/
theorem BankRefHash.toHex_inj : Function.Injective BankRefHash.toHex := by
  have hbytes : ∀ l l' : List UInt8,
      l.flatMap (fun b => [hexDigit (b.toNat / 16), hexDigit (b.toNat % 16)]) =
        l'.flatMap (fun b => [hexDigit (b.toNat / 16), hexDigit (b.toNat % 16)]) →
      l = l' := by
    intro l
    induction l with
    | nil =>
        intro l' h
        cases l' with
        | nil => rfl
        | cons b bs => simp at h
    | cons b bs ih =>
        intro l' h
        cases l' with
        | nil => simp at h
        | cons b' bs' =>
            rw [List.flatMap_cons, List.flatMap_cons, List.cons_append, List.cons_append,
              List.cons_append, List.cons_append, List.cons.injEq, List.cons.injEq] at h
            obtain ⟨hhigh, hlow, hrest⟩ := h
            have hb := b.toNat_lt
            have hb' := b'.toNat_lt
            have hhigh := hexDigit_inj (by omega) (by omega) hhigh
            have hlow := hexDigit_inj (by omega) (by omega) hlow
            rw [UInt8.toNat_inj.mp (show b.toNat = b'.toNat by omega), ih bs' hrest]
  intro n n' h
  have hlist := hbytes n.bytes n'.bytes (String.ofList_injective h)
  obtain ⟨bytes, hlen⟩ := n
  obtain ⟨bytes', hlen'⟩ := n'
  obtain rfl : bytes = bytes' := hlist
  rfl

/-- SHA-256, as the `sha2` crate computes it. -/
class Sha256 where
  digest : ByteArray → BankRefHash

/-- `H(bank_ref)`: SHA-256 over the normalised UTF-8 bytes. -/
def BankRef.hash [Sha256] (r : BankRef) : BankRefHash :=
  Sha256.digest r.text.toUTF8

namespace Sample

def scb1 : BankRef := ⟨"SCB-1", by decide, by decide⟩

def scb2 : BankRef := ⟨"SCB-2", by decide, by decide⟩

end Sample

end Thbc
