import Bike4Mind.Texts.CodeUnits
import Mathlib.Algebra.Group.Nat.Defs
import Mathlib.Data.Nat.Basic

/-! Natural numbers as texts write them. -/

namespace Texts

/-- `\d` -/
def isDigit (c : CodeUnit) : Bool := 0x30 ≤ c && c ≤ 0x39

/-- `String(n)` -/
def decimal (n : Nat) : Text := (Nat.toDigits 10 n).map fun c => UInt16.ofNat c.toNat

/-- `Number(digits)` -/
def number (digits : Text) : Nat := digits.foldl (fun n c => 10 * n + (c.toNat - 0x30)) 0

/-- `text.padStart(width)` -/
def padStart (text : Text) (width : Nat) : Text := List.leftpad width 0x20 text

theorem digit_range {c : Char} (digit : c.isDigit = true) : 0x30 ≤ c.toNat ∧ c.toNat ≤ 0x39 := by
  obtain ⟨low, high⟩ := (Bool.and_eq_true _ _).mp digit
  exact ⟨of_decide_eq_true low, of_decide_eq_true high⟩

theorem decimal_isDigit {n : Nat} {c : CodeUnit} (member : c ∈ decimal n) : isDigit c = true := by
  obtain ⟨d, written, same⟩ := List.mem_map.mp member
  obtain ⟨low, high⟩ := digit_range (Nat.isDigit_of_mem_toDigits (by decide) (by decide) written)
  have value : c.toNat = d.toNat := by
    rw [← same, UInt16.toNat_ofNat']
    exact Nat.mod_eq_of_lt (by omega)
  unfold isDigit
  rw [Bool.and_eq_true, decide_eq_true_iff, decide_eq_true_iff, UInt16.le_iff_toNat_le, UInt16.le_iff_toNat_le, value]
  exact ⟨low, high⟩

theorem decimal_ne_nil {n : Nat} : decimal n ≠ [] := by
  intro none
  exact Nat.toDigits_ne_nil (List.map_eq_nil_iff.mp none)

theorem decimal_length {n k : Nat} (positive : 0 < k) (small : n < 10 ^ k) : (decimal n).length ≤ k := by
  rw [decimal, List.length_map]
  exact (Nat.length_toDigits_le_iff (by decide) positive).mpr small

theorem number_decimal {n : Nat} : number (decimal n) = n := by
  have read : number (decimal n) = Nat.ofDigitChars 10 (Nat.toDigits 10 n) 0 := by
    unfold number decimal
    rw [Nat.ofDigitChars_eq_foldl, List.foldl_map]
    refine List.foldl_ext _ _ _ fun sofar c member => ?_
    obtain ⟨low, high⟩ := digit_range (Nat.isDigit_of_mem_toDigits (by decide) (by decide) member)
    rw [UInt16.toNat_ofNat', Nat.mod_eq_of_lt (by omega)]
    rfl
  rw [read, Nat.ofDigitChars_ten_toDigits]

end Texts
