import Mathlib.Data.List.Lex
import Mathlib.Data.List.Sort
import Mathlib.Order.Basic

/-! Strings in the order of their code units, as `sort()` without a comparator puts them. -/

namespace Texts

/-- The code units of a character. -/
def unitsOf (c : Char) : List Nat :=
  if c.toNat < 0x10000 then [c.toNat] else [0xd800 + (c.toNat - 0x10000) / 0x400, 0xdc00 + (c.toNat - 0x10000) % 0x400]

def codeUnits (text : String) : List Nat := text.toList.flatMap unitsOf

theorem toNat_not_surrogate (c : Char) : c.toNat < 0xd800 ∨ 0xdfff < c.toNat := by
  have valid := c.valid
  simp only [UInt32.isValidChar, Nat.isValidChar] at valid
  have same : c.toNat = c.val.toNat := rfl
  omega

theorem unitsOf_inj {c d : Char} {left right : List Nat} (same : unitsOf c ++ left = unitsOf d ++ right) : c = d ∧ left = right := by
  have first := toNat_not_surrogate c
  have second := toNat_not_surrogate d
  have low : c.toNat < 0x110000 := by
    have valid := c.valid
    simp only [UInt32.isValidChar, Nat.isValidChar] at valid
    have same : c.toNat = c.val.toNat := rfl
    omega
  have low' : d.toNat < 0x110000 := by
    have valid := d.valid
    simp only [UInt32.isValidChar, Nat.isValidChar] at valid
    have same : d.toNat = d.val.toNat := rfl
    omega
  unfold unitsOf at same
  split at same
  · split at same
    · simp only [List.cons_append, List.nil_append, List.cons.injEq] at same
      exact ⟨Char.toNat_inj.mp same.1, same.2⟩
    · simp only [List.cons_append, List.nil_append, List.cons.injEq] at same
      omega
  · split at same
    · simp only [List.cons_append, List.nil_append, List.cons.injEq] at same
      omega
    · simp only [List.cons_append, List.nil_append, List.cons.injEq] at same
      exact ⟨Char.toNat_inj.mp (by omega), same.2.2⟩

theorem codeUnits_injective : Function.Injective codeUnits := by
  have chars (left right : List Char) (same : left.flatMap unitsOf = right.flatMap unitsOf) : left = right := by
    induction left generalizing right with
    | nil =>
      cases right with
      | nil => rfl
      | cons d right =>
        rw [List.flatMap_cons, List.flatMap_nil] at same
        have empty := (List.append_eq_nil_iff.mp same.symm).1
        unfold unitsOf at empty
        split at empty <;> cases empty
    | cons c left ih =>
      cases right with
      | nil =>
        rw [List.flatMap_cons, List.flatMap_nil] at same
        have empty := (List.append_eq_nil_iff.mp same).1
        unfold unitsOf at empty
        split at empty <;> cases empty
      | cons d right =>
        rw [List.flatMap_cons, List.flatMap_cons] at same
        obtain ⟨rfl, rest⟩ := unitsOf_inj same
        rw [ih right rest]
  intro left right same
  exact String.ext (chars _ _ same)

/-- `[...texts].sort()` -/
def sorted (texts : List String) : List String := texts.insertionSort fun a b => codeUnits a ≤ codeUnits b

theorem mem_sorted {texts : List String} {text : String} : text ∈ sorted texts ↔ text ∈ texts := List.mem_insertionSort _

theorem sorted_perm {left right : List String} (same : left.Perm right) : sorted left = sorted right := by
  have chain (texts : List String) : (sorted texts).Pairwise fun a b => codeUnits a ≤ codeUnits b := by
    have : Std.Total fun a b : String => codeUnits a ≤ codeUnits b := ⟨fun a b => le_total _ _⟩
    have : IsTrans String fun a b => codeUnits a ≤ codeUnits b := ⟨fun _ _ _ => le_trans⟩
    exact List.pairwise_insertionSort _ _
  refine List.Perm.eq_of_pairwise (fun a b _ _ up down => codeUnits_injective (le_antisymm up down)) (chain left) (chain right) ?_
  exact (List.perm_insertionSort _ left).trans (same.trans (List.perm_insertionSort _ right).symm)

end Texts
