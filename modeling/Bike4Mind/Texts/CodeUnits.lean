import Bike4Mind.Texts.Regex
import Mathlib.Data.List.TakeWhile

/-! Strings as the code units that the runtime sees. -/

namespace Texts

abbrev CodeUnit := UInt16

abbrev Text := List CodeUnit

instance : LawfulBEq Text := inferInstance

/-- A text whose characters are one code unit each. -/
def ascii (text : String) : Text := text.toList.map fun c => UInt16.ofNat c.toNat

/-- What `\\s` accepts and `trim` removes. -/
def isSpace (c : CodeUnit) : Bool :=
  (0x09 ≤ c && c ≤ 0x0d) || c = 0x20 || c = 0xa0 || c = 0x1680 || (0x2000 ≤ c && c ≤ 0x200a) || c = 0x2028 || c = 0x2029 ||
    c = 0x202f || c = 0x205f || c = 0x3000 || c = 0xfeff

def isHighSurrogate (c : CodeUnit) : Bool := 0xd800 ≤ c && c ≤ 0xdbff

def isLowSurrogate (c : CodeUnit) : Bool := 0xdc00 ≤ c && c ≤ 0xdfff

/-- A letter of the ASCII range as the `i` flag compares it; the flag folds no other unit onto one of them. -/
def lowerCase (c : CodeUnit) : CodeUnit := if 0x41 ≤ c && c ≤ 0x5a then c + 0x20 else c

/-- The classes of an ASCII text under the `i` flag. -/
def ignoringCase (wanted : Text) : List (CodeUnit → Bool) := wanted.map fun c d => decide (lowerCase d = lowerCase c)

def trim (text : Text) : Text := ((text.dropWhile isSpace).reverse.dropWhile isSpace).reverse

/-- `text.slice(start, finish)`, for offsets into the text -/
def slice (text : Text) (start finish : Nat) : Text := (text.drop start).take (finish - start)

/-- `text.slice(-count)`, for a count that is not zero -/
def sliceLast (text : Text) (count : Nat) : Text := text.drop (text.length - count)

theorem trim_eq_nil {text : Text} : trim text = [] ↔ ∀ c ∈ text, isSpace c = true := by
  unfold trim
  rw [List.reverse_eq_nil_iff, List.dropWhile_eq_nil_iff]
  constructor
  · intro blank
    by_contra some
    have left : text.dropWhile isSpace ≠ [] := fun none => some (List.dropWhile_eq_nil_iff.mp none)
    have stops := List.head_dropWhile_not isSpace left
    rw [blank _ (List.mem_reverse.mpr (List.head_mem left))] at stops
    exact Bool.noConfusion stops
  · intro blank c member
    exact blank c ((List.dropWhile_suffix isSpace).mem (List.mem_reverse.mp member))

end Texts
