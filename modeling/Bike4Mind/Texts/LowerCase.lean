import Mathlib.Data.List.Basic
import Mathlib.Data.List.Infix

/-! Lower-casing over the case data of the runtime. -/

namespace Texts

/-- The case data of Unicode, as far as `toLowerCase` reads it. -/
structure CaseTable where
  lower : Char → List Char
  /-- Whether a capital sigma between the two texts ends a word; the text before it is reversed. -/
  finalSigma : List Char → List Char → Bool
  ascii : ∀ c, c.toNat < 128 → lower c = [c.toLower]

/-- The case data of texts within ASCII. -/
def asciiCase : CaseTable where
  lower := fun c => [c.toLower]
  finalSigma := fun _ _ => false
  ascii := fun _ _ => rfl

variable (table : CaseTable)

def CaseTable.lowered : List Char → List Char → List Char
  | _, [] => []
  | before, c :: after =>
    (if c = 'Σ' then [if table.finalSigma before after then 'ς' else 'σ'] else table.lower c) ++ lowered (c :: before) after

def CaseTable.toLowerCase (text : String) : String := String.ofList (table.lowered [] text.toList)

theorem toLowerCase_toList (text : String) : (table.toLowerCase text).toList = table.lowered [] text.toList := String.toList_ofList

/-- The two small sigmas as one. -/
def plainSigma (c : Char) : Char := if c = 'ς' then 'σ' else c

def CaseTable.plain (c : Char) : List Char := if c = 'Σ' then ['σ'] else (table.lower c).map plainSigma

/-- Up to the form of sigma, each character is lowered by itself. -/
theorem lowered_plain (before text : List Char) : (table.lowered before text).map plainSigma = text.flatMap table.plain := by
  induction text generalizing before with
  | nil => rfl
  | cons c after ih =>
    rw [CaseTable.lowered, List.map_append, ih, List.flatMap_cons]
    congr 1
    unfold CaseTable.plain
    split
    · cases table.finalSigma before after <;> rfl
    · rfl

theorem prefix_plain {marker text : List Char} (clear : 'σ' ∉ marker ∧ 'ς' ∉ marker) :
    marker <+: text.map plainSigma ↔ marker <+: text := by
  induction marker generalizing text with
  | nil => simp
  | cons m marker ih =>
    cases text with
    | nil => simp
    | cons c text =>
      have later := @ih text ⟨fun h => clear.1 (.tail _ h), fun h => clear.2 (.tail _ h)⟩
      have here : m = plainSigma c ↔ m = c := by
        unfold plainSigma
        split
        · rename_i final
          subst final
          constructor
          · rintro rfl
            exact (clear.1 (.head _)).elim
          · rintro rfl
            exact (clear.2 (.head _)).elim
        · rfl
      rw [List.map_cons, List.cons_prefix_cons, List.cons_prefix_cons, later, here]

theorem lowered_starts {marker before text : List Char} (clear : 'σ' ∉ marker ∧ 'ς' ∉ marker) :
    marker <+: table.lowered before text ↔ marker <+: text.flatMap table.plain := by
  rw [← lowered_plain table before, prefix_plain clear]

theorem plain_colon : table.plain ':' = [':'] := by
  unfold CaseTable.plain
  rw [if_neg (by decide), table.ascii ':' (by decide)]
  rfl

theorem starts_lowered {marker text : List Char} (clear : 'σ' ∉ marker ∧ 'ς' ∉ marker)
    (small : ∀ c ∈ marker, c.toNat < 128 ∧ c.toLower = c ∧ c ≠ 'Σ') (starts : marker <+: text) : marker <+: table.lowered [] text := by
  rw [lowered_starts table clear]
  obtain ⟨rest, rfl⟩ := starts
  have plain : marker.flatMap table.plain = marker := by
    clear clear
    induction marker with
    | nil => rfl
    | cons c marker ih =>
      obtain ⟨ascii, lower, notSigma⟩ := small c (.head _)
      have here : table.plain c = [c] := by
        unfold CaseTable.plain
        rw [if_neg notSigma, table.ascii c ascii, lower, List.map_singleton, plainSigma, if_neg]
        rintro rfl
        exact absurd ascii (by decide)
      rw [List.flatMap_cons, here, ih fun d member => small d (.tail _ member)]
      rfl
  rw [List.flatMap_append, plain]
  exact List.prefix_append _ _

/-- What a text up to a colon does not start with, when lowered, no longer text starts with. -/
theorem lowered_marker {stem start rest : List Char} (clear : 'σ' ∉ stem ∧ 'ς' ∉ stem) (inner : ':' ∉ stem)
    (colon : start.getLast? = some ':') (starts : stem ++ [':'] <+: table.lowered [] (start ++ rest)) :
    stem ++ [':'] <+: table.lowered [] start := by
  have markerClear : 'σ' ∉ stem ++ [':'] ∧ 'ς' ∉ stem ++ [':'] := by
    simp [clear]
  rw [lowered_starts table markerClear] at starts ⊢
  obtain ⟨front, rfl⟩ := List.getLast?_eq_some_iff.mp colon
  rw [List.flatMap_append] at starts
  rcases List.prefix_or_prefix_of_prefix starts (List.prefix_append _ _) with whole | shorter
  · exact whole
  · rw [List.flatMap_append, List.flatMap_singleton, plain_colon] at shorter ⊢
    rcases List.prefix_concat_iff.mp shorter with same | proper
    · rw [same]
    · exact absurd (proper.subset (List.mem_append_right _ (List.mem_singleton_self _))) inner

end Texts
