import Scaffold.Plan.Basic

/-!
# Styles of indentation

The indentation of a line depends on nothing but the tabs and spaces in front of it (`leadOf`). They
tell whether the line is indented in one style, and in which (`styleOf?`), or in both
(`MixesStyles`).
-/

namespace Scaffold

/-- The tabs and spaces in front of a line. -/
def leadOf (line : String) : List Char := line.toList.takeWhile Indent.isIndentChar

/-- Both tabs and spaces stand in front of the line. -/
def MixesStyles (line : String) : Prop := '\t' ∈ leadOf line ∧ ' ' ∈ leadOf line

instance : DecidablePred MixesStyles := fun line ↦
  inferInstanceAs (Decidable ('\t' ∈ leadOf line ∧ ' ' ∈ leadOf line))

/-- The style in which a line is indented, if it is indented and in one style. -/
def styleOf? (line : String) : Option IndentStyle :=
  match decide ('\t' ∈ leadOf line), decide (' ' ∈ leadOf line) with
  | true, false => some .tabs
  | false, true => some .spaces
  | _, _ => none

theorem measure_eq (line : String) :
    Indent.measure line = .ofCounts ((leadOf line).count '\t') ((leadOf line).count ' ') := rfl

/-- **An indentation and its style** are read off the same tabs and spaces. -/
theorem measure_cases (line : String) :
    match Indent.measure line with
    | .none => ¬MixesStyles line ∧ styleOf? line = none
    | .tabs _ => ¬MixesStyles line ∧ styleOf? line = some .tabs
    | .spaces _ => ¬MixesStyles line ∧ styleOf? line = some .spaces
    | .mixed _ _ => MixesStyles line := by
  rw [measure_eq]
  simp only [MixesStyles, styleOf?, ← List.count_pos_iff]
  generalize (leadOf line).count '\t' = t
  generalize (leadOf line).count ' ' = s
  rcases t with - | t <;> rcases s with - | s <;> simp [Indent.ofCounts]

end Scaffold
