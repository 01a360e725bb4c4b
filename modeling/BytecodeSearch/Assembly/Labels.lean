import BytecodeSearch.Assembly.Error
import Std.Data.HashMap

/-!
# Label tables

A label stands for the offset of the next instruction, or for the end of the program if none
follows. `end` is the end of the program unless the text defines it. A label may be defined
once, and may be used before its definition.
-/

set_option autoImplicit false

namespace BytecodeSearch.Assembly

instance : Hashable Token := @instHashableList Char instHashableChar

/-- The word offset each label stands for. -/
abbrev Labels := Std.HashMap Token Nat

/-- Adds the labels of statements whose first instruction stands at `offset`, and gives the
offset behind the last instruction as well. -/
def collectLabels : List Statement → Nat → Labels → Except AssemblyError (Labels × Nat)
  | [], offset, labels => .ok (labels, offset)
  | s :: rest, offset, labels =>
      let next := if s.command.isSome then offset + slotWidth else offset
      match s.label with
      | none => collectLabels rest next labels
      | some name =>
          if labels.contains name then .error (.atLine s.line (.duplicateLabel name))
          else collectLabels rest next (labels.insert name offset)

/-- The label that stands for the end of the program. -/
def endLabel : Token := ['e', 'n', 'd']

/-- The labels of a text. -/
def labelTable (sts : List Statement) : Except AssemblyError Labels := do
  let (labels, offset) ← collectLabels sts 0 ∅
  return labels.insertIfNew endLabel offset

end BytecodeSearch.Assembly
