/-!
# Columns

A column shows a text in a given width: a text may first be cut to a number of characters, and
is then padded with blanks. Width and cut count characters, and a text that is too wide is left
as it is.
-/

set_option autoImplicit false

namespace BytecodeSearch.Text

/-- Where a text stands in its column. -/
inductive Align where
  | left | right | center
  deriving DecidableEq, Repr

/-- `n` blanks. -/
def blanks (n : Nat) : List Char := List.replicate n ' '

/-- Pads a text to a width. Centred text has the odd blank on its right. -/
def Align.pad (align : Align) (width : Nat) (cs : List Char) : List Char :=
  let missing := width - cs.length
  match align with
  | left => cs ++ blanks missing
  | right => blanks missing ++ cs
  | center => blanks (missing / 2) ++ cs ++ blanks (missing - missing / 2)

/-- A column of a table. -/
structure Column where
  /-- The least number of characters shown. -/
  width : Nat
  /-- Where the text stands. -/
  align : Align
  /-- The most characters of the text shown, if there is a limit. -/
  limit : Option Nat

/-- The text as this column shows it. -/
def Column.show (column : Column) (s : String) : String :=
  let cs := match column.limit with
    | some n => s.toList.take n
    | none => s.toList
  String.ofList (column.align.pad column.width cs)

/-- The text at the left of `width` characters. -/
def padLeft (width : Nat) (s : String) : String := Column.show ⟨width, .left, none⟩ s

/-- The text at the right of `width` characters. -/
def padRight (width : Nat) (s : String) : String := Column.show ⟨width, .right, none⟩ s

end BytecodeSearch.Text
