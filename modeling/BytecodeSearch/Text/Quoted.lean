import BytecodeSearch.Text.Hex
import BytecodeSearch.Text.Shown

/-!
# Quoted text

Text in double quotes for messages about it: a quote, a backslash and the usual control
characters have short escapes, and every other character that would not show is written as its
code point in hexadecimal.
-/

set_option autoImplicit false

namespace BytecodeSearch.Text

/-- One character of a quoted text. -/
def escape (c : Char) : List Char :=
  match c with
  | '\x00' => ['\\', '0']
  | '\t' => ['\\', 't']
  | '\r' => ['\\', 'r']
  | '\n' => ['\\', 'n']
  | '"' => ['\\', '"']
  | '\\' => ['\\', '\\']
  | c => if isShown c then [c] else ['\\', 'u', '{'] ++ Hex.number c.toNat ++ ['}']

/-- The text in quotes, with its characters escaped. -/
def quote (s : String) : String :=
  String.ofList (['"'] ++ s.toList.flatMap escape ++ ['"'])

end BytecodeSearch.Text
