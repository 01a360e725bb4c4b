import BytecodeSearch.Text.Blank

/-!
# Assembly text as statements

A line of assembly text is

    label: mnemonic operand, operand, ...   # comment

with every part optional. A `#` starts a comment, white space and commas separate tokens, and a
first token that ends with a colon defines a label. A line without tokens says nothing; the
others are the statements of the text, each with its line number.
-/

set_option autoImplicit false

namespace BytecodeSearch.Assembly

/-- A token of assembly text: a non-empty run of characters that separate nothing. -/
abbrev Token := List Char

/-- Whether a character stands between tokens. -/
def isSeparator (c : Char) : Bool := c == ',' || Text.isBlank c

/-- The tokens of a line. -/
def tokens (line : List Char) : List Token :=
  ((line.takeWhile (· != '#')).splitOnP isSeparator).filter fun t => !t.isEmpty

/-- The label a token defines: what stands before its final colon, unless that is nothing. -/
def labelName? (t : Token) : Option Token :=
  if 1 < t.length ∧ t.getLast? = some ':' then some t.dropLast else none

/-- The text of an instruction. -/
structure Command where
  /-- The name of the instruction. -/
  mnemonic : Token
  /-- Its operands. -/
  operands : List Token
  deriving DecidableEq

/-- What a line with tokens says. -/
structure Statement where
  /-- The number of the line, from one on. -/
  line : Nat
  /-- The label it defines. -/
  label : Option Token
  /-- The instruction it holds. -/
  command : Option Command
  deriving DecidableEq

/-- The instruction in the tokens behind a label definition. -/
def Command.ofTokens : List Token → Option Command
  | [] => none
  | t :: ts => some ⟨t, ts⟩

/-- What the tokens of a line say. -/
def Statement.ofTokens (line : Nat) : List Token → Option Statement
  | [] => none
  | t :: ts =>
      match labelName? t with
      | some name => some ⟨line, some name, Command.ofTokens ts⟩
      | none => some ⟨line, none, some ⟨t, ts⟩⟩

/-- The statements of a text. -/
def statements (source : List Char) : List Statement :=
  ((source.splitOn '\n').zipIdx 1).filterMap fun l => Statement.ofTokens l.2 (tokens l.1)

/-- The instructions among statements, each with its line number. -/
def commands (sts : List Statement) : List (Nat × Command) :=
  sts.filterMap fun s => s.command.map fun c => (s.line, c)

end BytecodeSearch.Assembly
