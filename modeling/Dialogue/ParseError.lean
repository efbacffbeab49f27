import Dialogue.Token
import Dialogue.VariationMode

/-! What can be wrong with dialogue source, and how it is reported. -/
namespace Dialogue

namespace ParseError

inductive Cause where
  | unexpectedToken (found : Token.Kind) (expected : List Token.Kind)
  /-- The text of a number token that does not read as a number. -/
  | unreadableNumber (found : String)
  | invalidVariationMode (mode : String)
  | unexpectedCharacter (found : Char)
  | unterminatedString
  | invalidIndentation
deriving DecidableEq

end ParseError

/-- A cause and its place; lines and columns count from one. -/
structure ParseError where
  cause : ParseError.Cause
  line : Nat
  column : Nat
deriving DecidableEq

namespace ParseError

def position (e : ParseError) : String :=
  "line " ++ toString e.line ++ " column " ++ toString e.column

def listed (names : List String) : String := ", ".intercalate names

def message (e : ParseError) : String :=
  match e.cause with
  | .unexpectedToken found expected =>
      "Unexpected token \"" ++ found.hint ++ "\" on " ++ e.position ++ ". Expected " ++
        listed (expected.map Token.Kind.hint)
  | .unreadableNumber found =>
      "Unexpected token \"" ++ found ++ "\" on " ++ e.position ++ ". Expected " ++
        Token.Kind.number.hint
  | .invalidVariationMode mode =>
      "Wrong variation mode set \"" ++ mode ++ "\" on " ++ e.position ++ ". Valid modes: " ++
        listed VariationMode.names
  | .unexpectedCharacter found =>
      "Unexpected character \"" ++ String.singleton found ++ "\" on " ++ e.position
  | .unterminatedString => "Unterminated string starting on " ++ e.position
  | .invalidIndentation =>
      "Indentation on " ++ e.position ++ " does not match any enclosing level"

/-- The error for a cause at a place counted from zero. -/
def located (cause : Cause) (line column : Nat) : ParseError := ⟨cause, line + 1, column + 1⟩

end ParseError
end Dialogue
