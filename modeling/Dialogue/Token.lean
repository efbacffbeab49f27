/-! The tokens of dialogue source, each with the place of its first character. -/
namespace Dialogue

namespace Token

inductive Kind where
  -- lines, lists and blocks
  | text
  | indent
  | dedent
  | option
  | stickyOption
  | fallbackOption
  | optionsStart
  | labelOpen
  | labelClose
  | speaker
  | lineId
  | tag
  | block
  | divert
  | divertParent
  | bracketOpen
  | bracketClose
  | variationsMode
  | braceOpen
  | braceClose
  | lineBreak
  | eof
  -- inside braces
  | minus
  | plus
  | times
  | divide
  | power
  | modulo
  | and
  | or
  | not
  | equal
  | notEqual
  | greaterOrEqual
  | lessOrEqual
  | greater
  | less
  | assign
  | assignSum
  | assignDifference
  | assignProduct
  | assignQuotient
  | assignPower
  | assignModulo
  | comma
  | number
  | string
  | boolean
  | null
  | identifier
  | set
  | trigger
  | when
deriving DecidableEq

/-- How a kind is named in messages. -/
def Kind.hint : Kind → String
  | text => "text"
  | indent => "INDENT"
  | dedent => "DEDENT"
  | option => "*"
  | stickyOption => "+"
  | fallbackOption => ">"
  | optionsStart => ">>"
  | labelOpen => "["
  | labelClose => "]"
  | speaker => "<speaker name>:"
  | lineId => "$id"
  | tag => "#tag"
  | block => "== <block name>"
  | divert => "-> <target name>"
  | divertParent => "<-"
  | bracketOpen => "("
  | bracketClose => ")"
  | variationsMode => "<variations mode>"
  | braceOpen => "\x7b"
  | braceClose => "\x7d"
  | lineBreak => "line break"
  | eof => "EOF"
  | minus => "-"
  | plus => "+"
  | times => "*"
  | divide => "/"
  | power => "^"
  | modulo => "%"
  | and => "and"
  | or => "or"
  | not => "not"
  | equal => "==, is"
  | notEqual => "!=, isnt"
  | greaterOrEqual => ">="
  | lessOrEqual => "<="
  | greater => ">"
  | less => "<"
  | assign => "="
  | assignSum => "+="
  | assignDifference => "-="
  | assignProduct => "*="
  | assignQuotient => "/="
  | assignPower => "^="
  | assignModulo => "%="
  | comma => ","
  | number => "number"
  | string => "string"
  | boolean => "boolean"
  | null => "null"
  | identifier => "identifier"
  | set => "set"
  | trigger => "trigger"
  | when => "when"

end Token

/-- A token; lines and columns count characters from zero. -/
structure Token where
  kind : Token.Kind
  line : Nat
  column : Nat
  value? : Option String := none
deriving DecidableEq

/-- The text that a token carries, empty for a mere mark. -/
def Token.value (token : Token) : String := token.value?.getD ""

end Dialogue
