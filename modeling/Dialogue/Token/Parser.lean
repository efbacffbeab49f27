import Dialogue.Token.Stream

/-! Reading structures from a stream of tokens. -/
namespace Dialogue

/-- Why reading stopped: at a fault of the source, or with the allowance of calls used up. -/
inductive Halt where
  | fault (error : ParseError)
  | exhausted
deriving DecidableEq

abbrev Parser := StateT Stream (Except Halt)

namespace Parser

def exhausted {α : Type} : Parser α := throw .exhausted

/-- The next token, which stays. -/
def peek : Parser Token := fun stream =>
  match stream.peek with
  | .ok token => .ok (token, stream)
  | .error error => .error (.fault error)

def kind : Parser Token.Kind := Token.kind <$> peek

def next (kinds : List Token.Kind) : Parser Bool := do return kinds.contains (← kind)

/-- Refuses the next token, naming the kinds that could stand in its place. -/
def unexpected {α : Type} (expected : List Token.Kind) : Parser α := do
  let token ← peek
  throw (.fault (.located (.unexpectedToken token.kind expected) token.line token.column))

/-- Takes the next token if it is of one of the kinds. -/
def expect (kinds : List Token.Kind) : Parser Token := do
  let token ← peek
  if kinds.contains token.kind then
    modify Stream.drop
    return token
  else unexpected kinds

/-- Takes the next token if it is of the kind, and otherwise does nothing. -/
def skip (wanted : Token.Kind) : Parser Unit := do
  if ← next [wanted] then
    let _ ← expect [wanted]

end Parser
end Dialogue
