import Dialogue.ParseError

/-! What a source yields: its tokens, and after them either the end or an error. -/
namespace Dialogue

/-- The tokens before the end, and what every further look finds: the token that marks the end,
or the error that stopped the reading. -/
structure Stream where
  tokens : List Token
  last : Except ParseError Token

namespace Stream

/-- More tokens in front. -/
def after (tokens : List Token) (stream : Stream) : Stream :=
  { stream with tokens := tokens ++ stream.tokens }

@[simp] theorem tokens_after (tokens : List Token) (stream : Stream) :
    (stream.after tokens).tokens = tokens ++ stream.tokens := rfl

@[simp] theorem last_after (tokens : List Token) (stream : Stream) :
    (stream.after tokens).last = stream.last := rfl

/-- All tokens, the one that marks the end included. -/
def items (stream : Stream) : List Token :=
  stream.tokens ++ match stream.last with
    | .ok eof => [eof]
    | .error _ => []

def error? (stream : Stream) : Option ParseError :=
  match stream.last with
  | .ok _ => none
  | .error e => some e

/-- The whole list of tokens, unless reading them failed. -/
def toExcept (stream : Stream) : Except ParseError (List Token) :=
  match stream.last with
  | .ok eof => .ok (stream.tokens ++ [eof])
  | .error e => .error e

/-- The next token, without taking it. -/
def peek (stream : Stream) : Except ParseError Token :=
  match stream.tokens with
  | token :: _ => .ok token
  | [] => stream.last

/-- The stream without its next token. The end is never taken away. -/
def drop (stream : Stream) : Stream := { stream with tokens := stream.tokens.tail }

end Stream
end Dialogue
