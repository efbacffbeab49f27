import Dialogue.Token.Progress

/-! The tokens of a whole source. -/
namespace Dialogue

/-- The tokens from where the scanner stands, in order, and how they end. -/
def Scanner.stream (s : Scanner) : Stream :=
  match _h : s.step with
  | .more tokens next => next.stream.after tokens
  | .finish tokens eof => ⟨tokens, .ok eof⟩
  | .fail error => ⟨[], .error error⟩
termination_by s.size
decreasing_by exact Scanner.size_lt_of_step _h

def Stream.ofSource (source : String) : Stream := (Scanner.ofSource source).stream

/-- The tokens of a source as one list, or the first error in it. -/
def tokenize (source : String) : Except ParseError (List Token) :=
  (Stream.ofSource source).toExcept

end Dialogue
