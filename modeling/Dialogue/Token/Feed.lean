import Dialogue.Token.Progress

/-! A source given out token by token, on demand. -/
namespace Dialogue

/-- How far a source has been given out: tokens that were read and wait, the scanner behind them,
and whether nothing comes after those that wait. -/
structure Feed where
  scanner : Scanner
  waiting : List Token := []
  finished : Bool := false

namespace Feed

def ofSource (source : String) : Feed := { scanner := .ofSource source }

/-- What is left to do before the next token is there or none can be. -/
def size (feed : Feed) : Nat := if feed.finished then 0 else feed.scanner.size + 1

/-- The next token, or the error in its place, with the feed after it. Steps that read no token are
passed over; after the end and after an error there is nothing. -/
def pull (feed : Feed) : Option (Except ParseError Token) × Feed :=
  match feed.waiting with
  | token :: rest => (some (.ok token), { feed with waiting := rest })
  | [] =>
      if _done : feed.finished then (none, feed)
      else
        match _stepped : feed.scanner.step with
        | .more tokens next => pull ⟨next, tokens, false⟩
        | .finish tokens eof => pull ⟨feed.scanner, tokens ++ [eof], true⟩
        | .fail error => (some (.error error), ⟨feed.scanner, [], true⟩)
termination_by feed.size
decreasing_by
  · simp only [size, _done]
    exact Nat.succ_lt_succ (Scanner.size_lt_of_step _stepped)
  · simp only [size, _done]
    exact Nat.succ_pos _

end Feed
end Dialogue
