import Dialogue.Proofs.Scanned
import Dialogue.Token.Feed

/-! What is pulled from a source. The pulls give the tokens of the source one by one and then the
end or the first error, and nothing ever after. -/
namespace Dialogue

namespace Stream

/-- Everything that a stream holds, in order: its tokens, and how they end. -/
def outcomes (stream : Stream) : List (Except ParseError Token) :=
  stream.tokens.map .ok ++ [stream.last]

theorem outcomes_after (stream : Stream) (tokens : List Token) :
    (stream.after tokens).outcomes = tokens.map .ok ++ stream.outcomes := by
  simp [outcomes]

end Stream

namespace Scanner

variable {s next : Scanner} {tokens : List Token} {eof : Token} {error : ParseError}

theorem stream_of_more (stepped : s.step = .more tokens next) :
    s.stream = next.stream.after tokens := by
  rw [stream]
  split
  · next found =>
      obtain ⟨rfl, rfl⟩ := Step.more.inj (found.symm.trans stepped)
      rfl
  · next found => cases found.symm.trans stepped
  · next found => cases found.symm.trans stepped

theorem outcomes_of_more (stepped : s.step = .more tokens next) :
    s.stream.outcomes = tokens.map .ok ++ next.stream.outcomes := by
  rw [stream_of_more stepped]
  exact Stream.outcomes_after _ _

theorem stream_of_finish (stepped : s.step = .finish tokens eof) :
    s.stream = ⟨tokens, .ok eof⟩ := by
  rw [stream]
  split
  · next found => cases found.symm.trans stepped
  · next found =>
      obtain ⟨rfl, rfl⟩ := Step.finish.inj (found.symm.trans stepped)
      rfl
  · next found => cases found.symm.trans stepped

theorem stream_of_fail (stepped : s.step = .fail error) : s.stream = ⟨[], .error error⟩ := by
  rw [stream]
  split
  · next found => cases found.symm.trans stepped
  · next found => cases found.symm.trans stepped
  · next found =>
      obtain rfl := Step.fail.inj (found.symm.trans stepped)
      rfl

end Scanner

namespace Feed

/-- Everything that is still to be pulled. -/
def left (feed : Feed) : List (Except ParseError Token) :=
  feed.waiting.map .ok ++ if feed.finished then [] else feed.scanner.stream.outcomes

theorem left_ne_nil {feed : Feed} (unfinished : ¬feed.finished) : feed.left ≠ [] := by
  simp [left, unfinished, Stream.outcomes]

/-- A pull gives the first of what is left and leaves the others; it changes nothing if nothing is
left. -/
theorem pull_of_left (feed : Feed) :
    (feed.left = [] → feed.pull = (none, feed)) ∧
      ∀ item rest, feed.left = item :: rest →
        ∃ next, feed.pull = (some item, next) ∧ next.left = rest := by
  fun_induction pull feed with
  | case1 feed token rest waits => simp [left, waits]
  | case2 feed empty done => simp [left, empty, done]
  | case3 feed empty done tokens next stepped ih =>
      have same : feed.left = (⟨next, tokens, false⟩ : Feed).left := by
        simp [left, empty, done, Scanner.outcomes_of_more stepped]
      exact ⟨fun nothing => absurd nothing (left_ne_nil done), same ▸ ih.2⟩
  | case4 feed empty done tokens eof stepped ih =>
      have same : feed.left = (⟨feed.scanner, tokens ++ [eof], true⟩ : Feed).left := by
        simp [left, empty, done, Scanner.stream_of_finish stepped, Stream.outcomes]
      exact ⟨fun nothing => absurd nothing (left_ne_nil done), same ▸ ih.2⟩
  | case5 feed empty done error stepped =>
      simp [left, empty, done, Scanner.stream_of_fail stepped, Stream.outcomes]

/-- What each pull gives, counted from zero. -/
def pulls (feed : Feed) : Nat → Option (Except ParseError Token)
  | 0 => feed.pull.1
  | n + 1 => feed.pull.2.pulls n

theorem pulls_eq_getElem? (feed : Feed) (n : Nat) : feed.pulls n = feed.left[n]? := by
  induction n generalizing feed with
  | zero =>
      cases split : feed.left with
      | nil => rw [pulls, feed.pull_of_left.1 split, List.getElem?_nil]
      | cons item rest =>
          obtain ⟨next, pulled, -⟩ := feed.pull_of_left.2 item rest split
          rw [pulls, pulled, List.getElem?_cons_zero]
  | succ n ih =>
      cases split : feed.left with
      | nil => rw [pulls, feed.pull_of_left.1 split, ih, split, List.getElem?_nil, List.getElem?_nil]
      | cons item rest =>
          obtain ⟨next, pulled, others⟩ := feed.pull_of_left.2 item rest split
          rw [pulls, pulled, ih, others, List.getElem?_cons_succ]

theorem left_ofSource (source : String) :
    (ofSource source).left = (Stream.ofSource source).outcomes := rfl

end Feed

/-- The pulls from a source give finitely many items and nothing ever after. The items are tokens
of which the last and no other marks the end, or tokens that do not mark the end and then one error;
and `tokenize` gives the tokens or the error. -/
theorem Feed.pulls_ofSource (source : String) :
    ∃ items : List (Except ParseError Token),
      (∀ n, (ofSource source).pulls n = items[n]?) ∧
      ((∃ (tokens : List Token) (eof : Token), items = (tokens ++ [eof]).map .ok ∧ eof.kind = .eof ∧
          (∀ token ∈ tokens, token.kind ≠ .eof) ∧ tokenize source = .ok (tokens ++ [eof])) ∨
        ∃ (tokens : List Token) (error : ParseError), items = tokens.map .ok ++ [.error error] ∧
          (∀ token ∈ tokens, token.kind ≠ .eof) ∧ tokenize source = .error error) := by
  refine ⟨(Stream.ofSource source).outcomes, ?_, ?_⟩
  · intro n
    rw [pulls_eq_getElem?, left_ofSource]
  · have inside : ∀ token ∈ (Stream.ofSource source).tokens, token.kind ≠ .eof :=
      fun token => Stream.kind_ne_eof_of_mem_ofSource
    cases last : (Stream.ofSource source).last with
    | ok eof =>
        refine .inl ⟨(Stream.ofSource source).tokens, eof, ?_, ?_, inside, ?_⟩
        · simp [Stream.outcomes, last]
        · exact Stream.ended_ofSource source eof last
        · rw [tokenize, Stream.toExcept, last]
    | error error =>
        refine .inr ⟨(Stream.ofSource source).tokens, error, ?_, inside, ?_⟩
        · rw [Stream.outcomes, last]
        · rw [tokenize, Stream.toExcept, last]

end Dialogue
