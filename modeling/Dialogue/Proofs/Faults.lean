import Dialogue.Proofs.Allowance
import Dialogue.Proofs.Pulls
import Dialogue.Proofs.Twinning

/-! Where reading stops. A failure of the tokens is one of the document, unless reading stops before
it at a token that may not stand where it does. -/
namespace Dialogue

namespace Stream

/-- Whether an error is the one that a stream ends with, or one token of the stream is to blame. -/
def Explains (whole : Stream) (e : ParseError) : Prop :=
  whole.last = .error e ∨
    ∃ token ∈ whole.items, ∃ cause, token.Refused cause ∧
      e = .located cause token.line token.column

/-- Whether a stream is what is left of another. -/
structure LeftOf (whole s : Stream) : Prop where
  last : s.last = whole.last
  tokens : s.tokens <:+ whole.tokens

theorem LeftOf.drop {whole s : Stream} (left : whole.LeftOf s) : whole.LeftOf s.drop where
  last := left.last
  tokens := (List.tail_suffix s.tokens).trans left.tokens

theorem LeftOf.peek {whole s : Stream} {token : Token} (left : whole.LeftOf s)
    (peeked : s.peek = .ok token) : token ∈ whole.items := by
  obtain ⟨tokens, last⟩ := s
  cases tokens with
  | cons first rest =>
      obtain rfl := Except.ok.inj peeked
      exact List.mem_append_left _ (left.tokens.mem List.mem_cons_self)
  | nil =>
      have ended : whole.last = .ok token := left.last.symm.trans peeked
      exact List.mem_append_right _ (by simp [ended])

theorem LeftOf.last_of_peek {whole s : Stream} {e : ParseError} (left : whole.LeftOf s)
    (failed : s.peek = .error e) : whole.last = .error e := by
  obtain ⟨tokens, last⟩ := s
  cases tokens with
  | cons first rest => cases failed
  | nil => exact left.last.symm.trans failed

end Stream

namespace Twinning

/-- What is left of a stream beside itself. A fault is one that the stream explains. -/
def within (whole : Stream) : Twinning where
  Level := fun s t => t = s ∧ whole.LeftOf s
  Halts := fun h k => k = h ∧ ∀ e, h = .fault e → whole.Explains e

theorem lawful_within (whole : Stream) : (within whole).Lawful where
  exhausted := ⟨rfl, nofun⟩
  peek := by
    rintro t s ⟨rfl, left⟩
    cases peeked : s.peek with
    | ok token =>
        refine .inl ⟨token, token, rfl, rfl, rfl, rfl, fun cause refused => ⟨rfl, ?_⟩⟩
        intro e same
        exact .inr ⟨token, left.peek peeked, cause, refused, (Halt.fault.inj same).symm⟩
    | error e =>
        refine .inr ⟨e, e, rfl, rfl, rfl, fun other same => ?_⟩
        exact .inl (Halt.fault.inj same ▸ left.last_of_peek peeked)
  drop := by
    rintro t s a ⟨rfl, left⟩ peeked
    exact .inl ⟨rfl, left.drop⟩

end Twinning

/-- Reading stops at an error only for one that its stream explains. -/
theorem Document.explains_of_ofStream {s : Stream} {e : ParseError}
    (failed : ofStream s = .error (.fault e)) : s.Explains e := by
  have agree := Twinning.keeps_document (Twinning.lawful_within s) (Parser.allowance s) s s
    ⟨rfl, rfl, List.suffix_rfl⟩
  rw [ofStream_eq_error_iff.1 failed] at agree
  cases agree with
  | error halts => exact halts.2 e rfl

namespace Stream

/-- A token that a source writes is refused for its kind alone: what writes a number is one. -/
theorem unexpected_of_refused {source : String} {token : Token} {cause : ParseError.Cause}
    (member : token ∈ (ofSource source).items) (refused : token.Refused cause) :
    ∃ expected, cause = .unexpectedToken token.kind expected := by
  cases refused with
  | unexpected expected => exact ⟨expected, rfl⟩
  | unreadable kind bad =>
      exfalso
      obtain inside | eof := (ended_ofSource source).of_mem_items member
      · have lexical := isLexical_of_mem_ofSource inside
        simp [Token.isLexical, kind, bad] at lexical
      · cases kind.symm.trans eof

theorem found?_of_refused {source : String} {token : Token} {cause : ParseError.Cause}
    (member : token ∈ (ofSource source).items) (refused : token.Refused cause) (line column : Nat) :
    (ParseError.located cause line column).found? = some token.kind.hint := by
  obtain ⟨expected, rfl⟩ := unexpected_of_refused member refused
  rfl

/-- A token of a stream comes up in it, and only tokens come up before. -/
theorem getElem?_outcomes_of_mem {s : Stream} {token : Token} (member : token ∈ s.items) :
    ∃ n : Nat, (∀ m ≤ n, ∃ earlier, s.outcomes[m]? = some (.ok earlier)) ∧
      s.outcomes[n]? = some (.ok token) := by
  have front : s.items.map (Except.ok : Token → Except ParseError Token) <+: s.outcomes := by
    rw [items, outcomes]
    cases s.last with
    | ok eof => simp
    | error e => simp
  obtain ⟨n, bound, rfl⟩ := List.getElem_of_mem member
  have tokens : ∀ m ≤ n, ∃ inside : m < s.items.length,
      s.outcomes[m]? = some (.ok s.items[m]) := by
    intro m le
    have inside : m < s.items.length := Nat.lt_of_le_of_lt le bound
    refine ⟨inside, ?_⟩
    rw [List.prefix_iff_getElem?.1 front m (by simpa using inside), List.getElem_map]
  refine ⟨n, fun m le => ?_, (tokens n (Nat.le_refl n)).2⟩
  obtain ⟨inside, found⟩ := tokens m le
  exact ⟨_, found⟩

end Stream

/-- No error of a source is that a number of it is none. -/
theorem ParseError.ne_unreadableNumber_of_parse {source : String} {e : ParseError}
    (failed : parse source = .error (.fault e)) (text : String) :
    e.cause ≠ .unreadableNumber text := by
  intro unreadable
  obtain last | ⟨token, member, cause, refused, rfl⟩ := Document.explains_of_ofStream failed
  · have silent := Stream.found?_of_last last
    simp [found?, unreadable] at silent
  · obtain ⟨expected, rfl⟩ := Stream.unexpected_of_refused member refused
    cases unreadable

/-- Reading a source as a document and reading it as tokens fail alike. A document is only read
where all tokens are. An error that names no token is the one that the tokens end with; any other
one names a token that is pulled before an error of the tokens is, by its kind and its place counted
from one. -/
theorem tokenize_of_parse (source : String) :
    (∀ d, parse source = .ok d → ∃ tokens, tokenize source = .ok tokens) ∧
    ∀ halt, parse source = .error halt → ∃ e, halt = .fault e ∧
      (e.found? = none → tokenize source = .error e) ∧
      ∀ found, e.found? = some found → ∃ n token,
        (∀ m ≤ n, ∃ earlier, (Feed.ofSource source).pulls m = some (.ok earlier)) ∧
        (Feed.ofSource source).pulls n = some (.ok token) ∧
        found = token.kind.hint ∧ e.line = token.line + 1 ∧ e.column = token.column + 1 := by
  refine ⟨fun d parsed => ?_, fun halt parsed => ?_⟩
  · obtain ⟨-, eof, last⟩ := Document.derives_and_ends_of_parse parsed
    exact ⟨(Stream.ofSource source).tokens ++ [eof], by rw [tokenize, Stream.toExcept, last]⟩
  · cases halt with
    | exhausted =>
        have ended := Stream.ended_ofSource source
        have enough := Parser.enough_allowance (Stream.ofSource source)
        obtain ⟨-, finite⟩ := Parser.settles_document (Nat.le_refl _) enough ended
        exact absurd (Document.ofStream_eq_error_iff.1 parsed) finite
    | fault e =>
        refine ⟨e, rfl, ?_⟩
        obtain last | ⟨token, member, cause, refused, rfl⟩ := Document.explains_of_ofStream parsed
        · refine ⟨fun _ => by rw [tokenize, Stream.toExcept, last], fun found same => ?_⟩
          rw [Stream.found?_of_last last] at same
          cases same
        · rw [Stream.found?_of_refused member refused]
          refine ⟨fun none => absurd none (Option.some_ne_none _), fun found same => ?_⟩
          obtain rfl := Option.some.inj same
          obtain ⟨n, before, pulled⟩ := Stream.getElem?_outcomes_of_mem member
          refine ⟨n, token, ?_⟩
          simp only [Feed.pulls_eq_getElem?, Feed.left_ofSource]
          exact ⟨before, pulled, trivial, rfl, rfl⟩

/-- A number in the place of a name, and after it a quote that is never closed. -/
def misplaced : String := "\x7b set 1 \x7d \"open"

theorem stream_misplaced : Stream.ofSource misplaced =
    ⟨[⟨.braceOpen, 0, 0, none⟩, ⟨.set, 0, 2, none⟩, ⟨.number, 0, 6, some "1"⟩,
      ⟨.braceClose, 0, 8, none⟩], .error ⟨.unterminatedString, 1, 11⟩⟩ := by
  have tokens : (Stream.ofSource misplaced).tokens =
      [⟨.braceOpen, 0, 0, none⟩, ⟨.set, 0, 2, none⟩, ⟨.number, 0, 6, some "1"⟩,
        ⟨.braceClose, 0, 8, none⟩] := by decide +kernel
  have last : (Stream.ofSource misplaced).last = .error ⟨.unterminatedString, 1, 11⟩ := by
    decide +kernel
  rw [← tokens, ← last]

/-- The document stops at the number, the tokens at the quote. -/
theorem tokenize_of_parse_misplaced :
    parse misplaced = .error (.fault ⟨.unexpectedToken .number [.identifier], 1, 7⟩) ∧
      tokenize misplaced = .error ⟨.unterminatedString, 1, 11⟩ ∧
      ∃ n token, (Feed.ofSource misplaced).pulls n = some (.ok token) ∧ token.kind.hint = "number" ∧
        token.line = 0 ∧ token.column = 6 := by
  have parsed : parse misplaced =
      .error (.fault ⟨.unexpectedToken .number [.identifier], 1, 7⟩) := by
    rw [parse, stream_misplaced]
    rfl
  refine ⟨parsed, by rw [tokenize, stream_misplaced]; rfl, ?_⟩
  obtain ⟨e, same, -, told⟩ := (tokenize_of_parse misplaced).2 _ parsed
  obtain rfl := Halt.fault.inj same
  obtain ⟨n, token, -, pulled, kind, line, column⟩ := told "number" rfl
  exact ⟨n, token, pulled, kind.symm, (Nat.succ.inj line).symm, (Nat.succ.inj column).symm⟩

end Dialogue
