import Dialogue.Number.Reading
import Dialogue.Proofs.Consumption
import Dialogue.Token.Source
import Mathlib.Data.List.TakeWhile

/-! What the tokens of a source are like: only the last one marks the end, the names of blocks and
of the targets of diverts are words, and numbers read as numbers. An error of the tokens never tells
what was found in the place of something else. -/
namespace Dialogue

namespace Number

/-- Digits, with a point and further digits after them if any. -/
inductive Plain : List Char → Prop
  | whole {digits : List Char} (some : digits ≠ []) (all : ∀ c ∈ digits, c.isDigit) : Plain digits
  | decimal {digits fraction : List Char} (some : digits ≠ []) (all : ∀ c ∈ digits, c.isDigit)
      (more : fraction ≠ []) (each : ∀ c ∈ fraction, c.isDigit) : Plain (digits ++ '.' :: fraction)

theorem Plain.exists_cons {text : List Char} (plain : Plain text) :
    ∃ c rest, text = c :: rest ∧ c.isDigit := by
  cases plain with
  | whole some all | decimal some all more each =>
      obtain ⟨c, rest, rfl⟩ := List.exists_cons_of_ne_nil some
      exact ⟨c, _, rfl, all c List.mem_cons_self⟩

theorem isSome_readMagnitude? {text : List Char} (plain : Plain text) :
    (readMagnitude? text).isSome := by
  unfold readMagnitude?
  dsimp only
  split
  · rfl
  · split
    · rfl
    · cases plain with
      | whole some all =>
          have taken : text.takeWhile Char.isDigit = text := List.takeWhile_eq_self_iff.2 all
          have left : text.dropWhile Char.isDigit = [] := List.dropWhile_eq_nil_iff.2 all
          simp [taken, left, some, readExponent?]
      | @decimal digits fraction some all more each =>
          have taken : (digits ++ '.' :: fraction).takeWhile Char.isDigit = digits := by
            rw [List.takeWhile_append_of_pos all, List.takeWhile_cons_of_neg (by decide),
              List.append_nil]
          have left : (digits ++ '.' :: fraction).dropWhile Char.isDigit = '.' :: fraction := by
            rw [List.dropWhile_append_of_pos all, List.dropWhile_cons_of_neg (by decide)]
          have none : fraction.dropWhile Char.isDigit = [] := List.dropWhile_eq_nil_iff.2 each
          simp [taken, left, none, some, readExponent?]

theorem Plain.isSome_read? {text : List Char} (plain : Plain text) : (read? text).isSome := by
  obtain ⟨c, rest, rfl, digit⟩ := plain.exists_cons
  have unsigned : read? (c :: rest) = readMagnitude? (c :: rest) := by
    unfold read?
    split
    · next same =>
        obtain rfl := (List.cons.inj same).1
        cases digit
    · next same =>
        obtain rfl := (List.cons.inj same).1
        cases digit
    · rfl
  rw [unsigned]
  exact isSome_readMagnitude? plain

theorem plain_numberRun {c : Char} (rest : List Char) (digit : c.isDigit) :
    Plain (Scanner.numberRun (c :: rest)) := by
  have some : (c :: rest).takeWhile Char.isDigit ≠ [] := by
    rw [List.takeWhile_cons_of_pos digit]
    exact List.cons_ne_nil _ _
  have all : ∀ d ∈ (c :: rest).takeWhile Char.isDigit, d.isDigit :=
    fun d member => List.mem_takeWhile_imp member
  unfold Scanner.numberRun
  dsimp only
  split
  · next after left =>
      split
      · exact .whole some all
      · next more =>
          have each : ∀ d ∈ after.takeWhile Char.isDigit, d.isDigit :=
            fun d member => List.mem_takeWhile_imp member
          exact .decimal some all (by simpa using more) each
  · exact .whole some all

end Number

/-- What was found at the token where reading stopped, if it stopped at one. -/
def ParseError.found? (e : ParseError) : Option String :=
  match e.cause with
  | .unexpectedToken found _ => some found.hint
  | .unreadableNumber text => some text
  | _ => none

/-- Whether a token before the end carries what its kind asks for: a name is a word, and a number
is one. -/
def Token.isLexical (token : Token) : Bool :=
  match token.kind with
  | .eof => false
  | .block | .divert => token.value.toList.all Text.isWord
  | .number => (Number.read? token.value.toList).isSome
  | _ => true

/-- The kinds whose tokens may carry anything. -/
def Token.Kind.isFree : Token.Kind → Bool
  | .eof | .block | .divert | .number => false
  | _ => true

/-- The kinds that stand inside braces. -/
def Token.Kind.isLogical : Token.Kind → Bool
  | .text | .indent | .dedent | .option | .stickyOption | .fallbackOption | .optionsStart
  | .labelOpen | .labelClose | .speaker | .lineId | .tag | .block | .divert | .divertParent
  | .variationsMode | .braceOpen | .braceClose | .lineBreak | .eof => false
  | _ => true

theorem Token.isLexical_of_isFree {token : Token} (free : token.kind.isFree) : token.isLexical := by
  unfold isLexical
  split
  · next kind => rw [kind] at free; cases free
  · next kind => rw [kind] at free; cases free
  · next kind => rw [kind] at free; cases free
  · next kind => rw [kind] at free; cases free
  · rfl

namespace Scanner

/-- Whether what a step yields is as it should be. -/
def Step.Lexical : Step → Prop
  | .more tokens _ => ∀ token ∈ tokens, token.isLexical
  | .finish tokens eof => (∀ token ∈ tokens, token.isLexical) ∧ eof.kind = .eof
  | .fail e => e.found? = none

namespace Step

theorem lexical_ite {p : Prop} [Decidable p] {yes no : Step} (left : yes.Lexical)
    (right : no.Lexical) : (if p then yes else no).Lexical := by
  split
  · exact left
  · exact right

theorem lexical_more_nil {next : Scanner} : (Step.more [] next).Lexical := List.forall_mem_nil _

theorem lexical_more_singleton {next : Scanner} {token : Token} (free : token.kind.isFree) :
    (Step.more [token] next).Lexical := by
  intro other member
  obtain rfl := List.mem_singleton.1 member
  exact Token.isLexical_of_isFree free

end Step

variable {s : Scanner}

theorem kind_of_mem_lineBreakAhead {token : Token} (member : token ∈ s.lineBreakAhead) :
    token.kind = .lineBreak := by
  unfold lineBreakAhead at member
  dsimp only at member
  split at member
  · obtain rfl := List.mem_singleton.1 member
    rfl
  · cases member

theorem lexical_more_line {next line : Scanner} {token : Token} (lexical : token.isLexical) :
    (Step.more (token :: line.lineBreakAhead) next).Lexical := by
  refine List.forall_mem_cons.2 ⟨lexical, ?_⟩
  intro other member
  refine Token.isLexical_of_isFree ?_
  rw [kind_of_mem_lineBreakAhead member]
  rfl

theorem lexical_lineStart : s.lineStart.Lexical := by
  unfold lineStart
  refine Step.lexical_ite Step.lexical_more_nil (Step.lexical_ite Step.lexical_more_nil ?_)
  refine Step.lexical_ite (Step.lexical_more_singleton rfl) (Step.lexical_ite ?_ rfl)
  intro token member
  obtain ⟨level, -, rfl⟩ := List.mem_map.1 member
  rfl

theorem lexical_close : s.close.Lexical := by
  refine ⟨?_, rfl⟩
  intro token member
  obtain ⟨level, -, rfl⟩ := List.mem_map.1 member
  rfl

theorem isLexical_named {kind : Token.Kind} (name : kind = .block ∨ kind = .divert) :
    (s.named kind).1.isLexical := by
  have carried : (s.named kind).1.value.toList.all Text.isWord := by
    simp [named, carry, Token.value]
  obtain rfl | rfl := name
  · exact carried
  · exact carried

theorem lexical_variationsStart : s.variationsStart.Lexical := by
  unfold variationsStart
  dsimp only
  split
  · refine Step.lexical_ite ?_ (Step.lexical_more_singleton rfl)
    split
    · intro token member
      obtain rfl | rfl : token = _ ∨ token = _ := by simpa using member
      · rfl
      · rfl
    · rfl
  · exact Step.lexical_more_singleton rfl

theorem lexical_text : s.text.Lexical :=
  Step.lexical_ite (Step.lexical_more_singleton rfl) (Step.lexical_more_singleton rfl)

theorem lexical_quoted : s.quoted.Lexical := by
  unfold quoted
  split
  · exact Step.lexical_more_singleton rfl
  · rfl

theorem lexical_prose (c : Char) : (s.prose c).Lexical := by
  unfold prose
  dsimp only
  refine Step.lexical_ite (Step.lexical_more_singleton rfl) ?_
  refine Step.lexical_ite lexical_quoted ?_
  refine Step.lexical_ite Step.lexical_more_nil ?_
  refine Step.lexical_ite lexical_variationsStart ?_
  refine Step.lexical_ite (Step.lexical_more_singleton rfl) ?_
  refine Step.lexical_ite (List.forall_mem_singleton.2 (isLexical_named (.inl rfl))) ?_
  refine Step.lexical_ite (lexical_more_line (isLexical_named (.inr rfl))) ?_
  refine Step.lexical_ite (lexical_more_line rfl) ?_
  iterate 9 refine Step.lexical_ite (Step.lexical_more_singleton rfl) ?_
  exact lexical_text

theorem lexical_literal (quote : Char) : (s.literal quote).Lexical := by
  unfold literal
  split
  · exact Step.lexical_more_singleton rfl
  · rfl

theorem isLogical_of_double? {c : Char} {next : Option Char} {kind : Token.Kind}
    (found : double? c next = some kind) : kind.isLogical ∧ kind.isFree := by
  unfold double? at found
  split at found <;> cases found <;> exact ⟨rfl, rfl⟩

theorem isLogical_of_single? {c : Char} {kind : Token.Kind} (found : single? c = some kind) :
    kind.isLogical ∧ kind.isFree := by
  unfold single? at found
  split at found <;> cases found <;> exact ⟨rfl, rfl⟩

theorem lexical_operator (c : Char) : (s.operator c).Lexical := by
  unfold operator
  split
  · next found => exact Step.lexical_more_singleton (isLogical_of_double? found).2
  · split
    · next found => exact Step.lexical_more_singleton (isLogical_of_single? found).2
    · rfl

theorem isLogical_of_keyword? {word : String} {kind : Token.Kind}
    (found : keyword? word = some kind) : kind.isLogical ∧ kind.isFree := by
  obtain ⟨before, after, split, -⟩ := List.lookup_eq_some_iff.1 found
  have logical : ∀ entry ∈ before ++ (word, kind) :: after,
      entry.2.isLogical ∧ entry.2.isFree := by
    rw [← split]
    decide
  exact logical (word, kind) (List.mem_append_right before List.mem_cons_self)

theorem isLogical_word (name : List Char) :
    (s.word name).kind.isLogical ∧ (s.word name).kind.isFree := by
  unfold word
  dsimp only
  split
  · exact ⟨rfl, rfl⟩
  · next found => exact isLogical_of_keyword? found
  · exact ⟨rfl, rfl⟩

theorem isLexical_number {c : Char} {rest : List Char} (digit : c.isDigit) :
    (s.carry .number (numberRun (c :: rest))).isLexical := by
  have plain := Number.Plain.isSome_read? (Number.plain_numberRun rest digit)
  simpa [Token.isLexical, carry, Token.value] using plain

theorem lexical_logic {c : Char} {rest : List Char} (cons : s.rest = c :: rest) :
    (s.logic c).Lexical := by
  unfold logic
  refine Step.lexical_ite (lexical_more_line rfl) (Step.lexical_ite Step.lexical_more_nil ?_)
  refine Step.lexical_ite (lexical_literal c) ?_
  split
  · next digit => exact List.forall_mem_singleton.2 (cons ▸ isLexical_number digit)
  · refine Step.lexical_ite ?_ (lexical_operator c)
    exact Step.lexical_more_singleton (isLogical_word _).2

theorem lexical_step (s : Scanner) : s.step.Lexical := by
  unfold step
  refine Step.lexical_ite lexical_lineStart ?_
  split
  · exact lexical_close
  · next c rest split =>
      exact Step.lexical_ite Step.lexical_more_nil
        (Step.lexical_ite (lexical_logic split) (lexical_prose c))

theorem lexical_stream (s : Scanner) :
    s.stream.Ended ∧ (∀ token ∈ s.stream.tokens, token.isLexical) ∧
      ∀ e, s.stream.last = .error e → e.found? = none := by
  fun_induction Scanner.stream s with
  | case1 s tokens next stepped ih =>
      have lexical := stepped ▸ s.lexical_step
      refine ⟨Stream.ended_after.2 ih.1, ?_, ih.2.2⟩
      intro token member
      exact (List.mem_append.1 member).elim (lexical token) (ih.2.1 token)
  | case2 s tokens eof stepped =>
      obtain ⟨lexical, last⟩ := stepped ▸ s.lexical_step
      refine ⟨?_, lexical, nofun⟩
      intro token same
      exact Except.ok.inj same ▸ last
  | case3 s error stepped =>
      have lexical := stepped ▸ s.lexical_step
      refine ⟨nofun, List.forall_mem_nil _, ?_⟩
      intro e same
      exact Except.error.inj same ▸ lexical

end Scanner

namespace Stream

theorem ended_ofSource (source : String) : (ofSource source).Ended :=
  (Scanner.lexical_stream _).1

theorem isLexical_of_mem_ofSource {source : String} {token : Token}
    (member : token ∈ (ofSource source).tokens) : token.isLexical :=
  (Scanner.lexical_stream _).2.1 token member

theorem found?_of_last {source : String} {e : ParseError}
    (failed : (ofSource source).last = .error e) : e.found? = none :=
  (Scanner.lexical_stream _).2.2 e failed

theorem kind_ne_eof_of_mem_ofSource {source : String} {token : Token}
    (member : token ∈ (ofSource source).tokens) : token.kind ≠ .eof := by
  intro eof
  have lexical := isLexical_of_mem_ofSource member
  simp [Token.isLexical, eof] at lexical

end Stream
end Dialogue
