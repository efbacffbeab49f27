import Dialogue.Proofs.Faults
import Dialogue.Proofs.Places
import Dialogue.Text.Lowercase

/-! What the tokens of a source carry. The text that a token carries is of the class of its kind:
numbers are digits, names are words that are no keyword in whatever case they are written, and so
on. A reader of the tokens can count on it, and never meets a number that is none or a mode without
a name. -/
namespace Dialogue

namespace Text

theorem toNat_ofNat {n : Nat} (valid : n.isValidChar) : (Char.ofNat n).toNat = n := by
  rw [Char.ofNat, dif_pos valid]
  rfl

/-- Below the first letter that is not of the Roman alphabet, lower case is what it is there. -/
theorem lower_of_ascii {c : Char} (ascii : c.toNat < 128) : lower c = [c.toLower] := by
  have all : ∀ n < 128, lower (Char.ofNat n) = [(Char.ofNat n).toLower] := by decide +kernel
  rw [← Char.ofNat_toNat c]
  exact all _ ascii

/-- Whether the letters of a range have their lower case beyond the Roman alphabet. -/
def CaseRange.isBeyond (range : CaseRange) : Bool :=
  128 ≤ range.first + range.shift &&
    (range.last + range.shift < 0xD800 ||
      (0xDFFF < range.first + range.shift && range.last + range.shift < 0x110000))

theorem isBeyond_of_mem {range : CaseRange} (member : range ∈ caseRanges) :
    range.last < 128 ∨ range = ⟨0x212A, 0x212A, 1, -8383⟩ ∨ range.isBeyond = true := by
  have all : ∀ range ∈ caseRanges, range.last < 128 ∨ range = ⟨0x212A, 0x212A, 1, -8383⟩ ∨
      range.isBeyond = true := by decide +kernel
  exact all range member

/-- Of the other letters only the sign of kelvins has a Roman letter as its lower case. -/
theorem exists_mem_lower {c : Char} (beyond : 128 ≤ c.toNat) :
    ∃ d ∈ lower c, 128 ≤ d.toNat ∨ d = 'k' := by
  unfold lower
  split
  · exact ⟨_, List.mem_cons_of_mem _ List.mem_cons_self, .inl (by decide)⟩
  · split
    · next range found =>
        refine ⟨_, List.mem_cons_self, ?_⟩
        have inside := List.find?_some found
        simp only [CaseRange.contains, Bool.and_eq_true, decide_eq_true_eq] at inside
        obtain low | rfl | above := isBeyond_of_mem (List.mem_of_find?_eq_some found)
        · omega
        · have same : c.toNat = 0x212A := by
            dsimp only at inside
            omega
          rw [same]
          exact .inr rfl
        · simp only [CaseRange.isBeyond, Bool.and_eq_true, Bool.or_eq_true,
            decide_eq_true_eq] at above
          rw [toNat_ofNat]
          · omega
          · simp only [Nat.isValidChar]
            omega
    · exact ⟨c, List.mem_cons_self, .inl beyond⟩

variable {isFinal : List Char → List Char → Bool} {before text : List Char}

/-- In lower case a text of Roman letters is what it is there. -/
theorem lowercase_of_ascii (ascii : ∀ c ∈ text, c.toNat < 128) :
    lowercase isFinal before text = text.map Char.toLower := by
  induction text generalizing before with
  | nil => rfl
  | cons c rest ih =>
      obtain ⟨first, others⟩ := List.forall_mem_cons.1 ascii
      have plain : ¬(c == 'Σ' && isFinal before rest) = true := by
        intro sigma
        obtain rfl : c = 'Σ' := by
          rw [Bool.and_eq_true, beq_iff_eq] at sigma
          exact sigma.1
        exact absurd first (by decide)
      rw [lowercase, if_neg plain, lower_of_ascii first, ih others]
      rfl

/-- A text has Roman letters only if its lower case has, and no k among them. -/
theorem ascii_of_lowercase (roman : ∀ d ∈ lowercase isFinal before text, d.toNat < 128 ∧ d ≠ 'k') :
    ∀ c ∈ text, c.toNat < 128 := by
  induction text generalizing before with
  | nil => exact List.forall_mem_nil _
  | cons c rest ih =>
      simp only [lowercase, List.mem_append] at roman
      refine List.forall_mem_cons.2 ⟨?_, ih fun d member => roman d (.inr member)⟩
      by_contra other
      split at roman
      · exact absurd (roman 'ς' (.inl List.mem_cons_self)).1 (by decide)
      · obtain ⟨d, member, beyond⟩ := exists_mem_lower (Nat.not_lt.1 other)
        obtain ⟨low, plain⟩ := roman d (.inl member)
        exact absurd beyond (not_or.2 ⟨Nat.not_le.2 low, plain⟩)

theorem ascii_of_map_toLower (roman : ∀ d ∈ text.map Char.toLower, d.toNat < 128) :
    ∀ c ∈ text, c.toNat < 128 := by
  intro c member
  have low := roman c.toLower (List.mem_map_of_mem member)
  unfold Char.toLower at low
  split at low
  · next upper => exact Nat.lt_of_le_of_lt upper.2 (by decide)
  · exact low

/-- Whether a text neither begins nor ends with white space. -/
def IsTrimmed (text : List Char) : Prop :=
  (∀ c ∈ text.head?, isBlank c = false) ∧ ∀ c ∈ text.getLast?, isBlank c = false

theorem isTrimmed_trim (text : List Char) : IsTrimmed (trim text) := by
  have stops : ∀ v : List Char, ∀ c ∈ (v.dropWhile isBlank).head?, isBlank c = false := by
    intro v c found
    have stop := List.head?_dropWhile_not isBlank v
    rw [Option.mem_def.1 found] at stop
    simpa using stop
  constructor
  · intro c found
    have front : trim text <+: text.dropWhile isBlank := by
      rw [trim, trimEnd, ← List.reverse_suffix, List.reverse_reverse]
      exact List.dropWhile_suffix isBlank
    obtain ⟨more, split⟩ := front
    refine stops text c ?_
    rw [← split, List.head?_append, Option.mem_def.1 found]
    rfl
  · intro c found
    rw [trim, trimEnd, List.getLast?_reverse] at found
    exact stops _ c found

end Text

namespace Scanner

/-- The words that no name may be, in whatever case. -/
def keywords : List String :=
  ["is", "isnt", "or", "and", "not", "set", "trigger", "when", "null", "true", "false"]

theorem roman_of_keyword? {text : List Char} {kind : Token.Kind}
    (found : keyword? (String.ofList text) = some kind) : ∀ d ∈ text, d.toNat < 128 ∧ d ≠ 'k' := by
  obtain ⟨before, after, split, -⟩ := List.lookup_eq_some_iff.1 found
  have each : ∀ entry ∈ before ++ (String.ofList text, kind) :: after,
      entry.1.toList.all fun d => d.toNat < 128 && d != 'k' := by
    rw [← split]
    decide
  have all := each _ (List.mem_append_right before List.mem_cons_self)
  simpa using all

/-- For a keyword the Roman letters are all that matters of the lower case. -/
theorem keyword?_lowercase (isFinal : List Char → List Char → Bool) (name : List Char) :
    keyword? (String.ofList (Text.lowercase isFinal [] name)) =
      keyword? (String.ofList (name.map Char.toLower)) := by
  by_cases ascii : ∀ c ∈ name, c.toNat < 128
  · rw [Text.lowercase_of_ascii ascii]
  · have whole : keyword? (String.ofList (Text.lowercase isFinal [] name)) = none := by
      refine Option.eq_none_iff_forall_ne_some.2 fun kind found => ascii ?_
      exact Text.ascii_of_lowercase (roman_of_keyword? found)
    have roman : keyword? (String.ofList (name.map Char.toLower)) = none := by
      refine Option.eq_none_iff_forall_ne_some.2 fun kind found => ascii ?_
      exact Text.ascii_of_map_toLower fun d member => (roman_of_keyword? found d member).1
    rw [whole, roman]

theorem not_mem_keywords {name : List Char}
    (free : keyword? (String.ofList (name.map Char.toLower)) = none)
    (isFinal : List Char → List Char → Bool) :
    String.ofList (Text.lowercase isFinal [] name) ∉ keywords := by
  intro member
  have known : ∀ word ∈ keywords, keyword? word ≠ none := by decide
  exact known _ member ((keyword?_lowercase isFinal name).trans free)

end Scanner

namespace Token

/-- Whether characters are a name that is no keyword, whatever rule there is for final letters. -/
def IsIdentifier (name : List Char) : Prop :=
  IsName name ∧ ∀ isFinal, String.ofList (Text.lowercase isFinal [] name) ∉ Scanner.keywords

/-- What the text of a token is like, for the kinds that carry one but no free text. -/
def Kind.class? : Kind → Option (List Char → Prop)
  | number => some Number.Plain
  | identifier => some IsIdentifier
  | boolean => some fun text => String.ofList text ∈ ["true", "false"]
  | variationsMode => some fun text => String.ofList text ∈ VariationMode.names
  | block | divert => some fun text => ∀ c ∈ text, Text.isWord c = true
  | lineId | tag => some fun text => ∀ c ∈ text, Text.isMarker c = true
  | speaker => some Text.IsTrimmed
  | _ => none

/-- Whether a token carries a text of the class of its kind, if that has one. -/
def IsClassed (token : Token) : Prop :=
  ∀ p, token.kind.class? = some p → ∃ text, token.value? = some (String.ofList text) ∧ p text

theorem isClassed_of_not_isWritten {token : Token} (bare : ¬token.isWritten) : token.IsClassed := by
  intro p classed
  unfold isWritten Kind.isWritten at bare
  unfold Kind.class? at classed
  split at bare <;> simp_all

/-- A keyword that carries a text is a truth value. -/
theorem class?_of_keyword? {word : String} {kind : Kind}
    (found : Scanner.keyword? word = some kind) :
    (kind = .boolean ∧ word ∈ ["true", "false"]) ∨ (kind ≠ .boolean ∧ kind.class?.isNone) := by
  obtain ⟨before, after, split, -⟩ := List.lookup_eq_some_iff.1 found
  have each : ∀ entry ∈ before ++ (word, kind) :: after,
      (entry.2 = .boolean ∧ entry.1 ∈ ["true", "false"]) ∨
        (entry.2 ≠ .boolean ∧ entry.2.class?.isNone) := by
    rw [← split]
    decide
  exact each (word, kind) (List.mem_append_right before List.mem_cons_self)

/-- What a lexeme writes is of the class of its kind. -/
theorem Spells.exists_class {kind : Kind} {value? : Option String} {lexeme : List Char}
    (spells : Spells kind value? lexeme) {p : List Char → Prop} (classed : kind.class? = some p) :
    ∃ text, value? = some (String.ofList text) ∧ p text := by
  cases spells with
  | mark written => cases kind <;> cases written <;> cases classed
  | keyword isName found valueless =>
      obtain ⟨truth, -⟩ | ⟨-, bare⟩ := class?_of_keyword? found
      · exact absurd truth valueless
      · rw [classed] at bare
        cases bare
  | boolean isName found =>
      cases classed
      obtain ⟨-, listed⟩ | ⟨other, -⟩ := class?_of_keyword? found
      · exact ⟨_, rfl, listed⟩
      · exact absurd rfl other
  | identifier isName free =>
      cases classed
      exact ⟨_, rfl, isName, Scanner.not_mem_keywords free⟩
  | number plain =>
      cases classed
      exact ⟨_, rfl, plain⟩
  | marker signed all =>
      simp only [List.mem_cons, Prod.mk.injEq, List.not_mem_nil, or_false] at signed
      obtain ⟨rfl, -⟩ | ⟨rfl, -⟩ := signed <;>
        · cases classed
          exact ⟨_, rfl, all⟩
  | named signed spaces all =>
      simp only [List.mem_cons, Prod.mk.injEq, List.not_mem_nil, or_false] at signed
      obtain ⟨rfl, -⟩ | ⟨rfl, -⟩ := signed <;>
        · cases classed
          exact ⟨_, rfl, all⟩
  | @variationsMode c rest letter line known =>
      cases classed
      obtain ⟨mode, found⟩ := Option.isSome_iff_exists.1 known
      refine ⟨(modeName (c :: rest)).toList, by rw [String.ofList_toList], ?_⟩
      change String.ofList _ ∈ _
      rw [String.ofList_toList, ← VariationMode.name_of_ofName? found]
      exact List.mem_map_of_mem (VariationMode.mem_all mode)
  | speaker told starts filled unquoted =>
      cases classed
      exact ⟨_, rfl, Text.isTrimmed_trim _⟩
  | literal | quoted | text => cases classed

theorem IsClassed.isSome_ofName? {token : Token} (classed : token.IsClassed)
    (kind : token.kind = .variationsMode) : (VariationMode.ofName? token.value).isSome := by
  obtain ⟨text, carried, member⟩ := classed _ (by rw [kind]; rfl)
  obtain ⟨mode, -, named⟩ := List.mem_map.1 member
  rw [value, carried, Option.getD_some, ← named, VariationMode.ofName?_name]
  rfl

theorem IsClassed.isSome_read? {token : Token} (classed : token.IsClassed)
    (kind : token.kind = .number) : (Number.read? token.value.toList).isSome := by
  obtain ⟨text, carried, plain⟩ := classed _ (by rw [kind]; rfl)
  rw [value, carried, Option.getD_some, String.toList_ofList]
  exact Number.Plain.isSome_read? plain

end Token

namespace Stream

/-- Every token of a source is of its class: it is written by a lexeme, or it carries nothing. -/
theorem isClassed_of_mem_items {source : String} {token : Token}
    (member : token ∈ (ofSource source).items) : token.IsClassed := by
  obtain inside | eof := (ended_ofSource source).of_mem_items member
  · by_cases written : token.isWritten = true
    · obtain ⟨pieces, -, -, read, -⟩ :=
        Scanner.covers_stream (Scanner.ofSource source) fun _ => rfl
      have listed : token ∈ Piece.tokens pieces := by
        rw [read]
        exact List.mem_filter.2 ⟨inside, written⟩
      obtain ⟨piece, -, found⟩ := List.mem_filterMap.1 listed
      cases piece with
      | gap | comment => cases found
      | lexeme token chars spells =>
          cases found
          exact fun p classed => spells.exists_class classed
    · exact Token.isClassed_of_not_isWritten written
  · refine Token.isClassed_of_not_isWritten ?_
    rw [Token.isWritten, eof]
    exact Bool.false_ne_true

theorem mem_items_of_mem_outcomes {s : Stream} {token : Token}
    (member : Except.ok token ∈ s.outcomes) : token ∈ s.items := by
  rw [outcomes, List.mem_append, List.mem_map, List.mem_singleton] at member
  obtain ⟨other, inside, same⟩ | last := member
  · obtain rfl := Except.ok.inj same
    exact List.mem_append_left _ inside
  · exact List.mem_append_right _ (by simp [← last])

end Stream

/-- The mode of variations is the one that is named. -/
theorem Parser.variationMode_of_ofName? {s : Stream} {token : Token} {mode : VariationMode}
    (peeked : s.peek = .ok token) (kind : token.kind = .variationsMode)
    (named : VariationMode.ofName? token.value = some mode) :
    variationMode s = .ok (mode, s.drop) := by
  rw [variationMode, bind_of_ok (next_of_ahead ⟨token, peeked, kind⟩)]
  refine (bind_of_ok (expect_of_mem peeked ?_) _).trans ?_
  · rw [kind]
    exact List.mem_singleton_self _
  · rw [named]
    rfl

/-- All tokens of a source are of the classes of their kinds. So a number is read wherever a token
of that kind stands, and no error is that it is none; and where a mode of variations is written, it
is one of the modes by name, and it is the one that is read. -/
theorem Stream.isClassed_ofSource (source : String) :
    (∀ n token, (Feed.ofSource source).pulls n = some (.ok token) → token.IsClassed) ∧
      (∀ token ∈ (ofSource source).items, token.kind = .number →
        ∃ x, Number.read? token.value.toList = some x ∧
          ∀ s, Parser.number token s = .ok (x, s)) ∧
      (∀ e, parse source = .error (.fault e) → ∀ text, e.cause ≠ .unreadableNumber text) ∧
      ∀ s token, (ofSource source).LeftOf s → s.peek = .ok token → token.kind = .variationsMode →
        ∃ mode, VariationMode.ofName? token.value = some mode ∧
          Parser.variationMode s = .ok (mode, s.drop) := by
  refine ⟨fun n token pulled => ?_, fun token member kind => ?_, ?_, ?_⟩
  · rw [Feed.pulls_eq_getElem?, Feed.left_ofSource] at pulled
    exact isClassed_of_mem_items (mem_items_of_mem_outcomes (List.mem_of_getElem? pulled))
  · have readable := (isClassed_of_mem_items member).isSome_read? kind
    obtain ⟨x, reads⟩ := Option.isSome_iff_exists.1 readable
    exact ⟨x, reads, Parser.number_of_read? reads⟩
  · exact fun e failed => ParseError.ne_unreadableNumber_of_parse failed
  · intro s token left peeked kind
    have known := (isClassed_of_mem_items (left.peek peeked)).isSome_ofName? kind
    obtain ⟨mode, named⟩ := Option.isSome_iff_exists.1 known
    exact ⟨mode, named, Parser.variationMode_of_ofName? peeked kind named⟩

/-- A mode that is written with two spaces in it, and a number where a name should be assigned. -/
def unassigned : String := "(shuffle  once\n- a \x7b set Only 1.5"

theorem stream_unassigned : Stream.ofSource unassigned =
    ⟨[⟨.bracketOpen, 0, 0, none⟩, ⟨.variationsMode, 0, 1, some "shuffle once"⟩,
      ⟨.minus, 1, 0, none⟩, ⟨.text, 1, 2, some "a"⟩, ⟨.braceOpen, 1, 4, none⟩,
      ⟨.set, 1, 6, none⟩, ⟨.identifier, 1, 10, some "Only"⟩, ⟨.number, 1, 15, some "1.5"⟩],
      .ok ⟨.eof, 1, 18, none⟩⟩ := by
  have tokens : (Stream.ofSource unassigned).tokens =
      [⟨.bracketOpen, 0, 0, none⟩, ⟨.variationsMode, 0, 1, some "shuffle once"⟩,
        ⟨.minus, 1, 0, none⟩, ⟨.text, 1, 2, some "a"⟩, ⟨.braceOpen, 1, 4, none⟩,
        ⟨.set, 1, 6, none⟩, ⟨.identifier, 1, 10, some "Only"⟩,
        ⟨.number, 1, 15, some "1.5"⟩] := by decide +kernel
  have last : (Stream.ofSource unassigned).last = .ok ⟨.eof, 1, 18, none⟩ := by decide +kernel
  rw [← tokens, ← last]

/-- The name is classed, the number is read and so is the mode; what stops the document is the kind
of the number. -/
theorem Stream.isClassed_ofSource_unassigned :
    (∃ e, parse unassigned = .error (.fault e) ∧ ∀ text, e.cause ≠ .unreadableNumber text) ∧
      Token.IsClassed ⟨.identifier, 1, 10, some "Only"⟩ ∧
      (∃ x, ∀ s, Parser.number ⟨.number, 1, 15, some "1.5"⟩ s = .ok (x, s)) ∧
      Parser.variationMode (ofSource unassigned).drop =
        .ok (.shuffleOnce, (ofSource unassigned).drop.drop) := by
  obtain ⟨classed, numbers, readable, modes⟩ := isClassed_ofSource unassigned
  refine ⟨?_, ?_, ?_, ?_⟩
  · have parsed : parse unassigned =
        .error (.fault ⟨.unexpectedToken .number Update.kinds, 2, 16⟩) := by
      rw [parse, stream_unassigned]
      rfl
    exact ⟨_, parsed, readable _ parsed⟩
  · refine classed 6 _ ?_
    rw [Feed.pulls_eq_getElem?, Feed.left_ofSource, stream_unassigned]
    rfl
  · obtain ⟨x, -, reads⟩ := numbers ⟨.number, 1, 15, some "1.5"⟩
      (by rw [stream_unassigned]; decide) rfl
    exact ⟨x, reads⟩
  · have left : (ofSource unassigned).LeftOf (ofSource unassigned).drop :=
      LeftOf.drop ⟨rfl, List.suffix_rfl⟩
    obtain ⟨mode, named, read⟩ := modes _ ⟨.variationsMode, 0, 1, some "shuffle once"⟩ left
      (by rw [stream_unassigned]; rfl) rfl
    obtain rfl : mode = .shuffleOnce := Option.some.inj (named.symm.trans (by decide))
    exact read

end Dialogue
