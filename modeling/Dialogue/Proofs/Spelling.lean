import Dialogue.Proofs.LineEnds
import Dialogue.Proofs.Scanned

/-! How tokens are written. A token is written as a lexeme, which shows the kind of the token and
what it carries, and which does not begin with a gap. In text a backslash keeps the character after
it. Only text in quotes goes on over the end of a line by itself; elsewhere a line break needs a
backslash before it. -/
namespace Dialogue

open Scanner (isSpace isGap unescape endsText keyword? textRun quoteRun literalRun ne_backslash)

/-- Whether a run of source is a text when its backslashes are resolved: a backslash keeps the
character after it, and no other character ends the run. -/
inductive Unescapes (keep : Char → Char) (ends : Char → Bool) : List Char → List Char → Prop
  | nil : Unescapes keep ends [] []
  | kept (c : Char) {source text : List Char} (rest : Unescapes keep ends source text) :
      Unescapes keep ends ('\\' :: c :: source) (keep c :: text)
  | plain {c : Char} {source text : List Char} (bare : c ≠ '\\') (inside : ends c = false)
      (rest : Unescapes keep ends source text) : Unescapes keep ends (c :: source) (c :: text)

namespace Token

/-- The characters of a lexeme as they count for the places after it: a line break behind a
backslash is a character of the line. -/
def counted : List Char → List Char
  | [] => []
  | '\\' :: c :: rest => '\\' :: (if c == '\n' then ' ' else c) :: counted rest
  | c :: rest => c :: counted rest

/-- The mark that stands for a kind. -/
def Kind.mark? : Kind → Option (List Char)
  | option | times => some ['*']
  | stickyOption | plus => some ['+']
  | fallbackOption | greater => some ['>']
  | optionsStart => some ['>', '>']
  | labelOpen => some ['[']
  | labelClose => some [']']
  | divertParent => some ['<', '-']
  | bracketOpen => some ['(']
  | bracketClose => some [')']
  | braceOpen => some ['\x7b']
  | braceClose => some ['\x7d']
  | minus => some ['-']
  | divide => some ['/']
  | power => some ['^']
  | modulo => some ['%']
  | and => some ['&', '&']
  | or => some ['|', '|']
  | not => some ['!']
  | equal => some ['=', '=']
  | notEqual => some ['!', '=']
  | greaterOrEqual => some ['>', '=']
  | lessOrEqual => some ['<', '=']
  | less => some ['<']
  | assign => some ['=']
  | assignSum => some ['+', '=']
  | assignDifference => some ['-', '=']
  | assignProduct => some ['*', '=']
  | assignQuotient => some ['/', '=']
  | assignPower => some ['^', '=']
  | assignModulo => some ['%', '=']
  | comma => some [',']
  | _ => none

/-- Whether characters are a name or a keyword. -/
def IsName (name : List Char) : Prop :=
  (∃ c rest, name = c :: rest ∧ (Text.isAlphabetic c || c == '_') = true) ∧
    ∀ c ∈ name, Text.isWord c = true

/-- The name of a mode of variations, with single spaces between its words. -/
def modeName (written : List Char) : String :=
  " ".intercalate ((Text.words written).map String.ofList)

/-- What ends plain text: brackets on the line of an option, and a colon while no speaker has been
read. -/
def ends (inOption speakers : Bool) (c : Char) : Bool :=
  endsText inOption c || (c == ':' && speakers)

/-- Whether a lexeme writes a token of a kind, with what the token carries. -/
inductive Spells : Kind → Option String → List Char → Prop
  | mark {kind : Kind} {lexeme : List Char} (written : kind.mark? = some lexeme) :
      Spells kind none lexeme
  | keyword {kind : Kind} {name : List Char} (isName : IsName name)
      (found : keyword? (String.ofList (name.map Char.toLower)) = some kind)
      (valueless : kind ≠ .boolean) : Spells kind none name
  | boolean {name : List Char} (isName : IsName name)
      (found : keyword? (String.ofList (name.map Char.toLower)) = some .boolean) :
      Spells .boolean (some (String.ofList (name.map Char.toLower))) name
  | identifier {name : List Char} (isName : IsName name)
      (free : keyword? (String.ofList (name.map Char.toLower)) = none) :
      Spells .identifier (some (String.ofList name)) name
  | number {digits : List Char} (plain : Number.Plain digits) :
      Spells .number (some (String.ofList digits)) digits
  | literal {quote : Char} {source text : List Char} (quotes : quote = '"' ∨ quote = '\'')
      (told : Unescapes id (fun c => c == '\n' || c == quote) source text) :
      Spells .string (some (String.ofList text)) (quote :: (source ++ [quote]))
  | marker {kind : Kind} {sign : Char} {name : List Char}
      (signed : (kind, sign) ∈ [(Kind.lineId, '$'), (.tag, '#')])
      (all : ∀ c ∈ name, Text.isMarker c = true) :
      Spells kind (some (String.ofList name)) (sign :: name)
  | named {kind : Kind} {first second : Char} {gap name : List Char}
      (signed : (kind, first, second) ∈ [(Kind.block, '=', '='), (.divert, '-', '>')])
      (spaces : ∀ c ∈ gap, isSpace c = true) (all : ∀ c ∈ name, Text.isWord c = true) :
      Spells kind (some (String.ofList name)) (first :: second :: (gap ++ name))
  | variationsMode {c : Char} {rest : List Char} (letter : Text.isAlphabetic c = true)
      (line : '\n' ∉ c :: rest) (known : (VariationMode.ofName? (modeName (c :: rest))).isSome) :
      Spells .variationsMode (some (modeName (c :: rest))) (c :: rest)
  | quoted {source text : List Char} (told : Unescapes unescape (fun c => c == '"') source text) :
      Spells .text (some (String.ofList text)) ('"' :: (source ++ ['"']))
  | text {inOption speakers : Bool} {c : Char} {source text dangling rest : List Char}
      (told : Unescapes unescape (ends inOption speakers) source text)
      (hanging : dangling = [] ∨ dangling = ['\\']) (starts : source ++ dangling = c :: rest)
      (filled : isGap c = false) (unquoted : c ≠ '"') :
      Spells .text (some (String.ofList (Text.trim text))) (source ++ dangling)
  | speaker {inOption : Bool} {c : Char} {source text rest : List Char}
      (told : Unescapes unescape (ends inOption true) source text)
      (starts : source ++ [':'] = c :: rest) (filled : isGap c = false) (unquoted : c ≠ '"') :
      Spells .speaker (some (String.ofList (Text.trim text))) (source ++ [':'])

/-! What counts. -/

@[simp] theorem length_counted (chars : List Char) : (counted chars).length = chars.length := by
  fun_induction counted chars <;> simp_all

theorem counted_cons {c : Char} (bare : c ≠ '\\') (rest : List Char) :
    counted (c :: rest) = c :: counted rest := by
  rw [counted]
  rintro d rest rfl
  exact absurd rfl bare

theorem counted_of_not_mem {chars : List Char} (line : '\n' ∉ chars) : counted chars = chars := by
  fun_induction counted chars with
  | case1 => rfl
  | case2 c rest ih =>
      simp only [List.mem_cons, not_or] at line
      obtain ⟨-, other, later⟩ := line
      rw [ih later, if_neg (by simpa using Ne.symm other)]
  | case3 c rest escaped ih => rw [ih (fun later => line (List.mem_cons_of_mem c later))]

end Token

namespace Unescapes

variable {keep : Char → Char} {ends : Char → Bool} {source text : List Char}

theorem counted_append (told : Unescapes keep ends source text) (more : List Char) :
    Token.counted (source ++ more) = Token.counted source ++ Token.counted more := by
  induction told with
  | nil => rfl
  | kept c rest ih => simp only [List.cons_append, Token.counted, ih]
  | plain bare inside rest ih =>
      rw [List.cons_append, Token.counted_cons bare, Token.counted_cons bare, ih, List.cons_append]

theorem not_mem_counted (told : Unescapes keep ends source text) (stops : ends '\n' = true) :
    '\n' ∉ Token.counted source := by
  induction told with
  | nil => exact List.not_mem_nil
  | kept c rest ih =>
      simp only [Token.counted, List.mem_cons, not_or]
      refine ⟨by decide, ?_, ih⟩
      split
      · decide
      · next other => simpa using Ne.symm (by simpa using other)
  | @plain c source text bare inside rest ih =>
      rw [Token.counted_cons bare, List.mem_cons, not_or]
      refine ⟨?_, ih⟩
      rintro rfl
      rw [stops] at inside
      cases inside

end Unescapes

namespace Token

variable {kind : Kind} {value? : Option String} {lexeme : List Char}

/-! Lexemes begin with a character that is no gap, and only text in quotes goes over the line. -/

/-- Whether a character is neither a gap nor the end of a line. -/
def isFilled (c : Char) : Bool := !isGap c && c != '\n'

theorem isFilled_of {p : Char → Bool} (space : p ' ' = false) (tab : p '\t' = false)
    (carriage : p '\r' = false) (line : p '\n' = false) {c : Char} (holds : p c = true) :
    isFilled c = true := by
  have apart : ∀ d, p d = false → c ≠ d := by
    rintro d other rfl
    rw [other] at holds
    cases holds
  simp [isFilled, isGap, isSpace, apart _ space, apart _ tab, apart _ carriage, apart _ line]

theorem isFilled_of_isWord {c : Char} (word : Text.isWord c = true) : isFilled c = true :=
  isFilled_of (p := Text.isWord) (by decide) (by decide) (by decide) (by decide) word

theorem isFilled_of_isDigit {c : Char} (digit : c.isDigit = true) : isFilled c = true :=
  isFilled_of (p := Char.isDigit) (by decide) (by decide) (by decide) (by decide) digit

theorem not_mem_of_forall {p : Char → Bool} (line : p '\n' = false) {chars : List Char}
    (all : ∀ c ∈ chars, p c = true) : '\n' ∉ chars := by
  intro member
  rw [all _ member] at line
  cases line

theorem isFilled_of_mark? {kind : Kind} {lexeme : List Char} (written : kind.mark? = some lexeme) :
    lexeme ≠ [] ∧ lexeme.all isFilled = true := by
  cases kind <;> cases written <;> exact ⟨List.cons_ne_nil _ _, rfl⟩

theorem IsName.exists_cons {name : List Char} (isName : IsName name) :
    ∃ c rest, name = c :: rest ∧ isFilled c = true := by
  obtain ⟨⟨c, rest, rfl, letter⟩, all⟩ := isName
  exact ⟨c, rest, rfl, isFilled_of_isWord (all c List.mem_cons_self)⟩

theorem isFilled_of_unescapes {inOption speakers : Bool} {c : Char}
    {source text more rest : List Char}
    (told : Unescapes unescape (ends inOption speakers) source text)
    (starts : source ++ more = c :: rest) (filled : isGap c = false) (next : '\n' ∉ more) :
    isFilled c = true := by
  have other : c ≠ '\n' := by
    rintro rfl
    cases told with
    | nil => exact next (by rw [List.nil_append] at starts; rw [starts]; exact List.mem_cons_self)
    | kept d rest => cases starts
    | plain bare inside rest =>
        obtain rfl := (List.cons.inj starts).1
        cases inside
  simp [isFilled, filled, other]

/-- Every lexeme begins with a character that is neither a gap nor the end of a line. -/
theorem Spells.exists_cons (spells : Spells kind value? lexeme) :
    ∃ c rest, lexeme = c :: rest ∧ isFilled c = true := by
  cases spells with
  | mark written =>
      obtain ⟨some, filled⟩ := isFilled_of_mark? written
      obtain ⟨c, rest, rfl⟩ := List.exists_cons_of_ne_nil some
      exact ⟨c, rest, rfl, List.all_eq_true.1 filled c List.mem_cons_self⟩
  | keyword isName | boolean isName | identifier isName => exact isName.exists_cons
  | number plain =>
      obtain ⟨c, rest, same, digit⟩ := plain.exists_cons
      exact ⟨c, rest, same, isFilled_of_isDigit digit⟩
  | literal quotes told =>
      refine ⟨_, _, rfl, ?_⟩
      rcases quotes with rfl | rfl <;> rfl
  | marker signed all =>
      refine ⟨_, _, rfl, ?_⟩
      simp only [List.mem_cons, Prod.mk.injEq, List.not_mem_nil, or_false] at signed
      rcases signed with ⟨-, rfl⟩ | ⟨-, rfl⟩ <;> rfl
  | named signed spaces all =>
      refine ⟨_, _, rfl, ?_⟩
      simp only [List.mem_cons, Prod.mk.injEq, List.not_mem_nil, or_false] at signed
      rcases signed with ⟨-, rfl, -⟩ | ⟨-, rfl, -⟩ <;> rfl
  | variationsMode letter line known =>
      have word : Text.isWord _ = true := Scanner.isWord_of_isAlphabetic (by rw [letter]; rfl)
      exact ⟨_, _, rfl, isFilled_of_isWord word⟩
  | quoted told => exact ⟨_, _, rfl, rfl⟩
  | text told hanging starts filled unquoted =>
      refine ⟨_, _, starts, isFilled_of_unescapes told starts filled ?_⟩
      rcases hanging with rfl | rfl <;> decide
  | speaker told starts filled unquoted =>
      exact ⟨_, _, starts, isFilled_of_unescapes told starts filled (by decide)⟩

theorem not_mem_of_plain {digits : List Char} (plain : Number.Plain digits) : '\n' ∉ digits := by
  cases plain with
  | whole some all => exact not_mem_of_forall (by decide) all
  | decimal some all more each =>
      simp only [List.mem_append, List.mem_cons, not_or]
      exact ⟨not_mem_of_forall (by decide) all, by decide, not_mem_of_forall (by decide) each⟩

/-- Outside text in quotes no line break counts within a lexeme. -/
theorem Spells.not_mem_counted (spells : Spells kind value? lexeme)
    (unquoted : kind = .text → lexeme.head? ≠ some '"') : '\n' ∉ counted lexeme := by
  -- Most lexemes have no line break at all, and then counting changes nothing.
  have within : '\n' ∉ lexeme → '\n' ∉ counted lexeme := by
    intro line
    rwa [counted_of_not_mem line]
  cases spells with
  | mark written =>
      exact within (not_mem_of_forall rfl (List.all_eq_true.1 (isFilled_of_mark? written).2))
  | keyword isName | boolean isName | identifier isName =>
      exact within (not_mem_of_forall (by decide) isName.2)
  | number plain => exact within (not_mem_of_plain plain)
  | @literal quote source text quotes told =>
      have bare : quote ≠ '\\' := by rcases quotes with rfl | rfl <;> decide
      have other : '\n' ≠ quote := by rcases quotes with rfl | rfl <;> decide
      rw [counted_cons bare, told.counted_append, counted_cons bare]
      simp only [List.mem_cons, List.mem_append, not_or]
      exact ⟨other, told.not_mem_counted rfl, other, List.not_mem_nil⟩
  | marker signed all =>
      refine within ?_
      simp only [List.mem_cons, Prod.mk.injEq, List.not_mem_nil, or_false] at signed
      rw [List.mem_cons, not_or]
      refine ⟨?_, not_mem_of_forall (by decide) all⟩
      rcases signed with ⟨-, rfl⟩ | ⟨-, rfl⟩ <;> decide
  | named signed spaces all =>
      refine within ?_
      simp only [List.mem_cons, Prod.mk.injEq, List.not_mem_nil, or_false] at signed
      simp only [List.mem_cons, List.mem_append, not_or]
      refine ⟨?_, ?_, not_mem_of_forall rfl spaces, not_mem_of_forall (by decide) all⟩
      · rcases signed with ⟨-, rfl, -⟩ | ⟨-, rfl, -⟩ <;> decide
      · rcases signed with ⟨-, -, rfl⟩ | ⟨-, -, rfl⟩ <;> decide
  | variationsMode letter line known => exact within line
  | quoted told => exact absurd rfl (unquoted rfl)
  | text told hanging starts filled other =>
      rw [told.counted_append, List.mem_append, not_or]
      refine ⟨told.not_mem_counted rfl, ?_⟩
      rcases hanging with rfl | rfl <;> decide
  | speaker told starts filled other =>
      rw [told.counted_append, List.mem_append, not_or]
      exact ⟨told.not_mem_counted rfl, by decide⟩

end Token

/-! What the runs of the scanner read. -/

namespace Scanner

variable {c : Char} {v : List Char}

theorem textRun_unescapes (inOption speakers : Bool) (v : List Char) :
    let run := textRun (endsText inOption) speakers v
    ∃ source stop rest, v = source ++ stop ++ rest ∧ run.count = (source ++ stop).length ∧
      Unescapes unescape (Token.ends inOption speakers) source run.chars ∧
      if run.speaker then speakers = true ∧ stop = [':'] else stop = [] ∨ stop = ['\\'] := by
  fun_induction textRun (endsText inOption) speakers v with
  | case1 => exact ⟨[], [], [], rfl, rfl, .nil, .inl rfl⟩
  | case2 c rest ih =>
      obtain ⟨source, stop, left, rfl, count, told, how⟩ := ih
      refine ⟨'\\' :: c :: source, stop, left, rfl, ?_, told.kept c, how⟩
      simp only [Run.cons, count, List.cons_append, List.length_cons]
  | case3 => exact ⟨[], ['\\'], [], rfl, rfl, .nil, .inr rfl⟩
  | case4 c rest escaped last ending => exact ⟨[], [], c :: rest, rfl, rfl, .nil, .inl rfl⟩
  | case5 c rest escaped last plain colon =>
      rw [Bool.and_eq_true, beq_iff_eq] at colon
      obtain ⟨rfl, allowed⟩ := colon
      exact ⟨[], [':'], rest, rfl, rfl, .nil, allowed, rfl⟩
  | case6 c rest escaped last plain colon ih =>
      obtain ⟨source, stop, left, rfl, count, told, how⟩ := ih
      have inside : Token.ends inOption speakers c = false := by
        rw [Token.ends, Bool.or_eq_false_iff]
        exact ⟨by simpa using plain, by simpa using colon⟩
      refine ⟨c :: source, stop, left, rfl, ?_, told.plain (ne_backslash escaped last) inside, how⟩
      simp only [Run.cons, count, List.cons_append, List.length_cons]

theorem quoteRun_unescapes {line column : Nat} {quote : Quote}
    (found : quoteRun v line column = some quote) :
    ∃ source rest, v = source ++ '"' :: rest ∧
      Unescapes unescape (fun c => c == '"') source quote.chars := by
  fun_induction quoteRun v line column generalizing quote with
  | case1 => cases found
  | case2 rest line column =>
      cases found
      exact ⟨[], rest, rfl, .nil⟩
  | case3 c rest line column ih =>
      obtain ⟨inner, within, rfl⟩ := Option.map_eq_some_iff.1 found
      obtain ⟨source, left, rfl, told⟩ := ih within
      exact ⟨'\\' :: c :: source, left, rfl, told.kept c⟩
  | case4 => cases found
  | case5 c rest line column inside escaped last breaks ih =>
      obtain ⟨inner, within, rfl⟩ := Option.map_eq_some_iff.1 found
      obtain ⟨source, left, rfl, told⟩ := ih within
      exact ⟨c :: source, left, rfl,
        told.plain (ne_backslash escaped last) (beq_eq_false_iff_ne.2 inside)⟩
  | case6 c rest line column inside escaped last breaks ih =>
      obtain ⟨inner, within, rfl⟩ := Option.map_eq_some_iff.1 found
      obtain ⟨source, left, rfl, told⟩ := ih within
      exact ⟨c :: source, left, rfl,
        told.plain (ne_backslash escaped last) (beq_eq_false_iff_ne.2 inside)⟩

theorem literalRun_unescapes {quote : Char} {text : List Char} {count : Nat}
    (found : literalRun quote v = some (text, count)) :
    ∃ source rest, v = source ++ quote :: rest ∧ count = source.length + 1 ∧
      Unescapes id (fun c => c == '\n' || c == quote) source text := by
  fun_induction literalRun quote v generalizing text count with
  | case1 => cases found
  | case2 => cases found
  | case3 c rest ih =>
      obtain ⟨⟨inner, width⟩, within, same⟩ := Option.map_eq_some_iff.1 found
      obtain ⟨rfl, rfl⟩ := Prod.mk.inj same
      obtain ⟨source, left, rfl, rfl, told⟩ := ih within
      exact ⟨'\\' :: c :: source, left, rfl, rfl, told.kept c⟩
  | case4 => cases found
  | case5 c rest inside escaped last closes =>
      cases found
      obtain rfl := eq_of_beq closes
      exact ⟨[], rest, rfl, rfl, .nil⟩
  | case6 c rest inside escaped last other ih =>
      obtain ⟨⟨inner, width⟩, within, same⟩ := Option.map_eq_some_iff.1 found
      obtain ⟨rfl, rfl⟩ := Prod.mk.inj same
      obtain ⟨source, left, rfl, rfl, told⟩ := ih within
      have stays : (c == '\n' || c == quote) = false := by
        rw [Bool.or_eq_false_iff]
        exact ⟨beq_eq_false_iff_ne.2 inside, by simpa using other⟩
      exact ⟨c :: source, left, rfl, rfl, told.plain (ne_backslash escaped last) stays⟩

end Scanner
end Dialogue
