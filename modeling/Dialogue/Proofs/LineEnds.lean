import Dialogue.Proofs.Twinning
import Mathlib.Data.List.TakeWhile

/-! What a step of a scanner does before the last line break of what is left, compared over all that
may stand after it. Either it stops before the line break, and then it does the same whatever comes
after it and even without it; or it passes over it, and then it is at the start of the next line or
has taken more than the line. -/
namespace Dialogue
namespace Scanner

variable {s : Scanner} {c : Char} {v : List Char}

/-- The scanner before another rest. -/
def before (s : Scanner) (rest : List Char) : Scanner := { s with rest := rest }

/-- The scanner with a line break and more after what is left. -/
def followed (s : Scanner) (x : List Char) : Scanner := s.before (s.rest ++ '\n' :: x)

@[simp] theorem rest_before (rest : List Char) : (s.before rest).rest = rest := rfl

@[simp] theorem rest_followed (x : List Char) : (s.followed x).rest = s.rest ++ '\n' :: x := rfl

@[simp] theorem line_followed (x : List Char) : (s.followed x).line = s.line := rfl

@[simp] theorem column_followed (x : List Char) : (s.followed x).column = s.column := rfl

@[simp] theorem speakerSeen_followed (x : List Char) :
    (s.followed x).speakerSeen = s.speakerSeen := rfl

@[simp] theorem mode_followed (x : List Char) : (s.followed x).mode = s.mode := rfl

theorem advance_followed {count : Nat} (le : count ≤ s.rest.length) (x : List Char) :
    (s.followed x).advance count = (s.advance count).followed x := by
  simp [advance, followed, before, List.drop_append_of_le_length le]

theorem takeWhile_followed {p : Char → Bool} (stop : p '\n' = false) (v x : List Char) :
    (v ++ '\n' :: x).takeWhile p = v.takeWhile p := by
  induction v with
  | nil => simp [stop]
  | cons c v ih => simp [List.takeWhile_cons, ih]

theorem drop_takeWhile_followed {p : Char → Bool} (v x : List Char) :
    (v ++ '\n' :: x).drop (v.takeWhile p).length = v.drop (v.takeWhile p).length ++ '\n' :: x :=
  List.drop_append_of_le_length (List.takeWhile_sublist p).length_le

theorem head?_followed {d : Char} (other : ('\n' == d) = false) (v x : List Char) :
    ((v ++ '\n' :: x).head? == some d) = (v.head? == some d) := by
  cases v with
  | nil => simpa using other
  | cons c v => rfl

/-- How two steps compare that leave nothing. -/
inductive Ends (s : Scanner) : Step → Step → Prop
  | more (tokens : List Token) {next other : Scanner} (here : next.rest = [])
      (there : other.rest = []) (levels : next.indents = s.indents)
      (same : other.indents = s.indents) :
      Ends s (.more tokens next) (.more tokens other)
  | fail (error : ParseError) : Ends s (.fail error) (.fail error)

/-- How a step at a scanner compares with the steps where a line break and more comes after. -/
inductive Passing (s : Scanner) : Step → (List Char → Step) → Prop
  | within {tokens : List Token} {next : Scanner} {there : List Char → Step}
      (same : ∀ x, there x = .more tokens (next.followed x)) :
      Passing s (.more tokens next) there
  | fail {error : ParseError} {there : List Char → Step} (same : ∀ x, there x = .fail error) :
      Passing s (.fail error) there
  /-- The line ends after a token, which only the line break shows. -/
  | ending {token lineBreak : Token} {next : Scanner} {there : List Char → Step}
      (ends : token.kind.endsLine) (breaks : lineBreak.kind = .lineBreak)
      (blank : ∀ c ∈ next.rest, isGap c) (levels : next.indents = s.indents)
      (same : ∀ x, there x = .more [token, lineBreak] (next.followed x)) :
      Passing s (.more [token] next) there
  /-- A comment ends with the line break. -/
  | below (next : Scanner) {there : List Char → Step} (start : next.atLineStart = true)
      (levels : next.indents = s.indents)
      (same : ∀ x, there x = .more [] (next.before x)) : Passing s (.more [] (next.before [])) there
  /-- The line break is taken as a character. -/
  | beyond {here : Step} {there : List Char → Step}
      (short : ∀ x tokens next, there x = .more tokens next →
        next.rest.length ≤ x.length ∧ next.atLineStart = false)
      (ends : s.Ends here (there [])) : Passing s here there

namespace Passing

theorem ite {p : Prop} [Decidable p] {here other : Step} {there others : List Char → Step}
    (left : p → s.Passing here there) (right : ¬p → s.Passing other others) :
    s.Passing (if p then here else other) (fun x => if p then there x else others x) := by
  by_cases h : p
  · simpa only [if_pos h] using left h
  · simpa only [if_neg h] using right h

theorem congr {here : Step} {there others : List Char → Step} (passing : s.Passing here others)
    (same : ∀ x, there x = others x) : s.Passing here there := by
  obtain rfl : there = others := funext same
  exact passing

theorem single {width : Nat} (kind : Token.Kind) (fits : width < s.rest.length) :
    s.Passing (s.single kind width) fun x => (s.followed x).single kind width := by
  refine within fun x => ?_
  rw [Scanner.single, advance_followed fits]
  rfl

theorem advance (next : Scanner) {tokens : List Token} {count : Nat}
    (fits : count ≤ next.rest.length) :
    s.Passing (.more tokens (next.advance count))
      fun x => .more tokens ((next.followed x).advance count) :=
  within fun x => by rw [advance_followed fits]

theorem marker (kind : Token.Kind) (some : s.rest ≠ []) :
    s.Passing (s.marker kind) fun x => (s.followed x).marker kind := by
  obtain ⟨c, v, split⟩ := List.exists_cons_of_ne_nil some
  refine within fun x => ?_
  have name : ((s.followed x).rest.drop 1).takeWhile Text.isMarker =
      (s.rest.drop 1).takeWhile Text.isMarker := by
    simp only [rest_followed, split, List.cons_append, List.drop_one, List.tail_cons]
    exact takeWhile_followed (by decide) v x
  have fits : ((s.rest.drop 1).takeWhile Text.isMarker).length + 1 ≤ s.rest.length := by
    have le := (List.takeWhile_sublist (l := s.rest.drop 1) Text.isMarker).length_le
    simp only [split, List.drop_one, List.tail_cons, List.length_cons] at le ⊢
    omega
  rw [Scanner.marker, name, advance_followed fits]
  rfl

end Passing

/-- A line break is seen ahead if only gaps stand before the end. -/
theorem lineBreakAhead_followed (s : Scanner) :
    (∀ x, (s.followed x).lineBreakAhead = s.lineBreakAhead) ∨
    (∀ c ∈ s.rest, isGap c) ∧ s.lineBreakAhead = [] ∧
      ∃ token : Token, token.kind = .lineBreak ∧ ∀ x, (s.followed x).lineBreakAhead = [token] := by
  have gap : ∀ x, (s.followed x).rest.takeWhile isGap = s.rest.takeWhile isGap := fun x =>
    takeWhile_followed (by decide) s.rest x
  have left : ∀ x, (s.followed x).rest.drop (s.rest.takeWhile isGap).length =
      s.rest.drop (s.rest.takeWhile isGap).length ++ '\n' :: x := fun x =>
    drop_takeWhile_followed s.rest x
  cases rest : s.rest.drop (s.rest.takeWhile isGap).length with
  | nil =>
      refine .inr ⟨?_, ?_, ⟨.lineBreak, s.line, s.column + (s.rest.takeWhile isGap).length, none⟩,
        rfl, fun x => ?_⟩
      · have all : s.rest.takeWhile isGap = s.rest :=
          (List.takeWhile_sublist isGap).eq_of_length_le (List.drop_eq_nil_iff.1 rest)
        exact List.takeWhile_eq_self_iff.1 all
      · simp only [lineBreakAhead, rest]
      · simp only [lineBreakAhead, gap, left, rest, List.nil_append]
        rfl
  | cons c after =>
      refine .inl fun x => ?_
      simp only [lineBreakAhead, gap, left, rest, List.cons_append]
      split <;> simp_all

theorem ne_backslash (escaped : ∀ d rest, c = '\\' → v = d :: rest → False)
    (last : c = '\\' → v = [] → False) : c ≠ '\\' := by
  intro backslash
  cases v with
  | nil => exact last backslash rfl
  | cons d rest => exact escaped d rest backslash rfl

theorem textRun_cons {ends : Char → Bool} {speakers : Bool} (plain : c ≠ '\\') (v : List Char) :
    textRun ends speakers (c :: v) =
      if ends c then ⟨[], 0, false⟩
      else if c == ':' && speakers then ⟨[], 1, true⟩
      else (textRun ends speakers v).cons c 1 := by
  rw [textRun]
  · rintro d rest rfl
    exact absurd rfl plain
  · rintro rfl
    exact absurd rfl plain

/-- Text is read through a line break only after a backslash, which makes it a character. -/
theorem textRun_followed {ends : Char → Bool} (stop : ends '\n' = true) (speakers : Bool)
    (v : List Char) :
    (textRun ends speakers v).count ≤ v.length ∧
    ((∀ x, textRun ends speakers (v ++ '\n' :: x) = textRun ends speakers v) ∨
      (textRun ends speakers v).speaker = false ∧ (textRun ends speakers v).count = v.length ∧
      ∀ x, textRun ends speakers (v ++ '\n' :: x) =
        ⟨(textRun ends speakers v).chars ++ '\n' :: (textRun ends speakers x).chars,
          (textRun ends speakers v).count + ((textRun ends speakers x).count + 1),
          (textRun ends speakers x).speaker⟩) := by
  fun_induction textRun ends speakers v with
  | case1 => exact ⟨Nat.le_refl 0, .inl fun x => by simp [textRun, stop]⟩
  | case2 c rest ih =>
      obtain ⟨count, same | ⟨none, all, beyond⟩⟩ := ih
      · refine ⟨Nat.add_le_add_right count 2, .inl fun x => ?_⟩
        rw [List.cons_append, List.cons_append, textRun, same x]
      · refine ⟨Nat.add_le_add_right count 2, .inr ⟨none, by simp [Run.cons, all], fun x => ?_⟩⟩
        rw [List.cons_append, List.cons_append, textRun, beyond x]
        simp only [Run.cons, List.cons_append]
        congr 1
        omega
  | case3 =>
      refine ⟨Nat.le_refl 1, .inr ⟨rfl, rfl, fun x => ?_⟩⟩
      rw [List.singleton_append, textRun]
      simp [Run.cons, unescape]
      omega
  | case4 c rest escaped last ending =>
      refine ⟨Nat.zero_le _, .inl fun x => ?_⟩
      rw [List.cons_append, textRun_cons (ne_backslash escaped last), if_pos ending]
  | case5 c rest escaped last plain colon =>
      refine ⟨by simp, .inl fun x => ?_⟩
      rw [List.cons_append, textRun_cons (ne_backslash escaped last), if_neg plain, if_pos colon]
  | case6 c rest escaped last plain colon ih =>
      have step : ∀ x, textRun ends speakers (c :: rest ++ '\n' :: x) =
          (textRun ends speakers (rest ++ '\n' :: x)).cons c 1 := by
        intro x
        rw [List.cons_append, textRun_cons (ne_backslash escaped last), if_neg plain, if_neg colon]
      obtain ⟨count, same | ⟨none, all, beyond⟩⟩ := ih
      · exact ⟨Nat.add_le_add_right count 1, .inl fun x => by rw [step, same x]⟩
      · refine ⟨Nat.add_le_add_right count 1, .inr ⟨none, by simp [Run.cons, all], fun x => ?_⟩⟩
        rw [step, beyond x]
        simp only [Run.cons, List.cons_append]
        congr 1
        omega

theorem quoteRun_cons {line column : Nat} (plain : c ≠ '\\') (inside : c ≠ '"') (v : List Char) :
    quoteRun (c :: v) line column =
      if c == '\n' then (quoteRun v (line + 1) 0).map (·.cons c 1)
      else (quoteRun v line (column + 1)).map (·.cons c 1) := by
  rw [quoteRun]
  · rintro rfl
    exact absurd rfl inside
  · rintro d rest rfl
    exact absurd rfl plain
  · rintro rfl
    exact absurd rfl plain

/-- Whether what is read from a text of some length is the same with a line break and more after
it, or else takes more than the text wherever it is found. -/
def Stops {α : Type} (width : α → Nat) (length : Nat) (here : Option α)
    (there : List Char → Option α) : Prop :=
  (∃ a, here = some a ∧ width a ≤ length ∧ ∀ x, there x = some a) ∨
    here = none ∧ there [] = none ∧ ∀ x a, there x = some a → length < width a

theorem Stops.map {α β : Type} {f : α → β} {width : α → Nat} {wide : β → Nat} {length more : Nat}
    {here : Option α} {there : List Char → Option α} (stops : Stops width length here there)
    (wider : ∀ a, wide (f a) = width a + more) :
    Stops wide (length + more) (here.map f) fun x => (there x).map f := by
  obtain ⟨a, rfl, fits, same⟩ | ⟨rfl, none, beyond⟩ := stops
  · refine .inl ⟨f a, rfl, ?_, fun x => congrArg (Option.map f) (same x)⟩
    rw [wider]
    exact Nat.add_le_add_right fits more
  · refine .inr ⟨rfl, congrArg (Option.map f) none, fun x b found => ?_⟩
    obtain ⟨a, inner, rfl⟩ := Option.map_eq_some_iff.1 found
    rw [wider]
    exact Nat.add_lt_add_right (beyond x a inner) more

theorem Stops.none {α : Type} {width : α → Nat} {length : Nat} :
    Stops width length Option.none fun _ => Option.none :=
  .inr ⟨rfl, rfl, fun _ _ found => nomatch found⟩

/-- A quote that is not closed before the line break goes on after it. -/
theorem quoteRun_followed (v : List Char) (line column : Nat) :
    Stops Quote.count v.length (quoteRun v line column)
      fun x => quoteRun (v ++ '\n' :: x) line column := by
  fun_induction quoteRun v line column with
  | case1 line column =>
      refine .inr ⟨rfl, rfl, fun x quote found => ?_⟩
      dsimp only at found
      rw [List.nil_append, quoteRun_cons (by decide) (by decide)] at found
      obtain ⟨inner, -, rfl⟩ := Option.map_eq_some_iff.1 found
      exact Nat.succ_pos _
  | case2 rest line column => exact .inl ⟨_, rfl, by simp, fun x => rfl⟩
  | case3 c rest line column ih =>
      have step : ∀ x, quoteRun ('\\' :: c :: rest ++ '\n' :: x) line column =
          (quoteRun (rest ++ '\n' :: x) line (column + 2)).map (·.cons (unescape c) 2) :=
        fun x => rfl
      simp only [step]
      change Stops Quote.count (rest.length + 2) _ _
      exact ih.map fun quote => rfl
  | case4 line column =>
      refine .inr ⟨rfl, rfl, fun x quote found => ?_⟩
      obtain ⟨inner, -, rfl⟩ := Option.map_eq_some_iff.1 found
      simp [Quote.cons]
  | case5 c rest line column inside escaped last breaks ih =>
      have step : ∀ x, quoteRun (c :: rest ++ '\n' :: x) line column =
          (quoteRun (rest ++ '\n' :: x) (line + 1) 0).map (·.cons c 1) := by
        intro x
        rw [List.cons_append, quoteRun_cons (ne_backslash escaped last) inside, if_pos breaks]
      simp only [step]
      exact ih.map fun quote => rfl
  | case6 c rest line column inside escaped last breaks ih =>
      have step : ∀ x, quoteRun (c :: rest ++ '\n' :: x) line column =
          (quoteRun (rest ++ '\n' :: x) line (column + 1)).map (·.cons c 1) := by
        intro x
        rw [List.cons_append, quoteRun_cons (ne_backslash escaped last) inside, if_neg breaks]
      simp only [step]
      exact ih.map fun quote => rfl

theorem literalRun_cons {quote : Char} (plain : c ≠ '\\') (inside : c ≠ '\n') (v : List Char) :
    literalRun quote (c :: v) =
      if c == quote then some ([], 1)
      else (literalRun quote v).map fun (chars, count) => (c :: chars, count + 1) := by
  rw [literalRun]
  · rintro rfl
    exact absurd rfl inside
  · rintro d rest rfl
    exact absurd rfl plain
  · rintro rfl
    exact absurd rfl plain

/-- A string literal goes on after the line break only where a backslash stands before it. -/
theorem literalRun_followed (quote : Char) (v : List Char) :
    Stops Prod.snd v.length (literalRun quote v) fun x => literalRun quote (v ++ '\n' :: x) := by
  fun_induction literalRun quote v with
  | case1 => exact .none
  | case2 rest => exact .none
  | case3 c rest ih =>
      have step : ∀ x, literalRun quote ('\\' :: c :: rest ++ '\n' :: x) =
          (literalRun quote (rest ++ '\n' :: x)).map
            fun (chars, count) => (c :: chars, count + 2) := fun x => rfl
      simp only [step]
      change Stops Prod.snd (rest.length + 2) _ _
      refine ih.map ?_
      rintro ⟨chars, count⟩
      rfl
  | case4 =>
      refine .inr ⟨rfl, rfl, fun x pair found => ?_⟩
      obtain ⟨inner, -, rfl⟩ := Option.map_eq_some_iff.1 found
      simp
  | case5 c rest inside escaped last closes =>
      refine .inl ⟨_, rfl, by simp, fun x => ?_⟩
      dsimp only
      rw [List.cons_append, literalRun_cons (ne_backslash escaped last) inside, if_pos closes]
  | case6 c rest inside escaped last open' ih =>
      have step : ∀ x, literalRun quote (c :: rest ++ '\n' :: x) =
          (literalRun quote (rest ++ '\n' :: x)).map
            fun (chars, count) => (c :: chars, count + 1) := by
        intro x
        rw [List.cons_append, literalRun_cons (ne_backslash escaped last) inside, if_neg open']
      simp only [step]
      refine ih.map ?_
      rintro ⟨chars, count⟩
      rfl

theorem numberRun_followed (v x : List Char) : numberRun (v ++ '\n' :: x) = numberRun v := by
  have digits : ∀ u : List Char, (u ++ '\n' :: x).takeWhile Char.isDigit =
      u.takeWhile Char.isDigit := fun u => takeWhile_followed (by decide) u x
  simp only [numberRun, digits, drop_takeWhile_followed]
  cases rest : v.drop (v.takeWhile Char.isDigit).length with
  | nil => rfl
  | cons c after =>
      by_cases point : c = '.'
      · subst point
        simp only [List.cons_append, digits]
      · simp only [List.cons_append]
        split <;> simp_all

theorem isPrefix_numberRun (v : List Char) : numberRun v <+: v := by
  have digits : v.takeWhile Char.isDigit <+: v := List.takeWhile_prefix _
  unfold numberRun
  dsimp only
  split
  · next after point =>
      split
      · exact digits
      · have longer : '.' :: after.takeWhile Char.isDigit <+: '.' :: after :=
          List.cons_prefix_cons.2 ⟨rfl, List.takeWhile_prefix _⟩
        have whole := List.prefix_iff_eq_append.1 digits
        rw [point] at whole
        exact ((List.prefix_append_right_inj _).2 longer).trans
          ⟨[], (List.append_nil _).trans whole⟩
  · exact digits

theorem numberRun_length_le (v : List Char) : (numberRun v).length ≤ v.length :=
  (isPrefix_numberRun v).length_le

theorem trim_snoc_newline (text : List Char) : Text.trim (text ++ ['\n']) = Text.trim text := by
  have blank : Text.isBlank '\n' = true := by decide
  have trimmed : ∀ inner, Text.trimEnd (inner ++ ['\n']) = Text.trimEnd inner := by
    intro inner
    simp [Text.trimEnd, blank]
  rw [Text.trim, Text.trim, List.dropWhile_append]
  split
  · next all => simp [List.isEmpty_iff.1 all, blank]
  · exact trimmed _

theorem double?_none (c : Char) : double? c none = none := by
  unfold double?
  split <;> simp_all

theorem double?_newline (c : Char) : double? c (some '\n') = none := by
  unfold double?
  split <;> simp_all

theorem named_followed (kind : Token.Kind) (two : 2 ≤ s.rest.length) (x : List Char) :
    (s.followed x).named kind = ((s.named kind).1, (s.named kind).2.followed x) := by
  have dropped : (s.followed x).rest.drop 2 = s.rest.drop 2 ++ '\n' :: x :=
    List.drop_append_of_le_length two
  have gap : ((s.followed x).rest.drop 2).takeWhile isSpace =
      (s.rest.drop 2).takeWhile isSpace := by
    rw [dropped]
    exact takeWhile_followed (by decide) _ x
  have name : (((s.followed x).rest.drop 2).drop
      ((s.rest.drop 2).takeWhile isSpace).length).takeWhile Text.isWord =
      ((s.rest.drop 2).drop ((s.rest.drop 2).takeWhile isSpace).length).takeWhile Text.isWord := by
    rw [dropped, drop_takeWhile_followed]
    exact takeWhile_followed (by decide) _ x
  simp only [named, gap, name]
  rw [advance_followed]
  · rfl
  · have first := (List.takeWhile_sublist (l := s.rest.drop 2) isSpace).length_le
    have second := (List.takeWhile_sublist
      (l := (s.rest.drop 2).drop ((s.rest.drop 2).takeWhile isSpace).length) Text.isWord).length_le
    simp only [List.length_drop] at first second
    omega

namespace Passing

theorem text (inside : s.atLineStart = false) :
    s.Passing s.text fun x => (s.followed x).text := by
  have stop : endsText (s.mode == some .option) '\n' = true := rfl
  obtain ⟨fits, same | ⟨silent, all, beyond⟩⟩ := textRun_followed stop (!s.speakerSeen) s.rest
  · simp only [Scanner.text, rest_followed, mode_followed, speakerSeen_followed, same]
    refine ite (fun _ => within fun x => ?_) fun _ => advance s fits
    rw [advance_followed fits]
    rfl
  · simp only [Scanner.text, rest_followed, mode_followed, speakerSeen_followed, beyond, silent]
    refine Passing.beyond (fun x tokens next stepped => ?_) ?_
    · split at stepped
      all_goals
        obtain ⟨-, rfl⟩ := Step.more.inj stepped
        refine ⟨?_, inside⟩
        simp only [rest_advance, rest_followed, List.length_drop, List.length_append,
          List.length_cons]
        omega
    · rw [if_neg (by decide), if_neg (by simp [textRun])]
      have trimmed := trim_snoc_newline
        (textRun (endsText (s.mode == some .option)) (!s.speakerSeen) s.rest).chars
      simp only [textRun, trimmed]
      refine .more _ ?_ ?_ rfl rfl
      · simp [all]
      · simp [all]

theorem quoted (inside : s.atLineStart = false) (some : s.rest ≠ []) :
    s.Passing s.quoted fun x => (s.followed x).quoted := by
  obtain ⟨c, v, split⟩ := List.exists_cons_of_ne_nil some
  simp only [Scanner.quoted, rest_followed, split, List.cons_append, List.drop_succ_cons,
    List.drop_zero, line_followed, column_followed]
  obtain ⟨quote, found, fits, same⟩ | ⟨none, last, beyond⟩ :=
    quoteRun_followed v s.line (s.column + 1)
  · simp only [found, same]
    refine within fun x => ?_
    rw [List.drop_append_of_le_length fits]
    rfl
  · simp only [none]
    refine Passing.beyond (fun x tokens next stepped => ?_) ?_
    · split at stepped
      · next quote found =>
          obtain ⟨-, rfl⟩ := Step.more.inj stepped
          have taken := beyond x quote found
          refine ⟨?_, inside⟩
          simp only [List.length_drop, List.length_append, List.length_cons]
          omega
      · cases stepped
    · simp only [last]
      exact .fail _

theorem literal (quote : Char) (inside : s.atLineStart = false) (some : s.rest ≠ []) :
    s.Passing (s.literal quote) fun x => (s.followed x).literal quote := by
  obtain ⟨c, v, split⟩ := List.exists_cons_of_ne_nil some
  simp only [Scanner.literal, rest_followed, split, List.cons_append, List.drop_succ_cons,
    List.drop_zero, line_followed, column_followed]
  obtain ⟨⟨chars, count⟩, found, fits, same⟩ | ⟨none, last, beyond⟩ := literalRun_followed quote v
  · simp only [found, same]
    refine advance s ?_
    simpa [split] using fits
  · simp only [none]
    refine Passing.beyond (fun x tokens next stepped => ?_) ?_
    · split at stepped
      · next chars count found =>
          obtain ⟨-, rfl⟩ := Step.more.inj stepped
          have taken := beyond x (chars, count) found
          refine ⟨?_, inside⟩
          simp only [rest_advance, rest_followed, split, List.length_drop, List.length_append,
            List.length_cons]
          omega
      · cases stepped
    · simp only [last]
      exact .fail _

theorem operator (c : Char) (some : s.rest ≠ []) :
    s.Passing (s.operator c) fun x => (s.followed x).operator c := by
  obtain ⟨d, v, split⟩ := List.exists_cons_of_ne_nil some
  have double : ∀ x, double? c ((s.followed x).rest.drop 1).head? =
      double? c (s.rest.drop 1).head? := by
    intro x
    simp only [rest_followed, split, List.cons_append, List.drop_succ_cons, List.drop_zero]
    cases v with
    | nil => exact (double?_newline c).trans (double?_none c).symm
    | cons e v => rfl
  simp only [Scanner.operator, double]
  split
  · next kind found =>
      refine single kind ?_
      cases v with
      | nil =>
          rw [split] at found
          cases (double?_none c).symm.trans found
      | cons e v => simp [split]
  · split
    · next kind found => exact single kind (List.length_pos_iff.2 some)
    · exact fail fun x => rfl

theorem variationsStart (some : s.rest ≠ []) :
    s.Passing s.variationsStart fun x => (s.followed x).variationsStart := by
  obtain ⟨c, v, split⟩ := List.exists_cons_of_ne_nil some
  have gap : ∀ x, ((s.followed x).rest.drop 1).takeWhile isSpace =
      (s.rest.drop 1).takeWhile isSpace := by
    intro x
    simp only [rest_followed, split, List.cons_append, List.drop_succ_cons, List.drop_zero]
    exact takeWhile_followed (by decide) v x
  have fits : ((s.rest.drop 1).takeWhile isSpace).length + 1 ≤ s.rest.length := by
    have le := (List.takeWhile_sublist (l := s.rest.drop 1) isSpace).length_le
    simp only [split, List.drop_one, List.tail_cons, List.length_cons] at le ⊢
    omega
  have inside : ∀ x, ((s.followed x).enter .variations).advance
      (((s.rest.drop 1).takeWhile isSpace).length + 1) =
      ((s.enter .variations).advance
        (((s.rest.drop 1).takeWhile isSpace).length + 1)).followed x := fun x =>
    advance_followed (s := s.enter .variations) fits x
  simp only [Scanner.variationsStart, gap, inside]
  generalize (s.enter .variations).advance
    (((s.rest.drop 1).takeWhile isSpace).length + 1) = t
  simp only [rest_followed]
  cases rest : t.rest with
  | nil =>
      have bare : Text.isAlphabetic '\n' = false := by decide
      simp only [List.nil_append, bare, Bool.false_eq_true, ↓reduceIte]
      exact within fun x => rfl
  | cons d after =>
      have written : ∀ x, (d :: (after ++ '\n' :: x)).takeWhile (fun c => c != '\n') =
          (d :: after).takeWhile fun c => c != '\n' := fun x =>
        takeWhile_followed (by decide) (d :: after) x
      simp only [List.cons_append, written]
      refine ite (fun _ => ?_) fun _ => within fun x => rfl
      split
      · refine advance t ?_
        rw [rest]
        exact (List.takeWhile_sublist _).length_le
      · exact fail fun x => rfl

/-- A token that may end a line, and the line break after it if there is one. -/
theorem line {token : Token} {next : Scanner} (ends : token.kind.endsLine)
    (levels : next.indents = s.indents) :
    s.Passing (.more (token :: next.lineBreakAhead) next)
      fun x => .more (token :: (next.followed x).lineBreakAhead) (next.followed x) := by
  obtain same | ⟨blank, none, found, kind, ahead⟩ := lineBreakAhead_followed next
  · exact within fun x => by rw [same x]
  · rw [none]
    exact ending ends kind blank levels fun x => by rw [ahead x]

theorem prose (inside : s.atLineStart = false) (cons : s.rest = c :: v) :
    s.Passing (s.prose c) fun x => (s.followed x).prose c := by
  have some : s.rest ≠ [] := cons ▸ List.cons_ne_nil c v
  have next : ∀ x d, ('\n' == d) = false →
      (((s.followed x).rest.drop 1).head? == Option.some d) =
        ((s.rest.drop 1).head? == Option.some d) := by
    intro x d other
    simp only [rest_followed, cons, List.cons_append, List.drop_succ_cons, List.drop_zero]
    exact head?_followed other v x
  have two : ∀ {p : Bool} {d : Char}, (p && (s.rest.drop 1).head? == Option.some d) = true →
      2 ≤ s.rest.length := by
    intro p d found
    cases v with
    | nil => simp [cons] at found
    | cons e v => simp [cons]
  have one : 1 ≤ s.rest.length := List.length_pos_iff.2 some
  simp only [Scanner.prose, next _ '=' rfl, next _ '>' rfl, next _ '-' rfl, mode_followed,
    column_followed]
  refine ite (fun _ => ?_) fun _ => ?_
  · exact advance (s.enter .logic) one
  refine ite (fun _ => quoted inside some) fun _ => ?_
  refine ite (fun _ => advance s one) fun _ => ?_
  refine ite (fun _ => variationsStart some) fun _ => ?_
  refine ite (fun _ => advance s.leave one) fun _ => ?_
  refine ite (fun block => ?_) fun _ => ?_
  · exact within fun x => by rw [named_followed _ (two block)]
  refine ite (fun divert => ?_) fun _ => ?_
  · simp only [named_followed _ (two divert)]
    exact line rfl rfl
  refine ite (fun divert => ?_) fun _ => ?_
  · simp only [advance_followed (two divert)]
    exact line rfl rfl
  refine ite (fun _ => single _ one) fun _ => ?_
  refine ite (fun start => single _ (two start)) fun _ => ?_
  refine ite (fun _ => advance (s.enter .option) one) fun _ => ?_
  refine ite (fun _ => advance (s.enter .option) one) fun _ => ?_
  refine ite (fun _ => advance (s.enter .option) one) fun _ => ?_
  refine ite (fun _ => single _ one) fun _ => ?_
  refine ite (fun _ => single _ one) fun _ => ?_
  refine ite (fun _ => marker _ some) fun _ => ?_
  refine ite (fun _ => marker _ some) fun _ => text inside

theorem logic (inside : s.atLineStart = false) (cons : s.rest = c :: v) :
    s.Passing (s.logic c) fun x => (s.followed x).logic c := by
  have some : s.rest ≠ [] := cons ▸ List.cons_ne_nil c v
  have one : 1 ≤ s.rest.length := List.length_pos_iff.2 some
  have word : ∀ x, (s.followed x).rest.takeWhile Text.isWord = s.rest.takeWhile Text.isWord :=
    fun x => takeWhile_followed (by decide) s.rest x
  have number : ∀ x, numberRun (s.followed x).rest = numberRun s.rest := fun x =>
    numberRun_followed s.rest x
  simp only [Scanner.logic, word, number]
  refine ite (fun _ => ?_) fun _ => ?_
  · have closed : ∀ x, (s.followed x).leave.advance 1 = (s.leave.advance 1).followed x := fun x =>
      advance_followed (s := s.leave) one x
    simp only [closed]
    exact line rfl rfl
  refine ite (fun _ => advance s one) fun _ => ?_
  refine ite (fun _ => literal c inside some) fun _ => ?_
  refine ite (fun _ => advance s (numberRun_length_le s.rest)) fun _ => ?_
  exact ite (fun _ => advance s (List.takeWhile_sublist _).length_le) fun _ => operator c some

theorem lineStart (start : s.atLineStart = true) :
    s.Passing s.lineStart fun x => (s.followed x).lineStart := by
  have space : ∀ x, (s.followed x).rest.takeWhile isSpace = s.rest.takeWhile isSpace :=
    fun x => takeWhile_followed (by decide) s.rest x
  have content : ∀ x, (s.followed x).rest.drop (s.rest.takeWhile isSpace).length =
      s.rest.drop (s.rest.takeWhile isSpace).length ++ '\n' :: x := fun x =>
    drop_takeWhile_followed s.rest x
  have fits : (s.rest.takeWhile isSpace).length ≤ s.rest.length :=
    (List.takeWhile_sublist isSpace).length_le
  have blank : ∀ u x : List Char,
      ((u ++ '\n' :: x).isEmpty || (u ++ '\n' :: x).head? == some '\n' ||
        (u ++ '\n' :: x).head? == some '\r') =
      (u.isEmpty || u.head? == some '\n' || u.head? == some '\r') := by
    intro u x
    cases u <;> rfl
  have dashes : ∀ u x : List Char, ((u ++ '\n' :: x).take 2 == ['-', '-']) =
      (u.take 2 == ['-', '-']) := by
    intro u x
    match u with
    | [] => cases x <;> rfl
    | [d] => simp
    | d :: e :: u => rfl
  simp only [Scanner.lineStart, space, content, blank, dashes]
  refine ite (fun _ => ?_) fun _ => ?_
  · exact advance { s with atLineStart := false } fits
  refine ite (fun _ => ?_) fun _ => ?_
  · generalize s.rest.drop (s.rest.takeWhile isSpace).length = u
    cases left : u.dropWhile fun c => c != '\n' with
    | nil =>
        have next : ∀ x, (u ++ '\n' :: x).dropWhile (fun c => c != '\n') = '\n' :: x := by
          intro x
          simp [List.dropWhile_append, left]
        simp only [next, List.drop_succ_cons, List.drop_zero]
        exact below { s with line := s.line + 1, column := 0 } start rfl fun x => rfl
    | cons d after =>
        have next : ∀ x, (u ++ '\n' :: x).dropWhile (fun c => c != '\n') =
            d :: after ++ '\n' :: x := by
          intro x
          simp [List.dropWhile_append, left]
        simp only [next, List.cons_append, List.drop_succ_cons, List.drop_zero]
        exact within fun x => rfl
  refine ite (fun _ => ?_) fun _ => ?_
  · exact advance { s with atLineStart := false, indents := _ :: s.indents } fits
  refine ite (fun _ => ?_) fun _ => fail fun x => rfl
  exact advance { s with atLineStart := false, indents := _ } fits

theorem lineBreak (cons : s.rest = c :: v) :
    s.Passing (.more [] s.lineBreak) fun x => .more [] (s.followed x).lineBreak := by
  refine within fun x => ?_
  simp only [Scanner.lineBreak, mode_followed, rest_followed, cons, List.cons_append,
    List.drop_succ_cons, List.drop_zero]
  split <;> rfl

end Passing

/-- What a step does at the start of a line, or with something left of it. -/
theorem passing_step (here : s.atLineStart = true ∨ s.rest ≠ []) :
    s.Passing s.step fun x => (s.followed x).step := by
  cases start : s.atLineStart with
  | true =>
      have also : ∀ x, (s.followed x).atLineStart = true := fun x => start
      simp only [step, start, also, ↓reduceIte]
      exact .lineStart start
  | false =>
      obtain ⟨c, v, cons⟩ := List.exists_cons_of_ne_nil (here.resolve_left (by simp [start]))
      have also : ∀ x, (s.followed x).atLineStart = false := fun x => start
      simp only [step, start, also, Bool.false_eq_true, ↓reduceIte, rest_followed, cons,
        List.cons_append, mode_followed]
      refine .ite (fun _ => .lineBreak cons) fun _ => ?_
      exact .ite (fun _ => .logic start cons) fun _ => .prose start cons

theorem ofSource_newline_append (text x : String) :
    ofSource (text ++ "\n" ++ x) = (ofSource text).followed x.toList := by
  have plain : ('\n' == Char.ofNat 0xFEFF) = false := by decide
  simp only [ofSource, followed, before, String.toList_append, List.append_assoc,
    List.dropWhile_append]
  split
  · next all => simp [List.isEmpty_iff.1 all, plain]
  · rfl

end Scanner
end Dialogue
