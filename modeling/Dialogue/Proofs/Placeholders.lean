import Mathlib.Data.List.TakeWhile
import Dialogue.Template

/-! Placeholders in texts. A text is made of placeholders and of literal pieces in which none
starts, in one way only up to joining the literal pieces; filling it in shows each piece by itself.
The same comes out of reading the text with parser combinators that do what their documentation
says. -/
namespace Dialogue

namespace Template

/-! What a text is made of. -/

/-- Whether characters are the name of a placeholder. -/
def IsName (name : List Char) : Prop := name ≠ [] ∧ ∀ c ∈ name, Text.isWord c = true

/-- Whether a text starts with a placeholder. -/
def Opens (text : List Char) : Prop :=
  ∃ name rest, text = '%' :: (name ++ '%' :: rest) ∧ IsName name

/-- How a segment is written. -/
def Segment.source : Segment → List Char
  | literal text => text
  | placeholder name => '%' :: (name ++ ['%'])

/-- Whether a text is made of some segments: written one after the other they are the text, and no
placeholder starts at a percent sign inside a literal piece. -/
structure Decomposes (text : List Char) (pieces : List Segment) : Prop where
  covers : pieces.flatMap Segment.source = text
  named : ∀ name, .placeholder name ∈ pieces → IsName name
  stray : ∀ before front back after, pieces = before ++ .literal (front ++ '%' :: back) :: after →
    ¬ Opens ('%' :: (back ++ after.flatMap Segment.source))

/-- Puts a character in front, into the literal piece that stands there. -/
def prepend (c : Char) : List Segment → List Segment
  | .literal text :: rest => .literal (c :: text) :: rest
  | rest => .literal [c] :: rest

/-- Joins the literal pieces that stand next to each other. -/
def merged : List Segment → List Segment
  | [] => []
  | .placeholder name :: rest => .placeholder name :: merged rest
  | .literal text :: rest => text.foldr prepend (merged rest)

variable {text rest name piece : List Char} {pieces : List Segment}

/-! Where a placeholder starts. -/

theorem takeWhile_name (isName : IsName name) (after : List Char) :
    (name ++ '%' :: after).takeWhile Text.isWord = name := by
  have stops : Text.isWord '%' = false := by decide +kernel
  rw [List.takeWhile_append_of_pos isName.2, List.takeWhile_cons_of_neg (by simp [stops]),
    List.append_nil]

theorem name?_eq_some_iff :
    name? rest = some name ↔ IsName name ∧ ∃ after, rest = name ++ '%' :: after := by
  constructor
  · intro found
    simp only [name?, Option.ite_none_right_eq_some, Bool.and_eq_true, Bool.not_eq_true',
      List.isEmpty_eq_false_iff, beq_iff_eq, Option.some.injEq] at found
    obtain ⟨⟨some, sign⟩, rfl⟩ := found
    obtain ⟨after, split⟩ := List.head?_eq_some_iff.1 sign
    refine ⟨⟨some, fun c member => List.mem_takeWhile_imp member⟩, after, ?_⟩
    rw [← split]
    exact (List.prefix_iff_eq_append.1 (List.takeWhile_prefix _)).symm
  · rintro ⟨isName, after, rfl⟩
    simp [name?, takeWhile_name isName after, isName.1]

theorem opens_iff : Opens ('%' :: rest) ↔ ∃ name, name? rest = some name := by
  constructor
  · rintro ⟨name, after, same, isName⟩
    exact ⟨name, name?_eq_some_iff.2 ⟨isName, after, (List.cons.inj same).2⟩⟩
  · rintro ⟨name, found⟩
    obtain ⟨isName, after, rfl⟩ := name?_eq_some_iff.1 found
    exact ⟨name, after, rfl, isName⟩

theorem not_opens_of_ne {c : Char} (other : c ≠ '%') : ¬ Opens (c :: rest) := by
  rintro ⟨name, after, same, -⟩
  exact other (List.cons.inj same).1

/-! The pieces of a text, one at a time. -/

namespace Decomposes

theorem nil : Decomposes [] [] where
  covers := rfl
  named := fun _ member => nomatch member
  stray := fun before _ _ _ split => by cases before <;> cases split

theorem placeholder (isName : IsName name) (others : Decomposes text pieces) :
    Decomposes ('%' :: (name ++ '%' :: text)) (.placeholder name :: pieces) where
  covers := by simp [Segment.source, others.covers]
  named := by
    intro found member
    rcases List.mem_cons.1 member with same | member
    · exact Segment.placeholder.inj same ▸ isName
    · exact others.named found member
  stray := by
    intro before front back after split
    cases before with
    | nil => cases split
    | cons first before => exact others.stray before front back after (List.cons.inj split).2

theorem literal (others : Decomposes text pieces)
    (closed : ∀ front back, piece = front ++ '%' :: back → ¬ Opens ('%' :: (back ++ text))) :
    Decomposes (piece ++ text) (.literal piece :: pieces) where
  covers := by rw [List.flatMap_cons, others.covers, Segment.source]
  named := by
    intro found member
    rcases List.mem_cons.1 member with same | member
    · cases same
    · exact others.named found member
  stray := by
    intro before front back after split
    cases before with
    | nil =>
        obtain ⟨same, rfl⟩ := List.cons.inj split
        rw [others.covers]
        exact closed front back (Segment.literal.inj same)
    | cons first before => exact others.stray before front back after (List.cons.inj split).2

theorem tail {first : Segment} (whole : Decomposes text (first :: pieces)) :
    Decomposes (pieces.flatMap Segment.source) pieces where
  covers := rfl
  named := fun name member => whole.named name (List.mem_cons_of_mem first member)
  stray := by
    rintro before front back after rfl
    exact whole.stray (first :: before) front back after rfl

end Decomposes

theorem drop_name (name after : List Char) :
    (name ++ '%' :: after).drop (name.length + 1) = after := by
  simp

/-- A text is made of its segments. -/
theorem decomposes_segments (text : List Char) : Decomposes text (segments text) := by
  fun_induction segments text with
  | case1 => exact .nil
  | case2 c rest sign name found ih =>
      obtain rfl := eq_of_beq sign
      obtain ⟨isName, after, rfl⟩ := name?_eq_some_iff.1 found
      rw [drop_name] at ih ⊢
      exact ih.placeholder isName
  | case3 c rest sign none ih =>
      obtain rfl := eq_of_beq sign
      have closed : ∀ front back, ['%'] = front ++ '%' :: back →
          ¬ Opens ('%' :: (back ++ rest)) := by
        intro front back split
        obtain ⟨rfl, rfl⟩ : front = [] ∧ back = [] := by
          cases front <;> simp_all
        simp [opens_iff, none]
      exact ih.literal closed
  | case4 c rest other run ih =>
      have split : c :: rest = (c :: run) ++ rest.drop run.length := by
        rw [List.cons_append, List.prefix_iff_eq_append.1 (List.takeWhile_prefix _)]
      have plain : ∀ d ∈ c :: run, d ≠ '%' := by
        refine List.forall_mem_cons.2 ⟨by simpa using other, fun d member => ?_⟩
        simpa using List.mem_takeWhile_imp member
      rw [split]
      refine ih.literal fun front back same => ?_
      exact absurd rfl (plain '%' (same ▸ List.mem_append_right front List.mem_cons_self))

/-! Any other way to take a text apart differs in how its literal pieces are joined. -/

theorem segments_placeholder (isName : IsName name) (after : List Char) :
    segments ('%' :: (name ++ '%' :: after)) = .placeholder name :: segments after := by
  have found := name?_eq_some_iff.2 ⟨isName, after, rfl⟩
  rw [segments, if_pos (beq_self_eq_true '%'), found]
  simp only [drop_name]

theorem segments_stray (closed : name? rest = none) :
    segments ('%' :: rest) = .literal ['%'] :: segments rest := by
  rw [segments, if_pos (beq_self_eq_true '%'), closed]

theorem segments_run {c : Char} (other : c ≠ '%') (rest : List Char) :
    segments (c :: rest) = .literal (c :: rest.takeWhile fun d => d != '%') ::
      segments (rest.drop (rest.takeWhile fun d => d != '%').length) := by
  rw [segments, if_neg (by simpa using other)]

/-- A character at which no placeholder starts is put in front of what comes after. -/
theorem merged_segments_cons {c : Char} (closed : ¬ Opens (c :: rest)) :
    merged (segments (c :: rest)) = prepend c (merged (segments rest)) := by
  by_cases sign : c = '%'
  · subst sign
    have none : name? rest = none := by
      simpa [opens_iff, ← Option.isSome_iff_exists] using closed
    rw [segments_stray none]
    rfl
  · have run : merged (segments rest) = (rest.takeWhile fun d => d != '%').foldr prepend
        (merged (segments (rest.drop (rest.takeWhile fun d => d != '%').length))) := by
      cases rest with
      | nil => rfl
      | cons d rest =>
          by_cases stops : d = '%'
          · rw [List.takeWhile_cons_of_neg (by simpa using stops)]
            rfl
          · rw [segments_run stops, List.takeWhile_cons_of_pos (by simpa using stops)]
            rfl
    rw [segments_run sign, run]
    rfl

theorem merged_segments_append
    (closed : ∀ front back, piece = front ++ '%' :: back → ¬ Opens ('%' :: (back ++ text))) :
    merged (segments (piece ++ text)) = piece.foldr prepend (merged (segments text)) := by
  induction piece with
  | nil => rfl
  | cons c rest ih =>
      have first : ¬ Opens (c :: (rest ++ text)) := by
        by_cases sign : c = '%'
        · exact sign ▸ closed [] rest (by rw [sign, List.nil_append])
        · exact not_opens_of_ne sign
      have others := ih fun front back split =>
        closed (c :: front) back (by rw [split, List.cons_append])
      rw [List.cons_append, merged_segments_cons first, others, List.foldr_cons]

theorem merged_of_decomposes (whole : Decomposes text pieces) :
    merged pieces = merged (segments text) := by
  induction pieces generalizing text with
  | nil =>
      obtain rfl : [] = text := whole.covers
      rw [segments]
  | cons first others ih =>
      have rest := ih whole.tail
      have covers := whole.covers
      rw [List.flatMap_cons] at covers
      cases first with
      | placeholder name =>
          have isName := whole.named name List.mem_cons_self
          rw [← covers, Segment.source, List.cons_append, List.append_assoc, List.singleton_append,
            segments_placeholder isName, merged, merged, rest]
      | literal piece =>
          have closed := fun front back (split : piece = front ++ '%' :: back) =>
            whole.stray [] front back others (by rw [split, List.nil_append])
          rw [← covers, Segment.source, merged_segments_append closed, merged, rest]

theorem flatMap_shown_prepend (lookup : String → Value) (c : Char) (pieces : List Segment) :
    (prepend c pieces).flatMap (·.shown lookup) = c :: pieces.flatMap (·.shown lookup) := by
  fun_cases prepend c pieces with
  | case1 text rest => rfl
  | case2 rest other => rfl

theorem flatMap_shown_merged (lookup : String → Value) (pieces : List Segment) :
    (merged pieces).flatMap (·.shown lookup) = pieces.flatMap (·.shown lookup) := by
  fun_induction merged pieces with
  | case1 => rfl
  | case2 name rest ih => rw [List.flatMap_cons, List.flatMap_cons, ih]
  | case3 text rest ih =>
      rw [List.flatMap_cons, ← ih, Segment.shown]
      induction text with
      | nil => rfl
      | cons c text inner =>
          rw [List.foldr_cons, flatMap_shown_prepend, inner, List.cons_append]

/-- Filling in shows the pieces of any way to take the text apart. -/
theorem fill_of_decomposes (lookup : String → Value) {text : String}
    (whole : Decomposes text.toList pieces) :
    fill lookup text = String.ofList (pieces.flatMap (·.shown lookup)) := by
  rw [fill, ← flatMap_shown_merged lookup pieces, merged_of_decomposes whole,
    flatMap_shown_merged]

theorem fill_of_not_mem (lookup : String → Value) {text : String} (plain : '%' ∉ text.toList) :
    fill lookup text = text := by
  have whole : Decomposes (text.toList ++ []) [.literal text.toList] := by
    refine .literal .nil fun front back split => ?_
    exact absurd (split ▸ List.mem_append_right front List.mem_cons_self) plain
  rw [List.append_nil] at whole
  rw [fill_of_decomposes lookup whole]
  simp [Segment.shown]

/-! Reading a text with combinators. -/

/-- Takes something from the front of a text and gives it with what is left, or fails. -/
abbrev Reader (α : Type) := List Char → Option (α × List Char)

def Reader.map {α β : Type} (f : α → β) (p : Reader α) : Reader β := fun text =>
  (p text).map fun (a, rest) => (f a, rest)

/-- Reads the longest run of characters with a property, which may not be empty. -/
def Reader.run (p : Char → Bool) : Reader (List Char) := fun text =>
  let found := text.takeWhile p
  if found.isEmpty then none else some (found, text.drop found.length)

/-- The combinators that texts are taken apart with. -/
structure Combinators where
  single : Char → Reader (List Char)
  takeWhile : (Char → Bool) → Reader (List Char)
  takeTill : (Char → Bool) → Reader (List Char)
  delimited {α β γ : Type} : Reader α → Reader β → Reader γ → Reader β
  alt {α : Type} : Reader α → Reader α → Reader α
  many {α : Type} : Reader α → Reader (List α)

/-- What the combinators are documented to do. A repetition ends where its reader fails, and goes on
where its reader takes something. -/
structure Combinators.Documented (w : Combinators) : Prop where
  single_same : ∀ c rest, w.single c (c :: rest) = some ([c], rest)
  single_other : ∀ c text, text.head? ≠ some c → w.single c text = none
  takeWhile : ∀ p, w.takeWhile p = Reader.run p
  takeTill : ∀ p, w.takeTill p = Reader.run fun c => !p c
  delimited : ∀ {α β γ : Type} (first : Reader α) (second : Reader β) (third : Reader γ) text,
    w.delimited first second third text = do
      let (_, inside) ← first text
      let (b, behind) ← second inside
      let (_, rest) ← third behind
      return (b, rest)
  alt : ∀ {α : Type} (first second : Reader α) text,
    w.alt first second text = (first text).or (second text)
  many_stops : ∀ {α : Type} (p : Reader α) text, p text = none → w.many p text = some ([], text)
  many_goes_on : ∀ {α : Type} (p : Reader α) text a rest, p text = some (a, rest) →
    rest.length < text.length → w.many p text = Reader.map (a :: ·) (w.many p) rest

namespace Combinators

def placeholder (w : Combinators) : Reader Segment :=
  .map .placeholder (w.delimited (w.single '%') (w.takeWhile Text.isWord) (w.single '%'))

def literal (w : Combinators) : Reader Segment :=
  .map .literal (w.alt (w.takeTill (· == '%')) (w.single '%'))

def segments (w : Combinators) : Reader (List Segment) := w.many (w.alt w.placeholder w.literal)

/-- Fills in the placeholders of a text, if there are any and the whole text can be read. -/
def interpolate (w : Combinators) (lookup : String → Value) (text : String) : String :=
  if !text.toList.contains '%' then text
  else
    match w.segments text.toList with
    | none => text
    | some (pieces, rest) => .ofList (pieces.flatMap (·.shown lookup) ++ rest)

variable {w : Combinators}

theorem run_of_isName (isName : IsName name) (after : List Char) :
    Reader.run Text.isWord (name ++ '%' :: after) = some (name, '%' :: after) := by
  simp [Reader.run, takeWhile_name isName after, isName.1]

theorem of_run {p : Char → Bool} {found : List Char}
    (ran : Reader.run p text = some (found, rest)) :
    text = found ++ rest ∧ found ≠ [] ∧ ∀ c ∈ found, p c = true := by
  simp only [Reader.run, Option.ite_none_left_eq_some, List.isEmpty_iff, Option.some.injEq,
    Prod.mk.injEq] at ran
  obtain ⟨some, rfl, rfl⟩ := ran
  refine ⟨?_, some, fun c member => List.mem_takeWhile_imp member⟩
  exact (List.prefix_iff_eq_append.1 (List.takeWhile_prefix p)).symm

namespace Documented

variable (documented : w.Documented)
include documented

theorem placeholder_percent (rest : List Char) :
    w.placeholder ('%' :: rest) =
      (name? rest).map fun name => (.placeholder name, rest.drop (name.length + 1)) := by
  have same : w.placeholder ('%' :: rest) =
      (Reader.run Text.isWord rest).bind fun found =>
        (w.single '%' found.2).map fun closing => (.placeholder found.1, closing.2) := by
    rw [placeholder, Reader.map, documented.delimited, documented.single_same,
      documented.takeWhile]
    simp only [Option.bind_eq_bind, Option.bind_some]
    cases Reader.run Text.isWord rest with
    | none => rfl
    | some found =>
        simp only [Option.bind_some]
        cases w.single '%' found.2 with
        | none => rfl
        | some closing => rfl
  rw [same]
  cases found : name? rest with
  | some name =>
      obtain ⟨isName, after, rfl⟩ := name?_eq_some_iff.1 found
      simp [run_of_isName isName, documented.single_same]
  | none =>
      cases ran : Reader.run Text.isWord rest with
      | none => rfl
      | some pair =>
          obtain ⟨name, behind⟩ := pair
          obtain ⟨rfl, isName⟩ := of_run ran
          have sign : behind.head? ≠ some '%' := by
            intro sign
            obtain ⟨after, rfl⟩ := List.head?_eq_some_iff.1 sign
            cases found.symm.trans (name?_eq_some_iff.2 ⟨isName, after, rfl⟩)
          simp [documented.single_other '%' behind sign]

theorem placeholder_other (sign : text.head? ≠ some '%') : w.placeholder text = none := by
  simp [placeholder, Reader.map, documented.delimited, documented.single_other '%' text sign]

theorem literal_percent (rest : List Char) :
    w.literal ('%' :: rest) = some (.literal ['%'], rest) := by
  simp [literal, Reader.map, Reader.run, documented.alt, documented.takeTill,
    documented.single_same]

theorem literal_other {c : Char} (other : c ≠ '%') (rest : List Char) :
    w.literal (c :: rest) = some (.literal (c :: rest.takeWhile fun d => d != '%'),
      rest.drop (rest.takeWhile fun d => d != '%').length) := by
  simp [literal, Reader.map, Reader.run, documented.alt, documented.takeTill, other, bne]

theorem literal_nil : w.literal [] = none := by
  have none : w.single '%' [] = none := documented.single_other '%' [] (by simp)
  simp [literal, Reader.map, Reader.run, documented.alt, documented.takeTill, none]

/-- One more piece in front of what is read behind it. -/
theorem segments_cons {piece : Segment}
    (read : (w.placeholder text).or (w.literal text) = some (piece, rest))
    (shorter : rest.length < text.length) (others : w.segments rest = some (pieces, [])) :
    w.segments text = some (piece :: pieces, []) := by
  have alt : w.alt w.placeholder w.literal text = some (piece, rest) :=
    (documented.alt _ _ text).trans read
  rw [segments, documented.many_goes_on _ _ _ _ alt shorter, Reader.map]
  rw [segments] at others
  rw [others]
  rfl

/-- Reading never stops early: it takes the whole text apart, into its segments. -/
theorem segments_eq (text : List Char) :
    w.segments text = some (Template.segments text, []) := by
  fun_induction Template.segments text with
  | case1 =>
      refine documented.many_stops _ _ ?_
      rw [documented.alt, documented.placeholder_other (by simp), documented.literal_nil]
      rfl
  | case2 c rest sign name found ih =>
      obtain rfl := eq_of_beq sign
      refine documented.segments_cons ?_ ?_ ih
      · rw [documented.placeholder_percent, found]
        rfl
      · simp only [List.length_drop, List.length_cons]
        omega
  | case3 c rest sign found ih =>
      obtain rfl := eq_of_beq sign
      refine documented.segments_cons ?_ (by simp) ih
      rw [documented.placeholder_percent, found, documented.literal_percent]
      rfl
  | case4 c rest other run ih =>
      have sign : c ≠ '%' := by simpa using other
      refine documented.segments_cons ?_ ?_ ih
      · rw [documented.placeholder_other (by simpa using sign), documented.literal_other sign]
        rfl
      · simp only [List.length_drop, List.length_cons]
        omega

end Documented

theorem Documented.interpolate_eq {w : Combinators} (documented : w.Documented)
    (lookup : String → Value) (text : String) : w.interpolate lookup text = fill lookup text := by
  rw [interpolate]
  split
  · next none => exact (fill_of_not_mem lookup (by simpa using none)).symm
  · rw [documented.segments_eq text.toList]
    simp only [List.append_nil, fill]

/-- Interpolation shows the pieces of a text one after the other: with combinators as documented the
whole text is read, its pieces are the one way to take it apart, up to joining literal pieces, and
each is shown once, by itself. A text without percent signs is shown as it is. -/
theorem interpolate_decomposes {w : Combinators} (documented : w.Documented)
    (lookup : String → Value) (text : String) :
    (∃ pieces, w.segments text.toList = some (pieces, []) ∧ Decomposes text.toList pieces ∧
      ∀ others, Decomposes text.toList others → merged others = merged pieces) ∧
    (∀ pieces, Decomposes text.toList pieces →
      w.interpolate lookup text = .ofList (pieces.flatMap (·.shown lookup))) ∧
    fill lookup text = w.interpolate lookup text ∧
    ('%' ∉ text.toList → w.interpolate lookup text = text) := by
  have filled := documented.interpolate_eq lookup text
  refine ⟨⟨_, documented.segments_eq text.toList, decomposes_segments text.toList, ?_⟩,
    fun pieces whole => filled.trans (fill_of_decomposes lookup whole), filled.symm,
    fun plain => filled.trans (fill_of_not_mem lookup plain)⟩
  exact fun others whole => merged_of_decomposes whole

end Combinators

/-- Repeats a reader until it fails. One that takes nothing would go on for ever and is refused. -/
def Reader.many {α : Type} (p : Reader α) (text : List Char) : Option (List α × List Char) :=
  match p text with
  | none => some ([], text)
  | some (a, rest) =>
      if _shorter : rest.length < text.length then (many p rest).map fun (others, left) =>
        (a :: others, left)
      else none
termination_by text.length

/-- Combinators that do what is documented, and no more. -/
def Combinators.plain : Combinators where
  single c := fun text =>
    match text with
    | [] => none
    | d :: rest => if d == c then some ([c], rest) else none
  takeWhile := Reader.run
  takeTill p := Reader.run fun c => !p c
  delimited first second third := fun text => do
    let (_, inside) ← first text
    let (b, behind) ← second inside
    let (_, rest) ← third behind
    return (b, rest)
  alt first second := fun text => (first text).or (second text)
  many := Reader.many

theorem Combinators.documented_plain : plain.Documented where
  single_same c rest := by simp [plain]
  single_other c text other := by
    cases text with
    | nil => rfl
    | cons d rest => simpa [plain] using other
  takeWhile _ := rfl
  takeTill _ := rfl
  delimited _ _ _ _ := rfl
  alt _ _ _ := rfl
  many_stops p text failed := by
    change p.many text = _
    rw [Reader.many, failed]
  many_goes_on p text a rest read shorter := by
    change p.many text = Reader.map _ p.many rest
    rw [Reader.many, read, Reader.map]
    simp only [shorter, ↓reduceDIte]

/-- A placeholder behind a stray percent sign. -/
def percentages : String := "%%hp%"

theorem decomposes_percentages :
    Decomposes percentages.toList [.literal ['%'], .placeholder ['h', 'p']] := by
  have word : ['h', 'p'].all Text.isWord = true := by decide
  have named : IsName ['h', 'p'] := ⟨by simp, List.all_eq_true.1 word⟩
  have closed : ∀ front back, ['%'] = front ++ '%' :: back →
      ¬ Opens ('%' :: (back ++ ['%', 'h', 'p', '%'])) := by
    intro front back split
    obtain ⟨rfl, rfl⟩ : front = [] ∧ back = [] := by
      cases front <;> simp_all
    have none : name? ['%', 'h', 'p', '%'] = none := by decide +kernel
    simp [opens_iff, none]
  exact (Decomposes.nil.placeholder named).literal closed

theorem Combinators.interpolate_decomposes_percentages :
    plain.Documented ∧
      plain.interpolate (fun name => if name == "hp" then .string "42" else .null) percentages =
        "%42" := by
  refine ⟨documented_plain, ?_⟩
  rw [(interpolate_decomposes documented_plain _ percentages).2.1 _ decomposes_percentages]
  decide +kernel

end Template
end Dialogue
