import Dialogue.Proofs.Numerals
import Mathlib.Data.List.DropRight

/-! JSON text reads back. The text without spaces and the indented one are two ways to space out one
spelling of a tree; it is taken apart as it was put together, and stands for the tree again as long
as every number in it does. -/
namespace Dialogue.Json

/-- The three ways to write a character inside quotes. -/
theorem escape_cases (c : Char) :
    (∃ d, escape c = ['\\', d] ∧ d ≠ 'u' ∧ Written.escaped? d = some c) ∨
    (∃ x y, escape c = ['\\', 'u', '0', '0', x, y] ∧ Written.unit? '0' '0' x y = some c.toNat ∧
      c.toNat < 0x20) ∨
    (escape c = [c] ∧ c ≠ '"' ∧ c ≠ '\\' ∧ 0x20 ≤ c.toNat) := by
  have units : ∀ n < 0x20,
      Written.unit? '0' '0' (hexDigit (n / 16)) (hexDigit (n % 16)) = some n := by
    decide
  have marks : ∀ d e : Char, c = e → escape e = ['\\', d] ∧ d ≠ 'u' ∧ Written.escaped? d = some e →
      ∃ d, escape c = ['\\', d] ∧ d ≠ 'u' ∧ Written.escaped? d = some c := by
    rintro d e rfl found
    exact ⟨d, found⟩
  by_cases mark : c ∈ ['"', '\\', Char.ofNat 0x08, '\t', '\n', Char.ofNat 0x0C, '\r']
  · left
    simp only [List.mem_cons, List.not_mem_nil, or_false] at mark
    obtain same | same | same | same | same | same | same := mark
    · exact marks '"' _ same (by decide)
    · exact marks '\\' _ same (by decide)
    · exact marks 'b' _ same (by decide)
    · exact marks 't' _ same (by decide)
    · exact marks 'n' _ same (by decide)
    · exact marks 'f' _ same (by decide)
    · exact marks 'r' _ same (by decide)
  · right
    simp only [List.mem_cons, List.not_mem_nil, or_false, not_or] at mark
    by_cases control : c.toNat < 0x20
    · exact .inl ⟨_, _, by simp [escape, mark, control], units _ control, control⟩
    · exact .inr ⟨by simp [escape, mark, control], mark.1, mark.2.1, by omega⟩

/-- The piece of a string that a character is written as. -/
def Piece.of (c : Char) : Piece :=
  match escape c with
  | [_] => char c
  | [_, _] => escaped c
  | _ => unit c.toNat

theorem pieces?_escape (c : Char) (rest : List Char) :
    Written.pieces? (escape c ++ rest) =
      (Written.pieces? rest).map fun (pieces, rest) => (Piece.of c :: pieces, rest) := by
  unfold Piece.of
  obtain ⟨d, text, other, stands⟩ | ⟨x, y, text, stands, -⟩ | ⟨text, quote, slash, high⟩ :=
    escape_cases c
  · have step := Written.pieces?.eq_4 d rest fun _ _ _ _ _ same _ => other same
    simp only [text, List.cons_append, List.nil_append, step, stands]
    cases Written.pieces? rest <;> rfl
  · simp only [text, List.cons_append, List.nil_append, Written.pieces?, stands]
    cases Written.pieces? rest <;> rfl
  · have step := Written.pieces?.eq_5 c rest quote (fun _ _ _ _ _ same _ => slash same)
      fun _ _ same _ => slash same
    simp only [text, List.cons_append, List.nil_append, step, if_neg (Nat.not_lt.2 high)]
    cases Written.pieces? rest <;> rfl

theorem Piece.of_cases (c : Char) :
    Piece.of c = char c ∨ Piece.of c = escaped c ∨
      (Piece.of c = unit c.toNat ∧ c.toNat < 0x20) := by
  unfold Piece.of
  obtain ⟨d, text, -⟩ | ⟨x, y, text, -, low⟩ | ⟨text, -⟩ := escape_cases c
  · simp only [text, or_true, true_or]
  · simp only [text, low, and_self, or_true]
  · simp only [text, true_or]

theorem pieces?_quoted (text rest : List Char) :
    Written.pieces? (text.flatMap escape ++ '"' :: rest) = some (text.map Piece.of, rest) := by
  induction text with
  | nil => simp [Written.pieces?]
  | cons c text ih =>
      rw [List.flatMap_cons, List.append_assoc, pieces?_escape, ih]
      rfl

theorem chars?_of (text : List Char) : Piece.chars? (text.map Piece.of) = some text := by
  induction text with
  | nil => rfl
  | cons c text ih =>
      rw [List.map_cons]
      obtain char | escaped | ⟨unit, control⟩ := Piece.of_cases c
      · simp [char, Piece.chars?, ih]
      · simp [escaped, Piece.chars?, ih]
      · have high : isHigh c.toNat = false := by simp [isHigh]; omega
        have low : isLow c.toNat = false := by simp [isLow]; omega
        rw [unit, Piece.chars?.eq_def]
        simp [high, low, ih]

theorem toList_quote (s : String) : (quote s).toList = '"' :: s.toList.flatMap escape ++ ['"'] := by
  simp [quote]

/-- How a text is spaced out: what stands in front of each item, by its level, and after a colon. -/
structure Spacing where
  line : Nat → List Char
  gap : List Char
  blank_line : ∀ level, ∀ c ∈ line level, Written.isBlank c
  blank_gap : ∀ c ∈ gap, Written.isBlank c

namespace Spacing

def tight : Spacing := ⟨fun _ => [], [], nofun, nofun⟩

def airy : Spacing where
  line level := '\n' :: List.replicate (2 * level) ' '
  gap := [' ']
  blank_line level c member := by
    obtain rfl | member := List.mem_cons.1 member
    · rfl
    · rw [List.eq_of_mem_replicate member]
      rfl
  blank_gap := by simp [Written.isBlank]

variable (spacing : Spacing)

mutual

/-- The spelling of a tree inside some levels. -/
def spell (level : Nat) : Json → List Char
  | arr items => '[' :: spellItems (level + 1) [] items ++
      (if items.isEmpty then [] else spacing.line level) ++ [']']
  | obj entries => '\x7b' :: spellEntries (level + 1) [] entries ++
      (if entries.isEmpty then [] else spacing.line level) ++ ['\x7d']
  | j => j.compact.toList

/-- The spelling of items, with a mark in front of the first. -/
def spellItems (level : Nat) (mark : List Char) : List Json → List Char
  | [] => []
  | j :: rest => mark ++ spacing.line level ++ spell level j ++ spellItems level [','] rest

def spellEntries (level : Nat) (mark : List Char) : List (String × Json) → List Char
  | [] => []
  | (k, j) :: rest => mark ++ spacing.line level ++ (quote k).toList ++ ':' :: spacing.gap ++
      spell level j ++ spellEntries level [','] rest

end

end Spacing

/-- The numeral that a number is written as. -/
def Number.numeral (n : Number) : Numeral :=
  match Numeral.scan? n.render.toList with
  | some (numeral, _) => numeral
  | none => ⟨false, [], [], none⟩

theorem Number.ReadsBack.scan? {n : Number} (reads : n.ReadsBack) :
    Numeral.scan? n.render.toList = some (n.numeral, []) ∧ n.numeral.value? = some n := by
  obtain ⟨numeral, scanned, value⟩ := readsBack_iff.1 reads
  have same : n.numeral = numeral := by rw [Number.numeral, scanned]
  exact same ▸ ⟨scanned, value⟩

mutual

/-- The numbers in a tree. -/
def numbers : Json → List Number
  | num n => [n]
  | arr items => numbersItems items
  | obj entries => numbersEntries entries
  | _ => []

def numbersItems : List Json → List Number
  | [] => []
  | j :: rest => j.numbers ++ numbersItems rest

def numbersEntries : List (String × Json) → List Number
  | [] => []
  | (_, j) :: rest => j.numbers ++ numbersEntries rest

end

theorem numbersItems_eq_flatMap (items : List Json) :
    numbersItems items = items.flatMap numbers := by
  induction items with
  | nil => rfl
  | cons j rest ih => rw [numbersItems, ih, List.flatMap_cons]

theorem numbersEntries_eq_flatMap (entries : List (String × Json)) :
    numbersEntries entries = entries.flatMap fun entry => entry.2.numbers := by
  induction entries with
  | nil => rfl
  | cons entry rest ih => rw [numbersEntries, ih, List.flatMap_cons]

mutual

/-- A tree as it is written. -/
def written : Json → Written
  | null => .null
  | bool b => .bool b
  | num n => .num n.numeral
  | str s => .str (s.toList.map Piece.of)
  | arr items => .arr (writtenItems items)
  | obj entries => .obj (writtenEntries entries)

def writtenItems : List Json → List Written
  | [] => []
  | j :: rest => j.written :: writtenItems rest

def writtenEntries : List (String × Json) → List (List Piece × Written)
  | [] => []
  | (k, j) :: rest => (k.toList.map Piece.of, j.written) :: writtenEntries rest

end

namespace Written

variable {fuel : Nat} {text left more rest blanks : List Char} {w : Written}

theorem skip_append (blank : ∀ c ∈ blanks, isBlank c) (text : List Char) :
    skip (blanks ++ text) = skip text :=
  List.dropWhile_append_of_pos blank

theorem value?_skip (fuel : Nat) (text : List Char) :
    value? fuel (skip text) = value? fuel text := by
  cases fuel with
  | zero => rfl
  | succ fuel =>
      have twice : skip (skip text) = skip text := List.dropWhile_idempotent _ _
      rw [value?, value?, twice]

theorem value?_append (blank : ∀ c ∈ blanks, isBlank c) (fuel : Nat) (text : List Char) :
    value? fuel (blanks ++ text) = value? fuel text := by
  rw [← value?_skip, skip_append blank, value?_skip]

theorem items?_skip (fuel : Nat) (text : List Char) :
    items? fuel (skip text) = items? fuel text := by
  cases fuel with
  | zero => rfl
  | succ fuel => rw [items?, items?, value?_skip]

theorem items?_last (first : value? fuel text = some (w, left)) (close : skip left = ']' :: rest) :
    items? (fuel + 1) text = some ([w], rest) := by
  simp only [items?, first, close, bind, Option.bind_some, pure]

theorem items?_cons {items : List Written} (first : value? fuel text = some (w, left))
    (comma : skip left = ',' :: more) (others : items? fuel more = some (items, rest)) :
    items? (fuel + 1) text = some (w :: items, rest) := by
  simp only [items?, first, comma, others, bind, Option.bind_some, pure]

theorem entries?_skip (fuel : Nat) (text : List Char) :
    entries? fuel (skip text) = entries? fuel text := by
  cases fuel with
  | zero => rfl
  | succ fuel =>
      have twice : skip (skip text) = skip text := List.dropWhile_idempotent _ _
      rw [entries?, entries?, twice]

/-- What an entry starts with, up to its value. -/
theorem skip_quote (blank : ∀ c ∈ blanks, isBlank c) (key : String) (text : List Char) :
    skip (blanks ++ ((quote key).toList ++ text)) =
      '"' :: (key.toList.flatMap escape ++ '"' :: text) := by
  rw [skip_append blank, toList_quote]
  simp only [List.cons_append, List.append_assoc, List.nil_append]
  exact skip_of_not_isBlank rfl _

theorem entries?_last (key : String) (blank : ∀ c ∈ blanks, isBlank c)
    (first : value? fuel text = some (w, left)) (close : skip left = '\x7d' :: rest) :
    entries? (fuel + 1) (blanks ++ ((quote key).toList ++ ':' :: text)) =
      some ([(key.toList.map Piece.of, w)], rest) := by
  have colon : skip (':' :: text) = ':' :: text := skip_of_not_isBlank rfl _
  simp only [entries?, skip_quote blank, pieces?_quoted, colon, first, close, bind,
    Option.bind_some, pure]

theorem entries?_cons {entries : List (List Piece × Written)} (key : String)
    (blank : ∀ c ∈ blanks, isBlank c) (first : value? fuel text = some (w, left))
    (comma : skip left = ',' :: more) (others : entries? fuel more = some (entries, rest)) :
    entries? (fuel + 1) (blanks ++ ((quote key).toList ++ ':' :: text)) =
      some ((key.toList.map Piece.of, w) :: entries, rest) := by
  have colon : skip (':' :: text) = ':' :: text := skip_of_not_isBlank rfl _
  simp only [entries?, skip_quote blank, pieces?_quoted, colon, first, comma, others, bind,
    Option.bind_some, pure]

theorem value?_arr (fuel : Nat) (more : ∀ u, skip text ≠ ']' :: u) :
    value? (fuel + 1) ('[' :: text) =
      (items? fuel text).map fun (items, rest) => (arr items, rest) := by
  have opening : skip ('[' :: text) = '[' :: text := skip_of_not_isBlank rfl _
  simp only [value?, opening, items?_skip]

theorem value?_obj (fuel : Nat) (more : ∀ u, skip text ≠ '\x7d' :: u) :
    value? (fuel + 1) ('\x7b' :: text) =
      (entries? fuel text).map fun (entries, rest) => (obj entries, rest) := by
  have opening : skip ('\x7b' :: text) = '\x7b' :: text := skip_of_not_isBlank rfl _
  simp only [value?, opening, entries?_skip]

end Written

namespace Spacing

open Written

/-- A spelling starts with something that is neither blank nor closes anything. -/
theorem spell_head (spacing : Spacing) (level : Nat) {j : Json}
    (kept : ∀ n ∈ j.numbers, n.ReadsBack) :
    ∃ c u, spacing.spell level j = c :: u ∧ isBlank c = false ∧ c ≠ ']' := by
  cases j with
  | null => exact ⟨'n', _, rfl, by decide⟩
  | bool b => cases b <;> exact ⟨_, _, rfl, by decide⟩
  | num n =>
      obtain ⟨scanned, -⟩ := (kept n List.mem_cons_self).scan?
      obtain ⟨c, u, split, starts⟩ := Numeral.head_of_scan? scanned
      refine ⟨c, u, split, solid_render n c (split ▸ List.mem_cons_self), ?_⟩
      rintro rfl
      exact starts.elim (by decide) (by decide)
  | str s => exact ⟨'"', _, toList_quote s, by decide⟩
  | arr items => exact ⟨'[', _, by rw [spell]; rfl, by decide⟩
  | obj entries => exact ⟨'\x7b', _, by rw [spell]; rfl, by decide⟩

theorem stops_append {blanks : List Char} {c : Char} (blank : ∀ c ∈ blanks, isBlank c)
    (ends : c = ',' ∨ c = ']' ∨ c = '\x7d') (rest : List Char) : Stops (blanks ++ c :: rest) := by
  cases blanks with
  | nil => obtain rfl | rfl | rfl := ends <;> exact stops_cons (by decide) (by decide) rest
  | cons d blanks =>
      have first := blank d List.mem_cons_self
      simp only [isBlank, Bool.or_eq_true, beq_iff_eq] at first
      obtain ((rfl | rfl) | rfl) | rfl := first <;> exact stops_cons (by decide) (by decide) _

theorem spellItems_cons (spacing : Spacing) (level : Nat) (j : Json) (others : List Json)
    (rest : List Char) : spacing.spellItems level [] (j :: others) ++ rest =
      spacing.line level ++
        (spacing.spell level j ++ (spacing.spellItems level [','] others ++ rest)) := by
  simp [spellItems]

theorem spellItems_comma (spacing : Spacing) (level : Nat) (j : Json) (others : List Json) :
    spacing.spellItems level [','] (j :: others) =
      ',' :: spacing.spellItems level [] (j :: others) := by
  simp [spellItems]

theorem spellEntries_cons (spacing : Spacing) (level : Nat) (key : String) (j : Json)
    (others : List (String × Json)) (rest : List Char) :
    spacing.spellEntries level [] ((key, j) :: others) ++ rest =
      spacing.line level ++ ((quote key).toList ++ ':' :: (spacing.gap ++
        (spacing.spell level j ++ (spacing.spellEntries level [','] others ++ rest)))) := by
  simp [spellEntries]

theorem spellEntries_comma (spacing : Spacing) (level : Nat) (entry : String × Json)
    (others : List (String × Json)) : spacing.spellEntries level [','] (entry :: others) =
      ',' :: spacing.spellEntries level [] (entry :: others) := by
  simp [spellEntries]

mutual

/-- A tree is taken apart as it was put together, whatever comes after it. -/
theorem value?_spell (spacing : Spacing) (j : Json) {level fuel : Nat} {rest : List Char}
    (kept : ∀ n ∈ j.numbers, n.ReadsBack)
    (enough : 2 * (spacing.spell level j).length ≤ fuel) (stops : Stops rest) :
    value? fuel (spacing.spell level j ++ rest) = some (j.written, rest) := by
  obtain ⟨c, u, split, -⟩ := spell_head spacing level kept
  obtain ⟨fuel, rfl⟩ : ∃ less, fuel = less + 1 := by
    refine ⟨fuel - 1, ?_⟩
    simp only [split, List.length_cons] at enough
    omega
  cases j with
  | null => rfl
  | bool b => cases b <;> rfl
  | num n =>
      obtain ⟨scanned, -⟩ := (kept n List.mem_cons_self).scan?
      obtain ⟨c, u, split, starts⟩ := Numeral.head_of_scan? scanned
      have longer := (Numeral.local_scan? _ _ _ scanned).2 rest stops
      change value? (fuel + 1) (n.render.toList ++ rest) = _
      rw [split] at longer ⊢
      rw [List.cons_append, value?_numeral starts, ← List.cons_append, longer]
      rfl
  | str s =>
      have opening : ∀ text, skip ('"' :: text) = '"' :: text := skip_of_not_isBlank rfl
      change value? (fuel + 1) ((quote s).toList ++ rest) = _
      rw [toList_quote]
      simp only [List.cons_append, List.append_assoc, List.nil_append, value?, opening,
        pieces?_quoted]
      rfl
  | arr items =>
      have inner (some : items ≠ [])
          (within : 2 * (spacing.spellItems (level + 1) [] items).length < fuel) :=
        items?_spell spacing items kept some within (spacing.blank_line level) rest
      cases items with
      | nil => rfl
      | cons first others =>
          obtain ⟨c, u, opening, solid, other⟩ := spell_head spacing (level + 1) fun n member =>
            kept n (List.mem_append_left (numbersItems others) member)
          have more : ∀ v, skip (spacing.spellItems (level + 1) [] (first :: others) ++
              (spacing.line level ++ ']' :: rest)) ≠ ']' :: v := by
            rw [spellItems_cons, skip_append (spacing.blank_line _), opening, List.cons_append,
              skip_of_not_isBlank solid]
            exact fun v same => other (List.cons.inj same).1
          simp only [spell, List.length_append, List.length_cons] at enough
          simp only [spell, List.isEmpty_cons, Bool.false_eq_true, ↓reduceIte, List.cons_append,
            List.append_assoc, List.nil_append]
          rw [value?_arr _ more, inner (List.cons_ne_nil _ _) (by omega)]
          rfl
  | obj entries =>
      have inner (some : entries ≠ [])
          (within : 2 * (spacing.spellEntries (level + 1) [] entries).length < fuel) :=
        entries?_spell spacing entries kept some within (spacing.blank_line level) rest
      cases entries with
      | nil => rfl
      | cons first others =>
          have more : ∀ v, skip (spacing.spellEntries (level + 1) [] (first :: others) ++
              (spacing.line level ++ '\x7d' :: rest)) ≠ '\x7d' :: v := by
            rw [spellEntries_cons, skip_quote (spacing.blank_line _)]
            exact fun v same => absurd (List.cons.inj same).1 (by decide)
          simp only [spell, List.length_append, List.length_cons] at enough
          simp only [spell, List.isEmpty_cons, Bool.false_eq_true, ↓reduceIte, List.cons_append,
            List.append_assoc, List.nil_append]
          rw [value?_obj _ more, inner (List.cons_ne_nil _ _) (by omega)]
          rfl

theorem items?_spell (spacing : Spacing) (items : List Json) {level fuel : Nat}
    {blanks : List Char} (kept : ∀ n ∈ numbersItems items, n.ReadsBack) (some : items ≠ [])
    (enough : 2 * (spacing.spellItems level [] items).length < fuel)
    (blank : ∀ c ∈ blanks, isBlank c) (rest : List Char) :
    Written.items? fuel (spacing.spellItems level [] items ++ (blanks ++ ']' :: rest)) =
      Option.some (writtenItems items, rest) := by
  obtain ⟨fuel, rfl⟩ : ∃ less, fuel = less + 1 := ⟨fuel - 1, by omega⟩
  match items with
  | [] => exact absurd rfl some
  | j :: others =>
      obtain ⟨here, there⟩ := List.forall_mem_append.1 kept
      simp only [spellItems, List.length_append] at enough
      have first : ∀ left, Stops left →
          value? fuel (spacing.line level ++ (spacing.spell level j ++ left)) =
            Option.some (j.written, left) := fun left stops =>
        (value?_append (spacing.blank_line _) _ _).trans
          (value?_spell spacing j here (by omega) stops)
      have after (some : others ≠ [])
          (within : 2 * (spacing.spellItems level [] others).length < fuel) :=
        items?_spell spacing others there some within blank rest
      rw [spellItems_cons, writtenItems]
      cases others with
      | nil =>
          have close : skip (blanks ++ ']' :: rest) = ']' :: rest :=
            (skip_append blank _).trans (skip_of_not_isBlank rfl _)
          rw [spellItems, List.nil_append]
          exact items?_last (first _ (stops_append blank (.inr (.inl rfl)) rest)) close
      | cons next others =>
          have comma : ∀ left, skip (',' :: left) = ',' :: left := skip_of_not_isBlank rfl
          simp only [spellItems_comma, List.length_cons] at enough
          rw [spellItems_comma, List.cons_append]
          exact items?_cons (first _ (stops_cons (by decide) (by decide) _)) (comma _)
            (after (List.cons_ne_nil _ _) (by omega))

theorem entries?_spell (spacing : Spacing) (entries : List (String × Json)) {level fuel : Nat}
    {blanks : List Char} (kept : ∀ n ∈ numbersEntries entries, n.ReadsBack) (some : entries ≠ [])
    (enough : 2 * (spacing.spellEntries level [] entries).length < fuel)
    (blank : ∀ c ∈ blanks, isBlank c) (rest : List Char) :
    Written.entries? fuel (spacing.spellEntries level [] entries ++ (blanks ++ '\x7d' :: rest)) =
      Option.some (writtenEntries entries, rest) := by
  obtain ⟨fuel, rfl⟩ : ∃ less, fuel = less + 1 := ⟨fuel - 1, by omega⟩
  match entries with
  | [] => exact absurd rfl some
  | (key, j) :: others =>
      obtain ⟨here, there⟩ := List.forall_mem_append.1 kept
      simp only [spellEntries, List.length_append] at enough
      have first : ∀ left, Stops left →
          value? fuel (spacing.gap ++ (spacing.spell level j ++ left)) =
            Option.some (j.written, left) := fun left stops =>
        (value?_append spacing.blank_gap _ _).trans (value?_spell spacing j here (by omega) stops)
      have after (some : others ≠ [])
          (within : 2 * (spacing.spellEntries level [] others).length < fuel) :=
        entries?_spell spacing others there some within blank rest
      rw [spellEntries_cons, writtenEntries]
      cases others with
      | nil =>
          have close : skip (blanks ++ '\x7d' :: rest) = '\x7d' :: rest :=
            (skip_append blank _).trans (skip_of_not_isBlank rfl _)
          rw [spellEntries, List.nil_append]
          exact entries?_last key (spacing.blank_line _)
            (first _ (stops_append blank (.inr (.inr rfl)) rest)) close
      | cons next others =>
          have comma : ∀ left, skip (',' :: left) = ',' :: left := skip_of_not_isBlank rfl
          simp only [spellEntries_comma, List.length_cons] at enough
          rw [spellEntries_comma, List.cons_append]
          exact entries?_cons key (spacing.blank_line _)
            (first _ (stops_cons (by decide) (by decide) _)) (comma _)
            (after (List.cons_ne_nil _ _) (by omega))

end

end Spacing

theorem text?_of (s : String) : Piece.text? (s.toList.map Piece.of) = some s := by
  rw [Piece.text?, chars?_of, Option.map_some, String.ofList_toList]

mutual

/-- What is written stands for the tree, if the numbers in it do. -/
theorem settle?_written (j : Json) {depth : Nat} (kept : ∀ n ∈ j.numbers, n.ReadsBack)
    (shallow : j.depth ≤ depth) : j.written.settle? .whole depth = some j := by
  match j with
  | null => rfl
  | bool b => rfl
  | num n =>
      rw [written, Written.settle?, (kept n List.mem_cons_self).scan?.2]
      rfl
  | str s =>
      rw [written, Written.settle?, text?_of]
      rfl
  | arr items =>
      obtain ⟨less, rfl⟩ := Nat.exists_eq_succ_of_ne_zero (Nat.ne_zero_of_lt shallow)
      rw [written, Written.settle?,
        settleItems?_written items 0 kept (Nat.le_of_succ_le_succ shallow)]
      rfl
  | obj entries =>
      obtain ⟨less, rfl⟩ := Nat.exists_eq_succ_of_ne_zero (Nat.ne_zero_of_lt shallow)
      rw [written, Written.settle?, settleEntries?_written .whole entries kept
        (Nat.le_of_succ_le_succ shallow) (fun _ => rfl) fun entry _ => text?_of entry.1]
      rfl

theorem settleItems?_written (items : List Json) {depth : Nat} (position : Nat)
    (kept : ∀ n ∈ numbersItems items, n.ReadsBack) (shallow : depthItems items ≤ depth) :
    Written.settleItems? .whole depth position (writtenItems items) = some items := by
  match items with
  | [] => rfl
  | j :: rest =>
      obtain ⟨here, there⟩ := List.forall_mem_append.1 kept
      rw [depthItems, Nat.max_le] at shallow
      have whole : Shape.whole.item position = .whole := rfl
      rw [writtenItems, Written.settleItems?, whole, settle?_written j here shallow.1,
        settleItems?_written rest (position + 1) there shallow.2]
      rfl

/-- Entries that are all looked at as a whole. -/
theorem settleEntries?_written (shape : Shape) (entries : List (String × Json)) {depth : Nat}
    (kept : ∀ n ∈ numbersEntries entries, n.ReadsBack) (shallow : depthEntries entries ≤ depth)
    (all : ∀ key, shape.entry? key = some .whole)
    (keys : ∀ entry ∈ entries, shape.key? (entry.1.toList.map Piece.of) = some entry.1) :
    Written.settleEntries? shape depth (writtenEntries entries) = some entries := by
  match entries with
  | [] => rfl
  | (key, j) :: rest =>
      obtain ⟨here, there⟩ := List.forall_mem_append.1 kept
      obtain ⟨first, others⟩ := List.forall_mem_cons.1 keys
      rw [depthEntries, Nat.max_le] at shallow
      simp only [writtenEntries, Written.settleEntries?, first, all, bind, Option.bind_some,
        settle?_written j here shallow.1,
        settleEntries?_written shape rest there shallow.2 all others, pure]

end

namespace Spacing

/-- A list of parts between marks, each in a line of its own. -/
theorem spellItems_eq_intercalate (spacing : Spacing) (level : Nat) (j : Json)
    (others : List Json) : spacing.spellItems level [] (j :: others) = spacing.line level ++
      (',' :: spacing.line level).intercalate ((j :: others).map (spacing.spell level)) := by
  induction others generalizing j with
  | nil => simp [spellItems]
  | cons next others ih =>
      have rest := spellItems_cons spacing level j (next :: others) []
      rw [List.append_nil, List.append_nil] at rest
      rw [rest, spellItems_comma, ih]
      simp [List.intercalate_cons_cons]

theorem spellEntries_eq_intercalate (spacing : Spacing) (level : Nat) (entry : String × Json)
    (others : List (String × Json)) :
    spacing.spellEntries level [] (entry :: others) = spacing.line level ++
      (',' :: spacing.line level).intercalate ((entry :: others).map fun entry =>
        (quote entry.1).toList ++ ':' :: spacing.gap ++ spacing.spell level entry.2) := by
  induction others generalizing entry with
  | nil => simp [spellEntries]
  | cons next others ih =>
      have rest := spellEntries_cons spacing level entry.1 entry.2 (next :: others) []
      rw [List.append_nil, List.append_nil] at rest
      rw [rest, spellEntries_comma, ih]
      simp [List.intercalate_cons_cons]

mutual

theorem toList_compact (level : Nat) (j : Json) : j.compact.toList = tight.spell level j := by
  match j with
  | null => rfl
  | bool b => rfl
  | num n => rfl
  | str s => rfl
  | arr [] => rfl
  | arr (first :: others) =>
      have items := compactItems_eq (level + 1) (first :: others)
      simp only [compact, spell, spellItems_eq_intercalate, ← items, String.toList_append,
        String.toList_intercalate]
      simp [tight]
  | obj [] => rfl
  | obj (first :: others) =>
      have entries := compactEntries_eq (level + 1) (first :: others)
      simp only [compact, spell, spellEntries_eq_intercalate, ← entries, String.toList_append,
        String.toList_intercalate]
      simp [tight]

theorem compactItems_eq (level : Nat) (items : List Json) :
    (compactItems items).map String.toList = items.map (tight.spell level) := by
  match items with
  | [] => rfl
  | j :: rest =>
      rw [compactItems, List.map_cons, List.map_cons, toList_compact level j,
        compactItems_eq level rest]

theorem compactEntries_eq (level : Nat) (entries : List (String × Json)) :
    (compactEntries entries).map String.toList = entries.map fun entry =>
      (quote entry.1).toList ++ ':' :: tight.gap ++ tight.spell level entry.2 := by
  match entries with
  | [] => rfl
  | (key, j) :: rest =>
      rw [compactEntries, List.map_cons, List.map_cons, String.toList_append, String.toList_append,
        toList_compact level j, compactEntries_eq level rest]
      rfl

end

theorem toList_newline (level : Nat) : (newline level).toList = airy.line level :=
  String.toList_ofList

mutual

theorem toList_prettyAt (level : Nat) (j : Json) :
    (prettyAt level j).toList = airy.spell level j := by
  match j with
  | null => rfl
  | bool b => rfl
  | num n => rfl
  | str s => rfl
  | arr [] => simp [prettyAt, prettyItems, enclose, spell, spellItems]
  | arr (first :: others) =>
      have some : (prettyItems (level + 1) (first :: others)).isEmpty = false := rfl
      have items := prettyItems_eq (level + 1) (first :: others)
      simp only [prettyAt, enclose, some, Bool.false_eq_true, ↓reduceIte, spell,
        spellItems_eq_intercalate, ← items, String.toList_append, String.toList_intercalate,
        toList_newline]
      simp
  | obj [] => simp [prettyAt, prettyEntries, enclose, spell, spellEntries]
  | obj (first :: others) =>
      have some : (prettyEntries (level + 1) (first :: others)).isEmpty = false := rfl
      have entries := prettyEntries_eq (level + 1) (first :: others)
      simp only [prettyAt, enclose, some, Bool.false_eq_true, ↓reduceIte, spell,
        spellEntries_eq_intercalate, ← entries, String.toList_append, String.toList_intercalate,
        toList_newline]
      simp

theorem prettyItems_eq (level : Nat) (items : List Json) :
    (prettyItems level items).map String.toList = items.map (airy.spell level) := by
  match items with
  | [] => rfl
  | j :: rest =>
      rw [prettyItems, List.map_cons, List.map_cons, toList_prettyAt level j,
        prettyItems_eq level rest]

theorem prettyEntries_eq (level : Nat) (entries : List (String × Json)) :
    (prettyEntries level entries).map String.toList = entries.map fun entry =>
      (quote entry.1).toList ++ ':' :: airy.gap ++ airy.spell level entry.2 := by
  match entries with
  | [] => rfl
  | (key, j) :: rest =>
      rw [prettyEntries, List.map_cons, List.map_cons, String.toList_append, String.toList_append,
        toList_prettyAt level j, prettyEntries_eq level rest]
      rfl

end

/-- A text that spells a tree is taken apart into it. -/
theorem read?_of_spell {spacing : Spacing} {level : Nat} {j : Json} {text : String}
    (kept : ∀ n ∈ j.numbers, n.ReadsBack) (spelled : text.toList = spacing.spell level j) :
    Written.read? text = some j.written := by
  have enough : 2 * (spacing.spell level j).length ≤ 2 * text.length + 2 := by
    rw [← spelled, String.length_toList]
    omega
  have taken := value?_spell spacing j kept enough stops_nil
  rw [List.append_nil] at taken
  rw [Written.read?, spelled, taken]
  rfl

end Spacing

variable {j : Json}

theorem written_compact (kept : ∀ n ∈ j.numbers, n.ReadsBack) :
    Written.read? j.compact = some j.written :=
  Spacing.read?_of_spell kept (Spacing.toList_compact 0 j)

/-- The text of a tree reads back, without spaces or indented, if the tree does not nest too deep
and its numbers read back. -/
theorem read?_compact (kept : ∀ n ∈ j.numbers, n.ReadsBack) (shallow : j.depth ≤ maxDepth) :
    read? j.compact = some j := by
  rw [read?, readAs?, written_compact kept]
  exact settle?_written j kept shallow

theorem read?_pretty (kept : ∀ n ∈ j.numbers, n.ReadsBack) (shallow : j.depth ≤ maxDepth) :
    read? j.pretty = some j := by
  rw [read?, readAs?, pretty, Spacing.read?_of_spell kept (Spacing.toList_prettyAt 0 j)]
  exact settle?_written j kept shallow

end Dialogue.Json
