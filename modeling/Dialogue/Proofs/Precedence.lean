import Dialogue.Expr.Parser
import Dialogue.Proofs.Consumption
import Mathlib.Data.List.Basic

/-! Expressions are read by a table of precedence. The grammar has a layer for each level of the
table, a lower one made of the next higher; reading an expression builds the one tree that the
grammar derives from its tokens, and a tree that is written with brackets only where its levels need
them is read back. -/
namespace Dialogue

namespace Operator

/-- The binary operators by level, each with the token that writes it. Those of level `7` group to
the right, all others to the left. -/
def table : List (Nat × Token.Kind × Operator) :=
  [(1, .or, .or), (1, .and, .and),
   (2, .equal, .equal), (2, .notEqual, .notEqual), (2, .less, .less), (2, .greater, .greater),
   (2, .lessOrEqual, .lessOrEqual), (2, .greaterOrEqual, .greaterOrEqual),
   (3, .plus, .add), (3, .minus, .subtract),
   (4, .modulo, .modulo),
   (5, .times, .multiply), (5, .divide, .divide),
   (7, .power, .power)]

theorem mem_table_of_binary? {kind : Token.Kind} {op : Operator} {level : Nat} {right : Bool}
    (found : binary? kind = some (op, level, right)) :
    (level, kind, op) ∈ table ∧ right = (level == 7) := by
  cases kind <;> cases found <;> decide

theorem binary?_of_mem_table {kind : Token.Kind} {op : Operator} {level : Nat}
    (member : (level, kind, op) ∈ table) : binary? kind = some (op, level, level == 7) := by
  simp only [table, List.mem_cons, Prod.mk.injEq, List.not_mem_nil, or_false] at member
  rcases member with h | h | h | h | h | h | h | h | h | h | h | h | h | h <;>
    obtain ⟨rfl, rfl, rfl⟩ := h <;> rfl

theorem level_unique {kind : Token.Kind} {op other : Operator} {level more : Nat}
    (row : (level, kind, op) ∈ table) (also : (more, kind, other) ∈ table) : more = level := by
  have same := (binary?_of_mem_table also).symm.trans (binary?_of_mem_table row)
  exact congrArg (·.2.1) (Option.some.inj same)

theorem level_lt_of_mem_table {kind : Token.Kind} {op : Operator} {level : Nat}
    (member : (level, kind, op) ∈ table) : 0 < level ∧ level < 8 := by
  have bounds : ∀ row ∈ table, 0 < row.1 ∧ row.1 < 8 := by decide
  exact bounds _ member

/-- The level of what stands left of an operator. -/
def leftLevel (level : Nat) : Nat := if level = 7 then 8 else level

/-- The level of what stands right of an operator. -/
def rightLevel (level : Nat) : Nat := if level = 7 then 7 else level + 1

theorem ite_eq_rightLevel (level : Nat) :
    (if (level == 7) = true then level else level + 1) = rightLevel level := by
  simp only [beq_iff_eq, rightLevel]
  split <;> omega

theorem rightLevel_le (level : Nat) : rightLevel level ≤ level + 1 := by
  unfold rightLevel
  split <;> omega

theorem le_rightLevel (level : Nat) : level ≤ rightLevel level := by
  unfold rightLevel
  split <;> omega

theorem le_leftLevel (level : Nat) : level ≤ leftLevel level := by
  unfold leftLevel
  split <;> omega

/-- What an operator does not belong to can stand left of it. -/
theorem leftLevel_le {level other : Nat} (less : other < rightLevel level) :
    leftLevel other ≤ level := by
  unfold rightLevel at less
  unfold leftLevel
  split <;> split at less <;> omega

theorem lt_rightLevel_leftLevel (level : Nat) : level < rightLevel (leftLevel level) := by
  unfold leftLevel
  split
  · next seven => rw [seven]; decide
  · next other => rw [rightLevel, if_neg other]; exact Nat.lt_succ_self level

end Operator

namespace Expr

/-- The expressions that tokens write, by level. Level `8` is that of operands, and a level without
operators is the next one. -/
inductive Derives : Nat → List Token → Expr → Prop
  | number {token : Token} {x : Float} (kind : token.kind = .number)
      (reads : Number.read? token.value.toList = some x) :
      Derives 8 [token] (.constant (.number x))
  | negative {sign token : Token} {x : Float} (minus : sign.kind = .minus)
      (kind : token.kind = .number) (reads : Number.read? token.value.toList = some x) :
      Derives 8 [sign, token] (.constant (.number (-x)))
  | string {token : Token} (kind : token.kind = .string) :
      Derives 8 [token] (.constant (.string token.value))
  | boolean {token : Token} (kind : token.kind = .boolean) :
      Derives 8 [token] (.constant (.bool (token.value == "true")))
  | null {token : Token} (kind : token.kind = .null) : Derives 8 [token] (.constant .null)
  | name {token : Token} (kind : token.kind = .identifier) :
      Derives 8 [token] (.variable token.value)
  | not {sign : Token} {tokens : List Token} {e : Expr} (kind : sign.kind = .not)
      (inner : Derives 8 tokens e) : Derives 8 (sign :: tokens) (.unary .not e)
  | bracket {opening closing : Token} {tokens : List Token} {e : Expr}
      (opens : opening.kind = .bracketOpen) (closes : closing.kind = .bracketClose)
      (inner : Derives 1 tokens e) : Derives 8 (opening :: (tokens ++ [closing])) e
  | higher {level : Nat} {tokens : List Token} {e : Expr} (above : Derives (level + 1) tokens e) :
      Derives level tokens e
  | left {level : Nat} {op : Operator} {sign : Token} {before after : List Token} {l r : Expr}
      (row : (level, sign.kind, op) ∈ Operator.table) (grouping : level ≠ 7)
      (first : Derives level before l) (second : Derives (level + 1) after r) :
      Derives level (before ++ sign :: after) (.binary op l r)
  | right {op : Operator} {sign : Token} {before after : List Token} {l r : Expr}
      (row : (7, sign.kind, op) ∈ Operator.table) (first : Derives 8 before l)
      (second : Derives 7 after r) : Derives 7 (before ++ sign :: after) (.binary op l r)

namespace Derives

variable {level : Nat} {tokens : List Token} {e : Expr}

theorem level_le (derives : Derives level tokens e) : level ≤ 8 := by
  induction derives with
  | higher above ih => omega
  | left row grouping first second ih _ => exact ih
  | right => omega
  | _ => exact Nat.le_refl 8

theorem lower {lower : Nat} (derives : Derives level tokens e) (below : lower ≤ level) :
    Derives lower tokens e := by
  induction below with
  | refl => exact derives
  | step below ih => exact ih derives.higher

theorem of_zero (derives : Derives 0 tokens e) : Derives 1 tokens e := by
  cases derives with
  | higher above => exact above
  | left row grouping first second => exact absurd (Operator.level_lt_of_mem_table row).1 (by omega)

theorem binary {op : Operator} {sign : Token} {before after : List Token} {l r : Expr}
    (row : (level, sign.kind, op) ∈ Operator.table)
    (first : Derives (Operator.leftLevel level) before l)
    (second : Derives (Operator.rightLevel level) after r) :
    Derives level (before ++ sign :: after) (.binary op l r) := by
  by_cases seven : level = 7
  · subst seven
    exact .right row first second
  · rw [Operator.leftLevel, if_neg seven] at first
    rw [Operator.rightLevel, if_neg seven] at second
    exact .left row seven first second

theorem length_pos (derives : Derives level tokens e) : 0 < tokens.length := by
  induction derives with
  | higher above ih => exact ih
  | left row grouping first second ih _ => exact List.length_append ▸ Nat.add_pos_left ih _
  | right row first second ih _ => exact List.length_append ▸ Nat.add_pos_left ih _
  | _ => exact Nat.succ_pos _

end Derives
end Expr

/-- Whether a binary operator that comes next is of a lower level. -/
def Stream.Stops (stream : Stream) (level : Nat) : Prop :=
  ∀ kind op other, stream.Ahead kind → (other, kind, op) ∈ Operator.table → other < level

theorem Stream.Stops.mono {stream : Stream} {level higher : Nat} (stops : stream.Stops level)
    (bound : level ≤ higher) : stream.Stops higher := fun kind op other ahead row =>
  Nat.lt_of_lt_of_le (stops kind op other ahead row) bound

theorem Stream.Ahead.stops {stream : Stream} {kind : Token.Kind} (ahead : stream.Ahead kind)
    (free : ∀ row ∈ Operator.table, row.2.1 ≠ kind) (level : Nat) : stream.Stops level := by
  intro found op other also row
  exact absurd (also.unique ahead) (free _ row)

namespace Parser

open Dialogue.Expr (Derives)

/-! What is read is derived. -/

/-- What the functions that read expressions give with some allowance. -/
structure Sound (fuel : Nat) : Prop where
  operand : ∀ s, (operand fuel).Yields s fun used e _ => Derives 8 used e
  operators : ∀ s least left level before, least ≤ level → Derives level before left →
    s.Stops (Operator.rightLevel level) →
    (operators fuel least left).Yields s fun used e rest =>
      Derives least (before ++ used) e ∧ rest.Stops least
  expression : ∀ s least, least ≤ 8 →
    (expression fuel least).Yields s fun used e rest => Derives least used e ∧ rest.Stops least

theorem yields_number {token : Token} {s : Stream} :
    (number token).Yields s fun used x _ =>
      used = [] ∧ Number.read? token.value.toList = some x := by
  unfold number
  split
  · next x reads => exact .pure ⟨rfl, reads⟩
  · intro ended a rest ran
    cases ran

variable {fuel : Nat}

theorem Sound.operand_succ (sound : Sound fuel) (s : Stream) :
    (Parser.operand (fuel + 1)).Yields s fun used e _ => Derives 8 used e := by
  rw [Parser.operand]
  refine .expect (by decide) fun token rest listed => ?_
  split
  · next kind =>
      refine (sound.operand rest).bind fun used e rest derives => .pure ?_
      simpa using Derives.not kind derives
  · next kind =>
      refine .expect (by decide) fun digits rest also => ?_
      refine yields_number.bind fun used x rest held => .pure ?_
      obtain ⟨rfl, reads⟩ := held
      exact .negative kind (by simpa using also) reads
  · next kind =>
      refine (sound.expression rest 0 (Nat.zero_le 8)).bind fun used e rest held => ?_
      refine .expect (by decide) fun closing rest closes => .pure ?_
      exact .bracket kind (by simpa using closes) held.1.of_zero
  · next kind =>
      refine yields_number.bind fun used x rest held => .pure ?_
      obtain ⟨rfl, reads⟩ := held
      exact .number kind reads
  · next kind => exact .pure (.string kind)
  · next kind => exact .pure (.boolean kind)
  · next kind => exact .pure (.null kind)
  · next notNot notMinus notBracket notNumber notString notBoolean notNull =>
      have kind : token.kind = .identifier := by
        simp only [operandKinds, List.mem_cons, List.not_mem_nil, or_false] at listed
        simp_all
      exact .pure (.name kind)

theorem Sound.operators_succ (sound : Sound fuel) (s : Stream) (least : Nat) (left : Expr)
    (level : Nat) (before : List Token) (bound : least ≤ level)
    (derives : Derives level before left) (stops : s.Stops (Operator.rightLevel level)) :
    (Parser.operators (fuel + 1) least left).Yields s fun used e rest =>
      Derives least (before ++ used) e ∧ rest.Stops least := by
  rw [Parser.operators]
  refine .kind fun kind ahead => ?_
  have alone : Derives least (before ++ []) left := by
    rw [List.append_nil]
    exact derives.lower bound
  split
  · next none =>
      refine .pure ⟨alone, ?_⟩
      intro found op other also row
      obtain rfl := ahead.unique also
      rw [Operator.binary?_of_mem_table row] at none
      cases none
  · next op precedence groupsRight found =>
      obtain ⟨row, rfl⟩ := Operator.mem_table_of_binary? found
      split
      · next less =>
          refine .pure ⟨alone, ?_⟩
          intro again same other also more
          obtain rfl := ahead.unique also
          exact Operator.level_unique row more ▸ less
      · next enough =>
          have inside : .eof ∉ [kind] := by
            intro member
            obtain rfl := List.mem_singleton.1 member
            cases found
          refine .expect inside fun sign rest signed => ?_
          obtain rfl : sign.kind = kind := List.mem_singleton.1 signed
          have high := (Operator.level_lt_of_mem_table row).2
          rw [Operator.ite_eq_rightLevel]
          have above := Operator.rightLevel_le precedence
          refine (sound.expression rest _ (by omega)).bind fun used right rest held => ?_
          have first := derives.lower (Operator.leftLevel_le (stops _ _ _ ahead row))
          have whole := Derives.binary row first held.1
          refine (sound.operators rest least _ precedence _ (by omega) whole held.2).imp ?_
          intro more e rest also
          simpa using also

theorem Sound.expression_succ (sound : Sound fuel) (s : Stream) (least : Nat) (bound : least ≤ 8) :
    (Parser.expression (fuel + 1) least).Yields s fun used e rest =>
      Derives least used e ∧ rest.Stops least := by
  rw [Parser.expression]
  refine (sound.operand s).bind fun used left rest derives => ?_
  refine sound.operators rest least left 8 used bound derives ?_
  intro kind op other ahead row
  exact Nat.lt_succ_of_lt (Operator.level_lt_of_mem_table row).2

theorem sound (fuel : Nat) : Sound fuel := by
  induction fuel with
  | zero =>
      constructor
      · intro s
        exact .exhausted
      · intro s least left level before bound derives stops
        exact .exhausted
      · intro s least bound
        exact .exhausted
  | succ fuel ih => exact ⟨ih.operand_succ, ih.operators_succ, ih.expression_succ⟩

theorem yields_expression (fuel : Nat) (s : Stream) :
    (expression fuel 0).Yields s fun used e _ => Derives 1 used e :=
  ((sound fuel).expression s 0 (Nat.zero_le 8)).imp fun _ _ _ held => held.1.of_zero

/-! What is derived is read. -/

theorem operators_of_stops {s : Stream} {kind : Token.Kind} (ahead : s.Ahead kind) {least : Nat}
    (stops : s.Stops least) (fuel : Nat) (left : Expr) :
    operators (fuel + 1) least left s = .ok (left, s) := by
  rw [operators, bind_of_ok (kind_eq_ok_iff.2 ⟨ahead, rfl⟩)]
  cases found : Operator.binary? kind with
  | none => rfl
  | some entry =>
      obtain ⟨op, level, groupsRight⟩ := entry
      have less := stops kind op level ahead (Operator.mem_table_of_binary? found).1
      simp only [less, if_true]
      rfl

/-- An operator of the table that comes next is taken, and its right operand read at its level or
the one after it. -/
theorem operators_of_row {level least : Nat} {sign : Token} {op : Operator}
    (row : (level, sign.kind, op) ∈ Operator.table) (enough : least ≤ level) (fuel : Nat)
    (left : Expr) (rest : Stream) :
    operators (fuel + 1) least left (rest.after [sign]) =
      (expression fuel (Operator.rightLevel level) >>= fun right =>
        operators fuel least (.binary op left right)) rest := by
  have ahead := rest.ahead_after_cons sign []
  have taken : expect [sign.kind] (rest.after [sign]) = .ok (sign, rest) :=
    expect_of_mem (rest.peek_after_cons sign []) List.mem_cons_self
  rw [operators, bind_of_ok (kind_eq_ok_iff.2 ⟨ahead, rfl⟩)]
  simp only [Operator.binary?_of_mem_table row, Nat.not_lt.2 enough, if_false,
    Operator.ite_eq_rightLevel]
  exact bind_of_ok taken _

/-- Tokens are read as an expression of a level: as an operand if it is the highest, and in general
as what the operators after it apply to. -/
structure Reads (level : Nat) (tokens : List Token) (e : Expr) : Prop where
  operand : level = 8 → ∀ rest fuel, 2 * tokens.length ≤ fuel + 1 →
    operand fuel (rest.after tokens) = .ok (e, rest)
  expression : ∀ rest kind fuel least, rest.Ahead kind →
    rest.Stops (Operator.rightLevel level) → least ≤ level →
    2 * tokens.length ≤ fuel → ∃ left, fuel ≤ left + tokens.length ∧
      expression fuel least (rest.after tokens) = operators left least e rest

namespace Reads

variable {level : Nat} {tokens before after : List Token} {token sign : Token} {e l r : Expr}
  {op : Operator}

theorem of_operand (some : 0 < tokens.length)
    (reads : ∀ rest fuel, 2 * tokens.length ≤ fuel + 2 →
      Parser.operand (fuel + 1) (rest.after tokens) = .ok (e, rest)) : Reads 8 tokens e := by
  have reads : ∀ rest fuel, 2 * tokens.length ≤ fuel + 1 →
      Parser.operand fuel (rest.after tokens) = .ok (e, rest) := by
    intro rest fuel enough
    obtain ⟨fuel, rfl⟩ : ∃ less, fuel = less + 1 := ⟨fuel - 1, by omega⟩
    exact reads rest fuel (by omega)
  refine ⟨fun _ => reads, ?_⟩
  intro rest kind fuel least ahead stops bound enough
  obtain ⟨fuel, rfl⟩ : ∃ less, fuel = less + 1 := ⟨fuel - 1, by omega⟩
  refine ⟨fuel, by omega, ?_⟩
  rw [Parser.expression, bind_of_ok (reads rest fuel (by omega))]

theorem of_token (listed : token.kind ∈ operandKinds)
    (reads : ∀ rest fuel, expect operandKinds (rest.after [token]) = .ok (token, rest) →
      Parser.operand (fuel + 1) (rest.after [token]) = .ok (e, rest)) : Reads 8 [token] e :=
  of_operand (Nat.succ_pos 0) fun rest fuel _ => reads rest fuel (expect_of_mem rfl listed)

theorem not (kind : sign.kind = .not) (inner : Reads 8 tokens e) :
    Reads 8 (sign :: tokens) (.unary .not e) := by
  refine of_operand (Nat.succ_pos _) fun rest fuel enough => ?_
  rw [List.length_cons] at enough
  have taken : expect operandKinds (rest.after (sign :: tokens)) = .ok (sign, rest.after tokens) :=
    expect_of_mem rfl (by simp [kind, operandKinds])
  rw [Parser.operand, bind_of_ok taken, kind]
  exact bind_of_ok (inner.operand rfl rest fuel (by omega)) _

theorem bracket {opening closing : Token} (opens : opening.kind = .bracketOpen)
    (closes : closing.kind = .bracketClose) (inner : Reads 1 tokens e) :
    Reads 8 (opening :: (tokens ++ [closing])) e := by
  refine of_operand (Nat.succ_pos _) fun rest fuel enough => ?_
  rw [List.length_cons, List.length_append, List.length_singleton] at enough
  have taken : expect operandKinds (rest.after (opening :: (tokens ++ [closing]))) =
      .ok (opening, (rest.after [closing]).after tokens) := by
    rw [← Stream.after_append]
    exact expect_of_mem rfl (by simp [opens, operandKinds])
  have ahead := rest.ahead_after_cons closing []
  have free : ∀ row ∈ Operator.table, row.2.1 ≠ closing.kind := by
    rw [closes]
    decide
  obtain ⟨left, spare, ran⟩ := inner.expression _ closing.kind fuel 0 ahead (ahead.stops free _)
    (Nat.zero_le 1) (by omega)
  obtain ⟨left, rfl⟩ : ∃ less, left = less + 1 := ⟨left - 1, by omega⟩
  rw [operators_of_stops ahead (ahead.stops free 0)] at ran
  have closed : expect [.bracketClose] (rest.after [closing]) = .ok (closing, rest) :=
    expect_of_mem rfl (by simp [closes])
  rw [Parser.operand, bind_of_ok taken, opens]
  exact (bind_of_ok ran _).trans (bind_of_ok closed _)

theorem higher (reads : Reads (level + 1) tokens e) (bound : level + 1 ≤ 8) :
    Reads level tokens e := by
  refine ⟨by omega, ?_⟩
  intro rest kind fuel least ahead stops below enough
  have above := Nat.le_trans (Operator.rightLevel_le level) (Operator.le_rightLevel (level + 1))
  exact reads.expression rest kind fuel least ahead (stops.mono above) (by omega) enough

theorem binary (row : (level, sign.kind, op) ∈ Operator.table)
    (first : Reads (Operator.leftLevel level) before l)
    (second : Reads (Operator.rightLevel level) after r) :
    Reads level (before ++ sign :: after) (.binary op l r) := by
  have bounds := Operator.level_lt_of_mem_table row
  refine ⟨by omega, ?_⟩
  intro rest kind fuel least ahead stops below enough
  rw [List.length_append, List.length_cons] at enough ⊢
  have next := Stream.ahead_after_cons (rest.after after) sign []
  have stopsFirst : ((rest.after after).after [sign]).Stops
      (Operator.rightLevel (Operator.leftLevel level)) := by
    intro kind found other also more
    obtain rfl := next.unique also
    exact Operator.level_unique row more ▸ Operator.lt_rightLevel_leftLevel level
  obtain ⟨left, spare, ran⟩ := first.expression _ sign.kind fuel least next stopsFirst
    (Nat.le_trans below (Operator.le_leftLevel level)) (by omega)
  obtain ⟨left, rfl⟩ : ∃ less, left = less + 1 := ⟨left - 1, by omega⟩
  obtain ⟨last, enoughLeft, ranRight⟩ := second.expression rest kind left _ ahead
    (stops.mono (Operator.le_rightLevel _)) (Nat.le_refl _) (by omega)
  obtain ⟨last, rfl⟩ : ∃ less, last = less + 1 := ⟨last - 1, by omega⟩
  rw [operators_of_stops ahead stops] at ranRight
  refine ⟨left, by omega, ?_⟩
  rw [List.append_cons, Stream.after_append, Stream.after_append, ran, operators_of_row row below,
    bind_of_ok ranRight]

end Reads

theorem number_of_read? {token : Token} {x : Float}
    (reads : Number.read? token.value.toList = some x) (s : Stream) :
    number token s = .ok (x, s) := by
  rw [number, reads]
  rfl

theorem reads_of_derives {level : Nat} {tokens : List Token} {e : Expr}
    (derives : Derives level tokens e) : Reads level tokens e := by
  induction derives with
  | number kind reads =>
      refine .of_token (by simp [kind, operandKinds]) fun rest fuel taken => ?_
      rw [operand, bind_of_ok taken, kind]
      exact bind_of_ok (number_of_read? reads rest) _
  | @negative sign token x minus kind reads =>
      refine .of_operand (Nat.succ_pos 1) fun rest fuel _ => ?_
      have taken :
          expect operandKinds (rest.after [sign, token]) = .ok (sign, rest.after [token]) :=
        expect_of_mem rfl (by simp [minus, operandKinds])
      have digits : expect [.number] (rest.after [token]) = .ok (token, rest) :=
        expect_of_mem rfl (by simp [kind])
      rw [operand, bind_of_ok taken, minus]
      exact (bind_of_ok digits _).trans (bind_of_ok (number_of_read? reads rest) _)
  | string kind | boolean kind | null kind | name kind =>
      refine .of_token (by simp [kind, operandKinds]) fun rest fuel taken => ?_
      rw [operand, bind_of_ok taken, kind]
      rfl
  | not kind inner ih => exact ih.not kind
  | bracket opens closes inner ih => exact ih.bracket opens closes
  | higher above ih => exact ih.higher above.level_le
  | left row grouping first second ihFirst ihSecond =>
      refine .binary row ?_ ?_
      · rwa [Operator.leftLevel, if_neg grouping]
      · rwa [Operator.rightLevel, if_neg grouping]
  | right row first second ihFirst ihSecond => exact .binary row ihFirst ihSecond

/-- Before a token that no operator is written with, tokens are read as the expression that they
derive. -/
theorem expression_of_derives {tokens : List Token} {e : Expr} (derives : Derives 1 tokens e)
    {rest : Stream} {stop : Token.Kind} (ahead : rest.Ahead stop)
    (free : ∀ row ∈ Operator.table, row.2.1 ≠ stop) {fuel : Nat}
    (enough : 2 * tokens.length ≤ fuel) :
    expression fuel 0 (rest.after tokens) = .ok (e, rest) := by
  have some := derives.length_pos
  obtain ⟨left, spare, ran⟩ := (reads_of_derives derives).expression rest stop fuel 0 ahead
    (ahead.stops free _) (Nat.zero_le 1) enough
  obtain ⟨left, rfl⟩ : ∃ less, left = less + 1 := ⟨left - 1, by omega⟩
  rw [ran, operators_of_stops ahead (ahead.stops free 0)]

/-- Before a token that no operator is written with, reading an expression takes exactly the tokens
that derive it. -/
theorem expression_eq_ok_iff {rest : Stream} (ended : rest.Ended) {stop : Token.Kind}
    (ahead : rest.Ahead stop) (free : ∀ row ∈ Operator.table, row.2.1 ≠ stop)
    {tokens : List Token} {e : Expr} {fuel : Nat} (enough : 2 * tokens.length ≤ fuel) :
    expression fuel 0 (rest.after tokens) = .ok (e, rest) ↔ Derives 1 tokens e := by
  constructor
  · intro ran
    exact (yields_expression fuel (rest.after tokens)).of_after ended ran
  · intro derives
    exact expression_of_derives derives ahead free enough

end Parser

/-! Expressions as they are written. -/

/-- How a number is written: the digits, and whether a sign stands before them. -/
structure Numeral where
  negative : Bool
  digits : String

/-- Whether a numeral is read as a number. -/
def Numeral.Denotes (numeral : Numeral) (x : Float) : Prop :=
  ∃ y, Number.read? numeral.digits.toList = some y ∧ x = if numeral.negative then -y else y

/-- What a token says wherever it stands. -/
def Token.spelling (token : Token) : Token.Kind × Option String := (token.kind, token.value?)

theorem Token.kind_of_spelling {token : Token} {kind : Token.Kind} {text? : Option String}
    (spelled : token.spelling = (kind, text?)) : token.kind = kind := congrArg Prod.fst spelled

theorem Token.value_of_spelling {token : Token} {kind : Token.Kind} {text : String}
    (spelled : token.spelling = (kind, some text)) : token.value = text := by
  have carried : token.value? = some text := congrArg Prod.snd spelled
  rw [Token.value, carried, Option.getD_some]

namespace Operator

def arity : Operator → Nat
  | not => 1
  | _ => 2

/-- The level of the expressions that an operator makes. -/
def level (op : Operator) : Nat := ((table.find? fun row => row.2.2 == op).map (·.1)).getD 8

/-- The token that writes an operator. -/
def sign (op : Operator) : Token.Kind :=
  ((table.find? fun row => row.2.2 == op).map (·.2.1)).getD .not

/-- The levels of an operator's operands. -/
def operandLevels : Operator → List Nat
  | not => [8]
  | op => [leftLevel op.level, rightLevel op.level]

/-- An operator with its operands, each written out. -/
def place (op : Operator) (operands : List (List (Token.Kind × Option String))) :
    List (Token.Kind × Option String) :=
  match op with
  | not => (.not, none) :: operands.flatten
  | op => [(op.sign, none)].intercalate operands

theorem level_pos (op : Operator) : 0 < op.level := by
  cases op <;> decide

variable {op : Operator}

theorem arity_eq_two (binary : op ≠ not) : op.arity = 2 := by
  cases op with
  | not => exact absurd rfl binary
  | _ => rfl

theorem row_mem_table (binary : op ≠ not) : (op.level, op.sign, op) ∈ table := by
  cases op with
  | not => exact absurd rfl binary
  | _ => decide

theorem operandLevels_eq (binary : op ≠ not) :
    op.operandLevels = [leftLevel op.level, rightLevel op.level] := by
  cases op with
  | not => exact absurd rfl binary
  | _ => rfl

theorem place_pair (binary : op ≠ not) (left right : List (Token.Kind × Option String)) :
    op.place [left, right] = left ++ (op.sign, none) :: right := by
  cases op with
  | not => exact absurd rfl binary
  | _ => simp [place, List.intercalate]

end Operator

namespace Value

/-- A literal, given how numbers are written. -/
def spelled (numeral : Float → Numeral) : Value → List (Token.Kind × Option String)
  | null => [(.null, none)]
  | bool b => [(.boolean, some (if b then "true" else "false"))]
  | number x =>
      let digits := [(.number, some (numeral x).digits)]
      if (numeral x).negative then (.minus, none) :: digits else digits
  | string s => [(.string, some s)]

end Value

namespace Expr

mutual

/-- Whether every operator has as many operands as it takes and every literal is of its kind. -/
def isShaped : Expr → Bool
  | .literal kind value => value.kind == kind
  | .variable _ => true
  | .operation op operands => operands.length == op.arity && allShaped operands

def allShaped : List Expr → Bool
  | [] => true
  | e :: rest => e.isShaped && allShaped rest

end

theorem allShaped_iff {operands : List Expr} :
    allShaped operands ↔ ∀ e ∈ operands, e.isShaped := by
  induction operands with
  | nil => simp [allShaped]
  | cons e rest ih => simp [allShaped, ih]

mutual

/-- The numbers among the literals. -/
def numbers : Expr → List Float
  | .literal _ (.number x) => [x]
  | .literal _ _ => []
  | .variable _ => []
  | .operation _ operands => allNumbers operands

def allNumbers : List Expr → List Float
  | [] => []
  | e :: rest => e.numbers ++ allNumbers rest

end

theorem mem_allNumbers {operands : List Expr} {x : Float} :
    x ∈ allNumbers operands ↔ ∃ e ∈ operands, x ∈ e.numbers := by
  induction operands with
  | nil => simp [allNumbers]
  | cons e rest ih => simp [allNumbers, ih]

mutual

/-- An expression where one of at least some level is wanted: in brackets if its operator is of a
lower one, and without them otherwise. -/
def spelled (numeral : Float → Numeral) : Nat → Expr → List (Token.Kind × Option String)
  | _, .literal _ value => value.spelled numeral
  | _, .variable name => [(.identifier, some name)]
  | least, .operation op operands =>
      let written := op.place (allSpelled numeral op.operandLevels operands)
      if op.level < least then
        (.bracketOpen, none) :: (written ++ [(.bracketClose, none)])
      else written

/-- Each operand at its own level. -/
def allSpelled (numeral : Float → Numeral) :
    List Nat → List Expr → List (List (Token.Kind × Option String))
  | _, [] => []
  | levels, e :: rest => spelled numeral (levels.headD 0) e :: allSpelled numeral levels.tail rest

end

/-! What is written is derived. -/

theorem derives_of_value {numeral : Float → Numeral} {value : Value} {tokens : List Token}
    (denotes : ∀ x, value = .number x → (numeral x).Denotes x)
    (written : tokens.map Token.spelling = value.spelled numeral) :
    Derives 8 tokens (.constant value) := by
  cases value with
  | null =>
      obtain ⟨token, rfl, same⟩ := List.map_eq_singleton_iff.1 written
      exact .null (Token.kind_of_spelling same)
  | bool b =>
      obtain ⟨token, rfl, same⟩ := List.map_eq_singleton_iff.1 written
      have truth : (token.value == "true") = b := by
        rw [Token.value_of_spelling same]
        cases b <;> decide
      exact truth ▸ .boolean (Token.kind_of_spelling same)
  | string s =>
      obtain ⟨token, rfl, same⟩ := List.map_eq_singleton_iff.1 written
      exact Token.value_of_spelling same ▸ .string (Token.kind_of_spelling same)
  | number x =>
      obtain ⟨y, reads, equal⟩ := denotes x rfl
      simp only [Value.spelled] at written
      split at written
      · next negative =>
          obtain ⟨sign, others, rfl, minus, more⟩ := List.map_eq_cons_iff.1 written
          obtain ⟨token, rfl, same⟩ := List.map_eq_singleton_iff.1 more
          rw [if_pos negative] at equal
          rw [← Token.value_of_spelling same] at reads
          exact equal ▸ .negative (Token.kind_of_spelling minus) (Token.kind_of_spelling same) reads
      · next positive =>
          obtain ⟨token, rfl, same⟩ := List.map_eq_singleton_iff.1 written
          rw [if_neg positive] at equal
          rw [← Token.value_of_spelling same] at reads
          exact equal ▸ .number (Token.kind_of_spelling same) reads

/-- Brackets around a lower level make an operand, and a higher level needs none. -/
theorem derives_of_bracketed {least level : Nat} {e : Expr} {tokens : List Token}
    {written : List (Token.Kind × Option String)} (positive : 0 < level) (bound : least ≤ 8)
    (inside : ∀ tokens, tokens.map Token.spelling = written → Derives level tokens e)
    (spelled : tokens.map Token.spelling = if level < least then
      (.bracketOpen, none) :: (written ++ [(.bracketClose, none)]) else written) :
    Derives least tokens e := by
  split at spelled
  · next low =>
      obtain ⟨opening, others, rfl, opens, more⟩ := List.map_eq_cons_iff.1 spelled
      obtain ⟨inner, last, rfl, same, ends⟩ := List.map_eq_append_iff.1 more
      obtain ⟨closing, rfl, closes⟩ := List.map_eq_singleton_iff.1 ends
      have bracketed := Derives.bracket (Token.kind_of_spelling opens)
        (Token.kind_of_spelling closes) ((inside inner same).lower positive)
      exact bracketed.lower bound
  · next high => exact (inside tokens spelled).lower (Nat.not_lt.1 high)

/-- An operator between operands that are derived at their levels. -/
theorem derives_of_place {numeral : Float → Numeral} {op : Operator} {operands : List Expr}
    (count : operands.length = op.arity)
    (each : ∀ e ∈ operands, ∀ least tokens, least ≤ 8 →
      tokens.map Token.spelling = e.spelled numeral least → Derives least tokens e)
    (tokens : List Token)
    (written : tokens.map Token.spelling =
      op.place (allSpelled numeral op.operandLevels operands)) :
    Derives op.level tokens (.operation op operands) := by
  by_cases unary : op = .not
  · subst unary
    obtain ⟨e, rfl⟩ := List.length_eq_one_iff.1 count
    obtain ⟨sign, inner, rfl, signed, more⟩ := List.map_eq_cons_iff.1 written
    have same : inner.map Token.spelling = e.spelled numeral 8 := by
      simpa [allSpelled, Operator.operandLevels] using more
    exact .not (Token.kind_of_spelling signed)
      (each e List.mem_cons_self 8 inner (Nat.le_refl 8) same)
  · have row := Operator.row_mem_table unary
    obtain ⟨l, r, rfl⟩ := List.length_eq_two.1 (count.trans (Operator.arity_eq_two unary))
    have between : tokens.map Token.spelling =
        l.spelled numeral (Operator.leftLevel op.level) ++
          (op.sign, none) :: r.spelled numeral (Operator.rightLevel op.level) := by
      rw [written, Operator.operandLevels_eq unary]
      exact Operator.place_pair unary _ _
    obtain ⟨before, others, rfl, first, more⟩ := List.map_eq_append_iff.1 between
    obtain ⟨sign, after, rfl, signed, second⟩ := List.map_eq_cons_iff.1 more
    rw [← Token.kind_of_spelling signed] at row
    have high := (Operator.level_lt_of_mem_table row).2
    have below : Operator.leftLevel op.level ≤ 8 := Operator.leftLevel_le (Nat.lt_succ_of_lt high)
    have above := Operator.rightLevel_le op.level
    have left := each l List.mem_cons_self _ before below first
    have right := each r (List.mem_cons_of_mem l List.mem_cons_self) _ after (by omega) second
    exact .binary row left right

theorem derives_of_spelled (numeral : Float → Numeral) (e : Expr) (shaped : e.isShaped)
    (denotes : ∀ x ∈ e.numbers, (numeral x).Denotes x) (least : Nat) (tokens : List Token)
    (bound : least ≤ 8) (written : tokens.map Token.spelling = e.spelled numeral least) :
    Derives least tokens e := by
  match e with
  | .literal kind value =>
      obtain rfl : value.kind = kind := by simpa [isShaped] using shaped
      refine (derives_of_value ?_ written).lower bound
      rintro x rfl
      exact denotes x List.mem_cons_self
  | .variable name =>
      obtain ⟨token, rfl, same⟩ := List.map_eq_singleton_iff.1 written
      exact Token.value_of_spelling same ▸ (Derives.name (Token.kind_of_spelling same)).lower bound
  | .operation op operands =>
      obtain ⟨count, all⟩ : operands.length = op.arity ∧ ∀ e ∈ operands, e.isShaped := by
        simpa [isShaped, allShaped_iff] using shaped
      refine derives_of_bracketed op.level_pos bound (derives_of_place count ?_) written
      intro e member
      have smaller := List.sizeOf_lt_of_mem member
      refine derives_of_spelled numeral e (all e member) ?_
      intro x found
      exact denotes x (mem_allNumbers.2 ⟨e, member, found⟩)
termination_by e

end Expr

namespace Parser

open Dialogue.Expr (Derives)

/-- Before a token that writes no operator, exactly the tokens that derive an expression are read as
it. They derive no other, and written with brackets only where the levels need them, every
expression is read back. -/
theorem expression_exact {rest : Stream} (ended : rest.Ended) {stop : Token.Kind}
    (ahead : rest.Ahead stop) (free : ∀ row ∈ Operator.table, row.2.1 ≠ stop) :
    (∀ tokens e fuel, 2 * tokens.length ≤ fuel →
      (expression fuel 0 (rest.after tokens) = .ok (e, rest) ↔ Derives 1 tokens e)) ∧
    (∀ tokens e other, Derives 1 tokens e → Derives 1 tokens other → e = other) ∧
    ∀ (numeral : Float → Numeral) e tokens fuel, e.isShaped →
      (∀ x ∈ e.numbers, (numeral x).Denotes x) →
      tokens.map Token.spelling = e.spelled numeral 1 → 2 * tokens.length ≤ fuel →
      expression fuel 0 (rest.after tokens) = .ok (e, rest) := by
  have exact : ∀ tokens e fuel, 2 * tokens.length ≤ fuel →
      (expression fuel 0 (rest.after tokens) = .ok (e, rest) ↔ Derives 1 tokens e) :=
    fun tokens e fuel enough => expression_eq_ok_iff ended ahead free enough
  refine ⟨exact, ?_, ?_⟩
  · intro tokens e other first second
    have one := (exact tokens e _ (Nat.le_refl _)).2 first
    have two := (exact tokens other _ (Nat.le_refl _)).2 second
    exact (Prod.mk.inj (Except.ok.inj (one.symm.trans two))).1
  · intro numeral e tokens fuel shaped denotes written enough
    have derives := Expr.derives_of_spelled numeral e shaped denotes 1 tokens (by decide) written
    exact (exact tokens e fuel enough).2 derives

/-- Written `not a - -2 ^ c ^ d * (e or "x")`, before a brace. -/
theorem expression_exact_mixed :
    let two := Number.nearest 2 0
    let e : Expr := .binary .subtract (.unary .not (.variable "a"))
      (.binary .multiply
        (.binary .power (.constant (.number (-two)))
          (.binary .power (.variable "c") (.variable "d")))
        (.binary .or (.variable "e") (.constant (.string "x"))))
    let tokens : List Token :=
      [⟨.not, 0, 1, none⟩, ⟨.identifier, 0, 5, some "a"⟩, ⟨.minus, 0, 7, none⟩,
       ⟨.minus, 0, 9, none⟩, ⟨.number, 0, 10, some "2"⟩, ⟨.power, 0, 12, none⟩,
       ⟨.identifier, 0, 14, some "c"⟩, ⟨.power, 0, 16, none⟩, ⟨.identifier, 0, 18, some "d"⟩,
       ⟨.times, 0, 20, none⟩,
       ⟨.bracketOpen, 0, 22, none⟩, ⟨.identifier, 0, 23, some "e"⟩, ⟨.or, 0, 25, none⟩,
       ⟨.string, 0, 28, some "x"⟩, ⟨.bracketClose, 0, 31, none⟩]
    let rest : Stream := ⟨[⟨.braceClose, 0, 32, none⟩], .ok ⟨.eof, 0, 33, none⟩⟩
    rest.Ended ∧ rest.Ahead .braceClose ∧ (∀ row ∈ Operator.table, row.2.1 ≠ .braceClose) ∧
      e.isShaped ∧ (∀ x ∈ e.numbers, Numeral.Denotes ⟨true, "2"⟩ x) ∧
      tokens.map Token.spelling = e.spelled (fun _ => ⟨true, "2"⟩) 1 ∧ Derives 1 tokens e ∧
      expression 30 0 (rest.after tokens) = .ok (e, rest) := by
  intro two e tokens rest
  have ended : rest.Ended := by
    rintro token ⟨⟩
    rfl
  have ahead : rest.Ahead .braceClose := ⟨_, rfl, rfl⟩
  have free : ∀ row ∈ Operator.table, row.2.1 ≠ .braceClose := by decide
  have shaped : e.isShaped := by decide
  have denotes : ∀ x ∈ e.numbers, Numeral.Denotes ⟨true, "2"⟩ x := by
    intro x member
    obtain rfl : x = -two := List.mem_singleton.1 member
    exact ⟨two, rfl, rfl⟩
  have written : tokens.map Token.spelling = e.spelled (fun _ => ⟨true, "2"⟩) 1 := by rfl
  obtain ⟨exact, -, back⟩ := expression_exact ended ahead free
  have ran := back (fun _ => ⟨true, "2"⟩) e tokens 30 shaped denotes written (by decide)
  exact ⟨ended, ahead, free, shaped, denotes, written, (exact tokens e 30 (by decide)).1 ran, ran⟩

end Parser
end Dialogue
