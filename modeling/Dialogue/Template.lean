import Dialogue.Text.Word
import Dialogue.Value

/-! Texts with placeholders: a name between percent signs stands for a variable. -/
namespace Dialogue

namespace Template

inductive Segment where
  | literal (text : List Char)
  | placeholder (name : List Char)
deriving DecidableEq

/-- The name between the percent sign already read and the next, if it is a name. -/
def name? (rest : List Char) : Option (List Char) :=
  let name := rest.takeWhile Text.isWord
  if !name.isEmpty && (rest.drop name.length).head? == some '%' then some name else none

/-- Splits a text from left to right: a placeholder wherever one starts, a percent sign that
starts none, and what stands before the next percent sign. -/
def segments : List Char → List Segment
  | [] => []
  | c :: rest =>
      if c == '%' then
        match name? rest with
        | some name => .placeholder name :: segments (rest.drop (name.length + 1))
        | none => .literal ['%'] :: segments rest
      else
        let run := rest.takeWhile fun d => d != '%'
        .literal (c :: run) :: segments (rest.drop run.length)
termination_by text => text.length
decreasing_by all_goals simp only [List.length_cons, List.length_drop]; omega

/-- A placeholder shows its variable, and nothing for null. -/
def Segment.shown (lookup : String → Value) : Segment → List Char
  | literal text => text
  | placeholder name =>
      match lookup (String.ofList name) with
      | .null => []
      | value => value.text.toList

/-- The text with every placeholder filled in. What is filled in is not looked at again. -/
def fill (lookup : String → Value) (text : String) : String :=
  String.ofList ((segments text.toList).flatMap (·.shown lookup))

end Template
end Dialogue
