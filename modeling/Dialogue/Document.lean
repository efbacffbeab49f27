import Dialogue.Expr
import Dialogue.VariationMode

/-! The document tree: what a dialogue source says. -/
namespace Dialogue

/-- What may be written beside a text: who says it, its id and its tags. -/
structure Marks where
  speaker : Option String := none
  id : Option String := none
  tags : List String := []
deriving DecidableEq

inductive OptionMode where
  /-- gone after it was chosen -/
  | once
  /-- stays -/
  | sticky
  /-- offered when nothing else is left -/
  | fallback
deriving DecidableEq

namespace OptionMode

def all : List OptionMode := [once, sticky, fallback]

def name : OptionMode → String
  | once => "once"
  | sticky => "sticky"
  | fallback => "fallback"

def ofName? (text : String) : Option OptionMode := all.find? fun mode => mode.name == text

@[simp] theorem ofName?_name (mode : OptionMode) : ofName? mode.name = some mode := by
  cases mode <;> decide

end OptionMode

/-- A node of the tree. The items of a list of options are options, bare or under conditions and
actions. -/
inductive Node where
  | content (nodes : List Node)
  | line (text : String) (marks : Marks)
  | options (name : Option String) (marks : Marks) (items : List Node)
  | option (name : String) (mode : OptionMode) (marks : Marks) (content : List Node)
  | divert (target : String)
  | variations (mode : VariationMode) (alternatives : List (List Node))
  /-- the body counts only while the condition holds -/
  | conditional (condition : Expr) (body : Node)
  /-- the action is done before the body -/
  | acting (action : Action) (body : Node)
  | act (action : Action)

instance : Inhabited Node := ⟨.content []⟩

structure Block where
  name : String
  content : List Node

structure Document where
  content : List Node := []
  blocks : List Block := []

/-- Where a divert leads. -/
inductive Target where
  /-- back to where the enclosing list or block was entered -/
  | parent
  /-- to the end of the dialogue -/
  | finish
  | block (name : String)
deriving DecidableEq

namespace Target

def parentName : String := "<parent>"

def finishName : String := "<end>"

def ofName (name : String) : Target :=
  if name == parentName then parent else if name == finishName then finish else block name

/-- The target of a written divert: `END` is the end of the dialogue. -/
def written (word : String) : String := if word == "END" then finishName else word

end Target
end Dialogue
