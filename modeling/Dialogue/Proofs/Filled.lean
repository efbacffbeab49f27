import Dialogue.Proofs.Grammar
import Dialogue.Session

/-! Lists of options without options. A list that a source writes has an option, unless its header is
followed by a block that begins with a guard and the guard governs no option. Then the list is empty,
what the guard governs stands right after it, and the text of the header is never shown. -/
namespace Dialogue

namespace Node

/-- A list without options, bare or under guards. -/
def isEmptyList : Node → Bool
  | .options _ _ items => items.isEmpty
  | .conditional _ body | .acting _ body => body.isEmptyList
  | _ => false

/-- What a guard governs or does. -/
def isGuarded : Node → Bool
  | .conditional .. | .acting .. | .act _ => true
  | _ => false

mutual

/-- Whether every list of options inside a node has an option, but for those right before what a
guard governs. -/
def isFilled : Node → Bool
  | .content nodes | .option _ _ _ nodes | .options _ _ nodes => allFilled nodes
  | .variations _ alternatives => eachFilled alternatives
  | .conditional _ body | .acting _ body => body.isFilled
  | .line .. | .divert _ | .act _ => true

def allFilled : List Node → Bool
  | [] => true
  | node :: rest =>
      node.isFilled && (!node.isEmptyList || rest.head?.any isGuarded) && allFilled rest

def eachFilled : List (List Node) → Bool
  | [] => true
  | nodes :: rest => allFilled nodes && eachFilled rest

end

theorem allFilled_cons_iff {node : Node} {rest : List Node} :
    allFilled (node :: rest) ↔ node.isFilled ∧
      (node.isEmptyList → ∃ next others, rest = next :: others ∧ next.isGuarded) ∧
      allFilled rest := by
  cases rest with
  | nil => cases empty : node.isEmptyList <;> simp [allFilled, empty]
  | cons next others => cases empty : node.isEmptyList <;> simp [allFilled, empty, and_assoc]

theorem allFilled_append {nodes others : List Node} (first : allFilled nodes)
    (second : allFilled others) : allFilled (nodes ++ others) := by
  induction nodes with
  | nil => exact second
  | cons node nodes ih =>
      obtain ⟨filled, followed, rest⟩ := allFilled_cons_iff.1 first
      refine allFilled_cons_iff.2 ⟨filled, ?_, ih rest⟩
      intro empty
      obtain ⟨next, more, rfl, guarded⟩ := followed empty
      exact ⟨next, more ++ others, rfl, guarded⟩

/-- A node that is not an empty list may stand anywhere. -/
theorem allFilled_cons {node : Node} {rest : List Node} (filled : node.isFilled)
    (other : node.isEmptyList = false) (others : allFilled rest) : allFilled (node :: rest) := by
  refine allFilled_cons_iff.2 ⟨filled, ?_, others⟩
  intro empty
  exact absurd (other.symm.trans empty) (by decide)

theorem isFilled_ofList {nodes : List Node} (filled : allFilled nodes) :
    (Node.ofList nodes).isFilled ∧ (Node.ofList nodes).isEmptyList = false := by
  unfold Node.ofList
  split
  · next node =>
      obtain ⟨alone, followed, -⟩ := allFilled_cons_iff.1 filled
      refine ⟨alone, Bool.eq_false_iff.2 fun empty => ?_⟩
      obtain ⟨next, others, none, -⟩ := followed empty
      cases none
  · exact ⟨filled, rfl⟩

end Node

namespace Guard

@[simp] theorem isFilled_wrap (guard : Guard) (node : Node) :
    (guard.wrap node).isFilled = node.isFilled := by
  cases guard <;> simp [wrap, Node.isFilled]

@[simp] theorem isEmptyList_wrap (guard : Guard) (node : Node) :
    (guard.wrap node).isEmptyList = node.isEmptyList := by
  cases guard <;> simp [wrap, Node.isEmptyList]

theorem isGuarded_wrap (guard : Guard) (node : Node) : (guard.wrap node).isGuarded := by
  cases guard <;> rfl

@[simp] theorem isFilled_wrapAll (guards : List Guard) (node : Node) :
    (wrapAll guards node).isFilled = node.isFilled := by
  induction guards with
  | nil => rfl
  | cons guard guards ih => exact (isFilled_wrap guard _).trans ih

@[simp] theorem isEmptyList_wrapAll (guards : List Guard) (node : Node) :
    (wrapAll guards node).isEmptyList = node.isEmptyList := by
  induction guards with
  | nil => rfl
  | cons guard guards ih => exact (isEmptyList_wrap guard _).trans ih

/-- A statement that is not an empty list, with the guards at the end of its line. -/
theorem allFilled_wrapAll {guards : List Guard} {node : Node} (filled : node.isFilled)
    (other : node.isEmptyList = false) : Node.allFilled [wrapAll guards node] := by
  refine Node.allFilled_cons ?_ ?_ rfl
  · rwa [isFilled_wrapAll]
  · rwa [isEmptyList_wrapAll]

end Guard

theorem Node.Diverts.allFilled {tokens : List Token} {node : Node} (diverts : Diverts tokens node) :
    Node.allFilled [node] := by
  cases diverts with
  | mk kind trailing => exact Guard.allFilled_wrapAll (by simp [Node.isFilled]) rfl

theorem Caption.Labels.allFilled {tokens : List Token} {caption : Caption} {shown : List Node}
    (labels : Labels tokens caption shown) : Node.allFilled shown := by
  cases labels with
  | «open» inside => exact Node.allFilled_cons (by simp [Caption.line, Node.isFilled]) rfl rfl
  | closed => rfl
  | shown => exact Node.allFilled_cons (by simp [Node.isFilled]) rfl rfl

def Document.isFilled (d : Document) : Bool :=
  Node.allFilled d.content && d.blocks.all fun block => Node.allFilled block.content

/-! What is derived is filled. -/

def Governed.Filled : Governed → Prop
  | item node => node.isFilled ∧ node.isEmptyList = false
  | statement node => node.isFilled ∧ node.isEmptyList = false ∧ node.isGuarded

theorem Governed.Filled.wrap {result : Governed} (filled : result.Filled) (guard : Guard) :
    (result.wrap guard).Filled := by
  cases result with
  | item node => simpa [Governed.wrap, Filled] using filled
  | statement node =>
      simpa [Governed.wrap, Filled, guard.isGuarded_wrap] using And.intro filled.1 filled.2.1

namespace Phrase

open Node (allFilled)

/-- Whether the lists inside what a phrase writes have options. Options that end without one leave a
statement, if any, that a guard governs. -/
def Filled : Phrase → Prop
  | .lines nodes | .indented nodes | .body nodes | .nested nodes | .statement nodes =>
      allFilled nodes
  | .headed listed rest =>
      allFilled listed ∧ allFilled rest ∧
        (listed = [] → ∃ node others, rest = node :: others ∧ node.isGuarded)
  | .items listed rest =>
      allFilled listed ∧ allFilled rest ∧ (listed = [] → ∀ node ∈ rest, node.isGuarded)
  | .option node => node.isFilled ∧ node.isEmptyList = false
  | .alternatives all => Node.eachFilled all
  | .guarded result | .governed _ result => result.Filled

variable {tokens : List Token} {listed rest : List Node}

theorem Derives.starts_of_guarded {result : Governed} (derives : Derives tokens (.guarded result)) :
    Token.Starts [.braceOpen] tokens := by
  cases derives with
  | guarded head tail =>
      cases head with
      | mk opens inside closes => exact ⟨_, _, rfl, List.mem_singleton.2 opens⟩

/-- What starts with the mark of an option has an option. -/
theorem Derives.items_ne_nil (derives : Derives tokens (.items listed rest))
    (starts : Token.Starts Parser.optionKinds tokens) : listed ≠ [] := by
  obtain ⟨token, others, same, member⟩ := starts
  cases derives with
  | noItem => cases same
  | item head tail => exact List.cons_ne_nil _ _
  | guardedItem head tail => exact List.cons_ne_nil _ _
  | ended head =>
      obtain ⟨brace, more, again, kind⟩ := head.starts_of_guarded
      obtain ⟨rfl, -⟩ := List.cons.inj (same.symm.trans again)
      rw [List.mem_singleton.1 kind] at member
      exact absurd member (by decide)
  | itemBreak kind tail =>
      obtain ⟨rfl, -⟩ := List.cons.inj same
      rw [kind] at member
      exact absurd member (by decide)

/-- What starts with the mark of an option or with a guard has an option, or leaves what the guard
governs. -/
theorem Derives.rest_ne_nil (derives : Derives tokens (.items listed rest))
    (starts : Token.Starts (Parser.optionKinds ++ [.braceOpen]) tokens) (empty : listed = []) :
    rest ≠ [] := by
  obtain ⟨token, others, same, member⟩ := starts
  cases derives with
  | noItem => cases same
  | item head tail => cases empty
  | guardedItem head tail => cases empty
  | ended head => exact List.cons_ne_nil _ _
  | itemBreak kind tail =>
      obtain ⟨rfl, -⟩ := List.cons.inj same
      rw [kind] at member
      exact absurd member (by decide)

/-- A list with its header, and what stands after it. -/
theorem allFilled_options {name : Option String} {marks : Marks} (guards : List Guard)
    (inside : allFilled listed) (others : allFilled rest)
    (followed : listed = [] → ∃ node more, rest = node :: more ∧ node.isGuarded) :
    allFilled (Guard.wrapAll guards (.options name marks listed) :: rest) := by
  refine Node.allFilled_cons_iff.2 ⟨?_, ?_, others⟩
  · simpa [Node.isFilled] using inside
  · intro empty
    exact followed (by simpa [Node.isEmptyList] using empty)

theorem Derives.followed (derives : Derives tokens (.items listed rest))
    (starts : Token.Starts (Parser.optionKinds ++ [.braceOpen]) tokens)
    (guarded : listed = [] → ∀ node ∈ rest, node.isGuarded) (empty : listed = []) :
    ∃ node more, rest = node :: more ∧ node.isGuarded := by
  obtain ⟨node, more, rfl⟩ := List.exists_cons_of_ne_nil (derives.rest_ne_nil starts empty)
  exact ⟨node, more, rfl, guarded empty node List.mem_cons_self⟩

theorem Derives.filled {phrase : Phrase} (derives : Derives tokens phrase) : phrase.Filled := by
  induction derives with
  | nil => rfl
  | statement head tail ihHead ihTail => exact Node.allFilled_append ihHead ihTail
  | list head starts tail ihHead ihTail =>
      refine allFilled_options [] ihHead.1 (Node.allFilled_append ihHead.2.1 ihTail) ?_
      intro empty
      exact absurd empty (head.items_ne_nil starts)
  | guardedList head middle tail ihHead ihMiddle ihTail =>
      refine allFilled_options [] ?_ (Node.allFilled_append ihMiddle.2.1 ihTail) nofun
      exact Node.allFilled_cons ihHead.1 ihHead.2 ihMiddle.1
  | guardedStatement head tail ihHead ihTail => exact Node.allFilled_cons ihHead.1 ihHead.2.1 ihTail
  | lineBreak kind tail ih => exact ih
  | indented opens inside closes ih => exact ih
  | deeper inside ih => exact ih
  | level inside ih => exact ih
  | leaf => rfl
  | nested inside ih => exact ih
  | line text trailing | longLine text trailing =>
      exact Guard.allFilled_wrapAll (by simp [Caption.line, Node.isFilled]) rfl
  | headedLine text trailing opens list ih => exact allFilled_options _ ih.1 ih.2.1 ih.2.2
  | headed list starts after closes ihList ihAfter =>
      refine ⟨ihList.1, Node.allFilled_append ihList.2.1 ihAfter, ?_⟩
      intro empty
      obtain ⟨node, more, rfl, guarded⟩ := list.followed starts ihList.2.2 empty
      exact ⟨node, _, rfl, guarded⟩
  | start kind head ends list starts ih =>
      exact allFilled_options [] ih.1 ih.2.1 (list.followed starts ih.2.2)
  | deepStart kind head ends opens list ih => exact allFilled_options [] ih.1 ih.2.1 ih.2.2
  | divert diverts => exact diverts.allFilled
  | variations opens written inside ends ih => exact Node.allFilled_cons ih rfl rfl
  | noItem => exact ⟨rfl, rfl, fun _ => List.forall_mem_nil _⟩
  | item head tail ihHead ihTail =>
      exact ⟨Node.allFilled_cons ihHead.1 ihHead.2 ihTail.1, ihTail.2.1, nofun⟩
  | guardedItem head tail ihHead ihTail =>
      exact ⟨Node.allFilled_cons ihHead.1 ihHead.2 ihTail.1, ihTail.2.1, nofun⟩
  | ended head ih =>
      refine ⟨rfl, Node.allFilled_cons ih.1 ih.2.1 rfl, fun _ => ?_⟩
      exact List.forall_mem_singleton.2 ih.2.2
  | itemBreak kind tail ih => exact ih
  | @option sign first second third fourth fifth before after caption shown away inner kind guards
      label trailing leaves content ih =>
      have away : allFilled away := by
        obtain ⟨-, rfl⟩ | ⟨node, rfl, diverts⟩ := leaves
        · rfl
        · exact diverts.allFilled
      have filled := Node.allFilled_append (Node.allFilled_append label.allFilled away) ih
      simpa [Filled, Node.isFilled, Node.isEmptyList] using filled
  | close kind => rfl
  | gap kind tail ih => exact ih
  | alternative kind head tail ihHead ihTail =>
      simpa [Filled, Node.eachFilled] using And.intro ihHead ihTail
  | guarded head tail ih => exact ih
  | act ends => exact ⟨rfl, rfl, rfl⟩
  | block kind inside ih => exact ⟨ih, rfl, rfl⟩
  | governedBreak kind rest ih => exact ih
  | governedOption inside ih => simpa [Filled, Governed.Filled] using ih
  | governedGuard inside ih => exact ih.wrap _
  | governedStatement inside ih =>
      simpa [Filled, Governed.Filled, Guard.isGuarded_wrap] using Node.isFilled_ofList ih

end Phrase

theorem Block.Derives.filled {tokens : List Token} {blocks : List Block}
    (derives : Derives tokens blocks) :
    blocks.all fun block => Node.allFilled block.content := by
  induction derives with
  | nil => rfl
  | cons kind content others ih =>
      rw [List.all_cons, Bool.and_eq_true]
      exact ⟨content.filled, ih⟩

namespace Document

theorem Derives.isFilled {tokens : List Token} {d : Document} (derives : Derives tokens d) :
    d.isFilled := by
  cases derives with
  | mk content named =>
      rw [Document.isFilled, Bool.and_eq_true]
      exact ⟨content.filled, named.filled⟩

/-- Every list of options in what a source writes has an option, but for those right before what a
guard governs. -/
theorem isFilled_of_parse {source : String} {d : Document} (parsed : parse source = .ok d) :
    d.isFilled :=
  (derives_of_parse parsed).isFilled

/-- A header over a guard that governs no option. -/
def greeting : String := "Hello\n  \x7b trigger rain \x7d\n"

/-- What is read of it: the list is empty. -/
def greeted : Document where
  content := [.options (some "Hello") {} [], .act (.trigger ["rain"])]

theorem stream_greeting : Stream.ofSource greeting =
    ⟨[⟨.text, 0, 0, some "Hello"⟩, ⟨.indent, 1, 0, none⟩, ⟨.braceOpen, 1, 2, none⟩,
      ⟨.trigger, 1, 4, none⟩, ⟨.identifier, 1, 12, some "rain"⟩, ⟨.braceClose, 1, 17, none⟩,
      ⟨.lineBreak, 1, 18, none⟩, ⟨.dedent, 2, 0, none⟩], .ok ⟨.eof, 2, 0, none⟩⟩ := by
  have tokens : (Stream.ofSource greeting).tokens =
      [⟨.text, 0, 0, some "Hello"⟩, ⟨.indent, 1, 0, none⟩, ⟨.braceOpen, 1, 2, none⟩,
        ⟨.trigger, 1, 4, none⟩, ⟨.identifier, 1, 12, some "rain"⟩, ⟨.braceClose, 1, 17, none⟩,
        ⟨.lineBreak, 1, 18, none⟩, ⟨.dedent, 2, 0, none⟩] := by decide +kernel
  have last : (Stream.ofSource greeting).last = .ok ⟨.eof, 2, 0, none⟩ := by decide +kernel
  rw [← tokens, ← last]

theorem parse_greeting : parse greeting = .ok greeted := by
  rw [parse, stream_greeting]
  rfl

/-- The empty list stands right before what the guard does. -/
theorem isFilled_of_parse_greeting :
    parse greeting = .ok greeted ∧ greeted.content.map Node.isEmptyList = [true, false] ∧
      greeted.content.map Node.isGuarded = [false, true] ∧ greeted.isFilled :=
  ⟨parse_greeting, rfl, rfl, isFilled_of_parse parse_greeting⟩

/-- A line may head a list without options: it is read, what stands under it is done, and its text
is never told. -/
theorem header_without_options :
    parse greeting = .ok greeted ∧
      greeted.content.head? = some (.options (some "Hello") {} []) ∧
      ((Session.ofScript (Script.ofDocument greeted) 1).next 4).result = .finished ∧
      ((Session.ofScript (Script.ofDocument greeted) 1).next 4).events = [.triggered "rain"] :=
  ⟨parse_greeting, rfl, rfl, rfl⟩

end Document
end Dialogue
