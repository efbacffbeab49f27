import Dialogue.Proofs.Grammar
import Dialogue.Proofs.Meaning
import Dialogue.Proofs.Stack

/-! Well-formed documents. What a source writes is well formed: options stand in lists and nowhere
else, several nodes in the place of one stand only under a guard, every operator has its operands,
no list of assignments or events is empty, and every divert names a target that can be written. So
playing it never meets an item that is no option, an option outside of a list, or an operator
without an operand. -/
namespace Dialogue

namespace Assignment

def isShaped : Assignment → Bool
  | store _ _ value => value.isShaped
  | chain _ _ next => next.isShaped

/-- The expression whose value is assigned. -/
def value : Assignment → Expr
  | store _ _ value => value
  | chain _ _ next => next.value

end Assignment

namespace Action

def isShaped : Action → Bool
  | assign assignments => !assignments.isEmpty && assignments.all Assignment.isShaped
  | trigger events => !events.isEmpty

def expressions : Action → List Expr
  | assign assignments => assignments.map Assignment.value
  | trigger _ => []

end Action

/-- The targets that can be written: the parent, the end, and words but for the one that writes the
end. -/
def Target.isWritten (target : String) : Bool :=
  target == parentName || target == finishName ||
    target != "END" && target.toList.all Text.isWord

namespace Node

/-- Where a node stands. -/
inductive Role where
  /-- one after the other with others -/
  | statement
  /-- under a guard -/
  | governed
  /-- in a list of options -/
  | item
deriving DecidableEq

/-- Where what is under a guard stands. -/
def Role.under : Role → Role
  | statement | governed => governed
  | item => item

mutual

/-- Whether a node is well formed where it stands. -/
def fits (role : Role) : Node → Bool
  | .content nodes => role == .governed && allFit .statement nodes
  | .line .. => role != .item
  | .options _ _ items => role != .item && allFit .item items
  | .option _ _ _ nodes => role == .item && allFit .statement nodes
  | .divert target => role != .item && Target.isWritten target
  | .variations _ alternatives => role != .item && eachFit alternatives
  | .conditional condition body => condition.isShaped && body.fits role.under
  | .acting action body => action.isShaped && body.fits role.under
  | .act action => role != .item && action.isShaped

def allFit (role : Role) : List Node → Bool
  | [] => true
  | node :: rest => node.fits role && allFit role rest

def eachFit : List (List Node) → Bool
  | [] => true
  | nodes :: rest => allFit .statement nodes && eachFit rest

end

@[simp] theorem allFit_append {role : Role} (nodes others : List Node) :
    allFit role (nodes ++ others) = (allFit role nodes && allFit role others) := by
  induction nodes with
  | nil => rfl
  | cons node nodes ih => simp [allFit, ih, Bool.and_assoc]

theorem allFit_iff {role : Role} {nodes : List Node} :
    allFit role nodes ↔ ∀ node ∈ nodes, node.fits role := by
  induction nodes with
  | nil => simp [allFit]
  | cons node nodes ih => simp [allFit, ih]

theorem eachFit_iff {alternatives : List (List Node)} :
    eachFit alternatives ↔ ∀ nodes ∈ alternatives, allFit .statement nodes := by
  induction alternatives with
  | nil => simp [eachFit]
  | cons nodes rest ih => simp [eachFit, ih]

/-- What stands alone may stand under a guard. -/
theorem fits_under {role : Role} {node : Node} (fits : node.fits role) : node.fits role.under := by
  cases role with
  | statement => cases node <;> simp_all [Node.fits, Role.under]
  | governed => exact fits
  | item => exact fits

end Node

def Document.isWellFormed (d : Document) : Bool :=
  Node.allFit .statement d.content &&
    d.blocks.all fun block => Node.allFit .statement block.content

/-! What is derived is well formed. -/

theorem Operator.arity_of_mem_table {level : Nat} {kind : Token.Kind} {op : Operator}
    (row : (level, kind, op) ∈ table) : op.arity = 2 := by
  have two : ∀ row ∈ table, row.2.2.arity = 2 := by decide
  exact two _ row

namespace Expr

theorem isShaped_constant (value : Value) : (constant value).isShaped := by
  simp [constant, isShaped]

theorem isShaped_binary {level : Nat} {kind : Token.Kind} {op : Operator} {l r : Expr}
    (row : (level, kind, op) ∈ Operator.table) (left : l.isShaped) (right : r.isShaped) :
    (binary op l r).isShaped := by
  simp [binary, isShaped, allShaped, Operator.arity_of_mem_table row, left, right]

theorem Derives.isShaped {level : Nat} {tokens : List Token} {e : Expr}
    (derives : Derives level tokens e) : e.isShaped := by
  induction derives with
  | number | negative | string | boolean | null => exact isShaped_constant _
  | name => rfl
  | not kind inner ih => simpa [unary, Expr.isShaped, allShaped, Operator.arity] using ih
  | bracket opens closes inner ih => exact ih
  | higher above ih => exact ih
  | left row grouping first second ihFirst ihSecond => exact isShaped_binary row ihFirst ihSecond
  | right row first second ihFirst ihSecond => exact isShaped_binary row ihFirst ihSecond

end Expr

namespace Assignment

theorem Assigned.isShaped {name : String} {update : Update} {tokens : List Token} {a : Assignment}
    (assigned : Assigned name update tokens a) : a.isShaped := by
  induction assigned with
  | store value => exact value.isShaped
  | chain target kind rest ih => exact ih

theorem Derives.isShaped {tokens : List Token} {a : Assignment} (derives : Derives tokens a) :
    a.isShaped := by
  cases derives with
  | mk named kind assigned => exact assigned.isShaped

theorem isShaped_of_listed {tokens : List Token} {all : List Assignment}
    (listed : Token.Listed Derives tokens all) : all.all Assignment.isShaped := by
  induction listed with
  | nil => rfl
  | cons kind first others ih => simp [first.isShaped, ih]

end Assignment

namespace Guard

def isShaped : Guard → Bool
  | action done => done.isShaped
  | condition held => held.isShaped

variable {tokens : List Token} {guard : Guard} {guards : List Guard}

theorem Inside.isShaped (inside : Inside tokens guard) : guard.isShaped := by
  cases inside with
  | assign kind head others =>
      simpa [Guard.isShaped, Action.isShaped, head.isShaped] using
        Assignment.isShaped_of_listed others
  | trigger kind head others => rfl
  | condition kind value => exact value.isShaped

theorem Derives.isShaped (derives : Derives tokens guard) : guard.isShaped := by
  cases derives with
  | mk opens inside closes => exact inside.isShaped

theorem DerivesAll.isShaped (derives : DerivesAll tokens guards) : guards.all Guard.isShaped := by
  induction derives with
  | nil => rfl
  | cons first others ih => simp [first.isShaped, ih]

theorem Trailing.isShaped (trailing : Trailing tokens guards) : guards.all Guard.isShaped := by
  cases trailing with
  | mk all ends => exact all.isShaped

theorem fits_wrap {role : Node.Role} {node : Node} (shaped : guard.isShaped)
    (fits : node.fits role.under) : (guard.wrap node).fits role := by
  cases guard with
  | action action => simpa [wrap, Node.fits, fits] using show action.isShaped from shaped
  | condition condition => simpa [wrap, Node.fits, fits] using show condition.isShaped from shaped

theorem fits_wrapAll {role : Node.Role} {node : Node} (shaped : guards.all isShaped)
    (fits : node.fits role) : (wrapAll guards node).fits role := by
  induction guards with
  | nil => exact fits
  | cons guard guards ih =>
      obtain ⟨first, others⟩ : guard.isShaped ∧ guards.all isShaped := by simpa using shaped
      exact fits_wrap first (Node.fits_under (ih others))

end Guard

theorem Node.fits_ofList {nodes : List Node} (fits : allFit .statement nodes) :
    (Node.ofList nodes).fits .governed := by
  unfold Node.ofList
  split
  · next node =>
      have alone : node.fits .statement := by simpa [allFit] using fits
      exact fits_under alone
  · simpa [Node.fits] using fits

theorem Token.isWritten_target {token : Token} (lexical : token.isLexical)
    (kind : token.kind ∈ [Kind.divert, .divertParent]) : Target.isWritten token.target := by
  obtain divert | parent : token.kind = .divert ∨ token.kind = .divertParent := by
    simpa using kind
  · have word : token.value.toList.all Text.isWord := by
      simpa [isLexical, divert] using lexical
    by_cases finish : token.value = "END"
    · simp [target, divert, Target.written, finish, Target.isWritten]
    · simp [target, divert, Target.written, finish, Target.isWritten, word]
  · simp [target, parent, Target.isWritten]

theorem Node.Diverts.fits {tokens : List Token} {node : Node} (diverts : Diverts tokens node)
    (lexical : tokens.all Token.isLexical) : node.fits .statement := by
  cases diverts with
  | mk kind trailing =>
      rw [List.all_cons, Bool.and_eq_true] at lexical
      have first := lexical.1
      refine Guard.fits_wrapAll trailing.isShaped ?_
      simp [Node.fits, Token.isWritten_target first kind]

theorem Caption.Labels.fits {tokens : List Token} {caption : Caption} {shown : List Node}
    (labels : Labels tokens caption shown) : Node.allFit .statement shown := by
  cases labels <;> rfl

def Governed.fits : Governed → Bool
  | item node => node.fits .item
  | statement node => node.fits .statement

namespace Phrase

/-- Whether what a phrase writes is well formed, given that the guard before it is. -/
def Fits : Phrase → Prop
  | .lines nodes | .indented nodes | .body nodes | .nested nodes | .statement nodes =>
      Node.allFit .statement nodes
  | .headed first rest | .items first rest =>
      Node.allFit .item first ∧ Node.allFit .statement rest
  | .option node => node.fits .item
  | .alternatives all => Node.eachFit all
  | .guarded result => result.fits
  | .governed guard result => guard.isShaped → result.fits

theorem Derives.fits {tokens : List Token} {phrase : Phrase} (derives : Derives tokens phrase)
    (lexical : tokens.all Token.isLexical) : phrase.Fits := by
  induction derives with
  | nil => rfl
  | statement head tail ihHead ihTail => simp_all [Fits]
  | list head starts tail ihHead ihTail => simp_all [Fits, Node.allFit, Node.fits]
  | guardedList head middle tail ihHead ihMiddle ihTail =>
      simp_all [Fits, Governed.fits, Node.allFit, Node.fits]
  | guardedStatement head tail ihHead ihTail => simp_all [Fits, Governed.fits, Node.allFit]
  | lineBreak kind tail ih => simp_all
  | indented opens inside closes ih => simp_all [Fits]
  | deeper inside ih => exact ih lexical
  | level inside ih => exact ih lexical
  | leaf => rfl
  | nested inside ih => exact ih lexical
  | @line first second caption guards text trailing =>
      have fits : caption.line.fits .statement := rfl
      simpa [Fits, Node.allFit] using Guard.fits_wrapAll trailing.isShaped fits
  | @longLine first second more opening closing caption whole guards text trailing =>
      have fits : whole.line.fits .statement := rfl
      simpa [Fits, Node.allFit] using Guard.fits_wrapAll trailing.isShaped fits
  | @headedLine first second more opening caption guards items rest text trailing opens list ih =>
      obtain ⟨inside, others⟩ : Node.allFit .item items ∧ Node.allFit .statement rest := by
        simp_all [Fits]
      have fits : (Node.options (some caption.text) caption.marks items).fits .statement := inside
      simpa [Fits, Node.allFit, others] using Guard.fits_wrapAll trailing.isShaped fits
  | headed list starts after closes ihList ihAfter => simp_all [Fits]
  | start kind head ends list starts ih => simp_all [Fits, Node.allFit, Node.fits]
  | deepStart kind head ends opens list ih => simp_all [Fits, Node.allFit, Node.fits]
  | divert diverts => simpa [Fits, Node.allFit] using diverts.fits lexical
  | variations opens written inside ends ih => simp_all [Fits, Node.allFit, Node.fits]
  | noItem => exact ⟨rfl, rfl⟩
  | item head tail ihHead ihTail => simp_all [Fits, Node.allFit]
  | guardedItem head tail ihHead ihTail => simp_all [Fits, Governed.fits, Node.allFit]
  | ended head ih => simp_all [Fits, Governed.fits, Node.allFit]
  | itemBreak kind tail ih => simp_all
  | @option sign first second third fourth fifth before after caption shown away inner kind guards
      label trailing leaves content ih =>
      have away : Node.allFit .statement away := by
        obtain ⟨rfl, rfl⟩ | ⟨node, rfl, diverts⟩ := leaves
        · rfl
        · have fits := diverts.fits (by simp_all)
          simpa [Node.allFit] using fits
      have inner : Node.allFit .statement inner := ih (by simp_all)
      refine Guard.fits_wrapAll ?_ ?_
      · simp [guards.isShaped, trailing.isShaped]
      · simp [Node.fits, label.fits, away, inner]
  | close kind => rfl
  | gap kind tail ih => simp_all [Fits]
  | alternative kind head tail ihHead ihTail => simp_all [Fits, Node.eachFit]
  | guarded head tail ih =>
      have shaped := head.isShaped
      simp_all [Fits]
  | act ends => simp [Fits, Governed.fits, Node.fits, Guard.isShaped]
  | block kind inside ih =>
      simp_all [Fits, Governed.fits, Node.fits, Guard.isShaped, Node.Role.under]
  | governedBreak kind rest ih => simp_all [Fits]
  | governedOption inside ih => exact fun shaped => Guard.fits_wrap shaped (ih lexical)
  | @governedGuard tokens guard result inside ih =>
      intro shaped
      have fits : result.fits := ih lexical
      cases result with
      | item node => exact Guard.fits_wrap shaped fits
      | statement node => exact Guard.fits_wrap shaped (Node.fits_under fits)
  | governedStatement inside ih =>
      exact fun shaped => Guard.fits_wrap shaped (Node.fits_ofList (ih lexical))

end Phrase

theorem Block.Derives.fits {tokens : List Token} {blocks : List Block}
    (derives : Derives tokens blocks) (lexical : tokens.all Token.isLexical) :
    blocks.all fun block => Node.allFit .statement block.content := by
  induction derives with
  | nil => rfl
  | @cons name first more nodes rest kind content others ih =>
      rw [List.all_cons, List.all_append, Bool.and_eq_true, Bool.and_eq_true] at lexical
      have fits : Node.allFit .statement nodes := content.fits lexical.2.1
      simpa [fits] using ih lexical.2.2

theorem Document.Derives.isWellFormed {tokens : List Token} {d : Document}
    (derives : Derives tokens d) (lexical : tokens.all Token.isLexical) : d.isWellFormed := by
  cases derives with
  | @mk first more nodes blocks content named =>
      rw [List.all_append, Bool.and_eq_true] at lexical
      have fits : Node.allFit .statement nodes := content.fits lexical.1
      simpa [Document.isWellFormed, fits] using named.fits lexical.2

/-! Expressions with all operands. -/

namespace Operator

/-- A connective, as a function of which operands hold; a missing one does not. None for the
other operators. -/
def connective? : Operator → Option (List Bool → Bool)
  | and => some fun held => held.getD 0 false && held.getD 1 false
  | or => some fun held => held.getD 0 false || held.getD 1 false
  | not => some fun held => !held.getD 0 false
  | _ => none

theorem decide?_getD (op : Operator) (held : List Bool) :
    (op.decide? fun position => held.getD position false) =
      op.connective?.map fun connect => connect held := by
  cases op with
  | and | or => simp [decide?, connective?]
  | _ => rfl

end Operator

namespace Expr

mutual

/-- The value of an expression, unless an operand is missing anywhere in it. -/
def evaluate? (m : Memory) : Expr → Option Value
  | .literal _ value => some value
  | .variable name => some (m.get name .null)
  | .operation op operands =>
      if operands.length < op.arity then none
      else
        match op.connective? with
        | some connect => (holdsAll? m operands).map fun held => .bool (connect held)
        | none => (evaluateAll? m operands).map op.apply

/-- Whether an expression holds, unless an operand is missing anywhere in it. -/
def holds? (m : Memory) : Expr → Option Bool
  | .literal _ value => some value.truthy
  | .variable name => some (m.get name .null).truthy
  | .operation op operands =>
      if operands.length < op.arity then none
      else
        match op.connective? with
        | some connect => (holdsAll? m operands).map connect
        | none => (evaluateAll? m operands).map fun values => (op.apply values).truthy

def evaluateAll? (m : Memory) : List Expr → Option (List Value)
  | [] => some []
  | e :: rest => do return (← e.evaluate? m) :: (← evaluateAll? m rest)

def holdsAll? (m : Memory) : List Expr → Option (List Bool)
  | [] => some []
  | e :: rest => do return (← e.holds? m) :: (← holdsAll? m rest)

end

mutual

theorem evaluate?_of_isShaped (m : Memory) (e : Expr) (shaped : e.isShaped) :
    e.evaluate? m = some (e.evaluate m) ∧ e.holds? m = some (e.holds m) := by
  match e with
  | .literal kind value => exact ⟨rfl, rfl⟩
  | .variable name => exact ⟨rfl, rfl⟩
  | .operation op operands =>
      obtain ⟨count, all⟩ : operands.length = op.arity ∧ allShaped operands := by
        simpa [isShaped] using shaped
      obtain ⟨values, held⟩ := evaluateAll?_of_allShaped m operands all
      have enough : ¬operands.length < op.arity := by omega
      simp only [evaluate?, evaluate, holds?, holds, enough, if_false, values, held,
        holdsAt_eq_getD, Operator.decide?_getD]
      cases op.connective? <;> exact ⟨rfl, rfl⟩

theorem evaluateAll?_of_allShaped (m : Memory) (operands : List Expr)
    (shaped : allShaped operands) :
    evaluateAll? m operands = some (evaluateAll m operands) ∧
      holdsAll? m operands = some (operands.map (holds m)) := by
  match operands with
  | [] => exact ⟨rfl, rfl⟩
  | e :: rest =>
      obtain ⟨first, others⟩ : e.isShaped ∧ allShaped rest := by simpa [allShaped] using shaped
      obtain ⟨value, held⟩ := evaluate?_of_isShaped m e first
      obtain ⟨values, all⟩ := evaluateAll?_of_allShaped m rest others
      simp [evaluateAll?, evaluateAll, holdsAll?, value, held, values, all]

end

end Expr

theorem Assignment.isShaped_value (a : Assignment) : a.value.isShaped = a.isShaped := by
  induction a with
  | store name update value => rfl
  | chain name update next ih => exact ih

theorem Action.isShaped_of_mem_expressions {action : Action} (shaped : action.isShaped) {e : Expr}
    (member : e ∈ action.expressions) : e.isShaped := by
  cases action with
  | assign assignments =>
      obtain ⟨a, inside, rfl⟩ := List.mem_map.1 member
      have all : ∀ a ∈ assignments, a.isShaped := by simp_all [Action.isShaped]
      rw [Assignment.isShaped_value]
      exact all a inside
  | trigger events => cases member

/-! Playing a well-formed document. -/

namespace Cell

/-- The expressions of a cell itself. -/
def expressions : Cell → List Expr
  | .conditional _ condition _ => [condition]
  | .acting _ action _ | .act _ action => action.expressions
  | _ => []

/-- Whether a cell stands for a node that is well formed where it stands. -/
def Fits (role : Node.Role) (cell : Cell) : Prop :=
  ∃ index node, cell = ofNode index node ∧ node.fits role

/-- Where the parts of a cell stand. -/
def partRole (role : Node.Role) : Cell → Node.Role
  | .options .. => .item
  | .variations .. => .governed
  | .conditional .. | .acting .. => role.under
  | _ => .statement

variable {role : Node.Role} {cell whole : Cell}

theorem fits_of_mem_ofNodes {number : Nat → UInt64} {position : Nat} {nodes : List Node}
    (fits : Node.allFit role nodes) (member : cell ∈ ofNodes number position nodes) :
    cell.Fits role := by
  obtain ⟨index, node, inside, rfl⟩ := mem_ofNodes member
  exact ⟨index, node, rfl, Node.allFit_iff.1 fits node inside⟩

theorem Fits.part (fits : whole.Fits role) (member : cell ∈ whole.parts) :
    cell.Fits (whole.partRole role) := by
  obtain ⟨index, node, rfl, fits⟩ := fits
  cases node with
  | content nodes | options name marks nodes | option name mode marks nodes =>
      simp only [Node.fits, Bool.and_eq_true] at fits
      exact fits_of_mem_ofNodes fits.2 member
  | variations mode alternatives =>
      simp only [Node.fits, Bool.and_eq_true] at fits
      simp only [ofNode, parts, ofAlternatives_eq] at member
      refine fits_of_mem_ofNodes (Node.allFit_iff.2 ?_) member
      intro node inside
      obtain ⟨nodes, source, rfl⟩ := List.mem_map.1 inside
      have inner : (Node.content nodes).fits .governed := by
        simpa [Node.fits] using Node.eachFit_iff.1 fits.2 nodes source
      exact inner
  | conditional condition body | acting action body =>
      simp only [Node.fits, Bool.and_eq_true] at fits
      exact ⟨index, body, List.mem_singleton.1 member, fits.2⟩
  | line text marks | divert target | act action => cases member

theorem Fits.isShaped (fits : cell.Fits role) {e : Expr} (member : e ∈ cell.expressions) :
    e.isShaped := by
  obtain ⟨index, node, rfl, fits⟩ := fits
  cases node with
  | conditional condition body =>
      simp only [Node.fits, Bool.and_eq_true] at fits
      obtain rfl := List.mem_singleton.1 member
      exact fits.1
  | acting action body =>
      simp only [Node.fits, Bool.and_eq_true] at fits
      exact Action.isShaped_of_mem_expressions fits.1 member
  | act action =>
      simp only [Node.fits, Bool.and_eq_true] at fits
      exact Action.isShaped_of_mem_expressions fits.2 member
  | _ => cases member

/-- Options stand in lists only. -/
theorem Fits.eq_item {choice : Choice} (fits : choice.cell.Fits role) : role = .item := by
  obtain ⟨index, node, same, fits⟩ := fits
  cases node with
  | option name mode marks nodes =>
      simp only [Node.fits, Bool.and_eq_true, beq_iff_eq] at fits
      exact fits.1
  | _ => cases same

/-- What stands in a list is an option, and it is found if the conditions around it hold. -/
theorem Fits.isSome_find? (fits : cell.Fits .item) (m : Memory) :
    (Choice.find? m cell).isSome = cell.conditions.all (·.holds m) := by
  fun_induction Choice.find? m cell with
  | case1 index name mode marks content => rfl
  | case2 index condition body held ih =>
      have inside : body.Fits .item := fits.part List.mem_cons_self
      simp [conditions, held, ih inside]
  | case3 index condition body failed => simp [conditions, failed]
  | case4 index action body ih =>
      have inside : body.Fits .item := fits.part List.mem_cons_self
      simp [conditions, ih inside]
  | case5 cell notOption notConditional notActing =>
      obtain ⟨index, node, rfl, fits⟩ := fits
      cases node with
      | option name mode marks nodes => exact absurd rfl (notOption _ _ _ _ _)
      | conditional condition body => exact absurd rfl (notConditional _ _ _)
      | acting action body => exact absurd rfl (notActing _ _ _)
      | _ => simp [Node.fits] at fits

end Cell

namespace Script

variable {d : Document}

theorem fits_of_mem_block (well : d.isWellFormed) {name : String} {block : Block} {cell : Cell}
    (found : (ofDocument d).block? name = some block) (member : cell ∈ block.cells) :
    cell.Fits .statement := by
  have declared := List.mem_reverse.1 (List.mem_of_find?_eq_some found)
  obtain ⟨number, source, inside, cells⟩ := ofNodes_of_mem_ofBlocks declared
  rw [cells] at member
  simp only [Document.isWellFormed, Bool.and_eq_true, List.all_eq_true] at well
  exact Cell.fits_of_mem_ofNodes (well.2 source inside) member

theorem fits_of_mem_content (well : d.isWellFormed) {cell : Cell}
    (member : cell ∈ (ofDocument d).content) : cell.Fits .statement := by
  simp only [Document.isWellFormed, Bool.and_eq_true] at well
  exact Cell.fits_of_mem_ofNodes well.1 member

theorem fits_of_has (well : d.isWellFormed) {cell : Cell} (has : (ofDocument d).Has cell) :
    ∃ role, cell.Fits role := by
  induction has with
  | content member => exact ⟨_, fits_of_mem_content well member⟩
  | block found member => exact ⟨_, fits_of_mem_block well found member⟩
  | part has member ih =>
      obtain ⟨role, fits⟩ := ih
      exact ⟨_, fits.part member⟩

theorem fits_of_mem_cells (well : d.isWellFormed) {place : Place}
    (there : (ofDocument d).HasPlace place) {cell : Cell} (member : cell ∈ place.cells) :
    cell.Fits .statement := by
  cases there with
  | document => exact fits_of_mem_content well member
  | block found => exact fits_of_mem_block well found member
  | content has | option has =>
      obtain ⟨role, fits⟩ := fits_of_has well has
      exact fits.part member
  | options has => cases member
  | alternative has inside =>
      obtain ⟨role, fits⟩ := fits_of_has well has
      obtain ⟨index, cells, rfl⟩ := content_of_alternative has inside
      exact (fits.part inside).part member

theorem fits_of_mem_items (well : d.isWellFormed) {index : UInt64} {header : Option String}
    {marks : Marks} {items : List Cell}
    (has : (ofDocument d).Has (.options index header marks items)) {item : Cell}
    (member : item ∈ items) : item.Fits .item := by
  obtain ⟨role, fits⟩ := fits_of_has well has
  exact fits.part member

end Script

namespace Session

/-- The cells that the next step may enter, one inside the other. -/
inductive Enters (s : Session) : Cell → Prop
  | next {frame : Frame} {below : List Frame} {cell : Cell} (stack : s.stack = frame :: below)
      (ahead : frame.place.cells[frame.cursor]? = some cell) : Enters s cell
  | conditional {index : UInt64} {condition : Expr} {body : Cell}
      (outer : Enters s (.conditional index condition body)) : Enters s body
  | acting {index : UInt64} {action : Action} {body : Cell}
      (outer : Enters s (.acting index action body)) : Enters s body

/-- The items of the list of options that a session is at, or that the next step may enter. -/
inductive Offers (s : Session) : List Cell → Prop
  | here {header : Option String} {marks : Marks} {items : List Cell} {cursor : Nat}
      {below : List Frame} (stack : s.stack = ⟨.options header marks items, cursor⟩ :: below) :
      Offers s items
  | next {index : UInt64} {header : Option String} {marks : Marks} {items : List Cell}
      (enters : s.Enters (.options index header marks items)) : Offers s items

/-- Nothing ill-formed is met: items of lists are options, which are left out only where a condition
does not hold, options are met in lists only, and no expression lacks an operand. -/
structure Regular (s : Session) : Prop where
  items : ∀ items, s.Offers items → ∀ item ∈ items, ∀ m,
    (Choice.find? m item).isSome = item.conditions.all (·.holds m)
  entered : ∀ cell, s.Enters cell → ∀ choice : Choice, cell ≠ choice.cell
  operands : ∀ cell, s.script.Has cell → ∀ e ∈ cell.expressions, ∀ m,
    e.evaluate? m = some (e.evaluate m) ∧ e.holds? m = some (e.holds m)

variable {d : Document} {s : Session}

theorem Plays.fits_of_enters (plays : s.Plays (Script.ofDocument d)) (well : d.isWellFormed)
    {cell : Cell} (enters : s.Enters cell) : ∃ role ≠ Node.Role.item, cell.Fits role := by
  induction enters with
  | next stack ahead =>
      have there := (stack ▸ plays.stacked).hasPlace
      have fits := Script.fits_of_mem_cells well there (List.mem_of_getElem? ahead)
      exact ⟨.statement, by decide, fits⟩
  | conditional outer ih | acting outer ih =>
      obtain ⟨role, other, fits⟩ := ih
      refine ⟨role.under, ?_, fits.part List.mem_cons_self⟩
      cases role <;> simp_all [Node.Role.under]

theorem Plays.has_of_enters (plays : s.Plays (Script.ofDocument d)) {cell : Cell}
    (enters : s.Enters cell) : (Script.ofDocument d).Has cell := by
  induction enters with
  | next stack ahead =>
      exact (stack ▸ plays.stacked).hasPlace.has (List.mem_of_getElem? ahead)
  | conditional outer ih | acting outer ih => exact ih.part List.mem_cons_self

theorem Plays.fits_of_offers (plays : s.Plays (Script.ofDocument d)) (well : d.isWellFormed)
    {items : List Cell} (offers : s.Offers items) {item : Cell} (member : item ∈ items) :
    item.Fits .item := by
  cases offers with
  | here stack =>
      cases (stack ▸ plays.stacked).hasPlace with
      | options has => exact Script.fits_of_mem_items well has member
  | next enters => exact Script.fits_of_mem_items well (plays.has_of_enters enters) member

theorem Plays.regular (plays : s.Plays (Script.ofDocument d)) (well : d.isWellFormed) :
    s.Regular := by
  refine ⟨?_, ?_, ?_⟩
  · intro items offers item member m
    exact (plays.fits_of_offers well offers member).isSome_find? m
  · rintro cell enters choice rfl
    obtain ⟨role, other, fits⟩ := plays.fits_of_enters well enters
    exact other fits.eq_item
  · intro cell has e member m
    rw [plays.script_eq] at has
    obtain ⟨role, fits⟩ := Script.fits_of_has well has
    exact Expr.evaluate?_of_isShaped m e (fits.isShaped member)

end Session

/-- What a source writes is well formed, and so a session over it meets nothing ill-formed, however
it was made and whatever was asked of it. -/
theorem Document.isWellFormed_of_parse {source : String} {d : Document}
    (parsed : parse source = .ok d) :
    d.isWellFormed ∧
      ∀ (random : UInt32) (dictionary : Std.ExtTreeMap String String) (data : Option Memory)
        (ops : List Session.Operation),
        ((Session.ofScript (Script.ofDocument d) random dictionary data).run ops).2.Regular := by
  have lexical : (Stream.ofSource source).tokens.all Token.isLexical :=
    List.all_eq_true.2 fun token => Stream.isLexical_of_mem_ofSource
  have well := (derives_of_parse parsed).isWellFormed lexical
  refine ⟨well, ?_⟩
  intro random dictionary data ops
  exact ((Session.plays_ofScript _ random dictionary data).run ops).regular well

namespace Document

/-- A source with a guarded block, and with a guarded option that leads to the end. -/
def errand : String :=
  "\x7b not seen \x7d\n  Hi\n  Bye\n* \x7b when ready \x7d Go \x7b set trips += 1 \x7d\n  -> END\n"

theorem isWellFormed_of_parse_errand :
    ∃ d, parse errand = .ok d ∧ d.content.length = 2 ∧ d.isWellFormed ∧
      ((Session.ofScript (Script.ofDocument d) 1).run [.next 5, .choose 0, .next 5]).2.Regular := by
  have read : (parse errand).map (·.content.length) = .ok 2 := by decide +kernel
  cases parsed : parse errand with
  | error halt => simp [parsed, Except.map] at read
  | ok d =>
      have length : d.content.length = 2 := by simpa [parsed, Except.map] using read
      obtain ⟨well, regular⟩ := isWellFormed_of_parse parsed
      exact ⟨d, rfl, length, well, regular 1 ∅ none _⟩

end Document
end Dialogue
