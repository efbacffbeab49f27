import Dialogue.Proofs.Diverts
import Dialogue.Proofs.Stack

/-! The targets of diverts. What a session enters stands in its document, so a request for the next
beat fails only by a divert that the document holds, to a block that the document does not declare.
Over a document that declares all targets of its diverts no request fails. -/
namespace Dialogue

namespace Node

mutual

/-- The targets of the diverts that a node is or holds, at any depth. -/
def targets : Node → List String
  | .content nodes | .options _ _ nodes | .option _ _ _ nodes => allTargets nodes
  | .divert target => [target]
  | .variations _ alternatives => eachTargets alternatives
  | .conditional _ body | .acting _ body => body.targets
  | .line .. | .act _ => []

def allTargets : List Node → List String
  | [] => []
  | node :: rest => node.targets ++ allTargets rest

def eachTargets : List (List Node) → List String
  | [] => []
  | nodes :: rest => allTargets nodes ++ eachTargets rest

end

theorem targets_subset_allTargets {node : Node} {nodes : List Node} (member : node ∈ nodes) :
    node.targets ⊆ allTargets nodes := by
  induction nodes with
  | nil => cases member
  | cons first rest ih =>
      rcases List.mem_cons.1 member with rfl | later
      · exact List.subset_append_left _ _
      · exact List.Subset.trans (ih later) (List.subset_append_right _ _)

theorem allTargets_subset_eachTargets {nodes : List Node} {alternatives : List (List Node)}
    (member : nodes ∈ alternatives) : allTargets nodes ⊆ eachTargets alternatives := by
  induction alternatives with
  | nil => cases member
  | cons first rest ih =>
      rcases List.mem_cons.1 member with rfl | later
      · exact List.subset_append_left _ _
      · exact List.Subset.trans (ih later) (List.subset_append_right _ _)

theorem targets_subset_of_mem_parts {node part : Node} (member : part ∈ node.parts) :
    part.targets ⊆ node.targets := by
  cases node with
  | content nodes | options name marks nodes | option name mode marks nodes =>
      exact targets_subset_allTargets member
  | variations mode alternatives =>
      obtain ⟨nodes, source, rfl⟩ := List.mem_map.1 member
      exact allTargets_subset_eachTargets source
  | conditional condition body | acting action body =>
      obtain rfl := List.mem_singleton.1 member
      exact List.Subset.refl _
  | line text marks | divert target | act action => cases member

end Node

namespace Document

/-- The targets of all diverts of a document. -/
def targets (d : Document) : List String :=
  Node.allTargets d.content ++ d.blocks.flatMap fun block => Node.allTargets block.content

/-- Whether every divert leads to the parent, to the end or to a block of the document. -/
def declaresTargets (d : Document) : Bool :=
  d.targets.all fun target =>
    target == Target.parentName || target == Target.finishName || d.blockNames.contains target

end Document

/-- Only names other than those of the parent and the end are names of blocks. -/
theorem Target.eq_of_ofName {name target : String} (named : ofName target = .block name) :
    target = name ∧ target ≠ parentName ∧ target ≠ finishName := by
  unfold ofName at named
  split at named
  · cases named
  · next notParent =>
      split at named
      · cases named
      · next notFinish =>
          exact ⟨Target.block.inj named, by simpa using notParent, by simpa using notFinish⟩

namespace Cell

/-- Whether a cell stands for a node with targets out of a list. -/
def Within (names : List String) (cell : Cell) : Prop :=
  ∃ index node, cell = ofNode index node ∧ node.targets ⊆ names

theorem Within.mem_of_divert {names : List String} {index : UInt64} {target : String}
    (within : (divert index target).Within names) : target ∈ names := by
  obtain ⟨number, node, same, held⟩ := within
  cases node with
  | divert name =>
      obtain ⟨rfl, rfl⟩ := Cell.divert.inj same
      exact held List.mem_cons_self
  | _ => cases same

end Cell

theorem Script.within_of_has {d : Document} {cell : Cell} (has : (ofDocument d).Has cell) :
    cell.Within d.targets := by
  refine node_of_has (fun node member => ?_) (fun block declared node member => ?_) ?_ has
  · exact List.Subset.trans (Node.targets_subset_allTargets member) (List.subset_append_left _ _)
  · intro target held
    have inside := Node.targets_subset_allTargets member held
    exact List.mem_append_right _ (List.mem_flatMap.2 ⟨block, declared, inside⟩)
  · exact fun node held part member =>
      List.Subset.trans (Node.targets_subset_of_mem_parts member) held

namespace Session

variable {d : Document} {s : Session}

/-- The name that a step fails with is that of a divert of the document, and of no block. -/
theorem Plays.undeclared_of_step (plays : s.Plays (Script.ofDocument d)) {fault : Fault}
    (failed : s.step.flow = .failed fault) :
    ∃ name, fault = .unknownBlock name ∧ name ∈ d.targets ∧ name ∉ d.blockNames ∧
      name ≠ Target.parentName ∧ name ≠ Target.finishName := by
  obtain ⟨name, diverts, missing, rfl⟩ := step_failed_iff.1 failed
  obtain ⟨frame, below, cell, stack, entered, diverts⟩ := cell_of_target? diverts
  obtain ⟨index, target, core, named⟩ := Cell.core_of_target? diverts
  obtain ⟨rfl, notParent, notFinish⟩ := Target.eq_of_ofName named
  have there := (stack ▸ plays.stacked).hasPlace
  have has := (there.has (List.mem_of_getElem? entered)).core
  rw [core] at has
  rw [plays.script_eq] at missing
  refine ⟨target, rfl, (Script.within_of_has has).mem_of_divert, ?_, notParent, notFinish⟩
  intro declared
  obtain ⟨block, member, same⟩ := List.mem_map.1 declared
  exact Script.block?_eq_none_iff.1 missing block member same

theorem Plays.undeclared_of_next (plays : s.Plays (Script.ofDocument d)) {allowance : Nat}
    {fault : Fault} (failed : (s.next allowance).result = .failed fault) :
    ∃ name, fault = .unknownBlock name ∧ name ∈ d.targets ∧ name ∉ d.blockNames ∧
      name ≠ Target.parentName ∧ name ≠ Target.finishName := by
  induction allowance generalizing s with
  | zero => simp [Session.next] at failed
  | succ allowance ih =>
      cases flow : s.step.flow with
      | proceed =>
          simp only [Session.next, flow] at failed
          exact ih plays.step failed
      | failed other =>
          simp only [Session.next, flow, Reply.failed.injEq] at failed
          exact plays.undeclared_of_step (by rw [flow, failed])
      | beat beat | finished => simp [Session.next, flow] at failed

/-- Over a document that declares all targets of its diverts no request for the next beat fails,
however the session was made and whatever was asked of it before. Over any document such a request
fails only with the name of a block that a divert of the document leads to and that the document
does not declare. -/
theorem next_of_declaresTargets (d : Document) (random : UInt32)
    (dictionary : Std.ExtTreeMap String String) (data : Option Memory) (ops : List Operation)
    (allowance : Nat) :
    let s := ((ofScript (Script.ofDocument d) random dictionary data).run ops).2
    (d.declaresTargets = true → ∀ fault, (s.next allowance).result ≠ .failed fault) ∧
      ∀ fault, (s.next allowance).result = .failed fault →
        ∃ name, fault = .unknownBlock name ∧ name ∈ d.targets ∧ name ∉ d.blockNames := by
  intro s
  have plays : s.Plays (Script.ofDocument d) :=
    (plays_ofScript _ random dictionary data).run ops
  constructor
  · intro declared fault failed
    obtain ⟨name, -, held, missing, notParent, notFinish⟩ := plays.undeclared_of_next failed
    have known := List.all_eq_true.1 declared name held
    simp [notParent, notFinish, missing] at known
  · intro fault failed
    obtain ⟨name, same, held, missing, -⟩ := plays.undeclared_of_next failed
    exact ⟨name, same, held, missing⟩

/-- A list with ways to a block, from there back, and to the end. -/
def courtyard : Document where
  content := [.options none {} [
    .option "Garden" .once {} [.divert "garden"], .option "Leave" .sticky {} [.divert "<end>"]]]
  blocks := [⟨"garden", [.line "Roses" {}, .divert "<parent>"]⟩]

/-- A divert under a condition to a block that is not there. -/
def ruin : Document where
  content := [.conditional (.constant (.bool true)) (.divert "cellar")]
  blocks := [⟨"attic", []⟩]

theorem next_of_declaresTargets_courtyard :
    let s := ofScript (Script.ofDocument ruin) 1
    courtyard.declaresTargets = true ∧
      (∀ ops allowance fault,
        (((ofScript (Script.ofDocument courtyard) 1).run ops).2.next allowance).result ≠
          .failed fault) ∧
      ruin.declaresTargets = false ∧ (s.next 1).result = .failed (.unknownBlock "cellar") ∧
      "cellar" ∈ ruin.targets ∧ "cellar" ∉ ruin.blockNames := by
  intro s
  have declared : courtyard.declaresTargets = true := by decide
  have failed : (s.next 1).result = .failed (.unknownBlock "cellar") := by rfl
  obtain ⟨name, same, held, missing⟩ :=
    (next_of_declaresTargets ruin 1 ∅ none [] 1).2 _ failed
  obtain rfl := Fault.unknownBlock.inj same
  refine ⟨declared, ?_, by decide, failed, held, missing⟩
  intro ops allowance
  exact (next_of_declaresTargets courtyard 1 ∅ none ops allowance).1 declared

end Session
end Dialogue
