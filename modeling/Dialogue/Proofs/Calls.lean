import Dialogue.Proofs.Diverts
import Dialogue.Proofs.Stack

/-! Diverts to blocks as calls. A divert puts the block on top of the frames it was read in, and as
long as the stack is higher than these, they stay as they are, with the block directly above them.
The stack gets back to them exactly: at the end of the block, or by a divert to the parent with only
content above the block. A divert to the parent from inside a list leaves the list and no more. -/
namespace Dialogue

def Place.isBlock : Place → Bool
  | block .. => true
  | _ => false

theorem Place.isAnchor_of_isList {place : Place} (list : place.isList = true) :
    place.isAnchor = true := by
  cases place with
  | options header marks items => rfl
  | document cells | block name cells | content cells => cases list

namespace Session

/-- Whether a request for the next beat makes no divert to the end, and all its steps leave the
stack higher than so many frames. -/
def nextStays (height : Nat) : Nat → Session → Prop
  | 0, _ => True
  | allowance + 1, s =>
      s.target? ≠ some .finish ∧ height < s.step.session.stack.length ∧
        (s.step.flow = .proceed → nextStays height allowance s.step.session)

/-- Whether a run starts nowhere anew, makes no divert to the end, and all its steps leave the stack
higher than so many frames. -/
def Stays (height : Nat) : Session → List Operation → Prop
  | _, [] => True
  | s, op :: rest =>
      (match op with
        | .next allowance => s.nextStays height allowance
        | .start _ => False
        | _ => True) ∧ Stays height (s.perform op).session rest

/-- Whether a place stands directly on some frames. -/
def Above (place : Place) (base frames : List Frame) : Prop :=
  ∃ upper cursor, frames = upper ++ ⟨place, cursor⟩ :: base

namespace Above

variable {place : Place} {base : List Frame}

theorem append {frames : List Frame} (above : Above place base frames) (more : List Frame) :
    Above place base (more ++ frames) := by
  obtain ⟨upper, cursor, rfl⟩ := above
  exact ⟨more ++ upper, cursor, (List.append_assoc ..).symm⟩

theorem advance {frame : Frame} {below : List Frame} (above : Above place base (frame :: below))
    (cursor : Nat) : Above place base ({ frame with cursor } :: below) := by
  obtain ⟨upper, old, split⟩ := above
  cases upper with
  | nil =>
      obtain ⟨rfl, rfl⟩ := List.cons.inj split
      exact ⟨[], cursor, rfl⟩
  | cons top upper =>
      obtain ⟨rfl, rfl⟩ := List.cons.inj split
      exact ⟨{ frame with cursor } :: upper, old, rfl⟩

theorem below {frame : Frame} {below : List Frame} (above : Above place base (frame :: below)) :
    frame.place = place ∧ below = base ∨ Above place base below := by
  obtain ⟨upper, cursor, split⟩ := above
  cases upper with
  | nil =>
      obtain ⟨rfl, rfl⟩ := List.cons.inj split
      exact .inl ⟨rfl, rfl⟩
  | cons top upper => exact .inr ⟨upper, cursor, (List.cons.inj split).2⟩

theorem length_lt {frames : List Frame} (above : Above place base frames) :
    base.length < frames.length := by
  obtain ⟨upper, cursor, rfl⟩ := above
  simp only [List.length_append, List.length_cons]
  omega

end Above

/-- A divert to the parent leaves the frames up to and with the innermost anchor. -/
theorem leave_append (inner : List Frame) (plain : ∀ frame ∈ inner, frame.place.isAnchor = false)
    (anchor : Frame) (anchored : anchor.place.isAnchor = true) {rest : List Frame}
    (standing : rest ≠ []) : leave (inner ++ anchor :: rest) = rest := by
  induction inner with
  | nil =>
      obtain ⟨next, below, rfl⟩ := List.exists_cons_of_ne_nil standing
      simp [leave, anchored]
  | cons frame inner ih =>
      obtain ⟨first, others⟩ := List.forall_mem_cons.1 plain
      have more : inner ++ anchor :: rest ≠ [] := by simp
      obtain ⟨next, below, split⟩ := List.exists_cons_of_ne_nil more
      have further := ih others
      simp only [List.cons_append, split, leave, first] at further ⊢
      exact further

section
variable {place : Place} {base : List Frame} (anchored : place.isAnchor = true)
  (standing : base ≠ [])
include anchored standing

/-- The innermost anchor is the block itself or above it. -/
theorem Above.leave {frames : List Frame} (above : Above place base frames) :
    Session.leave frames = base ∨ Above place base (Session.leave frames) := by
  have high := above.length_lt
  have low := List.length_pos_of_ne_nil standing
  fun_induction Session.leave frames with
  | case1 => simp at high
  | case2 frame =>
      simp only [List.length_singleton] at high
      omega
  | case3 frame below more anchor => exact above.below.imp_left And.right
  | case4 frame below more inside ih =>
      rcases above.below with ⟨same, -⟩ | later
      · rw [same] at inside
        exact absurd anchored inside
      · exact ih later later.length_lt

/-- A step other than a divert to the end either gets back to the frames below the block or stays
above them. -/
theorem Above.step {s : Session} (above : Above place base s.stack)
    (inside : s.target? ≠ some .finish) :
    s.step.session.stack = base ∨ Above place base s.step.session.stack := by
  cases diverts : s.target? with
  | none =>
      cases stack : s.stack with
      | nil =>
          rw [stack] at above
          exact absurd above.length_lt (Nat.not_lt_zero _)
      | cons frame below =>
          rw [stack] at above
          obtain ⟨-, left | ⟨upper, cursor, grown⟩⟩ := step_of_undiverted stack diverts
          · rw [left]
            exact above.below.imp_left And.right
          · rw [grown]
            exact .inr ((above.advance cursor).append upper)
  | some target =>
      obtain ⟨frame, below, stack, moved⟩ := moves_of_target? diverts
      rw [stack] at above
      have advanced := above.advance (frame.cursor + 1)
      cases moved with
      | parent left goes =>
          rw [left]
          exact advanced.leave anchored standing
      | finish ended goes => exact absurd diverts inside
      | block found entered goes =>
          rw [entered]
          exact .inr (advanced.append [_])
      | unknown missing kept failed =>
          rw [kept]
          exact .inr advanced

theorem Above.next {s : Session} (above : Above place base s.stack) {allowance : Nat}
    (stays : s.nextStays base.length allowance) :
    Above place base (s.next allowance).session.stack := by
  induction allowance generalizing s with
  | zero => exact above
  | succ allowance ih =>
      obtain ⟨inside, high, later⟩ := stays
      have first : Above place base s.step.session.stack := by
        refine (above.step anchored standing inside).resolve_left ?_
        intro back
        rw [back] at high
        exact Nat.lt_irrefl _ high
      cases flow : s.step.flow with
      | proceed =>
          simp only [Session.next, flow]
          exact ih first (later flow)
      | beat beat | finished | failed fault => simpa only [Session.next, flow] using first

end

theorem Above.choose {place : Place} {base : List Frame} {s : Session}
    (above : Above place base s.stack) (index : Nat) :
    Above place base (s.choose index).session.stack := by
  match stack : s.stack with
  | ⟨.options header marks items, cursor⟩ :: below =>
      rw [choose_of_offer stack (Prod.eta (Choice.offer s.memory items)).symm]
      cases (Choice.offer s.memory items).1[index]? with
      | none => exact above
      | some choice => exact above.append [_]
  | []
  | ⟨.document cells, cursor⟩ :: below
  | ⟨.block name cells, cursor⟩ :: below
  | ⟨.content cells, cursor⟩ :: below =>
      simp only [Session.choose, stack]
      rwa [stack] at above

theorem Above.run {place : Place} {base : List Frame} (anchored : place.isAnchor = true)
    (standing : base ≠ []) {s : Session} (above : Above place base s.stack)
    {ops : List Operation} (stays : s.Stays base.length ops) :
    Above place base (s.run ops).2.stack := by
  induction ops generalizing s with
  | nil => exact above
  | cons op rest ih =>
      obtain ⟨first, later⟩ := stays
      refine ih ?_ later
      cases op with
      | next allowance => exact above.next anchored standing first
      | choose index => exact above.choose index
      | start block => cases first
      | set name value | get name | data | load data | clear | translate dictionary | on kind =>
          exact above
      | read text =>
          simp only [perform]
          cases Memory.read? text <;> exact above
      | off id =>
          simp only [perform, off]
          cases s.listeners.off? id <;> exact above

/-- The stack after a divert to the parent that is read below an anchor. -/
theorem step_of_parent {s : Session} (diverts : s.target? = some .parent) {inner : List Frame}
    {anchor : Frame} {rest : List Frame} (stack : s.stack = inner ++ anchor :: rest)
    (plain : ∀ frame ∈ inner, frame.place.isAnchor = false)
    (anchored : anchor.place.isAnchor = true) (standing : rest ≠ []) :
    s.step.session.stack = rest := by
  obtain ⟨frame, below, top, moved⟩ := moves_of_target? diverts
  cases moved with
  | parent left goes =>
      rw [top] at stack
      rw [left]
      cases inner with
      | nil =>
          obtain ⟨rfl, rfl⟩ := List.cons.inj stack
          exact leave_append [] nofun { frame with cursor := frame.cursor + 1 } anchored standing
      | cons first inner =>
          obtain ⟨rfl, rfl⟩ := List.cons.inj stack
          obtain ⟨bare, others⟩ := List.forall_mem_cons.1 plain
          exact leave_append ({ frame with cursor := frame.cursor + 1 } :: inner)
            (List.forall_mem_cons.2 ⟨bare, others⟩) anchor anchored standing

/-- Above the lowest place there are no documents, so what is neither a list nor a block is
content. -/
theorem Plays.isAnchor_eq_false {script : Script} {s : Session} (plays : s.Plays script)
    {upper rest : List Frame} (stack : s.stack = upper ++ rest) (standing : rest ≠ [])
    (free : ∀ frame ∈ upper, frame.place.isList = false ∧ frame.place.isBlock = false) :
    ∀ frame ∈ upper, frame.place.isAnchor = false := by
  intro frame member
  obtain ⟨others, lowest, split, -, -, inner⟩ := plays.stacked.split
  have same : others = upper ++ rest.dropLast := by
    rw [← List.dropLast_append_of_ne_nil standing, ← stack, split, List.dropLast_concat]
  have above : frame ∈ others := by
    rw [same]
    exact List.mem_append_left _ member
  have walked := (inner frame above).1
  obtain ⟨list, block⟩ := free frame member
  obtain ⟨place, cursor⟩ := frame
  cases place with
  | content cells => rfl
  | document cells => cases walked
  | block name cells => cases block
  | options header marks items => cases list

/-- A divert to a block is a call. The block stands on the frames that the divert was read in, which
are past it, and whatever is asked from then on, as long as the stack is higher than these frames,
they stay what they are, with the block directly above them. The end of the block gets back to them
exactly, as does a divert to the parent with neither a list nor another block above the block, while
one from inside a list, with no block in between, leaves the list and no more. No other step gets
down to these frames without getting back to them exactly, unless it diverts to the end. -/
theorem divert_calls (script : Script) (random : UInt32)
    (dictionary : Std.ExtTreeMap String String) (data : Option Memory)
    (earlier : List Operation) (name : String) (block : Script.Block) :
    let s := ((ofScript script random dictionary data).run earlier).2
    s.target? = some (.block name) → s.script.block? name = some block →
    ∃ frame below, s.stack = frame :: below ∧
      let base := { frame with cursor := frame.cursor + 1 } :: below
      let called := s.step.session
      called.stack = ⟨.block name block.cells, 0⟩ :: base ∧
      ∀ ops, called.Stays base.length ops →
        let t := (called.run ops).2
        ∃ upper cursor, t.stack = upper ++ ⟨.block name block.cells, cursor⟩ :: base ∧
          (upper = [] → block.cells[cursor]? = none → t.step.session.stack = base) ∧
          (t.target? = some .parent →
            (∀ frame ∈ upper, frame.place.isList = false ∧ frame.place.isBlock = false) →
            t.step.session.stack = base) ∧
          (∀ inner list outer, t.target? = some .parent → upper = inner ++ list :: outer →
            (∀ frame ∈ inner, frame.place.isList = false ∧ frame.place.isBlock = false) →
            list.place.isList = true →
            t.step.session.stack = outer ++ ⟨.block name block.cells, cursor⟩ :: base) ∧
          (t.target? ≠ some .finish →
            base.length < t.step.session.stack.length ∨ t.step.session.stack = base) := by
  intro s diverts found
  have plays : s.Plays script := (plays_ofScript script random dictionary data).run earlier
  clear_value s
  obtain ⟨frame, below, stack, moved⟩ := moves_of_target? diverts
  refine ⟨frame, below, stack, ?_⟩
  intro base called
  have standing : base ≠ [] := List.cons_ne_nil _ _
  have anchored : (Place.block name block.cells).isAnchor = true := rfl
  have entered : called.stack = ⟨.block name block.cells, 0⟩ :: base := by
    cases moved with
    | block known entered goes =>
        rw [known] at found
        obtain rfl := Option.some.inj found
        exact entered
    | unknown missing kept failed =>
        rw [missing] at found
        cases found
  refine ⟨entered, ?_⟩
  intro ops stays t
  have above : Above (.block name block.cells) base t.stack :=
    Above.run anchored standing ⟨[], 0, entered⟩ stays
  have later : t.Plays script := (plays.step).run ops
  have next := above.step anchored standing
  clear_value t
  obtain ⟨upper, cursor, split⟩ := above
  refine ⟨upper, cursor, split, ?_, ?_, ?_, ?_⟩
  · rintro rfl ended
    rw [step_of_end split rfl ended]
    rfl
  · intro parent free
    have plain := later.isAnchor_eq_false split (List.cons_ne_nil _ _) free
    exact step_of_parent parent split plain anchored standing
  · rintro inner list outer parent rfl free listed
    rw [List.append_assoc, List.cons_append] at split
    have plain := later.isAnchor_eq_false split (List.cons_ne_nil _ _) free
    exact step_of_parent parent split plain (Place.isAnchor_of_isList listed) (by simp)
  · intro inside
    exact (next inside).symm.imp_left Above.length_lt

/-- A shop with a list that can be left. -/
def market : Document where
  content := [.divert "shop", .line "Home" {}]
  blocks := [⟨"shop", [.options none {} [
    .option "Buy" .sticky {} [.line "Done" {}], .option "Back" .sticky {} [.divert "<parent>"]]]⟩]

theorem divert_calls_market :
    let s := ofScript (Script.ofDocument market) 1
    let called := s.step.session
    let ops : List Operation := [.next 1, .choose 0, .next 1, .next 2, .choose 1]
    let t := (called.run ops).2
    s.target? = some (.block "shop") ∧ called.Stays 1 ops ∧ t.target? = some .parent ∧
      t.stack.length = 4 ∧
      ∃ cells, t.step.session.stack =
        [⟨.block "shop" cells, 1⟩, ⟨.document (Script.ofDocument market).content, 1⟩] := by
  intro s called ops t
  have diverts : s.target? = some (.block "shop") := by decide +kernel
  have parent : t.target? = some .parent := by decide +kernel
  have high : t.stack.length = 4 := by decide +kernel
  have stays : called.Stays 1 ops :=
    ⟨⟨by decide +kernel, by decide +kernel, fun _ => trivial⟩, trivial,
      ⟨by decide +kernel, by decide +kernel, fun _ => trivial⟩,
      ⟨by decide +kernel, by decide +kernel, fun _ =>
        ⟨by decide +kernel, by decide +kernel, fun _ => trivial⟩⟩, trivial, trivial⟩
  obtain ⟨frame, below, stack, entered, returns⟩ :=
    divert_calls (Script.ofDocument market) 1 ∅ none [] "shop" _ diverts rfl
  obtain ⟨rfl, rfl⟩ := List.cons.inj stack
  obtain ⟨upper, cursor, split, -, -, leaves, -⟩ := returns ops stays
  replace split : t.stack = upper ++ [_, _] := split
  have two : upper.length = 2 := by
    rw [split, List.length_append] at high
    exact Nat.add_right_cancel high
  obtain ⟨inner, list, rfl⟩ := List.length_eq_two.1 two
  have shape : t.stack = [⟨.content _, 0⟩, ⟨.options _ _ _, 0⟩, ⟨.block "shop" _, 1⟩, _] := rfl
  rw [split] at shape
  simp only [List.cons_append, List.nil_append, List.cons.injEq, Frame.mk.injEq] at shape
  obtain ⟨rfl, rfl, ⟨-, rfl⟩, -⟩ := shape
  have left := leaves [_] _ [] parent rfl (by simp [Place.isList, Place.isBlock]) rfl
  exact ⟨diverts, stays, parent, high, _, left⟩

end Session
end Dialogue
