import Dialogue.Proofs.Options

/-! Options that can be chosen once. The log of a run holds its turns in their order: the options
that were shown and those that were taken, by the caller or by the session itself. Only requests
that overwrite the memory can clear a flag, and no turn holds an option that has one. -/
namespace Dialogue

/-- What a stretch of a run does to the flags: the options taken get theirs, options that can be
chosen once had none before, and none of these comes up again after it was taken. -/
structure Uses (before : Memory) (turns : List Turn) (after : Memory) : Prop where
  flags : ∀ index, after.accessed index = (before.accessed index || turns.any (Turn.takes index))
  fresh : ∀ turn ∈ turns, ∀ choice ∈ turn.choices, choice.mode ≠ .sticky →
    before.accessed choice.index = false
  apart : turns.Pairwise fun earlier later => ∀ choice, earlier = .taken choice →
    ∀ other ∈ later.choices, other.mode ≠ .sticky → other.index ≠ choice.index

namespace Uses

theorem nothing {before after : Memory} (access : after.access = before.access) :
    Uses before [] after where
  flags index := by simp [Memory.accessed, access]
  fresh turn member := by cases member
  apart := List.Pairwise.nil

theorem shown {before after : Memory} {choices : List Choice}
    (access : after.access = before.access)
    (free : ∀ choice ∈ choices, choice.mode ≠ .sticky → before.accessed choice.index = false) :
    Uses before [.shown choices] after where
  flags index := by simp [Memory.accessed, access, Turn.takes]
  fresh turn member := by
    obtain rfl := List.mem_singleton.1 member
    exact free
  apart := List.pairwise_singleton _ _

theorem taken {before after : Memory} {choice : Choice}
    (access : after.access = before.access.insert choice.index true)
    (free : choice.mode ≠ .sticky → before.accessed choice.index = false) :
    Uses before [.taken choice] after where
  flags index := by
    rw [Memory.accessed, access, Memory.accessed_insert, Bool.or_comm]
    simp [Turn.takes]
  fresh turn member := by
    obtain rfl := List.mem_singleton.1 member
    intro other same
    obtain rfl := List.mem_singleton.1 same
    exact free
  apart := List.pairwise_singleton _ _

theorem flagged {before after : Memory} {turns : List Turn} (uses : Uses before turns after)
    {choice : Choice} (member : .taken choice ∈ turns) : after.accessed choice.index = true := by
  have found : turns.any (Turn.takes choice.index) = true :=
    List.any_eq_true.2 ⟨_, member, by simp [Turn.takes]⟩
  rw [uses.flags, found, Bool.or_true]

theorem append {before middle after : Memory} {first second : List Turn}
    (early : Uses before first middle) (late : Uses middle second after) :
    Uses before (first ++ second) after where
  flags index := by rw [late.flags, early.flags, List.any_append, Bool.or_assoc]
  fresh turn member choice held single := by
    rcases List.mem_append.1 member with inside | inside
    · exact early.fresh turn inside choice held single
    · have free := late.fresh turn inside choice held single
      rw [early.flags] at free
      exact (Bool.or_eq_false_iff.1 free).1
  apart := by
    refine List.pairwise_append.2 ⟨early.apart, late.apart, ?_⟩
    rintro earlier taken later turn choice rfl other held single same
    have free := late.fresh later turn other held single
    rw [same, early.flagged taken] at free
    cases free

end Uses

namespace Session

/-- The turns of a request for the next beat. -/
def nextTurns : Nat → Session → List Turn
  | 0, _ => []
  | allowance + 1, s =>
      s.turn?.toList ++ match s.step.flow with
        | .proceed => nextTurns allowance s.step.session
        | _ => []

def turns (s : Session) : Operation → List Turn
  | .next allowance => s.nextTurns allowance
  | .choose index => s.offered[index]?.toList.map .taken
  | _ => []

theorem memory_start (s : Session) (block : Option String) :
    (s.perform (.start block)).session.memory = s.memory := by
  cases block with
  | none => rfl
  | some name =>
      simp only [perform, start]
      cases s.script.block? name <;> rfl

theorem memory_off (s : Session) (id : Nat) :
    (s.perform (.off id)).session.memory = s.memory := by
  simp only [perform, off]
  cases s.listeners.off? id <;> rfl

end Session
end Dialogue
