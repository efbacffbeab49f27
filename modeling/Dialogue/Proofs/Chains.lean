import Dialogue.Proofs.ChangeLog
import Dialogue.Proofs.Visits

/-! Chains of assignments. A chain does what its links do on their own, one after the other from the
last to the first, where each but the last stores the value that the link after it has stored. So
does a list of chains, from its first to its last. -/
namespace Dialogue

theorem Tells.getElem?_eq {before after : Std.ExtTreeMap String Value} {names : List String}
    {events : List Event} (tells : Tells before names events after) {name : String}
    (other : name ∉ names) : after[name]? = before[name]? := by
  induction tells with
  | nothing values => rfl
  | changed key value rest ih =>
      obtain ⟨apart, later⟩ := not_or.1 (List.mem_cons.not.1 other)
      rw [ih later, Std.ExtTreeMap.getElem?_insert, if_neg]
      simpa [Std.compare_eq_iff_eq] using Ne.symm apart
  | triggered key rest ih => exact ih other

/-- Whether a memory differs from another in nothing but the values of some variables. -/
structure Memory.ChangedAt (names : List String) (m after : Memory) : Prop where
  values : ∀ name, name ∉ names → after.values[name]? = m.values[name]?
  access : after.access = m.access
  internal : after.internal = m.internal

namespace Assignment

/-- The variable that an assignment stores under last. -/
def name : Assignment → String
  | store name _ _ => name
  | chain name _ _ => name

/-- Whether an assignment stores the value of an expression. -/
def isPlain : Assignment → Bool
  | store .. => true
  | chain .. => false

/-- The links of a chain as assignments on their own, from the last to the first. Each but the last
stores what is then the value of the link after it. -/
def unfold (m : Memory) : Assignment → List Assignment
  | store name update e => [store name update e]
  | chain name update next =>
      let links := next.unfold m
      links ++ [store name update (.constant ((runAll m links).memory.stored next.name))]

/-- The links of all chains, each unfolded after those before it have been run. -/
def unfoldAll (m : Memory) : List Assignment → List Assignment
  | [] => []
  | first :: rest =>
      let links := first.unfold m
      links ++ unfoldAll (runAll m links).memory rest

theorem isPlain_of_mem_unfold {m : Memory} {a link : Assignment} (member : link ∈ a.unfold m) :
    link.isPlain := by
  induction a with
  | store name update e =>
      obtain rfl := List.mem_singleton.1 member
      rfl
  | chain name update next ih =>
      obtain inner | last := List.mem_append.1 member
      · exact ih inner
      · obtain rfl := List.mem_singleton.1 last
        rfl

theorem isPlain_of_mem_unfoldAll {m : Memory} {assignments : List Assignment} {link : Assignment}
    (member : link ∈ unfoldAll m assignments) : link.isPlain := by
  induction assignments generalizing m with
  | nil => cases member
  | cons first rest ih =>
      obtain inner | later := List.mem_append.1 member
      · exact isPlain_of_mem_unfold inner
      · exact ih later

theorem map_name_unfold (m : Memory) (a : Assignment) : (a.unfold m).map name = a.names := by
  induction a with
  | store name update e => rfl
  | chain key update next ih => rw [unfold, List.map_append, ih, names]; rfl

theorem map_name_unfoldAll (m : Memory) (assignments : List Assignment) :
    (unfoldAll m assignments).map name = assignments.flatMap names := by
  induction assignments generalizing m with
  | nil => rfl
  | cons first rest ih => rw [unfoldAll, List.map_append, map_name_unfold, ih, List.flatMap_cons]

theorem runAll_append (m : Memory) (first second : List Assignment) :
    (runAll m (first ++ second)).memory = (runAll (runAll m first).memory second).memory ∧
      (runAll m (first ++ second)).events =
        (runAll m first).events ++ (runAll (runAll m first).memory second).events := by
  induction first generalizing m with
  | nil => exact ⟨rfl, rfl⟩
  | cons a rest ih =>
      obtain ⟨memory, events⟩ := ih (a.run m).memory
      refine ⟨memory, ?_⟩
      simp only [List.cons_append, runAll, events, List.append_assoc]

theorem getElem?_put (m : Memory) (name : String) (update : Update) (value : Value) :
    (put m name update value).2.1.values[name]? = some (put m name update value).1 := by
  simp [put, Memory.write, Memory.set]

/-- An assignment gives back what it has stored under its name. -/
theorem getElem?_run (m : Memory) (a : Assignment) :
    (a.run m).memory.values[a.name]? = some (a.run m).result := by
  cases a with
  | store name update e => exact getElem?_put m name update _
  | chain name update next => exact getElem?_put _ name update _

theorem runAll_unfold (m : Memory) (a : Assignment) :
    (runAll m (a.unfold m)).memory = (a.run m).memory ∧
      (runAll m (a.unfold m)).events = (a.run m).events := by
  induction a with
  | store name update e => exact ⟨rfl, rfl⟩
  | chain name update next ih =>
      obtain ⟨memory, events⟩ := ih
      have stored : (next.run m).memory.stored next.name = (next.run m).result := by
        rw [Memory.stored, getElem?_run, Option.getD_some]
      rw [unfold, memory, stored]
      obtain ⟨after, told⟩ := runAll_append m (next.unfold m)
        [store name update (.constant (next.run m).result)]
      rw [after, told, memory, events]
      exact ⟨rfl, rfl⟩

theorem runAll_unfoldAll (m : Memory) (assignments : List Assignment) :
    (runAll m (unfoldAll m assignments)).memory = (runAll m assignments).memory ∧
      (runAll m (unfoldAll m assignments)).events = (runAll m assignments).events := by
  induction assignments generalizing m with
  | nil => exact ⟨rfl, rfl⟩
  | cons first rest ih =>
      obtain ⟨memory, events⟩ := runAll_unfold m first
      obtain ⟨later, more⟩ := ih (first.run m).memory
      rw [unfoldAll, memory]
      obtain ⟨after, told⟩ := runAll_append m (first.unfold m)
        (unfoldAll (first.run m).memory rest)
      rw [after, told, memory, events, later, more]
      exact ⟨rfl, rfl⟩

/-- A chain leaves the same memory and announces the same events, in the same order, as its links
one after the other from the last to the first. It gives back the value that is stored under its
first name, and changes no variable that it does not name, no flag and no bookkeeping. The same
holds along a list of chains. -/
theorem run_eq_unfold (m : Memory) :
    (∀ a : Assignment,
      (∀ link ∈ a.unfold m, link.isPlain) ∧ (a.unfold m).map name = a.names ∧
      (a.run m).memory = (runAll m (a.unfold m)).memory ∧
      (a.run m).events = (runAll m (a.unfold m)).events ∧
      (a.run m).memory.values[a.name]? = some (a.run m).result ∧
      m.ChangedAt a.names (a.run m).memory) ∧
    ∀ assignments : List Assignment,
      (∀ link ∈ unfoldAll m assignments, link.isPlain) ∧
      (unfoldAll m assignments).map name = assignments.flatMap names ∧
      (runAll m assignments).memory = (runAll m (unfoldAll m assignments)).memory ∧
      (runAll m assignments).events = (runAll m (unfoldAll m assignments)).events ∧
      m.ChangedAt (assignments.flatMap names) (runAll m assignments).memory := by
  refine ⟨fun a => ?_, fun assignments => ?_⟩
  · obtain ⟨memory, events⟩ := runAll_unfold m a
    have changed : m.ChangedAt a.names (a.run m).memory :=
      ⟨fun _ other => (a.tells_run m).getElem?_eq other, access_run m a, internal_run m a⟩
    exact ⟨fun _ => isPlain_of_mem_unfold, map_name_unfold m a, memory.symm, events.symm,
      getElem?_run m a, changed⟩
  · obtain ⟨memory, events⟩ := runAll_unfoldAll m assignments
    have changed : m.ChangedAt (assignments.flatMap names) (runAll m assignments).memory :=
      ⟨fun _ other => (tells_runAll m assignments).getElem?_eq other, access_runAll m assignments,
        internal_runAll m assignments⟩
    exact ⟨fun _ => isPlain_of_mem_unfoldAll, map_name_unfoldAll m assignments, memory.symm,
      events.symm, changed⟩

/-- Written `x += x = 2`: the variable is stored first as two, and then as four. -/
example :
    let two : Value := .number 2.0
    (chain "x" .add (store "x" .replace (.constant two))).unfold ∅ =
      [store "x" .replace (.constant two), store "x" .add (.constant two)] := by rfl

end Assignment
end Dialogue
