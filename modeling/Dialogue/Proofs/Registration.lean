import Dialogue.Proofs.Delivery

/-! Registration over any sequence of requests. What was answered so far says who is registered:
those that were given an id and whose id was not removed since. The listeners agree with that after
every sequence, so that an id is given once only, an event goes to those that are registered, and
an id that was removed stays invalid. -/
namespace Dialogue.Listeners

/-- What listeners are asked to do. -/
inductive Request where
  | on (kind : Event.Kind)
  | off (id : Nat)
  | emit (event : Event)

/-- What a request has come to. -/
inductive Entry where
  | given (id : Nat) (kind : Event.Kind)
  | removed (id : Nat)
  | refused (id : Nat) (fault : Fault)
  | delivered (event : Event) (deliveries : List (Nat × Event))

def perform (all : Listeners) : Request → Entry × Listeners
  | .on kind => (.given (all.on kind).1 kind, (all.on kind).2)
  | .off id =>
      match all.off? id with
      | some left => (.removed id, left)
      | none => (.refused id .listenerNotFound, all)
  | .emit event => (.delivered event (all.deliver [event]), all)

/-- What requests come to one after another, and who listens after them. -/
def run : Listeners → List Request → List Entry × Listeners
  | all, [] => ([], all)
  | all, request :: rest =>
      let step := all.perform request
      let later := run step.2 rest
      (step.1 :: later.1, later.2)

/-- The ids that were given, in order. -/
def given (entries : List Entry) : List Nat :=
  entries.filterMap fun
    | .given id _ => some id
    | _ => none

/-- The ids that were removed. -/
def removed (entries : List Entry) : List Nat :=
  entries.filterMap fun
    | .removed id => some id
    | _ => none

/-- Who was given an id that was not removed after that, in the order in which ids were given. -/
def standing : List Entry → List Listener
  | [] => []
  | .given id kind :: later =>
      if id ∈ removed later then standing later else ⟨id, kind⟩ :: standing later
  | _ :: later => standing later

variable {all : Listeners} {entries earlier later : List Entry}

theorem given_append (earlier later : List Entry) :
    given (earlier ++ later) = given earlier ++ given later :=
  List.filterMap_append

theorem removed_append (earlier later : List Entry) :
    removed (earlier ++ later) = removed earlier ++ removed later :=
  List.filterMap_append

theorem standing_append (earlier later : List Entry) :
    standing (earlier ++ later) =
      (standing earlier).filter (fun listener => listener.id ∉ removed later) ++
        standing later := by
  induction earlier with
  | nil => rfl
  | cons entry rest ih =>
      cases entry with
      | given id kind =>
          simp only [List.cons_append, standing, removed_append, List.mem_append, ih]
          by_cases gone : id ∈ removed rest
          · simp only [gone, true_or, if_true]
          · by_cases going : id ∈ removed later <;> simp [gone, going]
      | removed id | refused id fault | delivered event deliveries => exact ih

/-- Where ids differ, removing a listener leaves all that have another id. -/
theorem eraseP_eq_filter {registered : List Listener}
    (distinct : (registered.map Listener.id).Nodup) (id : Nat) :
    registered.eraseP (fun listener => listener.id == id) =
      registered.filter fun listener => listener.id ≠ id := by
  induction registered with
  | nil => rfl
  | cons first rest ih =>
      obtain ⟨fresh, apart⟩ := List.nodup_cons.1 distinct
      by_cases same : first.id = id
      · have others : ∀ listener ∈ rest, decide (listener.id ≠ id) = true := by
          intro listener member
          refine decide_eq_true fun equal => fresh ?_
          rw [same, ← equal]
          exact List.mem_map_of_mem member
        rw [List.eraseP_cons_of_pos (by simpa using same),
          List.filter_cons_of_neg (by simpa using same), List.filter_eq_self.2 others]
      · rw [List.eraseP_cons_of_neg (by simpa using same),
          List.filter_cons_of_pos (by simpa using same), ih apart]

theorem off?_of_mem {id : Nat} (member : id ∈ all.registered.map Listener.id) :
    all.off? id =
      some { all with registered := all.registered.eraseP fun listener => listener.id == id } := by
  obtain ⟨listener, found, rfl⟩ := List.mem_map.1 member
  refine if_pos (List.any_eq_true.2 ⟨listener, found, ?_⟩)
  exact beq_self_eq_true listener.id

theorem off?_of_not_mem {id : Nat} (unknown : id ∉ all.registered.map Listener.id) :
    all.off? id = none := by
  refine if_neg fun found => unknown ?_
  obtain ⟨listener, member, same⟩ := List.any_eq_true.1 found
  exact List.mem_map.2 ⟨listener, member, beq_iff_eq.1 same⟩

theorem perform_off_of_mem (lawful : all.Lawful) {id : Nat}
    (member : id ∈ all.registered.map Listener.id) :
    all.perform (.off id) = (.removed id,
      { all with registered := all.registered.filter fun listener => listener.id ≠ id }) := by
  simp only [perform, off?_of_mem member, eraseP_eq_filter lawful.distinct]

theorem perform_off_of_not_mem {id : Nat} (unknown : id ∉ all.registered.map Listener.id) :
    all.perform (.off id) = (.refused id .listenerNotFound, all) := by
  simp only [perform, off?_of_not_mem unknown]

theorem perform_emit (all : Listeners) (event : Event) :
    all.perform (.emit event) = (.delivered event
      ((all.registered.filter fun listener => listener.kind == event.kind).map
        fun listener => (listener.id, event)), all) := by
  simp [perform, deliver, receivers]

/-- A session removes a listener as its listeners do. -/
theorem off_eq_perform (s : Session) (id : Nat) :
    s.off id = match s.listeners.perform (.off id) with
      | (.refused _ fault, _) => .error fault
      | (_, left) => .ok { s with listeners := left } := by
  simp only [perform, Session.off]
  cases s.listeners.off? id <;> rfl

/-- Whether listeners agree with what requests have come to. -/
structure Agrees (entries : List Entry) (all : Listeners) : Prop where
  lawful : all.Lawful
  registered : all.registered = standing entries
  counted : given entries = List.range all.nextId
  gone : ∀ id ∈ removed entries, id < all.nextId ∧ id ∉ all.registered.map Listener.id

theorem agrees_empty : Agrees [] {} := ⟨lawful_empty, rfl, rfl, nofun⟩

namespace Agrees

variable (agrees : Agrees entries all)
include agrees

theorem on (kind : Event.Kind) :
    Agrees (entries ++ [.given (all.on kind).1 kind]) (all.on kind).2 where
  lawful := agrees.lawful.on kind
  registered := by
    rw [standing_append, ← agrees.registered]
    simp [Listeners.on, removed, standing]
  counted := by
    rw [given_append, agrees.counted]
    exact List.range_succ.symm
  gone := by
    intro id member
    rw [removed_append] at member
    obtain ⟨old, absent⟩ := agrees.gone id (by simpa [removed] using member)
    refine ⟨Nat.lt_succ_of_lt old, ?_⟩
    have other : id ≠ all.nextId := Nat.ne_of_lt old
    simpa [Listeners.on, other] using absent

theorem off {id : Nat} (member : id ∈ all.registered.map Listener.id) :
    Agrees (entries ++ [.removed id])
      { all with registered := all.registered.filter fun listener => listener.id ≠ id } where
  lawful := by
    rw [← eraseP_eq_filter agrees.lawful.distinct]
    exact agrees.lawful.off? (off?_of_mem member)
  registered := by
    rw [standing_append, ← agrees.registered]
    simp [removed, standing]
  counted := by
    rw [given_append, agrees.counted]
    exact List.append_nil _
  gone := by
    intro other listed
    rw [removed_append] at listed
    rcases List.mem_append.1 listed with before | now
    · obtain ⟨old, absent⟩ := agrees.gone other before
      refine ⟨old, fun left => absent ?_⟩
      exact (List.filter_sublist.map Listener.id).subset left
    · obtain rfl := List.mem_singleton.1 now
      obtain ⟨listener, found, same⟩ := List.mem_map.1 member
      refine ⟨same ▸ agrees.lawful.given listener found, fun left => ?_⟩
      obtain ⟨kept, inside, equal⟩ := List.mem_map.1 left
      exact of_decide_eq_true (List.mem_filter.1 inside).2 equal

/-- What neither gives an id nor removes one changes nothing. -/
theorem keep {entry : Entry} (gives : given [entry] = []) (removes : removed [entry] = [])
    (adds : standing [entry] = []) : Agrees (entries ++ [entry]) all where
  lawful := agrees.lawful
  registered := by
    rw [standing_append, removes, adds, agrees.registered]
    simp
  counted := by rw [given_append, gives, List.append_nil, agrees.counted]
  gone := by
    rw [removed_append, removes, List.append_nil]
    exact agrees.gone

theorem perform (request : Request) :
    Agrees (entries ++ [(all.perform request).1]) (all.perform request).2 := by
  cases request with
  | on kind => exact agrees.on kind
  | emit event => exact agrees.keep rfl rfl rfl
  | off id =>
      by_cases member : id ∈ all.registered.map Listener.id
      · rw [perform_off_of_mem agrees.lawful member]
        exact agrees.off member
      · rw [perform_off_of_not_mem member]
        exact agrees.keep rfl rfl rfl

theorem run (requests : List Request) :
    Agrees (entries ++ (all.run requests).1) (all.run requests).2 := by
  induction requests generalizing entries all with
  | nil => simpa [Listeners.run] using agrees
  | cons request rest ih =>
      have later := ih (agrees.perform request)
      rwa [List.append_assoc] at later

/-- An id that was removed is not given again, and there is nothing to remove under it. -/
theorem refuses {id : Nat} (gone : id ∈ removed entries) (later : List Request) :
    id ∉ given (all.run later).1 ∧
      (all.run later).2.perform (.off id) =
        (.refused id .listenerNotFound, (all.run later).2) := by
  have after := agrees.run later
  constructor
  · have old : id ∈ given entries := by
      rw [agrees.counted]
      exact List.mem_range.2 (agrees.gone id gone).1
    have distinct : (given entries ++ given (all.run later).1).Nodup := by
      rw [← given_append, after.counted]
      exact List.nodup_range
    exact fun again => List.disjoint_of_nodup_append distinct old again
  · refine perform_off_of_not_mem (after.gone id ?_).2
    rw [removed_append]
    exact List.mem_append_left _ gone

end Agrees

/-- After any requests to new listeners, all ids that were given differ; an event is delivered to
those that were given an id for its kind and were not removed since, each once and in the order of
their registration; removing takes away the one listener of an id, if there is one, and is refused
otherwise without a change, for listeners alone as for a session that has them; and an id that was
removed is neither given again nor valid, whatever is asked later. -/
theorem answers_of_requests (requests : List Request) :
    let entries := (run {} requests).1
    let all := (run {} requests).2
    (given entries).Nodup ∧ all.registered = standing entries ∧
    (∀ event,
      let receivers := (standing entries).filter fun listener => listener.kind == event.kind
      (receivers.map Listener.id).Nodup ∧ all.perform (.emit event) =
        (.delivered event (receivers.map fun listener => (listener.id, event)), all)) ∧
    (∀ id ∈ (standing entries).map Listener.id,
      let left := { all with registered := (standing entries).filter fun other => other.id ≠ id }
      all.perform (.off id) = (.removed id, left) ∧
        ∀ s : Session, s.listeners = all → s.off id = .ok { s with listeners := left }) ∧
    (∀ id ∉ (standing entries).map Listener.id,
      all.perform (.off id) = (.refused id .listenerNotFound, all) ∧
        ∀ s : Session, s.listeners = all → s.off id = .error .listenerNotFound) ∧
    ∀ id ∈ removed entries, ∀ later,
      id ∉ given (all.run later).1 ∧ (all.run later).2.perform (.off id) =
        (.refused id .listenerNotFound, (all.run later).2) := by
  intro entries all
  have agrees : Agrees entries all := agrees_empty.run requests
  have registered := agrees.registered
  refine ⟨?_, registered, fun event => ⟨?_, ?_⟩, fun id member => ?_, fun id unknown => ?_,
    fun id gone => agrees.refuses gone⟩
  · rw [agrees.counted]
    exact List.nodup_range
  · rw [← registered]
    exact agrees.lawful.distinct.sublist (List.filter_sublist.map _)
  · rw [perform_emit, registered]
  · rw [← registered] at member ⊢
    have removes := perform_off_of_mem agrees.lawful member
    refine ⟨removes, ?_⟩
    rintro s same
    rw [off_eq_perform, same, removes]
  · rw [← registered] at unknown
    have refuses := perform_off_of_not_mem unknown
    refine ⟨refuses, ?_⟩
    rintro s same
    rw [off_eq_perform, same, refuses]

/-- With the first of three listeners removed there is one to remove under the id 1, none under the
id 0, and the next id is a new one. -/
theorem answers_of_requests_removed :
    let requests := [.on .triggered, .on .variableChanged, .off 0, .on .triggered]
    let all := (run {} requests).2
    1 ∈ (standing (run {} requests).1).map Listener.id ∧
    (all.perform (.off 1)).1 = .removed 1 ∧
    0 ∉ (standing (run {} requests).1).map Listener.id ∧
    all.perform (.off 0) = (.refused 0 .listenerNotFound, all) ∧
    0 ∈ removed (run {} requests).1 ∧ 0 ∉ given (all.run [.on .triggered]).1 := by
  intro requests all
  obtain ⟨-, -, -, removes, refuses, gone⟩ := answers_of_requests requests
  have member : 1 ∈ (standing (run {} requests).1).map Listener.id := by decide
  have unknown : 0 ∉ (standing (run {} requests).1).map Listener.id := by decide
  have old : 0 ∈ removed (run {} requests).1 := by decide
  exact ⟨member, congrArg Prod.fst (removes 1 member).1, unknown, (refuses 0 unknown).1, old,
    (gone 0 old _).1⟩

end Dialogue.Listeners
