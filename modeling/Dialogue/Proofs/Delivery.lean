import Dialogue.Proofs.Snapshot
import Mathlib.Data.List.Nodup

/-! Deliveries. Every listener gets an id that none had before it, so an id stands for one listener
as long as it is registered, and that listener receives the events of its kind, each once and in
their order. -/
namespace Dialogue

namespace Listeners

/-- Whether the ids in use differ and were given out before. -/
structure Lawful (all : Listeners) : Prop where
  distinct : (all.registered.map Listener.id).Nodup
  given : ∀ listener ∈ all.registered, listener.id < all.nextId

variable {all : Listeners}

theorem lawful_empty : Lawful {} := ⟨List.nodup_nil, nofun⟩

theorem Lawful.on (lawful : all.Lawful) (kind : Event.Kind) : (all.on kind).2.Lawful := by
  constructor
  · have fresh : all.nextId ∉ all.registered.map Listener.id := by
      intro used
      obtain ⟨listener, member, same⟩ := List.mem_map.1 used
      exact Nat.lt_irrefl _ (same ▸ lawful.given listener member)
    have extended := lawful.distinct.concat fresh
    simpa [Listeners.on, List.concat_eq_append] using extended
  · intro listener member
    rcases List.mem_append.1 member with old | new
    · exact Nat.lt_succ_of_lt (lawful.given listener old)
    · obtain rfl := List.mem_singleton.1 new
      exact Nat.lt_succ_self _

theorem registered_of_off? {id : Nat} {left : Listeners} (removed : all.off? id = some left) :
    left.registered = all.registered.eraseP (fun listener => listener.id == id) ∧
      left.nextId = all.nextId := by
  unfold off? at removed
  split at removed
  · obtain rfl := Option.some.inj removed
    exact ⟨rfl, rfl⟩
  · cases removed

theorem Lawful.off? (lawful : all.Lawful) {id : Nat} {left : Listeners}
    (removed : all.off? id = some left) : left.Lawful := by
  obtain ⟨registered, next⟩ := registered_of_off? removed
  constructor
  · rw [registered]
    exact lawful.distinct.sublist (List.eraseP_sublist.map _)
  · intro listener member
    rw [registered] at member
    rw [next]
    exact lawful.given listener (List.mem_of_mem_eraseP member)

theorem mem_of_off? {id : Nat} {left : Listeners} (removed : all.off? id = some left)
    {listener : Listener} (member : listener ∈ all.registered) (other : listener.id ≠ id) :
    listener ∈ left.registered := by
  rw [(registered_of_off? removed).1]
  exact (List.mem_eraseP_of_neg (by simpa using other)).2 member

/-- What a listener receives of what is delivered. -/
def received (id : Nat) (deliveries : List (Nat × Event)) : List Event :=
  deliveries.filterMap fun delivery => if delivery.1 = id then some delivery.2 else none

theorem received_map (id : Nat) (receivers : List Nat) (event : Event) :
    received id (receivers.map fun receiver => (receiver, event)) =
      List.replicate (receivers.count id) event := by
  induction receivers with
  | nil => rfl
  | cons receiver rest ih =>
      unfold received at ih ⊢
      by_cases same : receiver = id
      · subst same
        simp only [List.map_cons, List.filterMap_cons, if_true, List.count_cons_self, ih,
          List.replicate_succ]
      · simp only [List.map_cons, List.filterMap_cons, same, if_false, ih,
          List.count_cons_of_ne same]

theorem Lawful.mem_receivers_iff (lawful : all.Lawful) {listener : Listener}
    (member : listener ∈ all.registered) (event : Event) :
    listener.id ∈ all.receivers event ↔ (listener.kind == event.kind) = true := by
  constructor
  · intro inside
    obtain ⟨other, found, same⟩ := List.mem_map.1 inside
    obtain ⟨registered, kind⟩ := List.mem_filter.1 found
    obtain rfl := List.inj_on_of_nodup_map lawful.distinct registered member same
    exact kind
  · intro kind
    exact List.mem_map_of_mem (List.mem_filter.2 ⟨member, kind⟩)

/-- An id stands for one listener, so an event of its kind comes once. -/
theorem Lawful.received_deliver (lawful : all.Lawful) {listener : Listener}
    (member : listener ∈ all.registered) (events : List Event) :
    received listener.id (all.deliver events) =
      events.filter fun event => listener.kind == event.kind := by
  induction events with
  | nil => rfl
  | cons event rest ih =>
      have distinct : (all.receivers event).Nodup :=
        lawful.distinct.sublist (List.filter_sublist.map _)
      have first := received_map listener.id (all.receivers event) event
      simp only [distinct.count, lawful.mem_receivers_iff member] at first
      have split : received listener.id (all.deliver (event :: rest)) =
          received listener.id ((all.receivers event).map fun id => (id, event)) ++
            received listener.id (all.deliver rest) := List.filterMap_append
      rw [split, first, ih, List.filter_cons]
      split <;> rfl

end Listeners

namespace Session

theorem lawful_perform {s : Session} (lawful : s.listeners.Lawful) (op : Operation) :
    (s.perform op).session.listeners.Lawful := by
  cases op with
  | on kind => exact lawful.on kind
  | off id =>
      simp only [perform, off]
      cases removed : s.listeners.off? id with
      | some left => exact lawful.off? removed
      | none => exact lawful
  | _ =>
      rw [listeners_perform s rfl]
      exact lawful

theorem lawful_run {s : Session} (lawful : s.listeners.Lawful) (ops : List Operation) :
    (s.run ops).2.listeners.Lawful := by
  induction ops generalizing s with
  | nil => exact lawful
  | cons op rest ih => exact ih (lawful_perform lawful op)

theorem lawful_ofScript (script : Script) (random : UInt32)
    (dictionary : Std.ExtTreeMap String String) (data : Option Memory) :
    (ofScript script random dictionary data).listeners.Lawful := by
  cases data <;> exact Listeners.lawful_empty

theorem mem_perform {s : Session} {listener : Listener}
    (member : listener ∈ s.listeners.registered) {op : Operation} (stays : op ≠ .off listener.id) :
    listener ∈ (s.perform op).session.listeners.registered := by
  cases op with
  | on kind => exact List.mem_append_left _ member
  | off id =>
      have other : listener.id ≠ id := fun same => stays (by rw [same])
      simp only [perform, off]
      cases removed : s.listeners.off? id with
      | some left => exact Listeners.mem_of_off? removed member other
      | none => exact member
  | _ =>
      rw [listeners_perform s rfl]
      exact member

/-- What a listener receives in a run. -/
def Report.received (id : Nat) (report : Report) : List Event :=
  Listeners.received id report.deliveries

/-- A listener that is not removed receives the events of its kind, each once and in their order. -/
theorem received_run {s : Session} (lawful : s.listeners.Lawful) {listener : Listener}
    (member : listener ∈ s.listeners.registered) {ops : List Operation}
    (stays : ∀ op ∈ ops, op ≠ .off listener.id) :
    (s.run ops).1.flatMap (Report.received listener.id) =
      ((s.run ops).1.flatMap Report.events).filter fun event => listener.kind == event.kind := by
  induction ops generalizing s with
  | nil => rfl
  | cons op rest ih =>
      obtain ⟨here, others⟩ := List.forall_mem_cons.1 stays
      have first := lawful.received_deliver member (s.perform op).events
      have later := ih (lawful_perform lawful op) (mem_perform member here) others
      rw [run_cons, List.flatMap_cons, List.flatMap_cons, List.filter_append, later]
      exact congrArg (· ++ _) first

end Session
end Dialogue
