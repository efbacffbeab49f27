import Dialogue.Document.Json
import Dialogue.Proofs.KeyOrder
import Mathlib

/-! Types that no node has. The check goes through the objects of a tree from the outside in, each
with its values by the bytes of their keys, and a text with a type that is not known is refused for
the first of them, whatever else is wrong with it. -/
namespace Dialogue.Document

open Json (latest inByteOrder sorted sortedEntries)

def isUnknown (name : String) : Bool := !nodeTypes.contains name

def named : Option Json → List String
  | some (.str name) => [name]
  | _ => []

mutual

/-- The types of the objects in a tree that are texts: an object's own before those in its values,
which come by the bytes of their keys, and items as they stand. -/
def types : Json → List String
  | .obj entries =>
      named ((latest entries).lookup "type") ++
        (inByteOrder (typesEntries entries)).flatMap Prod.snd
  | .arr items => typesItems items
  | _ => []

def typesItems : List Json → List String
  | [] => []
  | j :: rest => types j ++ typesItems rest

def typesEntries : List (String × Json) → List (String × List String)
  | [] => []
  | (key, j) :: rest => (key, types j) :: typesEntries rest

end

theorem types_arr (items : List Json) : types (.arr items) = items.flatMap types := by
  rw [types]
  induction items with
  | nil => rfl
  | cons j rest ih => rw [typesItems, ih, List.flatMap_cons]

theorem typesEntries_eq_map (entries : List (String × Json)) :
    typesEntries entries = entries.map fun entry => (entry.1, types entry.2) := by
  induction entries with
  | nil => rfl
  | cons entry rest ih => rw [typesEntries, ih, List.map_cons]

theorem types_obj (entries : List (String × Json)) :
    types (.obj entries) = named ((latest entries).lookup "type") ++
      (inByteOrder entries).flatMap fun entry => types entry.2 := by
  rw [types, typesEntries_eq_map, Json.inByteOrder_map, List.flatMap_map]

theorem unknownType?_arr (items : List Json) :
    unknownType? (.arr items) = items.findSome? unknownType? := by
  rw [unknownType?]
  induction items with
  | nil => rfl
  | cons j rest ih => rw [unknownTypeItems?, ih, List.findSome?_cons]; cases unknownType? j <;> rfl

theorem unknownTypeEntries?_eq_findSome? (entries : List (String × Json)) :
    unknownTypeEntries? entries = entries.findSome? fun entry => unknownType? entry.2 := by
  induction entries with
  | nil => rfl
  | cons entry rest ih =>
      rw [unknownTypeEntries?, ih, List.findSome?_cons]
      cases unknownType? entry.2 <;> rfl

/-- An object's own type is looked at before its values. -/
theorem unknownType?_obj (entries : List (String × Json)) :
    unknownType? (.obj entries) = ((named (entries.lookup "type")).find? isUnknown).or
      (entries.findSome? fun entry => unknownType? entry.2) := by
  rw [unknownType?, unknownTypeEntries?_eq_findSome?]
  split
  · next name own =>
      rw [own, named, List.find?_singleton, isUnknown]
      cases nodeTypes.contains name <;> rfl
  · next other =>
      have none : named (entries.lookup "type") = [] := by
        unfold named
        split
        · next name own => exact absurd own (other name)
        · rfl
      rw [none]
      rfl

theorem findSome?_congr {α β : Type} {f g : α → Option β} {list : List α}
    (each : ∀ a ∈ list, f a = g a) : list.findSome? f = list.findSome? g := by
  rw [← List.head?_filterMap, List.filterMap_congr each, List.head?_filterMap]

theorem named_map_sorted (own : Option Json) : named (own.map sorted) = named own := by
  rcases own with _ | _ | _ | _ | _ | _ | _ <;> rfl

theorem lookup_sortedEntries (entries : List (String × Json)) (name : String) :
    (sortedEntries [] entries).lookup name = ((latest entries).lookup name).map sorted := by
  have distinct := Json.nodup_latest entries
  have perm := Json.inByteOrder_perm entries
  have still := ((perm.map Prod.fst).nodup_iff).2 distinct
  have same : (inByteOrder entries).lookup name = (latest entries).lookup name :=
    Option.some.inj <| by
      rw [← Json.unique?_of_nodup still, ← Json.unique?_of_nodup distinct, Json.unique?_perm perm]
  rw [Json.sortedEntries_eq, Json.lookup_map_sortedEntry, same]

theorem unknownType?_sorted (v : Json) : unknownType? v.sorted = (types v).find? isUnknown := by
  induction v using Json.induction with
  | null | bool b | num n | str s => rfl
  | arr items ih =>
      rw [sorted, Json.sortedItems_eq_map, unknownType?_arr, List.findSome?_map, types_arr,
        List.find?_flatMap]
      exact findSome?_congr ih
  | obj entries ih =>
      have each : ∀ entry ∈ inByteOrder entries,
          unknownType? entry.2.sorted = (types entry.2).find? isUnknown := fun entry member =>
        ih entry (Json.mem_of_mem_inByteOrder member)
      rw [sorted, unknownType?_obj, lookup_sortedEntries, named_map_sorted, Json.sortedEntries_eq,
        List.findSome?_map, types_obj, List.find?_append, List.find?_flatMap]
      exact congrArg _ (findSome?_congr each)

/-- A text is refused for a type exactly if its tree has one that is not known, and then for the
first. -/
theorem refused_iff_first_unknown :
    (∀ v : Json, v.InOrder → unknownType? v = (types v).find? isUnknown) ∧
    ∀ (text : String) (name : String), read text = .error (.unknownType name) ↔
      ∃ v, Json.read? text = some v ∧ (types v).find? isUnknown = some name := by
  refine ⟨fun v ordered => ?_, fun text name => ?_⟩
  · conv_lhs => rw [← Json.sorted_of_inOrder ordered]
    exact unknownType?_sorted v
  · unfold read
    cases Json.read? text with
    | none => simp
    | some v =>
        have first := unknownType?_sorted v
        simp only [decode, Option.some.injEq, exists_eq_left', ← first]
        cases unknownType? v.sorted with
        | some other => simp
        | none => cases ofJson? v.sorted <;> simp

/-- The first type by the keys is not the first in the text, and a type that is a number is none. -/
theorem refused_iff_first_unknown_song :
    unknownType? (.obj [("a", .obj [("type", .num (.int 7)), ("z", .obj [("type", .str "song")])]),
      ("content", .arr [.obj [("type", .str "verse")]]), ("type", .str "document")]) =
        some "song" ∧
    read ("\x7b\"type\":\"document\",\"content\":[\x7b\"type\":\"verse\"\x7d]," ++
      "\"a\":\x7b\"z\":\x7b\"type\":\"song\"\x7d,\"type\":7\x7d\x7d") =
        .error (.unknownType "song") := by
  constructor
  · rw [refused_iff_first_unknown.1 _ (Json.inOrder_iff.2 rfl)]
    cbv
  · refine (refused_iff_first_unknown.2 _ _).2 ⟨.obj [("type", .str "document"),
      ("content", .arr [.obj [("type", .str "verse")]]),
      ("a", .obj [("z", .obj [("type", .str "song")]), ("type", .num (.int 7))])], ?_, ?_⟩
    · cbv
    · cbv

end Dialogue.Document
