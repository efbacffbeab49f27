import Dialogue.Json.Fields
import Mathlib.Data.List.Perm.Basic

/-! Records with their entries in any order. Putting the keys of a record in order moves its entries
around, and the fields that are read are found wherever they stand. -/
namespace Dialogue.Json

variable {type name key : String} {j : Json} {entries others : List (String × Json)}

theorem insertEntry_perm (fresh : key ∉ entries.map Prod.fst) :
    (insertEntry key j entries).Perm ((key, j) :: entries) := by
  induction entries with
  | nil => exact .refl _
  | cons entry rest ih =>
      obtain ⟨k, v⟩ := entry
      rw [List.map_cons, List.mem_cons, not_or] at fresh
      unfold insertEntry
      split
      · exact .refl _
      · rw [if_neg (by simpa using fresh.1)]
        exact ((ih fresh.2).cons _).trans (.swap ..)

theorem sortedItems_eq_map (items : List Json) : sortedItems items = items.map sorted := by
  induction items with
  | nil => rfl
  | cons j rest ih => rw [sortedItems, ih, List.map_cons]

/-- An entry with its value in order. -/
def sortedEntry (entry : String × Json) : String × Json := (entry.1, entry.2.sorted)

theorem sortedEntries_perm (distinct : ((others ++ entries).map Prod.fst).Nodup) :
    (sortedEntries others entries).Perm (others ++ entries.map sortedEntry) := by
  induction entries generalizing others with
  | nil => simp [sortedEntries]
  | cons entry rest ih =>
      obtain ⟨k, v⟩ := entry
      have front : (others ++ (k, v) :: rest).Perm ((k, v) :: (others ++ rest)) :=
        List.perm_middle
      obtain ⟨fresh, apart⟩ := List.nodup_cons.1 ((front.map Prod.fst).nodup_iff.1 distinct)
      have moved : (insertEntry k v.sorted others).Perm ((k, v.sorted) :: others) := by
        refine insertEntry_perm fun member => fresh ?_
        rw [List.map_append]
        exact List.mem_append_left _ member
      have still : ((insertEntry k v.sorted others ++ rest).map Prod.fst).Nodup := by
        refine ((moved.append_right rest).map Prod.fst).nodup_iff.2 ?_
        exact List.nodup_cons.2 ⟨fresh, apart⟩
      rw [sortedEntries]
      refine (ih still).trans ((moved.append_right _).trans ?_)
      exact List.perm_middle.symm

theorem unique?_perm (perm : entries.Perm others) (name : String) :
    unique? entries name = unique? others name := by
  have filtered := perm.filter fun entry => entry.1 == name
  unfold unique?
  generalize entries.filter (fun entry => entry.1 == name) = left at filtered
  generalize others.filter (fun entry => entry.1 == name) = right at filtered
  match left, filtered with
  | [], filtered => rw [List.nil_perm.1 filtered]
  | [entry], filtered => rw [List.singleton_perm.1 filtered]
  | first :: second :: rest, filtered =>
      match right, filtered.length_eq with
      | _ :: _ :: _, _ => rfl

theorem unique?_of_nodup (distinct : (entries.map Prod.fst).Nodup) (name : String) :
    unique? entries name = some (entries.lookup name) := by
  unfold unique?
  induction entries with
  | nil => rfl
  | cons entry rest ih =>
      obtain ⟨k, v⟩ := entry
      obtain ⟨fresh, apart⟩ := List.nodup_cons.1 distinct
      by_cases same : k = name
      · subst same
        have none : rest.filter (fun entry => entry.1 == k) = [] := by
          refine List.filter_eq_nil_iff.2 fun entry member found => fresh ?_
          exact List.mem_map.2 ⟨entry, member, beq_iff_eq.1 found⟩
        simp [none]
      · have other : (name == k) = false := beq_false_of_ne (Ne.symm same)
        rw [List.filter_cons_of_neg (by simpa using same), List.lookup_cons, other]
        exact ih apart

theorem lookup_map_sortedEntry (entries : List (String × Json)) (name : String) :
    (entries.map sortedEntry).lookup name = (entries.lookup name).map sorted := by
  induction entries with
  | nil => rfl
  | cons entry rest ih =>
      obtain ⟨k, v⟩ := entry
      rw [List.map_cons, sortedEntry, List.lookup_cons, List.lookup_cons, ih]
      cases name == k <;> rfl

theorem fields?_of_perm (perm : entries.Perm others) (distinct : (others.map Prod.fst).Nodup)
    (names : List String) : fields? names (obj entries) =
      some (names.map fun name => others.lookup name) := by
  have each : unique? entries = fun name => some (others.lookup name) :=
    funext fun name => (unique?_perm perm name).trans (unique?_of_nodup distinct name)
  simp only [fields?, each]
  induction names with
  | nil => rfl
  | cons name names ih => rw [List.mapM_cons, ih]; rfl

theorem depth_le_depthItems {items : List Json} (member : j ∈ items) :
    j.depth ≤ depthItems items := by
  induction items with
  | nil => cases member
  | cons first rest ih =>
      rw [depthItems]
      obtain rfl | member := List.mem_cons.1 member
      · exact Nat.le_max_left _ _
      · exact Nat.le_trans (ih member) (Nat.le_max_right _ _)

theorem depth_le_depthEntries (member : (key, j) ∈ entries) : j.depth ≤ depthEntries entries := by
  induction entries with
  | nil => cases member
  | cons first rest ih =>
      rw [depthEntries]
      obtain rfl | member := List.mem_cons.1 member
      · exact Nat.le_max_left _ _
      · exact Nat.le_trans (ih member) (Nat.le_max_right _ _)

theorem depthItems_le {items : List Json} {depth : Nat} (each : ∀ j ∈ items, j.depth ≤ depth) :
    depthItems items ≤ depth := by
  induction items with
  | nil => exact Nat.zero_le _
  | cons j rest ih =>
      obtain ⟨first, others⟩ := List.forall_mem_cons.1 each
      exact Nat.max_le.2 ⟨first, ih others⟩

theorem depthEntries_le {depth : Nat} (each : ∀ entry ∈ entries, entry.2.depth ≤ depth) :
    depthEntries entries ≤ depth := by
  induction entries with
  | nil => exact Nat.zero_le _
  | cons entry rest ih =>
      obtain ⟨first, others⟩ := List.forall_mem_cons.1 each
      exact Nat.max_le.2 ⟨first, ih others⟩

theorem depth_sorted_lt_arr {items : List Json} (member : j ∈ items) :
    j.sorted.depth < (arr items).sorted.depth := by
  rw [sorted, sortedItems_eq_map, depth]
  exact Nat.lt_succ_of_le (depth_le_depthItems (List.mem_map.2 ⟨j, member, rfl⟩))

/-- Whether the keys of a record are all different, that of its kind among them. -/
def Distinct (entries : List (String × Json)) : Prop := ("type" :: entries.map Prod.fst).Nodup

theorem distinct_of_sublist (names : List String) (keys : (entries.map Prod.fst).Sublist names)
    (apart : ("type" :: names).Nodup) : Distinct entries :=
  apart.sublist (keys.cons_cons "type")

theorem map_fst_sortedEntry (entries : List (String × Json)) :
    (entries.map sortedEntry).map Prod.fst = entries.map Prod.fst := by
  rw [List.map_map]
  rfl

section Record

variable (distinct : Distinct entries)
include distinct

theorem sorted_record (type : String) : ∃ es, (record type entries).sorted = obj es ∧
    es.Perm (("type", str type) :: entries.map sortedEntry) :=
  ⟨_, rfl, sortedEntries_perm distinct⟩

theorem nodup_sorted_record (type : String) :
    ((("type", str type) :: entries.map sortedEntry).map Prod.fst).Nodup := by
  rw [List.map_cons, map_fst_sortedEntry]
  exact distinct

theorem fields?_sorted_record {names : List String} (free : "type" ∉ names) (type : String) :
    fields? names (record type entries).sorted =
      some (names.map fun name => (entries.lookup name).map sorted) := by
  obtain ⟨es, sorts, perm⟩ := sorted_record distinct type
  rw [sorts, fields?_of_perm perm (nodup_sorted_record distinct type)]
  refine congrArg some (List.map_congr_left fun name listed => ?_)
  have other : (name == "type") = false := beq_false_of_ne fun same => free (same ▸ listed)
  rw [List.lookup_cons, other]
  exact lookup_map_sortedEntry entries name

theorem tagged?_sorted_record {kind? : Json → Option String}
    (known : kind? (str type) = some type) :
    ∃ rest, tagged? kind? (record type entries).sorted = some (type, rest) ∧ ∀ names,
      fields? names rest = some (names.map fun name => (entries.lookup name).map sorted) := by
  obtain ⟨es, sorts, perm⟩ := sorted_record distinct type
  obtain ⟨free, apart⟩ := List.nodup_cons.1 distinct
  have tag : unique? es "type" = some (some (str type)) := by
    rw [unique?_perm perm, unique?_of_nodup (nodup_sorted_record distinct type)]
    rfl
  have rest : (es.filter fun entry => entry.1 != "type").Perm (entries.map sortedEntry) := by
    refine (perm.filter _).trans (.of_eq ?_)
    rw [List.filter_cons_of_neg (by simp), List.filter_eq_self]
    intro entry member
    refine bne_iff_ne.2 fun same => free ?_
    rw [← map_fst_sortedEntry]
    exact List.mem_map.2 ⟨entry, member, same⟩
  refine ⟨obj (es.filter fun entry => entry.1 != "type"), ?_, fun names => ?_⟩
  · rw [sorts, tagged?, tag]
    simp only [bind, Option.bind_some, known, pure]
  · rw [fields?_of_perm rest (by rwa [map_fst_sortedEntry])]
    exact congrArg some (List.map_congr_left fun name _ => lookup_map_sortedEntry entries name)

theorem depth_sorted_lt_record (member : (key, j) ∈ entries) (type : String) :
    j.sorted.depth < (record type entries).sorted.depth := by
  obtain ⟨es, sorts, perm⟩ := sorted_record distinct type
  have found : (key, j.sorted) ∈ es :=
    perm.mem_iff.2 (List.mem_cons_of_mem _ (List.mem_map.2 ⟨_, member, rfl⟩))
  rw [sorts, depth]
  exact Nat.lt_succ_of_le (depth_le_depthEntries found)

end Record

@[simp] theorem lookup_optionalEntry (name : String) (value : Option String) (key : String) :
    (optionalEntry name value).lookup key = if key == name then value.map str else none := by
  cases value with
  | none => simp [optionalEntry]
  | some s => cases same : key == name <;> simp [optionalEntry, List.lookup_cons, same]

@[simp] theorem lookup_listEntry (name : String) (strings : List String) (key : String) :
    (listEntry name strings).lookup key =
      if key == name ∧ strings ≠ [] then some (ofStrings strings) else none := by
  cases strings with
  | nil => simp [listEntry]
  | cons first rest => cases same : key == name <;> simp [listEntry, List.lookup_cons, same]

theorem optionalEntry_sublist (name : String) (value : Option String) :
    ((optionalEntry name value).map Prod.fst).Sublist [name] := by
  cases value with
  | none => exact List.nil_sublist _
  | some s => exact .refl _

theorem listEntry_sublist (name : String) (strings : List String) :
    ((listEntry name strings).map Prod.fst).Sublist [name] := by
  cases strings with
  | nil => exact List.nil_sublist _
  | cons first rest => exact .refl _

@[simp] theorem required?_some {α : Type} (read : Json → Option α) (j : Json) :
    required? read (some j) = read j := rfl

@[simp] theorem withDefault?_some {α : Type} (value : α) (read : Json → Option α) (j : Json) :
    withDefault? value read (some j) = read j := rfl

@[simp] theorem string?_str (s : String) : string? (str s) = some s := rfl

@[simp] theorem named?_str {α : Type} (ofName? : String → Option α) (s : String) :
    named? ofName? (str s) = ofName? s := rfl

@[simp] theorem innerNamed?_str {α : Type} (ofName? : String → Option α) (s : String) :
    innerNamed? ofName? (str s) = ofName? s := rfl

@[simp] theorem optional?_map_str (value : Option String) :
    optional? string? (value.map str) = some value := by
  cases value <;> rfl

@[simp] theorem sorted_str (s : String) : (str s).sorted = str s := rfl

@[simp] theorem sorted_comp_str : sorted ∘ str = str := rfl

@[simp] theorem sorted_ofStrings (strings : List String) :
    (ofStrings strings).sorted = ofStrings strings := by
  simp [ofStrings, sorted, sortedItems_eq_map]

/-- A list reads back if each of its items does. -/
theorem mapM_map_eq_some {α β : Type} {read : β → Option α} {write : α → β} {list : List α}
    (each : ∀ a ∈ list, read (write a) = some a) : (list.map write).mapM read = some list := by
  induction list with
  | nil => rfl
  | cons a rest ih =>
      obtain ⟨first, others⟩ := List.forall_mem_cons.1 each
      rw [List.map_cons, List.mapM_cons, first, ih others]
      rfl

@[simp] theorem strings?_ofStrings (strings : List String) :
    strings? (ofStrings strings) = some strings :=
  mapM_map_eq_some fun _ _ => rfl

theorem listOf?_sorted {α : Type} {read : Json → Option α} {write : α → Json} {list : List α}
    (each : ∀ a ∈ list, (write a).sorted.depth < (arr (list.map write)).sorted.depth →
      read (write a).sorted = some a) :
    listOf? read (arr (list.map write)).sorted = some list := by
  have items : ∀ a ∈ list, read (write a).sorted = some a := fun a member =>
    each a member (depth_sorted_lt_arr (List.mem_map.2 ⟨a, member, rfl⟩))
  rw [sorted, sortedItems_eq_map, List.map_map]
  exact mapM_map_eq_some items

end Dialogue.Json
