import Dialogue.Proofs.Records
import Mathlib.Data.List.Nodup

/-! Keys in order. Texts are in the order of the bytes that they are encoded as, so that putting the
keys of a tree in order gives what a map that is sorted by bytes holds: of the entries with one key
the last, by the bytes of their keys. -/
namespace Dialogue.Json

open String (utf8EncodeChar)

theorem induction {P : Json → Prop} (null : P .null) (bool : ∀ b, P (.bool b))
    (num : ∀ n, P (.num n)) (str : ∀ s, P (.str s))
    (arr : ∀ items, (∀ j ∈ items, P j) → P (.arr items))
    (obj : ∀ entries, (∀ entry ∈ entries, P entry.2) → P (.obj entries)) (j : Json) : P j :=
  @Json.rec P (fun items => ∀ j ∈ items, P j) (fun entries => ∀ entry ∈ entries, P entry.2)
    (fun entry => P entry.2) null bool num str arr obj nofun
    (fun _ _ first rest => List.forall_mem_cons.2 ⟨first, rest⟩) nofun
    (fun _ _ first rest => List.forall_mem_cons.2 ⟨first, rest⟩) (fun _ _ inner => inner) j

/-! The bytes of a text. -/

def bytes (text : String) : List UInt8 := text.toUTF8.data.toList

theorem bytes_eq_flatMap (text : String) : bytes text = text.toList.flatMap utf8EncodeChar := by
  have encoded : text.toByteArray = (text.toList.flatMap utf8EncodeChar).toByteArray :=
    String.utf8Encode_toList.symm
  simp [bytes, String.toUTF8, encoded]

theorem bytes_inj {a b : String} (same : bytes a = bytes b) : a = b :=
  String.toByteArray_inj.1 (ByteArray.ext (Array.toList_inj.1 same))

theorem toNat_lt (c : Char) : c.val.toNat < 0x110000 := by
  rcases c.valid with low | ⟨-, high⟩
  · exact Nat.lt_trans low (by decide)
  · exact high

/-- Of two characters the first one to differ decides, within its first byte that does. -/
theorem encode_lt {c d : Char} (less : c < d) (rest others : List UInt8) :
    utf8EncodeChar c ++ rest < utf8EncodeChar d ++ others := by
  have smaller : c.val.toNat < d.val.toNat := less
  have most := toNat_lt d
  unfold utf8EncodeChar
  generalize c.val.toNat = m at *
  generalize d.val.toNat = n at *
  simp only
  repeat' split
  all_goals
    simp only [List.cons_append, List.nil_append, List.cons_lt_cons_iff, UInt8.lt_iff_toNat_lt,
      ← UInt8.toNat_inj, UInt8.toNat_ofNat']
    simp (disch := omega) only [Nat.mod_eq_of_lt]
    omega

theorem nil_lt_encode (c : Char) (rest : List UInt8) : [] < utf8EncodeChar c ++ rest := by
  unfold utf8EncodeChar
  simp only
  repeat' split
  all_goals exact List.nil_lt_cons _ _

theorem flatMap_encode_lt {as bs : List Char} (less : as < bs) :
    as.flatMap utf8EncodeChar < bs.flatMap utf8EncodeChar := by
  induction as generalizing bs with
  | nil =>
      cases bs with
      | nil => exact absurd less (List.lt_irrefl _)
      | cons d bs => exact nil_lt_encode d _
  | cons c as ih =>
      cases bs with
      | nil => exact absurd less (List.not_lt_nil _)
      | cons d bs =>
          rw [List.flatMap_cons, List.flatMap_cons]
          rcases List.cons_lt_cons_iff.1 less with first | ⟨rfl, later⟩
          · exact encode_lt first _ _
          · exact List.append_left_lt (ih later)

/-- The order of texts is that of their bytes. -/
theorem bytes_lt {a b : String} (less : a < b) : bytes a < bytes b := by
  rw [bytes_eq_flatMap, bytes_eq_flatMap]
  exact flatMap_encode_lt less

/-! Entries that are put in order. -/

section
variable {α β : Type}

/-- Of the entries with one key the last. -/
def latest : List (String × α) → List (String × α)
  | [] => []
  | entry :: rest => if entry.1 ∈ rest.map Prod.fst then latest rest else entry :: latest rest

/-- The last entry of each key, by the bytes of their keys. -/
def inByteOrder (entries : List (String × α)) : List (String × α) :=
  (latest entries).mergeSort fun a b => bytes a.1 ≤ bytes b.1

variable {entries : List (String × α)} {entry : String × α}

theorem mem_latest_cons (entry other : String × α) (rest : List (String × α)) :
    other ∈ latest (entry :: rest) ↔
      (other = entry ∧ entry.1 ∉ rest.map Prod.fst) ∨ other ∈ latest rest := by
  rw [latest]
  split
  · next covered => simp [covered]
  · next fresh => simp [fresh]

theorem latest_sublist (entries : List (String × α)) : (latest entries).Sublist entries := by
  induction entries with
  | nil => exact .slnil
  | cons entry rest ih =>
      unfold latest
      split
      · exact ih.cons entry
      · exact ih.cons_cons entry

theorem nodup_latest (entries : List (String × α)) : ((latest entries).map Prod.fst).Nodup := by
  induction entries with
  | nil => exact List.nodup_nil
  | cons entry rest ih =>
      unfold latest
      split
      · exact ih
      · next fresh =>
          refine List.nodup_cons.2 ⟨fun member => fresh ?_, ih⟩
          exact ((latest_sublist rest).map Prod.fst).subset member

theorem latest_of_nodup (distinct : (entries.map Prod.fst).Nodup) : latest entries = entries := by
  induction entries with
  | nil => rfl
  | cons entry rest ih =>
      obtain ⟨fresh, apart⟩ := List.nodup_cons.1 distinct
      rw [latest, if_neg fresh, ih apart]

theorem latest_map (f : α → β) (entries : List (String × α)) :
    latest (entries.map fun entry => (entry.1, f entry.2)) =
      (latest entries).map fun entry => (entry.1, f entry.2) := by
  induction entries with
  | nil => rfl
  | cons entry rest ih =>
      have keys : (rest.map fun entry => (entry.1, f entry.2)).map Prod.fst =
          rest.map Prod.fst := by
        rw [List.map_map]
        rfl
      rw [List.map_cons, latest, latest, keys, ih]
      split <;> rfl

theorem inByteOrder_perm (entries : List (String × α)) :
    (inByteOrder entries).Perm (latest entries) :=
  List.mergeSort_perm _ _

theorem inByteOrder_map (f : α → β) (entries : List (String × α)) :
    inByteOrder (entries.map fun entry => (entry.1, f entry.2)) =
      (inByteOrder entries).map fun entry => (entry.1, f entry.2) := by
  rw [inByteOrder, inByteOrder, latest_map]
  exact (List.map_mergeSort (f := fun entry : String × α => (entry.1, f entry.2))
    fun _ _ _ _ => rfl).symm

theorem mem_of_mem_inByteOrder (member : entry ∈ inByteOrder entries) : entry ∈ entries :=
  (latest_sublist entries).subset ((inByteOrder_perm entries).mem_iff.1 member)

theorem pairwise_inByteOrder (entries : List (String × α)) :
    (inByteOrder entries).Pairwise fun a b => bytes a.1 ≤ bytes b.1 := by
  refine List.Pairwise.imp of_decide_eq_true (List.pairwise_mergeSort ?_ ?_ (latest entries))
  · intro a b c first second
    exact decide_eq_true (List.le_trans (of_decide_eq_true first) (of_decide_eq_true second))
  · intro a b
    simpa using List.le_total (bytes a.1) (bytes b.1)

/-- Entries with ascending keys are determined by which they are. -/
theorem eq_inByteOrder {ordered : List (String × α)}
    (ascending : ordered.Pairwise fun a b => a.1 < b.1)
    (same : ∀ entry, entry ∈ ordered ↔ entry ∈ latest entries) :
    ordered = inByteOrder entries := by
  have apart : ordered.Nodup := by
    refine ascending.imp fun less equal => ?_
    exact String.lt_irrefl _ (equal ▸ less)
  have distinct : (latest entries).Nodup := List.Nodup.of_map Prod.fst (nodup_latest entries)
  have perm : ordered.Perm (latest entries) := (List.perm_ext_iff_of_nodup apart distinct).2 same
  refine (perm.trans (inByteOrder_perm entries).symm).eq_of_pairwise ?_
    (ascending.imp fun less => List.le_of_lt (bytes_lt less)) (pairwise_inByteOrder entries)
  intro a b first second le ge
  have keys : a.1 = b.1 := bytes_inj (List.le_antisymm le ge)
  exact List.inj_on_of_nodup_map (nodup_latest entries) ((same a).1 first)
    ((inByteOrder_perm entries).mem_iff.1 second) keys

end

/-! Putting the keys of an object in order. -/

section
variable {key : String} {j : Json} {entries done : List (String × Json)} {entry : String × Json}

theorem mem_insertEntry (ascending : entries.Pairwise fun a b => a.1 < b.1) :
    entry ∈ insertEntry key j entries ↔ entry = (key, j) ∨ (entry ∈ entries ∧ entry.1 ≠ key) := by
  induction entries with
  | nil => simp [insertEntry]
  | cons first rest ih =>
      obtain ⟨k, v⟩ := first
      obtain ⟨above, apart⟩ := List.pairwise_cons.1 ascending
      unfold insertEntry
      split
      · next less =>
          have others : ∀ other ∈ (k, v) :: rest, other.1 ≠ key := by
            refine List.forall_mem_cons.2 ⟨(String.ne_of_lt less).symm, fun other member => ?_⟩
            exact (String.ne_of_lt (String.lt_trans less (above other member))).symm
          rw [List.mem_cons]
          exact or_congr_right ⟨fun member => ⟨member, others entry member⟩, And.left⟩
      · split
        · next same =>
            obtain rfl := beq_iff_eq.1 same
            have others : ∀ other ∈ rest, other.1 ≠ key := fun other member =>
              (String.ne_of_lt (above other member)).symm
            rw [List.mem_cons, List.mem_cons]
            refine or_congr_right ⟨fun member => ⟨.inr member, others entry member⟩, ?_⟩
            rintro ⟨rfl | member, other⟩
            · exact absurd rfl other
            · exact member
        · next other =>
            have differ : k ≠ key := fun same => other (beq_iff_eq.2 same.symm)
            rw [List.mem_cons, List.mem_cons, ih apart]
            constructor
            · rintro (rfl | new | ⟨member, kept⟩)
              · exact .inr ⟨.inl rfl, differ⟩
              · exact .inl new
              · exact .inr ⟨.inr member, kept⟩
            · rintro (new | ⟨rfl | member, kept⟩)
              · exact .inr (.inl new)
              · exact .inl rfl
              · exact .inr (.inr ⟨member, kept⟩)

theorem ascending_insertEntry (ascending : entries.Pairwise fun a b => a.1 < b.1) :
    (insertEntry key j entries).Pairwise fun a b => a.1 < b.1 := by
  induction entries with
  | nil => exact List.pairwise_singleton _ _
  | cons first rest ih =>
      obtain ⟨k, v⟩ := first
      obtain ⟨above, apart⟩ := List.pairwise_cons.1 ascending
      unfold insertEntry
      split
      · next less =>
          refine List.pairwise_cons.2 ⟨?_, ascending⟩
          exact List.forall_mem_cons.2 ⟨less, fun other member =>
            String.lt_trans less (above other member)⟩
      · next most =>
          split
          · next same =>
              obtain rfl := beq_iff_eq.1 same
              exact List.pairwise_cons.2 ⟨above, apart⟩
          · next other =>
              have less : k < key := by
                refine Std.lt_of_le_of_ne (String.not_lt.1 most) fun same => other ?_
                exact beq_iff_eq.2 same.symm
              refine List.pairwise_cons.2 ⟨fun entry member => ?_, ih apart⟩
              rcases (mem_insertEntry apart).1 member with rfl | ⟨old, -⟩
              · exact less
              · exact above entry old

theorem ascending_sortedEntries (ascending : done.Pairwise fun a b => a.1 < b.1) :
    (sortedEntries done entries).Pairwise fun a b => a.1 < b.1 := by
  induction entries generalizing done with
  | nil => exact ascending
  | cons first rest ih => exact ih (ascending_insertEntry ascending)

theorem mem_sortedEntries (ascending : done.Pairwise fun a b => a.1 < b.1) :
    entry ∈ sortedEntries done entries ↔
      (entry ∈ done ∧ entry.1 ∉ entries.map Prod.fst) ∨
        entry ∈ latest (entries.map sortedEntry) := by
  induction entries generalizing done with
  | nil => simp [sortedEntries, latest]
  | cons first rest ih =>
      obtain ⟨k, v⟩ := first
      rw [sortedEntries, ih (ascending_insertEntry ascending), mem_insertEntry ascending,
        List.map_cons, List.map_cons, mem_latest_cons, map_fst_sortedEntry, List.mem_cons, not_or]
      constructor
      · rintro (⟨rfl | ⟨old, other⟩, fresh⟩ | later)
        · exact .inr (.inl ⟨rfl, fresh⟩)
        · exact .inl ⟨old, other, fresh⟩
        · exact .inr (.inr later)
      · rintro (⟨old, other, fresh⟩ | ⟨rfl, fresh⟩ | later)
        · exact .inl ⟨.inr ⟨old, other⟩, fresh⟩
        · exact .inl ⟨.inl rfl, fresh⟩
        · exact .inr later

/-- Putting keys in order keeps the last entry of each, and orders them by their bytes. -/
theorem sortedEntries_eq (entries : List (String × Json)) :
    sortedEntries [] entries = (inByteOrder entries).map sortedEntry := by
  have ordered : sortedEntries [] entries = inByteOrder (entries.map sortedEntry) := by
    refine eq_inByteOrder (ascending_sortedEntries .nil) fun entry => ?_
    rw [mem_sortedEntries .nil]
    simp
  exact ordered.trans (inByteOrder_map sorted entries)

/-- Whether the keys of all objects in a tree ascend by their bytes. -/
inductive InOrder : Json → Prop
  | null : InOrder null
  | bool (b : Bool) : InOrder (bool b)
  | num (n : Number) : InOrder (num n)
  | str (s : String) : InOrder (str s)
  | arr {items : List Json} (each : ∀ j ∈ items, InOrder j) : InOrder (arr items)
  | obj {entries : List (String × Json)}
      (ascending : entries.Pairwise fun a b => bytes a.1 < bytes b.1)
      (each : ∀ entry ∈ entries, InOrder entry.2) : InOrder (obj entries)

theorem inByteOrder_of_ascending (ascending : entries.Pairwise fun a b => bytes a.1 < bytes b.1) :
    inByteOrder entries = entries := by
  have distinct : (entries.map Prod.fst).Nodup := by
    refine List.pairwise_map.2 (ascending.imp fun {a b} less same => ?_)
    rw [same] at less
    exact List.lt_irrefl _ less
  rw [inByteOrder, latest_of_nodup distinct]
  refine List.mergeSort_of_pairwise (ascending.imp fun less => ?_)
  exact decide_eq_true (List.le_of_lt less)

theorem sorted_of_inOrder (ordered : j.InOrder) : j.sorted = j := by
  induction ordered with
  | null | bool b | num n | str s => rfl
  | arr each ih =>
      rw [sorted, sortedItems_eq_map, List.map_congr_left ih, List.map_id']
  | @obj entries ascending each ih =>
      have kept : ∀ entry ∈ entries, sortedEntry entry = entry := fun entry member =>
        Prod.ext rfl (ih entry member)
      rw [sorted, sortedEntries_eq, inByteOrder_of_ascending ascending, List.map_congr_left kept,
        List.map_id']

theorem inOrder_sorted (j : Json) : j.sorted.InOrder := by
  induction j using Json.induction with
  | null => exact .null
  | bool b => exact .bool b
  | num n => exact .num n
  | str s => exact .str s
  | arr items ih =>
      rw [sorted, sortedItems_eq_map]
      exact .arr (List.forall_mem_map.2 ih)
  | obj entries ih =>
      have each : ∀ entry ∈ inByteOrder entries, entry.2.sorted.InOrder := fun entry member =>
        ih entry (mem_of_mem_inByteOrder member)
      refine .obj ((ascending_sortedEntries .nil).imp bytes_lt) ?_
      rw [sortedEntries_eq]
      exact List.forall_mem_map.2 each

/-- The trees that stay as they are when their keys are put in order. -/
theorem inOrder_iff : j.InOrder ↔ j.sorted = j :=
  ⟨sorted_of_inOrder, fun same => same ▸ inOrder_sorted j⟩

end

end Dialogue.Json
