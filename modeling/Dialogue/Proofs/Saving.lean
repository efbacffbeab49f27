import Dialogue.Proofs.JsonText
import Dialogue.Proofs.Records
import Dialogue.Proofs.Snapshot

/-! Saved memory reads back. Each map is written entry by entry under keys that give back what they
stand for, and the two kinds of bookkeeping entry are told apart by their form. -/
namespace Dialogue

namespace Datum

theorem position?_toNat (p : UInt64) : position? (.integer p.toNat) = some p := by
  have small : (p.toNat : Int) < UInt64.size := Int.ofNat_lt.2 p.toNat_lt
  rw [Json.integer, position?, if_pos ⟨Int.natCast_nonneg _, small⟩]
  simp

theorem ofJson?_toJson (datum : Datum) : ofJson? datum.toJson = some datum := by
  cases datum with
  | count n =>
      have within : Int64.minValue.toInt ≤ n.toInt ∧ n.toInt ≤ Int64.maxValue.toInt :=
        ⟨Int64.minValue_le_toInt n, Int64.toInt_le n⟩
      rw [toJson, Json.integer, ofJson?, if_pos within, Int64.ofInt_toInt]
  | positions list =>
      have items := Json.mapM_map_eq_some fun p (_ : p ∈ list) => position?_toNat p
      rw [toJson, ofJson?, items]
      rfl

end Datum

namespace Memory

theorem index?_toString (index : UInt64) : index? (toString index.toNat) = some index := by
  have value : Number.natOfDigits (Nat.toDigits 10 index.toNat) = index.toNat :=
    Json.Numeral.foldl_toDigits index.toNat
  have numeric : (Nat.toDigits 10 index.toNat).all Char.isDigit = true :=
    List.all_eq_true.2 fun c => Nat.isDigit_of_mem_toDigits (by decide) (by decide)
  have short : ((Nat.toDigits 10 index.toNat).length == 1 ||
      (Nat.toDigits 10 index.toNat).head? != some '0') = true := by
    obtain zero | positive := Nat.eq_zero_or_pos index.toNat
    · rw [zero]
      rfl
    · simp [Json.Numeral.head?_toDigits positive]
  have small : index.toNat < UInt64.size := index.toNat_lt
  simp [index?, value, numeric, short, small, Nat.toDigits_ne_nil]

section Maps

variable {α β : Type} [Ord α] [Std.TransOrd α]
variable {key : α → String} {key? : String → Option α} {value : β → Json}
  {value? : Json → Option β}

theorem foldlM_insert (keys : ∀ k, key? (key k) = some k) (values : ∀ v, value? (value v) = some v)
    (list : List (α × β)) (map : Std.ExtTreeMap α β) :
    (list.map fun (k, v) => (key k, value v)).foldlM
      (fun map (k, v) => return map.insert (← key? k) (← value? v)) map =
      some (list.foldl (fun map p => map.insert p.1 p.2) map) := by
  induction list generalizing map with
  | nil => rfl
  | cons entry rest ih =>
      rw [List.map_cons, List.foldlM_cons]
      simp only [keys, values]
      exact ih _

variable [Std.LawfulEqOrd α] [BEq α] [LawfulBEq α]

theorem ofList_toList (map : Std.ExtTreeMap α β) : Std.ExtTreeMap.ofList map.toList = map := by
  refine Std.ExtTreeMap.ext_getElem? fun k => ?_
  cases found : map[k]? with
  | some v =>
      exact Std.ExtTreeMap.getElem?_ofList_of_mem Std.ReflCmp.compare_self
        Std.ExtTreeMap.distinct_keys_toList (Std.ExtTreeMap.mem_toList_iff_getElem?_eq_some.2 found)
  | none =>
      refine Std.ExtTreeMap.getElem?_ofList_of_contains_eq_false ?_
      rw [List.contains_eq_mem, decide_eq_false_iff_not]
      intro member
      obtain ⟨⟨key, v⟩, listed, rfl⟩ := List.mem_map.1 member
      cases found.symm.trans (Std.ExtTreeMap.mem_toList_iff_getElem?_eq_some.1 listed)

theorem readMap?_mapJson (keys : ∀ k, key? (key k) = some k)
    (values : ∀ v, value? (value v) = some v) (map : Std.ExtTreeMap α β) :
    readMap? key? value? (mapJson key value map) = some map := by
  refine (foldlM_insert keys values map.toList ∅).trans ?_
  rw [← Std.ExtTreeMap.ofList_eq_foldl, ofList_toList]

end Maps

theorem ofJson?_toJson (m : Memory) : ofJson? m.toJson = some m := by
  have access : readMap? index? Json.boolean?
      (mapJson (fun index => toString index.toNat) .bool m.access) = some m.access :=
    readMap?_mapJson index?_toString (fun (_ : Bool) => rfl) m.access
  have values : readMap? some Value.ofJson? (mapJson id Value.toJson m.values) = some m.values :=
    readMap?_mapJson (fun _ => rfl) Value.ofJson?_toJson m.values
  have internal : readMap? some Datum.ofJson? (mapJson id Datum.toJson m.internal) =
      some m.internal :=
    readMap?_mapJson (fun _ => rfl) Datum.ofJson?_toJson m.internal
  have fields : Json.fields? ["access", "variables", "internal"] m.toJson =
      some [some _, some _, some _] := rfl
  simp only [ofJson?, fields, bind, Option.bind_some, Json.withDefault?_some, access, values,
    internal, pure]

/-- Whether the numbers that variables hold read back from their text. -/
def Kept (m : Memory) : Prop :=
  ∀ (name : String) (x : Float), m.values[name]? = some (Value.number x) →
    (Json.Number.float x).ReadsBack

section Maps

variable {α β : Type} [Ord α] [Std.TransOrd α] [Std.LawfulEqOrd α]
variable {key : α → String} {value : β → Json} {map : Std.ExtTreeMap α β}

theorem mem_numbers_mapJson {n : Json.Number} (member : n ∈ (mapJson key value map).numbers) :
    ∃ (k : α) (v : β), map[k]? = some v ∧ n ∈ (value v).numbers := by
  rw [mapJson, Json.numbers, Json.numbersEntries_eq_flatMap] at member
  obtain ⟨entry, listed, inside⟩ := List.mem_flatMap.1 member
  obtain ⟨⟨k, v⟩, found, rfl⟩ := List.mem_map.1 listed
  exact ⟨k, v, Std.ExtTreeMap.mem_toList_iff_getElem?_eq_some.1 found, inside⟩

omit [Std.LawfulEqOrd α] in
theorem depth_mapJson {depth : Nat} (each : ∀ v, (value v).depth ≤ depth) :
    (mapJson key value map).depth ≤ depth + 1 := by
  refine Nat.succ_le_succ (Json.depthEntries_le fun entry listed => ?_)
  obtain ⟨⟨k, v⟩, -, rfl⟩ := List.mem_map.1 listed
  exact each v

end Maps

end Memory

theorem Value.depth_toJson (value : Value) : value.toJson.depth = 0 := by
  cases value <;> rfl

namespace Datum

theorem depth_toJson (datum : Datum) : datum.toJson.depth ≤ 1 := by
  cases datum with
  | count n => exact Nat.zero_le _
  | positions list =>
      refine Nat.succ_le_succ (Json.depthItems_le fun j member => ?_)
      obtain ⟨p, -, rfl⟩ := List.mem_map.1 member
      exact Nat.le_refl _

theorem readsBack_of_mem_numbers {datum : Datum} {n : Json.Number}
    (member : n ∈ datum.toJson.numbers) : n.ReadsBack := by
  cases datum with
  | count m =>
      obtain rfl := List.mem_singleton.1 member
      refine Json.Number.readsBack_int (Int64.minValue_le_toInt m) ?_
      exact Int.lt_of_le_of_lt (Int64.toInt_le m) (by decide)
  | positions list =>
      rw [toJson, Json.numbers, Json.numbersItems_eq_flatMap] at member
      obtain ⟨j, listed, inside⟩ := List.mem_flatMap.1 member
      obtain ⟨p, -, rfl⟩ := List.mem_map.1 listed
      obtain rfl := List.mem_singleton.1 inside
      refine Json.Number.readsBack_int ?_ (Int.ofNat_lt.2 p.toNat_lt)
      exact Int.le_trans (by decide) (Int.natCast_nonneg _)

end Datum

/-- Keys without anything to escape are read as they are. -/
theorem Json.plain?_of {s : String} (plain : ∀ c ∈ s.toList, escape c = [c]) :
    Piece.plain? (s.toList.map Piece.of) = some s := by
  have pieces : ∀ c ∈ s.toList, Piece.of c = .char c := by
    intro c member
    rw [Piece.of, plain c member]
  rw [Piece.plain?, mapM_map_eq_some fun c member => by rw [pieces c member], Option.map_some,
    String.ofList_toList]

theorem Json.escape_of_isDigit {c : Char} (digit : c.isDigit = true) : escape c = [c] := by
  have other : ∀ d, d.isDigit = false → (c == d) = false := by
    intro d none
    refine beq_false_of_ne ?_
    rintro rfl
    cases digit.symm.trans none
  have high : ¬ c.toNat < 0x20 := by
    have zero : '0'.toNat = 48 := rfl
    have bounds := Char.isDigit_iff_toNat.1 digit
    omega
  simp [escape, other '"' (by decide), other '\\' (by decide), other (Char.ofNat 0x08) (by decide),
    other '\t' (by decide), other '\n' (by decide), other (Char.ofNat 0x0C) (by decide),
    other '\r' (by decide), high]

namespace Memory

/-- How the three maps are written. -/
def accessJson (m : Memory) : Json := mapJson (fun index => toString index.toNat) .bool m.access

def valuesJson (m : Memory) : Json := mapJson id Value.toJson m.values

def internalJson (m : Memory) : Json := mapJson id Datum.toJson m.internal

theorem toJson_eq (m : Memory) : m.toJson = .obj [("access", m.accessJson),
    ("variables", m.valuesJson), ("internal", m.internalJson)] := rfl

variable {m : Memory}

theorem numbers_accessJson (m : Memory) : ∀ n ∈ m.accessJson.numbers, n.ReadsBack := by
  intro n member
  obtain ⟨k, v, -, inside⟩ := mem_numbers_mapJson member
  cases inside

theorem Kept.numbers_valuesJson (kept : m.Kept) : ∀ n ∈ m.valuesJson.numbers, n.ReadsBack := by
  intro n member
  obtain ⟨name, value, found, inside⟩ := mem_numbers_mapJson member
  cases value with
  | number x =>
      obtain rfl := List.mem_singleton.1 inside
      exact kept name x found
  | null | bool b | string s => cases inside

theorem numbers_internalJson (m : Memory) : ∀ n ∈ m.internalJson.numbers, n.ReadsBack := by
  intro n member
  obtain ⟨k, datum, -, inside⟩ := mem_numbers_mapJson member
  exact Datum.readsBack_of_mem_numbers inside

theorem Kept.readsBack (kept : m.Kept) : ∀ n ∈ m.toJson.numbers, n.ReadsBack := by
  have all := List.forall_mem_append.2 ⟨m.numbers_accessJson, List.forall_mem_append.2
    ⟨kept.numbers_valuesJson, m.numbers_internalJson⟩⟩
  rw [toJson_eq]
  simpa [Json.numbers, Json.numbersEntries] using all

theorem settle?_accessJson (m : Memory) {depth : Nat} (some : 0 < depth) :
    m.accessJson.written.settle? .plainKeys depth = Option.some m.accessJson := by
  obtain ⟨less, rfl⟩ := Nat.exists_eq_succ_of_ne_zero (Nat.ne_zero_of_lt some)
  have flat : m.accessJson.depth ≤ 1 := depth_mapJson fun _ => Nat.le_refl 0
  have keys : ∀ entry ∈ m.access.toList.map fun (k, v) => (toString k.toNat, Json.bool v),
      Json.Shape.plainKeys.key? (entry.1.toList.map Json.Piece.of) = Option.some entry.1 := by
    intro entry listed
    obtain ⟨⟨k, v⟩, -, rfl⟩ := List.mem_map.1 listed
    refine Json.plain?_of fun c member => Json.escape_of_isDigit ?_
    exact Nat.isDigit_of_mem_toDigits (by decide) (by decide) (Nat.toList_repr ▸ member)
  rw [accessJson, mapJson, Json.written, Json.Written.settle?,
    Json.settleEntries?_written .plainKeys _ m.numbers_accessJson
      (Nat.le_trans (Nat.le_of_succ_le_succ flat) (Nat.zero_le _)) (fun _ => rfl) keys]
  rfl

/-- All of a memory is looked at when it is read. -/
theorem Kept.settle? (kept : m.Kept) :
    m.toJson.written.settle? shape Json.maxDepth = some m.toJson := by
  have access : m.accessJson.written.settle? .plainKeys 126 = some m.accessJson :=
    m.settle?_accessJson (by decide)
  have values : m.valuesJson.written.settle? .whole 126 = some m.valuesJson := by
    have flat : m.valuesJson.depth ≤ 1 := depth_mapJson fun value => value.depth_toJson.le
    exact Json.settle?_written _ kept.numbers_valuesJson (Nat.le_trans flat (by decide))
  have internal : m.internalJson.written.settle? .whole 126 = some m.internalJson := by
    have flat : m.internalJson.depth ≤ 2 := depth_mapJson Datum.depth_toJson
    exact Json.settle?_written _ m.numbers_internalJson (Nat.le_trans flat (by decide))
  have key : ∀ s : String, shape.key? (s.toList.map Json.Piece.of) = some s := Json.text?_of
  have first : shape.entry? "access" = some .plainKeys := rfl
  have second : shape.entry? "variables" = some .whole := rfl
  have third : shape.entry? "internal" = some .whole := rfl
  simp only [toJson_eq, Json.written, Json.writtenEntries, Json.maxDepth, Json.Written.settle?,
    Json.Written.settleEntries?, key, first, second, third, access, values, internal, bind,
    Option.bind_some, pure, Option.map_some]

theorem read?_compact (kept : m.Kept) : read? m.compact = some m := by
  rw [read?, Json.readAs?, compact, Json.written_compact kept.readsBack]
  simp only [Option.bind_some, kept.settle?, ofJson?_toJson]

/-- Saved memory reads back as it was, from its tree and, if the numbers that variables hold read
back from their text, from its text. So a session that reads what it has just saved goes on with its
variables, its flags, its random state and all other bookkeeping. -/
theorem read_saved (m : Memory) (s : Session) :
    ofJson? m.toJson = some m ∧ (m.Kept → read? m.compact = some m) ∧
    (s.memory.Kept → ∃ after, s.perform (.read s.data.compact) = ⟨.done, after, []⟩ ∧
      after.memory.values = s.memory.values ∧ after.memory.access = s.memory.access ∧
      (∀ key, key ≠ Session.randomState →
        after.memory.internal[key]? = s.memory.internal[key]?) ∧
      after.random = s.random) := by
  refine ⟨ofJson?_toJson m, read?_compact, fun kept => ⟨s.load s.data, ?_, rfl, rfl, ?_, ?_⟩⟩
  · have same : s.data.Kept := kept
    rw [Session.perform, read?_compact same]
  · intro key other
    exact internal_note_of_ne s.memory _ other.symm
  · exact s.random_load_data s

/-- A memory with something of everything. -/
def mixed : Memory where
  access := (∅ : Std.ExtTreeMap UInt64 Bool).insert 0 true |>.insert 18446744073709551615 false
  values := (∅ : Std.ExtTreeMap String Value).insert "" (.string "") |>.insert "none" .null
    |>.insert "half" (.number (-0.5))
  internal := (∅ : Std.ExtTreeMap String Datum).insert "seen" (.positions [2, 0])
    |>.insert "new" (.positions []) |>.insert "turn" (.count (-3))

theorem read_saved_mixed :
    let s := { Session.ofScript (Script.ofDocument {}) 4294967295 with memory := mixed }
    mixed.Kept ∧ read? mixed.compact = some mixed ∧
      ∃ after, s.perform (.read s.data.compact) = ⟨.done, after, []⟩ ∧
        after.random = 4294967295 := by
  intro s
  have kept : mixed.Kept := by
    intro name x found
    simp only [mixed, Std.ExtTreeMap.getElem?_insert] at found
    split at found
    · obtain rfl := Value.number.inj (Option.some.inj found)
      exact rfl
    · split at found
      · cases found
      · split at found
        · cases found
        · simp at found
  obtain ⟨after, done, -, -, -, random⟩ := (read_saved mixed s).2.2 kept
  exact ⟨kept, (read_saved mixed s).2.1 kept, after, done, random⟩

end Memory
end Dialogue
