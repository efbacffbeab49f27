import Dialogue.Document.Json
import Dialogue.Proofs.JsonText
import Dialogue.Proofs.Records

/-! Documents read back from JSON. Every part of a tree is written as a record that no other part is
mistaken for, so decoding finds the part again, in whatever order the keys stand. -/
namespace Dialogue

open Json (record Distinct distinct_of_sublist)

theorem distinct_name (name : String) : Distinct [("name", .str name)] :=
  distinct_of_sublist ["name"] (.refl _) (by decide)

namespace Expr

theorem toJsonList_eq_map (operands : List Expr) : toJsonList operands = operands.map toJson := by
  induction operands with
  | nil => rfl
  | cons e rest ih => rw [toJsonList, ih, List.map_cons]

@[simp] theorem sorted_value (value : Value) : value.toJson.sorted = value.toJson := by
  cases value <;> rfl

theorem distinct_literal (kind : LiteralKind) (value : Json) :
    Distinct [("name", .str kind.name), ("value", value)] :=
  distinct_of_sublist ["name", "value"] (.refl _) (by decide)

theorem distinct_operation (op : Operator) (operands : List Json) :
    Distinct [("name", .str op.name), ("elements", .arr operands)] :=
  distinct_of_sublist ["name", "elements"] (.refl _) (by decide)

theorem decode?_sorted {fuel : Nat} {kind? : Json → Option String} (e : Expr)
    (known : ∀ s, kind? (.str s) = some s) (enough : e.toJson.sorted.depth < fuel) :
    decode? fuel kind? e.toJson.sorted = some e := by
  induction e using Expr.induction generalizing fuel kind? with
  | literal kind value =>
      obtain ⟨less, rfl⟩ := Nat.exists_eq_succ_of_ne_zero (Nat.ne_zero_of_lt enough)
      obtain ⟨rest, tagged, fields⟩ :=
        Json.tagged?_sorted_record (distinct_literal kind value.toJson) (known "literal")
      rw [toJson, decode?, tagged]
      simp [fields, List.lookup_cons]
  | named name =>
      obtain ⟨less, rfl⟩ := Nat.exists_eq_succ_of_ne_zero (Nat.ne_zero_of_lt enough)
      obtain ⟨rest, tagged, fields⟩ :=
        Json.tagged?_sorted_record (distinct_name name) (known "variable")
      rw [toJson, decode?, tagged]
      simp [fields, List.lookup_cons]
  | operation op operands ih =>
      obtain ⟨less, rfl⟩ := Nat.exists_eq_succ_of_ne_zero (Nat.ne_zero_of_lt enough)
      have distinct := distinct_operation op (operands.map toJson)
      rw [toJson, toJsonList_eq_map] at enough ⊢
      have elements : Json.listOf? (decode? less (Json.innerKind? kinds))
          (Json.arr (operands.map toJson)).sorted = some operands := by
        have below := Json.depth_sorted_lt_record distinct
          (List.mem_cons_of_mem _ List.mem_cons_self) "expression"
        exact Json.listOf?_sorted fun e member inner => ih e member (fun _ => rfl) (by omega)
      obtain ⟨rest, tagged, fields⟩ := Json.tagged?_sorted_record distinct (known "expression")
      rw [decode?, tagged]
      simp [fields, List.lookup_cons, elements]

theorem ofInner?_sorted (e : Expr) : ofInner? e.toJson.sorted = some e :=
  decode?_sorted e (fun _ => rfl) (Nat.lt_succ_self _)

end Expr

namespace Assignment

theorem targetName?_sorted (name : String) :
    targetName? (record "variable" [("name", .str name)]).sorted = some name := by
  rw [targetName?, Json.fields?_sorted_record (distinct_name name) (by decide)]
  simp

/-- An expression has no target, and is not mistaken for an assignment. -/
theorem decode?_expr (fuel : Nat) (update? : Json → Option Update) (e : Expr) :
    decode? fuel update? e.toJson.sorted = none := by
  have untargeted : ∀ type entries, Distinct entries → entries.lookup "variable" = none →
      decode? fuel update? (record type entries).sorted = none := by
    intro type entries distinct absent
    cases fuel with
    | zero => rfl
    | succ fuel =>
        rw [decode?, Json.fields?_sorted_record distinct (by decide)]
        simp [absent, Json.required?]
  cases e with
  | literal kind value => exact untargeted _ _ (Expr.distinct_literal kind _) rfl
  | «variable» name => exact untargeted _ _ (distinct_name name) rfl
  | operation op operands => exact untargeted _ _ (Expr.distinct_operation op _) rfl

theorem distinct_entry (name : String) (update : Update) (value : Json) :
    Distinct [("variable", record "variable" [("name", .str name)]),
      ("operation", .str update.name), ("value", value)] :=
  distinct_of_sublist ["variable", "operation", "value"] (.refl _) (by decide)

section Entry

variable {fuel : Nat} {update? : Json → Option Update} {update : Update} {value : Json}
variable (known : update? (.str update.name) = some update)
include known

theorem decode?_chain {next : Assignment} (name : String)
    (found : decode? fuel (Json.named? Update.ofName?) value.sorted = some next) :
    decode? (fuel + 1) update? (entry name update value).sorted =
      some (chain name update next) := by
  rw [decode?, entry, Json.fields?_sorted_record (distinct_entry name update value) (by decide)]
  simp [List.lookup_cons, targetName?_sorted, known, found]

theorem decode?_store {e : Expr} (name : String)
    (none : decode? fuel (Json.named? Update.ofName?) value.sorted = none)
    (found : Expr.decode? fuel (Json.innerKind? Expr.kinds) value.sorted = some e) :
    decode? (fuel + 1) update? (entry name update value).sorted = some (store name update e) := by
  rw [decode?, entry, Json.fields?_sorted_record (distinct_entry name update value) (by decide)]
  simp [List.lookup_cons, targetName?_sorted, known, none, found]

end Entry

theorem depth_lt_entry (name : String) (update : Update) (value : Json) :
    value.sorted.depth < (entry name update value).sorted.depth :=
  Json.depth_sorted_lt_record (distinct_entry name update value)
    (List.mem_cons_of_mem _ (List.mem_cons_of_mem _ List.mem_cons_self)) "assignment"

theorem decode?_sorted {fuel : Nat} {update? : Json → Option Update} (a : Assignment)
    (known : ∀ update : Update, update? (.str update.name) = some update)
    (enough : a.toJson.sorted.depth < fuel) : decode? fuel update? a.toJson.sorted = some a := by
  induction a generalizing fuel update? with
  | store name update value =>
      obtain ⟨less, rfl⟩ := Nat.exists_eq_succ_of_ne_zero (Nat.ne_zero_of_lt enough)
      rw [toJson] at enough ⊢
      have below := depth_lt_entry name update value.toJson
      exact decode?_store (known update) name (decode?_expr ..)
        (Expr.decode?_sorted value (fun _ => rfl) (by omega))
  | chain name update next ih =>
      obtain ⟨less, rfl⟩ := Nat.exists_eq_succ_of_ne_zero (Nat.ne_zero_of_lt enough)
      rw [toJson] at enough ⊢
      have below := depth_lt_entry name update next.toJson
      exact decode?_chain (known update) name (ih (fun other => by simp) (by omega))

theorem ofInner?_sorted (a : Assignment) : ofInner? a.toJson.sorted = some a :=
  decode?_sorted a (fun update => by simp) (Nat.lt_succ_self _)

end Assignment

namespace Action

theorem eventName?_sorted (name : String) : eventName? (eventJson name).sorted = some name := by
  rw [eventName?, eventJson, Json.fields?_sorted_record (distinct_name name) (by decide)]
  simp

theorem distinct_assign (assignments : List Json) : Distinct [("assignments", .arr assignments)] :=
  distinct_of_sublist ["assignments"] (.refl _) (by decide)

theorem distinct_trigger (events : List Json) : Distinct [("events", .arr events)] :=
  distinct_of_sublist ["events"] (.refl _) (by decide)

theorem tagged?_assign {kind? : Json → Option String} (known : ∀ s, kind? (.str s) = some s)
    (assignments : List Assignment) : ∃ rest,
      Json.tagged? kind? (assign assignments).toJson.sorted = some ("assignments", rest) ∧
      assignments? rest = some assignments := by
  have items : Json.listOf? Assignment.ofInner?
      (Json.arr (assignments.map Assignment.toJson)).sorted = some assignments :=
    Json.listOf?_sorted fun a _ _ => a.ofInner?_sorted
  obtain ⟨rest, tagged, fields⟩ :=
    Json.tagged?_sorted_record (distinct_assign _) (known "assignments")
  refine ⟨rest, tagged, ?_⟩
  rw [assignments?, fields]
  simp [items]

theorem tagged?_trigger {kind? : Json → Option String} (known : ∀ s, kind? (.str s) = some s)
    (events : List String) : ∃ rest,
      Json.tagged? kind? (trigger events).toJson.sorted = some ("events", rest) ∧
      events? rest = some events := by
  have items : Json.listOf? eventName? (Json.arr (events.map eventJson)).sorted = some events :=
    Json.listOf?_sorted fun name _ _ => eventName?_sorted name
  obtain ⟨rest, tagged, fields⟩ := Json.tagged?_sorted_record (distinct_trigger _) (known "events")
  refine ⟨rest, tagged, ?_⟩
  rw [events?, fields]
  simp [items]

theorem ofInner?_sorted (action : Action) : ofInner? action.toJson.sorted = some action := by
  have inner : ∀ s, Json.innerKind? kinds (.str s) = some s := fun _ => rfl
  cases action with
  | assign assignments =>
      obtain ⟨rest, tagged, read⟩ := tagged?_assign inner assignments
      simp [ofInner?, decode?, tagged, read]
  | trigger events =>
      obtain ⟨rest, tagged, read⟩ := tagged?_trigger inner events
      simp [ofInner?, decode?, tagged, read]

end Action

namespace Marks

theorem keys_sublist (marks : Marks) :
    (marks.entries.map Prod.fst).Sublist ["speaker", "id", "tags"] := by
  rw [entries, List.map_append, List.map_append]
  exact ((Json.optionalEntry_sublist ..).append (Json.optionalEntry_sublist ..)).append
    (Json.listEntry_sublist ..)

theorem lookup_entries (marks : Marks) (key : String) : marks.entries.lookup key =
    ((Json.optionalEntry "speaker" marks.speaker).lookup key).or
      (((Json.optionalEntry "id" marks.id).lookup key).or
        ((Json.listEntry "tags" marks.tags).lookup key)) := by
  rw [entries, List.lookup_append, List.lookup_append, Option.or_assoc]

theorem lookup_entries_of_ne {key : String} (marks : Marks)
    (other : key ≠ "speaker" ∧ key ≠ "id" ∧ key ≠ "tags") : marks.entries.lookup key = none := by
  simp [lookup_entries, other]

theorem ofFields?_entries (marks : Marks) : ofFields?
    ((marks.entries.lookup "speaker").map Json.sorted) ((marks.entries.lookup "id").map Json.sorted)
    ((marks.entries.lookup "tags").map Json.sorted) = some marks := by
  have tags : Json.withDefault? [] Json.strings? ((marks.entries.lookup "tags").map Json.sorted) =
      some marks.tags := by
    cases none : marks.tags <;> simp [lookup_entries, none, Json.withDefault?]
  rw [ofFields?, tags]
  simp [lookup_entries]

end Marks

@[elab_as_elim]
theorem Node.induction {P : Node → Prop}
    (content : ∀ nodes, (∀ node ∈ nodes, P node) → P (.content nodes))
    (line : ∀ text marks, P (.line text marks))
    (options : ∀ name marks items, (∀ node ∈ items, P node) → P (.options name marks items))
    (option : ∀ name mode marks nodes, (∀ node ∈ nodes, P node) → P (.option name mode marks nodes))
    (divert : ∀ target, P (.divert target))
    (variations : ∀ mode lists, (∀ nodes ∈ lists, ∀ node ∈ nodes, P node) →
      P (.variations mode lists))
    (conditional : ∀ condition body, P body → P (.conditional condition body))
    (acting : ∀ action body, P body → P (.acting action body))
    (act : ∀ action, P (.act action)) (node : Node) : P node :=
  @Node.rec P (fun nodes => ∀ node ∈ nodes, P node)
    (fun lists => ∀ nodes ∈ lists, ∀ node ∈ nodes, P node)
    content line options option divert variations conditional acting act nofun
    (fun _ _ first rest => List.forall_mem_cons.2 ⟨first, rest⟩) nofun
    (fun _ _ first rest => List.forall_mem_cons.2 ⟨first, rest⟩) node

namespace Node

theorem toJsonList_eq_map (nodes : List Node) : toJsonList nodes = nodes.map toJson := by
  induction nodes with
  | nil => rfl
  | cons node rest ih => rw [toJsonList, ih, List.map_cons]

/-- A list of nodes as a content record. -/
def listJson (nodes : List Node) : Json := contentJson (nodes.map toJson)

theorem toJsonLists_eq_map (lists : List (List Node)) : toJsonLists lists = lists.map listJson := by
  induction lists with
  | nil => rfl
  | cons nodes rest ih => rw [toJsonLists, ih, List.map_cons, listJson, toJsonList_eq_map]

theorem distinct_content (nodes : List Json) : Distinct [("content", .arr nodes)] :=
  distinct_of_sublist ["content"] (.refl _) (by decide)

theorem contentOf?_of_fields? {read : Json → Option Node} {j : Json} {nodes : List Node}
    (fields : Json.fields? ["content"] j = some [some (Json.arr (nodes.map toJson)).sorted])
    (each : ∀ node ∈ nodes,
      node.toJson.sorted.depth < (Json.arr (nodes.map toJson)).sorted.depth →
        read node.toJson.sorted = some node) : contentOf? read j = some nodes := by
  simp [contentOf?, fields, Json.listOf?_sorted each]

theorem contentOf?_sorted {read : Json → Option Node} {nodes : List Node}
    (each : ∀ node ∈ nodes, node.toJson.sorted.depth < (listJson nodes).sorted.depth →
      read node.toJson.sorted = some node) :
    contentOf? read (listJson nodes).sorted = some nodes := by
  have distinct := distinct_content (nodes.map toJson)
  have below := Json.depth_sorted_lt_record distinct List.mem_cons_self "content"
  refine contentOf?_of_fields? (Json.fields?_sorted_record distinct (by decide) _)
    fun node member inner => each node member ?_
  exact inner.trans below

theorem distinct_line (text : String) (marks : Marks) :
    Distinct (("value", .str text) :: marks.entries) :=
  distinct_of_sublist ["value", "speaker", "id", "tags"] (marks.keys_sublist.cons_cons _)
    (by decide)

theorem distinct_options (name : Option String) (marks : Marks) (items : List Json) :
    Distinct (Json.optionalEntry "name" name ++ marks.entries ++ [("content", .arr items)]) := by
  refine distinct_of_sublist ["name", "speaker", "id", "tags", "content"] ?_ (by decide)
  rw [List.map_append, List.map_append]
  exact ((Json.optionalEntry_sublist ..).append marks.keys_sublist).append (.refl ["content"])

theorem distinct_option (name : String) (mode : OptionMode) (marks : Marks) (content : Json) :
    Distinct ([("name", .str name), ("mode", .str mode.name), ("content", content)] ++
      marks.entries) := by
  refine distinct_of_sublist ["name", "mode", "content", "speaker", "id", "tags"] ?_ (by decide)
  rw [List.map_append]
  exact (List.Sublist.refl ["name", "mode", "content"]).append marks.keys_sublist

theorem distinct_divert (target : String) : Distinct [("target", .str target)] :=
  distinct_of_sublist ["target"] (.refl _) (by decide)

theorem distinct_variations (mode : VariationMode) (lists : List Json) :
    Distinct [("mode", .str mode.name), ("content", .arr lists)] :=
  distinct_of_sublist ["mode", "content"] (.refl _) (by decide)

theorem distinct_conditional (condition body : Json) :
    Distinct [("conditions", condition), ("content", body)] :=
  distinct_of_sublist ["conditions", "content"] (.refl _) (by decide)

theorem distinct_acting (action body : Json) : Distinct [("action", action), ("content", body)] :=
  distinct_of_sublist ["action", "content"] (.refl _) (by decide)

theorem decode?_sorted {fuel : Nat} {kind? : Json → Option String} (node : Node)
    (known : ∀ s, kind? (.str s) = some s) (enough : node.toJson.sorted.depth < fuel) :
    decode? fuel kind? node.toJson.sorted = some node := by
  have inner : ∀ s, Json.innerKind? kinds (.str s) = some s := fun _ => rfl
  induction node using Node.induction generalizing fuel kind? with
  | content nodes ih =>
      obtain ⟨less, rfl⟩ := Nat.exists_eq_succ_of_ne_zero (Nat.ne_zero_of_lt enough)
      rw [toJson, contentJson, toJsonList_eq_map] at enough ⊢
      have distinct := distinct_content (nodes.map toJson)
      have below := Json.depth_sorted_lt_record distinct List.mem_cons_self "content"
      obtain ⟨rest, tagged, fields⟩ := Json.tagged?_sorted_record distinct (known "content")
      have read : contentOf? (decode? less (Json.innerKind? kinds)) rest = some nodes :=
        contentOf?_of_fields? (fields ["content"]) fun node member deeper =>
          ih node member inner (by omega)
      rw [decode?, tagged, Option.bind_eq_bind, Option.bind_some]
      simp [read]
  | line text marks =>
      obtain ⟨less, rfl⟩ := Nat.exists_eq_succ_of_ne_zero (Nat.ne_zero_of_lt enough)
      obtain ⟨rest, tagged, fields⟩ :=
        Json.tagged?_sorted_record (distinct_line text marks) (known "line")
      rw [toJson, decode?, tagged, Option.bind_eq_bind, Option.bind_some]
      simp [fields, List.lookup_cons, marks.ofFields?_entries]
  | options name marks items ih =>
      obtain ⟨less, rfl⟩ := Nat.exists_eq_succ_of_ne_zero (Nat.ne_zero_of_lt enough)
      rw [toJson, toJsonList_eq_map] at enough ⊢
      have distinct := distinct_options name marks (items.map toJson)
      have below := Json.depth_sorted_lt_record distinct
        (List.mem_append_right _ List.mem_cons_self) "options"
      obtain ⟨rest, tagged, fields⟩ := Json.tagged?_sorted_record distinct (known "options")
      have read : Json.listOf? (decode? less (Json.innerKind? kinds))
          (Json.arr (items.map toJson)).sorted = some items :=
        Json.listOf?_sorted fun node member deeper => ih node member inner (by omega)
      have named : marks.entries.lookup "name" = none := marks.lookup_entries_of_ne (by decide)
      have listed : marks.entries.lookup "content" = none := marks.lookup_entries_of_ne (by decide)
      rw [decode?, tagged, Option.bind_eq_bind, Option.bind_some]
      simp [fields, List.lookup_cons, List.lookup_append, named, listed, marks.ofFields?_entries,
        read]
  | option name mode marks nodes ih =>
      obtain ⟨less, rfl⟩ := Nat.exists_eq_succ_of_ne_zero (Nat.ne_zero_of_lt enough)
      rw [toJson, toJsonList_eq_map, ← listJson] at enough ⊢
      have distinct := distinct_option name mode marks (listJson nodes)
      have below := Json.depth_sorted_lt_record distinct (List.mem_append_left _
        (List.mem_cons_of_mem _ (List.mem_cons_of_mem _ List.mem_cons_self))) "option"
      obtain ⟨rest, tagged, fields⟩ := Json.tagged?_sorted_record distinct (known "option")
      have read : contentOf? (decode? less (Json.innerKind? kinds)) (listJson nodes).sorted =
          some nodes :=
        contentOf?_sorted fun node member deeper => ih node member inner (by omega)
      rw [decode?, tagged, Option.bind_eq_bind, Option.bind_some]
      simp [fields, List.lookup_cons, marks.ofFields?_entries, read]
  | divert target =>
      obtain ⟨less, rfl⟩ := Nat.exists_eq_succ_of_ne_zero (Nat.ne_zero_of_lt enough)
      obtain ⟨rest, tagged, fields⟩ :=
        Json.tagged?_sorted_record (distinct_divert target) (known "divert")
      rw [toJson, decode?, tagged, Option.bind_eq_bind, Option.bind_some]
      simp [fields, List.lookup_cons]
  | variations mode lists ih =>
      obtain ⟨less, rfl⟩ := Nat.exists_eq_succ_of_ne_zero (Nat.ne_zero_of_lt enough)
      rw [toJson, toJsonLists_eq_map] at enough ⊢
      have distinct := distinct_variations mode (lists.map listJson)
      have below := Json.depth_sorted_lt_record distinct
        (List.mem_cons_of_mem _ List.mem_cons_self) "variations"
      obtain ⟨rest, tagged, fields⟩ := Json.tagged?_sorted_record distinct (known "variations")
      have read : Json.listOf? (contentOf? (decode? less (Json.innerKind? kinds)))
          (Json.arr (lists.map listJson)).sorted = some lists :=
        Json.listOf?_sorted fun nodes listed deep => contentOf?_sorted fun node member deeper =>
          ih nodes listed node member inner (by omega)
      rw [decode?, tagged, Option.bind_eq_bind, Option.bind_some]
      simp [fields, List.lookup_cons, mode.ofName?_name, read]
  | conditional condition body ih =>
      obtain ⟨less, rfl⟩ := Nat.exists_eq_succ_of_ne_zero (Nat.ne_zero_of_lt enough)
      rw [toJson] at enough ⊢
      have distinct := distinct_conditional condition.toJson body.toJson
      have below := Json.depth_sorted_lt_record distinct
        (List.mem_cons_of_mem _ List.mem_cons_self) "conditional_content"
      obtain ⟨rest, tagged, fields⟩ :=
        Json.tagged?_sorted_record distinct (known "conditional_content")
      have read : decode? less (Json.innerKind? kinds) body.toJson.sorted = some body :=
        ih inner (by omega)
      rw [decode?, tagged, Option.bind_eq_bind, Option.bind_some]
      simp [fields, List.lookup_cons, condition.ofInner?_sorted, read]
  | acting action body ih =>
      obtain ⟨less, rfl⟩ := Nat.exists_eq_succ_of_ne_zero (Nat.ne_zero_of_lt enough)
      rw [toJson] at enough ⊢
      have distinct := distinct_acting action.toJson body.toJson
      have below := Json.depth_sorted_lt_record distinct
        (List.mem_cons_of_mem _ List.mem_cons_self) "action_content"
      obtain ⟨rest, tagged, fields⟩ := Json.tagged?_sorted_record distinct (known "action_content")
      have read : decode? less (Json.innerKind? kinds) body.toJson.sorted = some body :=
        ih inner (by omega)
      rw [decode?, tagged, Option.bind_eq_bind, Option.bind_some]
      simp [fields, List.lookup_cons, action.ofInner?_sorted, read]
  | act action =>
      obtain ⟨less, rfl⟩ := Nat.exists_eq_succ_of_ne_zero (Nat.ne_zero_of_lt enough)
      rw [toJson]
      cases action with
      | assign assignments =>
          obtain ⟨rest, tagged, read⟩ := Action.tagged?_assign known assignments
          rw [decode?, tagged, Option.bind_eq_bind, Option.bind_some]
          simp [read]
      | trigger events =>
          obtain ⟨rest, tagged, read⟩ := Action.tagged?_trigger known events
          rw [decode?, tagged, Option.bind_eq_bind, Option.bind_some]
          simp [read]

theorem ofJson?_sorted (node : Node) : ofJson? node.toJson.sorted = some node :=
  decode?_sorted node (fun _ => rfl) (Nat.lt_succ_self _)

end Node

theorem Block.distinct_block (block : Block) :
    Distinct [("name", .str block.name), ("content", Node.listJson block.content)] :=
  distinct_of_sublist ["name", "content"] (.refl _) (by decide)

theorem Block.ofJson?_sorted (block : Block) : ofJson? block.toJson.sorted = some block := by
  have read : Node.contentOf? Node.ofJson? (Node.listJson block.content).sorted =
      some block.content :=
    Node.contentOf?_sorted fun node _ _ => node.ofJson?_sorted
  rw [toJson, Node.toJsonList_eq_map, ← Node.listJson, ofJson?,
    Json.fields?_sorted_record block.distinct_block (by decide)]
  simp [List.lookup_cons, read]

namespace Document

theorem distinct_document (d : Document) : Distinct [("content", .arr (d.content.map Node.toJson)),
    ("blocks", .arr (d.blocks.map Block.toJson))] :=
  distinct_of_sublist ["content", "blocks"] (.refl _) (by decide)

theorem ofJson?_sorted (d : Document) : ofJson? d.toJson.sorted = some d := by
  have content : Json.listOf? Node.ofJson? (Json.arr (d.content.map Node.toJson)).sorted =
      some d.content :=
    Json.listOf?_sorted fun node _ _ => node.ofJson?_sorted
  have blocks : Json.listOf? Block.ofJson? (Json.arr (d.blocks.map Block.toJson)).sorted =
      some d.blocks :=
    Json.listOf?_sorted fun block _ _ => block.ofJson?_sorted
  rw [toJson, Node.toJsonList_eq_map, ofJson?,
    Json.fields?_sorted_record d.distinct_document (by decide)]
  simp [List.lookup_cons, content, blocks]

theorem unknownTypeItems?_eq_none {items : List Json} (each : ∀ j ∈ items, unknownType? j = none) :
    unknownTypeItems? items = none := by
  induction items with
  | nil => rfl
  | cons j rest ih =>
      obtain ⟨first, others⟩ := List.forall_mem_cons.1 each
      rw [unknownTypeItems?, first, ih others]
      rfl

theorem unknownTypeEntries?_eq_none {entries : List (String × Json)}
    (each : ∀ entry ∈ entries, unknownType? entry.2 = none) :
    unknownTypeEntries? entries = none := by
  induction entries with
  | nil => rfl
  | cons entry rest ih =>
      obtain ⟨first, others⟩ := List.forall_mem_cons.1 each
      rw [unknownTypeEntries?, first, ih others]
      rfl

/-- Whether all types in a tree are known once its keys are in order. -/
def Known (j : Json) : Prop := unknownType? j.sorted = none

theorem known_str (s : String) : Known (.str s) := rfl

theorem known_arr {items : List Json} (each : ∀ j ∈ items, Known j) : Known (.arr items) := by
  rw [Known, Json.sorted, Json.sortedItems_eq_map]
  refine unknownTypeItems?_eq_none fun j member => ?_
  obtain ⟨inner, listed, rfl⟩ := List.mem_map.1 member
  exact each inner listed

theorem known_arr_map {α : Type} {write : α → Json} {list : List α}
    (each : ∀ a ∈ list, Known (write a)) : Known (.arr (list.map write)) :=
  known_arr (List.forall_mem_map.2 each)

theorem known_record {type : String} {entries : List (String × Json)}
    (distinct : Distinct entries) (type_known : type ∈ nodeTypes)
    (each : ∀ entry ∈ entries, Known entry.2) : Known (record type entries) := by
  obtain ⟨es, sorts, perm⟩ := Json.sorted_record distinct type
  have tag : es.lookup "type" = some (.str type) := by
    have keys := Json.nodup_sorted_record distinct type
    have found := (Json.unique?_perm perm "type").trans (Json.unique?_of_nodup keys "type")
    rw [Json.unique?_of_nodup ((perm.map Prod.fst).nodup_iff.2 keys)] at found
    exact Option.some.inj found
  have contains : nodeTypes.contains type = true := List.contains_iff_mem.2 type_known
  rw [Known, sorts, unknownType?]
  simp only [tag, contains, ↓reduceIte]
  refine unknownTypeEntries?_eq_none fun entry member => ?_
  obtain rfl | member := List.mem_cons.1 (perm.mem_iff.1 member)
  · rfl
  · obtain ⟨inner, listed, rfl⟩ := List.mem_map.1 member
    exact each inner listed

end Document

open Document (Known known_str known_arr_map known_record)

theorem Value.known_toJson (value : Value) : Known value.toJson := by
  cases value <;> rfl

theorem Expr.known_toJson (e : Expr) : Known e.toJson := by
  induction e using Expr.induction with
  | literal kind value =>
      rw [toJson]
      refine known_record (distinct_literal kind _) (by decide) ?_
      simp [known_str, value.known_toJson]
  | named name =>
      rw [toJson]
      refine known_record (distinct_name name) (by decide) ?_
      simp [known_str]
  | operation op operands ih =>
      rw [toJson, toJsonList_eq_map]
      refine known_record (distinct_operation op _) (by decide) ?_
      simp [known_str, known_arr_map ih]

theorem Assignment.known_entry {value : Json} (name : String) (update : Update)
    (known : Known value) : Known (entry name update value) := by
  have target : Known (record "variable" [("name", .str name)]) := by
    refine known_record (distinct_name name) (by decide) ?_
    simp [known_str]
  refine known_record (distinct_entry name update value) (by decide) ?_
  simp [known_str, target, known]

theorem Assignment.known_toJson (a : Assignment) : Known a.toJson := by
  induction a with
  | store name update value => exact known_entry name update value.known_toJson
  | chain name update next ih => exact known_entry name update ih

theorem Action.known_toJson (action : Action) : Known action.toJson := by
  cases action with
  | assign assignments =>
      refine known_record (distinct_assign _) (by decide) ?_
      simp [known_arr_map fun (a : Assignment) _ => a.known_toJson]
  | trigger events =>
      have event : ∀ name, Known (eventJson name) := by
        intro name
        refine known_record (distinct_name name) (by decide) ?_
        simp [known_str]
      refine known_record (distinct_trigger _) (by decide) ?_
      simp [known_arr_map fun name _ => event name]

theorem Document.known_optionalEntry (name : String) (value : Option String) :
    ∀ entry ∈ Json.optionalEntry name value, Known entry.2 := by
  cases value with
  | none => nofun
  | some s => exact List.forall_mem_singleton.2 (known_str s)

theorem Document.known_listEntry (name : String) (strings : List String) :
    ∀ entry ∈ Json.listEntry name strings, Known entry.2 := by
  unfold Json.listEntry
  split
  · nofun
  · exact List.forall_mem_singleton.2 (known_arr_map fun s _ => known_str s)

open Document (known_optionalEntry known_listEntry)

theorem Marks.known_entries (marks : Marks) : ∀ entry ∈ marks.entries, Known entry.2 :=
  List.forall_mem_append.2 ⟨List.forall_mem_append.2
    ⟨known_optionalEntry _ _, known_optionalEntry _ _⟩, known_listEntry _ _⟩

theorem Node.known_listJson {nodes : List Node} (each : ∀ node ∈ nodes, Known node.toJson) :
    Known (listJson nodes) := by
  refine known_record (distinct_content _) (by decide) ?_
  simp [known_arr_map each]

theorem Node.known_toJson (node : Node) : Known node.toJson := by
  induction node using Node.induction with
  | content nodes ih =>
      rw [toJson, toJsonList_eq_map]
      exact known_listJson ih
  | line text marks =>
      refine known_record (distinct_line text marks) (by decide) ?_
      exact List.forall_mem_cons.2 ⟨known_str text, marks.known_entries⟩
  | options name marks items ih =>
      rw [toJson, toJsonList_eq_map]
      refine known_record (distinct_options name marks _) (by decide) ?_
      exact List.forall_mem_append.2 ⟨List.forall_mem_append.2
        ⟨known_optionalEntry _ _, marks.known_entries⟩,
        List.forall_mem_singleton.2 (known_arr_map ih)⟩
  | option name mode marks nodes ih =>
      rw [toJson, toJsonList_eq_map, ← listJson]
      refine known_record (distinct_option name mode marks _) (by decide) ?_
      refine List.forall_mem_append.2 ⟨?_, marks.known_entries⟩
      simp [known_str, known_listJson ih]
  | divert target =>
      refine known_record (distinct_divert target) (by decide) ?_
      simp [known_str]
  | variations mode lists ih =>
      rw [toJson, toJsonLists_eq_map]
      refine known_record (distinct_variations mode _) (by decide) ?_
      simp [known_str, known_arr_map fun nodes listed => known_listJson (ih nodes listed)]
  | conditional condition body ih =>
      refine known_record (distinct_conditional _ _) (by decide) ?_
      simp [condition.known_toJson, ih]
  | acting action body ih =>
      refine known_record (distinct_acting _ _) (by decide) ?_
      simp [action.known_toJson, ih]
  | act action => exact action.known_toJson

theorem Block.known_toJson (block : Block) : Known block.toJson := by
  rw [toJson, Node.toJsonList_eq_map, ← Node.listJson]
  refine known_record (distinct_block block) (by decide) ?_
  simp [known_str, Node.known_listJson fun node _ => node.known_toJson]

namespace Document

theorem known_toJson (d : Document) : Known d.toJson := by
  rw [toJson, Node.toJsonList_eq_map]
  refine known_record d.distinct_document (by decide) ?_
  simp [known_arr_map fun (node : Node) _ => node.known_toJson,
    known_arr_map fun (block : Block) _ => block.known_toJson]

theorem decode_sorted (d : Document) : decode d.toJson.sorted = .ok d := by
  rw [decode, show unknownType? d.toJson.sorted = none from d.known_toJson, d.ofJson?_sorted]

/-- A document reads back from its JSON. In the tree every type is known, and decoding the tree
gives the document; so does reading its text, without spaces or indented, if it does not nest too
deep and the text of each of its numbers reads back as the number. -/
theorem read_encoded (d : Document) :
    unknownType? d.toJson.sorted = none ∧ ofJson? d.toJson.sorted = some d ∧
    (d.toJson.depth ≤ Json.maxDepth → (∀ n ∈ d.toJson.numbers, n.ReadsBack) →
      read d.compact = .ok d ∧ read d.pretty = .ok d) := by
  refine ⟨d.known_toJson, d.ofJson?_sorted, fun shallow kept => ⟨?_, ?_⟩⟩
  · rw [read, compact, Json.read?_compact kept shallow]
    exact d.decode_sorted
  · rw [read, pretty, Json.read?_pretty kept shallow]
    exact d.decode_sorted

/-- A document with something of everything. -/
def mixed : Document where
  content := [
    .line "one \"two\"\n" ⟨some "ann", none, ["x", ""]⟩,
    .options none {} [
      .conditional (.binary .less (.variable "n") (.constant (.number 0.5)))
        (.option "stay" .sticky ⟨none, some "s", []⟩ [.divert "home"]),
      .acting (.trigger ["seen"]) (.option "" .once {} [])],
    .options (some "which") ⟨some "bob", none, []⟩ [],
    .variations .shuffleOnce [[.act (.assign [.chain "a" .add (.store "b" .replace
      (.unary .not (.constant .null)))])], []],
    .content [.act (.trigger [])]]
  blocks := [⟨"home", [.line "in" {}]⟩]

theorem read_encoded_mixed : mixed.toJson.depth ≤ Json.maxDepth ∧
    (∀ n ∈ mixed.toJson.numbers, n.ReadsBack) ∧
    read mixed.compact = .ok mixed ∧ read mixed.pretty = .ok mixed := by
  have shallow : mixed.toJson.depth ≤ Json.maxDepth := by decide
  have kept : ∀ n ∈ mixed.toJson.numbers, n.ReadsBack := by
    intro n member
    obtain rfl : n = .float 0.5 := List.mem_singleton.1 member
    exact rfl
  exact ⟨shallow, kept, (read_encoded mixed).2.2 shallow kept⟩

end Document
end Dialogue
