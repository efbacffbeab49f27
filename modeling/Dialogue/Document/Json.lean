import Dialogue.Document
import Dialogue.Expr.Json
import Dialogue.Json.Printer
import Dialogue.Json.Reader

/-! Documents as JSON. Node types that are not known are refused by name, before anything else that
is wrong with a tree. -/
namespace Dialogue

open Json (record fields? required? optional? withDefault? listOf? innerNamed? innerKind? tagged?
  string? strings? optionalEntry listEntry)

namespace Marks

def entries (marks : Marks) : List (String × Json) :=
  optionalEntry "speaker" marks.speaker ++ optionalEntry "id" marks.id ++
    listEntry "tags" marks.tags

def ofFields? (speaker id tags : Option Json) : Option Marks := do
  return ⟨← optional? string? speaker, ← optional? string? id, ← withDefault? [] strings? tags⟩

end Marks

namespace Node

def contentJson (nodes : List Json) : Json := record "content" [("content", .arr nodes)]

mutual

def toJson : Node → Json
  | content nodes => contentJson (toJsonList nodes)
  | line text marks => record "line" (("value", .str text) :: marks.entries)
  | options name marks items =>
      record "options"
        (optionalEntry "name" name ++ marks.entries ++ [("content", .arr (toJsonList items))])
  | option name mode marks nodes =>
      record "option" ([("name", .str name), ("mode", .str mode.name),
        ("content", contentJson (toJsonList nodes))] ++ marks.entries)
  | divert target => record "divert" [("target", .str target)]
  | variations mode alternatives =>
      record "variations"
        [("mode", .str mode.name), ("content", .arr (toJsonLists alternatives))]
  | conditional condition body =>
      record "conditional_content" [("conditions", condition.toJson), ("content", body.toJson)]
  | acting action body =>
      record "action_content" [("action", action.toJson), ("content", body.toJson)]
  | act action => action.toJson

def toJsonList : List Node → List Json
  | [] => []
  | node :: rest => node.toJson :: toJsonList rest

def toJsonLists : List (List Node) → List Json
  | [] => []
  | nodes :: rest => contentJson (toJsonList nodes) :: toJsonLists rest

end

def kinds : List String :=
  ["content", "line", "options", "option", "divert", "variations", "conditional_content",
   "action_content", "assignments", "events"]

/-- A content record: the type is not looked at. -/
def contentOf? {α : Type} (read : Json → Option α) (j : Json) : Option (List α) := do
  let [nodes] ← fields? ["content"] j | none
  required? (listOf? read) nodes

/-- Goes down one level of the tree with each call, so `fuel` is a bound on its depth. -/
def decode? : Nat → (Json → Option String) → Json → Option Node
  | 0, _, _ => none
  | fuel + 1, kind?, j => do
      let inner? := decode? fuel (innerKind? kinds)
      let (kind, rest) ← tagged? kind? j
      match kind with
      | "content" => content <$> contentOf? inner? rest
      | "line" =>
          let [value, speaker, id, tags] ← fields? ["value", "speaker", "id", "tags"] rest | none
          return line (← required? string? value) (← Marks.ofFields? speaker id tags)
      | "options" =>
          let [name, speaker, id, tags, items] ←
            fields? ["name", "speaker", "id", "tags", "content"] rest | none
          return options (← optional? string? name) (← Marks.ofFields? speaker id tags)
            (← required? (listOf? inner?) items)
      | "option" =>
          let [name, mode, nodes, speaker, id, tags] ←
            fields? ["name", "mode", "content", "speaker", "id", "tags"] rest | none
          return option (← required? string? name)
            (← withDefault? .once (innerNamed? OptionMode.ofName?) mode)
            (← Marks.ofFields? speaker id tags)
            (← required? (contentOf? inner?) nodes)
      | "divert" =>
          let [target] ← fields? ["target"] rest | none
          return divert (← required? string? target)
      | "variations" =>
          let [mode, lists] ← fields? ["mode", "content"] rest | none
          return variations (← required? (innerNamed? VariationMode.ofName?) mode)
            (← required? (listOf? (contentOf? inner?)) lists)
      | "conditional_content" =>
          let [condition, body] ← fields? ["conditions", "content"] rest | none
          return conditional (← required? Expr.ofInner? condition) (← required? inner? body)
      | "action_content" =>
          let [action, body] ← fields? ["action", "content"] rest | none
          return acting (← required? Action.ofInner? action) (← required? inner? body)
      | "assignments" => return act (.assign (← Action.assignments? rest))
      | "events" => return act (.trigger (← Action.events? rest))
      | _ => none

def ofJson? (j : Json) : Option Node := decode? (j.depth + 1) string? j

end Node

namespace Block

def toJson (block : Block) : Json :=
  record "block" [("name", .str block.name),
    ("content", Node.contentJson (Node.toJsonList block.content))]

def ofJson? (j : Json) : Option Block := do
  let [name, content] ← fields? ["name", "content"] j | none
  return ⟨← required? string? name, ← required? (Node.contentOf? Node.ofJson?) content⟩

end Block

/-- Why a text does not decode as a document. -/
inductive DecodeError where
  /-- The text is no JSON, or the tree has not the form of a document. -/
  | malformed
  | unknownType (name : String)
deriving DecidableEq

namespace DecodeError

def message : DecodeError → String
  | malformed => "Invalid JSON"
  | unknownType name => "Unknown node type '" ++ name ++ "'"

end DecodeError

namespace Document

def nodeTypes : List String :=
  ["document", "block", "content", "line", "options", "option", "divert", "variations",
   "conditional_content", "action_content", "assignments", "assignment", "expression", "variable",
   "literal", "events", "event"]

mutual

/-- The first type in a tree that no node has: an object's own type comes before those in its
values, and values come in order. -/
def unknownType? : Json → Option String
  | .obj entries =>
      match entries.lookup "type" with
      | some (.str name) =>
          if nodeTypes.contains name then unknownTypeEntries? entries else some name
      | _ => unknownTypeEntries? entries
  | .arr items => unknownTypeItems? items
  | _ => none

def unknownTypeItems? : List Json → Option String
  | [] => none
  | j :: rest => (unknownType? j).or (unknownTypeItems? rest)

def unknownTypeEntries? : List (String × Json) → Option String
  | [] => none
  | (_, j) :: rest => (unknownType? j).or (unknownTypeEntries? rest)

end

def toJson (d : Document) : Json :=
  record "document" [("content", .arr (Node.toJsonList d.content)),
    ("blocks", .arr (d.blocks.map Block.toJson))]

def ofJson? (j : Json) : Option Document := do
  let [content, blocks] ← fields? ["content", "blocks"] j | none
  return ⟨← required? (listOf? Node.ofJson?) content, ← required? (listOf? Block.ofJson?) blocks⟩

/-- Decodes a tree whose keys are in order. -/
def decode (j : Json) : Except DecodeError Document :=
  match unknownType? j with
  | some name => .error (.unknownType name)
  | none =>
      match ofJson? j with
      | some d => .ok d
      | none => .error .malformed

def read (text : String) : Except DecodeError Document :=
  match Json.read? text with
  | some j => decode j.sorted
  | none => .error .malformed

def compact (d : Document) : String := d.toJson.compact

def pretty (d : Document) : String := d.toJson.pretty

/-- Whether the text of a document reads back as the same document. -/
def readsBack (d : Document) : Bool :=
  match read d.compact with
  | .ok copy => copy.toJson.same d.toJson
  | .error _ => false

end Document
end Dialogue
