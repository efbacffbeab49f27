import Dialogue.Document.Json

/-! One beat of dialogue: a line, or a list of options to choose from. -/
namespace Dialogue

open Json (record fields? required? optional? listOf? string? tagged? optionalEntry)

namespace Beat

/-- An option as it is shown. -/
structure Label where
  text : String
  marks : Marks
deriving DecidableEq

end Beat

inductive Beat where
  | line (text : String) (marks : Marks)
  | options (name : Option String) (marks : Marks) (labels : List Beat.Label)
deriving DecidableEq

namespace Beat

namespace Label

def toJson (label : Label) : Json := .obj (("label", .str label.text) :: label.marks.entries)

def ofJson? (j : Json) : Option Label := do
  let [text, speaker, id, tags] ← fields? ["label", "speaker", "id", "tags"] j | none
  return ⟨← required? string? text, ← Marks.ofFields? speaker id tags⟩

end Label

def toJson : Beat → Json
  | line text marks => record "dialogue" (("text", .str text) :: marks.entries)
  | options name marks labels =>
      record "options"
        (optionalEntry "name" name ++ marks.entries ++
          [("options", .arr (labels.map Label.toJson))])

def ofJson? (j : Json) : Option Beat := do
  let (kind, rest) ← tagged? string? j
  match kind with
  | "dialogue" =>
      let [text, speaker, id, tags] ← fields? ["text", "speaker", "id", "tags"] rest | none
      return line (← required? string? text) (← Marks.ofFields? speaker id tags)
  | "options" =>
      let [name, speaker, id, tags, labels] ←
        fields? ["name", "speaker", "id", "tags", "options"] rest | none
      return options (← optional? string? name) (← Marks.ofFields? speaker id tags)
        (← required? (listOf? Label.ofJson?) labels)
  | _ => none

def text? : Beat → Option String
  | line text _ => some text
  | options .. => none

def labels : Beat → List String
  | line .. => []
  | options _ _ labels => labels.map Label.text

def compact (beat : Beat) : String := beat.toJson.compact

def read? (text : String) : Option Beat := (Json.read? text).bind ofJson?

end Beat
end Dialogue
