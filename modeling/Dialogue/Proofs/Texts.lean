import Dialogue.Proofs.Grammar

/-! The texts of a source and of the document that it writes. Reading neither loses nor invents a
text, and keeps their order; only what an option says may stand twice, as its name and as the line
that opens its content. -/
namespace Dialogue

/-- A text of a document. -/
structure Passage where
  text : String
  /-- whether it is the first line of an option's content -/
  opening : Bool := false
deriving DecidableEq

mutual

/-- The texts of a node, in order; given whether the node is the first of an option's content. -/
def Node.passages (first : Bool) : Node → List Passage
  | .content nodes => Node.allPassages false nodes
  | .line text _ => [⟨text, first⟩]
  | .options name _ items => name.toList.map (⟨·, false⟩) ++ Node.allPassages false items
  | .option name _ _ nodes => ⟨name, false⟩ :: Node.allPassages true nodes
  | .divert _ => []
  | .variations _ all => Node.eachPassages all
  | .conditional _ body => body.passages false
  | .acting _ body => body.passages false
  | .act _ => []

def Node.allPassages (first : Bool) : List Node → List Passage
  | [] => []
  | node :: rest => node.passages first ++ Node.allPassages false rest

def Node.eachPassages : List (List Node) → List Passage
  | [] => []
  | nodes :: rest => Node.allPassages false nodes ++ Node.eachPassages rest

end

/-- The texts of a document, those before the blocks first. -/
def Document.passages (d : Document) : List Passage :=
  Node.allPassages false d.content ++
    d.blocks.flatMap fun block => Node.allPassages false block.content

/-- The texts among tokens. -/
def Token.texts (tokens : List Token) : List String :=
  (tokens.filter fun token => token.kind == .text).map Token.value

namespace Passage

/-- What is left of passages when some of those that open an option's content are left out. -/
inductive Leaves : List Passage → List Passage → Prop
  | nil : Leaves [] []
  | keep {passages kept : List Passage} (passage : Passage) (rest : Leaves passages kept) :
      Leaves (passage :: passages) (passage :: kept)
  | skip {passages kept : List Passage} (text : String) (rest : Leaves passages kept) :
      Leaves (⟨text, true⟩ :: passages) kept

/-- Passages that tell texts: each tells some that come one after the other, joined by spaces, and
one that opens an option's content may tell none. -/
inductive Tells : List Passage → List String → Prop
  | nil : Tells [] []
  | told {passages : List Passage} {texts more : List String} (opening : Bool) (some : texts ≠ [])
      (rest : Tells passages more) :
      Tells (⟨" ".intercalate texts, opening⟩ :: passages) (texts ++ more)
  | repeated {passages : List Passage} {texts : List String} (text : String)
      (rest : Tells passages texts) : Tells (⟨text, true⟩ :: passages) texts

namespace Tells

variable {passages others : List Passage} {texts more : List String}

theorem append (first : Tells passages texts) (second : Tells others more) :
    Tells (passages ++ others) (texts ++ more) := by
  induction first with
  | nil => exact second
  | told opening some rest ih =>
      rw [List.append_assoc]
      exact .told opening some ih
  | repeated text rest ih => exact .repeated text ih

theorem cons (text : String) (opening : Bool) (rest : Tells passages texts) :
    Tells (⟨text, opening⟩ :: passages) (text :: texts) := by
  have told := Tells.told opening (List.cons_ne_nil text []) rest
  rwa [String.intercalate_singleton] at told

/-- What is kept tells the same, put together. -/
theorem exists_leaves (tells : Tells passages texts) :
    ∃ kept, Leaves passages kept ∧ (kept = [] ↔ texts = []) ∧
      " ".intercalate (kept.map text) = " ".intercalate texts := by
  induction tells with
  | nil => exact ⟨[], .nil, by simp, rfl⟩
  | @told passages texts more opening some rest ih =>
      obtain ⟨kept, leaves, none, same⟩ := ih
      refine ⟨_ :: kept, .keep _ leaves, by simp [some], ?_⟩
      by_cases ended : more = []
      · rw [none.2 ended, ended, List.append_nil]
        exact String.intercalate_singleton
      · have further : kept.map text ≠ [] := by simpa using fun empty => ended (none.1 empty)
        rw [List.map_cons, String.intercalate_cons_of_ne_nil further,
          String.intercalate_append_of_ne_nil some ended, same]
  | repeated text rest ih =>
      obtain ⟨kept, leaves, none, same⟩ := ih
      exact ⟨kept, .skip text leaves, none, same⟩

end Tells
end Passage

namespace Node

@[simp] theorem allPassages_append (nodes others : List Node) :
    allPassages false (nodes ++ others) = allPassages false nodes ++ allPassages false others := by
  induction nodes with
  | nil => rfl
  | cons node nodes ih => simp [allPassages, ih]

/-- The first line of an option's content may be left out, but need not. -/
theorem tells_opening {nodes : List Node} {texts : List String}
    (tells : Passage.Tells (allPassages false nodes) texts) :
    Passage.Tells (allPassages true nodes) texts := by
  cases nodes with
  | nil => exact tells
  | cons node rest =>
      cases node with
      | line text marks =>
          cases tells with
          | told opening some others => exact .told true some others
      | _ => exact tells

@[simp] theorem passages_wrap (guard : Guard) (node : Node) (first : Bool) :
    (guard.wrap node).passages first = node.passages false := by
  cases guard <;> rfl

@[simp] theorem passages_wrapAll (guards : List Guard) (node : Node) :
    (Guard.wrapAll guards node).passages false = node.passages false := by
  induction guards with
  | nil => rfl
  | cons guard guards ih => exact (passages_wrap ..).trans ih

@[simp] theorem passages_ofList (nodes : List Node) :
    (Node.ofList nodes).passages false = allPassages false nodes := by
  unfold Node.ofList
  split
  · simp [allPassages]
  · rfl

end Node

namespace Token

@[simp] theorem texts_nil : texts [] = [] := rfl

@[simp] theorem texts_append (tokens more : List Token) :
    texts (tokens ++ more) = texts tokens ++ texts more := by
  simp [texts]

@[simp] theorem texts_cons (token : Token) (more : List Token) :
    texts (token :: more) = (if token.kind = .text then [token.value] else []) ++ texts more := by
  by_cases text : token.kind = .text <;> simp [texts, text]

theorem Only.texts_eq_nil {kinds : List Kind} {tokens : List Token} (only : Only kinds tokens)
    (silent : .text ∉ kinds) : texts tokens = [] := by
  simp only [texts, List.map_eq_nil_iff, List.filter_eq_nil_iff, beq_iff_eq]
  intro token member text
  exact silent (text ▸ only token member)

theorem Optional.texts_eq_nil {kind : Kind} {tokens : List Token} (optional : Optional kind tokens)
    (silent : kind ≠ .text) : texts tokens = [] := by
  obtain rfl | ⟨token, rfl, rfl⟩ := optional
  · rfl
  · simp [silent]

theorem Listed.texts_eq_nil {α : Type} {Each : List Token → α → Prop} {tokens : List Token}
    {all : List α} (listed : Listed Each tokens all)
    (each : ∀ tokens a, Each tokens a → texts tokens = []) : texts tokens = [] := by
  induction listed with
  | nil => rfl
  | cons kind first others ih => simp [kind, each _ _ first, ih]

theorem Names.texts_eq_nil {tokens : List Token} {name : String} (names : Names tokens name) :
    texts tokens = [] := by
  obtain ⟨token, rfl, kind, -⟩ := names
  simp [kind]

end Token

open Token (texts)

/-! There are no texts inside braces. -/

theorem Operator.kind_ne_text_of_mem_table {level : Nat} {kind : Token.Kind} {op : Operator}
    (row : (level, kind, op) ∈ table) : kind ≠ .text := by
  have silent : ∀ row ∈ table, row.2.1 ≠ .text := by decide
  exact silent _ row

theorem Expr.Derives.texts_eq_nil {level : Nat} {tokens : List Token} {e : Expr}
    (derives : Derives level tokens e) : texts tokens = [] := by
  induction derives with
  | higher above ih => exact ih
  | left row grouping first second ihFirst ihSecond =>
      simp [Operator.kind_ne_text_of_mem_table row, ihFirst, ihSecond]
  | right row first second ihFirst ihSecond =>
      simp [Operator.kind_ne_text_of_mem_table row, ihFirst, ihSecond]
  | _ => simp_all

theorem Update.kind_ne_text_of_mem_kinds {kind : Token.Kind} (listed : kind ∈ kinds) :
    kind ≠ .text := by
  rintro rfl
  exact absurd listed (by decide)

theorem Assignment.Assigned.texts_eq_nil {name : String} {update : Update} {tokens : List Token}
    {a : Assignment} (assigned : Assigned name update tokens a) : texts tokens = [] := by
  induction assigned with
  | store value => exact value.texts_eq_nil
  | chain target kind rest ih =>
      simp [target.texts_eq_nil, Update.kind_ne_text_of_mem_kinds kind, ih]

theorem Assignment.Derives.texts_eq_nil {tokens : List Token} {a : Assignment}
    (derives : Derives tokens a) : texts tokens = [] := by
  cases derives with
  | mk named kind assigned =>
      simp [named, Update.kind_ne_text_of_mem_kinds kind, assigned.texts_eq_nil]

namespace Guard

variable {tokens : List Token} {guard : Guard} {guards : List Guard}

theorem Inside.texts_eq_nil (inside : Inside tokens guard) : texts tokens = [] := by
  cases inside with
  | assign kind head others =>
      simp [kind, head.texts_eq_nil,
        others.texts_eq_nil fun _ _ derives => Assignment.Derives.texts_eq_nil derives]
  | trigger kind head others =>
      simp [kind, head.texts_eq_nil, others.texts_eq_nil fun _ _ names => names.texts_eq_nil]
  | condition kind value =>
      simp [kind.texts_eq_nil (by decide), value.texts_eq_nil]

theorem Derives.texts_eq_nil (derives : Derives tokens guard) : texts tokens = [] := by
  cases derives with
  | mk opens inside closes => simp [opens, inside.texts_eq_nil, closes]

theorem DerivesAll.texts_eq_nil (derives : DerivesAll tokens guards) : texts tokens = [] := by
  induction derives with
  | nil => rfl
  | cons first others ih => simp [first.texts_eq_nil, ih]

theorem Trailing.texts_eq_nil (trailing : Trailing tokens guards) : texts tokens = [] := by
  cases trailing with
  | mk all ends => simp [all.texts_eq_nil, ends.texts_eq_nil (by decide)]

end Guard

/-! Texts stand in lines and in the names of options and their lists. -/

namespace Caption

variable {tokens : List Token} {caption whole : Caption}

theorem Derives.texts_eq (derives : Derives tokens caption) : texts tokens = [caption.text] := by
  cases derives with
  | plain kind only => simp [kind, only.texts_eq_nil (by decide)]
  | spoken who kind only => simp [who, kind, only.texts_eq_nil (by decide)]

theorem Continues.text_eq (continues : Continues caption tokens whole) :
    whole.text = " ".intercalate (caption.text :: texts tokens) := by
  induction continues with
  | nil => simp
  | cons kind only rest ih => simp [ih, kind, only.texts_eq_nil (by decide), String.append_assoc]

theorem Continues.tells (continues : Continues caption tokens whole) :
    Passage.Tells [⟨whole.text, false⟩] (caption.text :: texts tokens) := by
  have told := Passage.Tells.told false (List.cons_ne_nil caption.text (texts tokens)) .nil
  rwa [List.append_nil, ← continues.text_eq] at told

/-- An option's name tells its text, and the line that opens its content repeats it or tells a
text of its own. -/
theorem Labels.tells {shown rest : List Node} {more : List String}
    (labels : Labels tokens caption shown)
    (after : Passage.Tells (Node.allPassages false rest) more) :
    Passage.Tells (⟨caption.text, false⟩ :: Node.allPassages true (shown ++ rest))
      (texts tokens ++ more) := by
  cases labels with
  | «open» inside =>
      rw [inside.texts_eq]
      exact .cons _ false (.repeated _ after)
  | closed opens inside closes only =>
      simpa [opens, closes, inside.texts_eq, only.texts_eq_nil] using
        Passage.Tells.cons _ false (Node.tells_opening after)
  | shown opens inside closes only kind also =>
      simpa [opens, closes, inside.texts_eq, only.texts_eq_nil, kind, also.texts_eq_nil,
        Node.allPassages, Node.passages] using
        Passage.Tells.cons _ false (Passage.Tells.cons _ true after)

end Caption

theorem Header.tells {tokens : List Token} {name : Option String} {marks : Marks}
    {passages : List Passage} {more : List String} (header : Header tokens name marks)
    (after : Passage.Tells passages more) :
    Passage.Tells (name.toList.map (⟨·, false⟩) ++ passages) (texts tokens ++ more) := by
  cases header with
  | none => exact after
  | some inside =>
      rw [inside.texts_eq]
      exact .cons _ false after

theorem Node.Diverts.texts_eq_nil {tokens : List Token} {node : Node}
    (diverts : Diverts tokens node) : texts tokens = [] ∧ node.passages false = [] := by
  cases diverts with
  | mk kind trailing =>
      refine ⟨?_, by simp [Node.passages]⟩
      have silent := Token.Only.texts_eq_nil (List.forall_mem_singleton.2 kind) (by decide)
      simpa [trailing.texts_eq_nil] using silent

theorem VariationMode.Derives.texts_eq_nil {tokens : List Token} {mode : VariationMode}
    (derives : Derives tokens mode) : texts tokens = [] := by
  cases derives with
  | none => rfl
  | some kind => simp [kind]

namespace Governed

def node : Governed → Node
  | item node | statement node => node

@[simp] theorem node_item (node : Node) : (item node).node = node := rfl

@[simp] theorem node_statement (node : Node) : (statement node).node = node := rfl

@[simp] theorem node_wrap (guard : Guard) (result : Governed) :
    (result.wrap guard).node = guard.wrap result.node := by
  cases result <;> rfl

end Governed

namespace Phrase

/-- The texts of what a phrase writes. -/
def passages : Phrase → List Passage
  | .lines nodes | .indented nodes | .body nodes | .nested nodes | .statement nodes =>
      Node.allPassages false nodes
  | .headed first rest | .items first rest => Node.allPassages false (first ++ rest)
  | .option node => node.passages false
  | .alternatives all => Node.eachPassages all
  | .guarded result | .governed _ result => result.node.passages false

theorem Derives.tells {tokens : List Token} {phrase : Phrase} (derives : Derives tokens phrase) :
    Passage.Tells phrase.passages (texts tokens) := by
  induction derives with
  | nil => exact .nil
  | statement head tail ihHead ihTail => simpa [passages] using ihHead.append ihTail
  | list head starts tail ihHead ihTail =>
      simpa [passages, Node.allPassages, Node.passages] using ihHead.append ihTail
  | guardedList head middle tail ihHead ihMiddle ihTail =>
      simpa [passages, Node.allPassages, Node.passages] using ihHead.append (ihMiddle.append ihTail)
  | guardedStatement head tail ihHead ihTail =>
      simpa [passages, Node.allPassages] using ihHead.append ihTail
  | lineBreak kind tail ih => simpa [kind] using ih
  | indented opens inside closes ih => simpa [passages, opens, closes] using ih
  | deeper inside ih => exact ih
  | level inside ih => exact ih
  | leaf => exact .nil
  | nested inside ih => exact ih
  | line text trailing =>
      simpa [passages, Node.allPassages, Node.passages, Caption.line, text.texts_eq,
        trailing.texts_eq_nil] using Passage.Tells.cons _ false .nil
  | longLine text trailing opens continues closes =>
      simpa [passages, Node.allPassages, Node.passages, Caption.line, text.texts_eq,
        trailing.texts_eq_nil, opens, closes] using continues.tells
  | headedLine text trailing opens list ih =>
      simpa [passages, Node.allPassages, Node.passages, text.texts_eq, trailing.texts_eq_nil,
        opens] using Passage.Tells.cons _ false ih
  | headed list starts after closes ihList ihAfter =>
      simpa [passages, closes] using ihList.append ihAfter
  | start kind head ends list starts ih =>
      simpa [passages, Node.allPassages, Node.passages, kind, ends.texts_eq_nil] using head.tells ih
  | deepStart kind head ends opens list ih =>
      simpa [passages, Node.allPassages, Node.passages, kind, ends.texts_eq_nil, opens] using
        head.tells ih
  | divert diverts =>
      simpa [passages, Node.allPassages, diverts.texts_eq_nil] using Passage.Tells.nil
  | variations opens written inside ends ih =>
      simpa [passages, Node.allPassages, Node.passages, opens, written.texts_eq_nil,
        ends.texts_eq_nil] using ih
  | noItem => exact .nil
  | item head tail ihHead ihTail =>
      simpa [passages, Node.allPassages] using ihHead.append ihTail
  | guardedItem head tail ihHead ihTail =>
      simpa [passages, Node.allPassages] using ihHead.append ihTail
  | ended head ih => simpa [passages, Node.allPassages] using ih
  | itemBreak kind tail ih => simpa [kind] using ih
  | @option sign first second third fourth fifth before after caption shown away inner kind guards
      label trailing leaves content ih =>
      have silent : texts fourth = [] ∧ Node.allPassages false away = [] := by
        obtain ⟨rfl, rfl⟩ | ⟨node, rfl, diverts⟩ := leaves
        · exact ⟨rfl, rfl⟩
        · simpa [Node.allPassages] using diverts.texts_eq_nil
      have rest : Passage.Tells (Node.allPassages false (away ++ inner)) (texts fifth) := by
        rwa [Node.allPassages_append, silent.2]
      have mark := Token.Only.texts_eq_nil (List.forall_mem_singleton.2 kind) (by decide)
      rw [← List.singleton_append, Token.texts_append, mark]
      simpa [passages, Node.passages, guards.texts_eq_nil, trailing.texts_eq_nil, silent.1] using
        label.tells rest
  | close kind => simpa [passages, Node.eachPassages, kind] using Passage.Tells.nil
  | gap kind tail ih =>
      have silent := Token.Only.texts_eq_nil (List.forall_mem_singleton.2 kind) (by decide)
      rw [← List.singleton_append, Token.texts_append, silent]
      exact ih
  | alternative kind head tail ihHead ihTail =>
      simpa [passages, Node.eachPassages, kind] using ihHead.append ihTail
  | guarded head tail ih => simpa [passages, head.texts_eq_nil] using ih
  | act ends => simpa [passages, Node.passages, ends.texts_eq_nil] using Passage.Tells.nil
  | block kind inside ih => simpa [passages, Node.passages, kind] using ih
  | governedBreak kind rest ih => simpa [kind] using ih
  | governedOption inside ih => simpa [passages] using ih
  | governedGuard inside ih => simpa [passages] using ih
  | governedStatement inside ih => simpa [passages] using ih

end Phrase

theorem Block.Derives.tells {tokens : List Token} {blocks : List Block}
    (derives : Derives tokens blocks) :
    Passage.Tells (blocks.flatMap fun block => Node.allPassages false block.content)
      (texts tokens) := by
  induction derives with
  | nil => exact .nil
  | cons kind content others ih => simpa [kind, Phrase.passages] using content.tells.append ih

theorem Document.Derives.tells {tokens : List Token} {d : Document} (derives : Derives tokens d) :
    Passage.Tells d.passages (texts tokens) := by
  cases derives with
  | mk content named =>
      simpa [Document.passages, Phrase.passages] using content.tells.append named.tells

theorem Stream.texts_items_ofSource (source : String) :
    texts (ofSource source).items = texts (ofSource source).tokens := by
  have ended := ended_ofSource source
  cases last : (ofSource source).last with
  | error error => simp [items, last]
  | ok token => simp [items, last, ended token last]

/-- The texts of a source, joined by spaces, are those of the document that it writes, but for first
lines of options' contents. -/
theorem Document.passages_of_parse {source : String} {d : Document}
    (parsed : parse source = .ok d) :
    ∃ kept, Passage.Leaves d.passages kept ∧
      " ".intercalate (kept.map Passage.text) =
        " ".intercalate (texts (Stream.ofSource source).items) := by
  obtain ⟨kept, leaves, -, same⟩ := (derives_of_parse parsed).tells.exists_leaves
  exact ⟨kept, leaves, same.trans (by rw [Stream.texts_items_ofSource])⟩

namespace Document

/-- A source with a continued line and a list of options. -/
def welcome : String :=
  "Hello,\n  friend\nWell?\n  * [Yes] Sure\n  * No\n    Ok\n== bye\n(\n  - So\n)\n"

/-- The second option says its name again, and the first something else. -/
theorem passages_of_parse_welcome :
    (parse welcome).map passages =
      .ok [⟨"Hello, friend", false⟩, ⟨"Well?", false⟩, ⟨"Yes", false⟩, ⟨"Sure", true⟩,
        ⟨"No", false⟩, ⟨"No", true⟩, ⟨"Ok", false⟩, ⟨"So", false⟩] ∧
    texts (Stream.ofSource welcome).items =
      ["Hello,", "friend", "Well?", "Yes", "Sure", "No", "Ok", "So"] ∧
    ∃ d, parse welcome = .ok d ∧ ∃ kept, Passage.Leaves d.passages kept ∧
      " ".intercalate (kept.map Passage.text) = "Hello, friend Well? Yes Sure No Ok So" := by
  have read : (parse welcome).map passages =
      .ok [⟨"Hello, friend", false⟩, ⟨"Well?", false⟩, ⟨"Yes", false⟩, ⟨"Sure", true⟩,
        ⟨"No", false⟩, ⟨"No", true⟩, ⟨"Ok", false⟩, ⟨"So", false⟩] := by decide +kernel
  have told : texts (Stream.ofSource welcome).items =
      ["Hello,", "friend", "Well?", "Yes", "Sure", "No", "Ok", "So"] := by decide +kernel
  refine ⟨read, told, ?_⟩
  cases parsed : parse welcome with
  | error halt => simp [parsed, Except.map] at read
  | ok d =>
      obtain ⟨kept, leaves, same⟩ := passages_of_parse parsed
      rw [told] at same
      exact ⟨d, rfl, kept, leaves, same⟩

end Document
end Dialogue
