import Dialogue.Document
import Dialogue.Expr.Parser
import Dialogue.Token.Source

/-! Reading a document from its tokens. Every function takes an allowance of nested calls, which
`parse` sets to a multiple of the number of tokens. -/
namespace Dialogue

/-- What stands in braces before it is attached to what it governs. -/
inductive Guard where
  | action (action : Action)
  | condition (condition : Expr)

namespace Guard

def wrap : Guard → Node → Node
  | action a, body => .acting a body
  | condition c, body => .conditional c body

/-- The first guard becomes the outermost. -/
def wrapAll (guards : List Guard) (body : Node) : Node := guards.foldr wrap body

end Guard

/-- What a guard on its own turned out to govern. -/
inductive Governed where
  /-- an option, which belongs into a list -/
  | item (node : Node)
  | statement (node : Node)

namespace Governed

def wrap (guard : Guard) : Governed → Governed
  | item node => item (guard.wrap node)
  | statement node => statement (guard.wrap node)

end Governed

structure Caption where
  text : String
  marks : Marks := {}

namespace Caption

def line (caption : Caption) : Node := .line caption.text caption.marks

end Caption

/-- Several nodes are put into one content. -/
def Node.ofList : List Node → Node
  | [node] => node
  | nodes => .content nodes

namespace Parser

def optionKinds : List Token.Kind := [.option, .stickyOption, .fallbackOption]

/-- The kinds that start a statement. -/
def lineKinds : List Token.Kind :=
  [.speaker, .text, .option, .stickyOption, .fallbackOption, .optionsStart, .divert, .divertParent,
   .bracketOpen, .braceOpen, .lineBreak]

def guard (fuel : Nat) : Parser Guard := do
  let _ ← expect [.braceOpen]
  let inside ← match ← kind with
    | .set => Guard.action <$> Action.assign <$> assignments fuel
    | .trigger => Guard.action <$> Action.trigger <$> events fuel
    | _ => do
        skip .when
        Guard.condition <$> expression fuel 0
  let _ ← expect [.braceClose]
  return inside

def guards : Nat → Parser (List Guard)
  | 0 => exhausted
  | fuel + 1 => do
      if ← next [.braceOpen] then
        let first ← guard fuel
        return first :: (← guards fuel)
      else return []

/-- The guards at the end of a line, and its line break. -/
def trailing (fuel : Nat) : Parser (List Guard) := do
  let all ← guards fuel
  skip .lineBreak
  return all

/-- The ids and tags after a text. The last id counts. -/
def marked : Nat → Marks → Parser Marks
  | 0, _ => exhausted
  | fuel + 1, marks => do
      if ← next [.lineId, .tag] then
        let token ← expect [.lineId, .tag]
        if token.kind == .lineId then marked fuel { marks with id := some token.value }
        else marked fuel { marks with tags := marks.tags ++ [token.value] }
      else return marks

def caption (fuel : Nat) : Parser Caption := do
  let speaker ←
    if ← next [.speaker] then
      let token ← expect [.speaker]
      pure (some token.value)
    else pure none
  let text ← expect [.text]
  return ⟨text.value, ← marked fuel { speaker := speaker }⟩

/-- The lines that continue a text, joined to it by spaces. -/
def continued : Nat → Caption → Parser Caption
  | 0, _ => exhausted
  | fuel + 1, caption => do
      if ← next [.text] then
        let text ← expect [.text]
        let marks ← marked fuel caption.marks
        continued fuel ⟨caption.text ++ " " ++ text.value, marks⟩
      else return caption

def divert (fuel : Nat) : Parser Node := do
  let token ← expect [.divert, .divertParent]
  let target := if token.kind == .divert then Target.written token.value else Target.parentName
  return Guard.wrapAll (← trailing fuel) (.divert target)

def variationMode : Parser VariationMode := do
  if ← next [.variationsMode] then
    let token ← expect [.variationsMode]
    return (VariationMode.ofName? token.value).getD default
  else return default

/-- Closes at most `count` levels of indentation. -/
def dedents : Nat → Parser Unit
  | 0 => return
  | count + 1 => do
      if ← next [.dedent] then
        let _ ← expect [.dedent]
        dedents count

/-- The text of an option, and the line it opens its content with. A text in square brackets is
not repeated there, but a text after the brackets is. -/
def label (fuel : Nat) : Parser (Caption × List Node) := do
  match ← kind with
  | .labelOpen =>
      let _ ← expect [.labelOpen]
      let inside ← caption fuel
      let _ ← expect [.labelClose]
      let marks ← marked fuel inside.marks
      let shown ←
        if ← next [.text] then
          let text ← expect [.text]
          let shown ← marked fuel { speaker := marks.speaker }
          pure [Node.line text.value shown]
        else pure []
      return (⟨inside.text, marks⟩, shown)
  | .speaker | .text =>
      let inside ← caption fuel
      return (inside, [inside.line])
  | _ => unexpected [.speaker, .text, .labelOpen, .braceOpen]

mutual

/-- Statements up to the first token that starts none. -/
def lines : Nat → Parser (List Node)
  | 0 => exhausted
  | fuel + 1 => do
      match ← kind with
      | .speaker | .text => return (← lineStatement fuel) ++ (← lines fuel)
      | .option | .stickyOption | .fallbackOption =>
          let (options, after) ← optionList fuel none {} []
          return options :: after ++ (← lines fuel)
      | .optionsStart => return (← optionsStart fuel) ++ (← lines fuel)
      | .divert | .divertParent =>
          let node ← divert fuel
          return node :: (← lines fuel)
      | .bracketOpen =>
          let node ← variations fuel
          return node :: (← lines fuel)
      | .braceOpen =>
          let first ← guard fuel
          match ← governed fuel first with
          | .statement node => return node :: (← lines fuel)
          | .item item =>
              let (options, after) ← optionList fuel none {} [item]
              return options :: after ++ (← lines fuel)
      | .lineBreak =>
          let _ ← expect [.lineBreak]
          lines fuel
      | _ => return []

/-- Statements on a deeper level if one opens here, and on the same one otherwise. -/
def body : Nat → Parser (List Node)
  | 0 => exhausted
  | fuel + 1 => do
      if ← next [.indent] then indented fuel else lines fuel

/-- Statements on a deeper level. -/
def indented : Nat → Parser (List Node)
  | 0 => exhausted
  | fuel + 1 => do
      let _ ← expect [.indent]
      let nodes ← lines fuel
      let _ ← expect [.dedent]
      return nodes

/-- A line, with the lines that continue it on a deeper level; or the name of a list of options
that stands there. -/
def lineStatement : Nat → Parser (List Node)
  | 0 => exhausted
  | fuel + 1 => do
      let first ← caption fuel
      let guards ← trailing fuel
      if ← next [.indent] then
        let _ ← expect [.indent]
        if ← next (optionKinds ++ [.braceOpen]) then
          let (options, rest) ← headedList fuel (some first.text) first.marks
          return Guard.wrapAll guards options :: rest
        else
          let whole ← continued fuel first
          let _ ← expect [.dedent]
          return [Guard.wrapAll guards whole.line]
      else return [Guard.wrapAll guards first.line]

/-- A list of options on a deeper level, with the statements after it there. -/
def headedList : Nat → Option String → Marks → Parser (Node × List Node)
  | 0, _, _ => exhausted
  | fuel + 1, name, marks => do
      let (options, after) ← optionList fuel name marks []
      let rest ← if ← next [.dedent] then pure [] else lines fuel
      let _ ← expect [.dedent]
      return (options, after ++ rest)

/-- A list of options with a mark of its own. -/
def optionsStart : Nat → Parser (List Node)
  | 0 => exhausted
  | fuel + 1 => do
      let _ ← expect [.optionsStart]
      let (name, marks) ←
        if ← next [.speaker, .text] then
          let header ← caption fuel
          pure (some header.text, header.marks)
        else pure (none, {})
      skip .lineBreak
      if ← next [.indent] then
        let _ ← expect [.indent]
        let (options, rest) ← headedList fuel name marks
        return options :: rest
      else
        let (options, after) ← optionList fuel name marks []
        return options :: after

/-- A list of options that starts with the given items, and the statement that ended it if a
guard did not turn out to govern an option. -/
def optionList : Nat → Option String → Marks → List Node → Parser (Node × List Node)
  | 0, _, _, _ => exhausted
  | fuel + 1, name, marks, first => do
      if first.isEmpty then
        if !(← next (optionKinds ++ [.braceOpen])) then unexpected (optionKinds ++ [.braceOpen])
      let (items, after) ← optionItems fuel
      return (.options name marks (first ++ items), after)

def optionItems : Nat → Parser (List Node × List Node)
  | 0 => exhausted
  | fuel + 1 => do
      match ← kind with
      | .option | .stickyOption | .fallbackOption =>
          let item ← option fuel
          let (items, after) ← optionItems fuel
          return (item :: items, after)
      | .braceOpen =>
          let first ← guard fuel
          match ← governed fuel first with
          | .item item =>
              let (items, after) ← optionItems fuel
              return (item :: items, after)
          | .statement node => return ([], [node])
      | .lineBreak =>
          let _ ← expect [.lineBreak]
          optionItems fuel
      | _ => return ([], [])

def option : Nat → Parser Node
  | 0 => exhausted
  | fuel + 1 => do
      let sign ← expect optionKinds
      let mode := match sign.kind with
        | .stickyOption => OptionMode.sticky
        | .fallbackOption => .fallback
        | _ => .once
      let before ← guards fuel
      let (caption, shown) ← label fuel
      let after ← trailing fuel
      let away ← if ← next [.divert, .divertParent] then pure [← divert fuel] else pure []
      let nested ← if ← next [.indent] then indented fuel else pure []
      return Guard.wrapAll (before ++ after)
        (.option caption.text mode caption.marks (shown ++ away ++ nested))

def variations : Nat → Parser Node
  | 0 => exhausted
  | fuel + 1 => do
      let _ ← expect [.bracketOpen]
      let mode ← variationMode
      let (all, open') ← alternatives fuel 0
      dedents open'
      return .variations mode all

/-- The alternatives up to the closing bracket, and how many levels are open there. -/
def alternatives : Nat → Nat → Parser (List (List Node) × Nat)
  | 0, _ => exhausted
  | fuel + 1, depth => do
      let token ← expect [.indent, .dedent, .lineBreak, .minus, .bracketClose]
      match token.kind with
      | .indent => alternatives fuel (depth + 1)
      | .dedent => alternatives fuel (depth - 1)
      | .minus =>
          let nodes ← body fuel
          let (rest, open') ← alternatives fuel depth
          return (nodes :: rest, open')
      | .bracketClose => return ([], depth)
      | _ => alternatives fuel depth

/-- Attaches a guard on its own to what follows it. -/
def governed : Nat → Guard → Parser Governed
  | 0, _ => exhausted
  | fuel + 1, first => do
      if ← next [.lineBreak] then
        let _ ← expect [.lineBreak]
        match first with
        | .action action => return .statement (.act action)
        | .condition condition =>
            if ← next [.indent] then
              return .statement (.conditional condition (.content (← indented fuel)))
            else governed fuel first
      else
        match first with
        | .action action =>
            if ← next [.eof, .dedent] then return .statement (.act action)
            else governedTarget fuel first
        | .condition _ => governedTarget fuel first

def governedTarget : Nat → Guard → Parser Governed
  | 0, _ => exhausted
  | fuel + 1, first => do
      match ← kind with
      | .option | .stickyOption | .fallbackOption => return .item (first.wrap (← option fuel))
      | .braceOpen =>
          let second ← guard fuel
          return (← governed fuel second).wrap first
      | .speaker | .text => return .statement (first.wrap (.ofList (← lineStatement fuel)))
      | .divert | .divertParent => return .statement (first.wrap (← divert fuel))
      | .bracketOpen => return .statement (first.wrap (← variations fuel))
      | .optionsStart => return .statement (first.wrap (.ofList (← optionsStart fuel)))
      | _ =>
          unexpected [.speaker, .text, .option, .stickyOption, .fallbackOption, .optionsStart,
            .divert, .divertParent, .bracketOpen, .braceOpen]

end

def blocks : Nat → Parser (List Block)
  | 0 => exhausted
  | fuel + 1 => do
      if ← next [.block] then
        let name ← expect [.block]
        let content ← body fuel
        return ⟨name.value, content⟩ :: (← blocks fuel)
      else return []

def document (fuel : Nat) : Parser Document := do
  let content ← if ← next lineKinds then lines fuel else pure []
  let named ← blocks fuel
  if ← next [.eof] then return ⟨content, named⟩
  else unexpected (lineKinds ++ [.block, .eof])

/-- Calls that nest without taking a token are fewer than this. -/
def callsPerToken : Nat := 16

def allowance (stream : Stream) : Nat := callsPerToken * (stream.tokens.length + 2)

end Parser

/-- The document that a stream of tokens writes. -/
def Document.ofStream (stream : Stream) : Except Halt Document :=
  (Parser.document (Parser.allowance stream) stream).map (·.1)

/-- The document that a source writes. -/
def parse (source : String) : Except Halt Document := Document.ofStream (Stream.ofSource source)

end Dialogue
