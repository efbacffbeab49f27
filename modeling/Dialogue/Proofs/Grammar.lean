import Dialogue.Document.Parser
import Dialogue.Proofs.Precedence
import Dialogue.Proofs.Scanned

/-! The grammar of documents: which tokens write what. A document that is read is derived from the
tokens that were taken. -/
namespace Dialogue

namespace Token

/-- Tokens of some kinds only. -/
def Only (kinds : List Kind) (tokens : List Token) : Prop := ∀ token ∈ tokens, token.kind ∈ kinds

/-- Tokens of which the first is of one of some kinds. -/
def Starts (kinds : List Kind) (tokens : List Token) : Prop :=
  ∃ token rest, tokens = token :: rest ∧ token.kind ∈ kinds

theorem Starts.of_mem {kind : Kind} {kinds : List Kind} {tokens : List Token}
    (starts : Starts [kind] tokens) (listed : kind ∈ kinds) : Starts kinds tokens := by
  obtain ⟨token, rest, same, kind⟩ := starts
  exact ⟨token, rest, same, List.mem_singleton.1 kind ▸ listed⟩

/-- Items with a comma before each. -/
inductive Listed {α : Type} (Each : List Token → α → Prop) : List Token → List α → Prop
  | nil : Listed Each [] []
  | cons {comma : Token} {tokens more : List Token} {a : α} {rest : List α}
      (kind : comma.kind = .comma) (first : Each tokens a) (others : Listed Each more rest) :
      Listed Each (comma :: (tokens ++ more)) (a :: rest)

/-- The target of a divert. -/
def target (token : Token) : String :=
  if token.kind == .divert then Target.written token.value else Target.parentName

/-- The mode of an option with a mark. -/
def optionMode (token : Token) : OptionMode :=
  match token.kind with
  | .stickyOption => .sticky
  | .fallbackOption => .fallback
  | _ => .once

/-- The name of an event. -/
def Names (tokens : List Token) (name : String) : Prop :=
  ∃ token, tokens = [token] ∧ token.kind = .identifier ∧ name = token.value

end Token

/-- What stands right of an assignment. -/
inductive Assignment.Assigned : String → Update → List Token → Assignment → Prop
  | store {name : String} {update : Update} {tokens : List Token} {e : Expr}
      (value : Expr.Derives 1 tokens e) : Assigned name update tokens (.store name update e)
  | chain {name inner : String} {update : Update} {tokens more : List Token} {sign : Token}
      {next : Assignment} (target : Expr.Derives 1 tokens (.variable inner))
      (kind : sign.kind ∈ Update.kinds) (rest : Assigned inner (.ofKind sign.kind) more next) :
      Assigned name update (tokens ++ sign :: more) (.chain name update next)

inductive Assignment.Derives : List Token → Assignment → Prop
  | mk {name sign : Token} {tokens : List Token} {a : Assignment} (named : name.kind = .identifier)
      (kind : sign.kind ∈ Update.kinds)
      (assigned : Assigned name.value (.ofKind sign.kind) tokens a) :
      Derives (name :: sign :: tokens) a

namespace Guard

/-- What stands between braces. -/
inductive Inside : List Token → Guard → Prop
  | assign {keyword : Token} {tokens more : List Token} {first : Assignment}
      {rest : List Assignment} (kind : keyword.kind = .set) (head : Assignment.Derives tokens first)
      (others : Token.Listed Assignment.Derives more rest) :
      Inside (keyword :: (tokens ++ more)) (.action (.assign (first :: rest)))
  | trigger {keyword : Token} {tokens more : List Token} {first : String} {rest : List String}
      (kind : keyword.kind = .trigger) (head : Token.Names tokens first)
      (others : Token.Listed Token.Names more rest) :
      Inside (keyword :: (tokens ++ more)) (.action (.trigger (first :: rest)))
  | condition {keyword tokens : List Token} {e : Expr} (kind : Token.Optional .when keyword)
      (value : Expr.Derives 1 tokens e) : Inside (keyword ++ tokens) (.condition e)

inductive Derives : List Token → Guard → Prop
  | mk {opening closing : Token} {tokens : List Token} {guard : Guard}
      (opens : opening.kind = .braceOpen) (inside : Inside tokens guard)
      (closes : closing.kind = .braceClose) : Derives (opening :: (tokens ++ [closing])) guard

theorem Derives.ne_nil {tokens : List Token} {guard : Guard} (derives : Derives tokens guard) :
    tokens ≠ [] := by
  cases derives with
  | mk opens inside closes => exact List.cons_ne_nil _ _

inductive DerivesAll : List Token → List Guard → Prop
  | nil : DerivesAll [] []
  | cons {tokens more : List Token} {guard : Guard} {rest : List Guard}
      (first : Derives tokens guard) (others : DerivesAll more rest) :
      DerivesAll (tokens ++ more) (guard :: rest)

/-- The end of a line. -/
inductive Trailing : List Token → List Guard → Prop
  | mk {tokens ending : List Token} {guards : List Guard} (all : DerivesAll tokens guards)
      (ends : Token.Optional .lineBreak ending) : Trailing (tokens ++ ending) guards

end Guard

/-- The marks after one more token beside a text. -/
def Marks.add (marks : Marks) (token : Token) : Marks :=
  if token.kind == .lineId then { marks with id := some token.value }
  else { marks with tags := marks.tags ++ [token.value] }

namespace Caption

inductive Derives : List Token → Caption → Prop
  | plain {text : Token} {marks : List Token} (kind : text.kind = .text)
      (only : Token.Only [.lineId, .tag] marks) :
      Derives (text :: marks) ⟨text.value, marks.foldl .add {}⟩
  | spoken {speaker text : Token} {marks : List Token} (who : speaker.kind = .speaker)
      (kind : text.kind = .text) (only : Token.Only [.lineId, .tag] marks) :
      Derives (speaker :: text :: marks)
        ⟨text.value, marks.foldl .add { speaker := some speaker.value }⟩

/-- Lines that continue a text. -/
inductive Continues : Caption → List Token → Caption → Prop
  | nil {caption : Caption} : Continues caption [] caption
  | cons {caption whole : Caption} {text : Token} {marks more : List Token}
      (kind : text.kind = .text) (only : Token.Only [.lineId, .tag] marks)
      (rest : Continues ⟨caption.text ++ " " ++ text.value, marks.foldl .add caption.marks⟩
        more whole) :
      Continues caption (text :: (marks ++ more)) whole

/-- The text of an option, with the line that it opens its content with. -/
inductive Labels : List Token → Caption → List Node → Prop
  | open {tokens : List Token} {caption : Caption} (inside : Derives tokens caption) :
      Labels tokens caption [caption.line]
  | closed {opening closing : Token} {tokens marks : List Token} {caption : Caption}
      (opens : opening.kind = .labelOpen) (inside : Derives tokens caption)
      (closes : closing.kind = .labelClose) (only : Token.Only [.lineId, .tag] marks) :
      Labels (opening :: (tokens ++ closing :: marks))
        ⟨caption.text, marks.foldl .add caption.marks⟩ []
  | shown {opening closing text : Token} {tokens marks more : List Token} {caption : Caption}
      (opens : opening.kind = .labelOpen) (inside : Derives tokens caption)
      (closes : closing.kind = .labelClose) (only : Token.Only [.lineId, .tag] marks)
      (kind : text.kind = .text) (also : Token.Only [.lineId, .tag] more) :
      Labels (opening :: (tokens ++ closing :: (marks ++ text :: more)))
        ⟨caption.text, marks.foldl .add caption.marks⟩
        [.line text.value (more.foldl .add
          { speaker := (marks.foldl Marks.add caption.marks).speaker })]

end Caption

/-- The header of a list of options, if it has one. -/
inductive Header : List Token → Option String → Marks → Prop
  | none : Header [] none {}
  | some {tokens : List Token} {caption : Caption} (inside : Caption.Derives tokens caption) :
      Header tokens (some caption.text) caption.marks

inductive Node.Diverts : List Token → Node → Prop
  | mk {token : Token} {tokens : List Token} {guards : List Guard}
      (kind : token.kind ∈ [Token.Kind.divert, .divertParent])
      (trailing : Guard.Trailing tokens guards) :
      Diverts (token :: tokens) (Guard.wrapAll guards (.divert token.target))

inductive VariationMode.Derives : List Token → VariationMode → Prop
  | none : Derives [] default
  | some {token : Token} (kind : token.kind = .variationsMode) :
      Derives [token] ((VariationMode.ofName? token.value).getD default)

/-- What a run of tokens may write inside a document. -/
inductive Phrase where
  /-- statements, one after the other -/
  | lines (nodes : List Node)
  /-- statements on a deeper level -/
  | indented (nodes : List Node)
  /-- statements on a deeper level, or on the same one -/
  | body (nodes : List Node)
  /-- statements on a deeper level, if it opens -/
  | nested (nodes : List Node)
  /-- a statement, with what it leaves behind -/
  | statement (nodes : List Node)
  /-- a list of options up to the end of its level, and the statements after it there -/
  | headed (items rest : List Node)
  /-- options, and the statement that ended their list -/
  | items (items rest : List Node)
  | option (node : Node)
  | alternatives (all : List (List Node))
  /-- a guard with what it governs -/
  | guarded (result : Governed)
  /-- what a guard governs -/
  | governed (guard : Guard) (result : Governed)

namespace Phrase

inductive Derives : List Token → Phrase → Prop
  | nil : Derives [] (.lines [])
  | statement {first more : List Token} {nodes others : List Node}
      (head : Derives first (.statement nodes)) (tail : Derives more (.lines others)) :
      Derives (first ++ more) (.lines (nodes ++ others))
  | list {first more : List Token} {items rest others : List Node}
      (head : Derives first (.items items rest)) (starts : Token.Starts Parser.optionKinds first)
      (tail : Derives more (.lines others)) :
      Derives (first ++ more) (.lines (.options none {} items :: rest ++ others))
  | guardedList {first second more : List Token} {item : Node} {items rest others : List Node}
      (head : Derives first (.guarded (.item item))) (middle : Derives second (.items items rest))
      (tail : Derives more (.lines others)) :
      Derives (first ++ (second ++ more))
        (.lines (.options none {} (item :: items) :: rest ++ others))
  | guardedStatement {first more : List Token} {node : Node} {others : List Node}
      (head : Derives first (.guarded (.statement node))) (tail : Derives more (.lines others)) :
      Derives (first ++ more) (.lines (node :: others))
  | lineBreak {token : Token} {more : List Token} {nodes : List Node}
      (kind : token.kind = .lineBreak) (tail : Derives more (.lines nodes)) :
      Derives (token :: more) (.lines nodes)
  | indented {opening closing : Token} {tokens : List Token} {nodes : List Node}
      (opens : opening.kind = .indent) (inside : Derives tokens (.lines nodes))
      (closes : closing.kind = .dedent) :
      Derives (opening :: (tokens ++ [closing])) (.indented nodes)
  | deeper {tokens : List Token} {nodes : List Node} (inside : Derives tokens (.indented nodes)) :
      Derives tokens (.body nodes)
  | level {tokens : List Token} {nodes : List Node} (inside : Derives tokens (.lines nodes)) :
      Derives tokens (.body nodes)
  | leaf : Derives [] (.nested [])
  | nested {tokens : List Token} {nodes : List Node} (inside : Derives tokens (.indented nodes)) :
      Derives tokens (.nested nodes)
  | line {first second : List Token} {caption : Caption} {guards : List Guard}
      (text : Caption.Derives first caption) (trailing : Guard.Trailing second guards) :
      Derives (first ++ second) (.statement [Guard.wrapAll guards caption.line])
  | longLine {first second more : List Token} {opening closing : Token} {caption whole : Caption}
      {guards : List Guard} (text : Caption.Derives first caption)
      (trailing : Guard.Trailing second guards) (opens : opening.kind = .indent)
      (continues : Caption.Continues caption more whole) (closes : closing.kind = .dedent) :
      Derives (first ++ (second ++ opening :: (more ++ [closing])))
        (.statement [Guard.wrapAll guards whole.line])
  | headedLine {first second more : List Token} {opening : Token} {caption : Caption}
      {guards : List Guard} {items rest : List Node} (text : Caption.Derives first caption)
      (trailing : Guard.Trailing second guards) (opens : opening.kind = .indent)
      (list : Derives more (.headed items rest)) :
      Derives (first ++ (second ++ opening :: more))
        (.statement
          (Guard.wrapAll guards (.options (some caption.text) caption.marks items) :: rest))
  | headed {first more : List Token} {closing : Token} {items rest others : List Node}
      (list : Derives first (.items items rest))
      (starts : Token.Starts (Parser.optionKinds ++ [.braceOpen]) first)
      (after : Derives more (.lines others)) (closes : closing.kind = .dedent) :
      Derives (first ++ (more ++ [closing])) (.headed items (rest ++ others))
  | start {token : Token} {header ending tokens : List Token} {name : Option String} {marks : Marks}
      {items rest : List Node} (kind : token.kind = .optionsStart) (head : Header header name marks)
      (ends : Token.Optional .lineBreak ending) (list : Derives tokens (.items items rest))
      (starts : Token.Starts (Parser.optionKinds ++ [.braceOpen]) tokens) :
      Derives (token :: (header ++ (ending ++ tokens)))
        (.statement (.options name marks items :: rest))
  | deepStart {token opening : Token} {header ending tokens : List Token} {name : Option String}
      {marks : Marks} {items rest : List Node} (kind : token.kind = .optionsStart)
      (head : Header header name marks) (ends : Token.Optional .lineBreak ending)
      (opens : opening.kind = .indent) (list : Derives tokens (.headed items rest)) :
      Derives (token :: (header ++ (ending ++ opening :: tokens)))
        (.statement (.options name marks items :: rest))
  | divert {tokens : List Token} {node : Node} (diverts : Node.Diverts tokens node) :
      Derives tokens (.statement [node])
  | variations {opening : Token} {chosen tokens ending : List Token} {mode : VariationMode}
      {all : List (List Node)} (opens : opening.kind = .bracketOpen)
      (written : VariationMode.Derives chosen mode) (inside : Derives tokens (.alternatives all))
      (ends : Token.Only [.dedent] ending) :
      Derives (opening :: (chosen ++ (tokens ++ ending))) (.statement [.variations mode all])
  | noItem : Derives [] (.items [] [])
  | item {first more : List Token} {item : Node} {items rest : List Node}
      (head : Derives first (.option item)) (tail : Derives more (.items items rest)) :
      Derives (first ++ more) (.items (item :: items) rest)
  | guardedItem {first more : List Token} {item : Node} {items rest : List Node}
      (head : Derives first (.guarded (.item item))) (tail : Derives more (.items items rest)) :
      Derives (first ++ more) (.items (item :: items) rest)
  | ended {tokens : List Token} {node : Node} (head : Derives tokens (.guarded (.statement node))) :
      Derives tokens (.items [] [node])
  | itemBreak {token : Token} {more : List Token} {items rest : List Node}
      (kind : token.kind = .lineBreak) (tail : Derives more (.items items rest)) :
      Derives (token :: more) (.items items rest)
  | option {sign : Token} {first second third fourth fifth : List Token} {before after : List Guard}
      {caption : Caption} {shown away inner : List Node} (kind : sign.kind ∈ Parser.optionKinds)
      (guards : Guard.DerivesAll first before) (label : Caption.Labels second caption shown)
      (trailing : Guard.Trailing third after)
      (leaves : fourth = [] ∧ away = [] ∨ ∃ node, away = [node] ∧ Node.Diverts fourth node)
      (content : Derives fifth (.nested inner)) :
      Derives (sign :: (first ++ (second ++ (third ++ (fourth ++ fifth)))))
        (.option (Guard.wrapAll (before ++ after)
          (.option caption.text sign.optionMode caption.marks (shown ++ away ++ inner))))
  | close {token : Token} (kind : token.kind = .bracketClose) : Derives [token] (.alternatives [])
  | gap {token : Token} {more : List Token} {all : List (List Node)}
      (kind : token.kind ∈ [Token.Kind.indent, .dedent, .lineBreak])
      (tail : Derives more (.alternatives all)) : Derives (token :: more) (.alternatives all)
  | alternative {token : Token} {first more : List Token} {nodes : List Node}
      {all : List (List Node)} (kind : token.kind = .minus) (head : Derives first (.body nodes))
      (tail : Derives more (.alternatives all)) :
      Derives (token :: (first ++ more)) (.alternatives (nodes :: all))
  | guarded {first more : List Token} {guard : Guard} {result : Governed}
      (head : Guard.Derives first guard) (tail : Derives more (.governed guard result)) :
      Derives (first ++ more) (.guarded result)
  | act {tokens : List Token} {action : Action} (ends : Token.Optional .lineBreak tokens) :
      Derives tokens (.governed (.action action) (.statement (.act action)))
  | block {token : Token} {tokens : List Token} {condition : Expr} {nodes : List Node}
      (kind : token.kind = .lineBreak) (inside : Derives tokens (.indented nodes)) :
      Derives (token :: tokens)
        (.governed (.condition condition) (.statement (.conditional condition (.content nodes))))
  | governedBreak {token : Token} {tokens : List Token} {condition : Expr} {result : Governed}
      (kind : token.kind = .lineBreak)
      (rest : Derives tokens (.governed (.condition condition) result)) :
      Derives (token :: tokens) (.governed (.condition condition) result)
  | governedOption {tokens : List Token} {guard : Guard} {node : Node}
      (inside : Derives tokens (.option node)) :
      Derives tokens (.governed guard (.item (guard.wrap node)))
  | governedGuard {tokens : List Token} {guard : Guard} {result : Governed}
      (inside : Derives tokens (.guarded result)) :
      Derives tokens (.governed guard (result.wrap guard))
  | governedStatement {tokens : List Token} {guard : Guard} {nodes : List Node}
      (inside : Derives tokens (.statement nodes)) :
      Derives tokens (.governed guard (.statement (guard.wrap (.ofList nodes))))

theorem Derives.ne_nil_of_option {tokens : List Token} {node : Node}
    (derives : Derives tokens (.option node)) : tokens ≠ [] := by
  cases derives with
  | option => exact List.cons_ne_nil _ _

end Phrase

inductive Block.Derives : List Token → List Block → Prop
  | nil : Derives [] []
  | cons {name : Token} {first more : List Token} {nodes : List Node} {rest : List Block}
      (kind : name.kind = .block) (content : Phrase.Derives first (.body nodes))
      (others : Derives more rest) :
      Derives (name :: (first ++ more)) (⟨name.value, nodes⟩ :: rest)

inductive Document.Derives : List Token → Document → Prop
  | mk {first more : List Token} {nodes : List Node} {blocks : List Block}
      (content : Phrase.Derives first (.lines nodes)) (named : Block.Derives more blocks) :
      Derives (first ++ more) ⟨nodes, blocks⟩

namespace Parser

variable {fuel : Nat} {s : Stream}

/-- Tokens that were taken start with what was ahead. -/
theorem Yields.started {α : Type} {p : Parser α} {P : List Token → α → Stream → Prop}
    (yields : p.Yields s P) :
    p.Yields s fun used a rest =>
      P used a rest ∧ (used ≠ [] → ∀ kind, s.Ahead kind → Token.Starts [kind] used) := by
  intro ended a rest ran
  obtain ⟨used, rfl, held⟩ := yields ended a rest ran
  refine ⟨used, rfl, held, ?_⟩
  intro some kind ahead
  cases used with
  | nil => exact absurd rfl some
  | cons token more =>
      have here := Stream.ahead_after_cons rest token more
      exact ⟨token, more, rfl, List.mem_singleton.2 (here.unique ahead)⟩

theorem yields_assigned (name : String) (update : Update) :
    (assigned fuel name update).Yields s fun used a _ =>
      Assignment.Assigned name update used a := by
  induction fuel generalizing s name update with
  | zero => exact .exhausted
  | succ fuel ih =>
      rw [assigned]
      refine (yields_expression fuel s).bind fun used e rest derives => ?_
      split
      · next inner =>
          refine .next fun kind ahead => ?_
          split
          · refine .expect (by decide) fun sign rest listed => ?_
            refine (ih inner (.ofKind sign.kind)).bind fun more next rest assigned => .pure ?_
            simpa using Assignment.Assigned.chain derives listed assigned
          · exact .pure (by simpa using Assignment.Assigned.store derives)
      · exact .pure (by simpa using Assignment.Assigned.store derives)

theorem yields_assignment :
    (assignment fuel).Yields s fun used a _ => Assignment.Derives used a := by
  rw [assignment]
  refine .expect (by decide) fun name rest named => ?_
  refine .expect (by decide) fun sign rest listed => ?_
  refine (yields_assigned name.value (.ofKind sign.kind)).imp fun used a rest assigned => ?_
  exact .mk (by simpa using named) listed assigned

theorem yields_commaList {α : Type} {item : Parser α} {Each : List Token → α → Prop}
    (each : ∀ s, item.Yields s fun used a _ => Each used a) :
    (commaList item fuel).Yields s fun used all _ => Token.Listed Each used all := by
  induction fuel generalizing s with
  | zero => exact .exhausted
  | succ fuel ih =>
      rw [commaList]
      refine .next fun kind ahead => ?_
      split
      · refine .expect (by decide) fun comma rest same => ?_
        refine (each rest).bind fun used a rest first => ?_
        refine ih.bind fun more all rest others => .pure ?_
        simpa using Token.Listed.cons (by simpa using same) first others
      · exact .pure .nil

theorem yields_eventName : eventName.Yields s fun used name _ => Token.Names used name := by
  rw [eventName]
  refine .expect (by decide) fun token rest same => .pure ?_
  exact ⟨token, rfl, by simpa using same, rfl⟩

theorem yields_assignments :
    (assignments fuel).Yields s fun used all _ => Guard.Inside used (.action (.assign all)) := by
  rw [assignments]
  refine .expect (by decide) fun keyword rest same => ?_
  refine yields_assignment.bind fun used first rest head => ?_
  refine (yields_commaList fun _ => yields_assignment).bind fun more all rest others => .pure ?_
  simpa using Guard.Inside.assign (by simpa using same) head others

theorem yields_events :
    (events fuel).Yields s fun used all _ => Guard.Inside used (.action (.trigger all)) := by
  rw [events]
  refine .expect (by decide) fun keyword rest same => ?_
  refine yields_eventName.bind fun used first rest head => ?_
  refine (yields_commaList fun _ => yields_eventName).bind fun more all rest others => .pure ?_
  simpa using Guard.Inside.trigger (by simpa using same) head others

theorem yields_guard : (guard fuel).Yields s fun used guard _ => Guard.Derives used guard := by
  rw [guard]
  refine .expect (by decide) fun opening rest opens => ?_
  refine .kind fun kind ahead => ?_
  have closed : ∀ (before : List Token) {p : Parser Guard} {rest : Stream},
      (p.Yields rest fun used guard _ => Guard.Inside (before ++ used) guard) →
      (p >>= fun inside => expect [.braceClose] >>= fun _ => pure inside).Yields rest
        fun used guard _ => Guard.Derives (opening :: (before ++ used)) guard := by
    intro before p rest yields
    refine yields.bind fun used guard rest inside => ?_
    refine .expect (by decide) fun closing rest closes => .pure ?_
    rw [← List.append_assoc]
    exact .mk (by simpa using opens) inside (by simpa using closes)
  split
  · exact closed [] (.map (.map yields_assignments))
  · exact closed [] (.map (.map yields_events))
  · refine .skip (by decide) fun keyword rest same => closed keyword (.map ?_)
    exact (yields_expression fuel rest).imp fun used e rest value => .condition same value

theorem yields_guards :
    (guards fuel).Yields s fun used all _ => Guard.DerivesAll used all := by
  induction fuel generalizing s with
  | zero => exact .exhausted
  | succ fuel ih =>
      rw [guards]
      refine .next fun kind ahead => ?_
      split
      · refine yields_guard.bind fun used guard rest first => ?_
        refine ih.bind fun more all rest others => .pure ?_
        simpa using Guard.DerivesAll.cons first others
      · exact .pure .nil

theorem yields_trailing :
    (trailing fuel).Yields s fun used all _ => Guard.Trailing used all := by
  rw [trailing]
  refine yields_guards.bind fun used all rest derives => ?_
  refine .skip (by decide) fun ending rest ends => .pure ?_
  simpa using Guard.Trailing.mk derives ends

theorem yields_marked (marks : Marks) :
    (marked fuel marks).Yields s fun used result _ =>
      Token.Only [.lineId, .tag] used ∧ result = used.foldl .add marks := by
  induction fuel generalizing s marks with
  | zero => exact .exhausted
  | succ fuel ih =>
      rw [marked]
      refine .next fun kind ahead => ?_
      split
      · refine .expect (by decide) fun token rest listed => ?_
        have step : ∀ marks', marks' = marks.add token →
            (marked fuel marks').Yields rest fun used result _ =>
              Token.Only [.lineId, .tag] (token :: used) ∧
                result = (token :: used).foldl .add marks := by
          rintro - rfl
          refine (ih (marks.add token)).imp fun used result rest held => ?_
          exact ⟨List.forall_mem_cons.2 ⟨listed, held.1⟩, held.2⟩
        split
        · next id => exact step _ (if_pos id).symm
        · next tag => exact step _ (if_neg tag).symm
      · exact .pure ⟨List.forall_mem_nil _, rfl⟩

theorem yields_caption :
    (caption fuel).Yields s fun used caption _ => Caption.Derives used caption := by
  rw [caption]
  refine .next fun kind ahead => ?_
  split
  · refine .expect (by decide) fun speaker rest who => ?_
    rw [pure_bind]
    refine .expect (by decide) fun text rest same => ?_
    refine (yields_marked _).bind fun marks result rest held => .pure ?_
    obtain ⟨only, rfl⟩ := held
    simpa using Caption.Derives.spoken (by simpa using who) (by simpa using same) only
  · rw [pure_bind]
    refine .expect (by decide) fun text rest same => ?_
    refine (yields_marked _).bind fun marks result rest held => .pure ?_
    obtain ⟨only, rfl⟩ := held
    simpa using Caption.Derives.plain (by simpa using same) only

theorem yields_continued (caption : Caption) :
    (continued fuel caption).Yields s fun used whole _ => Caption.Continues caption used whole := by
  induction fuel generalizing s caption with
  | zero => exact .exhausted
  | succ fuel ih =>
      rw [continued]
      refine .next fun kind ahead => ?_
      split
      · refine .expect (by decide) fun text rest same => ?_
        refine (yields_marked _).bind fun marks result rest held => ?_
        obtain ⟨only, rfl⟩ := held
        refine (ih _).imp fun more whole rest continues => ?_
        exact .cons (by simpa using same) only continues
      · exact .pure .nil

theorem yields_divert : (divert fuel).Yields s fun used node _ => Node.Diverts used node := by
  rw [divert]
  refine .expect (by decide) fun token rest listed => ?_
  refine yields_trailing.bind fun used guards rest trailing => .pure ?_
  rw [List.append_nil]
  exact .mk listed trailing

theorem yields_variationMode :
    variationMode.Yields s fun used mode _ => VariationMode.Derives used mode := by
  rw [variationMode]
  refine .next fun kind ahead => ?_
  split
  · refine .expect (by decide) fun token rest same => .pure ?_
    exact .some (by simpa using same)
  · exact .pure .none

theorem yields_dedents (count : Nat) :
    (dedents count).Yields s fun used _ _ => Token.Only [.dedent] used := by
  induction count generalizing s with
  | zero => exact .pure (List.forall_mem_nil _)
  | succ count ih =>
      rw [dedents]
      refine .next fun kind ahead => ?_
      split
      · refine .expect (by decide) fun token rest listed => ?_
        refine ih.imp fun used _ rest only => ?_
        exact List.forall_mem_cons.2 ⟨listed, only⟩
      · exact .pure (List.forall_mem_nil _)

theorem yields_label :
    (label fuel).Yields s fun used result _ => Caption.Labels used result.1 result.2 := by
  rw [label]
  refine .kind fun kind ahead => ?_
  split
  · refine .expect (by decide) fun opening rest opens => ?_
    refine yields_caption.bind fun used inside rest derives => ?_
    refine .expect (by decide) fun closing rest closes => ?_
    refine (yields_marked _).bind fun marks result rest held => ?_
    obtain ⟨only, rfl⟩ := held
    refine .next fun kind ahead => ?_
    split
    · refine .expect (by decide) fun text rest same => ?_
      refine (yields_marked _).bind fun more shown rest held => ?_
      obtain ⟨also, rfl⟩ := held
      rw [pure_bind]
      refine .pure ?_
      simpa using Caption.Labels.shown (by simpa using opens) derives (by simpa using closes) only
        (by simpa using same) also
    · rw [pure_bind]
      refine .pure ?_
      simpa using Caption.Labels.closed (by simpa using opens) derives (by simpa using closes) only
  · refine yields_caption.bind fun used inside rest derives => .pure ?_
    simpa using Caption.Labels.open derives
  · refine yields_caption.bind fun used inside rest derives => .pure ?_
    simpa using Caption.Labels.open derives
  · exact .unexpected

open Phrase (Derives)

/-- Whether tokens at the front of a stream start as a list of options must. -/
structure Itemized (s : Stream) (used : List Token) : Prop where
  starts : Token.Starts (optionKinds ++ [.braceOpen]) used
  ahead : ∀ kind, s.Ahead kind → Token.Starts [kind] used

/-- What the functions that read statements give with some allowance. -/
structure Grammatical (fuel : Nat) : Prop where
  lines : ∀ s, (lines fuel).Yields s fun used nodes _ => Derives used (.lines nodes)
  body : ∀ s, (body fuel).Yields s fun used nodes _ => Derives used (.body nodes)
  indented : ∀ s, (indented fuel).Yields s fun used nodes _ => Derives used (.indented nodes)
  lineStatement : ∀ s,
    (lineStatement fuel).Yields s fun used nodes _ => Derives used (.statement nodes)
  headedList : ∀ s name marks, (headedList fuel name marks).Yields s fun used result _ =>
    ∃ items, result.1 = .options name marks items ∧ Derives used (.headed items result.2)
  optionsStart : ∀ s,
    (optionsStart fuel).Yields s fun used nodes _ => Derives used (.statement nodes)
  optionList : ∀ s name marks first,
    (optionList fuel name marks first).Yields s fun used result _ =>
      ∃ items, result.1 = .options name marks (first ++ items) ∧
        Derives used (.items items result.2) ∧ (first = [] → Itemized s used)
  optionItems : ∀ s, (optionItems fuel).Yields s fun used result _ =>
    Derives used (.items result.1 result.2) ∧
      ∀ kind ∈ optionKinds ++ [.braceOpen], s.Ahead kind → used ≠ []
  option : ∀ s, (option fuel).Yields s fun used node _ => Derives used (.option node)
  variations : ∀ s,
    (variations fuel).Yields s fun used node _ => Derives used (.statement [node])
  alternatives : ∀ s depth,
    (alternatives fuel depth).Yields s fun used result _ => Derives used (.alternatives result.1)
  governed : ∀ s guard,
    (governed fuel guard).Yields s fun used result _ => Derives used (.governed guard result)
  governedTarget : ∀ s guard,
    (governedTarget fuel guard).Yields s fun used result _ => Derives used (.governed guard result)

namespace Grammatical

theorem lines_succ (holds : Grammatical fuel) (s : Stream) :
    (Parser.lines (fuel + 1)).Yields s fun used nodes _ => Derives used (.lines nodes) := by
  rw [Parser.lines]
  have statement : ∀ {p : Parser (List Node)},
      (p.Yields s fun used nodes _ => Derives used (.statement nodes)) →
      (p >>= fun nodes => Parser.lines fuel >>= fun more => pure (nodes ++ more)).Yields s
        fun used nodes _ => Derives used (.lines nodes) := by
    intro p yields
    refine yields.bind fun used nodes rest head => ?_
    refine (holds.lines rest).bind fun more others rest tail => .pure ?_
    simpa using Derives.statement head tail
  have single : ∀ {p : Parser Node},
      (p.Yields s fun used node _ => Derives used (.statement [node])) →
      (p >>= fun node => Parser.lines fuel >>= fun more => pure (node :: more)).Yields s
        fun used nodes _ => Derives used (.lines nodes) := by
    intro p yields
    refine yields.bind fun used node rest head => ?_
    refine (holds.lines rest).bind fun more others rest tail => .pure ?_
    simpa using Derives.statement head tail
  have list : ∀ kind ∈ optionKinds, s.Ahead kind →
      (Parser.optionList fuel none {} [] >>= fun result =>
        Parser.lines fuel >>= fun more => pure (result.1 :: result.2 ++ more)).Yields s
        fun used nodes _ => Derives used (.lines nodes) := by
    intro kind listed ahead
    refine (holds.optionList s none {} []).bind fun used result rest held => ?_
    obtain ⟨items, same, head, itemized⟩ := held
    have starts := ((itemized rfl).ahead kind ahead).of_mem listed
    refine (holds.lines rest).bind fun more others rest tail => .pure ?_
    rw [same]
    simpa using Derives.list head starts tail
  refine .kind fun kind ahead => ?_
  split
  · exact statement (holds.lineStatement s)
  · exact statement (holds.lineStatement s)
  · exact list _ (by decide) ahead
  · exact list _ (by decide) ahead
  · exact list _ (by decide) ahead
  · exact statement (holds.optionsStart s)
  · exact single (yields_divert.imp fun _ _ _ => .divert)
  · exact single (yields_divert.imp fun _ _ _ => .divert)
  · exact single (holds.variations s)
  · refine yields_guard.bind fun first guard rest opens => ?_
    refine (holds.governed rest guard).bind fun second result rest derives => ?_
    have guarded := Derives.guarded opens derives
    split
    · next node =>
        refine (holds.lines rest).bind fun more others rest tail => .pure ?_
        simpa using Derives.guardedStatement guarded tail
    · next item =>
        refine (holds.optionList rest none {} [item]).bind fun third result rest held => ?_
        obtain ⟨items, same, middle, -⟩ := held
        refine (holds.lines rest).bind fun more others rest tail => .pure ?_
        rw [same]
        simpa using Derives.guardedList guarded middle tail
  · refine .expect (by decide) fun token rest same => ?_
    refine (holds.lines rest).imp fun more nodes rest tail => ?_
    exact .lineBreak (by simpa using same) tail
  · exact .pure .nil

theorem body_succ (holds : Grammatical fuel) (s : Stream) :
    (Parser.body (fuel + 1)).Yields s fun used nodes _ => Derives used (.body nodes) := by
  rw [Parser.body]
  refine .next fun kind ahead => ?_
  split
  · exact (holds.indented s).imp fun _ _ _ => .deeper
  · exact (holds.lines s).imp fun _ _ _ => .level

theorem indented_succ (holds : Grammatical fuel) (s : Stream) :
    (Parser.indented (fuel + 1)).Yields s fun used nodes _ => Derives used (.indented nodes) := by
  rw [Parser.indented]
  refine .expect (by decide) fun opening rest opens => ?_
  refine (holds.lines rest).bind fun used nodes rest inside => ?_
  refine .expect (by decide) fun closing rest closes => .pure ?_
  exact .indented (by simpa using opens) inside (by simpa using closes)

theorem lineStatement_succ (holds : Grammatical fuel) (s : Stream) :
    (Parser.lineStatement (fuel + 1)).Yields s fun used nodes _ =>
      Derives used (.statement nodes) := by
  rw [Parser.lineStatement]
  refine yields_caption.bind fun first caption rest text => ?_
  refine yields_trailing.bind fun second guards rest trailing => ?_
  refine .next fun kind ahead => ?_
  split
  · refine .expect (by decide) fun opening rest opens => ?_
    have opens : opening.kind = .indent := by simpa using opens
    refine .next fun kind ahead => ?_
    split
    · refine (holds.headedList rest _ _).bind fun more result rest held => .pure ?_
      obtain ⟨items, same, list⟩ := held
      rw [same]
      simpa using Derives.headedLine text trailing opens list
    · refine (yields_continued caption).bind fun more whole rest continues => ?_
      refine .expect (by decide) fun closing rest closes => .pure ?_
      simpa using Derives.longLine text trailing opens continues (by simpa using closes)
  · refine .pure ?_
    simpa using Derives.line text trailing

theorem headedList_succ (holds : Grammatical fuel) (s : Stream) (name : Option String)
    (marks : Marks) :
    (Parser.headedList (fuel + 1) name marks).Yields s fun used result _ =>
      ∃ items, result.1 = .options name marks items ∧ Derives used (.headed items result.2) := by
  rw [Parser.headedList]
  refine (holds.optionList s name marks []).bind fun used result rest held => ?_
  obtain ⟨items, same, list, itemized⟩ := held
  have closed : ∀ {p : Parser (List Node)} {rest : Stream},
      (p.Yields rest fun used nodes _ => Derives used (.lines nodes)) →
      (p >>= fun others => expect [.dedent] >>= fun _ =>
        pure (result.1, result.2 ++ others)).Yields rest fun more result _ =>
          ∃ items, result.1 = .options name marks items ∧
            Derives (used ++ more) (.headed items result.2) := by
    intro p rest yields
    refine yields.bind fun more others rest after => ?_
    refine .expect (by decide) fun closing rest closes => .pure ⟨items, same, ?_⟩
    exact .headed list (itemized rfl).starts after (by simpa using closes)
  refine .next fun kind ahead => ?_
  split
  · exact closed (.pure .nil)
  · exact closed (holds.lines rest)

theorem optionsStart_succ (holds : Grammatical fuel) (s : Stream) :
    (Parser.optionsStart (fuel + 1)).Yields s fun used nodes _ =>
      Derives used (.statement nodes) := by
  rw [Parser.optionsStart]
  refine .expect (by decide) fun token rest same => ?_
  have same : token.kind = .optionsStart := by simpa using same
  have started : ∀ {header : List Token} {name : Option String} {marks : Marks} {rest : Stream},
      Header header name marks →
      (do
        skip .lineBreak
        if ← next [.indent] then
          let _ ← expect [.indent]
          let list ← Parser.headedList fuel name marks
          return list.1 :: list.2
        else
          let list ← Parser.optionList fuel name marks []
          return list.1 :: list.2).Yields rest
        fun used nodes _ => Derives (token :: (header ++ used)) (.statement nodes) := by
    intro header name marks rest head
    refine .skip (by decide) fun ending rest ends => ?_
    refine .next fun kind ahead => ?_
    split
    · refine .expect (by decide) fun opening rest opens => ?_
      refine (holds.headedList rest name marks).bind fun more result rest held => .pure ?_
      obtain ⟨items, shape, list⟩ := held
      rw [shape]
      simpa using Derives.deepStart same head ends (by simpa using opens) list
    · refine (holds.optionList rest name marks []).bind fun more result rest held => .pure ?_
      obtain ⟨items, shape, list, itemized⟩ := held
      rw [shape]
      simpa using Derives.start same head ends list (itemized rfl).starts
  refine .next fun kind ahead => ?_
  split
  · refine yields_caption.bind fun header caption rest inside => ?_
    rw [pure_bind]
    exact started (.some inside)
  · rw [pure_bind]
    exact started .none

theorem optionList_succ (holds : Grammatical fuel) (s : Stream) (name : Option String)
    (marks : Marks) (first : List Node) :
    (Parser.optionList (fuel + 1) name marks first).Yields s fun used result _ =>
      ∃ items, result.1 = .options name marks (first ++ items) ∧
        Derives used (.items items result.2) ∧ (first = [] → Itemized s used) := by
  rw [Parser.optionList]
  have listed : (first = [] → ∃ kind ∈ optionKinds ++ [.braceOpen], s.Ahead kind) →
      (Parser.optionItems fuel >>= fun result =>
        pure (Node.options name marks (first ++ result.1), result.2)).Yields s fun used result _ =>
        ∃ items, result.1 = .options name marks (first ++ items) ∧
          Derives used (.items items result.2) ∧ (first = [] → Itemized s used) := by
    intro front
    refine (holds.optionItems s).started.bind fun used result rest held => .pure ?_
    obtain ⟨⟨list, nonempty⟩, started⟩ := held
    rw [List.append_nil]
    refine ⟨result.1, rfl, list, fun empty => ?_⟩
    obtain ⟨kind, member, ahead⟩ := front empty
    have some := nonempty kind member ahead
    exact ⟨(started some kind ahead).of_mem member, started some⟩
  split
  · refine .next fun kind ahead => ?_
    split
    · have never : (unexpected (optionKinds ++ [.braceOpen]) : Parser Unit).Yields s
          fun _ _ _ => False := .unexpected
      exact never.bind fun _ _ _ impossible => impossible.elim
    · next accepted =>
        have member : kind ∈ optionKinds ++ [.braceOpen] := by
          simpa only [Bool.not_eq_true', Bool.not_eq_false, List.contains_iff_mem] using accepted
        exact listed fun _ => ⟨kind, member, ahead⟩
  · next filled => exact listed fun empty => absurd (List.isEmpty_iff.2 empty) filled

theorem optionItems_succ (holds : Grammatical fuel) (s : Stream) :
    (Parser.optionItems (fuel + 1)).Yields s fun used result _ =>
      Derives used (.items result.1 result.2) ∧
        ∀ kind ∈ optionKinds ++ [.braceOpen], s.Ahead kind → used ≠ [] := by
  rw [Parser.optionItems]
  have bare : (Parser.option fuel >>= fun item => Parser.optionItems fuel >>= fun result =>
      pure (item :: result.1, result.2)).Yields s fun used result _ =>
        Derives used (.items result.1 result.2) ∧
          ∀ kind ∈ optionKinds ++ [.braceOpen], s.Ahead kind → used ≠ [] := by
    refine (holds.option s).bind fun first item rest head => ?_
    refine (holds.optionItems rest).bind fun more result rest tail => .pure ?_
    refine ⟨by simpa using Derives.item head tail.1, fun _ _ _ => ?_⟩
    simp [head.ne_nil_of_option]
  refine .kind fun kind ahead => ?_
  split
  · exact bare
  · exact bare
  · exact bare
  · refine yields_guard.bind fun first guard rest opens => ?_
    refine (holds.governed rest guard).bind fun second result rest derives => ?_
    have guarded := Derives.guarded opens derives
    split
    · next item =>
        refine (holds.optionItems rest).bind fun more result rest tail => .pure ?_
        refine ⟨by simpa using Derives.guardedItem guarded tail.1, fun _ _ _ => ?_⟩
        simp [opens.ne_nil]
    · next node =>
        refine .pure ⟨by simpa using Derives.ended guarded, fun _ _ _ => ?_⟩
        simp [opens.ne_nil]
  · refine .expect (by decide) fun token rest same => ?_
    refine (holds.optionItems rest).imp fun more result rest tail => ?_
    exact ⟨.itemBreak (by simpa using same) tail.1, fun _ _ _ => List.cons_ne_nil _ _⟩
  · next notOption notSticky notFallback notBrace _ =>
      refine .pure ⟨.noItem, fun other listed there => ?_⟩
      obtain rfl := ahead.unique there
      simp only [optionKinds, List.cons_append, List.nil_append, List.mem_cons, List.not_mem_nil,
        or_false] at listed
      rcases listed with option | sticky | fallback | brace
      · exact (notOption option).elim
      · exact (notSticky sticky).elim
      · exact (notFallback fallback).elim
      · exact (notBrace brace).elim

theorem option_succ (holds : Grammatical fuel) (s : Stream) :
    (Parser.option (fuel + 1)).Yields s fun used node _ => Derives used (.option node) := by
  rw [Parser.option]
  refine .expect (by decide) fun sign rest listed => ?_
  refine yields_guards.bind fun first before rest guards => ?_
  refine yields_label.bind fun second result rest label => ?_
  refine yields_trailing.bind fun third after rest trailing => ?_
  have ended : ∀ {fourth : List Token} {away : List Node} {rest : Stream},
      (fourth = [] ∧ away = [] ∨ ∃ node, away = [node] ∧ Node.Diverts fourth node) →
      (do
        let nested ← if ← next [.indent] then Parser.indented fuel else pure []
        return Guard.wrapAll (before ++ after) (.option result.1.text sign.optionMode
          result.1.marks (result.2 ++ away ++ nested))).Yields rest
        fun used node _ =>
          Derives (sign :: (first ++ (second ++ (third ++ (fourth ++ used))))) (.option node) := by
    intro fourth away rest leaves
    refine .next fun kind ahead => ?_
    split
    · refine (holds.indented rest).bind fun fifth inner rest inside => .pure ?_
      simpa using Derives.option listed guards label trailing leaves (.nested inside)
    · rw [pure_bind]
      exact .pure (.option listed guards label trailing leaves .leaf)
  refine .next fun kind ahead => ?_
  by_cases leaving : [Token.Kind.divert, .divertParent].contains kind = true
  · rw [if_pos leaving]
    refine yields_divert.bind fun fourth node rest diverts => ?_
    rw [pure_bind]
    exact ended (.inr ⟨node, rfl, diverts⟩)
  · rw [if_neg leaving, pure_bind]
    exact ended (.inl ⟨rfl, rfl⟩)

theorem variations_succ (holds : Grammatical fuel) (s : Stream) :
    (Parser.variations (fuel + 1)).Yields s fun used node _ =>
      Derives used (.statement [node]) := by
  rw [Parser.variations]
  refine .expect (by decide) fun opening rest opens => ?_
  refine yields_variationMode.bind fun chosen mode rest written => ?_
  refine (holds.alternatives rest 0).bind fun tokens result rest inside => ?_
  refine (yields_dedents result.2).bind fun ending _ rest ends => .pure ?_
  simpa using Derives.variations (by simpa using opens) written inside ends

theorem alternatives_succ (holds : Grammatical fuel) (s : Stream) (depth : Nat) :
    (Parser.alternatives (fuel + 1) depth).Yields s fun used result _ =>
      Derives used (.alternatives result.1) := by
  rw [Parser.alternatives]
  refine .expect (by decide) fun token rest listed => ?_
  split
  · next kind =>
      exact (holds.alternatives rest _).imp fun more result rest tail => .gap (by simp [kind]) tail
  · next kind =>
      exact (holds.alternatives rest _).imp fun more result rest tail => .gap (by simp [kind]) tail
  · next kind =>
      refine (holds.body rest).bind fun first nodes rest head => ?_
      refine (holds.alternatives rest depth).bind fun more result rest tail => .pure ?_
      simpa using Derives.alternative kind head tail
  · next kind => exact .pure (.close kind)
  · next notIndent notDedent notMinus notClose =>
      have kind : token.kind = .lineBreak := by
        simp only [List.mem_cons, List.not_mem_nil, or_false] at listed
        simp_all
      exact (holds.alternatives rest _).imp fun more result rest tail => .gap (by simp [kind]) tail

theorem governed_succ (holds : Grammatical fuel) (s : Stream) (guard : Guard) :
    (Parser.governed (fuel + 1) guard).Yields s fun used result _ =>
      Derives used (.governed guard result) := by
  cases guard with
  | action action =>
      rw [Parser.governed]
      refine .next fun kind ahead => ?_
      split
      · refine .expect (by decide) fun token rest same => .pure ?_
        exact .act (.inr ⟨token, rfl, by simpa using same⟩)
      · refine .next fun kind ahead => ?_
        split
        · exact .pure (.act (.inl rfl))
        · exact holds.governedTarget s _
  | condition condition =>
      rw [Parser.governed]
      refine .next fun kind ahead => ?_
      split
      · refine .expect (by decide) fun token rest same => ?_
        have same : token.kind = .lineBreak := by simpa using same
        refine .next fun kind ahead => ?_
        split
        · refine (holds.indented rest).bind fun used nodes rest inside => .pure ?_
          simpa using Derives.block same inside
        · exact (holds.governed rest _).imp fun used result rest => .governedBreak same
      · exact holds.governedTarget s _

theorem governedTarget_succ (holds : Grammatical fuel) (s : Stream) (guard : Guard) :
    (Parser.governedTarget (fuel + 1) guard).Yields s fun used result _ =>
      Derives used (.governed guard result) := by
  rw [Parser.governedTarget]
  have item : (Parser.option fuel >>= fun node => pure (Governed.item (guard.wrap node))).Yields s
      fun used result _ => Derives used (.governed guard result) := by
    refine (holds.option s).bind fun used node rest inside => .pure ?_
    simpa using Derives.governedOption inside
  have single : ∀ {p : Parser Node},
      (p.Yields s fun used node _ => Derives used (.statement [node])) →
      (p >>= fun node => pure (Governed.statement (guard.wrap node))).Yields s
        fun used result _ => Derives used (.governed guard result) := by
    intro p yields
    refine yields.bind fun used node rest inside => .pure ?_
    rw [List.append_nil]
    exact .governedStatement inside
  have several : ∀ {p : Parser (List Node)},
      (p.Yields s fun used nodes _ => Derives used (.statement nodes)) →
      (p >>= fun nodes => pure (Governed.statement (guard.wrap (.ofList nodes)))).Yields s
        fun used result _ => Derives used (.governed guard result) := by
    intro p yields
    refine yields.bind fun used nodes rest inside => .pure ?_
    simpa using Derives.governedStatement inside
  refine .kind fun kind ahead => ?_
  split
  · exact item
  · exact item
  · exact item
  · refine yields_guard.bind fun first second rest opens => ?_
    refine (holds.governed rest second).bind fun more result rest derives => .pure ?_
    simpa using Derives.governedGuard (.guarded opens derives)
  · exact several (holds.lineStatement s)
  · exact several (holds.lineStatement s)
  · exact single (yields_divert.imp fun _ _ _ => .divert)
  · exact single (yields_divert.imp fun _ _ _ => .divert)
  · exact single (holds.variations s)
  · exact several (holds.optionsStart s)
  · exact .unexpected

end Grammatical

theorem grammatical (fuel : Nat) : Grammatical fuel := by
  induction fuel with
  | zero => constructor <;> intros <;> exact .exhausted
  | succ fuel ih =>
      exact ⟨ih.lines_succ, ih.body_succ, ih.indented_succ, ih.lineStatement_succ,
        ih.headedList_succ, ih.optionsStart_succ, ih.optionList_succ, ih.optionItems_succ,
        ih.option_succ, ih.variations_succ, ih.alternatives_succ, ih.governed_succ,
        ih.governedTarget_succ⟩

theorem yields_blocks : (blocks fuel).Yields s fun used all _ => Block.Derives used all := by
  induction fuel generalizing s with
  | zero => exact .exhausted
  | succ fuel ih =>
      rw [blocks]
      refine .next fun kind ahead => ?_
      split
      · refine .expect (by decide) fun name rest same => ?_
        refine ((grammatical fuel).body rest).bind fun first nodes rest content => ?_
        refine ih.bind fun more all rest others => .pure ?_
        simpa using Block.Derives.cons (by simpa using same) content others
      · exact .pure .nil

theorem yields_document :
    (document fuel).Yields s fun used d rest => Document.Derives used d ∧ rest.Ahead .eof := by
  rw [document]
  have ended : ∀ {p : Parser (List Node)},
      (p.Yields s fun used nodes _ => Phrase.Derives used (.lines nodes)) →
      (do
        let content ← p
        let named ← blocks fuel
        if ← next [.eof] then return ⟨content, named⟩
        else unexpected (lineKinds ++ [.block, .eof]) : Parser Document).Yields s
        fun used d rest => Document.Derives used d ∧ rest.Ahead .eof := by
    intro p yields
    refine yields.bind fun first nodes rest content => ?_
    refine yields_blocks.bind fun more named rest others => ?_
    refine .next fun kind ahead => ?_
    split
    · next eof =>
        obtain rfl : kind = .eof := by simpa using eof
        exact .pure ⟨by simpa using Document.Derives.mk content others, ahead⟩
    · exact .unexpected
  refine .next fun kind ahead => ?_
  split
  · exact ended ((grammatical fuel).lines s)
  · exact ended (.pure .nil)

end Parser

namespace Document

theorem ofStream_eq_ok_iff {s : Stream} {d : Document} :
    ofStream s = .ok d ↔ ∃ rest, Parser.document (Parser.allowance s) s = .ok (d, rest) := by
  rw [ofStream]
  cases Parser.document (Parser.allowance s) s with
  | error halt => simp [Except.map]
  | ok pair =>
      constructor
      · intro read
        obtain rfl := Except.ok.inj read
        exact ⟨pair.2, rfl⟩
      · rintro ⟨rest, ran⟩
        obtain rfl := Except.ok.inj ran
        rfl

theorem ofStream_eq_error_iff {s : Stream} {halt : Halt} :
    ofStream s = .error halt ↔ Parser.document (Parser.allowance s) s = .error halt := by
  rw [ofStream]
  cases Parser.document (Parser.allowance s) s with
  | error other => simp [Except.map]
  | ok pair => simp [Except.map]

/-- A document is derived from all tokens of its source, and the source has an end. -/
theorem derives_and_ends_of_parse {source : String} {d : Document} (parsed : parse source = .ok d) :
    Document.Derives (Stream.ofSource source).tokens d ∧
      ∃ eof, (Stream.ofSource source).last = .ok eof := by
  obtain ⟨rest, ran⟩ := ofStream_eq_ok_iff.1 parsed
  obtain ⟨used, split, derives, token, peeked, eof⟩ :=
    Parser.yields_document (Stream.ended_ofSource source) d rest ran
  have tokens : (Stream.ofSource source).tokens = used ++ rest.tokens :=
    congrArg Stream.tokens split
  have last : (Stream.ofSource source).last = rest.last := by rw [split, Stream.last_after]
  cases left : rest.tokens with
  | nil =>
      refine ⟨by rwa [tokens, left, List.append_nil], token, ?_⟩
      simpa [last, Stream.peek, left] using peeked
  | cons first others =>
      obtain rfl : first = token := by simpa [Stream.peek, left] using peeked
      have member : first ∈ (Stream.ofSource source).tokens := by
        rw [tokens, left]
        exact List.mem_append_right used List.mem_cons_self
      exact absurd eof (Stream.kind_ne_eof_of_mem_ofSource member)

/-- A document that a source writes is derived from all tokens of the source. -/
theorem derives_of_parse {source : String} {d : Document} (parsed : parse source = .ok d) :
    Document.Derives (Stream.ofSource source).tokens d :=
  (derives_and_ends_of_parse parsed).1

end Document
end Dialogue
