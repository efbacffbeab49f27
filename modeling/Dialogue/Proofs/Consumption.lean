import Dialogue.Token.Parser

/-! What parsers take from a stream. A statement about a parser says what it gives together with the
tokens that it took and with what is left after them. The rules follow the way parsers are put
together. -/
namespace Dialogue

/-- One token of a kind, or none. -/
def Token.Optional (kind : Token.Kind) (tokens : List Token) : Prop :=
  tokens = [] ∨ ∃ token, tokens = [token] ∧ token.kind = kind

namespace Stream

/-- Whether the tokens end with the token that marks the end, unless they end with an error. -/
def Ended (stream : Stream) : Prop := ∀ token, stream.last = .ok token → token.kind = .eof

/-- Whether the next token is of a kind. -/
def Ahead (stream : Stream) (kind : Token.Kind) : Prop :=
  ∃ token, stream.peek = .ok token ∧ token.kind = kind

@[simp] theorem after_nil (stream : Stream) : stream.after [] = stream := rfl

theorem after_append (stream : Stream) (first second : List Token) :
    stream.after (first ++ second) = (stream.after second).after first := by
  simp [after]

@[simp] theorem ended_after {stream : Stream} {tokens : List Token} :
    (stream.after tokens).Ended ↔ stream.Ended := Iff.rfl

theorem peek_after_cons (stream : Stream) (token : Token) (tokens : List Token) :
    (stream.after (token :: tokens)).peek = .ok token := rfl

theorem ahead_after_cons (stream : Stream) (token : Token) (tokens : List Token) :
    (stream.after (token :: tokens)).Ahead token.kind := ⟨token, rfl, rfl⟩

theorem Ahead.unique {stream : Stream} {kind other : Token.Kind} (here : stream.Ahead kind)
    (there : stream.Ahead other) : kind = other := by
  obtain ⟨token, peeked, rfl⟩ := here
  obtain ⟨also, again, rfl⟩ := there
  obtain rfl := Except.ok.inj (peeked.symm.trans again)
  rfl

/-- What stands in a stream that ends as it should is before the end, or marks it. -/
theorem Ended.of_mem_items {stream : Stream} (ended : stream.Ended) {token : Token}
    (member : token ∈ stream.items) : token ∈ stream.tokens ∨ token.kind = .eof := by
  refine (List.mem_append.1 member).imp_right fun last => ended token ?_
  cases found : stream.last with
  | error e => simp [found] at last
  | ok eof => simpa [found, eq_comm] using last

/-- A token other than the end is taken from the front. -/
theorem Ended.eq_after {stream : Stream} (ended : stream.Ended) {token : Token}
    (peeked : stream.peek = .ok token) (inside : token.kind ≠ .eof) :
    stream = stream.drop.after [token] := by
  obtain ⟨tokens, last⟩ := stream
  cases tokens with
  | nil => exact absurd (ended token peeked) inside
  | cons first rest =>
      obtain rfl := Except.ok.inj peeked
      rfl

end Stream

namespace Parser

variable {α β : Type} {s : Stream}

theorem bind_of_ok {p : Parser α} {a : α} {rest : Stream} (ran : p s = .ok (a, rest))
    (f : α → Parser β) : (p >>= f) s = f a rest := by
  simp only [bind, StateT.bind, Except.bind, ran]

theorem bind_of_error {p : Parser α} {halt : Halt} (ran : p s = .error halt) (f : α → Parser β) :
    (p >>= f) s = .error halt := by
  simp only [bind, StateT.bind, Except.bind, ran]

theorem bind_eq_ok_iff {p : Parser α} {f : α → Parser β} {b : β} {rest : Stream} :
    (p >>= f) s = .ok (b, rest) ↔
      ∃ a middle, p s = .ok (a, middle) ∧ f a middle = .ok (b, rest) := by
  constructor
  · intro ran
    cases early : p s with
    | error halt => cases (bind_of_error early f).symm.trans ran
    | ok pair => exact ⟨pair.1, pair.2, rfl, bind_of_ok early f ▸ ran⟩
  · rintro ⟨a, middle, early, late⟩
    rw [bind_of_ok early, late]

theorem kind_eq_ok_iff {found : Token.Kind} {rest : Stream} :
    kind s = .ok (found, rest) ↔ s.Ahead found ∧ rest = s := by
  simp only [kind, peek, Functor.map, StateT.map, bind, Except.bind, pure, Except.pure,
    Stream.Ahead]
  cases s.peek with
  | error error => simp
  | ok token => simp [eq_comm]

theorem next_of_ahead {s : Stream} {kind : Token.Kind} {kinds : List Token.Kind}
    (ahead : s.Ahead kind) : next kinds s = .ok (kinds.contains kind, s) := by
  rw [next, bind_of_ok (kind_eq_ok_iff.2 ⟨ahead, rfl⟩)]
  rfl

theorem expect_of_mem {kinds : List Token.Kind} {token : Token} (peeked : s.peek = .ok token)
    (listed : token.kind ∈ kinds) : expect kinds s = .ok (token, s.drop) := by
  have look : peek s = .ok (token, s) := by simp only [peek, peeked]
  rw [expect, bind_of_ok look, if_pos (by simpa using listed)]
  rfl

theorem unexpected_ne_ok {kinds : List Token.Kind} {a : α} {rest : Stream} :
    unexpected kinds s ≠ .ok (a, rest) := by
  intro ran
  obtain ⟨token, middle, -, thrown⟩ := bind_eq_ok_iff.1 ran
  cases thrown

theorem expect_eq_ok_iff {kinds : List Token.Kind} {token : Token} {rest : Stream} :
    expect kinds s = .ok (token, rest) ↔
      s.peek = .ok token ∧ token.kind ∈ kinds ∧ rest = s.drop := by
  constructor
  · intro ran
    obtain ⟨first, middle, look, late⟩ := bind_eq_ok_iff.1 ran
    cases peeked : s.peek with
    | error error => simp [peek, peeked] at look
    | ok found =>
        obtain ⟨rfl, rfl⟩ : found = first ∧ s = middle := by simpa [peek, peeked] using look
        by_cases listed : found.kind ∈ kinds
        · rw [expect_of_mem peeked listed] at ran
          obtain ⟨rfl, rfl⟩ := Prod.mk.inj (Except.ok.inj ran)
          exact ⟨rfl, listed, rfl⟩
        · rw [if_neg (by simpa using listed)] at late
          exact absurd late unexpected_ne_ok
  · rintro ⟨peeked, listed, rfl⟩
    exact expect_of_mem peeked listed

/-- What a parser gives at a stream, if it gives something, is as a condition says of the tokens it
took, its result and what is left. -/
def Yields (p : Parser α) (s : Stream) (P : List Token → α → Stream → Prop) : Prop :=
  s.Ended → ∀ a rest, p s = .ok (a, rest) → ∃ used, s = rest.after used ∧ P used a rest

namespace Yields

variable {p : Parser α} {f : α → Parser β} {P : List Token → α → Stream → Prop}
  {Q : List Token → β → Stream → Prop}

theorem imp {R : List Token → α → Stream → Prop} (yields : p.Yields s P)
    (weaker : ∀ used a rest, P used a rest → R used a rest) : p.Yields s R := by
  intro ended a rest ran
  obtain ⟨used, split, held⟩ := yields ended a rest ran
  exact ⟨used, split, weaker used a rest held⟩

/-- What a parser leaves tells which tokens it took. -/
theorem of_after {rest : Stream} {tokens : List Token} {a : α}
    (yields : p.Yields (rest.after tokens) P) (ended : rest.Ended)
    (ran : p (rest.after tokens) = .ok (a, rest)) : P tokens a rest := by
  obtain ⟨used, same, held⟩ := yields ended a rest ran
  have split : tokens ++ rest.tokens = used ++ rest.tokens := congrArg Stream.tokens same
  rwa [List.append_cancel_right split]

theorem pure {a : α} (held : P [] a s) : (Pure.pure a : Parser α).Yields s P := by
  intro ended b rest ran
  obtain ⟨rfl, rfl⟩ := Prod.mk.inj (Except.ok.inj ran)
  exact ⟨[], rfl, held⟩

theorem bind (first : p.Yields s P)
    (second : ∀ used a rest, P used a rest →
      (f a).Yields rest fun more b left => Q (used ++ more) b left) :
    (p >>= f).Yields s Q := by
  intro ended b left ran
  obtain ⟨a, rest, early, late⟩ := bind_eq_ok_iff.1 ran
  obtain ⟨used, rfl, held⟩ := first ended a rest early
  obtain ⟨more, rfl, also⟩ := second used a rest held ended b left late
  exact ⟨used ++ more, (Stream.after_append ..).symm, also⟩

theorem map {g : α → β} (yields : p.Yields s fun used a rest => Q used (g a) rest) :
    (g <$> p).Yields s Q := by
  rw [← bind_pure_comp]
  refine yields.bind fun used a rest held => pure ?_
  rwa [List.append_nil]

theorem exhausted : (exhausted : Parser α).Yields s P := by
  intro ended a rest ran
  cases ran

theorem kind {f : Token.Kind → Parser β} (each : ∀ kind, s.Ahead kind → (f kind).Yields s Q) :
    (Parser.kind >>= f).Yields s Q := by
  intro ended b rest ran
  obtain ⟨found, middle, early, late⟩ := bind_eq_ok_iff.1 ran
  obtain ⟨ahead, rfl⟩ := kind_eq_ok_iff.1 early
  exact each found ahead ended b rest late

theorem next {kinds : List Token.Kind} {f : Bool → Parser β}
    (each : ∀ kind, s.Ahead kind → (f (kinds.contains kind)).Yields s Q) :
    (Parser.next kinds >>= f).Yields s Q := by
  simp only [Parser.next, bind_assoc, pure_bind]
  exact kind each

theorem unexpected {kinds : List Token.Kind} : (unexpected kinds : Parser α).Yields s P := by
  intro ended a rest ran
  exact absurd ran unexpected_ne_ok

theorem expect {kinds : List Token.Kind} {f : Token → Parser β} (inside : .eof ∉ kinds)
    (each : ∀ token rest, token.kind ∈ kinds →
      (f token).Yields rest fun used b left => Q (token :: used) b left) :
    (Parser.expect kinds >>= f).Yields s Q := by
  intro ended b left ran
  obtain ⟨token, rest, early, late⟩ := bind_eq_ok_iff.1 ran
  obtain ⟨peeked, member, rfl⟩ := expect_eq_ok_iff.1 early
  have split := ended.eq_after peeked (fun eof => inside (eof ▸ member))
  rw [split] at ended
  obtain ⟨used, same, held⟩ := each token s.drop member ended b left late
  refine ⟨token :: used, ?_, held⟩
  rw [split, same]
  rfl

theorem skip {wanted : Token.Kind} {f : Unit → Parser β} (inside : .eof ≠ wanted)
    (each : ∀ tokens rest, Token.Optional wanted tokens →
      (f ()).Yields rest fun used b left => Q (tokens ++ used) b left) :
    (Parser.skip wanted >>= f).Yields s Q := by
  simp only [Parser.skip, bind_assoc]
  refine next fun kind ahead => ?_
  split
  · rw [bind_assoc]
    refine expect (by simpa using inside) fun token rest same => ?_
    exact each [token] rest (.inr ⟨token, rfl, by simpa using same⟩)
  · exact each [] s (.inl rfl)

end Yields
end Parser
end Dialogue
