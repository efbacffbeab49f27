import Dialogue.Proofs.Allowance
import Dialogue.Proofs.LineEnds
import Dialogue.Proofs.Pulls

/-! A line break at the very end of a source. It adds at most one token, after a guard or a divert
and before everything that is open is closed, and there it changes nothing that is read. -/
namespace Dialogue

/-- A mere mark of a kind. -/
def Token.Marks (kind : Kind) (token : Token) : Prop := token.kind = kind ∧ token.value? = none

namespace Stream

variable {s t : Stream} {levels : Nat}

/-- Whether a stream does nothing but close a number of levels. -/
structure Closes (levels : Nat) (s : Stream) : Prop where
  count : s.tokens.length = levels
  only : ∀ token ∈ s.tokens, token.Marks .dedent
  last : ∃ eof, s.last = .ok eof ∧ eof.Marks .eof

theorem Closes.drop (closes : s.Closes levels) : s.drop.Closes (levels - 1) where
  count := closes.count ▸ List.length_tail
  only := fun token member => closes.only token (List.mem_of_mem_tail member)
  last := closes.last

theorem Closes.peek (closes : s.Closes levels) :
    ∃ token, s.peek = .ok token ∧ token.Marks (if levels = 0 then .eof else .dedent) := by
  obtain ⟨tokens, last⟩ := s
  obtain ⟨eof, ended, marks⟩ := closes.last
  have count := closes.count
  cases tokens with
  | nil =>
      obtain rfl : 0 = levels := count
      exact ⟨eof, ended, marks⟩
  | cons token rest =>
      obtain rfl : rest.length + 1 = levels := count
      exact ⟨token, rfl, closes.only token List.mem_cons_self⟩

theorem Closes.ahead (closes : s.Closes levels) : ∃ kind, s.Ahead kind ∧ kind.closes := by
  obtain ⟨token, peeked, kind, -⟩ := closes.peek
  refine ⟨token.kind, ⟨token, peeked, rfl⟩, ?_⟩
  rw [kind]
  split <;> rfl

/-- The stream of a source beside that of the source with a line break at its end. -/
inductive Level : Stream → Stream → Prop
  | closing {s t : Stream} {levels : Nat} (left : s.Closes levels) (right : t.Closes levels) :
      Level s t
  | failed (error : ParseError) : Level ⟨[], .error error⟩ ⟨[], .error error⟩
  | cons (token : Token) {s t : Stream} (rest : Level s t) :
      Level (s.after [token]) (t.after [token])
  /-- The line break is seen after a token that may end a line. -/
  | ending {s t : Stream} {levels : Nat} {token lineBreak : Token} (ends : token.kind.endsLine)
      (kind : lineBreak.kind = .lineBreak) (left : s.Closes levels) (right : t.Closes levels) :
      Level (s.after [token]) (t.after [token, lineBreak])

theorem Level.after (level : Level s t) (tokens : List Token) :
    Level (s.after tokens) (t.after tokens) := by
  induction tokens with
  | nil => exact level
  | cons token tokens ih => exact .cons token ih

end Stream

namespace Twinning

/-- Streams that differ in a line break at the end. All failures correspond. -/
def lastBreak : Twinning where
  Level := Stream.Level
  Halts := fun _ _ => True

theorem alike_lastBreak {kind : Token.Kind} {a b : Token} (left : a.Marks kind)
    (right : b.Marks kind) : lastBreak.Alike a b where
  kind := right.1.trans left.1.symm
  value := by rw [Token.value, Token.value, left.2, right.2]
  fault := fun _ _ => trivial

theorem lawful_lastBreak : lastBreak.Lawful where
  exhausted := trivial
  peek := by
    intro s t level
    have same : ∀ token, lastBreak.Alike token token := fun token => ⟨rfl, rfl, fun _ _ => trivial⟩
    cases level with
    | closing left right =>
        obtain ⟨a, here, marks⟩ := left.peek
        obtain ⟨b, there, also⟩ := right.peek
        exact .inl ⟨a, b, here, there, alike_lastBreak marks also⟩
    | failed error => exact .inr ⟨error, error, rfl, rfl, trivial⟩
    | cons token rest => exact .inl ⟨token, token, rfl, rfl, same token⟩
    | ending ends kind left right => exact .inl ⟨_, _, rfl, rfl, same _⟩
  drop := by
    intro s t a level peeked
    cases level with
    | closing left right => exact .inl (.closing left.drop right.drop)
    | failed error => cases peeked
    | cons token rest => exact .inl rest
    | ending ends kind left right =>
        obtain rfl := Except.ok.inj peeked
        refine .inr ⟨ends, .closing left right, left.ahead, ?_, fun _ _ => trivial⟩
        exact ⟨_, rfl, kind⟩

end Twinning

namespace Scanner

variable {s : Scanner} {c : Char}

/-- Whether nothing but gaps and line breaks is left. -/
def Blank (s : Scanner) : Prop := ∀ c ∈ s.rest, isGap c ∨ c = '\n'

theorem blank_of_nil (none : s.rest = []) : s.Blank := by
  rw [Blank, none]
  exact List.forall_mem_nil _

theorem eq_false_of_drop_takeWhile {p : Char → Bool} {v after : List Char}
    (left : v.drop (v.takeWhile p).length = c :: after) : p c = false := by
  induction v with
  | nil => cases left
  | cons d v ih =>
      cases holds : p d with
      | true =>
          rw [List.takeWhile_cons_of_pos holds] at left
          exact ih left
      | false =>
          rw [List.takeWhile_cons_of_neg (by simp [holds])] at left
          obtain ⟨rfl, -⟩ := List.cons.inj left
          exact holds

theorem lineStart_of_blank (blank : s.Blank) :
    s.lineStart = .more [] ({ s with atLineStart := false }.advance
      (s.rest.takeWhile isSpace).length) := by
  unfold lineStart
  refine if_pos ?_
  cases content : s.rest.drop (s.rest.takeWhile isSpace).length with
  | nil => rfl
  | cons c after =>
      have member : c ∈ s.rest := List.mem_of_mem_drop (content ▸ List.mem_cons_self)
      have wide : isSpace c = false := eq_false_of_drop_takeWhile content
      obtain gap | rfl := blank c member
      · have bare : c = '\r' := by simpa [isGap, wide] using gap
        simp [bare]
      · rfl

theorem prose_of_gap (gap : isGap c) : s.prose c = .more [] (s.advance 1) := by
  have cases : c = ' ' ∨ c = '\t' ∨ c = '\r' := by simpa [isGap, isSpace, or_assoc] using gap
  obtain rfl | rfl | rfl := cases <;> rfl

theorem logic_of_gap (gap : isGap c) : s.logic c = .more [] (s.advance 1) := by
  have cases : c = ' ' ∨ c = '\t' ∨ c = '\r' := by simpa [isGap, isSpace, or_assoc] using gap
  obtain rfl | rfl | rfl := cases <;> rfl

theorem indents_lineBreak (s : Scanner) : s.lineBreak.indents = s.indents := by
  unfold lineBreak
  dsimp only
  split <;> rfl

theorem rest_lineBreak (s : Scanner) : s.lineBreak.rest = s.rest.drop 1 := by
  unfold lineBreak
  dsimp only
  split <;> rfl

/-- A step over what is blank yields nothing. -/
theorem step_of_blank (blank : s.Blank) :
    s.step = s.close ∨ ∃ next, s.step = .more [] next ∧ next.Blank ∧ next.indents = s.indents := by
  have fewer : ∀ {next : Scanner} {count : Nat}, next.rest = s.rest.drop count → next.Blank :=
    fun rest c member => blank c (List.mem_of_mem_drop (rest ▸ member))
  unfold step
  split
  · exact .inr ⟨_, lineStart_of_blank blank, fewer rfl, rfl⟩
  · split
    · exact .inl rfl
    · next c rest split =>
        by_cases breaks : c = '\n'
        · rw [if_pos (by simpa using breaks)]
          exact .inr ⟨_, rfl, fewer s.rest_lineBreak, s.indents_lineBreak⟩
        · have gap := (blank c (split ▸ List.mem_cons_self)).resolve_right breaks
          rw [if_neg (by simpa using breaks), logic_of_gap gap, prose_of_gap gap, ite_self]
          exact .inr ⟨_, rfl, fewer rfl, rfl⟩

theorem closes_of_blank {levels : Nat} (blank : s.Blank) (count : s.indents.length - 1 = levels) :
    s.stream.Closes levels := by
  fun_induction Scanner.stream s with
  | case1 s tokens next stepped ih =>
      obtain closed | ⟨next, also, blank, same⟩ := step_of_blank blank
      · cases stepped.symm.trans closed
      · obtain ⟨rfl, rfl⟩ := Step.more.inj (stepped.symm.trans also)
        exact ih blank (same ▸ count)
  | case2 s tokens eof stepped =>
      obtain closed | ⟨next, also, -⟩ := step_of_blank blank
      · obtain ⟨rfl, rfl⟩ := Step.finish.inj (stepped.symm.trans closed)
        refine ⟨by simpa using count, fun token member => ?_, _, rfl, rfl, rfl⟩
        obtain ⟨level, -, rfl⟩ := List.mem_map.1 member
        exact ⟨rfl, rfl⟩
      · cases stepped.symm.trans also
  | case3 s error stepped =>
      obtain closed | ⟨next, also, -⟩ := step_of_blank blank
      · cases stepped.symm.trans closed
      · cases stepped.symm.trans also

/-- The tokens with a line break more at the end. -/
theorem level_stream (s : Scanner) : Stream.Level s.stream (s.followed []).stream := by
  induction size : s.size using Nat.strongRecOn generalizing s with
  | ind size ih =>
      subst size
      by_cases here : s.atLineStart = true ∨ s.rest ≠ []
      · have passing := passing_step here
        generalize stepped : s.step = step at passing
        generalize following : (fun x => (s.followed x).step) = there at passing
        have after : (s.followed []).step = there [] := congrFun following []
        cases passing with
        | within same =>
            rw [same] at after
            rw [stream_of_more stepped, stream_of_more after]
            exact (ih _ (size_lt_of_step stepped) _ rfl).after _
        | fail same =>
            rw [same] at after
            rw [stream_of_fail stepped, stream_of_fail after]
            exact .failed _
        | ending ends breaks blank levels same =>
            rw [same] at after
            rw [stream_of_more stepped, stream_of_more after]
            refine .ending ends breaks (closes_of_blank (fun c member => .inl (blank c member)) rfl)
              (closes_of_blank (fun c member => ?_) rfl)
            obtain member | member := List.mem_append.1 member
            · exact .inl (blank c member)
            · exact .inr (List.mem_singleton.1 member)
        | below next start levels same =>
            rw [same] at after
            rw [stream_of_more stepped, stream_of_more after]
            have closes : (next.before []).stream.Closes _ := closes_of_blank (blank_of_nil rfl) rfl
            exact .closing closes closes
        | beyond short ends =>
            rw [← after] at ends
            generalize beyond : (s.followed []).step = other at ends
            cases ends with
            | more tokens here there levels also =>
                rw [stream_of_more stepped, stream_of_more beyond]
                have left := closes_of_blank (blank_of_nil here) rfl
                have right := closes_of_blank (blank_of_nil there) rfl
                rw [levels] at left
                rw [also] at right
                exact (Stream.Level.closing left right).after tokens
            | fail error =>
                rw [stream_of_fail stepped, stream_of_fail beyond]
                exact .failed _
      · have none : s.rest = [] := not_ne_iff.1 fun some => here (.inr some)
        refine .closing (closes_of_blank (blank_of_nil none) rfl) (closes_of_blank ?_ rfl)
        intro c member
        rw [rest_followed, none] at member
        exact .inr (List.mem_singleton.1 member)

theorem ofSource_append_newline (source : String) :
    ofSource (source ++ "\n") = (ofSource source).followed [] := by
  have same := ofSource_newline_append source ""
  rwa [String.append_empty] at same

end Scanner

/-- Agreeing parsers give the same results. -/
theorem Twinning.Agree.eq_ok_iff {w : Twinning} {Post : Stream → Stream → Prop} {α : Type}
    {x y : Except Halt (α × Stream)} (agree : w.Agree Post x y) (a : α) :
    x.map (·.1) = .ok a ↔ y.map (·.1) = .ok a := by
  cases agree with
  | ok b rest => exact Iff.rfl
  | error halts => exact ⟨nofun, nofun⟩

theorem document_eq_of_le {source : String} {fuel : Nat}
    (le : Parser.allowance (Stream.ofSource source) ≤ fuel) :
    parse source = (Parser.document fuel (Stream.ofSource source)).map (·.1) := by
  obtain ⟨same, -⟩ := Parser.settles_document le (Parser.enough_allowance _)
    (Stream.ended_ofSource source)
  rw [parse, Document.ofStream, same]

/-- A line break missing at the end of a source changes nothing in the document. -/
theorem parse_append_newline (source : String) (d : Document) :
    parse source = .ok d ↔ parse (source ++ "\n") = .ok d := by
  have level : Stream.Level (Stream.ofSource source) (Stream.ofSource (source ++ "\n")) := by
    rw [Stream.ofSource, Stream.ofSource, Scanner.ofSource_append_newline]
    exact Scanner.level_stream _
  rw [document_eq_of_le (Nat.le_max_left _ (Parser.allowance (Stream.ofSource (source ++ "\n")))),
    document_eq_of_le (Nat.le_max_right (Parser.allowance (Stream.ofSource source)) _)]
  exact (Twinning.keeps_document Twinning.lawful_lastBreak _ _ _ level).eq_ok_iff d

end Dialogue
