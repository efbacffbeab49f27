import Dialogue.Json.Printer
import Dialogue.Json.Reader
import Mathlib.Data.List.TakeWhile

/-! Numerals read alike wherever they stand. What a numeral is does not depend on what follows it,
as long as that does not go on with it, and whole numbers within 64 bits stand for themselves. -/
namespace Dialogue.Json

/-- Whether a numeral ends in front of a text. -/
def Stops (rest : List Char) : Prop :=
  ∀ c ∈ rest.head?, c.isDigit = false ∧ c ≠ '.' ∧ c ≠ 'e' ∧ c ≠ 'E'

theorem stops_nil : Stops [] := nofun

theorem stops_cons {c : Char} (digit : c.isDigit = false) (other : c ≠ '.' ∧ c ≠ 'e' ∧ c ≠ 'E')
    (rest : List Char) : Stops (c :: rest) := by
  intro d found
  obtain rfl := Option.some.inj found
  exact ⟨digit, other⟩

namespace Numeral

variable {text rest left : List Char}

/-- What a scan of a text found, and what is left: the scan passed over the text in front of that,
and finds the same if more follows that stops a numeral. -/
def Local {α : Type} (scan : List Char → Option (α × List Char)) : Prop :=
  ∀ text found left, scan text = some (found, left) →
    left <:+ text ∧ ∀ rest, Stops rest → scan (text ++ rest) = some (found, left ++ rest)

theorem takeWhile_isDigit_append (stops : Stops rest) (text : List Char) :
    (text ++ rest).takeWhile Char.isDigit = text.takeWhile Char.isDigit := by
  have none : rest.takeWhile Char.isDigit = [] := by
    cases rest with
    | nil => rfl
    | cons c u => exact List.takeWhile_cons_of_neg (by simp [(stops c rfl).1])
  rw [List.takeWhile_append, none, List.append_nil]
  split
  · next all => exact (List.takeWhile_sublist _).eq_of_length all |>.symm
  · rfl

/-- One or more digits. -/
theorem local_digits {α : Type} (f : List Char → α) : Local fun text =>
    if (text.takeWhile Char.isDigit).isEmpty then none
    else some (f (text.takeWhile Char.isDigit),
      text.drop (text.takeWhile Char.isDigit).length) := by
  intro text found left scanned
  dsimp only at scanned ⊢
  split at scanned
  · cases scanned
  · next some =>
      obtain ⟨rfl, rfl⟩ := Prod.mk.inj (Option.some.inj scanned)
      refine ⟨List.drop_suffix _ _, fun rest stops => ?_⟩
      rw [takeWhile_isDigit_append stops, if_neg some,
        List.drop_append_of_le_length (List.takeWhile_sublist _).length_le]

theorem local_scanFraction? : Local scanFraction? := by
  intro text found left scanned
  unfold scanFraction? at scanned
  split at scanned
  · next u =>
      obtain ⟨suffix, more⟩ := local_digits id u found left scanned
      exact ⟨suffix.trans (List.suffix_cons _ _), fun rest stops => more rest stops⟩
  · next other =>
      obtain ⟨rfl, rfl⟩ := Prod.mk.inj (Option.some.inj scanned)
      refine ⟨List.suffix_rfl, fun rest stops => scanFraction?.eq_2 _ fun v same => ?_⟩
      cases text with
      | nil => exact (stops '.' (by simp [show rest = _ from same])).2.1 rfl
      | cons c u => exact other u (by rw [(List.cons.inj same).1])

theorem scanSigned?_cons {c : Char} (minus : c ≠ '-') (plus : c ≠ '+') (text : List Char) :
    scanSigned? (c :: text) = if ((c :: text).takeWhile Char.isDigit).isEmpty then none
      else some (some (false, (c :: text).takeWhile Char.isDigit),
        (c :: text).drop ((c :: text).takeWhile Char.isDigit).length) := by
  unfold scanSigned?
  split
  next down u signed =>
    split at signed
    · next same => exact absurd (List.cons.inj same).1 minus
    · next same => exact absurd (List.cons.inj same).1 plus
    · obtain ⟨rfl, rfl⟩ := Prod.mk.inj signed
      rfl

theorem local_scanSigned? : Local scanSigned? := by
  intro text found left scanned
  have digits : ∀ down : Bool, Local _ := fun down => local_digits fun digits => some (down, digits)
  cases text with
  | nil => cases scanned
  | cons c u =>
      by_cases minus : c = '-'
      · subst minus
        obtain ⟨suffix, more⟩ := digits true u found left scanned
        exact ⟨suffix.trans (List.suffix_cons _ _), more⟩
      · by_cases plus : c = '+'
        · subst plus
          obtain ⟨suffix, more⟩ := digits false u found left scanned
          exact ⟨suffix.trans (List.suffix_cons _ _), more⟩
        · rw [scanSigned?_cons minus plus] at scanned
          obtain ⟨suffix, more⟩ := digits false (c :: u) found left scanned
          refine ⟨suffix, fun rest stops => ?_⟩
          rw [List.cons_append, scanSigned?_cons minus plus]
          exact more rest stops

theorem local_scanPower? : Local scanPower? := by
  intro text found left scanned
  unfold scanPower? at scanned
  split at scanned
  · next u =>
      obtain ⟨suffix, more⟩ := local_scanSigned? u found left scanned
      exact ⟨suffix.trans (List.suffix_cons _ _), more⟩
  · next u =>
      obtain ⟨suffix, more⟩ := local_scanSigned? u found left scanned
      exact ⟨suffix.trans (List.suffix_cons _ _), more⟩
  · next small large =>
      obtain ⟨rfl, rfl⟩ := Prod.mk.inj (Option.some.inj scanned)
      refine ⟨List.suffix_rfl, fun rest stops => ?_⟩
      refine scanPower?.eq_3 _ (fun v same => ?_) (fun v same => ?_)
      · cases text with
        | nil => exact (stops 'e' (by simp [show rest = _ from same])).2.2.1 rfl
        | cons c u => exact small u (by rw [(List.cons.inj same).1])
      · cases text with
        | nil => exact (stops 'E' (by simp [show rest = _ from same])).2.2.2 rfl
        | cons c u => exact large u (by rw [(List.cons.inj same).1])

theorem local_scanMagnitude? (negative : Bool) : Local (scanMagnitude? negative) := by
  intro text found left scanned
  unfold scanMagnitude? at scanned
  dsimp only at scanned
  split at scanned
  · cases scanned
  · next fine =>
      obtain ⟨⟨fraction, middle⟩, first, scanned⟩ := Option.bind_eq_some_iff.1 scanned
      obtain ⟨⟨power, last⟩, second, scanned⟩ := Option.bind_eq_some_iff.1 scanned
      obtain ⟨rfl, rfl⟩ := Prod.mk.inj (Option.some.inj scanned)
      obtain ⟨outer, after⟩ := local_scanFraction? _ _ _ first
      obtain ⟨inner, beyond⟩ := local_scanPower? _ _ _ second
      refine ⟨inner.trans (outer.trans (List.drop_suffix _ _)), fun rest stops => ?_⟩
      simp only [scanMagnitude?, takeWhile_isDigit_append stops]
      rw [if_neg fine, List.drop_append_of_le_length (List.takeWhile_sublist _).length_le,
        after rest stops]
      simp only [bind, Option.bind_some, beyond rest stops]
      rfl

theorem local_scan? : Local scan? := by
  intro text found left scanned
  unfold scan? at scanned
  split at scanned
  · next u =>
      obtain ⟨suffix, more⟩ := local_scanMagnitude? true _ _ _ scanned
      exact ⟨suffix.trans (List.suffix_cons _ _), more⟩
  · next other =>
      obtain ⟨suffix, more⟩ := local_scanMagnitude? false _ _ _ scanned
      refine ⟨suffix, fun rest stops => ?_⟩
      cases text with
      | nil => cases scanned
      | cons c u =>
          have plus : ∀ v, c :: u ++ rest ≠ '-' :: v := fun v same =>
            other u (by rw [(List.cons.inj same).1])
          exact (scan?.eq_2 _ plus).trans (more rest stops)

/-- A numeral starts with a sign or a digit. -/
theorem head_of_scan? {found : Numeral} (scanned : scan? text = some (found, left)) :
    ∃ c u, text = c :: u ∧ (c = '-' ∨ c.isDigit = true) := by
  unfold scan? at scanned
  split at scanned
  · exact ⟨_, _, rfl, .inl rfl⟩
  · cases text with
    | nil => cases scanned
    | cons c u =>
        refine ⟨c, u, rfl, .inr ?_⟩
        by_contra other
        simp [scanMagnitude?, List.takeWhile_cons_of_neg other] at scanned

theorem head?_toDigits {n : Nat} (positive : 0 < n) : (Nat.toDigits 10 n).head? ≠ some '0' := by
  induction n using Nat.strongRecOn with
  | ind n ih =>
      by_cases small : n < 10
      · rw [Nat.toDigits_of_lt_base small]
        have nonzero : ∀ digit < 10, 0 < digit → [Nat.digitChar digit].head? ≠ some '0' := by decide
        exact nonzero n small positive
      · have some : (Nat.toDigits 10 (n / 10)).head?.isSome := by simp [Nat.toDigits_ne_nil]
        rw [Nat.toDigits_of_base_le (by decide) (by omega), List.head?_append,
          Option.or_of_isSome some]
        exact ih (n / 10) (by omega) (by omega)

theorem scanMagnitude?_toDigits (negative : Bool) (n : Nat) :
    scanMagnitude? negative (Nat.toDigits 10 n) =
      some (⟨negative, Nat.toDigits 10 n, [], none⟩, []) := by
  have whole : (Nat.toDigits 10 n).takeWhile Char.isDigit = Nat.toDigits 10 n :=
    List.takeWhile_eq_self_iff.2 fun c => Nat.isDigit_of_mem_toDigits (by decide) (by decide)
  have short :
      ((Nat.toDigits 10 n).head? == some '0' && 1 < (Nat.toDigits 10 n).length) = false := by
    obtain rfl | positive := Nat.eq_zero_or_pos n
    · rfl
    · simp [head?_toDigits positive]
  have some : (Nat.toDigits 10 n).isEmpty = false := by simp [Nat.toDigits_ne_nil]
  simp only [scanMagnitude?, whole, short, some, Bool.or_self, Bool.false_eq_true, ↓reduceIte,
    List.drop_length]
  rfl

theorem scan?_toDigits (n : Nat) :
    scan? (Nat.toDigits 10 n) = some (⟨false, Nat.toDigits 10 n, [], none⟩, []) := by
  have unsigned : ∀ u, Nat.toDigits 10 n ≠ '-' :: u := by
    intro u same
    have member : '-' ∈ Nat.toDigits 10 n := same ▸ List.mem_cons_self
    exact absurd (Nat.isDigit_of_mem_toDigits (by decide) (by decide) member) (by decide)
  exact (scan?.eq_2 _ unsigned).trans (scanMagnitude?_toDigits false n)

theorem le_foldl_digits (text : List Char) (n : Nat) :
    n ≤ text.foldl (fun n c => 10 * n + Number.digitValue c) n := by
  induction text generalizing n with
  | nil => exact Nat.le_refl n
  | cons c rest ih =>
      have more : n ≤ 10 * n + Number.digitValue c := by omega
      exact more.trans (ih _)

/-- Digits are gathered as long as the number fits. -/
theorem gather_eq {n : Nat} (text : List Char)
    (fit : text.foldl (fun n c => 10 * n + Number.digitValue c) n < UInt64.size) :
    gather n text = (text.foldl (fun n c => 10 * n + Number.digitValue c) n, text.length) := by
  induction text generalizing n with
  | nil => rfl
  | cons c rest ih =>
      have fits : fits n c = true :=
        decide_eq_true (Nat.lt_of_le_of_lt (le_foldl_digits rest _) fit)
      rw [gather, if_pos fits, ih fit]
      rfl

theorem foldl_toDigits (n : Nat) :
    (Nat.toDigits 10 n).foldl (fun n c => 10 * n + Number.digitValue c) 0 = n :=
  Nat.ofDigitChars_eq_foldl.symm.trans Nat.ofDigitChars_ten_toDigits

theorem value?_toDigits {n : Nat} (fit : n < UInt64.size) (negative : Bool) :
    value? ⟨negative, Nat.toDigits 10 n, [], none⟩ = some (exact negative n) := by
  have gathered := gather_eq (n := 0) (Nat.toDigits 10 n) (by rwa [foldl_toDigits])
  rw [foldl_toDigits] at gathered
  simp [value?, gathered]

end Numeral

namespace Number

theorem toList_render_int (n : Int) : (int n).render.toList =
    if n < 0 then '-' :: Nat.toDigits 10 n.natAbs else Nat.toDigits 10 n.natAbs := by
  have repr : (int n).render = n.repr := rfl
  rw [repr, Int.repr_eq_if]
  split
  · next up =>
      rw [if_neg (by omega), Nat.toList_repr, show n.toNat = n.natAbs by omega]
  · next down =>
      rw [if_pos (by omega), String.toList_append, Nat.toList_repr,
        show (-n).toNat = n.natAbs by omega]
      rfl

/-- Whole numbers within 64 bits, with a sign or without, are written as the numerals that stand for
them. -/
theorem scan?_render_int {n : Int} (low : Int64.minValue.toInt ≤ n) (high : n < UInt64.size) :
    ∃ numeral, Numeral.scan? (int n).render.toList = some (numeral, []) ∧
      numeral.value? = some (int n) := by
  have least : Int64.minValue.toInt = -9223372036854775808 := by decide
  have size : UInt64.size = 18446744073709551616 := rfl
  have fit : n.natAbs < UInt64.size := by omega
  rw [toList_render_int]
  split
  · next down =>
      refine ⟨_, Numeral.scanMagnitude?_toDigits true n.natAbs, ?_⟩
      have within : 0 < n.natAbs ∧ Int64.minValue.toInt ≤ -(n.natAbs : Int) := by omega
      have value : -(n.natAbs : Int) = n := by omega
      rw [Numeral.value?_toDigits fit, Numeral.exact, if_neg (by decide),
        if_pos (by simpa using within), value]
  · next up =>
      have value : (n.natAbs : Int) = n := by omega
      refine ⟨_, Numeral.scan?_toDigits n.natAbs, ?_⟩
      rw [Numeral.value?_toDigits fit, Numeral.exact, if_pos (by decide), value]

end Number

namespace Written

variable {fuel : Nat} {c : Char} {text : List Char}

theorem skip_of_not_isBlank (solid : isBlank c = false) (text : List Char) :
    skip (c :: text) = c :: text :=
  List.dropWhile_cons_of_neg (by simp [solid])

theorem value?_numeral (starts : c = '-' ∨ c.isDigit = true) (fuel : Nat) (text : List Char) :
    value? (fuel + 1) (c :: text) =
      (Numeral.scan? (c :: text)).map fun (n, rest) => (num n, rest) := by
  have other : ∀ d, d.isDigit = false → d ≠ '-' → c ≠ d := by
    rintro d digit minus rfl
    exact starts.elim minus (by simp [digit])
  have solid : isBlank c = false := by
    simp [isBlank, other ' ' (by decide) (by decide), other '\n' (by decide) (by decide),
      other '\t' (by decide) (by decide), other '\r' (by decide) (by decide)]
  unfold value?
  rw [skip_of_not_isBlank solid]
  split
  all_goals next same => first
    | rfl
    | exact absurd (List.cons.inj same).1 (other _ (by decide) (by decide))

theorem scan?_of_value? {numeral : Numeral} {left : List Char}
    (taken : value? fuel text = some (num numeral, left)) :
    Numeral.scan? (skip text) = some (numeral, left) := by
  cases fuel with
  | zero => cases taken
  | succ fuel =>
      unfold value? at taken
      split at taken
      · cases taken
      · cases taken
      · cases taken
      · obtain ⟨found, -, same⟩ := Option.map_eq_some_iff.1 taken
        cases same
      · split at taken
        · cases taken
        · obtain ⟨found, -, same⟩ := Option.map_eq_some_iff.1 taken
          cases same
      · split at taken
        · cases taken
        · obtain ⟨found, -, same⟩ := Option.map_eq_some_iff.1 taken
          cases same
      · obtain ⟨⟨found, rest⟩, scanned, same⟩ := Option.map_eq_some_iff.1 taken
        cases same
        exact scanned

theorem num_of_settle? {shape : Shape} {depth : Nat} {written : Written} {n : Number}
    (settled : settle? shape depth written = some (.num n)) :
    ∃ numeral, written = num numeral ∧ numeral.value? = some n := by
  cases written with
  | num numeral =>
      rw [settle?] at settled
      obtain ⟨m, value, same⟩ := Option.map_eq_some_iff.1 settled
      obtain rfl := Json.num.inj same
      exact ⟨numeral, rfl, value⟩
  | str pieces =>
      rw [settle?] at settled
      obtain ⟨text, -, same⟩ := Option.map_eq_some_iff.1 settled
      cases same
  | arr items =>
      cases depth with
      | zero => simp [settle?] at settled
      | succ depth => simp [settle?] at settled
  | obj entries =>
      cases depth with
      | zero => simp [settle?] at settled
      | succ depth => simp [settle?] at settled
  | null => simp [settle?] at settled
  | bool b => simp [settle?] at settled

/-- A text with nothing blank in it. -/
def Solid (text : List Char) : Prop := ∀ c ∈ text, isBlank c = false

theorem Solid.skip (solid : Solid text) : skip text = text := by
  cases text with
  | nil => rfl
  | cons c u => exact skip_of_not_isBlank (solid c List.mem_cons_self) u

theorem Solid.append {more : List Char} (left : Solid text) (right : Solid more) :
    Solid (text ++ more) :=
  fun c member => (List.mem_append.1 member).elim (left c) (right c)

theorem Solid.cons (first : isBlank c = false) (solid : Solid text) : Solid (c :: text) :=
  List.forall_mem_cons.2 ⟨first, solid⟩

theorem solid_toDigits (n : Nat) : Solid (Nat.toDigits 10 n) := by
  intro c member
  have digit := Nat.isDigit_of_mem_toDigits (by decide) (by decide) member
  have other : ∀ d, d.isDigit = false → (c == d) = false := by
    rintro d none
    refine beq_false_of_ne ?_
    rintro rfl
    cases digit.symm.trans none
  simp [isBlank, other ' ' (by decide), other '\n' (by decide), other '\t' (by decide),
    other '\r' (by decide)]

theorem solid_zeros (n : Nat) : Solid (Number.Layout.zeros n) := by
  intro c member
  rw [List.eq_of_mem_replicate member]
  rfl

theorem solid_place (fraction : Bool) (solid : Solid text) (before : Int) :
    Solid (Number.Layout.place fraction text before) := by
  unfold Number.Layout.place
  split
  · exact .cons rfl (.cons rfl ((solid_zeros _).append solid))
  · split
    · refine (solid.append (solid_zeros _)).append ?_
      cases fraction <;> simp [Solid, isBlank]
    · exact .append (fun c member => solid c (List.mem_of_mem_take member))
        (.cons rfl fun c member => solid c (List.mem_of_mem_drop member))

theorem solid_scientific (solid : Solid text) (lead : Int) :
    Solid (Number.Layout.scientific text lead) := by
  unfold Number.Layout.scientific
  refine .append ?_ (.cons rfl (.cons ?_ (solid_toDigits _)))
  · split
    · exact solid
    · exact solid
    · next d rest =>
        obtain ⟨first, others⟩ := List.forall_mem_cons.1 solid
        exact .cons first (.cons rfl others)
  · split <;> rfl

theorem solid_magnitude (layout : Number.Layout) (x : Float) : Solid (layout.magnitude x) := by
  unfold Number.Layout.magnitude
  dsimp only
  split
  · exact solid_place _ (solid_zeros 1) _
  · split
    · exact solid_place _ (solid_toDigits _) _
    · exact solid_scientific (solid_toDigits _) _

/-- Nothing blank stands in the text of a number. -/
theorem solid_render (n : Number) : Solid n.render.toList := by
  cases n with
  | int n =>
      rw [Number.toList_render_int]
      split
      · exact .cons rfl (solid_toDigits _)
      · exact solid_toDigits _
  | float x =>
      rw [Number.render]
      split
      · simp [Solid, isBlank]
      · rw [Number.Layout.render]
        split
        · simp [Solid, isBlank]
        · rw [String.toList_ofList]
          have body :
              Solid (if x.isInf then ['i', 'n', 'f'] else Number.Layout.stored.magnitude x) := by
            split
            · simp [Solid, isBlank]
            · exact solid_magnitude _ _
          split
          · exact .cons rfl body
          · exact body

end Written

namespace Number

/-- Whether the text of a number reads back as the number. -/
def ReadsBack (n : Number) : Prop := read? (num n).compact = some (num n)

/-- The text of a number reads back if it is a numeral for it. -/
theorem readsBack_iff {n : Number} : n.ReadsBack ↔
    ∃ numeral, Numeral.scan? n.render.toList = some (numeral, []) ∧ numeral.value? = some n := by
  have solid := Written.solid_render n
  constructor
  · intro reads
    obtain ⟨written, taken, settled⟩ := Option.bind_eq_some_iff.1 reads
    obtain ⟨numeral, rfl, value⟩ := Written.num_of_settle? settled
    have text : (num n).compact.toList = n.render.toList := rfl
    unfold Written.read? at taken
    rw [text] at taken
    split at taken
    · next w left found =>
        split at taken
        · next empty =>
            obtain rfl := Option.some.inj taken
            have scanned := Written.scan?_of_value? found
            rw [solid.skip] at scanned
            have within := (Numeral.local_scan? _ _ _ scanned).1
            have none : left = [] := by
              rw [← Written.Solid.skip fun c member => solid c (within.mem member)]
              exact List.isEmpty_iff.1 empty
            exact ⟨numeral, none ▸ scanned, value⟩
        · cases taken
    · cases taken
  · rintro ⟨numeral, scanned, value⟩
    obtain ⟨c, u, split, starts⟩ := Numeral.head_of_scan? scanned
    have taken : Written.read? n.render = some (.num numeral) := by
      rw [Written.read?, split, Written.value?_numeral starts, ← split, scanned]
      rfl
    have settled : Written.settle? .whole maxDepth (.num numeral) = some (num n) := by
      rw [Written.settle?, value]
      rfl
    exact (congrArg (·.bind (Written.settle? .whole maxDepth)) taken).trans settled

theorem readsBack_int {n : Int} (low : Int64.minValue.toInt ≤ n) (high : n < UInt64.size) :
    (int n).ReadsBack :=
  readsBack_iff.2 (scan?_render_int low high)

end Number
end Dialogue.Json
