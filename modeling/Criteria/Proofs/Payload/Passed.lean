import Criteria.Proofs.Payload.Numeral

set_option autoImplicit false

/-! # Values that are passed over

A value is a scalar, a list of values or an object whose members are values, and nests as deep as it
likes (`Written`). A reader that skips a value ends right behind it (`Written.skipValue`), whatever
the value is and whatever follows it: the fuel that the reader starts with is enough for every
text. -/

namespace Criteria.Payload

/-! ## Written values -/

/-- A value without parts. -/
inductive Scalar where
  | null
  | bool (b : Bool)
  | number (n : Numeral)
  | text (q : Quoted)

/-- The text of a scalar. -/
def Scalar.chars : Scalar → List Char
  | .null => 'n' :: "ull".toList
  | .bool true => 't' :: "rue".toList
  | .bool false => 'f' :: "alse".toList
  | .number n => n.chars
  | .text q => '"' :: q.tail

/-- What stands in front of the value of a member. -/
structure Key where
  before : Gap
  name : Quoted
  beforeColon : Gap
  afterColon : Gap

/-- The text of a key up to its value. -/
def Key.chars (k : Key) : List Char :=
  k.before.chars ++ '"' :: (k.name.tail ++ (k.beforeColon.chars ++ ':' :: k.afterColon.chars))

/-- What a text is the whole of: a value, or a list or an object from some place on. -/
inductive Form where
  | value
  /-- A list behind its bracket. -/
  | items
  /-- A list behind one of its items. -/
  | moreItems
  /-- An object behind its brace. -/
  | members
  /-- An object behind one of its members. -/
  | moreMembers

/-- Texts of values and of their ends. -/
inductive Written : Form → List Char → Prop where
  | scalar (s : Scalar) : Written .value s.chars
  | list {cs : List Char} (h : Written .items cs) : Written .value ('[' :: cs)
  | object {cs : List Char} (h : Written .members cs) : Written .value ('\x7b' :: cs)
  | noItems (g : Gap) : Written .items (g.chars ++ [']'])
  | items (before after : Gap) {v cs : List Char} (hv : Written .value v)
      (h : Written .moreItems cs) :
      Written .items (before.chars ++ (v ++ (after.chars ++ cs)))
  | endItems : Written .moreItems [']']
  | moreItems (before after : Gap) {v cs : List Char} (hv : Written .value v)
      (h : Written .moreItems cs) :
      Written .moreItems (',' :: (before.chars ++ (v ++ (after.chars ++ cs))))
  | noMembers (g : Gap) : Written .members (g.chars ++ ['\x7d'])
  | members (key : Key) (after : Gap) {v cs : List Char} (hv : Written .value v)
      (h : Written .moreMembers cs) :
      Written .members (key.chars ++ (v ++ (after.chars ++ cs)))
  | endMembers : Written .moreMembers ['\x7d']
  | moreMembers (key : Key) (after : Gap) {v cs : List Char} (hv : Written .value v)
      (h : Written .moreMembers cs) :
      Written .moreMembers (',' :: (key.chars ++ (v ++ (after.chars ++ cs))))

/-! ## First characters -/

/-- A character that no blank, separator or closing bracket is. -/
structure Starts (c : Char) : Prop where
  notSpace : isSpace c = false
  notComma : c ≠ ','
  notBracket : c ≠ ']'
  notBrace : c ≠ '\x7d'

theorem ne_of_isDigit {c d : Char} (hc : c.isDigit = true) (hd : d.isDigit = false) : c ≠ d := by
  rintro rfl
  rw [hc] at hd
  cases hd

theorem starts_of_isDigit {c : Char} (h : c.isDigit = true) : Starts c where
  notSpace := by
    simp [isSpace, ne_of_isDigit h (d := ' ') rfl, ne_of_isDigit h (d := '\n') rfl,
      ne_of_isDigit h (d := '\t') rfl, ne_of_isDigit h (d := '\r') rfl]
  notComma := ne_of_isDigit h rfl
  notBracket := ne_of_isDigit h rfl
  notBrace := ne_of_isDigit h rfl

theorem Numeral.chars_eq_cons (n : Numeral) :
    ∃ c cs, n.chars = c :: cs ∧ (c = '-' ∨ c.isDigit = true) := by
  unfold Numeral.chars
  cases n.negative with
  | true => exact ⟨'-', n.body, rfl, Or.inl rfl⟩
  | false =>
      obtain ⟨c, cs, hcons, hc⟩ := n.whole.eq_cons
        (Digits.fractionChars n.fraction ++ Power.chars n.power)
      exact ⟨c, cs, hcons, Or.inr hc⟩

theorem Scalar.chars_eq_cons (s : Scalar) : ∃ c cs, s.chars = c :: cs ∧ Starts c := by
  cases s with
  | null => exact ⟨'n', _, rfl, ⟨by decide, by decide, by decide, by decide⟩⟩
  | bool b =>
      cases b with
      | true => exact ⟨'t', _, rfl, ⟨by decide, by decide, by decide, by decide⟩⟩
      | false => exact ⟨'f', _, rfl, ⟨by decide, by decide, by decide, by decide⟩⟩
  | number n =>
      obtain ⟨c, cs, hcons, rfl | hc⟩ := n.chars_eq_cons
      · exact ⟨'-', cs, hcons, ⟨by decide, by decide, by decide, by decide⟩⟩
      · exact ⟨c, cs, hcons, starts_of_isDigit hc⟩
  | text q => exact ⟨'"', _, rfl, ⟨by decide, by decide, by decide, by decide⟩⟩

theorem Written.eq_cons {v : List Char} (h : Written .value v) :
    ∃ c cs, v = c :: cs ∧ Starts c := by
  cases h with
  | scalar s => exact s.chars_eq_cons
  | list h => exact ⟨'[', _, rfl, ⟨by decide, by decide, by decide, by decide⟩⟩
  | object h => exact ⟨'\x7b', _, rfl, ⟨by decide, by decide, by decide, by decide⟩⟩

theorem ends_comma (cs : List Char) : Ends (',' :: cs) := by
  intro c hc
  cases hc
  exact Or.inr (Or.inl rfl)

theorem ends_bracket (cs : List Char) : Ends (']' :: cs) := by
  intro c hc
  cases hc
  exact Or.inr (Or.inr (Or.inl rfl))

theorem ends_brace (cs : List Char) : Ends ('\x7d' :: cs) := by
  intro c hc
  cases hc
  exact Or.inr (Or.inr (Or.inr rfl))

theorem Written.ends_moreItems {cs : List Char} (h : Written .moreItems cs) (rest : List Char) :
    Ends (cs ++ rest) := by
  cases h with
  | endItems => exact ends_bracket rest
  | moreItems before after hv h => exact ends_comma _

theorem Written.ends_moreMembers {cs : List Char} (h : Written .moreMembers cs)
    (rest : List Char) : Ends (cs ++ rest) := by
  cases h with
  | endMembers => exact ends_brace rest
  | moreMembers key after hv h => exact ends_comma _

/-! ## Skipping -/

namespace Passing

theorem value_gap (p : Passing) (fuel : Nat) (g : Gap) (cs : List Char) :
    p.value (fuel + 1) (g.chars ++ cs) = p.value (fuel + 1) cs := by
  rw [value, value, skipSpace_gap]

theorem value_digit (p : Passing) (fuel : Nat) {c : Char} (hc : c.isDigit = true)
    (cs : List Char) : p.value (fuel + 1) (c :: cs) = p.number false (c :: cs) := by
  rw [value, skipSpace_cons (starts_of_isDigit hc).notSpace]
  simp [ne_of_isDigit hc (d := 'n') rfl, ne_of_isDigit hc (d := 't') rfl,
    ne_of_isDigit hc (d := 'f') rfl, ne_of_isDigit hc (d := '-') rfl, hc]

/-- A scalar is skipped in one step. -/
theorem value_scalar (s : Scalar) (fuel : Nat) {rest : List Char} (hrest : Ends rest) :
    skipped.value (fuel + 1) (s.chars ++ rest) = .ok rest := by
  cases s with
  | null => exact readWord_append _ rest
  | bool b =>
      cases b with
      | true => exact readWord_append _ rest
      | false => exact readWord_append _ rest
  | number n =>
      have hskip : skipped.number n.negative (n.body ++ rest) = .ok rest := n.skipNumber hrest
      obtain ⟨c, cs, hcons, hc⟩ := n.whole.eq_cons
        (Digits.fractionChars n.fraction ++ Power.chars n.power)
      rw [Scalar.chars, Numeral.chars]
      cases hsign : n.negative with
      | true =>
          rw [hsign] at hskip
          exact hskip
      | false =>
          have hbody : n.body = c :: cs := hcons
          rw [hsign, hbody] at hskip
          rw [if_neg (by simp), hbody]
          exact (value_digit skipped fuel hc (cs ++ rest)).trans hskip
  | text q => exact q.skipChars_tail rest

variable {fuel : Nat} {c : Char} {cs rest : List Char}

theorem items_close (first : Bool) (h : skipSpace cs = ']' :: rest) :
    skipped.items (fuel + 1) first cs = .ok rest := by
  rw [items, h]
  rfl

theorem items_first (h : skipSpace cs = c :: rest) (hc : c ≠ ']') :
    skipped.items (fuel + 1) true cs =
      skipped.value fuel (c :: rest) >>= skipped.items fuel false := by
  rw [items, h]
  exact if_neg hc

theorem items_comma (h : skipSpace cs = ',' :: rest) :
    skipped.items (fuel + 1) false cs = skipped.value fuel rest >>= skipped.items fuel false := by
  rw [items, h]
  rfl

theorem members_close (first : Bool) (h : skipSpace cs = '\x7d' :: rest) :
    skipped.members (fuel + 1) first cs = .ok rest := by
  rw [members, h]
  rfl

theorem members_first (h : skipSpace cs = c :: rest) (hc : c ≠ '\x7d') :
    skipped.members (fuel + 1) true cs =
      skipped.member fuel (c :: rest) >>= skipped.members fuel false := by
  rw [members, h]
  exact if_neg hc

theorem members_comma (h : skipSpace cs = ',' :: rest) :
    skipped.members (fuel + 1) false cs =
      skipped.member fuel rest >>= skipped.members fuel false := by
  rw [members, h]
  rfl

theorem items_gap (g : Gap) (cs : List Char) :
    skipped.items (fuel + 1) false (g.chars ++ cs) = skipped.items (fuel + 1) false cs := by
  rw [items, items, skipSpace_gap]

theorem members_gap (g : Gap) (cs : List Char) :
    skipped.members (fuel + 1) false (g.chars ++ cs) = skipped.members (fuel + 1) false cs := by
  rw [members, members, skipSpace_gap]

theorem items_first_value {v : List Char} (before after : Gap) (hv : Written .value v)
    (hvalue : skipped.value (fuel + 1) (v ++ (after.chars ++ cs)) = .ok (after.chars ++ cs))
    (hmore : skipped.items (fuel + 1) false cs = .ok rest) :
    skipped.items (fuel + 2) true (before.chars ++ (v ++ (after.chars ++ cs))) = .ok rest := by
  obtain ⟨c, v', rfl, hc⟩ := hv.eq_cons
  rw [items_first (by rw [skipSpace_gap, List.cons_append, skipSpace_cons hc.notSpace])
    hc.notBracket, ← List.cons_append, hvalue]
  exact (items_gap after cs).trans hmore

theorem items_next_value {v : List Char} (before after : Gap)
    (hvalue : skipped.value (fuel + 1) (v ++ (after.chars ++ cs)) = .ok (after.chars ++ cs))
    (hmore : skipped.items (fuel + 1) false cs = .ok rest) :
    skipped.items (fuel + 2) false (',' :: (before.chars ++ (v ++ (after.chars ++ cs)))) =
      .ok rest := by
  rw [items_comma (skipSpace_cons (by decide) _), value_gap, hvalue]
  exact (items_gap after cs).trans hmore

/-- A member is its key and its value. -/
theorem member_key (key : Key) (cs : List Char) :
    skipped.member (fuel + 2) (key.chars ++ cs) = skipped.value (fuel + 1) cs := by
  have hname : skipped.string (key.name.tail ++ (key.beforeColon.chars ++
      ':' :: (key.afterColon.chars ++ cs))) =
        .ok (key.beforeColon.chars ++ ':' :: (key.afterColon.chars ++ cs)) :=
    key.name.skipChars_tail _
  have hchars : key.chars ++ cs = key.before.chars ++ '"' :: (key.name.tail ++
      (key.beforeColon.chars ++ ':' :: (key.afterColon.chars ++ cs))) := by
    simp [Key.chars]
  have hcolon : skipSpace (key.beforeColon.chars ++ ':' :: (key.afterColon.chars ++ cs)) =
      ':' :: (key.afterColon.chars ++ cs) := by
    rw [skipSpace_gap, skipSpace_cons (by decide)]
  rw [hchars, member, skipSpace_gap]
  show (skipped.string _ >>= _) = _
  rw [hname]
  simp only [bind, Except.bind, hcolon, if_true]
  exact value_gap skipped fuel key.afterColon cs

theorem members_first_value {v : List Char} (key : Key) (after : Gap)
    (hvalue : skipped.value (fuel + 1) (v ++ (after.chars ++ cs)) = .ok (after.chars ++ cs))
    (hmore : skipped.members (fuel + 2) false cs = .ok rest) :
    skipped.members (fuel + 3) true (key.chars ++ (v ++ (after.chars ++ cs))) = .ok rest := by
  -- The reader of members has dropped the blanks in front of the key before it reads the member.
  have hmember := (member_key key (v ++ (after.chars ++ cs))).trans hvalue
  have hgap : ∀ tail, skipped.member (fuel + 2) (key.before.chars ++ tail) =
      skipped.member (fuel + 2) tail := by
    intro tail
    rw [member, member, skipSpace_gap]
  have hquote : key.chars ++ (v ++ (after.chars ++ cs)) = key.before.chars ++ '"' ::
      (key.name.tail ++ (key.beforeColon.chars ++ ':' :: key.afterColon.chars) ++
        (v ++ (after.chars ++ cs))) := by
    simp [Key.chars]
  rw [hquote] at hmember ⊢
  rw [members_first (by rw [skipSpace_gap, skipSpace_cons (by decide)]) (by decide), ← hgap,
    hmember]
  exact (members_gap after cs).trans hmore

theorem members_next_value {v : List Char} (key : Key) (after : Gap)
    (hvalue : skipped.value (fuel + 1) (v ++ (after.chars ++ cs)) = .ok (after.chars ++ cs))
    (hmore : skipped.members (fuel + 2) false cs = .ok rest) :
    skipped.members (fuel + 3) false (',' :: (key.chars ++ (v ++ (after.chars ++ cs)))) =
      .ok rest := by
  rw [members_comma (skipSpace_cons (by decide) _), member_key, hvalue]
  exact (members_gap after cs).trans hmore

end Passing

theorem Key.length_chars (k : Key) : 3 ≤ k.chars.length := by
  simp only [Key.chars, Quoted.tail, List.length_append, List.length_cons]
  omega

theorem Written.length_pos {form : Form} {cs : List Char} (h : Written form cs) :
    1 ≤ cs.length := by
  induction h with
  | scalar s =>
      obtain ⟨c, cs, hcons, -⟩ := s.chars_eq_cons
      simp [hcons]
  | _ => simp only [List.length_append, List.length_cons]; omega

/-- The reader of a form, with some fuel, ends right behind a text of it. -/
def Skips (fuel : Nat) (cs rest : List Char) : Form → Prop
  | .value => Ends rest → Passing.skipped.value fuel (cs ++ rest) = .ok rest
  | .items => Passing.skipped.items fuel true (cs ++ rest) = .ok rest
  | .moreItems => Passing.skipped.items fuel false (cs ++ rest) = .ok rest
  | .members => Passing.skipped.members fuel true (cs ++ rest) = .ok rest
  | .moreMembers => Passing.skipped.members fuel false (cs ++ rest) = .ok rest

/-- Every form is skipped with twice as much fuel as its text has characters: each of its parts is
shorter by the character that starts it. -/
theorem Written.skips {form : Form} {cs : List Char} (h : Written form cs) (fuel : Nat)
    (hfuel : 2 * cs.length + 1 ≤ fuel) (rest : List Char) : Skips fuel cs rest form := by
  induction h generalizing fuel rest with
  | scalar s =>
      intro hrest
      obtain ⟨fuel, rfl⟩ := Nat.exists_eq_add_of_le' (Nat.le_of_add_left_le hfuel)
      exact Passing.value_scalar s fuel hrest
  | list h ih =>
      intro hrest
      obtain ⟨fuel, rfl⟩ := Nat.exists_eq_add_of_le' (Nat.le_of_add_left_le hfuel)
      exact ih fuel (by simp only [List.length_cons] at hfuel; omega) rest
  | object h ih =>
      intro hrest
      obtain ⟨fuel, rfl⟩ := Nat.exists_eq_add_of_le' (Nat.le_of_add_left_le hfuel)
      exact ih fuel (by simp only [List.length_cons] at hfuel; omega) rest
  | noItems g =>
      obtain ⟨fuel, rfl⟩ := Nat.exists_eq_add_of_le' (Nat.le_of_add_left_le hfuel)
      refine Passing.items_close true ?_
      rw [List.append_assoc, skipSpace_gap]
      rfl
  | items before after hv h ihv ih =>
      have hvpos := hv.length_pos
      have hpos := h.length_pos
      simp only [List.length_append] at hfuel
      -- One step is for the list and one for the value, which is read with the same fuel.
      obtain ⟨fuel, rfl⟩ := Nat.exists_eq_add_of_le' (show 2 ≤ fuel by omega)
      have hvalue := ihv (fuel + 1) (by omega) _ (ends_gap after (h.ends_moreItems rest))
      have hmore := ih (fuel + 1) (by omega) rest
      simpa [Skips] using Passing.items_first_value before after hv hvalue hmore
  | endItems =>
      obtain ⟨fuel, rfl⟩ := Nat.exists_eq_add_of_le' (Nat.le_of_add_left_le hfuel)
      exact Passing.items_close false rfl
  | moreItems before after hv h ihv ih =>
      have hvpos := hv.length_pos
      have hpos := h.length_pos
      simp only [List.length_cons, List.length_append] at hfuel
      obtain ⟨fuel, rfl⟩ := Nat.exists_eq_add_of_le' (show 2 ≤ fuel by omega)
      have hvalue := ihv (fuel + 1) (by omega) _ (ends_gap after (h.ends_moreItems rest))
      have hmore := ih (fuel + 1) (by omega) rest
      simpa [Skips] using Passing.items_next_value before after hvalue hmore
  | noMembers g =>
      obtain ⟨fuel, rfl⟩ := Nat.exists_eq_add_of_le' (Nat.le_of_add_left_le hfuel)
      refine Passing.members_close true ?_
      rw [List.append_assoc, skipSpace_gap]
      rfl
  | members key after hv h ihv ih =>
      have hkey := key.length_chars
      have hpos := h.length_pos
      simp only [List.length_append] at hfuel
      -- One step more than for a list is for the member, whose key has three characters at least.
      obtain ⟨fuel, rfl⟩ := Nat.exists_eq_add_of_le' (show 3 ≤ fuel by omega)
      have hvalue := ihv (fuel + 1) (by omega) _ (ends_gap after (h.ends_moreMembers rest))
      have hmore := ih (fuel + 2) (by omega) rest
      simpa [Skips] using Passing.members_first_value key after hvalue hmore
  | endMembers =>
      obtain ⟨fuel, rfl⟩ := Nat.exists_eq_add_of_le' (Nat.le_of_add_left_le hfuel)
      exact Passing.members_close false rfl
  | moreMembers key after hv h ihv ih =>
      have hkey := key.length_chars
      have hpos := h.length_pos
      simp only [List.length_cons, List.length_append] at hfuel
      obtain ⟨fuel, rfl⟩ := Nat.exists_eq_add_of_le' (show 3 ≤ fuel by omega)
      have hvalue := ihv (fuel + 1) (by omega) _ (ends_gap after (h.ends_moreMembers rest))
      have hmore := ih (fuel + 2) (by omega) rest
      simpa [Skips] using Passing.members_next_value key after hvalue hmore

/-- A skipped value takes its own text and nothing more. -/
theorem Written.skipValue {v : List Char} (h : Written .value v) (g : Gap) {rest : List Char}
    (hrest : Ends rest) : Payload.skipValue (g.chars ++ (v ++ rest)) = .ok rest := by
  have hfuel : 2 * v.length + 1 ≤ 2 * (g.chars ++ (v ++ rest)).length + 2 := by
    simp only [List.length_append]
    omega
  rw [Payload.skipValue, Passing.value_gap]
  exact h.skips _ hfuel rest hrest

end Criteria.Payload
