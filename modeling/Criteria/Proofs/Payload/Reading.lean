import Criteria.Proofs.Payload.Document

set_option autoImplicit false

/-! # Reading written payloads

The reader of a payload finds the criteria that the payload stands for, and stops if it stands for
none (`Document.parse_chars`). Every reader of a part settles the part in the same way, whatever
stands in front of it and behind it. -/

namespace Criteria.Payload

/-! ## Values -/

theorem Item.eq_cons (i : Item) (rest : List Char) :
    ∃ c cs, i.chars ++ rest = c :: cs ∧ Starts c := by
  obtain ⟨c, cs, hcons, hc⟩ := i.written.eq_cons
  exact ⟨c, cs ++ rest, by rw [hcons, List.cons_append], hc⟩

theorem Item.skipSpace_chars (i : Item) (rest : List Char) :
    skipSpace (i.chars ++ rest) = i.chars ++ rest := by
  obtain ⟨c, cs, hcons, hc⟩ := i.eq_cons rest
  rw [hcons, skipSpace_cons hc.notSpace]

theorem refuse_error {α : Type} (expected : Expected) (cs : List Char) :
    ∃ stop, (refuse expected cs : Except Stop α) = .error stop := by
  unfold refuse
  cases readFound cs with
  | error stop => exact ⟨stop, rfl⟩
  | ok found => exact ⟨_, rfl⟩

theorem readText_error {cs rest : List Char} {c : Char} (h : skipSpace cs = c :: rest)
    (hc : c ≠ '"') : ∃ stop, readText cs = .error stop := by
  obtain ⟨stop, hstop⟩ : ∃ stop, (refuse .text (c :: rest) : Except Stop (String × List Char)) =
    .error stop := refuse_error .text (c :: rest)
  refine ⟨stop, ?_⟩
  rw [readText, h]
  exact (if_neg hc).trans hstop

theorem Item.settles_readText (i : Item) (g : Gap) (rest : List Char) :
    Settles i.text? (readText (g.chars ++ (i.chars ++ rest))) rest := by
  have hskip : skipSpace (g.chars ++ (i.chars ++ rest)) = i.chars ++ rest := by
    rw [skipSpace_gap, i.skipSpace_chars]
  cases i with
  | list cs h => exact readText_error hskip (by decide)
  | object cs h => exact readText_error hskip (by decide)
  | scalar s =>
      cases s with
      | null => exact readText_error hskip (by decide)
      | bool b => cases b <;> exact readText_error hskip (by decide)
      | number n =>
          obtain ⟨c, cs, hcons, hc⟩ := n.chars_eq_cons
          have hne : c ≠ '"' := by
            rcases hc with rfl | hc
            · decide
            · exact ne_of_isDigit hc rfl
          rw [Item.chars, Scalar.chars, hcons] at hskip ⊢
          exact readText_error hskip hne
      | text q =>
          rw [readText, hskip]
          exact (q.settles_readChars rest).map String.ofList

/-- The reader finds the literal that is meant, or does not find one. -/
def Finds (meaning : Option Literal) (result : Except Stop (Option Literal × List Char))
    (rest : List Char) : Prop :=
  match meaning with
  | some l => result = .ok (some l, rest)
  | none => ∀ l left, result ≠ .ok (some l, left)

theorem Settles.finds {α : Type} {meaning : Option α} {result : Except Stop (α × List Char)}
    {rest : List Char} (h : Settles meaning result rest) (f : α → Literal) :
    Finds (meaning.map f) (result >>= fun p => .ok (some (f p.1), p.2)) rest := by
  cases meaning with
  | some a =>
      have hr : result = .ok (a, rest) := h
      rw [hr]
      rfl
  | none =>
      obtain ⟨stop, hr⟩ := h
      rw [hr]
      intro l left heq
      cases heq

/-- Where no literal is found, a reader that stops without one stops. -/
theorem Finds.stops {α : Type} {result : Except Stop (Option Literal × List Char)}
    {rest : List Char} {k : Option Literal × List Char → Except Stop α} (h : Finds none result rest)
    (hk : ∀ left, ∃ stop, k (none, left) = .error stop) : ∃ stop, (result >>= k) = .error stop := by
  rcases hread : result with stop | ⟨l, left⟩
  · exact ⟨stop, rfl⟩
  · cases l with
    | none => exact hk left
    | some l => exact absurd hread (h l left)

/-- A list or an object is checked and found to be no literal. -/
theorem finds_checkValue (room : Nat) (cs rest : List Char) :
    Finds none (checkValue room cs >>= fun r => .ok (none, r)) rest := by
  intro l left heq
  cases hcheck : checkValue room cs with
  | error stop =>
      rw [hcheck] at heq
      cases heq
  | ok r =>
      rw [hcheck] at heq
      cases heq

theorem readLiteral_digit (room : Nat) {c : Char} (hc : c.isDigit = true) (cs : List Char) :
    readLiteral room (c :: cs) =
      readNumber false (c :: cs) >>= fun p => .ok (some (literalOfNumber p.1), p.2) := by
  rw [readLiteral, skipSpace_cons (starts_of_isDigit hc).notSpace]
  simp only [ne_of_isDigit hc (d := 'n') rfl, ne_of_isDigit hc (d := 't') rfl,
    ne_of_isDigit hc (d := 'f') rfl, ne_of_isDigit hc (d := '-') rfl, hc, if_true, if_false]
  rfl

theorem Item.finds_readLiteral (i : Item) (room : Nat) (g : Gap) {rest : List Char}
    (hrest : Ends rest) :
    Finds i.literal? (readLiteral room (g.chars ++ (i.chars ++ rest))) rest := by
  have hgap : readLiteral room (g.chars ++ (i.chars ++ rest)) =
      readLiteral room (i.chars ++ rest) := by
    rw [readLiteral, readLiteral, skipSpace_gap]
  rw [hgap]
  cases i with
  | list cs h => exact finds_checkValue room _ rest
  | object cs h => exact finds_checkValue room _ rest
  | scalar s =>
      cases s with
      | null =>
          have hword := readWord_append "ull".toList rest
          show (readWord "ull".toList ("ull".toList ++ rest) >>= _) = _
          rw [hword]
          rfl
      | bool b =>
          cases b with
          | true =>
              have hword := readWord_append "rue".toList rest
              show (readWord "rue".toList ("rue".toList ++ rest) >>= _) = _
              rw [hword]
              rfl
          | false =>
              have hword := readWord_append "alse".toList rest
              show (readWord "alse".toList ("alse".toList ++ rest) >>= _) = _
              rw [hword]
              rfl
      | number n =>
          have hread := (n.settles_readNumber hrest).finds literalOfNumber
          show Finds _ (readLiteral room (n.chars ++ rest)) rest
          rw [Numeral.chars]
          cases hsign : n.negative with
          | true =>
              rw [hsign] at hread
              exact hread
          | false =>
              obtain ⟨c, cs, hcons, hc⟩ := n.whole.eq_cons
                (Digits.fractionChars n.fraction ++ Power.chars n.power)
              have hbody : n.body = c :: cs := hcons
              rw [hsign, hbody] at hread
              rw [if_neg (by simp), hbody, List.cons_append, readLiteral_digit room hc]
              exact hread
      | text q =>
          have hread := (q.settles_readChars rest).finds fun cs => .text (String.ofList cs)
          rw [Item.literal?, Quoted.text?, Option.map_map]
          exact hread

/-! ## Objects -/

theorem afterColon_gap (g : Gap) (cs : List Char) : afterColon (g.chars ++ ':' :: cs) = .ok cs := by
  rw [afterColon, skipSpace_gap]
  rfl

theorem settles_readMember (room : Nat) (parts : Parts) (key : String) (colon gap : Gap) (i : Item)
    {rest : List Char} (hrest : Ends rest) :
    Settles (parts.add? i (Member.ofKey? key))
      (readMember room parts key
        (colon.chars ++ ':' :: (gap.chars ++ (i.chars ++ rest)))) rest := by
  have hcolon := afterColon_gap colon (gap.chars ++ (i.chars ++ rest))
  rw [readMember]
  cases hm : Member.ofKey? key with
  | none =>
      have hskip := i.written.skipValue gap hrest
      simp only [hcolon]
      show (skipValue (gap.chars ++ (i.chars ++ rest)) >>= _) = _
      rw [hskip]
      rfl
  | some m =>
      by_cases hhas : parts.has m = true
      · simp only [Parts.add?, if_pos hhas]
        exact ⟨_, rfl⟩
      · simp only [Parts.add?, if_neg hhas, hcolon]
        cases m with
        | property => exact (i.settles_readText gap rest).map _
        | operator => exact (i.settles_readText gap rest).map _
        | value =>
            have hfinds := i.finds_readLiteral room gap hrest
            cases hl : i.literal? with
            | some l =>
                rw [hl] at hfinds
                show (readLiteral room (gap.chars ++ (i.chars ++ rest)) >>= _) = _
                rw [hfinds]
                rfl
            | none =>
                -- A list or an object is read to its end before the reader stops.
                rw [hl] at hfinds
                exact hfinds.stops fun left => ⟨_, rfl⟩

theorem Entry.settles_readEntry (e : Entry) (room : Nat) (parts : Parts) {rest : List Char}
    (hrest : Ends rest) :
    Settles (e.add? parts) (readEntry room parts (e.chars ++ rest)) (e.after.chars ++ rest) := by
  have hchars : e.chars ++ rest = e.key.before.chars ++ '"' :: (e.key.name.tail ++
      (e.key.beforeColon.chars ++ ':' :: (e.key.afterColon.chars ++
        (e.value.chars ++ (e.after.chars ++ rest))))) := by
    simp [Entry.chars, Key.chars]
  have hname := e.key.name.settles_readChars (e.key.beforeColon.chars ++
    ':' :: (e.key.afterColon.chars ++ (e.value.chars ++ (e.after.chars ++ rest))))
  rw [hchars, readEntry, skipSpace_gap, Entry.add?, Quoted.text?, Option.bind_map]
  exact hname.bind fun key _ => settles_readMember room parts (String.ofList key)
    e.key.beforeColon e.key.afterColon e.value (ends_gap e.after hrest)

/-- What follows one of several texts is a comma or what follows them all. -/
theorem ends_flatMap_comma (xs : List (List Char)) {rest : List Char} (hrest : Ends rest) :
    Ends (xs.flatMap (',' :: ·) ++ rest) := by
  cases xs with
  | nil => exact hrest
  | cons x xs => exact ends_comma _

theorem length_le_flatMap_comma (xs : List (List Char)) :
    xs.length ≤ (xs.flatMap (',' :: ·)).length := by
  induction xs with
  | nil => exact Nat.le_refl 0
  | cons x xs ih =>
      simp only [List.flatMap_cons, List.length_cons, List.length_append]
      omega

/-- The members behind the first ones of an object. -/
theorem settles_readEntries (room : Nat) (es : List Entry) {fuel : Nat} (hfuel : es.length ≤ fuel)
    (parts : Parts) (g : Gap) (rest : List Char) :
    Settles (parts.collect? es)
      (readEntries room (fuel + 1) parts
        (g.chars ++ ((es.map Entry.chars).flatMap (',' :: ·) ++ '\x7d' :: rest))) rest := by
  induction es generalizing fuel parts g with
  | nil =>
      have hcollect : parts.collect? [] = parts.criterion.toOption := rfl
      have hskip : skipSpace ('\x7d' :: rest) = '\x7d' :: rest := skipSpace_cons (by decide) rest
      rw [readEntries, skipSpace_gap, List.map_nil, List.flatMap_nil, List.nil_append, hskip,
        hcollect]
      cases parts.criterion with
      | ok criterion => simp [Settles, Except.toOption]
      | error m => simp [Settles, Except.toOption, stopAfter]
  | cons e es ih =>
      obtain ⟨fuel, rfl⟩ := Nat.exists_eq_add_of_le' (Nat.le_of_add_left_le hfuel)
      rw [readEntries, skipSpace_gap, Parts.collect?_cons]
      simp only [List.map_cons, List.flatMap_cons, List.cons_append, List.append_assoc]
      have hends := ends_flatMap_comma (es.map Entry.chars) (ends_brace rest)
      exact (e.settles_readEntry room parts hends).bind fun parts _ =>
        ih (Nat.le_of_succ_le_succ hfuel) parts e.after

/-- A reader of objects settles every object. -/
theorem Object.settles_readObject (o : Object) (room : Nat) (rest : List Char) :
    Settles o.criterion? (readObject room (o.tail ++ rest)) rest := by
  rw [o.criterion?_eq_collect?, Object.tail, List.append_assoc, readObject, skipSpace_gap]
  cases o.entries with
  | nil => exact ⟨_, rfl⟩
  | cons e es =>
      have hends := ends_flatMap_comma (es.map Entry.chars) (ends_brace rest)
      have hread := e.settles_readEntry room {} hends
      obtain ⟨tail, htail⟩ : ∃ tail, e.chars ++ ((es.map Entry.chars).flatMap (',' :: ·) ++
          '\x7d' :: rest) = e.key.before.chars ++ '"' :: tail :=
        ⟨_, by simp only [Entry.chars, Key.chars, List.append_assoc, List.cons_append]; rfl⟩
      have htext : commaSeparated ((e :: es).map Entry.chars) ++ ['\x7d'] ++ rest =
          e.chars ++ ((es.map Entry.chars).flatMap (',' :: ·) ++ '\x7d' :: rest) := by
        simp [commaSeparated]
      have hentry : readEntry room {} (e.key.before.chars ++ '"' :: tail) =
          readEntry room {} ('"' :: tail) := by
        rw [readEntry, readEntry, skipSpace_gap]
      rw [htail, hentry] at hread
      rw [htext, htail, skipSpace_gap, Parts.collect?_cons]
      refine hread.bind ?_
      intro parts hparts
      refine settles_readEntries room es ?_ parts e.after rest
      have hlength := length_le_flatMap_comma (es.map Entry.chars)
      simp only [List.length_map, List.length_append] at hlength ⊢
      omega

/-! ## Lists -/

theorem nextItem_first (i : Item) (lead before : Gap) (rest : List Char) :
    nextItem 0 (lead.chars ++ (before.chars ++ (i.chars ++ rest))) = .ok (i.chars ++ rest) := by
  obtain ⟨c, cs, hcons, hc⟩ := i.eq_cons rest
  rw [nextItem, skipSpace_gap, skipSpace_gap, i.skipSpace_chars, hcons]
  exact if_neg hc.notBracket

theorem nextItem_next (count : Nat) (i : Item) (after before : Gap) (rest : List Char) :
    nextItem (count + 1) (after.chars ++ ',' :: (before.chars ++ (i.chars ++ rest))) =
      .ok (i.chars ++ rest) := by
  obtain ⟨c, cs, hcons, hc⟩ := i.eq_cons rest
  rw [nextItem, skipSpace_gap, skipSpace_cons (by decide)]
  simp [hcons, skipSpace_cons hc.notSpace, hc.notBracket]

theorem nextItem_end (count : Nat) (g : Gap) (rest : List Char) :
    nextItem count (g.chars ++ ']' :: rest) = stopAfter (.invalidLength count) rest := by
  rw [nextItem, skipSpace_gap]
  rfl

theorem endList_close (g : Gap) (rest : List Char) :
    endList (g.chars ++ ']' :: rest) = .ok rest := by
  rw [endList, skipSpace_gap]
  rfl

theorem endList_comma (g : Gap) (rest : List Char) :
    ∃ stop, endList (g.chars ++ ',' :: rest) = .error stop := by
  rw [endList, skipSpace_gap, skipSpace_cons (by decide)]
  simp only [if_neg (show (',' : Char) ≠ ']' by decide), if_true]
  split
  · exact ⟨_, rfl⟩
  · exact ⟨_, rfl⟩

/-- The text behind an item of a list. -/
def listRest (after : Gap) (more : List Spaced) (rest : List Char) : List Char :=
  after.chars ++ ((more.map Spaced.chars).flatMap (',' :: ·) ++ ']' :: rest)

theorem ends_listRest (after : Gap) (more : List Spaced) (rest : List Char) :
    Ends (listRest after more rest) :=
  ends_gap after (ends_flatMap_comma (more.map Spaced.chars) (ends_bracket rest))

theorem listRest_cons (after : Gap) (s : Spaced) (more : List Spaced) (rest : List Char) :
    listRest after (s :: more) rest =
      after.chars ++ ',' :: (s.before.chars ++ (s.value.chars ++ listRest s.after more rest)) := by
  simp [listRest, Spaced.chars]

theorem Row.tail_cons {r : Row} {s : Spaced} {more : List Spaced} (h : r.items = s :: more)
    (rest : List Char) :
    r.tail ++ rest =
      r.lead.chars ++ (s.before.chars ++ (s.value.chars ++ listRest s.after more rest)) := by
  simp [Row.tail, h, commaSeparated, listRest, Spaced.chars]

/-- The last item of a list is a literal, with the end of the list behind it. -/
theorem settles_last (v : Spaced) (more : List Spaced) (property operator : String) (room : Nat)
    (rest : List Char) :
    Settles (if more.isEmpty then v.value.literal?.map fun l => ⟨property, operator, l⟩ else none)
      (readLiteral room (v.value.chars ++ listRest v.after more rest) >>= fun
        | (none, rest) => stopAfter .unmatchedValue (closeList rest)
        | (some l, rest) => do return (Criterion.mk property operator l, ← endList rest)) rest := by
  have hfinds := v.value.finds_readLiteral room Gap.empty (ends_listRest v.after more rest)
  have hgap : Gap.empty.chars ++ (v.value.chars ++ listRest v.after more rest) =
      v.value.chars ++ listRest v.after more rest := rfl
  rw [hgap] at hfinds
  cases hl : v.value.literal? with
  | none =>
      rw [hl] at hfinds
      rw [Option.map_none, ite_self]
      exact hfinds.stops fun left => ⟨_, rfl⟩
  | some l =>
      rw [hl] at hfinds
      rw [hfinds]
      cases more with
      | nil =>
          show (endList (v.after.chars ++ ']' :: rest) >>= _) = _
          rw [endList_close]
          rfl
      | cons w more =>
          obtain ⟨stop, hstop⟩ := endList_comma v.after
            (w.before.chars ++ (w.value.chars ++ listRest w.after more rest))
          refine ⟨stop, ?_⟩
          show (endList (listRest v.after (w :: more) rest) >>= _) = _
          rw [listRest_cons, hstop]
          rfl

theorem Row.criterion?_of_short {r : Row} (h : r.items.length < 3) : r.criterion? = none := by
  rw [Row.criterion?]
  split
  · next hitems => simp [hitems] at h
  · rfl

theorem Row.criterion?_cons {r : Row} {p o v : Spaced} {more : List Spaced}
    (h : r.items = p :: o :: v :: more) :
    r.criterion? = p.value.text?.bind fun property => o.value.text?.bind fun operator =>
      if more.isEmpty then v.value.literal?.map fun l => ⟨property, operator, l⟩ else none := by
  rw [Row.criterion?, h]
  cases more with
  | nil =>
      show assemble? p.value.text? o.value.text? v.value.literal? = _
      cases p.value.text? <;> cases o.value.text? <;> cases v.value.literal? <;> rfl
  | cons w more => simp

/-- A reader of lists settles every list. -/
theorem Row.settles_readTuple (r : Row) (room : Nat) (rest : List Char) :
    Settles r.criterion? (readTuple room (r.tail ++ rest)) rest := by
  -- The reader takes three items and then the end of the list, so it stops at another number of
  -- them, if not before.
  rw [readTuple]
  match hitems : r.items with
  | [] =>
      have hitem := nextItem_end 0 r.lead rest
      have htail : r.tail ++ rest = r.lead.chars ++ ']' :: rest := by
        simp [Row.tail, hitems, commaSeparated]
      rw [criterion?_of_short (by simp [hitems]), htail, hitem]
      exact ⟨_, rfl⟩
  | [p] =>
      have hp := p.value.settles_readText Gap.empty (listRest p.after [] rest)
      rw [criterion?_of_short (by simp [hitems]), Row.tail_cons hitems, nextItem_first]
      refine hp.stops fun property => ⟨⟨.invalidLength 1, rest, 0⟩, ?_⟩
      show (nextItem 1 (p.after.chars ++ ']' :: rest) >>= _) = _
      rw [nextItem_end]
      rfl
  | [p, o] =>
      have hp := p.value.settles_readText Gap.empty (listRest p.after [o] rest)
      have ho := o.value.settles_readText Gap.empty (listRest o.after [] rest)
      rw [criterion?_of_short (by simp [hitems]), Row.tail_cons hitems, nextItem_first]
      refine hp.stops ?_
      intro property
      show ∃ stop, (nextItem 1 (listRest p.after [o] rest) >>= _) = _
      rw [listRest_cons, nextItem_next]
      refine ho.stops fun operator => ⟨⟨.invalidLength 2, rest, 0⟩, ?_⟩
      show (nextItem 2 (o.after.chars ++ ']' :: rest) >>= _) = _
      rw [nextItem_end]
      rfl
  | p :: o :: v :: more =>
      have hp := p.value.settles_readText Gap.empty (listRest p.after (o :: v :: more) rest)
      have ho := o.value.settles_readText Gap.empty (listRest o.after (v :: more) rest)
      rw [criterion?_cons hitems, Row.tail_cons hitems, nextItem_first]
      refine hp.bind ?_
      intro property hproperty
      show Settles _ (nextItem 1 (listRest p.after (o :: v :: more) rest) >>= _) rest
      rw [listRest_cons, nextItem_next]
      refine ho.bind ?_
      intro operator hoperator
      show Settles _ (nextItem 2 (listRest o.after (v :: more) rest) >>= _) rest
      rw [listRest_cons, nextItem_next]
      exact settles_last v more property operator room rest

/-! ## Elements and payloads -/

theorem Element.eq_cons (e : Element) (rest : List Char) :
    ∃ c cs, e.chars ++ rest = c :: cs ∧ Starts c := by
  cases e with
  | object o => exact ⟨'\x7b', _, rfl, ⟨by decide, by decide, by decide, by decide⟩⟩
  | list r => exact ⟨'[', _, rfl, ⟨by decide, by decide, by decide, by decide⟩⟩
  | scalar s => exact (Item.scalar s).eq_cons rest

theorem Element.skipSpace_chars (e : Element) (rest : List Char) :
    skipSpace (e.chars ++ rest) = e.chars ++ rest := by
  obtain ⟨c, cs, hcons, hc⟩ := e.eq_cons rest
  rw [hcons, skipSpace_cons hc.notSpace]

theorem Scalar.ne_bracket (s : Scalar) {c : Char} {cs : List Char} (h : s.chars = c :: cs) :
    c ≠ '\x7b' ∧ c ≠ '[' := by
  cases s with
  | null => cases h; decide
  | bool b => cases b <;> cases h <;> decide
  | text q => cases h; decide
  | number n =>
      obtain ⟨d, ds, hcons, hd⟩ := n.chars_eq_cons
      rw [Scalar.chars, hcons] at h
      cases h
      rcases hd with rfl | hd
      · decide
      · exact ⟨ne_of_isDigit hd rfl, ne_of_isDigit hd rfl⟩

/-- A reader of criteria settles every element, while there is room for one more level. -/
theorem Element.settles_readCriterion (e : Element) {room : Nat} (hroom : 1 < room)
    (rest : List Char) : Settles e.criterion? (readCriterion room (e.chars ++ rest)) rest := by
  have hdeep : ¬ room ≤ 1 := Nat.not_le.2 hroom
  rw [readCriterion, e.skipSpace_chars]
  cases e with
  | object o =>
      show Settles _ (if room ≤ 1 then _ else readObject (room - 1) (o.tail ++ rest)) rest
      rw [if_neg hdeep]
      exact o.settles_readObject (room - 1) rest
  | list r =>
      show Settles _ (if room ≤ 1 then _ else readTuple (room - 1) (r.tail ++ rest)) rest
      rw [if_neg hdeep]
      exact r.settles_readTuple (room - 1) rest
  | scalar s =>
      obtain ⟨c, cs, hcons, -⟩ := s.chars_eq_cons
      obtain ⟨hbrace, hbracket⟩ := s.ne_bracket hcons
      rw [Element.chars, hcons]
      simp only [List.cons_append, if_neg hbrace, if_neg hbracket]
      exact refuse_error .criterion _

theorem nextCriterion_end (first : Bool) (g : Gap) (rest : List Char) :
    nextCriterion first (g.chars ++ ']' :: rest) = .ok (.done rest) := by
  rw [nextCriterion, skipSpace_gap]
  rfl

theorem nextCriterion_first (e : Element) (lead before : Gap) (rest : List Char) :
    nextCriterion true (lead.chars ++ (before.chars ++ (e.chars ++ rest))) =
      .ok (.criterion (e.chars ++ rest)) := by
  obtain ⟨c, cs, hcons, hc⟩ := e.eq_cons rest
  rw [nextCriterion, skipSpace_gap, skipSpace_gap, e.skipSpace_chars, hcons]
  exact if_neg hc.notBracket

theorem nextCriterion_next (e : Element) (after before : Gap) (rest : List Char) :
    nextCriterion false (after.chars ++ ',' :: (before.chars ++ (e.chars ++ rest))) =
      .ok (.criterion (e.chars ++ rest)) := by
  obtain ⟨c, cs, hcons, hc⟩ := e.eq_cons rest
  rw [nextCriterion, skipSpace_gap, skipSpace_cons (by decide)]
  simp [hcons, skipSpace_cons hc.notSpace, hc.notBracket]

/-- One element, and then the elements behind it. -/
theorem settles_readCriteria_cons {room fuel : Nat} {first : Bool} {cs more rest : List Char}
    {p : Place} {ps : List Place} (hroom : 1 < room)
    (hnext : nextCriterion first cs = .ok (.criterion (p.element.chars ++ more)))
    (hmore : Settles (ps.mapM fun p => p.element.criterion?) (readCriteria room fuel false more)
      rest) :
    Settles ((p :: ps).mapM fun p => p.element.criterion?)
      (readCriteria room (fuel + 1) first cs) rest := by
  rw [readCriteria, hnext, List.mapM_cons]
  refine (p.element.settles_readCriterion hroom more).bind ?_
  intro criterion hcriterion
  have hcriteria := hmore.map (criterion :: ·)
  rw [Option.map_eq_bind] at hcriteria
  exact hcriteria

/-- The elements behind the first ones of a payload. -/
theorem settles_readCriteria {room : Nat} (hroom : 1 < room) (ps : List Place) (fuel : Nat)
    (hfuel : ps.length ≤ fuel) (g : Gap) (rest : List Char) :
    Settles (ps.mapM fun p => p.element.criterion?)
      (readCriteria room (fuel + 1) false
        (g.chars ++ ((ps.map Place.chars).flatMap (',' :: ·) ++ ']' :: rest))) rest := by
  induction ps generalizing fuel g with
  | nil =>
      have hend := nextCriterion_end false g rest
      show (nextCriterion false (g.chars ++ ']' :: rest) >>= _) = _
      rw [hend]
      rfl
  | cons p ps ih =>
      obtain ⟨fuel, rfl⟩ := Nat.exists_eq_add_of_le' (Nat.le_of_add_left_le hfuel)
      have hmore := ih fuel (Nat.le_of_succ_le_succ hfuel) p.after
      refine settles_readCriteria_cons hroom ?_ hmore
      simp only [List.map_cons, List.flatMap_cons, List.cons_append, List.append_assoc,
        Place.chars]
      exact nextCriterion_next p.element g p.before _

namespace Document

/-- The text of a payload behind its bracket. -/
def tail (d : Document) : List Char :=
  d.lead.chars ++ (commaSeparated (d.places.map Place.chars) ++ [']'])

theorem settles_readCriteria_tail (d : Document) :
    Settles d.criteria? (readCriteria (maxNesting - 1) (d.tail.length + 1) true d.tail) [] := by
  have hroom : 1 < maxNesting - 1 := by decide
  rw [criteria?]
  cases hplaces : d.places with
  | nil =>
      have htail : d.tail = d.lead.chars ++ [']'] := by simp [tail, hplaces, commaSeparated]
      have hend := nextCriterion_end true d.lead []
      rw [htail, readCriteria, hend]
      rfl
  | cons p ps =>
      have htail : d.tail = d.lead.chars ++ (p.before.chars ++ (p.element.chars ++
          (p.after.chars ++ ((ps.map Place.chars).flatMap (',' :: ·) ++ [']'])))) := by
        simp [tail, hplaces, commaSeparated, Place.chars]
      have hlength := length_le_flatMap_comma (ps.map Place.chars)
      obtain ⟨fuel, hfuel⟩ := Nat.exists_eq_add_of_le' (show 1 ≤ d.tail.length by
        rw [htail]
        simp only [List.length_append, List.length_cons]
        omega)
      have hmore := settles_readCriteria hroom ps fuel (by
        rw [htail] at hfuel
        simp only [List.length_append, List.length_cons, List.length_map] at hlength hfuel
        omega) p.after []
      rw [hfuel, htail]
      exact settles_readCriteria_cons hroom (nextCriterion_first p.element d.lead p.before _) hmore

/-- The reader of payloads finds the criteria that a payload stands for, or stops. -/
theorem readPayload_chars (d : Document) :
    (∀ cs, d.criteria? = some cs → readPayload d.chars = .ok cs) ∧
      (d.criteria? = none → ∃ stop, readPayload d.chars = .error stop) := by
  have hread := d.settles_readCriteria_tail
  constructor
  · intro cs hcs
    rw [hcs] at hread
    show (readCriteria (maxNesting - 1) (d.tail.length + 1) true d.tail >>= _) = _
    rw [hread]
    rfl
  · intro hnone
    rw [hnone] at hread
    obtain ⟨stop, hstop⟩ := hread
    refine ⟨stop, ?_⟩
    show (readCriteria (maxNesting - 1) (d.tail.length + 1) true d.tail >>= _) = _
    rw [hstop]
    rfl

/-- A payload is parsed to the criteria that it stands for. -/
theorem parse_chars (d : Document) :
    (∀ cs, d.criteria? = some cs → parse d.chars = .ok cs) ∧
      (d.criteria? = none → ∃ fault, parse d.chars = .error fault) := by
  obtain ⟨hsome, hnone⟩ := d.readPayload_chars
  constructor
  · intro cs hcs
    rw [parse, hsome cs hcs]
    rfl
  · intro h
    obtain ⟨stop, hstop⟩ := hnone h
    rw [parse, hstop]
    exact ⟨_, rfl⟩

end Document

end Criteria.Payload
