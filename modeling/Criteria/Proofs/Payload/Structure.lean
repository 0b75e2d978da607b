import Criteria.Proofs.Payload.Accepted
import Criteria.Proofs.Payload.Limits

set_option autoImplicit false

/-! # The structure of accepted payloads

A payload that is read without a fault is the text of a `Document`: a list whose elements are
objects, or lists of three items (`exists_document_of_readPayload`). So what is known of written
payloads holds of every payload that is accepted. -/

namespace Criteria.Payload

/-! ## Values -/

/-- What the readers that skip values accept, with some fuel: texts of their forms, where blanks may
stand in front of a value, or of what follows an item or a member. -/
structure Accepts (fuel : Nat) : Prop where
  value : ∀ cs rest, Passing.skipped.value fuel cs = .ok rest →
    ∃ (g : Gap) (v : List Char), cs = g.chars ++ (v ++ rest) ∧ Written .value v
  items : ∀ cs rest, Passing.skipped.items fuel true cs = .ok rest →
    ∃ t, cs = t ++ rest ∧ Written .items t
  moreItems : ∀ cs rest, Passing.skipped.items fuel false cs = .ok rest →
    ∃ (g : Gap) (t : List Char), cs = g.chars ++ (t ++ rest) ∧ Written .moreItems t
  members : ∀ cs rest, Passing.skipped.members fuel true cs = .ok rest →
    ∃ t, cs = t ++ rest ∧ Written .members t
  moreMembers : ∀ cs rest, Passing.skipped.members fuel false cs = .ok rest →
    ∃ (g : Gap) (t : List Char), cs = g.chars ++ (t ++ rest) ∧ Written .moreMembers t
  member : ∀ cs rest, Passing.skipped.member fuel cs = .ok rest →
    ∃ (key : Key) (v : List Char), cs = key.chars ++ (v ++ rest) ∧ Written .value v

namespace Accepts

variable {fuel : Nat} {cs rest : List Char}

/-- A value is told by its first character. -/
theorem value_step (ih : Accepts fuel) (h : Passing.skipped.value (fuel + 1) cs = .ok rest) :
    ∃ (g : Gap) (v : List Char), cs = g.chars ++ (v ++ rest) ∧ Written .value v := by
  rw [Passing.value] at h
  split at h
  · cases h
  · next c after hc =>
      obtain ⟨g, rfl⟩ := exists_gap hc
      refine ⟨g, ?_⟩
      simp only [List.append_cancel_left_eq]
      split at h
      · next hnull =>
          rw [hnull, eq_append_of_readWord h]
          exact ⟨_, rfl, .scalar .null⟩
      split at h
      · next htrue =>
          rw [htrue, eq_append_of_readWord h]
          exact ⟨_, rfl, .scalar (.bool true)⟩
      split at h
      · next hfalse =>
          rw [hfalse, eq_append_of_readWord h]
          exact ⟨_, rfl, .scalar (.bool false)⟩
      split at h
      · next hminus =>
          obtain ⟨n, hn, rfl⟩ := exists_numeral_of_skipNumber true h
          refine ⟨n.chars, ?_, .scalar (.number n)⟩
          rw [hminus, Numeral.chars_of_negative hn, List.cons_append]
      split at h
      · obtain ⟨n, hn, hbody⟩ := exists_numeral_of_skipNumber false h
        refine ⟨n.chars, ?_, .scalar (.number n)⟩
        rw [hbody, Numeral.chars_of_not_negative hn]
      split at h
      · next hquote =>
          obtain ⟨q, rfl⟩ := exists_quoted_of_skipChars h
          rw [hquote]
          exact ⟨_, rfl, .scalar (.text q)⟩
      split at h
      · next hbracket =>
          obtain ⟨t, rfl, ht⟩ := ih.items _ _ h
          rw [hbracket]
          exact ⟨_, rfl, .list ht⟩
      split at h
      · next hbrace =>
          obtain ⟨t, rfl, ht⟩ := ih.members _ _ h
          rw [hbrace]
          exact ⟨_, rfl, .object ht⟩
      · cases h

theorem items_step (ih : Accepts fuel) (h : Passing.skipped.items (fuel + 1) true cs = .ok rest) :
    ∃ t, cs = t ++ rest ∧ Written .items t := by
  rw [Passing.items] at h
  split at h
  · cases h
  · next c after hc =>
      obtain ⟨g, rfl⟩ := exists_gap hc
      split at h
      · next hbracket =>
          cases h
          rw [hbracket]
          exact ⟨_, by simp, .noItems g⟩
      · obtain ⟨mid, hvalue, hmore⟩ := bind_eq_ok.1 h
        obtain ⟨before, v, heq, hv⟩ := ih.value _ _ hvalue
        obtain ⟨after, t, rfl, ht⟩ := ih.moreItems _ _ hmore
        exact ⟨_, by rw [heq]; simp [Gap.append], .items (g.append before) after hv ht⟩

theorem moreItems_step (ih : Accepts fuel)
    (h : Passing.skipped.items (fuel + 1) false cs = .ok rest) :
    ∃ (g : Gap) (t : List Char), cs = g.chars ++ (t ++ rest) ∧ Written .moreItems t := by
  rw [Passing.items] at h
  split at h
  · cases h
  · next c after hc =>
      obtain ⟨g, rfl⟩ := exists_gap hc
      refine ⟨g, ?_⟩
      split at h
      · next hbracket =>
          cases h
          rw [hbracket]
          exact ⟨_, rfl, .endItems⟩
      · simp only [Bool.false_eq_true, if_false] at h
        split at h
        · next hcomma =>
            obtain ⟨-, -, h⟩ := bind_eq_ok.1 h
            obtain ⟨mid, hvalue, hmore⟩ := bind_eq_ok.1 h
            obtain ⟨before, v, rfl, hv⟩ := ih.value _ _ hvalue
            obtain ⟨after, t, rfl, ht⟩ := ih.moreItems _ _ hmore
            rw [hcomma]
            exact ⟨_, by simp, .moreItems before after hv ht⟩
        · cases h

theorem members_step (ih : Accepts fuel)
    (h : Passing.skipped.members (fuel + 1) true cs = .ok rest) :
    ∃ t, cs = t ++ rest ∧ Written .members t := by
  rw [Passing.members] at h
  split at h
  · cases h
  · next c after hc =>
      obtain ⟨g, rfl⟩ := exists_gap hc
      split at h
      · next hbrace =>
          cases h
          rw [hbrace]
          exact ⟨_, by simp, .noMembers g⟩
      · obtain ⟨mid, hmember, hmore⟩ := bind_eq_ok.1 h
        obtain ⟨key, v, heq, hv⟩ := ih.member _ _ hmember
        obtain ⟨after, t, rfl, ht⟩ := ih.moreMembers _ _ hmore
        refine ⟨_, ?_, .members { key with before := g.append key.before } after hv ht⟩
        rw [heq]
        simp [Key.chars, Gap.append]

theorem moreMembers_step (ih : Accepts fuel)
    (h : Passing.skipped.members (fuel + 1) false cs = .ok rest) :
    ∃ (g : Gap) (t : List Char), cs = g.chars ++ (t ++ rest) ∧ Written .moreMembers t := by
  rw [Passing.members] at h
  split at h
  · cases h
  · next c after hc =>
      obtain ⟨g, rfl⟩ := exists_gap hc
      refine ⟨g, ?_⟩
      split at h
      · next hbrace =>
          cases h
          rw [hbrace]
          exact ⟨_, rfl, .endMembers⟩
      · simp only [Bool.false_eq_true, if_false] at h
        split at h
        · next hcomma =>
            obtain ⟨-, -, h⟩ := bind_eq_ok.1 h
            obtain ⟨mid, hmember, hmore⟩ := bind_eq_ok.1 h
            obtain ⟨key, v, rfl, hv⟩ := ih.member _ _ hmember
            obtain ⟨after, t, rfl, ht⟩ := ih.moreMembers _ _ hmore
            rw [hcomma]
            exact ⟨_, by simp, .moreMembers key after hv ht⟩
        · cases h

theorem member_step (ih : Accepts fuel) (h : Passing.skipped.member (fuel + 1) cs = .ok rest) :
    ∃ (key : Key) (v : List Char), cs = key.chars ++ (v ++ rest) ∧ Written .value v := by
  rw [Passing.member] at h
  split at h
  · cases h
  · next c after hc =>
      obtain ⟨before, rfl⟩ := exists_gap hc
      split at h
      · next hquote =>
          obtain ⟨mid, hname, hafter⟩ := bind_eq_ok.1 h
          obtain ⟨name, rfl⟩ := exists_quoted_of_skipChars hname
          split at hafter
          · cases hafter
          · next d tail hd =>
              obtain ⟨beforeColon, rfl⟩ := exists_gap hd
              split at hafter
              · next hcolon =>
                  obtain ⟨afterColon, v, rfl, hv⟩ := ih.value _ _ hafter
                  refine ⟨⟨before, name, beforeColon, afterColon⟩, v, ?_, hv⟩
                  rw [hquote, hcolon]
                  simp [Key.chars]
              · cases hafter
      · cases h

end Accepts

/-- A reader without fuel accepts nothing, and each part of a value is read with less fuel. -/
theorem accepts (fuel : Nat) : Accepts fuel := by
  induction fuel with
  | zero =>
      refine ⟨?_, ?_, ?_, ?_, ?_, ?_⟩ <;> intro cs rest h
      · rw [Passing.value] at h
        cases h
      · rw [Passing.items] at h
        cases h
      · rw [Passing.items] at h
        cases h
      · rw [Passing.members] at h
        cases h
      · rw [Passing.members] at h
        cases h
      · rw [Passing.member] at h
        cases h
  | succ fuel ih =>
      exact ⟨fun _ _ => ih.value_step, fun _ _ => ih.items_step, fun _ _ => ih.moreItems_step,
        fun _ _ => ih.members_step, fun _ _ => ih.moreMembers_step, fun _ _ => ih.member_step⟩

theorem exists_written_of_skipValue {cs rest : List Char} (h : skipValue cs = .ok rest) :
    ∃ (g : Gap) (v : List Char), cs = g.chars ++ (v ++ rest) ∧ Written .value v :=
  (accepts _).value _ _ h

/-- A written value is a scalar, a list or an object. -/
theorem Written.exists_item {v : List Char} (h : Written .value v) : ∃ i : Item, i.chars = v := by
  cases h with
  | scalar s => exact ⟨.scalar s, rfl⟩
  | list h => exact ⟨.list _ h, rfl⟩
  | object h => exact ⟨.object _ h, rfl⟩

/-! ## Parts of criteria -/

theorem refuse_ne_ok {α : Type} (expected : Expected) (cs : List Char) (a : α) :
    refuse expected cs ≠ .ok a := by
  obtain ⟨stop, hstop⟩ := refuse_error (α := α) expected cs
  simp [hstop]

theorem exists_item_of_readText {cs rest : List Char} {text : String}
    (h : readText cs = .ok (text, rest)) :
    ∃ (g : Gap) (i : Item), cs = g.chars ++ (i.chars ++ rest) := by
  rw [readText] at h
  split at h
  · cases h
  · next c after hc =>
      obtain ⟨g, rfl⟩ := exists_gap hc
      split at h
      · next hquote =>
          obtain ⟨⟨es, mid⟩, hread, h⟩ := bind_eq_ok.1 h
          cases h
          obtain ⟨q, rfl⟩ := exists_quoted_of_readChars hread
          rw [hquote]
          exact ⟨g, .scalar (.text q), rfl⟩
      · exact absurd h (refuse_ne_ok _ _ _)

/-- A literal that is read is a scalar; a list or an object gives none. -/
theorem exists_item_of_readLiteral {room : Nat} {cs rest : List Char} {l : Literal}
    (h : readLiteral room cs = .ok (some l, rest)) :
    ∃ (g : Gap) (i : Item), cs = g.chars ++ (i.chars ++ rest) := by
  rw [readLiteral] at h
  split at h
  · cases h
  · next c after hc =>
      obtain ⟨g, rfl⟩ := exists_gap hc
      refine ⟨g, ?_⟩
      split at h
      · next hnull =>
          obtain ⟨mid, hread, h⟩ := bind_eq_ok.1 h
          cases h
          rw [hnull, eq_append_of_readWord hread]
          exact ⟨.scalar .null, rfl⟩
      split at h
      · next htrue =>
          obtain ⟨mid, hread, h⟩ := bind_eq_ok.1 h
          cases h
          rw [htrue, eq_append_of_readWord hread]
          exact ⟨.scalar (.bool true), rfl⟩
      split at h
      · next hfalse =>
          obtain ⟨mid, hread, h⟩ := bind_eq_ok.1 h
          cases h
          rw [hfalse, eq_append_of_readWord hread]
          exact ⟨.scalar (.bool false), rfl⟩
      split at h
      · next hminus =>
          obtain ⟨⟨x, mid⟩, hread, h⟩ := bind_eq_ok.1 h
          cases h
          obtain ⟨n, hn, rfl⟩ := exists_numeral_of_readNumber hread
          refine ⟨.scalar (.number n), ?_⟩
          rw [hminus, Item.chars, Scalar.chars, Numeral.chars_of_negative hn, List.cons_append]
      split at h
      · obtain ⟨⟨x, mid⟩, hread, h⟩ := bind_eq_ok.1 h
        cases h
        obtain ⟨n, hn, hbody⟩ := exists_numeral_of_readNumber hread
        refine ⟨.scalar (.number n), ?_⟩
        rw [hbody, Item.chars, Scalar.chars, Numeral.chars_of_not_negative hn]
      split at h
      · next hquote =>
          obtain ⟨⟨es, mid⟩, hread, h⟩ := bind_eq_ok.1 h
          cases h
          obtain ⟨q, rfl⟩ := exists_quoted_of_readChars hread
          rw [hquote]
          exact ⟨.scalar (.text q), rfl⟩
      split at h
      · obtain ⟨mid, -, h⟩ := bind_eq_ok.1 h
        cases h
      · cases h

/-! ## Objects -/

theorem exists_gap_of_afterColon {cs rest : List Char} (h : afterColon cs = .ok rest) :
    ∃ g : Gap, cs = g.chars ++ ':' :: rest := by
  unfold afterColon at h
  split at h
  · cases h
  · next c after hc =>
      obtain ⟨g, rfl⟩ := exists_gap hc
      split at h
      · next hcolon =>
          cases h
          exact ⟨g, by rw [hcolon]⟩
      · cases h

/-- Behind a key stand a colon and a value, whatever the key means. -/
theorem exists_item_of_readMember {room : Nat} {parts parts' : Parts} {key : String}
    {cs rest : List Char} (h : readMember room parts key cs = .ok (parts', rest)) :
    ∃ (g g' : Gap) (i : Item), cs = g.chars ++ ':' :: (g'.chars ++ (i.chars ++ rest)) := by
  rw [readMember] at h
  split at h
  · obtain ⟨mid, hcolon, h⟩ := bind_eq_ok.1 h
    obtain ⟨rest', hskip, h⟩ := bind_eq_ok.1 h
    cases h
    obtain ⟨g, rfl⟩ := exists_gap_of_afterColon hcolon
    obtain ⟨g', v, rfl, hv⟩ := exists_written_of_skipValue hskip
    obtain ⟨i, rfl⟩ := hv.exists_item
    exact ⟨g, g', i, rfl⟩
  · next m hm =>
      split at h
      · cases h
      · obtain ⟨mid, hcolon, hpart⟩ := bind_eq_ok.1 h
        obtain ⟨g, rfl⟩ := exists_gap_of_afterColon hcolon
        have hitem : ∃ (g' : Gap) (i : Item), mid = g'.chars ++ (i.chars ++ rest) := by
          cases m with
          | property =>
              obtain ⟨⟨text, mid'⟩, hread, hend⟩ := bind_eq_ok.1 hpart
              cases hend
              exact exists_item_of_readText hread
          | operator =>
              obtain ⟨⟨text, mid'⟩, hread, hend⟩ := bind_eq_ok.1 hpart
              cases hend
              exact exists_item_of_readText hread
          | value =>
              obtain ⟨⟨l, mid'⟩, hread, hend⟩ := bind_eq_ok.1 hpart
              cases l with
              | none => cases hend
              | some l =>
                  cases hend
                  exact exists_item_of_readLiteral hread
        obtain ⟨g', i, rfl⟩ := hitem
        exact ⟨g, g', i, rfl⟩

theorem exists_entry_of_readEntry {room : Nat} {parts parts' : Parts} {cs rest : List Char}
    (h : readEntry room parts cs = .ok (parts', rest)) :
    ∃ (k : Key) (i : Item), cs = k.chars ++ (i.chars ++ rest) := by
  rw [readEntry] at h
  split at h
  · cases h
  · next c after hc =>
      obtain ⟨before, rfl⟩ := exists_gap hc
      split at h
      · next hquote =>
          obtain ⟨⟨key, mid⟩, hread, hmember⟩ := bind_eq_ok.1 h
          obtain ⟨name, rfl⟩ := exists_quoted_of_readChars hread
          obtain ⟨g, g', i, rfl⟩ := exists_item_of_readMember hmember
          refine ⟨⟨before, name, g, g'⟩, i, ?_⟩
          rw [hquote]
          simp [Key.chars]
      · split at h
        · cases h
        · cases h

theorem exists_entries_of_readEntries {room fuel : Nat} {parts : Parts} {c : Criterion}
    {cs rest : List Char} (h : readEntries room fuel parts cs = .ok (c, rest)) :
    ∃ (g : Gap) (es : List Entry),
      cs = g.chars ++ ((es.map Entry.chars).flatMap (',' :: ·) ++ '\x7d' :: rest) := by
  induction fuel generalizing parts cs with
  | zero => cases h
  | succ fuel ih =>
      rw [readEntries] at h
      split at h
      · cases h
      · next d after hd =>
          obtain ⟨g, rfl⟩ := exists_gap hd
          refine ⟨g, ?_⟩
          split at h
          · next hbrace =>
              split at h
              · cases h
                rw [hbrace]
                exact ⟨[], rfl⟩
              · cases h
          · split at h
            · next hcomma =>
                obtain ⟨⟨parts', mid⟩, hentry, hmore⟩ := bind_eq_ok.1 h
                obtain ⟨k, i, rfl⟩ := exists_entry_of_readEntry hentry
                obtain ⟨g', es, rfl⟩ := ih hmore
                refine ⟨⟨k, i, g'⟩ :: es, ?_⟩
                rw [hcomma]
                simp [Entry.chars]
            · cases h

/-- An object that is read as a criterion. -/
theorem exists_object_of_readObject {room : Nat} {c : Criterion} {cs rest : List Char}
    (h : readObject room cs = .ok (c, rest)) : ∃ o : Object, cs = o.tail ++ rest := by
  rw [readObject] at h
  split at h
  · cases h
  · next d after hd =>
      obtain ⟨lead, rfl⟩ := exists_gap hd
      split at h
      · cases h
      · split at h
        · obtain ⟨⟨parts, mid⟩, hentry, hmore⟩ := bind_eq_ok.1 h
          obtain ⟨k, i, heq⟩ := exists_entry_of_readEntry hentry
          obtain ⟨g, es, rfl⟩ := exists_entries_of_readEntries hmore
          refine ⟨⟨lead, ⟨k, i, g⟩ :: es⟩, ?_⟩
          rw [heq]
          simp [Object.tail, commaSeparated, Entry.chars]
        · cases h

/-! ## Lists -/

/-- In front of an item stands a comma, unless it is the first. -/
theorem exists_gaps_of_nextItem {count : Nat} {cs rest : List Char}
    (h : nextItem count cs = .ok rest) :
    if count = 0 then ∃ g : Gap, cs = g.chars ++ rest
    else ∃ g g' : Gap, cs = g.chars ++ ',' :: (g'.chars ++ rest) := by
  unfold nextItem at h
  split at h
  · cases h
  · next c after hc =>
      obtain ⟨g, rfl⟩ := exists_gap hc
      split at h
      · cases h
      · split at h
        · next hcount =>
            cases h
            rw [if_pos hcount]
            exact ⟨g, rfl⟩
        · next hcount =>
            rw [if_neg hcount]
            split at h
            · next hcomma =>
                split at h
                · cases h
                · next d tail hd =>
                    obtain ⟨g', rfl⟩ := exists_gap hd
                    split at h
                    · cases h
                    · cases h
                      exact ⟨g, g', by rw [hcomma]⟩
            · cases h

theorem exists_gap_of_endList {cs rest : List Char} (h : endList cs = .ok rest) :
    ∃ g : Gap, cs = g.chars ++ ']' :: rest := by
  unfold endList at h
  split at h
  · cases h
  · next c after hc =>
      obtain ⟨g, rfl⟩ := exists_gap hc
      split at h
      · next hbracket =>
          cases h
          exact ⟨g, by rw [hbracket]⟩
      · split at h
        · split at h
          · cases h
          · cases h
        · cases h

/-- A list that is read as a criterion has three items. -/
theorem exists_row_of_readTuple {room : Nat} {c : Criterion} {cs rest : List Char}
    (h : readTuple room cs = .ok (c, rest)) : ∃ r : Row, cs = r.tail ++ rest := by
  rw [readTuple] at h
  obtain ⟨cs₁, hnext₁, h⟩ := bind_eq_ok.1 h
  obtain ⟨⟨property, cs₂⟩, hproperty, h⟩ := bind_eq_ok.1 h
  obtain ⟨cs₃, hnext₂, h⟩ := bind_eq_ok.1 h
  obtain ⟨⟨operator, cs₄⟩, hoperator, h⟩ := bind_eq_ok.1 h
  obtain ⟨cs₅, hnext₃, h⟩ := bind_eq_ok.1 h
  obtain ⟨⟨l, cs₆⟩, hvalue, h⟩ := bind_eq_ok.1 h
  cases l with
  | none => cases h
  | some l =>
      obtain ⟨rest', hend, h⟩ := bind_eq_ok.1 h
      cases h
      obtain ⟨lead, rfl⟩ := exists_gaps_of_nextItem hnext₁
      obtain ⟨before₁, i₁, rfl⟩ := exists_item_of_readText hproperty
      obtain ⟨after₁, g₂, rfl⟩ := exists_gaps_of_nextItem hnext₂
      obtain ⟨before₂, i₂, rfl⟩ := exists_item_of_readText hoperator
      obtain ⟨after₂, g₃, rfl⟩ := exists_gaps_of_nextItem hnext₃
      obtain ⟨before₃, i₃, rfl⟩ := exists_item_of_readLiteral hvalue
      obtain ⟨after₃, rfl⟩ := exists_gap_of_endList hend
      refine ⟨⟨lead, [⟨before₁, i₁, after₁⟩, ⟨g₂.append before₂, i₂, after₂⟩,
        ⟨g₃.append before₃, i₃, after₃⟩]⟩, ?_⟩
      simp [Row.tail, commaSeparated, Spaced.chars, Gap.append]

/-! ## Payloads -/

theorem exists_element_of_readCriterion {room : Nat} {c : Criterion} {cs rest : List Char}
    (h : readCriterion room cs = .ok (c, rest)) :
    ∃ (g : Gap) (e : Element), cs = g.chars ++ (e.chars ++ rest) := by
  rw [readCriterion] at h
  split at h
  · cases h
  · next d after hd =>
      obtain ⟨g, rfl⟩ := exists_gap hd
      refine ⟨g, ?_⟩
      split at h
      · next hbrace =>
          split at h
          · cases h
          · obtain ⟨o, rfl⟩ := exists_object_of_readObject h
            rw [hbrace]
            exact ⟨.object o, rfl⟩
      · split at h
        · next hbracket =>
            split at h
            · cases h
            · obtain ⟨r, rfl⟩ := exists_row_of_readTuple h
              rw [hbracket]
              exact ⟨.list r, rfl⟩
        · exact absurd h (refuse_ne_ok _ _ _)

/-- What comes next in the list of criteria: its end, or an element behind a comma, unless it is the
first. -/
def Next.Follows (first : Bool) (cs : List Char) : Next → Prop
  | .done rest => ∃ g : Gap, cs = g.chars ++ ']' :: rest
  | .criterion rest =>
      if first = true then ∃ g : Gap, cs = g.chars ++ rest
      else ∃ g g' : Gap, cs = g.chars ++ ',' :: (g'.chars ++ rest)

theorem follows_of_nextCriterion {first : Bool} {cs : List Char} {next : Next}
    (h : nextCriterion first cs = .ok next) : next.Follows first cs := by
  unfold nextCriterion at h
  split at h
  · cases h
  · next c after hc =>
      obtain ⟨g, rfl⟩ := exists_gap hc
      split at h
      · next hbracket =>
          cases h
          exact ⟨g, by rw [hbracket]⟩
      · split at h
        · next hfirst =>
            cases h
            rw [Next.Follows, if_pos hfirst]
            exact ⟨g, rfl⟩
        · next hfirst =>
            split at h
            · next hcomma =>
                split at h
                · cases h
                · next d tail hd =>
                    obtain ⟨g', rfl⟩ := exists_gap hd
                    split at h
                    · cases h
                    · cases h
                      rw [Next.Follows, if_neg hfirst]
                      exact ⟨g, g', by rw [hcomma]⟩
            · cases h

/-- The elements behind the first ones of a payload. -/
theorem exists_places_of_readCriteria {room fuel : Nat} {cs rest : List Char}
    {criteria : List Criterion} (h : readCriteria room fuel false cs = .ok (criteria, rest)) :
    ∃ (g : Gap) (ps : List Place),
      cs = g.chars ++ ((ps.map Place.chars).flatMap (',' :: ·) ++ ']' :: rest) := by
  induction fuel generalizing cs criteria with
  | zero => cases h
  | succ fuel ih =>
      rw [readCriteria] at h
      obtain ⟨next, hnext, h⟩ := bind_eq_ok.1 h
      have hgaps := follows_of_nextCriterion hnext
      cases next with
      | done rest' =>
          cases h
          obtain ⟨g, rfl⟩ := hgaps
          exact ⟨g, [], rfl⟩
      | criterion mid =>
          obtain ⟨⟨c, mid'⟩, hcriterion, h⟩ := bind_eq_ok.1 h
          obtain ⟨⟨more, rest'⟩, hmore, h⟩ := bind_eq_ok.1 h
          cases h
          obtain ⟨g, g', rfl⟩ := hgaps
          obtain ⟨before, e, rfl⟩ := exists_element_of_readCriterion hcriterion
          obtain ⟨after, ps, rfl⟩ := ih hmore
          exact ⟨g, ⟨g'.append before, e, after⟩ :: ps, by simp [Place.chars, Gap.append]⟩

/-- All elements of a payload. -/
theorem exists_tail_of_readCriteria {room fuel : Nat} {cs rest : List Char}
    {criteria : List Criterion} (h : readCriteria room fuel true cs = .ok (criteria, rest)) :
    ∃ d : Document, cs = d.tail ++ rest := by
  cases fuel with
  | zero => cases h
  | succ fuel =>
      rw [readCriteria] at h
      obtain ⟨next, hnext, h⟩ := bind_eq_ok.1 h
      have hgaps := follows_of_nextCriterion hnext
      cases next with
      | done rest' =>
          cases h
          obtain ⟨g, rfl⟩ := hgaps
          exact ⟨⟨g, []⟩, by simp [Document.tail, commaSeparated]⟩
      | criterion mid =>
          obtain ⟨⟨c, mid'⟩, hcriterion, h⟩ := bind_eq_ok.1 h
          obtain ⟨⟨more, rest'⟩, hmore, h⟩ := bind_eq_ok.1 h
          cases h
          obtain ⟨lead, rfl⟩ := hgaps
          obtain ⟨before, e, rfl⟩ := exists_element_of_readCriterion hcriterion
          obtain ⟨after, ps, rfl⟩ := exists_places_of_readCriteria hmore
          exact ⟨⟨lead, ⟨before, e, after⟩ :: ps⟩,
            by simp [Document.tail, commaSeparated, Place.chars]⟩

/-- A payload that is read is the text of a document, with blanks around it. -/
theorem exists_document_of_readPayload {cs : List Char} {criteria : List Criterion}
    (h : readPayload cs = .ok criteria) :
    ∃ (g g' : Gap) (d : Document), cs = g.chars ++ (d.chars ++ g'.chars) := by
  rw [readPayload] at h
  split at h
  · cases h
  · next c after hc =>
      obtain ⟨g, rfl⟩ := exists_gap hc
      split at h
      · next hbracket =>
          obtain ⟨⟨cs', mid⟩, hread, hend⟩ := bind_eq_ok.1 h
          obtain ⟨d, rfl⟩ := exists_tail_of_readCriteria hread
          dsimp only at hend
          split at hend
          · next hmid =>
              obtain ⟨g', rfl⟩ := exists_gap hmid
              refine ⟨g, g', d, ?_⟩
              rw [hbracket]
              simp [Document.chars, Document.tail]
          · cases hend
      · exact absurd h (refuse_ne_ok _ _ _)

end Criteria.Payload
