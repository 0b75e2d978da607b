import Criteria.Proofs.Payload.Document
import Criteria.Proofs.Payload.Range
import Mathlib.Data.List.Forall2

set_option autoImplicit false

/-! # Objects and the criteria they carry

An object carries a criterion if it sends each of the three parts exactly once, under any of its
names, and the values sent are of the right types (`Object.Carries`). This says nothing of a reader;
what a reader makes of an object is the same (`Object.criterion?_eq_some_iff`).

Two objects that send the same parts carry the same criterion, in whatever order their members stand,
however the keys are spelled and whatever else the objects hold (`Object.SendsSame`). -/

namespace Criteria.Payload

open Number

/-! ## Integers that are words -/

theorem scaled?_eq_float {negative : Bool} {significand : Nat} {exponent : Int} {x : Numeric}
    (h : scaled? negative significand exponent = some x) : ∃ y, x = .float y := by
  obtain ⟨y, -, rfl⟩ := Option.map_eq_some_iff.1 h
  exact ⟨_, rfl⟩

theorem powered?_eq_float {negative : Bool} {significand : Nat} {point : Int} {p : Option Power}
    {x : Numeric} (h : powered? negative significand point p = some x) : ∃ y, x = .float y := by
  cases p with
  | none => exact scaled?_eq_float h
  | some p =>
      rw [powered?, scaledBy?] at h
      split at h
      · exact scaled?_eq_float h
      · split at h
        · cases h
        · exact ⟨_, (Option.some.inj h).symm⟩

namespace Numeral

/-- The number is written as an integer in the range of words, and not as the negative zero. -/
structure IsWord (n : Numeral) : Prop where
  integer : n.IsInteger
  fits : FitsWord n.toInt
  notNegativeZero : ¬ (n.negative = true ∧ n.magnitude = 0)

/-- The double that a number comes to. -/
def double? (n : Numeral) : Option Binary64 :=
  n.numeric?.map fun
    | .int i => Binary64.ofInt i
    | .float x => x

/-- All digits of an integer fit 64 bits, unless it is beyond the words. -/
theorem takeFitting_of_fitsWord {n : Numeral} (h : FitsWord n.toInt) :
    takeFitting 0 n.whole.chars = (n.magnitude, []) := by
  have hsplit := n.magnitude_eq
  cases hleft : (takeFitting 0 n.whole.chars).2 with
  | nil =>
      have hvalue : (takeFitting 0 n.whole.chars).1 = n.magnitude := by simpa [hleft] using hsplit
      exact Prod.ext hvalue hleft
  | cons d ds =>
      have hfull : UInt64.size ≤ (takeFitting 0 n.whole.chars).1 * 10 + 9 :=
        full_of_takeFitting n.whole.isDigit (by simp [hleft])
      have hsize : UInt64.size = 18446744073709551616 := rfl
      have hmul := Nat.mul_le_mul
        (show 1844674407370955161 ≤ (takeFitting 0 n.whole.chars).1 by omega)
        (pow_ten_mono (show 1 ≤ (d :: ds).length by simp))
      have hten : Nat.pow 10 1 = 10 := rfl
      rw [hleft] at hsplit
      rw [hten] at hmul
      rw [toInt, signed] at h
      split at h
      · omega
      · omega

theorem numeric?_of_isWord {n : Numeral} (h : n.IsWord) : n.numeric? = some (.int n.toInt) := by
  have hfits := h.fits
  have hzero := h.notNegativeZero
  rw [numeric?_of_isInteger h.integer, takeFitting_of_fitsWord h.fits, integer?]
  rw [toInt, signed] at hfits ⊢
  cases hnegative : n.negative with
  | false => simp
  | true =>
      simp only [hnegative, if_true, true_and] at hfits hzero ⊢
      rw [if_neg (by simp), if_neg (by simp), if_neg (by omega)]

/-- A number that is read as an integer is written as one. -/
theorem of_numeric?_eq_int {n : Numeral} {i : Int} (h : n.numeric? = some (.int i)) :
    n.IsInteger ∧ i = n.toInt ∧ ¬ (n.negative = true ∧ n.magnitude = 0) := by
  by_cases hinteger : n.IsInteger
  · rw [numeric?_of_isInteger hinteger, integer?] at h
    have hsplit := n.magnitude_eq
    split at h
    · obtain ⟨y, hy⟩ := scaled?_eq_float h
      cases hy
    · next hleft =>
        -- no digit is left, so the significand is the integer
        have hvalue : (takeFitting 0 n.whole.chars).1 = n.magnitude := by
          rw [List.length_eq_zero_iff.1 (not_not.1 hleft)] at hsplit
          simpa using hsplit
        rw [hvalue] at h
        rw [toInt, signed]
        cases hnegative : n.negative with
        | false =>
            simp only [hnegative, if_true] at h
            cases h
            simp [hinteger]
        | true =>
            simp only [hnegative, Bool.true_eq_false, if_false] at h
            split at h
            · cases h
            · next hfloat =>
                cases h
                simp only [if_true, true_and]
                exact ⟨hinteger, fun hzero => hfloat (Or.inl hzero)⟩
  · rw [numeric?_of_not_isInteger hinteger] at h
    obtain ⟨y, hy⟩ := powered?_eq_float h
    cases hy

end Numeral

/-! ## Literals -/

/-- The literal that a scalar is: nulls, truth values and texts are themselves; a number is a word
if it is written as one, and else a double. -/
inductive Scalar.Stands : Scalar → Literal → Prop where
  | null : Stands .null .null
  | bool (b : Bool) : Stands (.bool b) (.bool b)
  | word {n : Numeral} {w : Int64} (h : n.IsWord) (hw : w.toInt = n.toInt) :
      Stands (.number n) (.int w)
  | double {n : Numeral} {x : Binary64} (h : ¬ n.IsWord) (hx : n.double? = some x) :
      Stands (.number n) (.float x)
  | text {q : Quoted} {s : String} (h : q.text? = some s) : Stands (.text q) (.text s)

theorem stands_number_iff {n : Numeral} {l : Literal} :
    n.numeric?.map literalOfNumber = some l ↔ (Scalar.number n).Stands l := by
  constructor
  · intro h
    obtain ⟨x, hx, rfl⟩ := Option.map_eq_some_iff.1 h
    cases x with
    | float y =>
        refine .double ?_ (by rw [Numeral.double?, hx, Option.map_some])
        intro hword
        rw [Numeral.numeric?_of_isWord hword] at hx
        cases hx
    | int i =>
        obtain ⟨hinteger, rfl, hzero⟩ := Numeral.of_numeric?_eq_int hx
        rw [literalOfNumber]
        split
        · next w hw =>
            have hfits : FitsWord n.toInt := by
              by_contra hnot
              rw [word?_eq_none hnot] at hw
              cases hw
            exact .word ⟨hinteger, hfits, hzero⟩ (word?_eq_some_iff.1 hw)
        · next hnone =>
            refine .double ?_ (by rw [Numeral.double?, hx, Option.map_some])
            intro hword
            rw [word?, if_pos hword.fits] at hnone
            cases hnone
  · intro h
    cases h with
    | word hword hw =>
        rw [Numeral.numeric?_of_isWord hword, Option.map_some, literalOfNumber,
          word?_eq_some_iff.2 hw]
    | double hword hx =>
        obtain ⟨y, hy, rfl⟩ := Option.map_eq_some_iff.1 hx
        rw [hy, Option.map_some]
        cases y with
        | float y => rfl
        | int i =>
            obtain ⟨hinteger, rfl, hzero⟩ := Numeral.of_numeric?_eq_int hy
            have hnone : word? n.toInt = none :=
              word?_eq_none fun hfits => hword ⟨hinteger, hfits, hzero⟩
            rw [literalOfNumber, hnone]

namespace Item

theorem literal?_eq_some_iff {i : Item} {l : Literal} :
    i.literal? = some l ↔ ∃ s, i = .scalar s ∧ s.Stands l := by
  constructor
  · intro h
    match i with
    | .scalar .null =>
        cases h
        exact ⟨_, rfl, .null⟩
    | .scalar (.bool b) =>
        cases h
        exact ⟨_, rfl, .bool b⟩
    | .scalar (.number n) => exact ⟨_, rfl, stands_number_iff.1 h⟩
    | .scalar (.text q) =>
        obtain ⟨s, hs, rfl⟩ := Option.map_eq_some_iff.1 h
        exact ⟨_, rfl, .text hs⟩
    | .list _ _ => cases h
    | .object _ _ => cases h
  · rintro ⟨s, rfl, hs⟩
    cases hs with
    | null => rfl
    | bool b => rfl
    | word h hw => exact stands_number_iff.2 (.word h hw)
    | double h hx => exact stands_number_iff.2 (.double h hx)
    | text h => rw [literal?, h, Option.map_some]

theorem text?_eq_some_iff {i : Item} {t : String} :
    i.text? = some t ↔ ∃ q, i = .scalar (.text q) ∧ q.text? = some t := by
  constructor
  · intro h
    match i with
    | .scalar (.text q) => exact ⟨q, rfl, h⟩
    | .scalar .null => cases h
    | .scalar (.bool _) => cases h
    | .scalar (.number _) => cases h
    | .list _ _ => cases h
    | .object _ _ => cases h
  · rintro ⟨q, rfl, hq⟩
    exact hq

/-- A text is known by its literal. -/
theorem text?_eq (i : Item) :
    i.text? = i.literal?.bind fun
      | .text t => some t
      | _ => none := by
  match i with
  | .scalar .null => rfl
  | .scalar (.bool _) => rfl
  | .scalar (.number n) =>
      change none = (n.numeric?.map literalOfNumber).bind _
      cases n.numeric? with
      | none => rfl
      | some x =>
          cases x with
          | float y => rfl
          | int i =>
              rw [Option.map_some, literalOfNumber]
              cases word? i <;> rfl
  | .scalar (.text q) =>
      rw [text?, literal?]
      cases q.text? <;> rfl
  | .list _ _ => rfl
  | .object _ _ => rfl

/-- A string stands for a text, and a number is as it has to be. -/
def Denotes (ranges : Numeral → Prop) : Item → Prop
  | .scalar (.number n) => ranges n
  | .scalar (.text q) => ∃ s, q.text? = some s
  | _ => True

theorem exists_stands {s : Scalar} (h : (Item.scalar s).Denotes Numeral.InRange) :
    ∃ l, s.Stands l := by
  cases s with
  | null => exact ⟨_, .null⟩
  | bool b => exact ⟨_, .bool b⟩
  | number n =>
      obtain ⟨x, hx⟩ : n.InRange := h
      exact ⟨literalOfNumber x, stands_number_iff.1 (by rw [hx, Option.map_some])⟩
  | text q =>
      obtain ⟨t, ht⟩ : ∃ t, q.text? = some t := h
      exact ⟨_, .text ht⟩

end Item

/-! ## Criteria -/

theorem only?_eq_some_iff {α : Type} {as : List α} {a : α} : only? as = some a ↔ as = [a] := by
  match as with
  | [] => simp [only?]
  | [b] => simp [only?]
  | _ :: _ :: _ => simp [only?]

theorem only?_map {α β : Type} (f : α → β) (as : List α) :
    only? (as.map f) = (only? as).map f := by
  match as with
  | [] => rfl
  | [a] => rfl
  | _ :: _ :: _ => rfl

theorem only?_eq_of_perm {α : Type} {as bs : List α} (h : as.Perm bs) : only? as = only? bs := by
  match as with
  | [] => rw [h.nil_eq]
  | [a] => rw [h.singleton_eq]
  | a :: a' :: as =>
      have hlength := h.length_eq
      match bs with
      | [] => cases hlength
      | [b] => cases hlength
      | _ :: _ :: _ => rfl

theorem assemble?_eq_some_iff {property operator : Option String} {value : Option Literal}
    {c : Criterion} :
    assemble? property operator value = some c ↔
      property = some c.property ∧ operator = some c.operator ∧ value = some c.value := by
  cases c
  cases property <;> cases operator <;> cases value <;> simp [assemble?]

namespace Object

/-- An object sends each part of a criterion exactly once: two strings and a value without parts. -/
structure Sends (o : Object) (property operator : Quoted) (value : Scalar) : Prop where
  property : sent .property o.entries = [.scalar (.text property)]
  operator : sent .operator o.entries = [.scalar (.text operator)]
  value : sent .value o.entries = [.scalar value]

/-- An object has what a criterion needs. -/
def Complete (o : Object) : Prop := ∃ property operator value, o.Sends property operator value

/-- An object carries a criterion: the texts of its property and its operator, and its value as a
literal. -/
def Carries (o : Object) (c : Criterion) : Prop :=
  ∃ property operator value, o.Sends property operator value ∧
    property.text? = some c.property ∧ operator.text? = some c.operator ∧ value.Stands c.value

variable {o o' : Object}

/-- An object is read as the criterion that it carries. -/
theorem criterion?_eq_some_iff (hkeys : keysDenote o.entries = true) {c : Criterion} :
    o.criterion? = some c ↔ o.Carries c := by
  rw [criterion?, if_pos hkeys, assemble?_eq_some_iff]
  simp only [Option.bind_eq_some_iff, only?_eq_some_iff, Item.text?_eq_some_iff,
    Item.literal?_eq_some_iff]
  constructor
  · rintro ⟨⟨_, hproperty, p, rfl, hp⟩, ⟨_, hoperator, q, rfl, hq⟩, _, hvalue, s, rfl, hs⟩
    exact ⟨p, q, s, ⟨hproperty, hoperator, hvalue⟩, hp, hq, hs⟩
  · rintro ⟨p, q, s, hsends, hp, hq, hs⟩
    exact ⟨⟨_, hsends.property, p, rfl, hp⟩, ⟨_, hsends.operator, q, rfl, hq⟩,
      _, hsends.value, s, rfl, hs⟩

/-! ## Objects of strings and numbers in range -/

/-- The keys of an object stand for texts, and so do the strings that it sends for a part of a
criterion; the numbers that it sends are as they have to be. -/
structure Denotes (ranges : Numeral → Prop) (o : Object) : Prop where
  keys : keysDenote o.entries = true
  values : ∀ e ∈ o.entries, e.member? ≠ none → e.value.Denotes ranges

theorem Denotes.of_mem_sent {ranges : Numeral → Prop} (h : o.Denotes ranges) {m : Member}
    {i : Item} (hi : i ∈ sent m o.entries) : i.Denotes ranges := by
  obtain ⟨e, he, rfl⟩ := List.mem_map.1 hi
  rw [List.mem_filter, decide_eq_true_iff] at he
  exact h.values e he.1 (by simp [he.2])

/-- Nothing but a part that is missing, repeated or of the wrong type keeps an object from being a
criterion. -/
theorem exists_carries_iff (h : o.Denotes Numeral.InRange) : (∃ c, o.Carries c) ↔ o.Complete := by
  constructor
  · rintro ⟨c, p, q, s, hsends, -⟩
    exact ⟨p, q, s, hsends⟩
  · rintro ⟨p, q, s, hsends⟩
    obtain ⟨property, hp⟩ : ∃ t, p.text? = some t :=
      h.of_mem_sent (m := .property) (i := .scalar (.text p)) (by simp [hsends.property])
    obtain ⟨operator, hq⟩ : ∃ t, q.text? = some t :=
      h.of_mem_sent (m := .operator) (i := .scalar (.text q)) (by simp [hsends.operator])
    obtain ⟨l, hl⟩ := Item.exists_stands
      (h.of_mem_sent (m := .value) (i := .scalar s) (by simp [hsends.value]))
    exact ⟨⟨property, operator, l⟩, p, q, s, hsends, hp, hq, hl⟩

/-! ## Objects that send the same -/

/-- The members that are parts of a criterion, each as the part and the literal sent for it. -/
def known (es : List Entry) : List (Member × Option Literal) :=
  es.filterMap fun e => e.member?.map fun m => (m, e.value.literal?)

/-- Two objects send the same parts, in any order and among any other members. -/
def SendsSame (o o' : Object) : Prop := (known o.entries).Perm (known o'.entries)

theorem map_literal?_sent (m : Member) (es : List Entry) :
    (sent m es).map Item.literal? = ((known es).filter fun part => part.1 = m).map Prod.snd := by
  induction es with
  | nil => rfl
  | cons e es ih =>
      rw [sent_cons, known, List.filterMap_cons]
      cases hm : e.member? with
      | none => simpa [known] using ih
      | some m' =>
          by_cases h : m' = m
          · simpa [known, h] using ih
          · simpa [known, h] using ih

theorem SendsSame.bind_literal? (h : o.SendsSame o') (m : Member) {α : Type}
    (f : Literal → Option α) :
    ((only? (sent m o.entries)).bind fun i => i.literal?.bind f) =
      (only? (sent m o'.entries)).bind fun i => i.literal?.bind f := by
  have hmap : (only? (sent m o.entries)).map Item.literal? =
      (only? (sent m o'.entries)).map Item.literal? := by
    rw [← only?_map, ← only?_map, map_literal?_sent, map_literal?_sent]
    exact only?_eq_of_perm ((h.filter _).map _)
  simpa only [Option.bind_map, Function.comp_def] using
    congrArg (fun l? => l?.bind fun l => l.bind f) hmap

theorem SendsSame.criterion?_eq (h : o.SendsSame o') (hkeys : keysDenote o.entries = true)
    (hkeys' : keysDenote o'.entries = true) : o.criterion? = o'.criterion? := by
  have hvalue := h.bind_literal? .value some
  simp only [Option.bind_fun_some] at hvalue
  rw [criterion?, criterion?, if_pos hkeys, if_pos hkeys', hvalue]
  simp only [funext Item.text?_eq, h.bind_literal?]

end Object

end Criteria.Payload
