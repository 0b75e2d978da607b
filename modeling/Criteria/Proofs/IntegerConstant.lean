import Criteria.Proofs.Compile
import Criteria.Proofs.Payload.Integer
import Criteria.Proofs.Payload.Limits

set_option autoImplicit false

/-! # Integers in payloads and the constants they become

An integer that is sent for an integer property passes through three representations: the number of
the payload, a literal and a word. In the range of words nothing is lost. Beyond it the request is
refused: as malformed where the integer is past the largest double, and else because it is no value
of the property. There is one exception. The 1024 integers just below the least word are read as the
double of the least word, and are compiled to it (`integer_constant`). -/

namespace Criteria

open Number Payload

/-! ## Constants of integer properties -/

/-- A literal is a constant of an integer property if it comes to a word. -/
theorem Literal.coerce_int {l : Literal} {field : Field} (hkind : field.kind = .int)
    (hnull : l ≠ .null) :
    l.coerce field = match l.toWord? with
      | some w => .ok (.int w)
      | none => .error (.mismatch .int l) := by
  rw [coerce, if_neg hnull, hkind, toKind?]
  cases l.toWord? <;> rfl

theorem literalOfNumber_ne_null (x : Numeric) : literalOfNumber x ≠ .null := by
  cases x with
  | float x => simp [literalOfNumber]
  | int i =>
      rw [literalOfNumber]
      split <;> simp

theorem Leaf.filter_injective {l l' : Leaf} (h : l.filter = l'.filter) : l = l' := by
  have hcompare := Filter.compare.inj h
  cases l
  cases l'
  simpa using hcompare

/-- The criterion at a position becomes a comparison, in whatever filter the list is compiled to. -/
def CompilesTo (s : Schema) (cs : List Criterion) (i : Nat) (l : Leaf) : Prop :=
  (∃ c, cs[i]? = some c ∧ c.filter s = .ok l.filter) ∧
    ∀ env f, (compile env s cs).outcome = .ok f → f.leaves[i]? = some l

/-- The criterion at a position is refused, and the list with it; if the criteria before it can be
compiled, for the same reason. -/
def RefusedWith (s : Schema) (cs : List Criterion) (i : Nat) (code : Code) : Prop :=
  ∃ c r, cs[i]? = some c ∧ c.filter s = .error r ∧ r.code = code ∧
    ∀ env, (∃ r', (compile env s cs).outcome = .error r') ∧
      ((∀ j d, j < i → cs[j]? = some d → ∃ f, d.filter s = .ok f) →
        (compile env s cs).outcome = .error (r.atIndex i))

variable {s : Schema} {cs : List Criterion} {i : Nat} {c : Criterion}

theorem compilesTo_of_filter {l : Leaf} (hc : cs[i]? = some c) (hl : c.filter s = .ok l.filter) :
    CompilesTo s cs i l := by
  refine ⟨⟨c, hc, hl⟩, ?_⟩
  intro env f hf
  -- The comparisons of the whole are those of the criteria, position by position.
  have hi := congrArg (·[i]?) (leaves_compile hf)
  simp only [List.getElem?_map, hc, Option.map_some, hl] at hi
  obtain ⟨l', hl', heq⟩ := Option.map_eq_some_iff.1 hi.symm
  rw [hl', Leaf.filter_injective (Except.ok.inj heq)]

theorem refusedWith_of_filter {r : Report} (hc : cs[i]? = some c) (hr : c.filter s = .error r) :
    RefusedWith s cs i r.code := by
  refine ⟨c, r, hc, hr, rfl, ?_⟩
  intro env
  constructor
  · cases hout : (compile env s cs).outcome with
    | error r' => exact ⟨r', rfl⟩
    | ok f =>
        -- every criterion of a list that is compiled can be compiled by itself
        obtain ⟨g, hg⟩ := compileFrom_ok_iff.1 ⟨f, hout⟩ c (List.mem_of_getElem? hc)
        rw [hr] at hg
        cases hg
  · intro hbefore
    exact compile_error_iff.2 ⟨i, r, ⟨⟨c, hc, hr⟩, hbefore⟩, rfl⟩

/-- The comparison with an integer that comes to a word. -/
theorem Criterion.filter_of_toWord? {field : Field} {op : Operator} {w : Int64}
    (hfield : s.field? c.property = some field) (hkind : field.kind = .int)
    (hop : Operator.ofToken? c.operator = some op) (hnull : c.value ≠ .null)
    (hw : c.value.toWord? = some w) :
    c.filter s = .ok (Leaf.filter ⟨op, c.property, .int w⟩) := by
  refine filter_eq_ok_iff.2 ⟨field, .int w, op, hfield, ?_, hop, ?_, rfl⟩
  · rw [Literal.coerce_int hkind hnull, hw]
  · intro hordering
    rw [hkind]
    rfl

/-- An integer that comes to no word is refused, whatever the operator is. -/
theorem Criterion.filter_of_toWord?_eq_none {field : Field}
    (hfield : s.field? c.property = some field) (hkind : field.kind = .int)
    (hnull : c.value ≠ .null) (hw : c.value.toWord? = none) :
    ∃ r, c.filter s = .error r ∧ r.code = .invalidValue := by
  have he : c.value.coerce field = .error (.mismatch .int c.value) := by
    rw [Literal.coerce_int hkind hnull, hw]
  exact ⟨_, filter_of_coerce_eq_error hfield he, rfl⟩

/-! ## Integers in payloads -/

/-- An element of a payload sends an integer for an integer property, with a known operator. The
other elements stand for criteria, but these may be as they like. -/
structure SendsInteger (s : Schema) (d : Document) (i : Nat) (op : Operator) (property : String)
    (n : Numeral) : Prop where
  integer : n.IsInteger
  element : ∃ p token, d.places[i]? = some p ∧
    p.element.Sends property token (.scalar (.number n)) ∧ Operator.ofToken? token = some op
  field : ∃ field, s.field? property = some field ∧ field.kind = .int
  others : ∀ j p, j ≠ i → d.places[j]? = some p → ∃ c, p.element.criterion? = some c

section

variable {d : Document} {op : Operator} {property : String} {n : Numeral}

theorem SendsInteger.criteria? (h : SendsInteger s d i op property n) {x : Numeric}
    (hx : n.numeric? = some x) :
    ∃ cs token, d.criteria? = some cs ∧ Operator.ofToken? token = some op ∧
      cs[i]? = some ⟨property, token, literalOfNumber x⟩ := by
  obtain ⟨p, token, hp, hsends, hop⟩ := h.element
  have hliteral : (Item.scalar (.number n)).literal? = some (literalOfNumber x) := by
    rw [Item.literal?, hx, Option.map_some]
  have hc := hsends.criterion?_eq
  rw [hliteral, Option.map_some] at hc
  obtain ⟨cs, hcs, hi⟩ := Document.exists_criteria? hp hc h.others
  exact ⟨cs, token, hcs, hop, hi⟩

variable {limits : Limits} {payload : String}

/-- An integer is compiled to the word that it is taken for. -/
theorem SendsInteger.compilesTo (hpayload : limits.Admits payload d)
    (h : SendsInteger s d i op property n) (hrange : n.magnitude < rangeLimit) {w : Int64}
    (hw : takenFor? n.toInt = some w) :
    ∃ cs, (limits.decode (some payload)).outcome = .ok cs ∧
      CompilesTo s cs i ⟨op, property, .int w⟩ := by
  obtain ⟨x, hx⟩ := Option.ne_none_iff_exists'.1 fun hnone =>
    Nat.not_le.2 hrange ((Numeral.numeric?_eq_none_iff h.integer).1 hnone)
  obtain ⟨cs, token, hcs, hop, hc⟩ := h.criteria? hx
  obtain ⟨field, hfield, hkind⟩ := h.field
  have hword := (Numeral.toWord?_of_numeric? h.integer hx).trans hw
  exact ⟨cs, Limits.outcome_decode_of_criteria hpayload hcs, compilesTo_of_filter hc
    (Criterion.filter_of_toWord? hfield hkind hop (literalOfNumber_ne_null x) hword)⟩

/-- An integer that is taken for no word is refused as a value. -/
theorem SendsInteger.refusedWith (hpayload : limits.Admits payload d)
    (h : SendsInteger s d i op property n) (hrange : n.magnitude < rangeLimit)
    (hw : takenFor? n.toInt = none) :
    ∃ cs, (limits.decode (some payload)).outcome = .ok cs ∧
      RefusedWith s cs i .invalidValue := by
  obtain ⟨x, hx⟩ := Option.ne_none_iff_exists'.1 fun hnone =>
    Nat.not_le.2 hrange ((Numeral.numeric?_eq_none_iff h.integer).1 hnone)
  obtain ⟨cs, token, hcs, -, hc⟩ := h.criteria? hx
  obtain ⟨field, hfield, hkind⟩ := h.field
  have hword := (Numeral.toWord?_of_numeric? h.integer hx).trans hw
  obtain ⟨r, hr, hcode⟩ :=
    Criterion.filter_of_toWord?_eq_none (c := ⟨property, token, literalOfNumber x⟩) hfield hkind
      (literalOfNumber_ne_null x) hword
  refine ⟨cs, Limits.outcome_decode_of_criteria hpayload hcs, ?_⟩
  rw [← hcode]
  exact refusedWith_of_filter hc hr

/-- An integer past the largest double makes the payload malformed. -/
theorem SendsInteger.malformed (hpayload : limits.Admits payload d)
    (h : SendsInteger s d i op property n) (hrange : rangeLimit ≤ n.magnitude) :
    ∃ r, (limits.decode (some payload)).outcome = .error r ∧ r.code = .malformedFilter := by
  obtain ⟨p, token, hp, hsends, -⟩ := h.element
  have hnone : p.element.criterion? = none := by
    rw [hsends.criterion?_eq, Item.literal?, (Numeral.numeric?_eq_none_iff h.integer).2 hrange]
    rfl
  exact Limits.outcome_decode_of_none hpayload
    (Document.criteria?_eq_none (List.mem_of_getElem? hp) hnone)

theorem magnitude_lt_rangeLimit (hlow : -9223372036854776832 ≤ n.toInt)
    (hhigh : n.toInt ≤ 9223372036854775807) : n.magnitude < rangeLimit := by
  have hlimit : 9223372036854776832 < rangeLimit := by decide +kernel
  refine Nat.lt_of_le_of_lt ?_ hlimit
  rw [Numeral.toInt, signed] at hlow hhigh
  split at hlow
  · omega
  · next hnegative =>
      rw [if_neg hnegative] at hhigh
      omega

/-- **What an integer property is compared with.** An integer in the range of words is compiled to
itself. The integers out of range are refused, with two deviations. Those next to the least word are
compiled to the least word; and those from `rangeLimit` on, which is a little below the largest
double, are malformed and not merely no value of the property. -/
theorem integer_constant (hpayload : limits.Admits payload d)
    (h : SendsInteger s d i op property n) :
    (FitsWord n.toInt → ∃ cs w, (limits.decode (some payload)).outcome = .ok cs ∧
      w.toInt = n.toInt ∧ CompilesTo s cs i ⟨op, property, .int w⟩) ∧
    (-9223372036854776832 ≤ n.toInt → n.toInt < -9223372036854775808 →
      ∃ cs, (limits.decode (some payload)).outcome = .ok cs ∧
        CompilesTo s cs i ⟨op, property, .int Int64.minValue⟩) ∧
    (n.toInt < -9223372036854776832 ∨ 9223372036854775807 < n.toInt → n.magnitude < rangeLimit →
      ∃ cs, (limits.decode (some payload)).outcome = .ok cs ∧
        RefusedWith s cs i .invalidValue) ∧
    (rangeLimit ≤ n.magnitude →
      ∃ r, (limits.decode (some payload)).outcome = .error r ∧ r.code = .malformedFilter) := by
  refine ⟨?_, ?_, ?_, h.malformed hpayload⟩
  · intro hfits
    have hrange := magnitude_lt_rangeLimit (by omega) hfits.2
    have hw : takenFor? n.toInt = some (Int64.ofInt n.toInt) := by
      rw [takenFor?_of_le hfits.1, word?, if_pos hfits]
    obtain ⟨cs, hcs, hcompiles⟩ := h.compilesTo hpayload hrange hw
    rw [takenFor?_of_le hfits.1] at hw
    exact ⟨cs, _, hcs, word?_eq_some_iff.1 hw, hcompiles⟩
  · intro hlow hhigh
    have hrange := magnitude_lt_rangeLimit hlow (by omega)
    exact h.compilesTo hpayload hrange (if_pos ⟨hlow, hhigh⟩)
  · intro hout hrange
    have hnone : takenFor? n.toInt = none := by
      rw [takenFor?, if_neg (by omega), word?_eq_none (by omega)]
    exact h.refusedWith hpayload hrange hnone

end

/-- The characters of a text that need no escape, as a string. -/
def plainText (s : String) : Quoted where
  marks := s.toList.filterMap fun c =>
    if h : c ≠ '"' ∧ c ≠ '\\' ∧ ¬ c < ' ' then some (.plain c h) else none

/-- A member with a blank in front of its value. -/
def member (name : String) (value : Item) : Entry :=
  ⟨⟨.empty, plainText name, .empty, ⟨[' '], List.all_eq_true.1 rfl⟩⟩, value, .empty⟩

/-- The integer below the least word. -/
def belowLeast : Numeral where
  negative := true
  whole := ⟨"9223372036854775809".toList, by decide, List.all_eq_true.1 rfl⟩
  noLeadingZero := Or.inr (by decide)
  fraction := none
  power := none

/-- Ranges of integers, where the upper end may be missing. -/
def ranges : Schema := ⟨"Range", [⟨"Low", .int, false⟩, ⟨"High", .int, true⟩], "Low"⟩

/-- A criterion as an object with a member too many, and one as a list. -/
def rangesDocument : Document where
  lead := .empty
  places :=
    [⟨.empty, .object ⟨.empty,
      [member "note" (.list [']'] (.noItems .empty)),
        member "Value" (.scalar (.number belowLeast)),
        member "Operator" (.scalar (.text (plainText "<="))),
        member "Property" (.scalar (.text (plainText "Low")))]⟩, .empty⟩,
    ⟨.empty, .list ⟨.empty,
      [⟨.empty, .scalar (.text (plainText "High")), .empty⟩,
        ⟨.empty, .scalar (.text (plainText "!=")), .empty⟩,
        ⟨.empty, .scalar .null, .empty⟩]⟩, .empty⟩]

/-- The criteria on ranges, as they are sent. -/
def rangesPayload : String :=
  " [\x7b\"note\": [],\"Value\": -9223372036854775809,"
    ++ "\"Operator\": \"<=\",\"Property\": \"Low\"\x7d,[\"High\",\"!=\",null]]"

theorem integer_constant_belowLeast :
    ∃ cs, (Limits.decode {} (some rangesPayload)).outcome = .ok cs ∧
      CompilesTo ranges cs 0 ⟨.lessOrEqual, "Low", .int Int64.minValue⟩ := by
  have hpayload : Limits.Admits {} rangesPayload rangesDocument :=
    ⟨by decide +kernel, by decide +kernel, by decide +kernel⟩
  have h : SendsInteger ranges rangesDocument 0 .lessOrEqual "Low" belowLeast := by
    refine ⟨⟨rfl, rfl⟩, ⟨_, "<=", rfl, .object rfl rfl rfl rfl rfl rfl, rfl⟩, ⟨_, rfl, rfl⟩, ?_⟩
    intro j p hj hp
    match j with
    | 0 => exact absurd rfl hj
    | 1 =>
        obtain rfl := Option.some.inj hp
        exact ⟨⟨"High", "!=", .null⟩, rfl⟩
    | _ + 2 => cases hp
  exact (integer_constant hpayload h).2.1 (by decide) (by decide)

end Criteria
