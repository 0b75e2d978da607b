import Criteria.Proofs.IntegerConstant
import Criteria.Proofs.Payload.Exact

set_option autoImplicit false

/-! # Numbers in payloads and the decimals they become

A number that is sent for a decimal property is compiled to a decimal. The integers in the range of
words, the whole numbers up to `2 ^ 53` and short fractions are compiled to themselves, and compare
equal to what the same number becomes when it is sent as a text. All other numbers are compiled from
the double that they are read as, and to within the part `2⁻⁴⁹` of it (`decimal_constant`). That is
not always the number that was written, even where a decimal could hold it: `4205319.73` becomes
`4205319.730000001` (`decimal_constant_drifts`). -/

namespace Criteria

open Number Payload

/-! ## Constants of decimal properties -/

/-- A literal is a constant of a decimal property if it comes to a decimal. -/
theorem Literal.coerce_decimal {l : Literal} {field : Field} (hkind : field.kind = .decimal)
    (hnull : l ≠ .null) :
    l.coerce field = match l.toDecimal? with
      | some d => .ok (.decimal d)
      | none => .error (.mismatch .decimal l) := by
  rw [coerce, if_neg hnull, hkind, toKind?]
  cases l.toDecimal? <;> rfl

variable {s : Schema} {cs : List Criterion} {i : Nat} {c : Criterion}

/-- The comparison with a literal that comes to a decimal. -/
theorem Criterion.filter_of_toDecimal? {field : Field} {op : Operator} {x : Decimal}
    (hfield : s.field? c.property = some field) (hkind : field.kind = .decimal)
    (hop : Operator.ofToken? c.operator = some op) (hnull : c.value ≠ .null)
    (hx : c.value.toDecimal? = some x) :
    c.filter s = .ok (Leaf.filter ⟨op, c.property, .decimal x⟩) := by
  refine filter_eq_ok_iff.2 ⟨field, .decimal x, op, hfield, ?_, hop, ?_, rfl⟩
  · rw [Literal.coerce_decimal hkind hnull, hx]
  · intro hordering
    rw [hkind]
    rfl

/-- A literal that comes to no decimal is refused, whatever the operator is. -/
theorem Criterion.filter_of_toDecimal?_eq_none {field : Field}
    (hfield : s.field? c.property = some field) (hkind : field.kind = .decimal)
    (hnull : c.value ≠ .null) (hx : c.value.toDecimal? = none) :
    ∃ r, c.filter s = .error r ∧ r.code = .invalidValue := by
  have he : c.value.coerce field = .error (.mismatch .decimal c.value) := by
    rw [Literal.coerce_decimal hkind hnull, hx]
  exact ⟨_, filter_of_coerce_eq_error hfield he, rfl⟩

/-! ## Values in payloads -/

/-- An element of a payload sends a value for a decimal property, with a known operator. The other
elements stand for criteria, but these may be as they like. -/
structure SendsDecimal (s : Schema) (d : Document) (i : Nat) (op : Operator) (property : String)
    (value : Item) : Prop where
  element : ∃ p token, d.places[i]? = some p ∧ p.element.Sends property token value ∧
    Operator.ofToken? token = some op
  field : ∃ field, s.field? property = some field ∧ field.kind = .decimal
  others : ∀ j p, j ≠ i → d.places[j]? = some p → ∃ c, p.element.criterion? = some c

/-- A string that writes a number plainly between its blanks: digits with a point among them at
most, all of which fit a decimal. -/
def Payload.Quoted.WritesPlainly (q : Quoted) (v : ℚ) : Prop :=
  ∃ (t : String) (n : Numeral), q.text? = some t ∧ Text.trim t.toList = n.chars ∧
    n.power = none ∧ n.significand < Nat.pow 2 96 ∧ n.decimals.length ≤ 28 ∧ n.toRat = v

section

variable {d : Document} {op : Operator} {property : String} {value : Item} {l : Literal}
  {limits : Limits} {payload : String}

theorem SendsDecimal.outcome (hpayload : limits.Admits payload d)
    (h : SendsDecimal s d i op property value) (hl : value.literal? = some l) :
    ∃ cs token, (limits.decode (some payload)).outcome = .ok cs ∧
      Operator.ofToken? token = some op ∧ cs[i]? = some ⟨property, token, l⟩ := by
  obtain ⟨p, token, hp, hsends, hop⟩ := h.element
  have hc := hsends.criterion?_eq
  rw [hl, Option.map_some] at hc
  obtain ⟨cs, hcs, hi⟩ := Document.exists_criteria? hp hc h.others
  exact ⟨cs, token, Limits.outcome_decode_of_criteria hpayload hcs, hop, hi⟩

/-- A value is compiled to the decimal that it comes to. -/
theorem SendsDecimal.compilesTo (hpayload : limits.Admits payload d)
    (h : SendsDecimal s d i op property value) (hl : value.literal? = some l) (hnull : l ≠ .null)
    {x : Decimal} (hx : l.toDecimal? = some x) :
    ∃ cs, (limits.decode (some payload)).outcome = .ok cs ∧
      CompilesTo s cs i ⟨op, property, .decimal x⟩ := by
  obtain ⟨cs, token, hcs, hop, hi⟩ := h.outcome hpayload hl
  obtain ⟨field, hfield, hkind⟩ := h.field
  have hfilter :=
    Criterion.filter_of_toDecimal? (c := ⟨property, token, l⟩) hfield hkind hop hnull hx
  exact ⟨cs, hcs, compilesTo_of_filter hi hfilter⟩

/-- A value that comes to no decimal is refused. -/
theorem SendsDecimal.refusedWith (hpayload : limits.Admits payload d)
    (h : SendsDecimal s d i op property value) (hl : value.literal? = some l) (hnull : l ≠ .null)
    (hx : l.toDecimal? = none) :
    ∃ cs, (limits.decode (some payload)).outcome = .ok cs ∧ RefusedWith s cs i .invalidValue := by
  obtain ⟨cs, token, hcs, -, hi⟩ := h.outcome hpayload hl
  obtain ⟨field, hfield, hkind⟩ := h.field
  obtain ⟨r, hr, hcode⟩ :=
    Criterion.filter_of_toDecimal?_eq_none (c := ⟨property, token, l⟩) hfield hkind hnull hx
  refine ⟨cs, hcs, ?_⟩
  rw [← hcode]
  exact refusedWith_of_filter hi hr

/-- A text that writes a number plainly is compiled to that number. -/
theorem SendsDecimal.exists_of_writesPlainly {q : Quoted} {v : ℚ}
    (hpayload : limits.Admits payload d)
    (h : SendsDecimal s d i op property (.scalar (.text q))) (hq : q.WritesPlainly v) :
    ∃ cs x, (limits.decode (some payload)).outcome = .ok cs ∧
      CompilesTo s cs i ⟨op, property, .decimal x⟩ ∧ x.toRat = v := by
  obtain ⟨t, n, ht, htrim, hpower, hlimit, hscale, rfl⟩ := hq
  obtain ⟨x, hx, hrat⟩ := Decimal.exists_read?_chars hpower hlimit hscale
  have hliteral : (Item.scalar (.text q)).literal? = some (.text t) := by
    rw [Item.literal?, ht, Option.map_some]
  obtain ⟨cs, hcs, hcompiles⟩ := h.compilesTo hpayload hliteral (by simp)
    (show (Literal.text t).toDecimal? = some x by rw [Literal.toDecimal?, htrim, hx])
  exact ⟨cs, x, hcs, hcompiles, hrat⟩

/-! ## Numbers in payloads -/

variable {n : Numeral}

theorem literal?_number {x : Numeric} (hx : n.numeric? = some x) :
    (Item.scalar (.number n)).literal? = some (literalOfNumber x) := by
  rw [Item.literal?, hx, Option.map_some]

/-- A number that comes through unchanged is compiled to itself. -/
theorem SendsDecimal.exists_of_comesExact (hpayload : limits.Admits payload d)
    (h : SendsDecimal s d i op property (.scalar (.number n))) (hexact : n.ComesExact) :
    ∃ cs x, (limits.decode (some payload)).outcome = .ok cs ∧
      CompilesTo s cs i ⟨op, property, .decimal x⟩ ∧ x.toRat = n.toRat := by
  obtain ⟨y, x, hy, hx, hrat⟩ := hexact.exists_toRat
  obtain ⟨cs, hcs, hcompiles⟩ :=
    h.compilesTo hpayload (literal?_number hy) (literalOfNumber_ne_null y) hx
  exact ⟨cs, x, hcs, hcompiles, hrat⟩

/-- A number that is read as a double is compiled to a decimal close to the double. -/
theorem SendsDecimal.exists_of_double (hpayload : limits.Admits payload d)
    (h : SendsDecimal s d i op property (.scalar (.number n))) {y : Numeric} {x : Binary64}
    {u : Int} (hy : n.numeric? = some y) (hfloat : literalOfNumber y = .float x)
    (hu : x.units? = some u) (hlimit : u.natAbs < Decimal.decimalUnitsLimit) :
    ∃ cs z, (limits.decode (some payload)).outcome = .ok cs ∧
      CompilesTo s cs i ⟨op, property, .decimal z⟩ ∧
      |z.toRat - u / Binary64.unitsPerOne| ≤
        |(u / Binary64.unitsPerOne : ℚ)| / 2 ^ 49 + 1 / 10 ^ 28 := by
  obtain ⟨z, hz⟩ := (Decimal.exists_ofBinary64?_iff x).2 ⟨u, hu, hlimit⟩
  have hliteral := literal?_number hy
  rw [hfloat] at hliteral
  obtain ⟨cs, hcs, hcompiles⟩ := h.compilesTo hpayload hliteral (by simp) hz
  exact ⟨cs, z, hcs, hcompiles, Decimal.abs_toRat_sub_le hz hu⟩

/-- A number that is read as a double of `2 ^ 96` or more is refused. -/
theorem SendsDecimal.refusedWith_of_double (hpayload : limits.Admits payload d)
    (h : SendsDecimal s d i op property (.scalar (.number n))) {y : Numeric} {x : Binary64}
    {u : Int} (hy : n.numeric? = some y) (hfloat : literalOfNumber y = .float x)
    (hu : x.units? = some u) (hlimit : Decimal.decimalUnitsLimit ≤ u.natAbs) :
    ∃ cs, (limits.decode (some payload)).outcome = .ok cs ∧ RefusedWith s cs i .invalidValue := by
  have hliteral := literal?_number hy
  rw [hfloat] at hliteral
  refine h.refusedWith hpayload hliteral (by simp) (Option.eq_none_iff_forall_ne_some.2 ?_)
  intro z hz
  obtain ⟨u', hu', hlt⟩ := (Decimal.exists_ofBinary64?_iff x).1 ⟨z, hz⟩
  obtain rfl := Option.some.inj (hu.symm.trans hu')
  exact Nat.not_lt.2 hlimit hlt

/-- A number past the largest double makes a payload malformed. -/
theorem SendsDecimal.malformed_of_numeric?_eq_none (hpayload : limits.Admits payload d)
    (h : SendsDecimal s d i op property (.scalar (.number n))) (hnone : n.numeric? = none) :
    ∃ r, (limits.decode (some payload)).outcome = .error r ∧ r.code = .malformedFilter := by
  obtain ⟨p, token, hp, hsends, -⟩ := h.element
  have hcriterion : p.element.criterion? = none := by
    rw [hsends.criterion?_eq, Item.literal?, hnone]
    rfl
  exact Limits.outcome_decode_of_none hpayload
    (Document.criteria?_eq_none (List.mem_of_getElem? hp) hcriterion)

/-- **What a decimal property is compared with.** A number that comes through unchanged is compiled
to itself, and compares equal to the constant of the same number as a text. A number that is read as
a double is compiled to a decimal within the part `2⁻⁴⁹` of the double and one step `10⁻²⁸`; if the
double is `2 ^ 96` or larger, it is no value of the property; and if the number is past the largest
double, the payload is malformed. -/
theorem decimal_constant (hpayload : limits.Admits payload d)
    (h : SendsDecimal s d i op property (.scalar (.number n))) :
    (n.ComesExact → ∃ cs x, (limits.decode (some payload)).outcome = .ok cs ∧
      CompilesTo s cs i ⟨op, property, .decimal x⟩ ∧ x.toRat = n.toRat ∧
      ∀ (limits' : Limits) (payload' : String) (d' : Document) (i' : Nat) (op' : Operator)
        (property' : String) (q : Quoted), limits'.Admits payload' d' →
        SendsDecimal s d' i' op' property' (.scalar (.text q)) → q.WritesPlainly n.toRat →
        ∃ cs' x', (limits'.decode (some payload')).outcome = .ok cs' ∧
          CompilesTo s cs' i' ⟨op', property', .decimal x'⟩ ∧ x.compare x' = .eq) ∧
    (∀ y x u, n.numeric? = some y → literalOfNumber y = .float x → x.units? = some u →
      (u.natAbs < Decimal.decimalUnitsLimit →
        ∃ cs z, (limits.decode (some payload)).outcome = .ok cs ∧
          CompilesTo s cs i ⟨op, property, .decimal z⟩ ∧
          |z.toRat - u / Binary64.unitsPerOne| ≤
            |(u / Binary64.unitsPerOne : ℚ)| / 2 ^ 49 + 1 / 10 ^ 28) ∧
      (Decimal.decimalUnitsLimit ≤ u.natAbs →
        ∃ cs, (limits.decode (some payload)).outcome = .ok cs ∧
          RefusedWith s cs i .invalidValue)) ∧
    (n.numeric? = none →
      ∃ r, (limits.decode (some payload)).outcome = .error r ∧ r.code = .malformedFilter) := by
  refine ⟨?_, ?_, h.malformed_of_numeric?_eq_none hpayload⟩
  · intro hexact
    obtain ⟨cs, x, hcs, hcompiles, hrat⟩ := h.exists_of_comesExact hpayload hexact
    refine ⟨cs, x, hcs, hcompiles, hrat, ?_⟩
    intro limits' payload' d' i' op' property' q hpayload' h' hq
    obtain ⟨cs', x', hcs', hcompiles', hrat'⟩ := h'.exists_of_writesPlainly hpayload' hq
    exact ⟨cs', x', hcs', hcompiles',
      Decimal.compare_eq_eq_iff_toRat.2 (hrat.trans hrat'.symm)⟩
  · intro y x u hy hfloat hu
    exact ⟨h.exists_of_double hpayload hy hfloat hu,
      h.refusedWith_of_double hpayload hy hfloat hu⟩

end

/-! ## Invoices -/

/-- Invoices with a total. -/
def invoices : Schema := ⟨"Invoice", [⟨"Total", .decimal, false⟩], "Total"⟩

/-- The criterion on invoices with this total. -/
def totalEquals (value : Item) : Document where
  lead := .empty
  places :=
    [⟨.empty, .object ⟨.empty,
      [member "Property" (.scalar (.text (plainText "Total"))),
        member "Operator" (.scalar (.text (plainText "="))),
        member "Value" value]⟩, .empty⟩]

/-- The criterion on invoices with this total as it is sent. -/
def totalPayload (value : Item) : String := String.ofList (totalEquals value).chars

theorem totalPayload_admits {value : Item} (h : byteLength (totalEquals value).chars ≤ 16384) :
    Limits.Admits {} (totalPayload value) (totalEquals value) := by
  refine ⟨?_, h, show 1 ≤ 64 by decide⟩
  rw [totalPayload, String.toList_ofList, Document.trim_chars]

theorem totalEquals_sends (value : Item) :
    SendsDecimal invoices (totalEquals value) 0 .equal "Total" value := by
  refine ⟨⟨_, "=", rfl, .object rfl rfl rfl rfl rfl rfl, rfl⟩, ⟨_, rfl, rfl⟩, ?_⟩
  intro j p hj hp
  match j with
  | 0 => exact absurd rfl hj
  | _ + 1 => cases hp

/-- The total `19.99`. -/
def listPrice : Numeral where
  negative := false
  whole := ⟨"19".toList, by decide, List.all_eq_true.1 rfl⟩
  noLeadingZero := Or.inr (by decide)
  fraction := some ⟨"99".toList, by decide, List.all_eq_true.1 rfl⟩
  power := none

theorem decimal_constant_listPrice :
    ∃ cs x cs' x', (Limits.decode {} (some (totalPayload (.scalar (.number listPrice))))).outcome =
        .ok cs ∧
      (Limits.decode {} (some (totalPayload (.scalar (.text (plainText "19.99")))))).outcome =
        .ok cs' ∧
      CompilesTo invoices cs 0 ⟨.equal, "Total", .decimal x⟩ ∧
      CompilesTo invoices cs' 0 ⟨.equal, "Total", .decimal x'⟩ ∧
      x.toRat = 1999 / 100 ∧ x.compare x' = .eq := by
  have hnumber : Limits.Admits {} (totalPayload (.scalar (.number listPrice))) _ :=
    totalPayload_admits (by decide +kernel)
  have htext : Limits.Admits {} (totalPayload (.scalar (.text (plainText "19.99")))) _ :=
    totalPayload_admits (by decide +kernel)
  have hexact : listPrice.ComesExact :=
    .short (by decide) (by decide) (by decide) (by decide +kernel) (by decide +kernel)
  have hplain : (plainText "19.99").WritesPlainly listPrice.toRat :=
    ⟨"19.99", listPrice, by decide +kernel, by decide +kernel, rfl, by decide +kernel, by decide,
      rfl⟩
  obtain ⟨cs, x, hcs, hcompiles, hrat, htexts⟩ :=
    (decimal_constant hnumber (totalEquals_sends _)).1 hexact
  obtain ⟨cs', x', hcs', hcompiles', hequal⟩ :=
    htexts {} _ _ 0 .equal "Total" _ htext (totalEquals_sends _) hplain
  refine ⟨cs, x, cs', x', hcs, hcs', hcompiles, hcompiles', ?_, hequal⟩
  have hsignificand : listPrice.significand = 1999 := by decide +kernel
  have hexponent : listPrice.exponent = -2 := by decide
  rw [hrat, Numeral.toRat, Numeral.size_eq, hsignificand, hexponent]
  norm_num [Decimal.withSign, listPrice]

/-- A total with nine digits. -/
def largeTotal : Numeral where
  negative := false
  whole := ⟨"4205319".toList, by decide, List.all_eq_true.1 rfl⟩
  noLeadingZero := Or.inr (by decide)
  fraction := some ⟨"73".toList, by decide, List.all_eq_true.1 rfl⟩
  power := none

theorem CompilesTo.unique {l l' : Leaf} (h : CompilesTo s cs i l) (h' : CompilesTo s cs i l') :
    l = l' := by
  obtain ⟨c, hc, hl⟩ := h.1
  obtain ⟨c', hc', hl'⟩ := h'.1
  obtain rfl := Option.some.inj (hc.symm.trans hc')
  exact Leaf.filter_injective (Except.ok.inj (hl.symm.trans hl'))

/-- A number that a decimal holds may be compiled to another one. -/
theorem decimal_constant_drifts :
    ¬ ∀ (limits : Limits) (payload : String) (d : Document) (s : Schema) (i : Nat) (op : Operator)
      (property : String) (n : Numeral), limits.Admits payload d →
      SendsDecimal s d i op property (.scalar (.number n)) → (∃ x : Decimal, x.toRat = n.toRat) →
      ∃ cs x, (limits.decode (some payload)).outcome = .ok cs ∧
        CompilesTo s cs i ⟨op, property, .decimal x⟩ ∧ x.toRat = n.toRat := by
  intro hall
  have hpayload : Limits.Admits {} (totalPayload (.scalar (.number largeTotal))) _ :=
    totalPayload_admits (by decide +kernel)
  have hsends := totalEquals_sends (.scalar (.number largeTotal))
  have hwritten : largeTotal.toRat = 420531973 / 100 := by
    have hsignificand : largeTotal.significand = 420531973 := by decide +kernel
    have hexponent : largeTotal.exponent = -2 := by decide
    rw [Numeral.toRat, Numeral.size_eq, hsignificand, hexponent]
    norm_num [Decimal.withSign, largeTotal]
  have hholds : ∃ x : Decimal, x.toRat = largeTotal.toRat := by
    refine ⟨⟨false, 420531973, 2, by decide, by decide⟩, ?_⟩
    rw [Decimal.toRat_eq, hwritten]
    norm_num [Decimal.withSign]
  obtain ⟨cs, x, hcs, hcompiles, hrat⟩ :=
    hall {} _ _ invoices 0 .equal "Total" largeTotal hpayload hsends hholds
  -- what it is compiled to
  have hbecomes : largeTotal.numeric?.bind (fun y => (literalOfNumber y).toDecimal?) =
      some ⟨false, 4205319730000001, 9, by decide, by decide⟩ := by decide +kernel
  obtain ⟨y, hy, hx⟩ := Option.bind_eq_some_iff.1 hbecomes
  obtain ⟨cs', hcs', hcompiles'⟩ :=
    hsends.compilesTo hpayload (literal?_number hy) (literalOfNumber_ne_null y) hx
  obtain rfl := Except.ok.inj (hcs.symm.trans hcs')
  have hleaf := hcompiles.unique hcompiles'
  simp only [Leaf.mk.injEq, Value.decimal.injEq, true_and] at hleaf
  rw [hleaf, Decimal.toRat_eq, hwritten] at hrat
  norm_num [Decimal.withSign] at hrat

end Criteria
