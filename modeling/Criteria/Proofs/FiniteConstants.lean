import Criteria.Proofs.Coercion
import Criteria.Proofs.Comparisons
import Criteria.Proofs.Elements
import Criteria.Proofs.IntegerConstant
import Criteria.Proofs.Payload.Finite

set_option autoImplicit false

/-! # Constants are finite

A double gets into a filter from a number of the payload, from a text, or from an integer or a truth
value that is taken for a double. Only texts are checked for being finite when they are coerced. The
rest cannot be anything else: no number that a payload is decoded to is infinite
(`Limits.isFinite_of_decode`), and integers and truth values are far from the largest double
(`Literal.IsFinite.coerce`). So every constant of a compiled filter is finite, and a double other
than a not-a-number is less than it, equal to it or greater (`float_constants_finite`). -/

namespace Criteria

open Number Payload

/-! ## Literals and values -/

/-- The literal is no infinite double and no not-a-number. -/
def Literal.IsFinite (l : Literal) : Prop := ∀ x, l = .float x → x.isFinite = true

/-- The value is no infinite double and no not-a-number. -/
def Value.IsFinite (v : Value) : Prop := ∀ x, v = .float x → x.isFinite = true

theorem Number.Binary64.ne_nan_of_isFinite {x : Binary64} (h : x.isFinite = true) : x ≠ .nan := by
  rintro rfl
  cases h

/-- A value that is no double is finite. -/
theorem Value.isFinite_of_kind?_ne {v : Value} (h : v.kind? ≠ some .float) : v.IsFinite := by
  rintro x rfl
  exact absurd rfl h

namespace Literal.IsFinite

variable {l : Literal}

theorem isFinite_of_toDouble? (hl : l.IsFinite) {x : Binary64} (h : l.toDouble? = some x) :
    x.isFinite = true := by
  cases l with
  | null => cases h
  | bool b =>
      cases h
      cases b <;> decide +kernel
  | int i =>
      cases h
      refine Binary64.isFinite_ofInt (Nat.lt_trans ?_ Binary64.size_lt_overflowLimit)
      have hsize : UInt64.size = 18446744073709551616 := rfl
      have hlow := i.le_toInt
      have hhigh := i.toInt_lt
      omega
  | float y =>
      cases h
      exact hl _ rfl
  | text s => exact (Option.filter_eq_some_iff.1 h).2

/-- A finite literal is coerced to a finite value. -/
theorem coerce (hl : l.IsFinite) {field : Field} {v : Value} (h : l.coerce field = .ok v) :
    v.IsFinite := by
  rcases kind?_of_coerce h with ⟨-, -, rfl⟩ | ⟨hnull, hkind⟩
  · exact Value.isFinite_of_kind?_ne nofun
  · by_cases hfloat : field.kind = .float
    · rw [coerce_of_ne_null hnull, hfloat] at h
      cases hx : l.toDouble? with
      | none =>
          rw [toKind?, hx] at h
          cases h
      | some x =>
          rw [toKind?, hx] at h
          cases h
          rintro _ ⟨⟩
          exact hl.isFinite_of_toDouble? hx
    · refine Value.isFinite_of_kind?_ne ?_
      rw [hkind]
      simpa using hfloat

end Literal.IsFinite

/-! ## Payloads -/

theorem Payload.Scalar.Stands.isFinite {s : Scalar} {l : Literal} (h : s.Stands l) :
    l.IsFinite := by
  rintro x rfl
  cases h with
  | double _ hx => exact Numeral.isFinite_of_double? hx

theorem Payload.Element.Carries.isFinite {e : Element} {c : Criterion} (h : e.Carries c) :
    c.value.IsFinite := by
  cases h with
  | object _ h =>
      obtain ⟨-, -, value, -, -, -, hvalue⟩ := h
      exact hvalue.isFinite
  | list h =>
      obtain ⟨-, -, value, -, -, -, hvalue⟩ := h
      exact hvalue.isFinite

namespace Limits

variable {limits : Limits} {payload : Option String} {cs : List Criterion}

/-- A request without a payload is one with an empty payload. -/
theorem outcome_decode_getD (limits : Limits) (payload : Option String) :
    (limits.decode payload).outcome = (limits.decode (some (payload.getD ""))).outcome := by
  rw [outcome_decode_eq, outcome_decode_eq, Option.getD_some]

/-- No payload is decoded to an infinite number. -/
theorem isFinite_of_decode (h : (limits.decode payload).outcome = .ok cs) {c : Criterion}
    (hc : c ∈ cs) : c.value.IsFinite := by
  rw [outcome_decode_getD] at h
  obtain ⟨d, htext⟩ := exists_document_of_decode (List.ne_nil_of_mem hc) h
  have hcarries := Document.criteria?_eq_some_iff_carries.1 (criteria?_of_decode htext h)
  obtain ⟨i, hi, rfl⟩ := List.getElem_of_mem hc
  have hlength := hcarries.length_eq
  exact (hcarries.get (hlength ▸ hi) hi).isFinite

/-- A payload with a number that comes to nothing is malformed. -/
theorem malformed_of_numeric?_eq_none {d : Document}
    (htext : Text.trim ((payload.getD "").toList) = d.chars) {p : Place} (hp : p ∈ d.places)
    {property token : String} {n : Numeral}
    (hsends : p.element.Sends property token (.scalar (.number n))) (hn : n.numeric? = none) :
    ∃ r, (limits.decode payload).outcome = .error r ∧ r.code = .malformedFilter := by
  have hnone : p.element.criterion? = none := by
    rw [hsends.criterion?_eq, Item.literal?, hn]
    rfl
  cases houtcome : (limits.decode payload).outcome with
  | error r => exact ⟨r, rfl, code_of_decode_error houtcome⟩
  | ok cs =>
      rw [outcome_decode_getD] at houtcome
      have hcs := criteria?_of_decode htext houtcome
      rw [Document.criteria?_eq_none hp hnone] at hcs
      cases hcs

end Limits

/-! ## Filters -/

/-- The constants of a compiled filter are those of the criteria, coerced. -/
theorem exists_coerce_of_mem_leaves {env : Environment} {s : Schema} {cs : List Criterion}
    {f : Filter} (hf : (compile env s cs).outcome = .ok f) {l : Leaf} (hl : l ∈ f.leaves) :
    ∃ c ∈ cs, ∃ field, s.field? l.field = some field ∧ c.value.coerce field = .ok l.value := by
  obtain ⟨c, hc, hfilter⟩ := exists_filter_of_mem_leaves hf hl
  obtain ⟨field, value, op, hfield, hvalue, -, -, heq⟩ := Criterion.filter_eq_ok_iff.1 hfilter
  obtain ⟨-, hproperty, hconstant⟩ := Filter.compare.inj heq
  exact ⟨c, hc, field, by rw [hproperty, hfield], by rw [hconstant, hvalue]⟩

/-- A text that writes no number below the largest double is no constant of a double property. -/
theorem refusedWith_of_text {s : Schema} {cs : List Criterion} {i : Nat} {c : Criterion}
    {field : Field} {t : String} (hc : cs[i]? = some c) (hfield : s.field? c.property = some field)
    (hkind : field.kind = .float) (ht : c.value = .text t)
    (hwrites : ¬ Kind.float.Writes (Text.trim t.toList)) :
    RefusedWith s cs i .invalidValue := by
  have htakes : ¬ field.Takes c.value := by
    rw [ht, Field.Takes, hkind]
    rintro (⟨hnull, -⟩ | htakes)
    · cases hnull
    · exact hwrites htakes
  cases he : c.value.coerce field with
  | ok v => exact absurd ((Literal.coerce_ok_iff _ _).1 ⟨v, he⟩) htakes
  | error err => exact refusedWith_of_filter hc (Criterion.filter_of_coerce_eq_error hfield he)

/-- A value that compares with a constant is less, equal or greater, and only one of these. -/
theorem Operator.existsUnique_of_compare {actual constant : Value} (hconstant : constant ≠ .null)
    (hcompare : actual.compare constant ≠ none) :
    ∃! op, op ∈ [Operator.less, .equal, .greater] ∧ op.holds actual constant = true := by
  obtain ⟨o, ho⟩ := Option.ne_none_iff_exists'.1 hcompare
  have hholds (op : Operator) (hop : op ∈ [Operator.less, .equal, .greater]) :
      op.holds actual constant = true ↔ (op, o) ∈
        [(Operator.less, Ordering.lt), (.equal, .eq), (.greater, .gt)] := by
    rw [holds_iff_compares]
    simp only [List.mem_cons, List.not_mem_nil, or_false] at hop
    rcases hop with rfl | rfl | rfl <;> simp [Compares, hconstant, ho]
  cases o with
  | lt => exact ⟨.less, by simp [hholds], by rintro op ⟨hop, h⟩; simpa [hholds op hop] using h⟩
  | eq => exact ⟨.equal, by simp [hholds], by rintro op ⟨hop, h⟩; simpa [hholds op hop] using h⟩
  | gt => exact ⟨.greater, by simp [hholds], by rintro op ⟨hop, h⟩; simpa [hholds op hop] using h⟩

variable {ρ : Type} {e : Entity ρ} {limits : Limits} {payload : Option String}
  {cs : List Criterion} {env : Environment} {f : Filter} {l : Leaf}

theorem isFinite_of_mem_leaves (hcs : (limits.decode payload).outcome = .ok cs) {s : Schema}
    (hf : (compile env s cs).outcome = .ok f) (hl : l ∈ f.leaves) : l.value.IsFinite := by
  obtain ⟨c, hc, _, -, hvalue⟩ := exists_coerce_of_mem_leaves hf hl
  exact (Limits.isFinite_of_decode hcs hc).coerce hvalue

/-- A double other than a not-a-number is less than a constant of a compiled filter, equal to it or
greater. -/
theorem existsUnique_order_of_mem_leaves (hcs : (limits.decode payload).outcome = .ok cs)
    (hf : (compile env e.toSchema cs).outcome = .ok f) (hl : l ∈ f.leaves) {field : Field}
    (hfield : e.field? l.field = some field) (hkind : field.kind = .float)
    (hconstant : l.value ≠ .null) {row : ρ} {y : Binary64} (hrow : e.value row l.field = .float y)
    (hy : y ≠ .nan) :
    ∃! op, op ∈ [Operator.less, .equal, .greater] ∧
      (Filter.compare op l.field l.value).holds (e.value row) = true := by
  obtain ⟨c, hc, field', hfield', hvalue⟩ := exists_coerce_of_mem_leaves hf hl
  obtain rfl : field = field' := Option.some.inj (hfield.symm.trans hfield')
  have hfinite := (Limits.isFinite_of_decode hcs hc).coerce hvalue
  have hvaluekind : l.value.kind? = some .float := by
    rcases Literal.kind?_of_coerce hvalue with ⟨-, -, hnull⟩ | ⟨-, h⟩
    · exact absurd hnull hconstant
    · rw [h, hkind]
  refine Operator.existsUnique_of_compare hconstant ?_
  rw [hrow, Ne, Value.compare_eq_none_iff rfl hvaluekind]
  rintro (hnan | hnan)
  · exact hy (Value.float.inj hnan)
  · exact Binary64.ne_nan_of_isFinite (hfinite _ hnan) rfl

/-- **Every double in a compiled filter is finite.** Whatever is sent that is not finite is refused.
A number that comes to nothing makes the payload malformed, and so does any from `2 * 10 ^ 308` on,
unless its exponent is so low that it is taken for zero. A text for a double property that writes no
number below the largest double is an invalid value. So a value of a double property that is a
number is less than the constant it is compared with, equal to it or greater. -/
theorem float_constants_finite (e : Entity ρ) (limits : Limits) (payload : Option String) :
    (∀ cs env f, (limits.decode payload).outcome = .ok cs →
      (compile env e.toSchema cs).outcome = .ok f → ∀ l ∈ f.leaves,
        (∀ x, l.value = .float x → x.isFinite = true) ∧
        ∀ field row y, e.field? l.field = some field → field.kind = .float → l.value ≠ .null →
          e.value row l.field = .float y → y ≠ .nan →
            ∃! op, op ∈ [Operator.less, .equal, .greater] ∧
              (Filter.compare op l.field l.value).holds (e.value row) = true) ∧
    (∀ (d : Document) (p : Place) (property token : String) (n : Numeral),
      Text.trim ((payload.getD "").toList) = d.chars → p ∈ d.places →
      p.element.Sends property token (.scalar (.number n)) →
      n.numeric? = none ∨ 2 * 10 ^ 308 ≤ n.size ∧ -2147483648 < Power.exponent n.power →
        ∃ r, (limits.decode payload).outcome = .error r ∧ r.code = .malformedFilter) ∧
    (∀ cs i c field t, (limits.decode payload).outcome = .ok cs → cs[i]? = some c →
      e.field? c.property = some field → field.kind = .float → c.value = .text t →
      ¬ Kind.float.Writes (Text.trim t.toList) → RefusedWith e.toSchema cs i .invalidValue) ∧
    ∀ r, (limits.decode payload).outcome = .error r → r.code = .malformedFilter := by
  refine ⟨?_, ?_, ?_, fun r hr => Limits.code_of_decode_error hr⟩
  · intro cs env f hcs hf l hl
    refine ⟨isFinite_of_mem_leaves hcs hf hl, ?_⟩
    intro field row y hfield hkind hconstant hrow hy
    exact existsUnique_order_of_mem_leaves hcs hf hl hfield hkind hconstant hrow hy
  · intro d p property token n htext hp hsends hn
    refine Limits.malformed_of_numeric?_eq_none htext hp hsends ?_
    rcases hn with hnone | ⟨hsize, hwritten⟩
    · exact hnone
    · exact Numeral.numeric?_eq_none_of_le_size hsize hwritten
  · intro cs i c field t _ hc hfield hkind ht hwrites
    exact refusedWith_of_text hc hfield hkind ht hwrites

/-- Samples with a share that may be missing or not a number, as rows of an entity. -/
def samples : Entity (Option Binary64) where
  name := "Sample"
  fields := [⟨"Share", .float, true⟩]
  idField := "Share"
  read row field := if field = "Share" then row.map .float else none

/-- The number `1E+999`. -/
def pastLargest : Numeral where
  negative := false
  whole := ⟨"1".toList, by decide, List.all_eq_true.1 rfl⟩
  noLeadingZero := Or.inr (by decide)
  fraction := none
  power := some ⟨'E', Or.inr rfl, ['+'], Or.inr (Or.inl rfl),
    ⟨"999".toList, by decide, List.all_eq_true.1 rfl⟩⟩

/-- A criterion on the share, as a list of its parts. -/
def shareEquals (value : Scalar) : Document :=
  ⟨.empty, [⟨.empty, .list ⟨.empty,
    [⟨.empty, .scalar (.text (plainText "Share")), .empty⟩,
      ⟨.empty, .scalar (.text (plainText "=")), .empty⟩,
      ⟨.empty, .scalar value, .empty⟩]⟩, .empty⟩]⟩

theorem float_constants_finite_samples :
    (∃ cs f l, (Limits.decode {} (some "[[\"Share\",\"<=\",7]]")).outcome = .ok cs ∧
      (compile {} samples.toSchema cs).outcome = .ok f ∧ l ∈ f.leaves ∧ l.value ≠ .null ∧
      ∀ y : Binary64, y ≠ .nan → ∃! op, op ∈ [Operator.less, .equal, .greater] ∧
        (Filter.compare op l.field l.value).holds (samples.value (some y)) = true) ∧
    (∃ r, (Limits.decode {} (some "[[\"Share\",\"=\",1E+999]]")).outcome = .error r ∧
      r.code = .malformedFilter) ∧
    ∃ cs, (Limits.decode {} (some "[[\"Share\",\"=\",\" inf\"]]")).outcome = .ok cs ∧
      RefusedWith samples.toSchema cs 0 .invalidValue := by
  refine ⟨?_, ?_, ?_⟩
  · obtain ⟨hfinite, -⟩ := float_constants_finite samples {} (some "[[\"Share\",\"<=\",7]]")
    have hcs : (Limits.decode {} (some "[[\"Share\",\"<=\",7]]")).outcome =
        .ok [⟨"Share", "<=", .int 7⟩] := by
      rfl
    have hf : (compile {} samples.toSchema [⟨"Share", "<=", .int 7⟩]).outcome =
          .ok (.compare .lessOrEqual "Share" (.float (Binary64.ofInt 7))) := by
      rfl
    refine ⟨_, _, _, hcs, hf, List.mem_singleton.2 rfl, nofun, ?_⟩
    intro y hy
    exact (hfinite _ {} _ hcs hf _ (List.mem_singleton.2 rfl)).2 ⟨"Share", .float, true⟩ (some y) y
      rfl rfl nofun rfl hy
  · obtain ⟨-, hmalformed, -⟩ := float_constants_finite samples {}
      (some "[[\"Share\",\"=\",1E+999]]")
    exact hmalformed (shareEquals (.number pastLargest)) _ "Share" "=" pastLargest
      (by decide +kernel) (List.mem_singleton.2 rfl)
      (.list (v := ⟨.empty, .scalar (.number pastLargest), .empty⟩) rfl rfl rfl)
      (Or.inl (by decide +kernel))
  · obtain ⟨-, -, hinvalid, -⟩ := float_constants_finite samples {}
      (some "[[\"Share\",\"=\",\" inf\"]]")
    have hcs : (Limits.decode {} (some "[[\"Share\",\"=\",\" inf\"]]")).outcome =
        .ok [⟨"Share", "=", .text " inf"⟩] := by
      rfl
    refine ⟨_, hcs, hinvalid _ 0 _ ⟨"Share", .float, true⟩ " inf" hcs rfl rfl rfl rfl ?_⟩
    intro hwrites
    obtain ⟨x, hx⟩ := (Literal.exists_toDouble?_iff (.text " inf")).2 hwrites
    have hnone : Literal.toDouble? (.text " inf") = none := by decide +kernel
    rw [hnone] at hx
    cases hx

end Criteria
