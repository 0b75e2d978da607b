import Criteria.Coercion
import Criteria.Proofs.Number.DecimalOfDouble
import Criteria.Proofs.Number.DecimalText
import Criteria.Proofs.Number.DoubleWord
import Criteria.Proofs.Time.Moments
import Criteria.Proofs.Uuid

set_option autoImplicit false

/-! # Which literals are coerced

The table of coercion (`Literal.Takes`): a row for every kind of field, a column for every form of
literal. A cell says which literals of the form are values of the kind, by what they write and not
by how they are read. Coercion follows the table, and what is not in it is refused with the kind and
the literal (`Literal.coerce_ok_iff`, `Literal.coerce_table`).

The table is wider than a strict reading of the forms in three places: a truth value is a number, a
plain date or time may leave out leading zeros and have blanks before its numbers (`WrittenDate`),
and a decimal may have underscores between its digits. In one place it is narrower: a power of ten
behind a decimal is refused if it moves the point by more than 28 places, even where the number
would fit. -/

namespace Criteria

open Number Text

/-! ## The table -/

/-- The texts, without blanks at both ends, that write a value of a kind. -/
def Kind.Writes : Kind → List Char → Prop
  | .int, cs => ∃ w : WrittenInt, w.chars = cs ∧ FitsWord w.value
  | .float, cs => ∃ w : Binary64.WrittenFloat, w.chars = cs ∧ w.magnitude < Binary64.overflowLimit
  | .decimal, cs => ∃ w : Decimal.WrittenDecimal, w.chars = cs ∧ w.Fits
  | .bool, cs => cs.map Char.toLower = "true".toList ∨ cs.map Char.toLower = "false".toList
  | .text, _ => True
  | .timestamp, cs =>
      (∃ w : Time.WrittenMoment, w.chars = cs ∧ w.Exists) ∨
      (∃ (d : Time.WrittenDate) (c : Time.WrittenClock), d.chars ++ 'T' :: c.chars = cs ∧
        d.Exists ∧ c.Exists) ∨
      (∃ (d : Time.WrittenDate) (c : Time.WrittenClock), d.chars ++ c.chars = cs ∧
        d.Exists ∧ c.Exists ∧ (c.beforeHour.chars = [] → d.day.chars.length = 2)) ∨
      ∃ w : Time.WrittenDate, w.chars = cs ∧ w.Exists
  | .date, cs =>
      (∃ w : Time.WrittenDate, w.chars = cs ∧ w.Exists) ∨
      ∃ w : Time.WrittenMoment, w.chars = cs ∧ w.Exists
  | .uuid, cs => ∃ w : Uuid.WrittenUuid, w.chars = cs

/-- The kinds that take literals which are no texts. -/
def Kind.takesScalars : Kind → Bool
  | .timestamp | .date | .uuid => false
  | _ => true

/-- The doubles that are values of a kind. -/
def Kind.TakesDouble : Kind → Binary64 → Prop
  | .int, x => ∃ i : Int, x.units? = some (i * Binary64.unitsPerOne) ∧ FitsWord i
  | .decimal, x => ∃ u, x.units? = some u ∧ u.natAbs < Decimal.decimalUnitsLimit
  | kind, _ => kind.takesScalars = true

/-- The literals other than null that are values of a kind. -/
def Kind.Takes (kind : Kind) : Literal → Prop
  | .null => False
  | .bool _ => kind.takesScalars = true
  | .int _ => kind.takesScalars = true
  | .float x => kind.TakesDouble x
  | .text s => kind.Writes (trim s.toList)

/-- The literals that are values of a field. -/
def Field.Takes (field : Field) (l : Literal) : Prop :=
  (l = .null ∧ field.nullable = true) ∨ field.kind.Takes l

/-- How a literal that is no value of a field is refused. -/
def Field.refusal (field : Field) (l : Literal) : CoercionError :=
  if l = .null then .nullNotAllowed field.kind else .mismatch field.kind l

/-! ## Doubles -/

namespace Number.Binary64

theorem natAbs_lt_of_fitsWord {i : Int} (h : FitsWord i) : i.natAbs < Nat.pow 2 96 := by
  have hpow : Nat.pow 2 96 = 79228162514264337593543950336 := rfl
  rw [hpow]
  omega

/-- A double that is an integer has a whole number of ones. -/
theorem exists_toInt?_iff (x : Binary64) :
    (∃ w, x.toInt?.bind word? = some w) ↔
      ∃ i : Int, x.units? = some (i * unitsPerOne) ∧ FitsWord i := by
  have hword (i : Int) : (∃ w, word? i = some w) ↔ FitsWord i := by
    rw [word?]
    split_ifs with hfits
    · exact iff_of_true ⟨_, rfl⟩ hfits
    · exact iff_of_false (by rintro ⟨w, hw⟩; cases hw) hfits
  cases x with
  | finite negative m s hc =>
      rw [toInt?, units?]
      simp only [Option.some.injEq, signed_eq_mul_iff unitsPerOne_pos]
      generalize m * Nat.pow 2 s = units
      by_cases hwhole : units % unitsPerOne = 0
      · rw [if_pos hwhole, Option.bind_some, hword]
        simp only [hwhole, true_and, exists_eq_left']
      · rw [if_neg hwhole]
        exact iff_of_false (by rintro ⟨w, hw⟩; cases hw) (by rintro ⟨i, hi, -⟩; exact hwhole hi.1)
  | infinite negative =>
      refine iff_of_false (by rintro ⟨w, hw⟩; cases hw) ?_
      rintro ⟨i, hi, hfits⟩
      have hsize : ∃ u, (infinite negative).units? = some u ∧
          u.natAbs < Decimal.decimalUnitsLimit := by
        refine ⟨_, hi, ?_⟩
        rw [Int.natAbs_mul, Int.natAbs_natCast, Decimal.decimalUnitsLimit]
        exact Nat.mul_lt_mul_of_pos_right (natAbs_lt_of_fitsWord hfits) unitsPerOne_pos
      obtain ⟨d, hd⟩ := (Decimal.exists_ofBinary64?_iff _).2 hsize
      cases hd
  | nan => exact iff_of_false (by rintro ⟨w, hw⟩; cases hw) (by rintro ⟨i, hi, -⟩; cases hi)

end Number.Binary64

/-! ## The rows -/

namespace Literal

theorem exists_toWord?_iff (l : Literal) : (∃ w, l.toWord? = some w) ↔ Kind.int.Takes l := by
  cases l with
  | null => simp [toWord?, Kind.Takes]
  | bool b => exact iff_of_true ⟨_, rfl⟩ rfl
  | int i => exact iff_of_true ⟨_, rfl⟩ rfl
  | float x =>
      rw [toWord?, Binary64.toWord?_eq]
      exact Binary64.exists_toInt?_iff x
  | text s => exact exists_readWord?_iff (trim s.toList)

theorem exists_toDouble?_iff (l : Literal) : (∃ x, l.toDouble? = some x) ↔ Kind.float.Takes l := by
  cases l with
  | null => simp [toDouble?, Kind.Takes]
  | bool b => exact iff_of_true ⟨_, rfl⟩ rfl
  | int i => exact iff_of_true ⟨_, rfl⟩ rfl
  | float x => exact iff_of_true ⟨_, rfl⟩ rfl
  | text s => exact Binary64.exists_finite_iff (trim s.toList)

theorem exists_toDecimal?_iff (l : Literal) :
    (∃ d, l.toDecimal? = some d) ↔ Kind.decimal.Takes l := by
  cases l with
  | null => simp [toDecimal?, Kind.Takes]
  | bool b => exact iff_of_true ⟨_, rfl⟩ rfl
  | int i => exact iff_of_true ⟨_, rfl⟩ rfl
  | float x => exact Decimal.exists_ofBinary64?_iff x
  | text s => exact Decimal.exists_read?_iff (trim s.toList)

theorem exists_toBool?_iff (l : Literal) : (∃ b, l.toBool? = some b) ↔ Kind.bool.Takes l := by
  cases l with
  | null => simp [toBool?, Kind.Takes]
  | bool b => exact iff_of_true ⟨_, rfl⟩ rfl
  | int i => exact iff_of_true ⟨_, rfl⟩ rfl
  | float x => exact iff_of_true ⟨_, rfl⟩ rfl
  | text s =>
      have hcase (word : String) : sameLetters (trimmed s) word = true ↔
          (trim s.toList).map Char.toLower = word.toList.map Char.toLower := by
        rw [sameLetters_iff, foldCase, foldCase, trimmed, String.toList_ofList]
      rw [toBool?]
      split_ifs with htrue hfalse
      · exact iff_of_true ⟨_, rfl⟩ (Or.inl ((hcase "true").1 htrue))
      · exact iff_of_true ⟨_, rfl⟩ (Or.inr ((hcase "false").1 hfalse))
      · refine iff_of_false (by simp) ?_
        rintro (h | h)
        · exact htrue ((hcase "true").2 h)
        · exact hfalse ((hcase "false").2 h)

theorem exists_toText?_iff (l : Literal) : (∃ s, l.toText? = some s) ↔ Kind.text.Takes l := by
  cases l with
  | null => simp [toText?, Kind.Takes]
  | bool b => exact iff_of_true ⟨_, rfl⟩ rfl
  | int i => exact iff_of_true ⟨_, rfl⟩ rfl
  | float x => exact iff_of_true ⟨_, rfl⟩ rfl
  | text s => exact iff_of_true ⟨_, rfl⟩ trivial

theorem exists_toTimestamp?_iff (l : Literal) :
    (∃ t, l.toTimestamp? = some t) ↔ Kind.timestamp.Takes l := by
  cases l with
  | text s => exact Time.exists_readTimestamp?_iff (Time.trimmed_trim s.toList)
  | _ => simp [toTimestamp?, Kind.Takes, Kind.TakesDouble, Kind.takesScalars]

theorem exists_toDate?_iff (l : Literal) : (∃ d, l.toDate? = some d) ↔ Kind.date.Takes l := by
  cases l with
  | text s => exact Time.exists_readDay?_iff (Time.trimmed_trim s.toList)
  | _ => simp [toDate?, Kind.Takes, Kind.TakesDouble, Kind.takesScalars]

theorem exists_toUuid?_iff (l : Literal) : (∃ u, l.toUuid? = some u) ↔ Kind.uuid.Takes l := by
  cases l with
  | text s => exact Uuid.exists_read?_iff (trim s.toList)
  | _ => simp [toUuid?, Kind.Takes, Kind.TakesDouble, Kind.takesScalars]

/-! ## The table is followed -/

theorem exists_map_eq_some_iff {α : Type} {f : α → Value} {x : Option α} :
    (∃ v, x.map f = some v) ↔ ∃ a, x = some a := by
  cases x <;> simp

theorem exists_toKind?_iff (l : Literal) (kind : Kind) :
    (∃ v, l.toKind? kind = some v) ↔ kind.Takes l := by
  cases kind with
  | int => exact exists_map_eq_some_iff.trans l.exists_toWord?_iff
  | float => exact exists_map_eq_some_iff.trans l.exists_toDouble?_iff
  | decimal => exact exists_map_eq_some_iff.trans l.exists_toDecimal?_iff
  | bool => exact exists_map_eq_some_iff.trans l.exists_toBool?_iff
  | text => exact exists_map_eq_some_iff.trans l.exists_toText?_iff
  | timestamp => exact exists_map_eq_some_iff.trans l.exists_toTimestamp?_iff
  | date => exact exists_map_eq_some_iff.trans l.exists_toDate?_iff
  | uuid => exact exists_map_eq_some_iff.trans l.exists_toUuid?_iff

theorem coerce_null (field : Field) :
    coerce .null field =
      if field.nullable then .ok .null else .error (.nullNotAllowed field.kind) := if_pos rfl

theorem coerce_of_ne_null {l : Literal} (h : l ≠ .null) (field : Field) :
    l.coerce field = match l.toKind? field.kind with
      | some v => .ok v
      | none => .error (.mismatch field.kind l) := if_neg h

/-- A literal is coerced if it is a value of the field. -/
theorem coerce_ok_iff (l : Literal) (field : Field) :
    (∃ v, l.coerce field = .ok v) ↔ field.Takes l := by
  by_cases hnull : l = .null
  · subst hnull
    rw [coerce_null, Field.Takes]
    cases field.nullable <;> simp [Kind.Takes]
  · rw [coerce_of_ne_null hnull, Field.Takes, ← exists_toKind?_iff]
    cases l.toKind? field.kind <;> simp [hnull]

/-- **The table of coercion.** A literal that is a value of the field is coerced, and every other
literal is refused: null because the field holds no null, and else with the kind and the literal. -/
theorem coerce_table (l : Literal) (field : Field) :
    (field.Takes l → ∃ v, l.coerce field = .ok v) ∧
      (¬ field.Takes l → l.coerce field = .error (field.refusal l)) := by
  refine ⟨(coerce_ok_iff l field).2, ?_⟩
  intro hno
  have hnone : ∀ v, l.coerce field ≠ .ok v := fun v hv => hno ((coerce_ok_iff l field).1 ⟨v, hv⟩)
  by_cases hnull : l = .null
  · subst hnull
    rw [coerce_null] at hnone ⊢
    rw [Field.refusal, if_pos rfl]
    cases hnullable : field.nullable with
    | true => exact absurd (by rw [hnullable]; rfl) (hnone .null)
    | false => rfl
  · rw [coerce_of_ne_null hnull] at hnone ⊢
    rw [Field.refusal, if_neg hnull]
    cases hkind : l.toKind? field.kind with
    | some v => exact absurd (by rw [hkind]) (hnone v)
    | none => rfl

/-- A truth value is coerced to numbers, and a date without leading zeros to a date. -/
theorem coerce_beyond_strict_forms :
    coerce (.bool true) ⟨"Count", .int, false⟩ = .ok (.int 1) ∧
      coerce (.bool true) ⟨"Share", .float, false⟩ = .ok (.float (Binary64.ofInt 1)) ∧
      coerce (.bool true) ⟨"Price", .decimal, false⟩ = .ok (.decimal (Decimal.ofWord 1)) ∧
      coerce (.text "2024-1-5") ⟨"Due", .date, false⟩ =
        .ok (.date ⟨2024, 1, 5, by decide⟩) :=
  ⟨rfl, rfl, rfl, rfl⟩

end Literal

end Criteria
