import Criteria.Proofs.IntegerConstant
import Criteria.Proofs.Number.DoubleWord
import Criteria.Proofs.Number.Written

set_option autoImplicit false

/-! # Integers taken exactly

A field of integers takes a double or a text only for the integer that it stands for, and only if
that integer fits a word; nothing is rounded, cut or brought into range. A double stands for its
exact value (`Binary64.value?`), a text for the integer that its digits write (`WrittenInt`). -/

namespace Criteria

open Number Text

/-- The value is the word of an integer. -/
def Value.IsInteger (v : Value) (i : Int) : Prop := ∃ w : Int64, v = .int w ∧ w.toInt = i

namespace Literal

variable {field : Field} {l : Literal} {i : Int}

/-- The literal stands for an integer. -/
def StandsFor : Literal → Int → Prop
  | .null, _ => False
  | .bool b, i => i = if b then 1 else 0
  | .int w, i => w.toInt = i
  | .float x, i => x.value? = some (i : ℚ)
  | .text s, i => ∃ n : WrittenInt, n.chars = trim s.toList ∧ n.value = i

/-- A literal is taken for the word of the integer that it stands for. -/
theorem toWord?_eq_some_iff (l : Literal) (w : Int64) :
    l.toWord? = some w ↔ l.StandsFor w.toInt := by
  cases l with
  | null => simp [toWord?, StandsFor]
  | bool b => cases b <;> simp [toWord?, StandsFor, ← Int64.toInt_inj, eq_comm]
  | int i => simp [toWord?, StandsFor, Int64.toInt_inj]
  | float x => exact x.toWord?_eq_some_iff w
  | text s =>
      rw [toWord?, readWord?, Option.bind_eq_some_iff]
      simp only [readInt?_eq_some_iff, word?_eq_some_iff]
      constructor
      · rintro ⟨i, ⟨n, hchars, rfl⟩, hw⟩
        exact ⟨n, hchars, hw.symm⟩
      · rintro ⟨n, hchars, hw⟩
        exact ⟨n.value, ⟨n, hchars, rfl⟩, hw.symm⟩

/-- The integers of 64 bits are those of words. -/
theorem exists_toInt_eq_iff (i : Int) :
    (∃ w : Int64, w.toInt = i) ↔ -2 ^ 63 ≤ i ∧ i ≤ 2 ^ 63 - 1 := by
  constructor
  · rintro ⟨w, rfl⟩
    have hleast := w.le_toInt
    have hgreatest := w.toInt_lt
    constructor <;> omega
  · rintro ⟨hleast, hgreatest⟩
    have hfits : FitsWord i := by constructor <;> omega
    exact ⟨_, toInt_nearestWord hfits⟩

/-- A literal is coerced to the word of the integer that it stands for. -/
theorem coerce_int_eq_ok_iff (hkind : field.kind = .int) (hnull : l ≠ .null) (v : Value) :
    l.coerce field = .ok v ↔
      ∃ i, l.StandsFor i ∧ (-2 ^ 63 ≤ i ∧ i ≤ 2 ^ 63 - 1) ∧ v.IsInteger i := by
  have hword : l.coerce field = .ok v ↔ ∃ w, l.toWord? = some w ∧ v = .int w := by
    rw [coerce_int hkind hnull]
    cases l.toWord? <;> simp [eq_comm]
  rw [hword]
  constructor
  · rintro ⟨w, hw, rfl⟩
    exact ⟨w.toInt, (l.toWord?_eq_some_iff w).1 hw, (exists_toInt_eq_iff _).1 ⟨w, rfl⟩, w, rfl, rfl⟩
  · rintro ⟨i, hi, -, w, rfl, rfl⟩
    exact ⟨w, (l.toWord?_eq_some_iff w).2 hi, rfl⟩

/-- A literal that stands for no integer of 64 bits is refused. -/
theorem coerce_int_eq_error_iff (hkind : field.kind = .int) (hnull : l ≠ .null) :
    l.coerce field = .error (.mismatch .int l) ↔
      ¬ ∃ i, l.StandsFor i ∧ (-2 ^ 63 ≤ i ∧ i ≤ 2 ^ 63 - 1) := by
  have hword : l.coerce field = .error (.mismatch .int l) ↔ ¬ ∃ w, l.toWord? = some w := by
    rw [coerce_int hkind hnull]
    cases l.toWord? <;> simp
  rw [hword, not_iff_not]
  constructor
  · rintro ⟨w, hw⟩
    exact ⟨w.toInt, (l.toWord?_eq_some_iff w).1 hw, (exists_toInt_eq_iff _).1 ⟨w, rfl⟩⟩
  · rintro ⟨i, hi, hrange⟩
    obtain ⟨w, rfl⟩ := (exists_toInt_eq_iff i).2 hrange
    exact ⟨w, (l.toWord?_eq_some_iff w).2 hi⟩

/-- **Integers are taken exactly.** For a field of integers, a double is coerced if and only if its
exact value is an integer of 64 bits, and then to that integer, both zeros to 0; a text is coerced
if and only if it writes an integer of 64 bits, and then to that integer. Every other double or text
is refused, so nothing is rounded, brought into range or wrapped. -/
theorem coerce_exact_integer (name : String) (nullable : Bool) :
    let field : Field := ⟨name, .int, nullable⟩
    (∀ (x : Binary64) (v : Value), coerce (.float x) field = .ok v ↔
      ∃ i : Int, x.value? = some (i : ℚ) ∧ (-2 ^ 63 ≤ i ∧ i ≤ 2 ^ 63 - 1) ∧ v.IsInteger i) ∧
    (∀ x : Binary64, coerce (.float x) field = .error (.mismatch .int (.float x)) ↔
      ¬ ∃ i : Int, x.value? = some (i : ℚ) ∧ (-2 ^ 63 ≤ i ∧ i ≤ 2 ^ 63 - 1)) ∧
    (∀ negative, coerce (.float (.zero negative)) field = .ok (.int 0)) ∧
    (∀ (s : String) (v : Value), coerce (.text s) field = .ok v ↔
      ∃ n : WrittenInt, n.chars = trim s.toList ∧
        (-2 ^ 63 ≤ n.value ∧ n.value ≤ 2 ^ 63 - 1) ∧ v.IsInteger n.value) ∧
    ∀ s : String, coerce (.text s) field = .error (.mismatch .int (.text s)) ↔
      ¬ ∃ n : WrittenInt, n.chars = trim s.toList ∧
        (-2 ^ 63 ≤ n.value ∧ n.value ≤ 2 ^ 63 - 1) := by
  intro field
  have hkind : field.kind = .int := rfl
  refine ⟨?_, ?_, ?_, ?_, ?_⟩
  · intro x v
    exact coerce_int_eq_ok_iff hkind (by simp) v
  · intro x
    exact coerce_int_eq_error_iff hkind (by simp)
  · intro negative
    have hzero := Binary64.value?_zero negative
    exact (coerce_int_eq_ok_iff hkind (by simp) _).2 ⟨0, hzero, by decide, 0, rfl, rfl⟩
  · intro s v
    rw [coerce_int_eq_ok_iff hkind (by simp)]
    constructor
    · rintro ⟨i, ⟨n, hchars, rfl⟩, hrange, hv⟩
      exact ⟨n, hchars, hrange, hv⟩
    · rintro ⟨n, hchars, hrange, hv⟩
      exact ⟨n.value, ⟨n, hchars, rfl⟩, hrange, hv⟩
  · intro s
    rw [coerce_int_eq_error_iff hkind (by simp), not_iff_not]
    constructor
    · rintro ⟨i, ⟨n, hchars, rfl⟩, hrange⟩
      exact ⟨n, hchars, hrange⟩
    · rintro ⟨n, hchars, hrange⟩
      exact ⟨n.value, ⟨n, hchars, rfl⟩, hrange⟩

/-- The least word is a double and is taken; the number behind the greatest word, which is the
double nearest to it, is not, and neither is a half. -/
example :
    coerce (.float (Binary64.ofInt (-9223372036854775808))) ⟨"Count", .int, false⟩ =
        .ok (.int Int64.minValue) ∧
      coerce (.float (Binary64.ofInt 9223372036854775807)) ⟨"Count", .int, false⟩ =
        .error (.mismatch .int (.float (Binary64.ofInt 9223372036854775808))) ∧
      coerce (.float (Binary64.ofScientific false 5 (-1))) ⟨"Count", .int, false⟩ =
        .error (.mismatch .int (.float (Binary64.ofScientific false 5 (-1)))) := by
  decide +kernel

end Literal

end Criteria
