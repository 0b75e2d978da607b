import Criteria.Number.Binary64.Shortest
import Criteria.Number.Numeral
import Criteria.Proofs.Number.Nearest
import Mathlib.Algebra.Order.Field.Power

set_option autoImplicit false

/-! # The shortest digits of a double are in its interval

`shortest` looks for a point of a decimal grid in the interval of a double, on finer and finer
grids. With seventeen digits the grid is finer than the interval, so a point is found
(`gridPoint?_ne_none`), and the grid before it was not (`nearestWithin?_eq_none`), which bounds
the power of ten from below. What is found has at most seventeen digits and lies in the interval
(`shortest_spec`). -/

namespace Criteria.Number.Binary64

/-! ## Points of a grid -/

section

variable {tie : Tie} {even : Bool} {value step below above c : Nat}

/-- A point lies in the interval around a value, whose ends belong to it if the value is even. -/
structure InReach (even : Bool) (value below above point : Nat) : Prop where
  low : value ≤ point + below
  high : point ≤ value + above
  strict : even = false → value < point + below ∧ point < value + above

/-- The point below a value, if it is near enough. -/
theorem inReach_down (habove : 0 < above)
    (h : (if even = true then decide (value % step ≤ below)
      else decide (value % step < below)) = true) :
    InReach even value below above (value / step * step) := by
  have hsplit := Nat.div_add_mod' value step
  cases even with
  | true =>
      have hle : value % step ≤ below := by simpa using h
      exact ⟨by omega, by omega, nofun⟩
  | false =>
      have hlt : value % step < below := by simpa using h
      exact ⟨by omega, by omega, fun _ => ⟨by omega, by omega⟩⟩

/-- The point above a value, if it is near enough. -/
theorem inReach_up (hstep : 0 < step) (hbelow : 0 < below)
    (h : (if even = true then decide (step - value % step ≤ above)
      else decide (step - value % step < above)) = true) :
    InReach even value below above ((value / step + 1) * step) := by
  have hsplit := Nat.div_add_mod' value step
  have hmod := Nat.mod_lt value hstep
  rw [Nat.succ_mul]
  cases even with
  | true =>
      have hle : step - value % step ≤ above := by simpa using h
      exact ⟨by omega, by omega, nofun⟩
  | false =>
      have hlt : step - value % step < above := by simpa using h
      exact ⟨by omega, by omega, fun _ => ⟨by omega, by omega⟩⟩

/-- A point that is found is a neighbour of the value on the grid and lies within reach. -/
theorem nearestWithin?_eq_some (hstep : 0 < step) (hbelow : 0 < below) (habove : 0 < above)
    (h : nearestWithin? tie even value step below above = some c) :
    (c = value / step ∨ c = value / step + 1) ∧ InReach even value below above (c * step) := by
  unfold nearestWithin? at h
  dsimp only at h
  split at h
  · next hdown hup =>
      split at h
      · cases h
        exact ⟨Or.inl rfl, inReach_down habove hdown⟩
      · split at h
        · cases h
          exact ⟨Or.inr rfl, inReach_up hstep hbelow hup⟩
        · split at h
          · cases h
            exact ⟨Or.inr rfl, inReach_up hstep hbelow hup⟩
          · split at h
            · cases h
              exact ⟨Or.inl rfl, inReach_down habove hdown⟩
            · cases h
              exact ⟨Or.inr rfl, inReach_up hstep hbelow hup⟩
  · next hdown _ =>
      cases h
      exact ⟨Or.inl rfl, inReach_down habove hdown⟩
  · next _ hup =>
      cases h
      exact ⟨Or.inr rfl, inReach_up hstep hbelow hup⟩
  · cases h

/-- Where no point is found, the grid is at least as wide as the interval. -/
theorem nearestWithin?_eq_none (hstep : 0 < step)
    (h : nearestWithin? tie even value step below above = none) : below + above ≤ step := by
  have hmod := Nat.mod_lt value hstep
  unfold nearestWithin? at h
  dsimp only at h
  split at h
  · split at h
    · cases h
    · split at h
      · cases h
      · split at h
        · cases h
        · cases h
  · cases h
  · cases h
  · next hdown hup =>
      cases even with
      | true =>
          simp only [if_true, decide_eq_false_iff_not] at hdown hup
          omega
      | false =>
          simp only [Bool.false_eq_true, if_false, decide_eq_false_iff_not] at hdown hup
          omega

end

/-- The first result of a search is found at some place, and at no place before it. -/
theorem findSome?_range {α : Type} {f : Nat → Option α} {n : Nat} {a : α}
    (h : (List.range n).findSome? f = some a) : ∃ i < n, f i = some a ∧ ∀ j < i, f j = none := by
  induction n with
  | zero => cases h
  | succ n ih =>
      rw [List.range_succ, List.findSome?_append] at h
      cases hfirst : (List.range n).findSome? f with
      | some b =>
          rw [hfirst, Option.some_or] at h
          obtain ⟨i, hi, hfound, hbefore⟩ := ih (hfirst.trans h)
          exact ⟨i, Nat.lt_succ_of_lt hi, hfound, hbefore⟩
      | none =>
          rw [hfirst, Option.none_or] at h
          refine ⟨n, Nat.lt_succ_self n, by simpa using h, ?_⟩
          intro j hj
          exact List.findSome?_eq_none_iff.1 hfirst j (List.mem_range.2 hj)

/-! ## Digits -/

theorem lt_pow_length (n : Nat) : n < 10 ^ (natDigits n).length :=
  (Nat.length_toDigits_le_iff (by decide) Nat.length_toDigits_pos).1 (Nat.le_refl _)

theorem pow_le_of_lt_length {n k : Nat} (hk : 0 < k) (h : k < (natDigits n).length) :
    10 ^ k ≤ n := by
  by_contra hlt
  exact Nat.not_le.2 h ((Nat.length_toDigits_le_iff (by decide) hk).2 (Nat.not_le.1 hlt))

theorem lt_length_of_pow_le {n k : Nat} (h : 10 ^ k ≤ n) : k < (natDigits n).length := by
  by_contra hle
  have hpow : 10 ^ (natDigits n).length ≤ 10 ^ k :=
    Nat.pow_le_pow_right (by decide) (Nat.not_lt.1 hle)
  have hlt := lt_pow_length n
  omega

theorem length_natDigits_mul_ten {n : Nat} (h : 0 < n) :
    (natDigits (n * 10)).length = (natDigits n).length + 1 := by
  rw [natDigits, Nat.toDigits_of_base_le (by decide) (by omega), Nat.mul_div_cancel n (by decide),
    List.length_append, List.length_singleton, ← natDigits]

/-- Trailing zeros only are dropped, and each is one digit. -/
theorem stripZeros_spec (fuel : Nat) {n : Nat} (h : 0 < n) :
    ∃ z, 0 < stripZeros fuel n ∧ n = stripZeros fuel n * 10 ^ z ∧
      (natDigits n).length = (natDigits (stripZeros fuel n)).length + z := by
  induction fuel generalizing n with
  | zero => exact ⟨0, h, by simp [stripZeros], rfl⟩
  | succ fuel ih =>
      rw [stripZeros]
      split
      · next hzero =>
          have hn : n = n / 10 * 10 := by omega
          obtain ⟨z, hpos, hvalue, hlength⟩ := ih (n := n / 10) (by omega)
          refine ⟨z + 1, hpos, ?_, ?_⟩
          · rw [Nat.pow_succ, ← Nat.mul_assoc, ← hvalue]
            exact hn
          · rw [← Nat.add_assoc, ← hlength, ← length_natDigits_mul_ten (by omega), ← hn]
      · exact ⟨0, h, by simp, rfl⟩

/-! ## The search -/

/-- The number of units of a decimal. -/
def decimalUnits (digits : Nat) (exponent : Int) : ℚ := digits * 10 ^ exponent * unitsPerOne

/-- The power of two of a step, times the scale of the grids. -/
def scaledStep (s : Nat) : Nat := 2 ^ s * 10 ^ gridScale

/-- How far the interval of a double reaches down, in quarters of a unit. -/
def reachBelow (m s : Nat) : Nat :=
  if m = 2 ^ 52 ∧ 0 < s then scaledStep s else 2 * scaledStep s

/-- The number of digits of a double in front of the end of the scale. -/
def width (m s : Nat) : Nat := (natDigits (4 * m * scaledStep s / (4 * unitsPerOne))).length

/-- The point that is found with so many digits behind the first. -/
def gridPoint? (tie : Tie) (m s i : Nat) : Option Nat :=
  nearestWithin? tie (m % 2 == 0) (4 * m * scaledStep s)
    (4 * unitsPerOne * 10 ^ (width m s - (i + 1))) (reachBelow m s) (2 * scaledStep s)

theorem shortest_eq (tie : Tie) (m s : Nat) :
    shortest tie m s =
      match (List.range 17).findSome? fun i => (gridPoint? tie m s i).map fun c => (i + 1, c) with
      | none => ⟨0, 0⟩
      | some (count, c) => ⟨stripZeros 17 c,
          (width m s : Int) - gridScale + ((natDigits c).length - count : Nat)⟩ := by
  have hvalue : 4 * m * Nat.pow 2 s * Nat.pow 10 gridScale = 4 * m * scaledStep s := by
    rw [scaledStep, Nat.pow_eq, Nat.pow_eq, Nat.mul_assoc]
  have habove : 2 * Nat.pow 2 s * Nat.pow 10 gridScale = 2 * scaledStep s := by
    rw [scaledStep, Nat.pow_eq, Nat.pow_eq, Nat.mul_assoc]
  have hbelow : (if m = Nat.pow 2 52 ∧ 0 < s then 2 * scaledStep s / 2 else 2 * scaledStep s) =
      reachBelow m s := by
    rw [Nat.mul_div_cancel_left _ (by decide)]
    rfl
  unfold shortest
  simp only [hvalue, habove, hbelow]
  rfl

section

variable {tie : Tie} {m s : Nat}

theorem scaledStep_pos (s : Nat) : 0 < scaledStep s := by
  unfold scaledStep
  positivity

theorem reachBelow_ge (m s : Nat) : scaledStep s ≤ reachBelow m s := by
  unfold reachBelow
  split
  · exact Nat.le_refl _
  · omega

/-- The scale is fine enough for the least double. -/
theorem pow_gridScale_ge : 10 ^ 76 * unitsPerOne ≤ 10 ^ gridScale := by decide +kernel

theorem lt_pow_gridScale : 4 * unitsPerOne * 10 ^ 76 < 3 * 10 ^ gridScale := by decide +kernel

theorem pow_gridScale_le (s : Nat) : 10 ^ gridScale ≤ scaledStep s :=
  Nat.le_mul_of_pos_left _ (by positivity)

theorem quarter_pos : 0 < 4 * unitsPerOne := Nat.mul_pos (by decide) unitsPerOne_pos

theorem lt_width (hm : 0 < m) (s : Nat) : 76 < width m s := by
  refine lt_length_of_pow_le ((Nat.le_div_iff_mul_le quarter_pos).2 ?_)
  have hscale := pow_gridScale_ge
  have hstep := pow_gridScale_le s
  have hmul := Nat.le_mul_of_pos_left (scaledStep s) hm
  rw [Nat.mul_left_comm, Nat.mul_assoc 4 m]
  omega

theorem value_lt (m s : Nat) : 4 * m * scaledStep s < 4 * unitsPerOne * 10 ^ width m s := by
  rw [Nat.mul_comm (4 * unitsPerOne)]
  exact (Nat.div_lt_iff_lt_mul quarter_pos).1 (lt_pow_length _)

theorem le_value (hm : 0 < m) (s : Nat) :
    4 * unitsPerOne * 10 ^ (width m s - 1) ≤ 4 * m * scaledStep s := by
  have hwidth := lt_width hm s
  rw [Nat.mul_comm (4 * unitsPerOne)]
  exact (Nat.le_div_iff_mul_le quarter_pos).1
    (pow_le_of_lt_length (by omega) (show width m s - 1 < width m s by omega))

/-- Seventeen digits are enough. -/
theorem gridPoint?_ne_none (hm : 0 < m) (hlt : m < 2 ^ 53) : gridPoint? tie m s 16 ≠ none := by
  intro hnone
  have hwidth := lt_width hm s
  have hgap := nearestWithin?_eq_none (Nat.mul_pos quarter_pos (by positivity)) hnone
  have hstep : 4 * unitsPerOne * 10 ^ (width m s - (16 + 1)) * 10 ^ 16 ≤
      4 * m * scaledStep s := by
    have hpow : 10 ^ (width m s - (16 + 1)) * 10 ^ 16 = 10 ^ (width m s - 1) := by
      rw [← Nat.pow_add]
      congr 1
      omega
    rw [Nat.mul_assoc, hpow]
    exact le_value hm s
  have hmul := Nat.le_trans (Nat.mul_le_mul_right (10 ^ 16) hgap) hstep
  have hpos := scaledStep_pos s
  unfold reachBelow at hmul
  split at hmul
  · next hpower =>
      have hthree : 3 * 10 ^ 16 * scaledStep s ≤ 4 * 2 ^ 52 * scaledStep s := by
        rw [hpower.1] at hmul
        omega
      exact absurd (Nat.le_of_mul_le_mul_right hthree hpos) (by decide)
  · have hfour : 4 * 10 ^ 16 * scaledStep s ≤ 4 * m * scaledStep s := by omega
    have hle := Nat.le_of_mul_le_mul_right hfour hpos
    omega

/-- What is found: digits in the interval of the double, whose last one stands at the power
`last - gridScale` of ten. -/
structure Found (m s c last : Nat) : Prop where
  le : c ≤ 10 ^ 17
  least : 76 ≤ last
  covers : Covers m s (decimalUnits c ((last : Int) - gridScale))

/-- The interval in units, from the one in quarters of a unit times the scale. -/
theorem InReach.covers {c last : Nat}
    (h : InReach (m % 2 == 0) (4 * m * scaledStep s) (reachBelow m s) (2 * scaledStep s)
      (c * (4 * unitsPerOne * 10 ^ last))) :
    Covers m s (decimalUnits c ((last : Int) - gridScale)) := by
  obtain ⟨hlow, hhigh, hodd⟩ := h
  have hscale : (0 : ℚ) < 4 * 10 ^ gridScale := by positivity
  have hstep : (scaledStep s : ℚ) = 2 ^ s * 10 ^ gridScale := by
    rw [scaledStep]
    push_cast
    rfl
  -- each of the quantities, in units times the scale
  have hvalue : ((4 * m * scaledStep s : Nat) : ℚ) = m * 2 ^ s * (4 * 10 ^ gridScale) := by
    push_cast
    rw [hstep]
    ring
  have habove : ((2 * scaledStep s : Nat) : ℚ) = 2 ^ s / 2 * (4 * 10 ^ gridScale) := by
    push_cast
    rw [hstep]
    ring
  have hgap : (reachBelow m s : ℚ) = gapBelow m s * (4 * 10 ^ gridScale) := by
    rw [reachBelow, gapBelow]
    split
    · rw [hstep]
      ring
    · exact habove
  have hunits : ((c * (4 * unitsPerOne * 10 ^ last) : Nat) : ℚ) =
      decimalUnits c ((last : Int) - gridScale) * (4 * 10 ^ gridScale) := by
    rw [decimalUnits, zpow_sub₀ (by norm_num), zpow_natCast, zpow_natCast]
    field_simp
    push_cast
    ring
  rw [← Nat.cast_le (α := ℚ), Nat.cast_add, hvalue, hunits, hgap, ← add_mul] at hlow
  rw [← Nat.cast_le (α := ℚ), Nat.cast_add, hvalue, hunits, habove, ← add_mul] at hhigh
  rw [← Nat.cast_lt (α := ℚ), ← Nat.cast_lt (α := ℚ), Nat.cast_add, Nat.cast_add, hvalue, hunits,
    hgap, habove, ← add_mul, ← add_mul] at hodd
  refine ⟨?_, le_of_mul_le_mul_right hhigh hscale, ?_⟩
  · rw [sub_le_iff_le_add]
    exact le_of_mul_le_mul_right hlow hscale
  · intro hm
    obtain ⟨hlow', hhigh'⟩ := hodd (by simp [hm])
    rw [sub_lt_iff_lt_add]
    exact ⟨lt_of_mul_lt_mul_right hlow' hscale.le, lt_of_mul_lt_mul_right hhigh' hscale.le⟩

/-- The first grid with a point in the interval. -/
theorem found_of_gridPoint? (hm : 0 < m) {i c : Nat} (hi : i < 17)
    (h : gridPoint? tie m s i = some c) (hbefore : ∀ j < i, gridPoint? tie m s j = none) :
    10 ^ i ≤ c ∧ Found m s c (width m s - (i + 1)) := by
  have hwidth := lt_width hm s
  have hpos := scaledStep_pos s
  have hreach := reachBelow_ge m s
  have hstep : 0 < 4 * unitsPerOne * 10 ^ (width m s - (i + 1)) :=
    Nat.mul_pos quarter_pos (by positivity)
  obtain ⟨hneighbour, hinReach⟩ :=
    nearestWithin?_eq_some hstep (Nat.lt_of_lt_of_le hpos hreach) (by omega) h
  -- the digits in front of the point
  have hpow : ∀ k, k ≤ i + 1 → 4 * unitsPerOne * 10 ^ (width m s - (i + 1) + k) =
      10 ^ k * (4 * unitsPerOne * 10 ^ (width m s - (i + 1))) := by
    intro k _
    rw [Nat.pow_add]
    ring
  have hupper : 4 * m * scaledStep s / (4 * unitsPerOne * 10 ^ (width m s - (i + 1))) <
      10 ^ (i + 1) := by
    rw [Nat.div_lt_iff_lt_mul hstep, ← hpow (i + 1) (Nat.le_refl _),
      show width m s - (i + 1) + (i + 1) = width m s by omega]
    exact value_lt m s
  have hlower : 10 ^ i ≤
      4 * m * scaledStep s / (4 * unitsPerOne * 10 ^ (width m s - (i + 1))) := by
    rw [Nat.le_div_iff_mul_le hstep, ← hpow i (Nat.le_succ i),
      show width m s - (i + 1) + i = width m s - 1 by omega]
    exact le_value hm s
  have hmost : 10 ^ (i + 1) ≤ 10 ^ 17 := Nat.pow_le_pow_right (by decide) (by omega)
  have hlast : 76 ≤ width m s - (i + 1) := by
    cases i with
    | zero => omega
    | succ j =>
        -- the grid before was too wide
        have hgap := nearestWithin?_eq_none (Nat.mul_pos quarter_pos (by positivity))
          (hbefore j (Nat.lt_succ_self j))
        by_contra hlt
        have hwide : 4 * unitsPerOne * 10 ^ (width m s - (j + 1)) ≤ 4 * unitsPerOne * 10 ^ 76 :=
          Nat.mul_le_mul_left _ (Nat.pow_le_pow_right (by decide) (by omega))
        have hscale := lt_pow_gridScale
        have hleast := pow_gridScale_le s
        omega
  refine ⟨?_, ?_, hlast, hinReach.covers⟩
  · omega
  · omega

end

/-- **The shortest digits of a double.** There are at most seventeen of them, and with their power
of ten they lie in the interval of the double. -/
theorem shortest_spec (tie : Tie) {m s : Nat} (hm : 0 < m) (hlt : m < 2 ^ 53) :
    ∃ digits exponent, shortest tie m s = ⟨digits, exponent + (natDigits digits).length⟩ ∧
      0 < digits ∧ digits ≤ 10 ^ 17 ∧ -324 ≤ exponent ∧
      Covers m s (decimalUnits digits exponent) := by
  rw [shortest_eq]
  cases hsearch : (List.range 17).findSome? fun i =>
      (gridPoint? tie m s i).map fun c => (i + 1, c) with
  | none =>
      have hnone := List.findSome?_eq_none_iff.1 hsearch 16 (by decide)
      exact absurd (Option.map_eq_none_iff.1 hnone) (gridPoint?_ne_none hm hlt)
  | some found =>
      obtain ⟨i, hi, hfound, hbefore⟩ := findSome?_range hsearch
      obtain ⟨c, hc, rfl⟩ := Option.map_eq_some_iff.1 hfound
      obtain ⟨hge, hfound⟩ := found_of_gridPoint? hm hi hc
        fun j hj => Option.map_eq_none_iff.1 (hbefore j hj)
      have hpos : 0 < c := Nat.lt_of_lt_of_le (by positivity) hge
      have hcount := lt_length_of_pow_le hge
      have hwidth := lt_width hm s
      obtain ⟨z, hdigits, hvalue, hlength⟩ := stripZeros_spec 17 hpos
      have hleast := hfound.least
      have hscale : gridScale = 400 := rfl
      refine ⟨stripZeros 17 c, (width m s - (i + 1) : Nat) - gridScale + z, ?_, hdigits, ?_, ?_, ?_⟩
      · dsimp only
        congr 1
        omega
      · calc stripZeros 17 c ≤ stripZeros 17 c * 10 ^ z :=
              Nat.le_mul_of_pos_right _ (by positivity)
          _ = c := hvalue.symm
          _ ≤ 10 ^ 17 := hfound.le
      · omega
      · have hunits : decimalUnits (stripZeros 17 c) ((width m s - (i + 1) : Nat) - gridScale + z) =
            decimalUnits c ((width m s - (i + 1) : Nat) - gridScale) := by
          nth_rewrite 2 [hvalue]
          rw [decimalUnits, decimalUnits, zpow_add₀ (by norm_num), zpow_natCast]
          push_cast
          ring
        rw [hunits]
        exact hfound.covers

end Criteria.Number.Binary64
