import Criteria.Proofs.Payload.Doubles

set_option autoImplicit false

/-! # Decoding doubles that were written

A double is written with the fewest digits that belong to no other double, but the reader's scaling
is not exact, so the double that comes back is not always the same one. It always is a double, with
the same sign and less than four of its steps away, and it is the same one where the digits that are
written and their power of ten are doubles themselves (`decode_writeCriteria_doubles`). -/

namespace Criteria

open Number Binary64 Payload

/-! ## Doubles -/

namespace Number.Binary64

/-- The parts of a double are known from its units. -/
theorem shift_le_of_units_eq {m s m' s' : Nat} (hm : m < 2 ^ 53) (hc : Canonical m' s')
    (h : m' * 2 ^ s' = m * 2 ^ s) : s' ≤ s := by
  by_contra hlt
  obtain ⟨k, rfl⟩ := Nat.exists_eq_add_of_lt (Nat.not_le.1 hlt)
  have hnormal : 2 ^ 52 ≤ m' := hc.2.2.resolve_right (by omega)
  have hfactor : m' * 2 ^ (k + 1) = m := by
    refine Nat.eq_of_mul_eq_mul_right (show 0 < 2 ^ s by positivity) ?_
    rw [← h, Nat.mul_assoc, ← Nat.pow_add]
    congr 2
    omega
  have htwo : 2 ^ 1 ≤ 2 ^ (k + 1) := Nat.pow_le_pow_right (by decide) (by omega)
  have hmul := Nat.mul_le_mul hnormal htwo
  omega

theorem finite_eq_of_units_eq (negative : Bool) {m s m' s' : Nat} (hc : Canonical m s)
    (hc' : Canonical m' s') (h : m' * 2 ^ s' = m * 2 ^ s) :
    Binary64.finite negative m' s' hc' = .finite negative m s hc := by
  obtain rfl : s' = s :=
    Nat.le_antisymm (shift_le_of_units_eq hc.1 hc' h) (shift_le_of_units_eq hc'.1 hc h.symm)
  obtain rfl : m' = m := Nat.eq_of_mul_eq_mul_right (show 0 < 2 ^ s' by positivity) h
  rfl

/-- Finite doubles of one sign, less than four steps of the first of them apart. -/
inductive Near : Binary64 → Binary64 → Prop where
  | finite (negative : Bool) {m s m' s' : Nat} (hc : Canonical m s) (hc' : Canonical m' s')
      (h : |(m' * 2 ^ s' : ℚ) - m * 2 ^ s| < 4 * 2 ^ s) :
      Near (.finite negative m s hc) (.finite negative m' s' hc')

theorem near_self (negative : Bool) {m s : Nat} (hc : Canonical m s) :
    Near (.finite negative m s hc) (.finite negative m s hc) := by
  refine .finite negative hc hc ?_
  rw [sub_self, abs_zero]
  positivity

/-- A double comes back from its text as one near it, and as itself if the written digits and their
power of ten are doubles. -/
structure ReadBack (x y : Binary64) : Prop where
  near : x.Near y
  same : ∃ n : Numeral, n.chars = Layout.json.write x ∧
    (n.significand ≤ 2 ^ 53 → n.exponent.natAbs ≤ 22 → y = x)

end Number.Binary64

/-! ## The texts of doubles -/

namespace Payload

/-- The text of a zero. -/
def zeroNumeral (negative : Bool) : Numeral where
  negative := negative
  whole := .ofNat 0
  noLeadingZero := noLeadingZero_natDigits 0
  fraction := some (.ofNat 0)
  power := none

/-- The text of the largest double. -/
def largestNumeral (negative : Bool) : Numeral where
  negative := negative
  whole := .ofNat 1
  noLeadingZero := noLeadingZero_natDigits 1
  fraction := some (.ofNat 7976931348623157)
  power := some (.ofInt 308)

/-- The text of a number is the one of a double that it is read as. -/
structure Numeral.Restores (n : Numeral) (x : Binary64) : Prop where
  chars : n.chars = Layout.json.write x
  notInteger : ¬ n.IsInteger
  double : n.double? = some x

theorem restores_zero (negative : Bool) : (zeroNumeral negative).Restores (zero negative) := by
  refine ⟨?_, ?_, ?_⟩
  · cases negative with
    | true => rfl
    | false => rfl
  · rintro ⟨h, -⟩
    cases h
  · cases negative with
    | true => decide +kernel
    | false => decide +kernel

theorem canonical_largest : Canonical (2 ^ 53 - 1) 2045 := by decide

theorem restores_largest (negative : Bool) :
    (largestNumeral negative).Restores
      (.finite negative (2 ^ 53 - 1) 2045 canonical_largest) := by
  refine ⟨?_, ?_, ?_⟩
  · cases negative with
    | true => decide +kernel
    | false => decide +kernel
  · rintro ⟨h, -⟩
    cases h
  · cases negative with
    | true => decide +kernel
    | false => decide +kernel

end Payload

/-- A double whose text is read as itself comes back as itself. -/
theorem Literal.exists_readBack_of_restores {n : Numeral} {negative : Bool} {m s : Nat}
    {hc : Canonical m s} (h : n.Restores (.finite negative m s hc)) :
    ∃ y, (Literal.float (.finite negative m s hc)).ReadsAs (.float y) ∧
      (Binary64.finite negative m s hc).ReadBack y :=
  have hword : ¬ n.IsWord := fun hw => h.notInteger hw.integer
  ⟨_, ⟨.number n, h.chars, .double hword h.double⟩, near_self negative hc, n, h.chars,
    fun _ _ => rfl⟩

/-- Every finite double is read back from its text. -/
theorem Literal.exists_readBack {x : Binary64} (hx : x.isFinite = true) :
    ∃ y, (Literal.float x).ReadsAs (.float y) ∧ x.ReadBack y := by
  cases x with
  | nan => cases hx
  | infinite negative => cases hx
  | finite negative m s hc =>
      rcases Nat.eq_zero_or_pos m with rfl | hm
      · obtain rfl : s = 0 := hc.2.2.resolve_left (by decide)
        exact exists_readBack_of_restores (restores_zero negative)
      by_cases hlargest : m = 2 ^ 53 - 1 ∧ s = 2045
      · obtain ⟨rfl, rfl⟩ := hlargest
        exact exists_readBack_of_restores (restores_largest negative)
      · obtain ⟨n, hchars, rfl, hn⟩ := exists_denotes negative hc hm
        obtain ⟨m', s', hc', hdouble, hunits⟩ := hn.exists_double hc hlargest
        have hword : ¬ n.IsWord := fun hw => hn.notInteger hw.integer
        refine ⟨.finite n.negative m' s' hc', ⟨.number n, hchars, .double hword hdouble⟩, ?_, n,
          hchars, ?_⟩
        · refine .finite n.negative hc hc' ?_
          have hnear := abs_scaledTo_sub_lt hc.1 hn.least hn.covers
          rw [← hunits] at hnear
          push_cast at hnear
          exact hnear
        · intro hsignificand hexponent
          exact finite_eq_of_units_eq n.negative hc hc'
            (hunits.trans (scaledTo_eq hc hsignificand hexponent hn.covers))

/-! ## Criteria -/

/-- What a constant comes back as: a finite double as one near it, and every other constant as
itself. -/
def Literal.ReadBack : Literal → Literal → Prop
  | .float x, l => ∃ y, l = .float y ∧ x.ReadBack y
  | l, l' => l' = l

/-- A criterion comes back with its own property and operator. -/
structure Criterion.ReadBack (c c' : Criterion) : Prop where
  property : c'.property = c.property
  operator : c'.operator = c.operator
  value : c.value.ReadBack c'.value

theorem Criterion.exists_readBack {c : Criterion}
    (h : ∀ x, c.value = .float x → x.isFinite = true) : ∃ c', c.ReadsAs c' ∧ c.ReadBack c' := by
  obtain ⟨property, operator, value⟩ := c
  have hself : (∀ x, value ≠ .float x) → value.ReadBack value →
      ∃ c', Criterion.ReadsAs ⟨property, operator, value⟩ c' ∧
        Criterion.ReadBack ⟨property, operator, value⟩ c' :=
    fun hne hback => ⟨_, Criterion.readsAs_self hne, rfl, rfl, hback⟩
  cases value with
  | float x =>
      obtain ⟨y, hreads, hback⟩ := Literal.exists_readBack (h x rfl)
      exact ⟨⟨property, operator, .float y⟩, ⟨rfl, rfl, hreads⟩, rfl, rfl, y, rfl, hback⟩
  | null => exact hself nofun rfl
  | bool b => exact hself nofun rfl
  | int w => exact hself nofun rfl
  | text s => exact hself nofun rfl

/-- **Written criteria come back.** If no double among the constants is infinite or no number, the
text is decoded, exactly if it is within the limits, to criteria that differ from the written ones
in the last places of some doubles only. -/
theorem decode_writeCriteria_doubles {cs : List Criterion}
    (h : ∀ c ∈ cs, ∀ x, c.value = .float x → x.isFinite = true) :
    ∃ cs', List.Forall₂ Criterion.ReadBack cs cs' ∧ ∀ limits : Limits,
      ((limits.decode (some (String.ofList (writeCriteria cs)))).outcome = .ok cs' ↔
        byteLength (writeCriteria cs) ≤ limits.maxPayloadBytes ∧
          cs.length ≤ limits.maxCriteria) := by
  have hexists : ∃ cs', List.Forall₂ Criterion.ReadsAs cs cs' ∧
      List.Forall₂ Criterion.ReadBack cs cs' := by
    induction cs with
    | nil => exact ⟨[], .nil, .nil⟩
    | cons c cs ih =>
        obtain ⟨cs', hreads, hback⟩ := ih fun d hd => h d (List.mem_cons_of_mem c hd)
        obtain ⟨c', hc, hc'⟩ := Criterion.exists_readBack (h c List.mem_cons_self)
        exact ⟨c' :: cs', .cons hc hreads, .cons hc' hback⟩
  obtain ⟨cs', hreads, hback⟩ := hexists
  exact ⟨cs', hback, fun limits => Limits.decode_written hreads⟩

/-- One of the doubles that come back as a neighbour: `1e-23`. -/
def tenToMinus23 : Binary64 := .finite false 6805647338418769 945 (by decide)

/-- Both zeros, the least and the largest double, one that is a short sum of powers of two, one that
is not, and two that come back as neighbours. -/
theorem decode_writeCriteria_doubles_neighbours :
    let xs : List Binary64 :=
      [tenToMinus23, .finite false 9007199254740991 1074 (by decide),
        .finite true 7205759403792794 1018 (by decide),
        .finite false 5629499534213120 1023 (by decide), .zero false, .zero true,
        .finite true 1 0 (by decide),
        .finite true 9007199254740991 2045 (by decide)]
    let cs : List Criterion := xs.map fun x => ⟨"P", "=", .float x⟩
    ∃ cs', List.Forall₂ Criterion.ReadBack cs cs' ∧
      (Limits.decode {} (some (String.ofList (writeCriteria cs)))).outcome = .ok cs' := by
  intro xs cs
  have hfinite : ∀ c ∈ cs, ∀ x, c.value = .float x → x.isFinite = true := by
    intro c hc x hx
    obtain ⟨y, hy, rfl⟩ := List.mem_map.1 hc
    cases hx
    have hall : ∀ y ∈ xs, y.isFinite = true := by decide
    exact hall _ hy
  obtain ⟨cs', hback, hdecode⟩ := decode_writeCriteria_doubles hfinite
  exact ⟨cs', hback, (hdecode {}).2 (by decide +kernel)⟩

/-- Not every finite double comes back as itself. -/
theorem decode_writeCriteria_neighbour :
    ¬ ∀ (limits : Limits) (x : Binary64), x.isFinite = true →
      byteLength (writeCriteria [⟨"P", "=", .float x⟩]) ≤ limits.maxPayloadBytes →
        1 ≤ limits.maxCriteria →
          (limits.decode (some (String.ofList (writeCriteria [⟨"P", "=", .float x⟩])))).outcome =
            .ok [⟨"P", "=", .float x⟩] := by
  intro hall
  have hsame := hall {} tenToMinus23 rfl (by decide +kernel) (by decide)
  have hneighbour : (Limits.decode {} (some (String.ofList
      (writeCriteria [⟨"P", "=", .float tenToMinus23⟩])))).outcome =
        .ok [⟨"P", "=", .float (.finite false 6805647338418770 945 (by decide))⟩] := by
    decide +kernel
  rw [hneighbour] at hsame
  revert hsame
  decide

end Criteria
