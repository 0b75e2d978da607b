import Mathlib.Order.Compare
import Criteria.Proofs.Number.DecimalOfDouble
import Criteria.Proofs.Time.Instants
import Criteria.Proofs.WellTyped

set_option autoImplicit false

/-! # Values are partially ordered

Every value that compares at all has a place (`Value.place?`): a number on a line that belongs to its
kind, or a text among the texts. Values compare exactly as their places do
(`compare_eq_compare_place`), so what holds of integers and of texts holds of all kinds at once:
comparing is antisymmetric and transitive, and it fails only for null, for what is not a number and
for values of different kinds (`compare_orders_partially`). -/

namespace Criteria

open Number Time

/-! ## Comparisons that may fail -/

/-- A comparison that may fail puts the values that it compares in order. The result for the outer
two of three values is the first of the two results that is not `eq`. -/
structure OrdersPartially {α : Type} (comparison : α → α → Option Ordering) : Prop where
  /-- The other way round, the result is the reverse. -/
  swap : ∀ a b, comparison b a = (comparison a b).map Ordering.swap
  /-- Neither of the two steps goes down. -/
  up : ∀ {a b c o p}, comparison a b = some o → comparison b c = some p → o ≠ .gt → p ≠ .gt →
    comparison a c = some (o.then p)
  /-- Neither of the two steps goes up. -/
  down : ∀ {a b c o p}, comparison a b = some o → comparison b c = some p → o ≠ .lt → p ≠ .lt →
    comparison a c = some (o.then p)

section

variable {α β : Type}

/-- Going down is going up the other way round. -/
theorem orders_partially_of_up {comparison : α → α → Option Ordering}
    (swap : ∀ a b, comparison b a = (comparison a b).map Ordering.swap)
    (up : ∀ {a b c o p}, comparison a b = some o → comparison b c = some p → o ≠ .gt → p ≠ .gt →
      comparison a c = some (o.then p)) : OrdersPartially comparison where
  swap := swap
  up := up
  down := by
    intro a b c o p hab hbc ho hp
    have hcb : comparison c b = some p.swap := by rw [swap b c, hbc, Option.map_some]
    have hba : comparison b a = some o.swap := by rw [swap a b, hab, Option.map_some]
    have hup : p.swap ≠ .gt ∧ o.swap ≠ .gt :=
      ⟨fun h => hp (Ordering.swap_inj.1 h), fun h => ho (Ordering.swap_inj.1 h)⟩
    have hthen : p.then o = o.then p := by
      cases o <;> cases p <;> first | rfl | contradiction
    rw [swap c a, up hcb hba hup.1 hup.2, Option.map_some, Ordering.swap_then, Ordering.swap_swap,
      Ordering.swap_swap, hthen]

/-- An order never fails to compare. -/
theorem orders_partially_compare [Ord α] [Std.TransOrd α] :
    OrdersPartially fun a b : α => some (Ord.compare a b) := by
  apply orders_partially_of_up
  · intro a b
    exact congrArg some Std.OrientedCmp.eq_swap
  · intro a b c o p hab hbc ho hp
    cases hab
    cases hbc
    cases h : Ord.compare a b with
    | lt =>
        exact congrArg some (Std.TransCmp.lt_of_lt_of_isLE h (Ordering.isLE_iff_ne_gt.2 hp))
    | eq => exact congrArg some (Std.TransCmp.congr_left h)
    | gt => exact absurd h ho

/-- To compare by a key that not every value has. -/
theorem OrdersPartially.comap {comparison : β → β → Option Ordering}
    (h : OrdersPartially comparison) (key : α → Option β) :
    OrdersPartially (fun a b : α => do comparison (← key a) (← key b)) := by
  apply orders_partially_of_up
  · intro a b
    cases ha : key a with
    | none => cases hb : key b <;> rfl
    | some x =>
        cases hb : key b with
        | none => rfl
        | some y => exact h.swap x y
  · intro a b c o p hab hbc ho hp
    simp only [Option.bind_eq_bind, Option.bind_eq_some_iff] at hab hbc
    obtain ⟨x, hx, y, hy, hxy⟩ := hab
    obtain ⟨y', hy', z, hz, hyz⟩ := hbc
    cases hy.symm.trans hy'
    simp only [hx, hz, Option.bind_eq_bind, Option.bind_some]
    exact h.up hxy hyz ho hp

end

theorem compare_natCast (m n : Nat) : Ord.compare (m : Int) (n : Int) = Ord.compare m n := by
  simp only [Nat.compare_eq_ite_lt, Int.compare_eq_ite_lt, Int.ofNat_lt]

theorem Uuid.compare_eq_eq_iff {a b : Uuid} : a.compare b = .eq ↔ a = b := by
  rw [compare, Nat.compare_eq_eq]
  constructor
  · intro h
    cases a
    cases b
    cases h
    rfl
  · rintro rfl
    rfl

/-! ## Places -/

/-- A place in the order of the values of one kind. -/
inductive Value.Place where
  /-- A number on the line of a kind. -/
  | number (kind : Kind) (n : Int)
  /-- A text among the texts. -/
  | text (s : String)
deriving DecidableEq

/-- The kind of the values at a place. -/
def Value.Place.kind : Place → Kind
  | .number kind _ => kind
  | .text _ => .text

/-- Places on one line are ordered as numbers, and texts character by character. -/
def Value.Place.compare : Place → Place → Option Ordering
  | .number kind m, .number kind' n => if kind = kind' then some (Ord.compare m n) else none
  | .text s, .text t => some (Ord.compare s t)
  | _, _ => none

/-- Places compare when they are numbers on one line or both texts. -/
theorem Value.Place.compare_eq_some_iff {a b : Place} {o : Ordering} : a.compare b = some o ↔
    (∃ kind m n, a = .number kind m ∧ b = .number kind n ∧ Ord.compare m n = o) ∨
      ∃ s t, a = .text s ∧ b = .text t ∧ Ord.compare s t = o := by
  constructor
  · intro h
    unfold compare at h
    split at h
    · next kind m kind' n =>
        split at h
        · next hkind =>
            subst hkind
            cases h
            exact Or.inl ⟨kind, m, n, rfl, rfl, rfl⟩
        · cases h
    · next s t =>
        cases h
        exact Or.inr ⟨s, t, rfl, rfl, rfl⟩
    · cases h
  · rintro (⟨kind, m, n, rfl, rfl, rfl⟩ | ⟨s, t, rfl, rfl, rfl⟩)
    · exact if_pos rfl
    · rfl

theorem Value.Place.compare_orders_partially : OrdersPartially Place.compare := by
  have hnumbers := orders_partially_compare (α := Int)
  have htexts := orders_partially_compare (α := String)
  apply orders_partially_of_up
  · intro a b
    cases a with
    | number kind m =>
        cases b with
        | number kind' n =>
            by_cases hkind : kind = kind'
            · simpa only [compare, if_pos hkind, if_pos hkind.symm] using hnumbers.swap m n
            · simp only [compare, if_neg hkind, if_neg (Ne.symm hkind), Option.map_none]
        | text t => rfl
    | text s =>
        cases b with
        | number kind' n => rfl
        | text t => exact htexts.swap s t
  · intro a b c o p hab hbc ho hp
    refine compare_eq_some_iff.2 ?_
    rcases compare_eq_some_iff.1 hab with ⟨kind, m, n, rfl, rfl, rfl⟩ | ⟨s, t, rfl, rfl, rfl⟩
    · rcases compare_eq_some_iff.1 hbc with ⟨_, _, k, h, rfl, rfl⟩ | ⟨_, _, h, _⟩
      · cases h
        exact Or.inl ⟨kind, m, k, rfl, rfl, Option.some.inj (hnumbers.up rfl rfl ho hp)⟩
      · cases h
    · rcases compare_eq_some_iff.1 hbc with ⟨_, _, _, h, _⟩ | ⟨_, r, h, rfl, rfl⟩
      · cases h
      · cases h
        exact Or.inr ⟨s, r, rfl, rfl, Option.some.inj (htexts.up rfl rfl ho hp)⟩

namespace Value

/-- The place of a value; null and what is not a number have none. -/
def place? : Value → Option Place
  | .null => none
  | .bool b => some (.number .bool b.toNat)
  | .int i => some (.number .int i.toInt)
  | .float x => x.units?.map (.number .float)
  | .decimal d => some (.number .decimal d.steps)
  | .text s => some (.text s)
  | .timestamp t => some (.number .timestamp t.instant)
  | .date d => some (.number .date d.dayNumber)
  | .uuid u => some (.number .uuid u.value)

/-- Values compare as their places do. -/
theorem compare_eq_compare_place (a b : Value) :
    a.compare b = (do (← a.place?).compare (← b.place?)) := by
  cases a with
  | bool x =>
      cases b with
      | bool y => cases x <;> cases y <;> rfl
      | float y => cases y <;> rfl
      | _ => rfl
  | float x =>
      cases b with
      | float y => cases x <;> cases y <;> rfl
      | _ => cases x <;> rfl
  | timestamp t =>
      cases b with
      | timestamp u => exact congrArg some (t.compare_eq_compare_instant u)
      | float y => cases y <;> rfl
      | _ => rfl
  | date d =>
      cases b with
      | date e => exact congrArg some (d.compare_eq_compare_dayNumber e)
      | float y => cases y <;> rfl
      | _ => rfl
  | uuid u =>
      cases b with
      | uuid v => exact congrArg some (compare_natCast u.value v.value).symm
      | float y => cases y <;> rfl
      | _ => rfl
  | _ =>
      cases b with
      | float y => cases y <;> rfl
      | _ => rfl

theorem compare_orders_partially : OrdersPartially Value.compare := by
  have hkeys := Place.compare_orders_partially.comap place?
  simpa only [← compare_eq_compare_place] using hkeys

/-- Values that compare are of one kind. -/
theorem kind?_eq_of_compare {a b : Value} {o : Ordering} (h : a.compare b = some o) :
    ∃ kind, a.kind? = some kind ∧ b.kind? = some kind := by
  cases a <;> cases b <;> first | exact ⟨_, rfl, rfl⟩ | cases h

theorem isSome_compare_iff {a b : Value} : (a.compare b).isSome ↔
    a ≠ .null ∧ b ≠ .null ∧ a.kind? = b.kind? ∧ a ≠ .float .nan ∧ b ≠ .float .nan := by
  constructor
  · intro h
    obtain ⟨o, ho⟩ := Option.isSome_iff_exists.1 h
    obtain ⟨kind, ha, hb⟩ := kind?_eq_of_compare ho
    have hnumber : ¬ (a = .float .nan ∨ b = .float .nan) := by
      rw [← compare_eq_none_iff ha hb, ho]
      exact Option.some_ne_none o
    refine ⟨?_, ?_, ha.trans hb.symm, not_or.1 hnumber⟩
    · rintro rfl
      cases ha
    · rintro rfl
      cases hb
  · rintro ⟨ha, -, hkind, hnumber⟩
    obtain ⟨kind, hka⟩ : ∃ kind, a.kind? = some kind := by
      cases a <;> first | exact ⟨_, rfl⟩ | contradiction
    rw [Option.isSome_iff_ne_none, Ne, compare_eq_none_iff hka (hkind ▸ hka)]
    exact not_or.2 hnumber

/-- The comparison tells whether values are equal, but for null, which equals itself. -/
theorem compare_eq_some_eq_iff {a b : Value} :
    a.compare b = some .eq ↔ a.equals b = true ∧ a ≠ .null := by
  cases a <;> cases b <;> simp [compare, equals, Binary64.equals, Int64.toInt_inj,
    Decimal.compare_eq_eq_iff, Timestamp.compare_eq_eq_iff, Date.compare_eq_eq_iff,
    Uuid.compare_eq_eq_iff]

end Value

/-- Decimals are ordered as the numbers that they are. -/
theorem Number.Decimal.compare_eq_cmp_toRat (a b : Decimal) :
    a.compare b = cmp a.toRat b.toRat := by
  have hmono : StrictMono fun n : Int => (n : ℚ) / 10 ^ maxScale := by
    intro m n hlt
    exact div_lt_div_of_pos_right (Int.cast_lt.2 hlt) (by positivity)
  exact (cmp_eq_compare a.steps b.steps).symm.trans (hmono.cmp_map_eq a.steps b.steps).symm

/-- **Values are partially ordered.** The comparison of values is antisymmetric and transitive. It
fails for null, for values of different kinds and for what is not a number, and for nothing else; it
finds two values equal exactly if they are equal and not null. Decimals compare as the numbers that
they are, whatever their scales, and timestamps as places on the time line, which outside of leap
seconds is to say by the time that has passed. -/
theorem Value.compare_partial_order :
    OrdersPartially Value.compare ∧
    (∀ a b : Value, (a.compare b).isSome ↔
      a ≠ .null ∧ b ≠ .null ∧ a.kind? = b.kind? ∧ a ≠ .float .nan ∧ b ≠ .float .nan) ∧
    (∀ a b : Value, a.compare b = some .eq ↔ a.equals b = true ∧ a ≠ .null) ∧
    (∀ d d' : Decimal,
      (Value.decimal d).compare (.decimal d') = some (cmp d.toRat d'.toRat)) ∧
    ∀ t t' : Timestamp,
      (Value.timestamp t).compare (.timestamp t') = some (Ord.compare t.instant t'.instant) ∧
      (¬ t.IsLeap → ¬ t'.IsLeap → (Value.timestamp t).compare (.timestamp t') =
        some (Ord.compare t.nanoseconds t'.nanoseconds)) := by
  refine ⟨compare_orders_partially, fun _ _ => isSome_compare_iff,
    fun _ _ => compare_eq_some_eq_iff, ?_, ?_⟩
  · intro d d'
    exact congrArg some (d.compare_eq_cmp_toRat d')
  · intro t t'
    refine ⟨congrArg some (t.compare_eq_compare_instant t'), ?_⟩
    intro ht ht'
    exact congrArg some (Timestamp.compare_eq_compare_nanoseconds ht ht')

end Criteria
