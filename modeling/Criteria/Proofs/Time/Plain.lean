import Criteria.Time.Reader
import Criteria.Proofs.Number.Written
import Criteria.Proofs.Trim

set_option autoImplicit false

/-! # Plain dates and times in texts

The plain forms are declared apart from their readers (`WrittenDate`, `WrittenClock`). They are
lenient: a year may have a sign and then any number of digits, the other numbers may have a digit
less, and blanks may stand in front of them; so a plain date and its time need no blank between them
if the day has both its digits.

Each part of a reader takes a written part off the front of the text, and says what has to follow
it, as one equivalence; the readers of whole texts put these together. -/

namespace Criteria.Time

open Criteria.Number Criteria.Text
open Payload (Digits Digits.fractionChars startsWithDigit takeDigits_of_isDigit)

/-! ## Runs of digits -/

/-- Between `least` and `most` digits. -/
structure DigitRun (least most : Nat) where
  chars : List Char
  least_le : least ≤ chars.length
  le_most : chars.length ≤ most
  isDigit : ∀ c ∈ chars, c.isDigit = true

/-- The number that the digits write. -/
def DigitRun.value {least most : Nat} (r : DigitRun least most) : Nat := digitsValue r.chars

variable {cs rest : List Char} {n most count : Nat}

theorem after?_eq_some_iff {mark : Char} : after? mark cs = some rest ↔ cs = mark :: rest := by
  cases cs with
  | nil => simp [after?]
  | cons c cs =>
      rw [after?]
      split_ifs with hc
      · simp [hc]
      · simp [hc]

theorem takeExact?_eq_some_iff :
    takeExact? count cs = some (n, rest) ↔
      ∃ r : DigitRun count count, cs = r.chars ++ rest ∧ r.value = n := by
  unfold takeExact?
  constructor
  · intro h
    dsimp only at h
    split_ifs at h with hform
    obtain ⟨rfl, rfl⟩ := Prod.mk.inj (Option.some.inj h)
    refine ⟨⟨cs.take count, hform.1.ge, hform.1.le, List.all_eq_true.1 hform.2⟩, ?_, rfl⟩
    exact (List.take_append_drop count cs).symm
  · rintro ⟨r, rfl, rfl⟩
    have hlength := Nat.le_antisymm r.le_most r.least_le
    dsimp only
    rw [List.take_left' hlength, List.drop_left' hlength,
      if_pos ⟨hlength, List.all_eq_true.2 r.isDigit⟩]
    rfl

theorem takeWhile_of_not_digit (h : startsWithDigit cs = false) :
    cs.takeWhile Char.isDigit = [] := by
  cases cs with
  | nil => rfl
  | cons c cs => exact List.takeWhile_cons_of_neg (by simpa [startsWithDigit] using h)

theorem startsWithDigit_dropWhile (cs : List Char) :
    startsWithDigit (cs.dropWhile Char.isDigit) = false := by
  have hhead := List.head?_dropWhile_not Char.isDigit cs
  cases hdrop : cs.dropWhile Char.isDigit with
  | nil => rfl
  | cons c cs =>
      rw [hdrop] at hhead
      simpa [startsWithDigit] using hhead

theorem takeWhile_take (p : Char → Bool) (k : Nat) (cs : List Char) :
    (cs.take k).takeWhile p = (cs.takeWhile p).take k := by
  induction cs generalizing k with
  | nil => simp
  | cons c cs ih =>
      cases k with
      | zero => simp
      | succ k =>
          by_cases hc : p c = true
          · simp [hc, ih]
          · simp [hc]

/-- Behind fewer digits than may be taken there is none. -/
theorem startsWithDigit_drop {most : Nat} {cs : List Char}
    (h : ((cs.takeWhile Char.isDigit).take most).length < most) :
    startsWithDigit (cs.drop ((cs.takeWhile Char.isDigit).take most).length) = false := by
  have hall : (cs.takeWhile Char.isDigit).take most = cs.takeWhile Char.isDigit := by
    rw [List.length_take] at h
    exact List.take_of_length_le (by omega)
  have hsplit := List.takeWhile_append_dropWhile (p := Char.isDigit) (l := cs)
  have hdrop : cs.drop (cs.takeWhile Char.isDigit).length = cs.dropWhile Char.isDigit := by
    nth_rewrite 2 [← hsplit]
    exact List.drop_left' rfl
  rw [hall, hdrop]
  exact startsWithDigit_dropWhile cs

/-- Behind as many digits as there are, or as may be taken, anything may follow. -/
theorem takeUpTo?_eq_some_iff :
    takeUpTo? most cs = some (n, rest) ↔
      ∃ r : DigitRun 1 most, cs = r.chars ++ rest ∧ r.value = n ∧
        (r.chars.length = most ∨ startsWithDigit rest = false) := by
  unfold takeUpTo?
  rw [takeWhile_take]
  dsimp only
  constructor
  · intro h
    split_ifs at h with hempty
    obtain ⟨rfl, rfl⟩ := Prod.mk.inj (Option.some.inj h)
    have hlength : ((cs.takeWhile Char.isDigit).take most).length ≤ most := by
      rw [List.length_take]
      exact Nat.min_le_left _ _
    refine ⟨⟨(cs.takeWhile Char.isDigit).take most, ?_, hlength, ?_⟩, ?_, rfl, ?_⟩
    · rw [Nat.one_le_iff_ne_zero, ne_eq, List.length_eq_zero_iff]
      simpa using hempty
    · intro c hc
      exact List.all_eq_true.1 List.all_takeWhile c (List.mem_of_mem_take hc)
    · have hprefix : (cs.takeWhile Char.isDigit).take most <+: cs :=
        (List.take_prefix _ _).trans (List.takeWhile_prefix _)
      exact (List.prefix_iff_eq_append.1 hprefix).symm
    · rcases Nat.lt_or_eq_of_le hlength with hlt | heq
      · exact Or.inr (startsWithDigit_drop hlt)
      · exact Or.inl heq
  · rintro ⟨r, rfl, rfl, hends⟩
    have htake : ((r.chars ++ rest).takeWhile Char.isDigit).take most = r.chars := by
      rw [List.takeWhile_append_of_pos r.isDigit]
      rcases hends with hlength | hrest
      · exact List.take_left' hlength
      · rw [takeWhile_of_not_digit hrest, List.append_nil]
        exact List.take_of_length_le r.le_most
    have hne : r.chars ≠ [] := List.ne_nil_of_length_pos r.least_le
    rw [htake, if_neg (by simpa using hne), List.drop_left' rfl]
    rfl

/-! ## Blanks -/

/-- Blank characters. -/
structure Blanks where
  chars : List Char
  blank : ∀ c ∈ chars, isBlank c = true

theorem exists_blanks (cs : List Char) : ∃ b : Blanks, cs = b.chars ++ trimStart cs := by
  refine ⟨⟨cs.takeWhile isBlank, List.all_eq_true.1 List.all_takeWhile⟩, ?_⟩
  exact (List.takeWhile_append_dropWhile (p := isBlank) (l := cs)).symm

theorem trimStart_blanks_append (b : Blanks) {c : Char} (hc : isBlank c = false) :
    trimStart (b.chars ++ c :: rest) = c :: rest := by
  rw [trimStart, List.dropWhile_append_of_pos b.blank, List.dropWhile_cons_of_neg (by simp [hc])]

theorem not_isBlank_of_isDigit {c : Char} (h : c.isDigit = true) : isBlank c = false := by
  simp only [Char.isDigit, ge_iff_le, Bool.and_eq_true, decide_eq_true_eq, UInt32.le_iff_toNat_le]
    at h
  have hlower : 48 ≤ c.toNat := h.1
  have hupper : c.toNat ≤ 57 := h.2
  simp only [isBlank, blankRanges, List.any_cons, List.any_nil, Bool.or_false, Bool.or_eq_false_iff,
    Bool.and_eq_false_iff, decide_eq_false_iff_not]
  omega

theorem takeShort?_eq_some_iff :
    takeShort? cs = some (n, rest) ↔
      ∃ (b : Blanks) (r : DigitRun 1 2), cs = b.chars ++ (r.chars ++ rest) ∧ r.value = n ∧
        (r.chars.length = 2 ∨ startsWithDigit rest = false) := by
  rw [takeShort?, takeUpTo?_eq_some_iff]
  constructor
  · rintro ⟨r, hr, hvalue, hends⟩
    obtain ⟨b, hb⟩ := exists_blanks cs
    exact ⟨b, r, by rwa [← hr], hvalue, hends⟩
  · rintro ⟨b, r, rfl, hvalue, hends⟩
    refine ⟨r, ?_, hvalue, hends⟩
    obtain ⟨c, ds, hcons⟩ := List.exists_cons_of_ne_nil (List.ne_nil_of_length_pos r.least_le)
    have hc := r.isDigit c (by simp [hcons])
    rw [hcons, List.cons_append]
    exact trimStart_blanks_append b (not_isBlank_of_isDigit hc)

/-! ## Plain dates -/

/-- A year as a plain date writes it. -/
structure WrittenYear where
  sign : List Char
  sign_eq : IsSign sign
  digits : Digits
  short : sign = [] → digits.chars.length ≤ 4

namespace WrittenYear

/-- The text of a year. -/
def chars (w : WrittenYear) : List Char := w.sign ++ w.digits.chars

/-- The year. -/
def value (w : WrittenYear) : Int :=
  if w.sign = ['-'] then -(digitsValue w.digits.chars : Int) else digitsValue w.digits.chars

end WrittenYear

theorem takeAll?_eq_some_iff :
    takeAll? cs = some (n, rest) ↔
      ∃ d : Digits, cs = d.chars ++ rest ∧ digitsValue d.chars = n ∧
        startsWithDigit rest = false := by
  rw [takeAll?, takeUpTo?_eq_some_iff]
  constructor
  · rintro ⟨r, hcs, hvalue, hends⟩
    refine ⟨⟨r.chars, List.ne_nil_of_length_pos r.least_le, r.isDigit⟩, hcs, hvalue, ?_⟩
    rcases hends with hlength | hrest
    · -- nothing is left
      have hsum := congrArg List.length hcs
      rw [List.length_append] at hsum
      have hnone : rest = [] := List.length_eq_zero_iff.1 (by omega)
      rw [hnone]
      rfl
    · exact hrest
  · rintro ⟨d, rfl, hvalue, hrest⟩
    refine ⟨⟨d.chars, List.length_pos_iff.2 d.ne_nil, by simp, d.isDigit⟩, rfl, hvalue, ?_⟩
    exact Or.inr hrest

theorem map_fst_eq_some_iff {o : Option (Nat × List Char)} {f : Nat → Int} {year : Int} :
    (o.map fun (n, r) => (f n, r)) = some (year, rest) ↔ ∃ n, o = some (n, rest) ∧ f n = year := by
  cases o with
  | none => simp
  | some x => simp [Prod.ext_iff, and_comm]

theorem takeYear?_eq_some_iff {year : Int} (hrest : startsWithDigit rest = false) :
    takeYear? cs = some (year, rest) ↔
      ∃ (b : Blanks) (w : WrittenYear), cs = b.chars ++ (w.chars ++ rest) ∧ w.value = year := by
  constructor
  · intro h
    obtain ⟨b, hb⟩ := exists_blanks cs
    rw [takeYear?] at h
    generalize trimStart cs = body at h hb
    subst hb
    split at h
    · obtain ⟨n, htake, rfl⟩ := (map_fst_eq_some_iff (f := fun n => -(n : Int))).1 h
      obtain ⟨d, rfl, rfl, -⟩ := takeAll?_eq_some_iff.1 htake
      exact ⟨b, ⟨['-'], Or.inr (Or.inr rfl), d, by simp⟩, rfl, rfl⟩
    · obtain ⟨n, htake, rfl⟩ := map_fst_eq_some_iff.1 h
      obtain ⟨d, rfl, rfl, -⟩ := takeAll?_eq_some_iff.1 htake
      exact ⟨b, ⟨['+'], Or.inr (Or.inl rfl), d, by simp⟩, rfl, rfl⟩
    · obtain ⟨n, htake, rfl⟩ := map_fst_eq_some_iff.1 h
      obtain ⟨r, rfl, rfl, -⟩ := takeUpTo?_eq_some_iff.1 htake
      exact ⟨b, ⟨[], Or.inl rfl, ⟨r.chars, List.ne_nil_of_length_pos r.least_le, r.isDigit⟩,
        fun _ => r.le_most⟩, rfl, rfl⟩
  · rintro ⟨b, ⟨sign, hsign, d, hshort⟩, rfl, rfl⟩
    have hall : takeAll? (d.chars ++ rest) = some (digitsValue d.chars, rest) :=
      takeAll?_eq_some_iff.2 ⟨d, rfl, rfl, hrest⟩
    rw [takeYear?, WrittenYear.chars, WrittenYear.value]
    rcases hsign with rfl | rfl | rfl
    · obtain ⟨c, ds, hcons⟩ := List.exists_cons_of_ne_nil d.ne_nil
      have hc := d.isDigit c (by simp [hcons])
      have hfour : takeUpTo? 4 (d.chars ++ rest) = some (digitsValue d.chars, rest) :=
        takeUpTo?_eq_some_iff.2 ⟨⟨d.chars, List.length_pos_iff.2 d.ne_nil, hshort rfl, d.isDigit⟩,
          rfl, rfl, Or.inr hrest⟩
      rw [hcons] at hfour ⊢
      rw [List.nil_append, List.cons_append, trimStart_blanks_append b (not_isBlank_of_isDigit hc)]
      split
      · next heq =>
          obtain ⟨rfl, -⟩ := List.cons.inj heq
          exact absurd rfl (ne_sign_of_isDigit hc).2
      · next heq =>
          obtain ⟨rfl, -⟩ := List.cons.inj heq
          exact absurd rfl (ne_sign_of_isDigit hc).1
      · exact map_fst_eq_some_iff.2 ⟨_, hfour, rfl⟩
    · rw [List.cons_append, List.cons_append, trimStart_blanks_append b (by decide)]
      exact map_fst_eq_some_iff.2 ⟨_, hall, rfl⟩
    · rw [List.cons_append, List.cons_append, trimStart_blanks_append b (by decide)]
      exact (map_fst_eq_some_iff (f := fun n => -(n : Int))).2 ⟨_, hall, rfl⟩

/-- A plain date as a text writes it, from its year on. -/
structure WrittenDate where
  year : WrittenYear
  beforeMonth : Blanks
  month : DigitRun 1 2
  beforeDay : Blanks
  day : DigitRun 1 2

namespace WrittenDate

/-- The text of a date. -/
def chars (w : WrittenDate) : List Char :=
  w.year.chars ++ '-' :: (w.beforeMonth.chars ++ (w.month.chars ++
    '-' :: (w.beforeDay.chars ++ w.day.chars)))

/-- The day that is written is a day of the calendar. -/
def Exists (w : WrittenDate) : Prop := InCalendar w.year.value w.month.value w.day.value

end WrittenDate

theorem ofCivil?_eq_some_iff {year : Int} {month day : Nat} {date : Date} :
    Date.ofCivil? year month day = some date ↔
      InCalendar year month day ∧ date.year = year ∧ date.month = month ∧ date.day = day := by
  unfold Date.ofCivil?
  split_ifs with h
  · constructor
    · intro heq
      obtain rfl := Option.some.inj heq
      exact ⟨h, rfl, rfl, rfl⟩
    · rintro ⟨-, rfl, rfl, rfl⟩
      rfl
  · exact iff_of_false (by simp) fun hdate => h hdate.1

/-- A day with one digit may not run into another digit. -/
theorem exists_takeDate?_iff (cs rest : List Char) :
    (∃ date, takeDate? cs = some (date, rest)) ↔
      ∃ (b : Blanks) (w : WrittenDate), cs = b.chars ++ (w.chars ++ rest) ∧ w.Exists ∧
        (w.day.chars.length = 2 ∨ startsWithDigit rest = false) := by
  simp only [takeDate?, Option.bind_eq_bind, Option.bind_eq_some_iff, Option.pure_def,
    Option.some.injEq, Prod.exists, Prod.mk.injEq, after?_eq_some_iff, takeShort?_eq_some_iff,
    ofCivil?_eq_some_iff]
  constructor
  · rintro ⟨date, year, cs₁, hyear, cs₂, rfl, month, cs₃, ⟨b₂, m, rfl, rfl, -⟩, cs₄, rfl, day, cs₅,
      ⟨b₃, d, rfl, rfl, hends⟩, date', hcivil, rfl, rfl⟩
    obtain ⟨b₁, y, rfl, rfl⟩ := (takeYear?_eq_some_iff (by rfl)).1 hyear
    exact ⟨b₁, ⟨y, b₂, m, b₃, d⟩, by simp [WrittenDate.chars], hcivil.1, hends⟩
  · rintro ⟨b, ⟨y, b₂, m, b₃, d⟩, rfl, hexists, hends⟩
    have hyear : takeYear? (b.chars ++ ((WrittenDate.chars ⟨y, b₂, m, b₃, d⟩) ++ rest)) =
        some (y.value, '-' :: (b₂.chars ++ (m.chars ++ '-' :: (b₃.chars ++ (d.chars ++ rest))))) :=
      (takeYear?_eq_some_iff (by rfl)).2 ⟨b, y, by simp [WrittenDate.chars], rfl⟩
    exact ⟨_, _, _, hyear, _, rfl, _, _, ⟨b₂, m, rfl, rfl, Or.inr rfl⟩, _, rfl, _, _,
      ⟨b₃, d, rfl, rfl, hends⟩, ⟨_, _, _, hexists⟩, ⟨hexists, rfl, rfl, rfl⟩, rfl, rfl⟩

/-! ## Plain times of day -/

/-- A plain time of day as a text writes it. -/
structure WrittenClock where
  beforeHour : Blanks
  hour : DigitRun 1 2
  beforeMinute : Blanks
  minute : DigitRun 1 2
  beforeSecond : Blanks
  second : DigitRun 1 2
  fraction : Option Digits

namespace WrittenClock

/-- The text of a time of day. -/
def chars (w : WrittenClock) : List Char :=
  w.beforeHour.chars ++ (w.hour.chars ++ ':' :: (w.beforeMinute.chars ++ (w.minute.chars ++
    ':' :: (w.beforeSecond.chars ++ (w.second.chars ++ Digits.fractionChars w.fraction)))))

end WrittenClock

/-- A clock shows this time of day; second 60 is a leap second. -/
abbrev OnClock (hour minute second : Nat) : Prop := hour < 24 ∧ minute < 60 ∧ second ≤ 60

/-- No fraction goes on here. -/
def Closed (cs : List Char) : Prop := ∀ c ∈ cs.head?, c.isDigit = false ∧ c ≠ '.'

theorem Closed.startsWithDigit (h : Closed cs) : Payload.startsWithDigit cs = false := by
  cases cs with
  | nil => rfl
  | cons c cs => exact (h c rfl).1

/-- A fraction counts to the nanosecond, and is less than a second. -/
theorem nanoseconds_lt {ds : List Char} (hds : ∀ c ∈ ds, c.isDigit = true) :
    digitsValue (ds.take 9) * Nat.pow 10 (9 - ds.length) < 1000000000 := by
  have hlt := Payload.ofDigitChars_lt fun c hc => hds c (List.mem_of_mem_take (i := 9) hc)
  rw [List.length_take] at hlt
  calc digitsValue (ds.take 9) * Nat.pow 10 (9 - ds.length)
      < 10 ^ min 9 ds.length * Nat.pow 10 (9 - ds.length) :=
        Nat.mul_lt_mul_of_pos_right hlt (Nat.pow_pos (by decide))
    _ = 10 ^ (min 9 ds.length + (9 - ds.length)) := (Nat.pow_add _ _ _).symm
    _ = 10 ^ 9 := by rw [show min 9 ds.length + (9 - ds.length) = 9 by omega]

theorem takeFraction?_sound {nano : Nat} (h : takeFraction? cs = some (nano, rest)) :
    nano < 1000000000 ∧ ∃ f : Option Digits, cs = Digits.fractionChars f ++ rest := by
  unfold takeFraction? at h
  split at h
  · next cs =>
      dsimp only at h
      split_ifs at h with hempty
      obtain ⟨rfl, rfl⟩ := Prod.mk.inj (Option.some.inj h)
      have hdigits := Binary64.isDigit_takeDigits cs
      refine ⟨nanoseconds_lt hdigits, some ⟨(takeDigits cs).1, by simpa using hempty, hdigits⟩, ?_⟩
      rw [Digits.fractionChars, List.cons_append, takeDigits_append]
  · obtain ⟨rfl, rfl⟩ := Prod.mk.inj (Option.some.inj h)
    exact ⟨by decide, none, rfl⟩

theorem exists_takeFraction? (f : Option Digits) (hrest : Closed rest) :
    ∃ nano, takeFraction? (Digits.fractionChars f ++ rest) = some (nano, rest) := by
  cases f with
  | none =>
      refine ⟨0, ?_⟩
      rw [Digits.fractionChars, List.nil_append]
      unfold takeFraction?
      split
      · exact absurd rfl (hrest '.' rfl).2
      · rfl
  | some d =>
      refine ⟨digitsValue (d.chars.take 9) * Nat.pow 10 (9 - d.chars.length), ?_⟩
      have hne : ¬ d.chars.isEmpty = true := by simpa using d.ne_nil
      rw [Digits.fractionChars, List.cons_append, takeFraction?,
        takeDigits_of_isDigit d.isDigit hrest.startsWithDigit]
      dsimp only
      rw [if_neg hne]

theorem exists_ofClock?_iff (date : Date) {hour minute second nano : Nat}
    (hnano : nano < 1000000000) :
    (∃ t, Timestamp.ofClock? date hour minute second nano = some t) ↔
      OnClock hour minute second := by
  rw [Timestamp.ofClock?]
  by_cases h : OnClock hour minute second
  · rw [if_pos h]
    refine iff_of_true ?_ h
    obtain ⟨hhour, hminute, -⟩ := h
    have hsecond : hour * 3600 + minute * 60 + min second 59 < 86400 := by omega
    have hleap : (if second = 60 then nano + nanosPerSecond else nano) < 2000000000 := by
      rw [nanosPerSecond]
      split_ifs <;> omega
    exact ⟨_, dif_pos ⟨hsecond, hleap⟩⟩
  · rw [if_neg h]
    exact iff_of_false (by simp) h

theorem date_of_ofClock? {date : Date} {hour minute second nano : Nat} {t : Timestamp}
    (h : Timestamp.ofClock? date hour minute second nano = some t) : t.date = date := by
  unfold Timestamp.ofClock? Timestamp.ofParts? at h
  split_ifs at h
  all_goals
    obtain rfl := Option.some.inj h
    rfl

/-- The time of day that is written is one that a clock shows. -/
def WrittenClock.Exists (w : WrittenClock) : Prop :=
  OnClock w.hour.value w.minute.value w.second.value

theorem exists_takeClock?_iff (date : Date) :
    (∃ t, takeClock? date cs = some (t, [])) ↔ ∃ w : WrittenClock, w.chars = cs ∧ w.Exists := by
  simp only [takeClock?, Option.bind_eq_bind, Option.bind_eq_some_iff, Option.pure_def,
    Option.some.injEq, Prod.exists, Prod.mk.injEq, after?_eq_some_iff, takeShort?_eq_some_iff]
  constructor
  · rintro ⟨t, hour, cs₁, ⟨b₁, h, rfl, rfl, -⟩, cs₂, rfl, minute, cs₃, ⟨b₂, m, rfl, rfl, -⟩, cs₄,
      rfl, second, cs₅, ⟨b₃, s, rfl, rfl, -⟩, nano, cs₆, hfraction, t', hclock, rfl, rfl⟩
    obtain ⟨hnano, f, rfl⟩ := takeFraction?_sound hfraction
    refine ⟨⟨b₁, h, b₂, m, b₃, s, f⟩, by simp [WrittenClock.chars], ?_⟩
    exact (exists_ofClock?_iff _ hnano).1 ⟨t', hclock⟩
  · rintro ⟨⟨b₁, h, b₂, m, b₃, s, f⟩, rfl, hexists⟩
    obtain ⟨nano, hfraction⟩ := exists_takeFraction? f (show Closed [] by simp [Closed])
    obtain ⟨t, ht⟩ := (exists_ofClock?_iff date (takeFraction?_sound hfraction).1).2 hexists
    rw [List.append_nil] at hfraction
    have hends : startsWithDigit (Digits.fractionChars f) = false := by
      cases f <;> rfl
    exact ⟨t, _, _, ⟨b₁, h, rfl, rfl, Or.inr rfl⟩, _, rfl, _, _, ⟨b₂, m, rfl, rfl, Or.inr rfl⟩, _,
      rfl, _, _, ⟨b₃, s, rfl, rfl, Or.inr hends⟩, nano, [], hfraction, t, ht, rfl, rfl⟩

/-! ## Plain forms of whole texts -/

/-- No blank stands at the start, as in a text that was trimmed. -/
def Trimmed (cs : List Char) : Prop := ∀ c ∈ cs.head?, isBlank c = false

theorem Trimmed.eq_nil {b : Blanks} (h : Trimmed (b.chars ++ cs)) : b.chars = [] := by
  cases hb : b.chars with
  | nil => rfl
  | cons c ds =>
      have hfalse := h c (by simp [hb])
      have htrue := b.blank c (by simp [hb])
      exact absurd (htrue.symm.trans hfalse) (by decide)

/-- No blanks. -/
def Blanks.none : Blanks := ⟨[], by simp⟩

theorem exists_readDate?_iff (hcs : Trimmed cs) :
    (∃ d, readDate? cs = some d) ↔ ∃ w : WrittenDate, w.chars = cs ∧ w.Exists := by
  constructor
  · rintro ⟨d, hd⟩
    obtain ⟨⟨date, rest⟩, htake, hwhole⟩ := Option.bind_eq_some_iff.1 hd
    cases rest with
    | cons c rest => cases hwhole
    | nil =>
        obtain ⟨b, w, rfl, hexists, -⟩ := (exists_takeDate?_iff _ _).1 ⟨date, htake⟩
        rw [hcs.eq_nil, List.append_nil, List.nil_append]
        exact ⟨w, rfl, hexists⟩
  · rintro ⟨w, rfl, hexists⟩
    obtain ⟨date, hdate⟩ := (exists_takeDate?_iff w.chars []).2
      ⟨.none, w, by simp [Blanks.none], hexists, Or.inr rfl⟩
    exact ⟨date, by rw [readDate?, hdate]; rfl⟩

theorem exists_whole?_iff {α : Type} (x : α × List Char) :
    (∃ a, whole? x = some a) ↔ x.2 = [] := by
  rcases x with ⟨a, _ | ⟨c, cs⟩⟩
  · exact iff_of_true ⟨a, rfl⟩ rfl
  · exact iff_of_false (by simp [whole?]) (by simp)

theorem exists_readMarked?_iff (hcs : Trimmed cs) :
    (∃ t, readMarked? cs = some t) ↔ ∃ (d : WrittenDate) (c : WrittenClock),
      d.chars ++ 'T' :: c.chars = cs ∧ d.Exists ∧ c.Exists := by
  constructor
  · rintro ⟨t, ht⟩
    obtain ⟨⟨date, cs₁⟩, hdate, ht⟩ := Option.bind_eq_some_iff.1 ht
    obtain ⟨cs₂, hmark, ht⟩ := Option.bind_eq_some_iff.1 ht
    obtain ⟨⟨t', cs₃⟩, hclock, ht⟩ := Option.bind_eq_some_iff.1 ht
    obtain rfl : cs₃ = [] := (exists_whole?_iff (t', cs₃)).1 ⟨t, ht⟩
    obtain rfl := after?_eq_some_iff.1 hmark
    obtain ⟨b, d, rfl, hd, -⟩ := (exists_takeDate?_iff _ _).1 ⟨date, hdate⟩
    obtain ⟨c, rfl, hc⟩ := (exists_takeClock?_iff date).1 ⟨t', hclock⟩
    rw [hcs.eq_nil]
    exact ⟨d, c, rfl, hd, hc⟩
  · rintro ⟨d, c, rfl, hd, hc⟩
    obtain ⟨date, hdate⟩ := (exists_takeDate?_iff (d.chars ++ 'T' :: c.chars) _).2
      ⟨.none, d, rfl, hd, Or.inr rfl⟩
    obtain ⟨t, ht⟩ := (exists_takeClock?_iff date).2 ⟨c, rfl, hc⟩
    have hmark : after? 'T' ('T' :: c.chars) = some c.chars := after?_eq_some_iff.2 rfl
    refine ⟨t, ?_⟩
    simp only [readMarked?, hdate, Option.bind_eq_bind, Option.bind_some, hmark, ht]
    rfl

theorem trimmed_trimStart (cs : List Char) : Trimmed (trimStart cs) :=
  not_isBlank_of_head?_trimStart

theorem Trimmed.trimStart_eq (h : Trimmed cs) : trimStart cs = cs := trimStart_eq_self h

/-- What is left of a text without the blanks at its ends does not start with a blank. -/
theorem trimmed_trim (cs : List Char) : Trimmed (trim cs) := not_isBlank_of_head?_trim

theorem takeClock?_trimStart (date : Date) (cs : List Char) :
    takeClock? date (trimStart cs) = takeClock? date cs := by
  rw [takeClock?, takeClock?, takeShort?, takeShort?, (trimmed_trimStart cs).trimStart_eq]

/-- A time of day starts with a digit unless blanks stand in front of it. -/
theorem startsWithDigit_clock (w : WrittenClock) :
    startsWithDigit w.chars = false ↔ w.beforeHour.chars ≠ [] := by
  rw [WrittenClock.chars]
  cases hb : w.beforeHour.chars with
  | nil =>
      obtain ⟨c, ds, hcons⟩ :=
        List.exists_cons_of_ne_nil (List.ne_nil_of_length_pos w.hour.least_le)
      have hc := w.hour.isDigit c (by simp [hcons])
      rw [hcons, List.nil_append, List.cons_append]
      exact iff_of_false (by simp [startsWithDigit, hc]) (by simp)
  | cons c ds =>
      refine iff_of_true ?_ (by simp)
      rw [List.cons_append, startsWithDigit]
      by_contra hdigit
      have hblank := w.beforeHour.blank c (by simp [hb])
      rw [not_isBlank_of_isDigit (by simpa using hdigit)] at hblank
      cases hblank

theorem exists_readSpaced?_iff (hcs : Trimmed cs) :
    (∃ t, readSpaced? cs = some t) ↔ ∃ (d : WrittenDate) (c : WrittenClock),
      d.chars ++ c.chars = cs ∧ d.Exists ∧ c.Exists ∧
        (c.beforeHour.chars = [] → d.day.chars.length = 2) := by
  constructor
  · rintro ⟨t, ht⟩
    obtain ⟨⟨date, cs₁⟩, hdate, ht⟩ := Option.bind_eq_some_iff.1 ht
    obtain ⟨⟨t', cs₂⟩, hclock, ht⟩ := Option.bind_eq_some_iff.1 ht
    obtain rfl : cs₂ = [] := (exists_whole?_iff (t', cs₂)).1 ⟨t, ht⟩
    rw [takeClock?_trimStart] at hclock
    obtain ⟨b, d, rfl, hd, hends⟩ := (exists_takeDate?_iff _ _).1 ⟨date, hdate⟩
    obtain ⟨c, rfl, hc⟩ := (exists_takeClock?_iff date).1 ⟨t', hclock⟩
    rw [hcs.eq_nil]
    refine ⟨d, c, rfl, hd, hc, ?_⟩
    intro hnone
    rcases hends with hlength | hdigit
    · exact hlength
    · exact absurd hnone ((startsWithDigit_clock c).1 hdigit)
  · rintro ⟨d, c, rfl, hd, hc, hroom⟩
    have hends : d.day.chars.length = 2 ∨ startsWithDigit c.chars = false := by
      by_cases hnone : c.beforeHour.chars = []
      · exact Or.inl (hroom hnone)
      · exact Or.inr ((startsWithDigit_clock c).2 hnone)
    obtain ⟨date, hdate⟩ := (exists_takeDate?_iff (d.chars ++ c.chars) _).2
      ⟨.none, d, rfl, hd, hends⟩
    obtain ⟨t, ht⟩ := (exists_takeClock?_iff date).2 ⟨c, rfl, hc⟩
    refine ⟨t, ?_⟩
    simp only [readSpaced?, hdate, Option.bind_eq_bind, Option.bind_some, takeClock?_trimStart, ht]
    rfl

end Criteria.Time
