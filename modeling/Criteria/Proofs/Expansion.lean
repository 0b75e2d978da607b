import Criteria.Settings.Expansion
import Mathlib.Data.List.Infix
import Mathlib.Data.List.TakeWhile

set_option autoImplicit false

/-! # What references expand to

A text falls into *pieces*, its references and the characters between them. Filling in the value of
every reference that is set, and keeping the others, is a single pass in which no value is read
again (`onePass`). `expand` works on the whole text instead, once for each reference, so it also
replaces what reads like the reference inside of a value, inside of the name of another reference,
or where a value meets the text around it.

It comes to the single pass if there is nothing of that kind (`Undisturbed`): each step then
replaces the pieces of one name and nothing else (`replaceAll_fill`). None of the conditions can be
left out (`expand_not_onePass`). -/

namespace Criteria.Settings

variable {lookup : String → Option String} {text : List Char}

/-! ## Pieces -/

/-- A piece of a text. -/
inductive Piece where
  | char (c : Char)
  | named (name : List Char)
deriving DecidableEq

/-- The pieces of a text, from left to right; the first `skip` characters belong to a reference that
has been found. -/
def pieces (skip : Nat) : List Char → List Piece
  | [] => []
  | c :: cs =>
      match skip with
      | k + 1 => pieces k cs
      | 0 => match referenceAt? (c :: cs) with
          | some name => .named name :: pieces (name.length + 2) cs
          | none => .char c :: pieces 0 cs

/-- The characters of a piece, where some references have values. -/
def Piece.fill (value : List Char → Option (List Char)) : Piece → List Char
  | .char c => [c]
  | .named name => (value name).getD (reference name)

/-- The characters of pieces, where some references have values. -/
def fill (value : List Char → Option (List Char)) (ps : List Piece) : List Char :=
  ps.flatMap (Piece.fill value)

/-- The value of a reference. -/
def valueOf (lookup : String → Option String) (name : List Char) : Option (List Char) :=
  (lookup (String.ofList name)).map String.toList

/-- The text in which, from left to right, each reference that is set is replaced by its value and
everything else is copied. -/
def onePass (lookup : String → Option String) (text : List Char) : List Char :=
  fill (valueOf lookup) (pieces 0 text)

/-- Pieces of a text: a character starts no reference, and names are not empty and hold no closing
brace. -/
inductive Parts : List Char → List Piece → Prop where
  | nil : Parts [] []
  | char {c : Char} {cs : List Char} {ps : List Piece} (h : referenceAt? (c :: cs) = none)
      (hps : Parts cs ps) : Parts (c :: cs) (.char c :: ps)
  | named {name cs : List Char} {ps : List Piece} (hname : name ≠ []) (hclose : '\x7d' ∉ name)
      (hps : Parts cs ps) : Parts (reference name ++ cs) (.named name :: ps)

theorem ne_close_iff {name : List Char} :
    (∀ c ∈ name, (c != '\x7d') = true) ↔ '\x7d' ∉ name := by
  constructor
  · intro h hmem
    exact absurd (h _ hmem) (by decide)
  · intro h c hc
    have hne : c ≠ '\x7d' := fun heq => h (heq ▸ hc)
    simpa using hne

/-- What reads as a reference is one, with a name and the text behind it. -/
theorem exists_of_referenceAt? {cs name : List Char} (h : referenceAt? cs = some name) :
    ∃ rest, cs = reference name ++ rest ∧ name ≠ [] ∧ '\x7d' ∉ name := by
  unfold referenceAt? at h
  cases hbody : afterOpening? cs with
  | none => simp [hbody] at h
  | some body =>
      have hcs : cs = '$' :: '\x7b' :: body := by
        unfold afterOpening? at hbody
        split at hbody
        · simpa using hbody
        · cases hbody
      simp only [hbody, Option.bind_eq_bind, Option.bind_some] at h
      split at h
      · cases h
      · next hname =>
          simp only [Option.some.injEq] at h
          subst h
          simp only [Bool.or_eq_true, List.isEmpty_iff, beq_iff_eq, not_or] at hname
          obtain ⟨hne, hlength⟩ := hname
          -- the run of other characters ends, and so a closing brace stands behind it
          have hsplit := List.takeWhile_append_dropWhile (p := (· != '\x7d')) (l := body)
          cases hdrop : body.dropWhile (· != '\x7d') with
          | nil =>
              rw [hdrop, List.append_nil] at hsplit
              rw [hsplit] at hlength
              exact absurd rfl hlength
          | cons c rest =>
              have hc : c = '\x7d' := by
                have := List.head?_dropWhile_not (· != '\x7d') body
                simpa [hdrop] using this
              refine ⟨rest, ?_, hne, ?_⟩
              · rw [hcs, reference]
                nth_rewrite 1 [← hsplit]
                rw [hdrop, hc]
                simp
              · intro hmem
                exact absurd (List.mem_takeWhile_imp hmem) (by decide)

/-- No reference starts a text only where it does not open one, or no name follows, or the name has
no end. -/
theorem not_close_of_referenceAt?_eq_none {body : List Char}
    (h : referenceAt? ('$' :: '\x7b' :: body) = none) :
    body.head? = some '\x7d' ∨ '\x7d' ∉ body := by
  unfold referenceAt? at h
  simp only [afterOpening?, Option.bind_eq_bind, Option.bind_some] at h
  by_cases hname : ((body.takeWhile (· != '\x7d')).isEmpty ||
      (body.takeWhile (· != '\x7d')).length == body.length) = true
  · simp only [Bool.or_eq_true, List.isEmpty_iff, beq_iff_eq] at hname
    rcases hname with hempty | hlength
    · cases body with
      | nil => exact Or.inr (by simp)
      | cons c cs =>
          left
          by_contra hc
          have hc' : (c != '\x7d') = true := by simpa using hc
          simp [hc'] at hempty
    · right
      have hprefix := List.takeWhile_prefix (l := body) (· != '\x7d')
      rw [← hprefix.eq_of_length hlength]
      exact ne_close_iff.1 fun c hc => by simpa using List.mem_takeWhile_imp hc
  · rw [if_neg hname] at h
    cases h

theorem pieces_append (pre cs : List Char) : pieces pre.length (pre ++ cs) = pieces 0 cs := by
  induction pre with
  | nil => rfl
  | cons c pre ih => simpa [pieces] using ih

/-- The pieces that a text falls into. -/
theorem parts_pieces (text : List Char) : Parts text (pieces 0 text) := by
  -- The induction is on the length: behind a reference the text goes on further than by one place.
  induction hlength : text.length using Nat.strong_induction_on generalizing text with
  | _ n ih =>
      cases text with
      | nil => exact .nil
      | cons c cs =>
          simp only [List.length_cons] at hlength
          cases hread : referenceAt? (c :: cs) with
          | none =>
              simp only [pieces, hread]
              exact .char hread (ih cs.length (by omega) cs rfl)
          | some name =>
              obtain ⟨rest, hcs, hne, hclose⟩ := exists_of_referenceAt? hread
              have htail : cs = ('\x7b' :: name ++ ['\x7d']) ++ rest := by
                simpa [reference] using (List.cons.inj hcs).2
              have hskip : pieces (name.length + 2) cs = pieces 0 rest := by
                rw [htail, ← pieces_append ('\x7b' :: name ++ ['\x7d']) rest]
                simp
              simp only [pieces, hread]
              rw [hskip, hcs]
              refine .named hne hclose (ih rest.length ?_ rest rfl)
              rw [htail] at hlength
              simp only [List.length_append] at hlength
              omega

/-! ## Replacing -/

section

variable {old new : List Char}

theorem replaceAll_length_append (old new pre cs : List Char) :
    replaceAll old new pre.length (pre ++ cs) = replaceAll old new 0 cs := by
  induction pre with
  | nil => rfl
  | cons c pre ih => simpa [replaceAll] using ih

/-- An occurrence at the start is replaced. -/
theorem replaceAll_occurrence (hold : old ≠ []) (new cs : List Char) :
    replaceAll old new 0 (old ++ cs) = new ++ replaceAll old new 0 cs := by
  obtain ⟨c, tail, rfl⟩ := List.exists_cons_of_ne_nil hold
  have hprefix : (c :: tail).isPrefixOf (c :: (tail ++ cs)) = true := by
    rw [List.isPrefixOf_iff_prefix, ← List.cons_append]
    exact List.prefix_append _ _
  rw [List.cons_append, replaceAll, if_pos hprefix]
  simp only [List.length_cons, Nat.add_sub_cancel, replaceAll_length_append]

/-- Where no occurrence starts, characters are copied. -/
theorem replaceAll_append_of_not_starts {pre cs : List Char}
    (h : ∀ s, s <:+ pre → s ≠ [] → ¬ old <+: s ++ cs) :
    replaceAll old new 0 (pre ++ cs) = pre ++ replaceAll old new 0 cs := by
  induction pre with
  | nil => rfl
  | cons c pre ih =>
      have hhead : ¬ old.isPrefixOf (c :: (pre ++ cs)) = true := by
        rw [List.isPrefixOf_iff_prefix]
        exact h (c :: pre) List.suffix_rfl (by simp)
      rw [List.cons_append, replaceAll, if_neg hhead]
      simp only [List.cons_append, List.cons.injEq, true_and]
      refine ih ?_
      intro s hs hne
      exact h s (hs.trans (List.suffix_cons c pre)) hne

end

/-! ## Pieces that stay apart -/

/-- A value holds no opening of a reference and makes none with the text around it: it is not empty,
does not start with a brace and does not end with a dollar sign. -/
structure Harmless (value : List Char) : Prop where
  ne_nil : value ≠ []
  start : value.head? ≠ some '\x7b'
  opening : ¬ ['$', '\x7b'] <:+: value
  finish : value.getLast? ≠ some '$'

instance (value : List Char) : Decidable (Harmless value) :=
  decidable_of_iff (value ≠ [] ∧ value.head? ≠ some '\x7b' ∧ ¬ ['$', '\x7b'] <:+: value ∧
      value.getLast? ≠ some '$')
    ⟨fun ⟨hne, hstart, hopening, hfinish⟩ => ⟨hne, hstart, hopening, hfinish⟩,
      fun h => ⟨h.ne_nil, h.start, h.opening, h.finish⟩⟩

section

variable {value : List Char → Option (List Char)} {name : List Char} {ps : List Piece}

/-- No reference starts inside of a harmless value. -/
theorem Harmless.not_starts {v s : List Char} (hv : Harmless v) (hs : s <:+ v) (hne : s ≠ [])
    (name cs : List Char) : ¬ reference name <+: s ++ cs := by
  rintro ⟨tail, htail⟩
  match s with
  | [] => exact hne rfl
  | [c] =>
      obtain ⟨rfl, -⟩ := List.cons.inj htail
      obtain ⟨pre, rfl⟩ := hs
      exact hv.finish (by simp)
  | c :: d :: s =>
      simp only [reference, List.cons_append, List.cons.injEq] at htail
      obtain ⟨rfl, rfl, -⟩ := htail
      obtain ⟨pre, rfl⟩ := hs
      exact hv.opening ⟨pre, s, by simp⟩

theorem append_close_inj {as bs cs ds : List Char} (ha : '\x7d' ∉ as) (hb : '\x7d' ∉ bs)
    (h : as ++ '\x7d' :: cs = bs ++ '\x7d' :: ds) : as = bs := by
  have htake := congrArg (List.takeWhile (· != '\x7d')) h
  rw [List.takeWhile_append_of_pos (ne_close_iff.2 ha),
    List.takeWhile_append_of_pos (ne_close_iff.2 hb)] at htake
  simpa using htake

/-- A reference that starts inside of another one ends where that one ends. -/
theorem suffix_of_starts {m s cs : List Char} (hclose : '\x7d' ∉ name) (hm : '\x7d' ∉ m)
    (hs : s <:+ reference m) (hne : s ≠ []) (h : reference name <+: s ++ cs) :
    s = reference name := by
  obtain ⟨pre, hpre⟩ := hs
  -- the closing brace of `m` is the only one in `s`, and the last character of it
  obtain ⟨body, rfl⟩ : ∃ body, s = body ++ ['\x7d'] := by
    obtain ⟨body, c, rfl⟩ := (List.eq_nil_or_concat s).resolve_left hne
    rw [List.concat_eq_append, ← List.append_assoc, reference] at hpre
    obtain ⟨-, hc⟩ := List.append_inj' hpre rfl
    exact ⟨body, by rw [List.concat_eq_append, hc]⟩
  have hbody : '\x7d' ∉ body := by
    intro hmem
    rw [← List.append_assoc, reference] at hpre
    obtain ⟨hfront, -⟩ := List.append_inj' hpre rfl
    have : '\x7d' ∈ '$' :: '\x7b' :: m := hfront ▸ List.mem_append_right pre hmem
    simp [hm] at this
  have hopened : '\x7d' ∉ '$' :: '\x7b' :: name := by simp [hclose]
  obtain ⟨tail, htail⟩ := h
  have hsame : '$' :: '\x7b' :: name ++ '\x7d' :: tail = body ++ '\x7d' :: cs := by
    simpa [reference] using htail
  rw [reference, ← append_close_inj hopened hbody hsame]

/-- A reference that ends another one opens inside of its name. -/
theorem suffix_of_reference {m : List Char} (hne : m ≠ name) (h : reference name <:+ reference m) :
    '$' :: '\x7b' :: name <:+ m := by
  obtain ⟨pre, hpre⟩ := h
  rw [reference, reference, ← List.append_assoc] at hpre
  obtain ⟨hfront, -⟩ := List.append_inj' hpre rfl
  match pre with
  | [] =>
      obtain rfl : name = m := by simpa using hfront
      exact absurd rfl hne
  | [c] => simp at hfront
  | c :: d :: pre =>
      obtain ⟨-, -, hm⟩ : c = '$' ∧ d = '\x7b' ∧ pre ++ '$' :: '\x7b' :: name = m := by
        simpa using hfront
      exact ⟨pre, hm⟩

theorem fill_cons (value : List Char → Option (List Char)) (p : Piece) (ps : List Piece) :
    fill value (p :: ps) = p.fill value ++ fill value ps := rfl

/-- Without closing braces a text has no references, so nothing is filled in. -/
theorem Parts.fill_eq {cs : List Char} (h : Parts cs ps) (hclose : '\x7d' ∉ cs) :
    fill value ps = cs := by
  induction h with
  | nil => rfl
  | char h hps ih =>
      simp only [List.mem_cons, not_or] at hclose
      rw [fill_cons, ih hclose.2]
      rfl
  | named hname hm hps ih => simp [reference] at hclose

/-- A character that starts no reference starts none after values are filled in. -/
theorem Parts.not_starts_char {c : Char} {cs : List Char} (hread : referenceAt? (c :: cs) = none)
    (hps : Parts cs ps) (hvalues : ∀ m v, value m = some v → Harmless v) (hname : name ≠ [])
    (hclose : '\x7d' ∉ name) : ¬ reference name <+: c :: fill value ps := by
  rintro ⟨tail, htail⟩
  simp only [reference, List.cons_append, List.cons.injEq] at htail
  obtain ⟨rfl, htail⟩ := htail
  cases hps with
  | nil => cases htail
  | @named m cs ps hm hmclose hps =>
      rw [fill_cons, Piece.fill] at htail
      cases hv : value m with
      | none =>
          -- a dollar sign is no brace
          rw [hv] at htail
          obtain ⟨hbad, -⟩ := List.cons.inj htail
          exact absurd hbad (by decide)
      | some v =>
          rw [hv] at htail
          obtain ⟨d, v, rfl⟩ := List.exists_cons_of_ne_nil (hvalues m v hv).ne_nil
          obtain ⟨rfl, -⟩ := List.cons.inj htail
          exact (hvalues m _ hv).start rfl
  | @char d cs ps hd hps =>
      obtain ⟨rfl, hrest⟩ := List.cons.inj htail
      rcases not_close_of_referenceAt?_eq_none hread with hhead | hnone
      · -- the braces are next to each other
        cases hps with
        | nil => cases hhead
        | @named m cs ps hm hmclose hps => cases hhead
        | @char e cs ps he hps =>
            obtain rfl := Option.some.inj hhead
            obtain ⟨d, more, rfl⟩ := List.exists_cons_of_ne_nil hname
            obtain ⟨rfl, -⟩ := List.cons.inj hrest
            exact hclose (by simp)
      · -- the opening brace has no closing one
        change _ = fill value ps at hrest
        rw [hps.fill_eq hnone] at hrest
        exact hnone (hrest ▸ by simp)

/-- Replacing one reference fills in one name, if no value reads like a reference and no reference
that is left ends in this one. -/
theorem replaceAll_fill {v : List Char} (hps : Parts text ps)
    (hvalues : ∀ m w, value m = some w → Harmless w) (hname : name ≠ []) (hclose : '\x7d' ∉ name)
    (hvalue : value name = none ∨ value name = some v)
    (happart : ∀ m, .named m ∈ ps → value m = none → ¬ '$' :: '\x7b' :: name <:+ m) :
    replaceAll (reference name) v 0 (fill value ps) =
      fill (fun m => if m = name then some v else value m) ps := by
  -- The induction is on the pieces: characters and values are copied, and so are other references.
  induction hps with
  | nil => rfl
  | @char c cs ps hread hps ih =>
      have hmore := ih fun m hm => happart m (List.mem_cons_of_mem _ hm)
      have hnot : ¬ (reference name).isPrefixOf (c :: fill value ps) = true := by
        rw [List.isPrefixOf_iff_prefix]
        exact hps.not_starts_char hread hvalues hname hclose
      rw [fill_cons, fill_cons, ← hmore]
      show replaceAll _ _ 0 (c :: fill value ps) = _
      rw [replaceAll, if_neg hnot]
      rfl
  | @named m cs ps hm hmclose hps ih =>
      have hmore := ih fun m hm => happart m (List.mem_cons_of_mem _ hm)
      rw [fill_cons, fill_cons, ← hmore, Piece.fill, Piece.fill]
      cases hread : value m with
      | some w =>
          have hw : (if m = name then some v else some w) = some w := by
            by_cases heq : m = name
            · rw [heq] at hread
              rcases hvalue with hnone | hsome
              · rw [hnone] at hread
                cases hread
              · rw [hsome] at hread
                rw [if_pos heq, hread]
            · rw [if_neg heq]
          rw [hw, Option.getD_some]
          refine replaceAll_append_of_not_starts ?_
          intro s hs hne
          exact (hvalues m w hread).not_starts hs hne name _
      | none =>
          by_cases heq : m = name
          · rw [if_pos heq, Option.getD_none, Option.getD_some, heq]
            exact replaceAll_occurrence (by simp [reference]) v _
          · rw [if_neg heq, Option.getD_none]
            refine replaceAll_append_of_not_starts ?_
            intro s hs hne hprefix
            have hsuffix := suffix_of_starts hclose hmclose hs hne hprefix
            rw [hsuffix] at hs
            exact happart m (by simp) hread (suffix_of_reference heq hs)

end

/-! ## All references -/

theorem mem_references_iff {name : List Char} (text : List Char) (skip : Nat) :
    name ∈ references skip text ↔ .named name ∈ pieces skip text := by
  induction text generalizing skip with
  | nil => simp [references, pieces]
  | cons c cs ih =>
      cases skip with
      | succ k => simpa [references, pieces] using ih k
      | zero =>
          cases hread : referenceAt? (c :: cs) with
          | none => simpa [references, pieces, hread] using ih 0
          | some m => simp [references, pieces, hread, ih (m.length + 2)]

/-- The values of some names. -/
def valuesOf (lookup : String → Option String) (names : List (List Char)) (name : List Char) :
    Option (List Char) :=
  if name ∈ names then valueOf lookup name else none

/-- Whenever a reference that is set is replaced, after those that are `done`, nothing else in the
text reads like it. -/
structure Undisturbed (lookup : String → Option String) (text : List Char) : Prop where
  /-- A value that has been inserted makes no reference, by itself or with the text around it. -/
  values : ∀ done n more, references 0 text = done ++ n :: more → valueOf lookup n ≠ none →
    ∀ m ∈ done, ∀ v, valueOf lookup m = some v → Harmless v
  /-- A reference that is left does not end in the one that is replaced. -/
  names : ∀ done n more, references 0 text = done ++ n :: more → valueOf lookup n ≠ none →
    ∀ m ∈ references 0 text, valuesOf lookup done m = none → ¬ '$' :: '\x7b' :: n <:+ m

/-- The order of the references does not matter if all values and all names are harmless. -/
theorem Undisturbed.of_forall
    (hvalues : ∀ m ∈ references 0 text, ∀ v, valueOf lookup m = some v → Harmless v)
    (hnames : ∀ m ∈ references 0 text, ∀ n ∈ references 0 text, ¬ '$' :: '\x7b' :: n <:+ m) :
    Undisturbed lookup text where
  values := by
    intro done n more hsplit _ m hm
    exact hvalues m (by simp [hsplit, hm])
  names := by
    intro done n more hsplit _ m hm _
    exact hnames m hm n (by simp [hsplit])

theorem fill_congr {value value' : List Char → Option (List Char)} {ps : List Piece}
    (h : ∀ m, .named m ∈ ps → value m = value' m) : fill value ps = fill value' ps := by
  induction ps with
  | nil => rfl
  | cons p ps ih =>
      rw [fill_cons, fill_cons, ih fun m hm => h m (List.mem_cons_of_mem p hm)]
      cases p with
      | char c => rfl
      | named m => rw [Piece.fill, Piece.fill, h m (by simp)]

theorem Parts.fill_none {ps : List Piece} (h : Parts text ps) : fill (fun _ => none) ps = text := by
  induction h with
  | nil => rfl
  | char hread hps ih => rw [fill_cons, ih]; rfl
  | named hname hclose hps ih => rw [fill_cons, ih]; rfl

theorem Parts.named_of_mem {ps : List Piece} {name : List Char} (h : Parts text ps)
    (hmem : .named name ∈ ps) : name ≠ [] ∧ '\x7d' ∉ name := by
  induction h with
  | nil => simp at hmem
  | char hread hps ih => exact ih (by simpa using hmem)
  | named hname hclose hps ih =>
      rcases List.mem_cons.1 hmem with heq | hmore
      · cases heq
        exact ⟨hname, hclose⟩
      · exact ih hmore

/-- One step: the references of one more name have their values. -/
theorem substitute_fill {done : List (List Char)} {name : List Char} (hname : name ≠ [])
    (hclose : '\x7d' ∉ name)
    (hharmless : valueOf lookup name ≠ none → ∀ m w, valuesOf lookup done m = some w → Harmless w)
    (happart : valueOf lookup name ≠ none → ∀ m, .named m ∈ pieces 0 text →
      valuesOf lookup done m = none → ¬ '$' :: '\x7b' :: name <:+ m) :
    substitute lookup (fill (valuesOf lookup done) (pieces 0 text)) name =
      fill (valuesOf lookup (done ++ [name])) (pieces 0 text) := by
  have hlast : ∀ m, valuesOf lookup (done ++ [name]) m =
      if m = name then valueOf lookup m else valuesOf lookup done m := by
    intro m
    by_cases heq : m = name
    · simp [valuesOf, heq]
    · simp [valuesOf, heq]
  rw [substitute]
  cases hvalue : lookup (String.ofList name) with
  | none =>
      refine fill_congr ?_
      intro m hm
      rw [hlast]
      by_cases heq : m = name
      · simp [valuesOf, valueOf, heq, hvalue]
      · rw [if_neg heq]
  | some v =>
      have hv : valueOf lookup name = some v.toList := by rw [valueOf, hvalue, Option.map_some]
      have hset : valueOf lookup name ≠ none := by simp [hv]
      have hstep : valuesOf lookup done name = none ∨
          valuesOf lookup done name = some v.toList := by
        rw [valuesOf]
        split
        · exact Or.inr hv
        · exact Or.inl rfl
      refine (replaceAll_fill (parts_pieces text) (hharmless hset) hname hclose hstep
        (happart hset)).trans (fill_congr ?_)
      intro m hm
      rw [hlast]
      by_cases heq : m = name
      · rw [if_pos heq, if_pos heq, heq, hv]
      · rw [if_neg heq, if_neg heq]

/-- The values of some names are harmless if those of each of them are. -/
theorem harmless_of_valuesOf {done : List (List Char)}
    (h : ∀ m ∈ done, ∀ v, valueOf lookup m = some v → Harmless v) {m w : List Char}
    (hw : valuesOf lookup done m = some w) : Harmless w := by
  rw [valuesOf] at hw
  split at hw
  · next hm => exact h m hm w hw
  · cases hw

theorem name_of_mem_references {name : List Char} (hname : name ∈ references 0 text) :
    name ≠ [] ∧ '\x7d' ∉ name :=
  (parts_pieces text).named_of_mem ((mem_references_iff text 0).1 hname)

theorem Undisturbed.substitute_fill (h : Undisturbed lookup text) {done more : List (List Char)}
    {name : List Char} (hsplit : references 0 text = done ++ name :: more) :
    substitute lookup (fill (valuesOf lookup done) (pieces 0 text)) name =
      fill (valuesOf lookup (done ++ [name])) (pieces 0 text) := by
  have hmem : name ∈ references 0 text := hsplit ▸ List.mem_append_right done List.mem_cons_self
  obtain ⟨hne, hclose⟩ := name_of_mem_references hmem
  refine Settings.substitute_fill hne hclose ?_ ?_
  · intro hset m w
    exact harmless_of_valuesOf (h.values done name more hsplit hset)
  · intro hset m hm
    exact h.names done name more hsplit hset m ((mem_references_iff text 0).2 hm)

/-- The run: if each step fills in one more name, then after all of them those have their values. -/
theorem foldl_substitute {names : List (List Char)}
    (hstep : ∀ done name more, names = done ++ name :: more →
      substitute lookup (fill (valuesOf lookup done) (pieces 0 text)) name =
        fill (valuesOf lookup (done ++ [name])) (pieces 0 text)) :
    names.foldl (substitute lookup) text = fill (valuesOf lookup names) (pieces 0 text) := by
  have hrun : ∀ done more, names = done ++ more →
      done.foldl (substitute lookup) text = fill (valuesOf lookup done) (pieces 0 text) := by
    intro done
    induction done using List.reverseRecOn with
    | nil =>
        intro more _
        rw [List.foldl_nil]
        refine (parts_pieces text).fill_none.symm.trans (fill_congr ?_)
        intro m hm
        simp [valuesOf]
    | append_singleton done name ih =>
        intro more hsplit
        rw [List.append_assoc, List.singleton_append] at hsplit
        rw [List.foldl_append, ih _ hsplit]
        exact hstep done name more hsplit
  exact hrun names [] (List.append_nil names).symm

theorem Undisturbed.expand_eq (h : Undisturbed lookup text) :
    expand lookup text = onePass lookup text := by
  rw [expand, onePass, foldl_substitute fun done name more => h.substitute_fill]
  refine fill_congr ?_
  intro m hm
  rw [valuesOf, if_pos ((mem_references_iff text 0).2 hm)]

/-- Only the names that the text itself refers to are looked up. -/
theorem expand_congr {lookup' : String → Option String}
    (h : ∀ n ∈ references 0 text, lookup' (String.ofList n) = lookup (String.ofList n)) :
    expand lookup' text = expand lookup text := by
  refine List.foldl_ext _ _ _ ?_
  intro cs n hn
  rw [substitute, substitute, h n hn]

/-! ## Values as they are -/

/-- **Values are inserted as they are**, where nothing disturbs the references: the result is one
pass over the text, in which no value is read again. Whatever disturbs them, the only names that
are looked up are those that the text itself refers to. -/
theorem expand_inserts_values (lookup : String → Option String) (text : List Char) :
    (Undisturbed lookup text → expand lookup text = onePass lookup text) ∧
      ∀ lookup' : String → Option String,
        (∀ n ∈ references 0 text, lookup' (String.ofList n) = lookup (String.ofList n)) →
          expand lookup' text = expand lookup text :=
  ⟨fun h => h.expand_eq, fun _ h => expand_congr h⟩

/-- A value with a closing brace and a dollar sign, used twice, next to a reference that is not
set. -/
theorem expand_inserts_values_braces :
    let lookup := fun n => List.lookup n [("A", "1\x7d$2"), ("B", "b")]
    let text := "$$\x7bA\x7d$\x7bB\x7d$\x7bU\x7d$\x7bA\x7d".toList
    Undisturbed lookup text ∧ expand lookup text = "$1\x7d$2b$\x7bU\x7d1\x7d$2".toList := by
  intro lookup text
  have h : Undisturbed lookup text := by
    refine .of_forall ?_ ?_
    · decide +kernel
    · decide +kernel
  have hpass : onePass lookup text = "$1\x7d$2b$\x7bU\x7d1\x7d$2".toList := by decide +kernel
  exact ⟨h, ((expand_inserts_values lookup text).1 h).trans hpass⟩

/-- No condition can be left out: the end of a reference that is not set may read like one that is,
a value may hold a reference, be empty, start with a brace or end with a dollar sign. -/
theorem expand_not_onePass :
    let differs (values : List (String × String)) (text : String) : Prop :=
      let lookup := fun n => List.lookup n values
      expand lookup text.toList ≠ onePass lookup text.toList
    differs [("N", "7")] "$\x7bU$\x7bN\x7d$\x7bN\x7d" ∧
      differs [("A", "$\x7bN\x7d"), ("N", "7")] "$\x7bA\x7d$\x7bN\x7d" ∧
      differs [("A", ""), ("N", "7")] "$$\x7bA\x7d\x7bN\x7d$\x7bN\x7d" ∧
      differs [("A", "\x7bN\x7d"), ("N", "7")] "$$\x7bA\x7d$\x7bN\x7d" ∧
      differs [("A", "$"), ("N", "7")] "$\x7bA\x7d\x7bN\x7d$\x7bN\x7d" := by
  intro differs
  unfold differs
  decide +kernel

end Criteria.Settings
