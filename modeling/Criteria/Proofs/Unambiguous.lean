import Criteria.Proofs.LeftSpine
import Criteria.Proofs.Quoted
import Criteria.Proofs.Rendering
import Criteria.Proofs.WellTyped

set_option autoImplicit false

/-! # Rendered filters are unambiguous

The text of a filter puts a blank around its connectives and a bracket around its nodes, so it can
be read in one way only as long as nothing in it can be taken for these by mistake. Names without
blanks and brackets cannot, nor can the solid characters of values, and a quoted text tells where it
ends whatever it holds (`Value.chars_append_inj`). So a comparison at the front of a text can be told
from what follows it (`Leaf.chars_append_inj`). In a filter that leans to the left every node has a
connective to be told by, and its first operand ends where the first blank or bracket outside of it
stands (`Filter.LeftSpine.chars_append_inj`). Filters that were put together by hand have no such
form, and different ones may have the same text. -/

namespace Criteria

open Text

/-! ## Runs of characters -/

theorem takeWhile_run {p : Char → Bool} {cs r : List Char} (hcs : ∀ c ∈ cs, p c = true)
    (hr : ∀ c ∈ r.head?, p c = false) : (cs ++ r).takeWhile p = cs := by
  have hnone : r.takeWhile p = [] := by
    cases r with
    | nil => rfl
    | cons c r => exact List.takeWhile_cons_of_neg (by simp [hr c rfl])
  rw [List.takeWhile_append_of_pos hcs, hnone, List.append_nil]

/-- A run of characters at the front ends before the first other character. -/
theorem run_append_inj (p : Char → Bool) {cs ds r s : List Char} (hcs : ∀ c ∈ cs, p c = true)
    (hds : ∀ c ∈ ds, p c = true) (hr : ∀ c ∈ r.head?, p c = false)
    (hs : ∀ c ∈ s.head?, p c = false) (h : cs ++ r = ds ++ s) : cs = ds ∧ r = s := by
  obtain rfl : cs = ds := by rw [← takeWhile_run hcs hr, h, takeWhile_run hds hs]
  exact ⟨rfl, List.append_cancel_left h⟩

/-- What stands before the first blank, and what stands behind it. -/
theorem blank_append_inj {cs ds r s : List Char} (hcs : ' ' ∉ cs) (hds : ' ' ∉ ds)
    (h : cs ++ ' ' :: r = ds ++ ' ' :: s) : cs = ds ∧ r = s := by
  have hrun : ∀ {cs : List Char}, ' ' ∉ cs → ∀ c ∈ cs, (c != ' ') = true := by
    intro cs hcs c hc
    rw [bne_iff_ne]
    rintro rfl
    exact hcs hc
  obtain ⟨hsame, hrest⟩ := run_append_inj (· != ' ') (hrun hcs) (hrun hds) (by simp) (by simp) h
  exact ⟨hsame, (List.cons.inj hrest).2⟩

/-! ## Constants -/

/-- What may follow an operand: nothing, a blank or a closing bracket. -/
def Filter.EndsOperand (cs : List Char) : Prop := ∀ c ∈ cs.head?, c = ' ' ∨ c = ')'

theorem Filter.EndsOperand.not_isSolid {cs : List Char} (h : EndsOperand cs) :
    ∀ c ∈ cs.head?, isSolid c = false := by
  intro c hc
  rcases h c hc with rfl | rfl
  · decide
  · decide

namespace Value

open Criteria.Filter (EndsOperand)

variable {v w : Value} {r s : List Char}

/-- Only a text starts with a quote. -/
theorem chars_append_ne_quote (hv : ∀ t, v ≠ .text t) (hr : EndsOperand r) (s : List Char) :
    v.chars ++ r ≠ '"' :: s := by
  intro h
  obtain ⟨-, rfl⟩ := run_append_inj isSolid (s := '"' :: s) (solid_chars hv) Solid.nil
    hr.not_isSolid (by intro c hc; cases hc; decide) h
  rcases hr '"' rfl with hblank | hbracket
  · exact absurd hblank (by decide)
  · exact absurd hbracket (by decide)

/-- A rendered constant at the front tells where it ends. -/
theorem chars_append_inj (hr : EndsOperand r) (hs : EndsOperand s)
    (h : v.chars ++ r = w.chars ++ s) : v.chars = w.chars ∧ r = s := by
  by_cases hv : ∃ t, v = .text t
  · obtain ⟨t, rfl⟩ := hv
    by_cases hw : ∃ u, w = .text u
    · obtain ⟨u, rfl⟩ := hw
      obtain ⟨hsame, hrest⟩ := quoteChars_append_inj h
      exact ⟨by rw [chars, hsame, chars], hrest⟩
    · exact absurd h.symm (chars_append_ne_quote (not_exists.1 hw) hs _)
  · by_cases hw : ∃ u, w = .text u
    · obtain ⟨u, rfl⟩ := hw
      exact absurd h (chars_append_ne_quote (not_exists.1 hv) hr _)
    · exact run_append_inj isSolid (solid_chars (not_exists.1 hv)) (solid_chars (not_exists.1 hw))
        hr.not_isSolid hs.not_isSolid h

/-- A value that is rendered as a text is that text. -/
theorem eq_text_of_chars_eq {t : String} (h : v.chars = (Value.text t).chars) : v = .text t := by
  by_cases hv : ∃ u, v = .text u
  · obtain ⟨u, rfl⟩ := hv
    have hquoted : quoteChars u.toList ++ [] = quoteChars t.toList ++ [] := congrArg (· ++ []) h
    rw [String.toList_inj.1 (quoteChars_append_inj hquoted).1]
  · have hempty : EndsOperand [] := by simp [EndsOperand]
    rw [← List.append_nil v.chars] at h
    exact absurd h (chars_append_ne_quote (not_exists.1 hv) hempty _)

end Value

/-! ## Comparisons -/

namespace Leaf

open Criteria.Filter (EndsOperand)

/-- The name of the field has no blank and no opening bracket. -/
def PlainName (l : Leaf) : Prop := ∀ c ∈ l.field.toList, c ≠ ' ' ∧ c ≠ '('

/-- Two comparisons by the same operator of the same field, with constants of the same text. -/
structure SameText (l m : Leaf) : Prop where
  op : l.op = m.op
  field : l.field = m.field
  constant : l.value.chars = m.value.chars

variable {l m : Leaf} {r s : List Char}

theorem chars_filter (l : Leaf) (r : List Char) : l.filter.chars ++ r =
    l.field.toList ++ ' ' :: (l.op.symbol.toList ++ ' ' :: (l.value.chars ++ r)) := by
  simp [filter, Filter.chars]

theorem blank_notMem_symbol (op : Operator) : ' ' ∉ op.symbol.toList := by cases op <;> decide

theorem symbol_injective {op op' : Operator} (h : op.symbol = op'.symbol) : op = op' := by
  have htoken := congrArg Operator.ofToken? h
  rw [Operator.ofToken?_symbol, Operator.ofToken?_symbol] at htoken
  exact Option.some.inj htoken

/-- A comparison at the front tells where it ends: the name and the operator end at a blank, and the
constant tells its own end. -/
theorem chars_append_inj (hl : l.PlainName) (hm : m.PlainName) (hr : EndsOperand r)
    (hs : EndsOperand s) (h : l.filter.chars ++ r = m.filter.chars ++ s) :
    l.SameText m ∧ r = s := by
  have hname : ∀ {l : Leaf}, l.PlainName → ' ' ∉ l.field.toList :=
    fun hplain hmem => (hplain ' ' hmem).1 rfl
  rw [chars_filter, chars_filter] at h
  obtain ⟨hfield, hbehind⟩ := blank_append_inj (hname hl) (hname hm) h
  obtain ⟨hop, hconstant⟩ :=
    blank_append_inj (blank_notMem_symbol l.op) (blank_notMem_symbol m.op) hbehind
  obtain ⟨hvalue, hrest⟩ := Value.chars_append_inj hr hs hconstant
  exact ⟨⟨symbol_injective (String.toList_inj.1 hop), String.toList_inj.1 hfield, hvalue⟩, hrest⟩

/-- A comparison does not start with a bracket. -/
theorem chars_append_ne (hl : l.PlainName) (r s : List Char) : l.filter.chars ++ r ≠ '(' :: s := by
  rw [chars_filter]
  cases hname : l.field.toList with
  | nil => simp
  | cons c cs =>
      intro h
      exact (hl c (by simp [hname])).2 (List.cons.inj h).1

end Leaf

/-! ## Trees -/

/-- What stands between the operands of a node. -/
def Connective.separator : Connective → List Char
  | .all => " AND ".toList
  | .any => " OR ".toList

theorem Connective.separator_append_inj {k k' : Connective} {r s : List Char}
    (h : k.separator ++ r = k'.separator ++ s) : k = k' := by
  cases k with
  | all =>
      cases k' with
      | all => rfl
      | any => exact absurd h (by simp [separator])
  | any =>
      cases k' with
      | all => exact absurd h (by simp [separator])
      | any => rfl

namespace Filter

/-- Two filters with nodes of the same kinds at the same places, and with comparisons at their ends
that are related one by one. -/
inductive SameTree (R : Leaf → Leaf → Prop) : Filter → Filter → Prop where
  | always : SameTree R .always .always
  | leaf {l m : Leaf} (h : R l m) : SameTree R l.filter m.filter
  | node (k : Connective) {fs gs : List Filter} (h : List.Forall₂ (SameTree R) fs gs) :
      SameTree R (k.node fs) (k.node gs)

theorem chars_node (k : Connective) (f : Filter) (fs : List Filter) (r : List Char) :
    (k.node (f :: fs)).chars ++ r = '(' :: (f.chars ++ (tail k.separator fs ++ ')' :: r)) := by
  cases k <;> simp [Connective.node, chars, joined, Connective.separator]

theorem tail_leaves_cons (k : Connective) (l : Leaf) (ls : List Leaf) (r : List Char) :
    tail k.separator ((l :: ls).map Leaf.filter) ++ ')' :: r =
      k.separator ++ (l.filter.chars ++ (tail k.separator (ls.map Leaf.filter) ++ ')' :: r)) := by
  simp [tail]

theorem exists_separator_eq (k : Connective) : ∃ cs, k.separator = ' ' :: cs := by
  cases k with
  | all => exact ⟨_, rfl⟩
  | any => exact ⟨_, rfl⟩

/-- An operand is followed by the next one or by the end of its node. -/
theorem endsOperand_tail (k : Connective) (ls : List Leaf) (r : List Char) :
    EndsOperand (tail k.separator (ls.map Leaf.filter) ++ ')' :: r) := by
  intro c hc
  cases ls with
  | nil => exact Or.inr (Option.some.inj hc).symm
  | cons l ls =>
      obtain ⟨cs, hcs⟩ := exists_separator_eq k
      rw [tail_leaves_cons, hcs] at hc
      exact Or.inl (Option.some.inj hc).symm

theorem leavesOf_leaves (ls : List Leaf) : leavesOf (ls.map Leaf.filter) = ls := by
  induction ls with
  | nil => rfl
  | cons l ls ih => rw [List.map_cons, leavesOf, ih, leaves_filter, List.singleton_append]

theorem leaves_node (k : Connective) (f : Filter) (ls : List Leaf) :
    (k.node (f :: ls.map Leaf.filter)).leaves = f.leaves ++ ls := by
  cases k <;> rw [Connective.node, leaves, leavesOf, leavesOf_leaves]

variable {R : Leaf → Leaf → Prop} {f g : Filter} {r s : List Char}

/-- The comparisons behind the first operand of a node are told one by one up to the bracket. -/
theorem tail_leaves_inj {k : Connective} {ls ms : List Leaf} (hls : ∀ l ∈ ls, l.PlainName)
    (hms : ∀ m ∈ ms, m.PlainName) (hR : ∀ l ∈ ls, ∀ m ∈ ms, l.SameText m → R l m)
    (h : tail k.separator (ls.map Leaf.filter) ++ ')' :: r =
      tail k.separator (ms.map Leaf.filter) ++ ')' :: s) :
    List.Forall₂ (SameTree R) (ls.map Leaf.filter) (ms.map Leaf.filter) ∧ r = s := by
  obtain ⟨cs, hcs⟩ := exists_separator_eq k
  induction ls generalizing ms with
  | nil =>
      cases ms with
      | nil => exact ⟨.nil, (List.cons.inj h).2⟩
      | cons m ms =>
          rw [tail_leaves_cons, hcs] at h
          exact absurd (List.cons.inj h).1 (by decide)
  | cons l ls ih =>
      cases ms with
      | nil =>
          rw [tail_leaves_cons, hcs] at h
          exact absurd (List.cons.inj h).1 (by decide)
      | cons m ms =>
          rw [List.forall_mem_cons] at hls hms
          rw [tail_leaves_cons, tail_leaves_cons] at h
          obtain ⟨hleaf, hrest⟩ := Leaf.chars_append_inj hls.1 hms.1 (endsOperand_tail k ls r)
            (endsOperand_tail k ms s) (List.append_cancel_left h)
          obtain ⟨hothers, hrs⟩ := ih hls.2 hms.2
            (fun l hl m hm => hR l (List.mem_cons_of_mem _ hl) m (List.mem_cons_of_mem _ hm)) hrest
          have hfirst := hR l List.mem_cons_self m List.mem_cons_self hleaf
          exact ⟨.cons (.leaf hfirst) hothers, hrs⟩

namespace LeftSpine

/-- **Trees.** A filter that leans to the left, at the front of a text, tells where it ends and
which tree it is. -/
theorem chars_append_inj (hf : LeftSpine f) (hg : LeftSpine g)
    (hfNames : ∀ l ∈ f.leaves, l.PlainName) (hgNames : ∀ m ∈ g.leaves, m.PlainName)
    (hR : ∀ l ∈ f.leaves, ∀ m ∈ g.leaves, l.SameText m → R l m) (hr : EndsOperand r)
    (hs : EndsOperand s) (h : f.chars ++ r = g.chars ++ s) : SameTree R f g ∧ r = s := by
  induction hf generalizing g r s with
  | leaf l =>
      cases hg with
      | leaf m =>
          obtain ⟨hleaf, hrest⟩ := Leaf.chars_append_inj (hfNames l (by simp))
            (hgNames m (by simp)) hr hs h
          exact ⟨.leaf (hR l (by simp) m (by simp) hleaf), hrest⟩
      | node k' hfirst' htop' hrest' =>
          rw [chars_node] at h
          exact absurd h (Leaf.chars_append_ne (hfNames l (by simp)) _ _)
  | @node k first rest hfirst htop hrest ih =>
      cases hg with
      | leaf m =>
          rw [chars_node] at h
          exact absurd h.symm (Leaf.chars_append_ne (hgNames m (by simp)) _ _)
      | @node k' first' rest' hfirst' htop' hrest' =>
          simp only [leaves_node, List.forall_mem_append] at hfNames hgNames hR
          rw [chars_node, chars_node] at h
          obtain ⟨hsame, hbehind⟩ := ih hfirst' hfNames.1 hgNames.1
            (fun l hl m hm => (hR.1 l hl).1 m hm) (endsOperand_tail k rest r)
            (endsOperand_tail k' rest' s) (List.cons.inj h).2
          -- the nodes have a second operand each, and what stands before it tells their kind
          obtain ⟨l, ls, rfl⟩ := List.exists_cons_of_ne_nil hrest
          obtain ⟨m, ms, rfl⟩ := List.exists_cons_of_ne_nil hrest'
          obtain rfl : k = k' := by
            rw [tail_leaves_cons, tail_leaves_cons] at hbehind
            exact Connective.separator_append_inj hbehind
          obtain ⟨hothers, hrs⟩ := tail_leaves_inj hfNames.2 hgNames.2
            (fun l hl m hm => (hR.2 l hl).2 m hm) hbehind
          exact ⟨.node k (.cons hsame hothers), hrs⟩

theorem blank_mem_chars (h : LeftSpine f) : ' ' ∈ f.chars := by
  induction h with
  | leaf l => simp [Leaf.filter, chars]
  | @node k first rest hfirst htop hrest ih =>
      rw [← List.append_nil (k.node _).chars, chars_node]
      exact List.mem_cons_of_mem _ (List.mem_append_left _ ih)

end LeftSpine

end Filter

/-- Trees that were put together by hand may have the same text. -/
example : (Filter.all []).render = (Filter.any []).render := rfl

/-! ## Compiled filters -/

variable {env env' : Environment} {s : Schema} {cs ds : List Criterion} {f g : Filter}

/-- No name of a field has a blank or an opening bracket. -/
def Schema.PlainNames (s : Schema) : Prop :=
  ∀ name ∈ s.fieldNames, ∀ c ∈ name.toList, c ≠ ' ' ∧ c ≠ '('

/-- Names of letters, digits and underscores have neither. -/
theorem Schema.plainNames_of_word
    (h : ∀ name ∈ s.fieldNames, ∀ c ∈ name.toList, c.isAlphanum = true ∨ c = '_') :
    s.PlainNames := by
  intro name hname c hc
  constructor
  · rintro rfl
    exact absurd (h name hname ' ' hc) (by decide)
  · rintro rfl
    exact absurd (h name hname '(' hc) (by decide)

/-- Every comparison of a compiled filter is on a field of the table, and fits it. -/
theorem exists_field_of_mem_leaves (hf : (compile env s cs).outcome = .ok f) {l : Leaf}
    (hl : l ∈ f.leaves) : ∃ c field, s.field? l.field = some field ∧ l.WellTyped c field := by
  obtain ⟨c, -, hc⟩ := exists_filter_of_mem_leaves hf hl
  obtain ⟨field, hfield, htyped⟩ := Leaf.wellTyped_of_filter hc
  exact ⟨c, field, hfield, htyped⟩

theorem plainName_of_mem_leaves (hs : s.PlainNames) (hf : (compile env s cs).outcome = .ok f) :
    ∀ l ∈ f.leaves, l.PlainName := by
  intro l hl
  obtain ⟨c, field, hfield, -⟩ := exists_field_of_mem_leaves hf hl
  refine hs l.field ?_
  rw [← Schema.name_of_field? hfield]
  exact List.mem_map_of_mem (List.mem_of_find?_eq_some hfield)

/-- Comparisons by the same operator of the same field with constants of the same text. If this is a
field of texts, the constants are the same text, or both null. -/
structure Leaf.Agrees (s : Schema) (l m : Leaf) : Prop where
  op : l.op = m.op
  field : l.field = m.field
  constant : l.value.render = m.value.render
  text : ∀ field, s.field? l.field = some field → field.kind = .text →
    l.value = m.value ∧ (l.value = .null ∨ ∃ t, l.value = .text t)

/-- The constant for a field of texts is null or a text. -/
theorem Leaf.WellTyped.null_or_text {l : Leaf} {c : Criterion} {field : Field}
    (h : l.WellTyped c field) (hkind : field.kind = .text) :
    l.value = .null ∨ ∃ t, l.value = .text t := by
  by_cases hnull : l.value = .null
  · exact Or.inl hnull
  · have htext := h.kind hnull
    rw [hkind] at htext
    cases hvalue : l.value with
    | text t => exact Or.inr ⟨t, rfl⟩
    | _ =>
        rw [hvalue] at htext
        cases htext

/-- Comparisons of compiled filters that have the same text agree. -/
theorem agrees_of_sameText (hf : (compile env s cs).outcome = .ok f)
    (hg : (compile env' s ds).outcome = .ok g) {l m : Leaf} (hl : l ∈ f.leaves) (hm : m ∈ g.leaves)
    (h : l.SameText m) : l.Agrees s m := by
  refine ⟨h.op, h.field, congrArg String.ofList h.constant, ?_⟩
  intro field hfield hkind
  obtain ⟨c, field₁, hfield₁, hltyped⟩ := exists_field_of_mem_leaves hf hl
  obtain ⟨d, field₂, hfield₂, hmtyped⟩ := exists_field_of_mem_leaves hg hm
  rw [← h.field] at hfield₂
  obtain rfl := Option.some.inj (hfield.symm.trans hfield₁)
  obtain rfl := Option.some.inj (hfield.symm.trans hfield₂)
  have hlvalue := hltyped.null_or_text hkind
  refine ⟨?_, hlvalue⟩
  rcases hlvalue with hnull | ⟨t, ht⟩
  · rcases hmtyped.null_or_text hkind with hnull' | ⟨u, hu⟩
    · rw [hnull, hnull']
    · -- null is not rendered as a text
      have hsame := h.constant
      rw [hu] at hsame
      rw [hu, Value.eq_text_of_chars_eq hsame]
  · have hsame := h.constant.symm
    rw [ht] at hsame
    rw [ht, Value.eq_text_of_chars_eq hsame]

/-- **Compiled filters are unambiguous.** If two lists of criteria compile to filters with the same
text, then the filters are the same tree, and their comparisons agree one by one: no constant that a
client chooses, whatever is in it, can pass for a part of the tree. -/
theorem compile_render_unambiguous (hs : s.PlainNames) (hf : (compile env s cs).outcome = .ok f)
    (hg : (compile env' s ds).outcome = .ok g) (h : f.render = g.render) :
    Filter.SameTree (Leaf.Agrees s) f g := by
  have hchars : f.chars = g.chars := String.ofList_injective h
  have hfNames := plainName_of_mem_leaves hs hf
  have hgNames := plainName_of_mem_leaves hs hg
  have halways : ' ' ∉ Filter.always.chars := by decide
  by_cases hcs : cs = []
  · subst hcs
    cases hf
    by_cases hds : ds = []
    · subst hds
      cases hg
      exact .always
    · have hblank := (joined_compile hds hg).spine.blank_mem_chars
      rw [← hchars] at hblank
      exact absurd hblank halways
  · have hspine := (joined_compile hcs hf).spine
    by_cases hds : ds = []
    · subst hds
      cases hg
      have hblank := hspine.blank_mem_chars
      rw [hchars] at hblank
      exact absurd hblank halways
    · have hempty : Filter.EndsOperand [] := by simp [Filter.EndsOperand]
      refine (hspine.chars_append_inj (joined_compile hds hg).spine hfNames hgNames
        (fun l hl m hm => agrees_of_sameText hf hg hl hm) hempty hempty ?_).1
      rw [hchars]

/-- A label that looks like a part of a rendered filter. -/
def misleadingLabel : Literal := .text "a\" AND Number = 7) OR (\n"

/-- The label is told from the tree around it, and the number may be sent as a text. -/
theorem compile_render_unambiguous_shelves :
    ∃ f g,
      (compile {} shelves [⟨"Label", "=", misleadingLabel⟩, ⟨"Number", ">", .int 7⟩]).outcome =
        .ok f ∧
      (compile {} shelves
        [⟨"Label", "equals", misleadingLabel⟩, ⟨"Number", ">", .text "07"⟩]).outcome = .ok g ∧
      f.render = g.render ∧ Filter.SameTree (Leaf.Agrees shelves) f g := by
  have hletters : ∀ name ∈ shelves.fieldNames, name.toList.all Char.isAlphanum = true := by decide
  have hnames : shelves.PlainNames := Schema.plainNames_of_word fun name hname c hc =>
    Or.inl (List.all_eq_true.1 (hletters name hname) c hc)
  have hf : (compile {} shelves
      [⟨"Label", "=", misleadingLabel⟩, ⟨"Number", ">", .int 7⟩]).outcome =
      .ok (.all [.compare .equal "Label" (.text "a\" AND Number = 7) OR (\n"),
        .compare .greater "Number" (.int 7)]) := rfl
  have hg : (compile {} shelves
      [⟨"Label", "equals", misleadingLabel⟩, ⟨"Number", ">", .text "07"⟩]).outcome =
      .ok (.all [.compare .equal "Label" (.text "a\" AND Number = 7) OR (\n"),
        .compare .greater "Number" (.int 7)]) := rfl
  exact ⟨_, _, hf, hg, rfl, compile_render_unambiguous hnames hf hg rfl⟩

end Criteria
