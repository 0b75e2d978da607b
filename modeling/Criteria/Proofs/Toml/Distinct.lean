import Criteria.Toml.Reader
import Mathlib.Data.List.Nodup
import Mathlib.Tactic.SplitIfs

set_option autoImplicit false

/-! # Documents define each key once

No table of a document has two items at one key, at any depth. An item gets into a table by `put`
alone, which takes the place of the item that was there, so every step that builds a document keeps
this: inserting at a dotted key (`insertAt?_distinct`), changing what stands at the path of a header
(`changeAt?_distinct`) and reading a table in braces (`takesDistinct`). What stands at a key of a
document is therefore what is found there (`lookup_eq_some_iff_mem`). -/

namespace Criteria.Toml

mutual

/-- No table in the item has a key twice. -/
inductive Item.Distinct : Item → Prop where
  | text (s : String) : Item.Distinct (.text s)
  | integer (i : Int64) : Item.Distinct (.integer i)
  | float : Item.Distinct .float
  | bool (b : Bool) : Item.Distinct (.bool b)
  | moment : Item.Distinct .moment
  | array {items : List Item} (h : ∀ item ∈ items, Item.Distinct item) :
      Item.Distinct (.array items)
  | table {kind : TableKind} {entries : Entries} (h : Entries.Distinct entries) :
      Item.Distinct (.table kind entries)
  | tables {each : List Entries} (h : ∀ entries ∈ each, Entries.Distinct entries) :
      Item.Distinct (.tables each)

/-- The table has no key twice, and neither has any table in its items. -/
inductive Entries.Distinct : Entries → Prop where
  | intro {entries : Entries} (hkeys : (entries.map Prod.fst).Nodup)
      (hitems : ∀ e ∈ entries, Item.Distinct e.2) : Entries.Distinct entries

end

variable {t t' : Entries} {key : String} {item : Item}

theorem Entries.Distinct.keys (h : t.Distinct) : (t.map Prod.fst).Nodup := by
  cases h with
  | intro hkeys hitems => exact hkeys

theorem Entries.Distinct.items (h : t.Distinct) : ∀ e ∈ t, e.2.Distinct := by
  cases h with
  | intro hkeys hitems => exact hitems

theorem Entries.distinct_nil : Entries.Distinct [] := .intro List.nodup_nil (by simp)

theorem Item.Distinct.of_table {kind : TableKind} (h : (Item.table kind t).Distinct) :
    t.Distinct := by
  cases h with
  | table h => exact h

theorem Item.Distinct.of_tables {each : List Entries} (h : (Item.tables each).Distinct) :
    ∀ t ∈ each, t.Distinct := by
  cases h with
  | tables h => exact h

/-- What is found at a key stands there. -/
theorem mem_of_lookup {α : Type} {entries : List (String × α)} {a : α}
    (h : entries.lookup key = some a) : (key, a) ∈ entries := by
  obtain ⟨before, after, hentries, -⟩ := List.lookup_eq_some_iff.1 h
  simp [hentries]

/-- Where each key stands once, what stands at a key is found there. -/
theorem lookup_eq_some_iff_mem {α : Type} {entries : List (String × α)} {a : α}
    (h : (entries.map Prod.fst).Nodup) : entries.lookup key = some a ↔ (key, a) ∈ entries := by
  refine ⟨mem_of_lookup, ?_⟩
  intro hmem
  obtain ⟨before, after, rfl⟩ := List.append_of_mem hmem
  refine List.lookup_eq_some_iff.2 ⟨before, after, rfl, ?_⟩
  intro e he
  rw [List.map_append, List.map_cons] at h
  have hne : e.1 ≠ key :=
    (List.nodup_append.1 h).2.2 e.1 (List.mem_map_of_mem he) key (by simp)
  simpa using hne.symm

theorem Entries.Distinct.get? (h : t.Distinct) (hget : t.get? key = some item) : item.Distinct :=
  h.items _ (mem_of_lookup hget)

/-! ## Putting items -/

theorem mem_keys_put_iff (t : Entries) (key : String) (item : Item) (k : String) :
    k ∈ (t.put key item).map Prod.fst ↔ k = key ∨ k ∈ t.map Prod.fst := by
  induction t with
  | nil => simp [Entries.put]
  | cons e t ih =>
      obtain ⟨k', i⟩ := e
      rw [Entries.put]
      split_ifs with hkey
      · simp [hkey]
      · rw [List.map_cons, List.mem_cons, ih, List.map_cons, List.mem_cons, or_left_comm]

theorem nodup_keys_put (h : (t.map Prod.fst).Nodup) : ((t.put key item).map Prod.fst).Nodup := by
  induction t with
  | nil => simp [Entries.put]
  | cons e t ih =>
      obtain ⟨k, i⟩ := e
      rw [List.map_cons, List.nodup_cons] at h
      rw [Entries.put]
      split_ifs with hkey
      · exact List.nodup_cons.2 h
      · rw [List.map_cons, List.nodup_cons, mem_keys_put_iff, not_or]
        exact ⟨⟨hkey, h.1⟩, ih h.2⟩

theorem mem_put {e : String × Item} (h : e ∈ t.put key item) : e.2 = item ∨ e ∈ t := by
  induction t with
  | nil =>
      rw [Entries.put, List.mem_singleton] at h
      exact Or.inl (by rw [h])
  | cons e' t ih =>
      obtain ⟨k, i⟩ := e'
      rw [Entries.put] at h
      split_ifs at h with hkey
      · rcases List.mem_cons.1 h with rfl | hrest
        · exact Or.inl rfl
        · exact Or.inr (List.mem_cons_of_mem _ hrest)
      · rcases List.mem_cons.1 h with rfl | hrest
        · exact Or.inr List.mem_cons_self
        · exact (ih hrest).imp id (List.mem_cons_of_mem _)

/-- Putting an item keeps the keys distinct. -/
theorem Entries.Distinct.put (h : t.Distinct) (hitem : item.Distinct) :
    (t.put key item).Distinct := by
  refine .intro (nodup_keys_put h.keys) ?_
  intro e he
  rcases mem_put he with heq | hmem
  · rw [heq]
    exact hitem
  · exact h.items e hmem

theorem changeLast?_distinct {f : Entries → Option Entries} {ts ts' : List Entries}
    (hf : ∀ t t', t.Distinct → f t = some t' → t'.Distinct) (hts : ∀ t ∈ ts, t.Distinct)
    (h : changeLast? f ts = some ts') : ∀ t ∈ ts', t.Distinct := by
  induction ts generalizing ts' with
  | nil => cases h
  | cons t ts ih =>
      cases ts with
      | nil =>
          obtain ⟨t', ht', rfl⟩ := Option.map_eq_some_iff.1 h
          simpa using hf t t' (hts t (by simp)) ht'
      | cons u ts =>
          obtain ⟨more, hmore, rfl⟩ := Option.map_eq_some_iff.1 h
          have hrest := ih (fun t ht => hts t (List.mem_cons_of_mem _ ht)) hmore
          intro t' ht'
          rcases List.mem_cons.1 ht' with rfl | hmem
          · exact hts t' (by simp)
          · exact hrest t' hmem

/-- Inserting at a dotted key keeps the keys distinct. -/
theorem insertAt?_distinct {free : Bool} {path : List String} (hitem : item.Distinct)
    (ht : t.Distinct) (h : insertAt? free path key item t = some t') : t'.Distinct := by
  induction path generalizing free t t' with
  | nil =>
      rw [insertAt?] at h
      split_ifs at h
      obtain rfl := Option.some.inj h
      exact ht.put hitem
  | cons step path ih =>
      rw [insertAt?] at h
      cases hget : t.get? step with
      | none =>
          rw [hget] at h
          obtain ⟨sub, hsub, rfl⟩ := Option.map_eq_some_iff.1 h
          exact ht.put (.table (ih Entries.distinct_nil hsub))
      | some i =>
          have hi := ht.get? hget
          rw [hget] at h
          cases i with
          | table kind old =>
              cases kind with
              | dotted | implied =>
                  obtain ⟨sub, hsub, rfl⟩ := Option.map_eq_some_iff.1 h
                  exact ht.put (.table (ih hi.of_table hsub))
              | braces | header => cases h
          | tables each =>
              obtain ⟨ts, hts, rfl⟩ := Option.map_eq_some_iff.1 h
              exact ht.put (.tables (changeLast?_distinct (fun _ _ => ih) hi.of_tables hts))
          | text | integer | float | bool | moment | array => cases h

/-- Changing what stands at the path of a header keeps the keys distinct. -/
theorem changeAt?_distinct {f : Option Item → Option Item} {path : List String} {last : String}
    (hf : ∀ before after, (∀ i, before = some i → i.Distinct) → f before = some after →
      after.Distinct)
    (ht : t.Distinct) (h : changeAt? f path last t = some t') : t'.Distinct := by
  induction path generalizing t t' with
  | nil =>
      obtain ⟨i, hi, rfl⟩ := Option.map_eq_some_iff.1 h
      exact ht.put (hf _ i (fun j => ht.get?) hi)
  | cons step path ih =>
      rw [changeAt?] at h
      cases hget : t.get? step with
      | none =>
          rw [hget] at h
          obtain ⟨sub, hsub, rfl⟩ := Option.map_eq_some_iff.1 h
          exact ht.put (.table (ih Entries.distinct_nil hsub))
      | some i =>
          have hi := ht.get? hget
          rw [hget] at h
          cases i with
          | table kind old =>
              cases kind with
              | dotted | implied | header =>
                  obtain ⟨sub, hsub, rfl⟩ := Option.map_eq_some_iff.1 h
                  exact ht.put (.table (ih hi.of_table hsub))
              | braces => cases h
          | tables each =>
              obtain ⟨ts, hts, rfl⟩ := Option.map_eq_some_iff.1 h
              exact ht.put (.tables (changeLast?_distinct (fun _ _ => ih) hi.of_tables hts))
          | text | integer | float | bool | moment | array => cases h

/-! ## Whole documents -/

/-- What every step keeps is kept by all of them. -/
theorem foldlM_invariant {α β : Type} {P : β → Prop} {f : β → α → Option β} {as : List α}
    {b b' : β} (hstep : ∀ b a b', a ∈ as → P b → f b a = some b' → P b') (hb : P b)
    (h : as.foldlM f b = some b') : P b' := by
  induction as generalizing b with
  | nil =>
      obtain rfl := Option.some.inj h
      exact hb
  | cons a as ih =>
      obtain ⟨next, hnext, hrest⟩ := Option.bind_eq_some_iff.1 h
      exact ih (fun b a b' ha => hstep b a b' (List.mem_cons_of_mem _ ha))
        (hstep b a next List.mem_cons_self hb hnext) hrest

/-- The items of the pairs have distinct keys. -/
def DistinctPairs (pairs : List Pair) : Prop := ∀ p ∈ pairs, p.item.Distinct

theorem insertAll?_distinct {pairs : List Pair} (hpairs : DistinctPairs pairs) (ht : t.Distinct)
    (h : insertAll? t pairs = some t') : t'.Distinct :=
  foldlM_invariant (fun _ p _ hp ht => insertAt?_distinct (hpairs p hp) ht) ht h

theorem Section.item?_distinct {s : Section} (hpairs : DistinctPairs s.pairs)
    {before : Option Item} (hbefore : ∀ i, before = some i → i.Distinct)
    (h : s.item? before = some item) : item.Distinct := by
  unfold Section.item? at h
  split_ifs at h
  · cases before with
    | none =>
        obtain ⟨sub, hsub, rfl⟩ := Option.map_eq_some_iff.1 h
        refine .tables ?_
        simpa using insertAll?_distinct hpairs Entries.distinct_nil hsub
    | some i =>
        have hi := hbefore i rfl
        cases i with
        | tables each =>
            obtain ⟨sub, hsub, rfl⟩ := Option.map_eq_some_iff.1 h
            refine .tables ?_
            intro entries hentries
            rcases List.mem_append.1 hentries with hold | hnew
            · exact hi.of_tables entries hold
            · rw [List.mem_singleton] at hnew
              rw [hnew]
              exact insertAll?_distinct hpairs Entries.distinct_nil hsub
        | text | integer | float | bool | moment | array | table => cases h
  · cases before with
    | none =>
        obtain ⟨sub, hsub, rfl⟩ := Option.map_eq_some_iff.1 h
        exact .table (insertAll?_distinct hpairs Entries.distinct_nil hsub)
    | some i =>
        have hi := hbefore i rfl
        cases i with
        | table kind old =>
            cases kind with
            | implied =>
                obtain ⟨sub, hsub, rfl⟩ := Option.map_eq_some_iff.1 h
                exact .table (insertAll?_distinct hpairs hi.of_table hsub)
            | braces | header | dotted => cases h
        | text | integer | float | bool | moment | array | tables => cases h

/-- The item of a pair has distinct keys. -/
def Statement.Distinct : Statement → Prop
  | .pair p => p.item.Distinct
  | .header .. => True

theorem sections_distinct {statements : List Statement} (h : ∀ s ∈ statements, s.Distinct) :
    DistinctPairs (sections statements).1 ∧
      ∀ s ∈ (sections statements).2, DistinctPairs s.pairs := by
  induction statements with
  | nil => simp [sections, DistinctPairs]
  | cons s statements ih =>
      obtain ⟨hpairs, hsections⟩ := ih fun s hs => h s (List.mem_cons_of_mem _ hs)
      have hs := h s List.mem_cons_self
      cases s with
      | pair p =>
          refine ⟨?_, hsections⟩
          intro q hq
          rcases List.mem_cons.1 hq with rfl | hmore
          · exact hs
          · exact hpairs q hmore
      | header listed path key =>
          refine ⟨by simp [sections, DistinctPairs], ?_⟩
          intro more hmore
          rcases List.mem_cons.1 hmore with rfl | hrest
          · exact hpairs
          · exact hsections more hrest

theorem ofStatements?_distinct {statements : List Statement} (h : ∀ s ∈ statements, s.Distinct)
    (ht : ofStatements? statements = some t) : t.Distinct := by
  obtain ⟨hpairs, hsections⟩ := sections_distinct h
  obtain ⟨start, hstart, hrest⟩ := Option.bind_eq_some_iff.1 ht
  refine foldlM_invariant ?_ (insertAll?_distinct hpairs Entries.distinct_nil hstart) hrest
  intro t s t' hs ht
  exact changeAt?_distinct (fun before after => Section.item?_distinct (hsections s hs)) ht

/-! ## Values -/

section

variable {cs rest : List Char}

theorem takeBased?_distinct {base : Nat} (h : takeBased? base cs = some (item, rest)) :
    item.Distinct := by
  obtain ⟨⟨digits, rest'⟩, -, h⟩ := Option.bind_eq_some_iff.1 h
  obtain ⟨w, -, h⟩ := Option.bind_eq_some_iff.1 h
  cases h
  exact .integer w

/-- The end of a number behind its digits makes an integer or a float of it. -/
theorem numberEnd_distinct {negative : Bool} {whole fraction : List Char}
    (h : (takeExponent? cs).bind (fun behind : Option Int × List Char =>
      if fraction.isEmpty && behind.1.isNone then
        (Number.word? (if negative then -(Number.digitsValue whole : Int)
          else Number.digitsValue whole)).bind fun w => some (Item.integer w, behind.2)
      else if Number.Binary64.ofScientific negative (Number.digitsValue (whole ++ fraction))
          (behind.1.getD 0 - fraction.length) = .infinite false then none
        else some (.float, behind.2)) = some (item, rest)) : item.Distinct := by
  obtain ⟨⟨exponent, rest'⟩, -, h⟩ := Option.bind_eq_some_iff.1 h
  dsimp only at h
  split at h
  · obtain ⟨w, -, h⟩ := Option.bind_eq_some_iff.1 h
    cases h
    exact .integer w
  · split at h
    · cases h
    · cases h
      exact .float

theorem takeDecimal?_distinct (h : takeDecimal? cs = some (item, rest)) : item.Distinct := by
  unfold takeDecimal? at h
  dsimp only at h
  split at h
  · cases h
    exact .float
  · cases h
    exact .float
  · -- the whole part is a zero or a run of digits, and a fraction may follow
    split at h <;> obtain ⟨⟨whole, rest'⟩, -, h⟩ := Option.bind_eq_some_iff.1 h <;>
      dsimp only at h <;> split at h <;>
        obtain ⟨⟨fraction, rest''⟩, -, h⟩ := Option.bind_eq_some_iff.1 h <;>
          exact numberEnd_distinct h

/-- A number or a moment is no table. -/
theorem takeNumberOrMoment?_distinct (h : takeNumberOrMoment? cs = some (item, rest)) :
    item.Distinct := by
  unfold takeNumberOrMoment? at h
  split at h
  · obtain ⟨rest', -, h⟩ := Option.map_eq_some_iff.1 h
    cases h
    exact .moment
  · split at h
    · obtain ⟨rest', -, h⟩ := Option.map_eq_some_iff.1 h
      cases h
      exact .moment
    · unfold takeNumber? at h
      split at h
      · exact takeBased?_distinct h
      · exact takeBased?_distinct h
      · exact takeBased?_distinct h
      · exact takeDecimal?_distinct h

/-- With so much fuel, values that are read have distinct keys, and so have the items of arrays and
of pairs. -/
structure TakesDistinct (fuel : Nat) : Prop where
  value : ∀ {room cs item rest}, takeValue? fuel room cs = some (item, rest) → item.Distinct
  items : ∀ {room cs items rest}, takeItems? fuel room cs = some (items, rest) →
    ∀ item ∈ items, item.Distinct
  pairs : ∀ {room first cs pairs rest}, takePairs? fuel room first cs = some (pairs, rest) →
    DistinctPairs pairs

variable {fuel room : Nat}

theorem TakesDistinct.value_succ (ih : TakesDistinct fuel)
    (h : takeValue? (fuel + 1) room cs = some (item, rest)) : item.Distinct := by
  cases cs with
  | nil => cases h
  | cons c r =>
      simp only [takeValue?] at h
      -- the first character says of which form the value is
      split at h
      · obtain ⟨⟨s, rest'⟩, -, h⟩ := Option.map_eq_some_iff.1 h
        cases h
        exact .text s
      split at h
      · split at h
        · cases h
        · obtain ⟨⟨items, rest'⟩, htake, h⟩ := Option.map_eq_some_iff.1 h
          cases h
          exact .array (ih.items htake)
      split at h
      · split at h
        · cases h
        · obtain ⟨⟨pairs, rest'⟩, htake, h⟩ := Option.bind_eq_some_iff.1 h
          obtain ⟨t, ht, h⟩ := Option.bind_eq_some_iff.1 h
          cases h
          exact .table (insertAll?_distinct (ih.pairs htake) Entries.distinct_nil ht)
      split at h
      · split at h
        · cases h
          exact .bool true
        · cases h
      split at h
      · split at h
        · cases h
          exact .bool false
        · cases h
      · exact takeNumberOrMoment?_distinct h

theorem TakesDistinct.items_succ (ih : TakesDistinct fuel) {items : List Item}
    (h : takeItems? (fuel + 1) room cs = some (items, rest)) : ∀ item ∈ items, item.Distinct := by
  simp only [takeItems?] at h
  obtain ⟨start, -, h⟩ := Option.bind_eq_some_iff.1 h
  split at h
  · cases h
    simp
  · obtain ⟨⟨item, rest'⟩, hitem, h⟩ := Option.bind_eq_some_iff.1 h
    obtain ⟨next, -, h⟩ := Option.bind_eq_some_iff.1 h
    split at h
    · cases h
      simpa using ih.value hitem
    · obtain ⟨⟨more, rest''⟩, hmore, h⟩ := Option.bind_eq_some_iff.1 h
      cases h
      exact List.forall_mem_cons.2 ⟨ih.value hitem, ih.items hmore⟩
    · cases h

theorem TakesDistinct.pairs_succ (ih : TakesDistinct fuel) {first : Bool} {pairs : List Pair}
    (h : takePairs? (fuel + 1) room first cs = some (pairs, rest)) : DistinctPairs pairs := by
  simp only [takePairs?] at h
  split at h
  · split at h
    · cases h
      simp [DistinctPairs]
    · cases h
  · obtain ⟨⟨⟨path, key⟩, rest'⟩, -, h⟩ := Option.bind_eq_some_iff.1 h
    dsimp only at h
    split at h
    · obtain ⟨⟨item, rest''⟩, hitem, h⟩ := Option.bind_eq_some_iff.1 h
      dsimp only at h
      split at h
      · cases h
        simpa [DistinctPairs] using ih.value hitem
      · obtain ⟨⟨more, last⟩, hmore, h⟩ := Option.bind_eq_some_iff.1 h
        cases h
        exact List.forall_mem_cons.2 ⟨ih.value hitem, ih.pairs hmore⟩
      · cases h
    · cases h

theorem takesDistinct (fuel : Nat) : TakesDistinct fuel := by
  -- The induction is on the fuel, which values, items and pairs share.
  induction fuel with
  | zero => constructor <;> intros <;> contradiction
  | succ fuel ih => exact ⟨ih.value_succ, ih.items_succ, ih.pairs_succ⟩

/-! ## Lines -/

theorem takeHeader?_distinct {s : Statement} (h : takeHeader? cs = some (s, rest)) :
    s.Distinct := by
  unfold takeHeader? at h
  split at h
  · obtain ⟨⟨⟨path, key⟩, rest'⟩, -, h⟩ := Option.bind_eq_some_iff.1 h
    dsimp only at h
    split at h
    · cases h
      trivial
    · cases h
  · obtain ⟨⟨⟨path, key⟩, rest'⟩, -, h⟩ := Option.bind_eq_some_iff.1 h
    dsimp only at h
    split at h
    · cases h
      trivial
    · cases h

theorem takePair?_distinct {s : Statement} (h : takePair? cs = some (s, rest)) : s.Distinct := by
  obtain ⟨⟨⟨path, key⟩, rest'⟩, -, h⟩ := Option.bind_eq_some_iff.1 h
  dsimp only at h
  split at h
  · obtain ⟨⟨item, rest''⟩, hitem, h⟩ := Option.bind_eq_some_iff.1 h
    cases h
    exact (takesDistinct _).value hitem
  · cases h

theorem statements?_distinct {fuel : Nat} {statements : List Statement}
    (h : statements? fuel cs = some statements) : ∀ s ∈ statements, s.Distinct := by
  induction fuel generalizing cs statements with
  | zero => cases h
  | succ fuel ih =>
      rw [statements?] at h
      split at h
      · cases h
        simp
      · split at h
        · obtain ⟨rest, -, h⟩ := Option.bind_eq_some_iff.1 h
          exact ih h
        · dsimp only at h
          split at h
          · obtain ⟨⟨s, rest⟩, hs, h⟩ := Option.bind_eq_some_iff.1 h
            obtain ⟨next, -, h⟩ := Option.bind_eq_some_iff.1 h
            obtain ⟨more, hmore, h⟩ := Option.bind_eq_some_iff.1 h
            cases h
            exact List.forall_mem_cons.2 ⟨takeHeader?_distinct hs, ih hmore⟩
          · obtain ⟨⟨s, rest⟩, hs, h⟩ := Option.bind_eq_some_iff.1 h
            obtain ⟨next, -, h⟩ := Option.bind_eq_some_iff.1 h
            obtain ⟨more, hmore, h⟩ := Option.bind_eq_some_iff.1 h
            cases h
            exact List.forall_mem_cons.2 ⟨takePair?_distinct hs, ih hmore⟩

/-- **A document defines each key once.** -/
theorem parse?_distinct (h : parse? cs = some t) : t.Distinct := by
  obtain ⟨statements, hstatements, ht⟩ := Option.bind_eq_some_iff.1 h
  exact ofStatements?_distinct (statements?_distinct hstatements) ht

end

end Criteria.Toml
