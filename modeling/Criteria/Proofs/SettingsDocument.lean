import Criteria.Proofs.Environments
import Criteria.Proofs.Toml.Shape
import Mathlib

set_option autoImplicit false

/-! # Settings and the documents they are read from

Where every group of settings is a table, a document gives settings if and only if it conforms to
one shape (`shape`), so a key that is not known is refused wherever it stands, also in environments
that are never applied. What the settings are is then read off the document path by path. Each
reader is described once (`Reads`), from the numbers up to the whole document
(`ofDocument?_eq_some_iff`). -/

namespace Criteria.Settings

open Toml

/-! ## What belongs in a document -/

/-- Limits, or what an environment says about them. -/
def limitShape : Shape := .group [("max_criteria", .natural), ("max_payload_bytes", .natural)]

/-- Debugging, or what an environment says about it. -/
def debugShape : Shape := .group [("log_filters", .truth)]

/-- What an environment overrides. -/
def overrideShape : Shape := .group [("filter", limitShape), ("debug", debugShape)]

/-- A document with settings. -/
def shape : Shape :=
  .group [("filter", limitShape), ("debug", debugShape), ("environments", .named overrideShape)]

/-! ## What a document says -/

/-- The natural number that stands in a document. -/
def naturalOf : Item → Nat
  | .integer i => i.toInt.toNat
  | _ => 0

/-- The truth value that stands in a document. -/
def truthOf : Item → Bool
  | .bool b => b
  | _ => false

/-- What a table says about limits. -/
def limitOverrideOf (item : Item) : LimitOverride where
  maxCriteria := (item.at? ["max_criteria"]).map naturalOf
  maxPayloadBytes := (item.at? ["max_payload_bytes"]).map naturalOf

/-- What a table says about debugging. -/
def debugOverrideOf (item : Item) : DebugOverride where
  logFilters := (item.at? ["log_filters"]).map truthOf

/-- What a table says about an environment. -/
def overrideOf (item : Item) : Override where
  filter := (item.at? ["filter"]).map limitOverrideOf
  debug := (item.at? ["debug"]).map debugOverrideOf

/-- The limits of all requests in a document. -/
def limitsOf (item : Item) : Limits := Limits.override {} (limitOverrideOf item)

/-- Whether a document has all requests logged. -/
def loggingOf (item : Item) : Bool := ((item.at? ["log_filters"]).map truthOf).getD false

/-- The environments of a document. -/
def environmentsOf : Item → List (String × Override)
  | .table _ entries => entries.map fun e => (e.1, overrideOf e.2)
  | _ => []

/-- The settings that a document says. -/
def settingsOf (root : Item) : Settings where
  limits := ((root.at? ["filter"]).map limitsOf).getD {}
  logFilters := ((root.at? ["debug"]).map loggingOf).getD false
  environments := ((root.at? ["environments"]).map environmentsOf).getD []

/-! ## Readers -/

/-- A reader takes the items that conform to a shape, for what they say. -/
def Reads {α : Type} (shape : Shape) (read : Item → Option α) (value : Item → α) : Prop :=
  ∀ item, Tabular shape item → item.Distinct → ∀ a, read item = some a ↔
    Conforms shape item ∧ a = value item

theorem reads_natural : Reads .natural natural? naturalOf := by
  intro item _ _ n
  rw [conforms_natural_iff]
  cases item with
  | integer i =>
      by_cases hi : 0 ≤ i.toInt
      · simp [natural?, naturalOf, hi, eq_comm]
      · simp [natural?, hi]
  | text | float | bool | moment | array | table | tables => simp [natural?]

theorem reads_bool : Reads .truth bool? truthOf := by
  intro item _ _ b
  rw [conforms_truth_iff]
  cases item with
  | bool b' => simp [bool?, truthOf, eq_comm]
  | text | integer | float | moment | array | table | tables => simp [bool?]

section

variable {α : Type} {part : Shape} {read : Item → Option α} {value : Item → α}
  {kind : TableKind} {entries : Entries} {members : List (String × Shape)}

/-- A setting that need not be given is refused if it is given and does not conform. -/
theorem Reads.optional?_eq_some_iff (h : Reads part read value)
    (htabular : Tabular (.group members) (.table kind entries))
    (hdistinct : (Item.table kind entries).Distinct) (key : String)
    (hkey : members.lookup key = some part) (o : Option α) :
    optional? read (entries.get? key) = some o ↔
      (∀ sub, entries.get? key = some sub → Conforms part sub) ∧
        o = ((Item.table kind entries).at? [key]).map value := by
  rw [Item.at?_key]
  cases hsub : entries.get? key with
  | none => simp [optional?, eq_comm]
  | some sub =>
      have hread := h sub (htabular.member hsub hkey) (hdistinct.of_table.get? hsub)
      rw [optional?, Option.map_eq_some_iff]
      constructor
      · rintro ⟨a, ha, rfl⟩
        obtain ⟨hconforms, rfl⟩ := (hread a).1 ha
        exact ⟨by rintro _ ⟨⟩; exact hconforms, rfl⟩
      · rintro ⟨hconforms, rfl⟩
        exact ⟨value sub, (hread _).2 ⟨hconforms sub rfl, rfl⟩, rfl⟩

theorem knows_iff {keys : List String} :
    knows keys entries = true ↔ ∀ e ∈ entries, e.1 ∈ keys := by
  simp only [knows, List.all_eq_true, List.contains_iff_mem]

theorem group?_table (defaults : Bool) (keys : List String) (kind : TableKind)
    (entries : Entries) : group? defaults keys (.table kind entries) =
      if knows keys entries then some (keys.map (Entries.get? entries ·)) else none := rfl

/-- A group is read if it has no key but its own and what it has at these is read. -/
theorem Reads.group {defaults : Bool} {body : List (Option Item) → Option α}
    (hmembers : (members.map Prod.fst).Nodup)
    (hbody : ∀ kind (entries : Entries), Tabular (.group members) (.table kind entries) →
      (Item.table kind entries).Distinct → ∀ a,
        body (members.map fun m => entries.get? m.1) = some a ↔
          (∀ m ∈ members, ∀ sub, entries.get? m.1 = some sub → Conforms m.2 sub) ∧
            a = value (.table kind entries)) :
    Reads (.group members) (fun item => (group? defaults (members.map Prod.fst) item).bind body)
      value := by
  intro item htabular hdistinct a
  obtain ⟨kind, entries, rfl⟩ := htabular.isTable rfl
  dsimp only
  rw [conforms_group_iff hmembers, ← knows_iff, group?_table]
  by_cases hall : knows (members.map Prod.fst) entries = true
  · rw [if_pos hall, Option.bind_some, List.map_map, and_iff_right hall]
    exact hbody kind entries htabular hdistinct a
  · rw [if_neg hall]
    refine iff_of_false (by simp) ?_
    rintro ⟨⟨hall', -⟩, -⟩
    exact hall hall'

/-- A group of one setting. -/
theorem Reads.group_one {β : Type} (h : Reads part read value) (defaults : Bool) (key : String)
    (make : Option α → β) :
    Reads (.group [(key, part)])
      (fun item => (group? defaults [key] item).bind fun
        | [given] => (optional? read given).bind fun a => some (make a)
        | _ => none)
      (fun item => make ((item.at? [key]).map value)) := by
  refine Reads.group (by simp) ?_
  intro kind entries htabular hdistinct b
  have hoptional := h.optional?_eq_some_iff htabular hdistinct key (by simp)
  simp only [List.map_cons, List.map_nil, Option.bind_eq_some_iff, hoptional, List.forall_mem_cons]
  constructor
  · rintro ⟨_, ⟨hconforms, rfl⟩, hb⟩
    exact ⟨⟨hconforms, by simp⟩, (Option.some.inj hb).symm⟩
  · rintro ⟨⟨hconforms, -⟩, rfl⟩
    exact ⟨_, ⟨hconforms, rfl⟩, rfl⟩

/-- A group of two settings. -/
theorem Reads.group_two {β γ : Type} {part' : Shape} {read' : Item → Option β}
    {value' : Item → β} (h : Reads part read value) (h' : Reads part' read' value')
    (defaults : Bool) {key key' : String} (hkey : key ≠ key') (make : Option α → Option β → γ) :
    Reads (.group [(key, part), (key', part')])
      (fun item => (group? defaults [key, key'] item).bind fun
        | [given, given'] => (optional? read given).bind fun a =>
            (optional? read' given').bind fun b => some (make a b)
        | _ => none)
      (fun item => make ((item.at? [key]).map value) ((item.at? [key']).map value')) := by
  have hmembers : (List.map Prod.fst [(key, part), (key', part')]).Nodup := by simpa using hkey
  refine Reads.group hmembers ?_
  intro kind entries htabular hdistinct c
  have hfirst := h.optional?_eq_some_iff htabular hdistinct _
    ((lookup_eq_some_iff_mem hmembers).2 List.mem_cons_self)
  have hsecond := h'.optional?_eq_some_iff htabular hdistinct _
    ((lookup_eq_some_iff_mem hmembers).2 (List.mem_cons_of_mem _ List.mem_cons_self))
  simp only [List.map_cons, List.map_nil, Option.bind_eq_some_iff, hfirst, hsecond,
    List.forall_mem_cons]
  constructor
  · rintro ⟨_, ⟨hconforms, rfl⟩, _, ⟨hconforms', rfl⟩, hc⟩
    exact ⟨⟨hconforms, hconforms', by simp⟩, (Option.some.inj hc).symm⟩
  · rintro ⟨⟨hconforms, hconforms', -⟩, rfl⟩
    exact ⟨_, ⟨hconforms, rfl⟩, _, ⟨hconforms', rfl⟩, rfl⟩

/-- Named items are read if each of them is. -/
theorem Reads.mapM_eq_some_iff (h : Reads part read value)
    (hentries : ∀ e ∈ entries, Tabular part e.2 ∧ e.2.Distinct) (named : List (String × α)) :
    (entries.mapM fun (name, item) => (read item).map fun a => (name, a)) = some named ↔
      (∀ e ∈ entries, Conforms part e.2) ∧ named = entries.map fun e => (e.1, value e.2) := by
  induction entries generalizing named with
  | nil => simp [eq_comm]
  | cons e entries ih =>
      obtain ⟨hfirst, hmore⟩ := List.forall_mem_cons.1 hentries
      have hread := h e.2 hfirst.1 hfirst.2
      rw [List.mapM_cons, List.forall_mem_cons, List.map_cons]
      simp only [Option.bind_eq_bind, Option.bind_eq_some_iff, Option.map_eq_some_iff, hread,
        ih hmore]
      constructor
      · rintro ⟨_, ⟨_, ⟨hconforms, rfl⟩, rfl⟩, _, ⟨hall, rfl⟩, hnamed⟩
        exact ⟨⟨hconforms, hall⟩, (Option.some.inj hnamed).symm⟩
      · rintro ⟨⟨hconforms, hall⟩, rfl⟩
        exact ⟨_, ⟨_, ⟨hconforms, rfl⟩, rfl⟩, _, ⟨hall, rfl⟩, rfl⟩

end

/-! ## The groups -/

theorem reads_limitOverride : Reads limitShape limitOverride? limitOverrideOf :=
  reads_natural.group_two reads_natural false (by decide) LimitOverride.mk

theorem reads_debugOverride : Reads debugShape debugOverride? debugOverrideOf :=
  reads_bool.group_one false "log_filters" DebugOverride.mk

theorem reads_override : Reads overrideShape override? overrideOf :=
  reads_limitOverride.group_two reads_debugOverride false (by decide) Override.mk

theorem reads_limits : Reads limitShape limits? limitsOf :=
  reads_natural.group_two reads_natural true (by decide) fun criteria bytes =>
    Limits.override {} ⟨criteria, bytes⟩

theorem reads_logging : Reads debugShape logging? loggingOf :=
  reads_bool.group_one true "log_filters" fun log => log.getD false

theorem reads_environments : Reads (.named overrideShape) environments? environmentsOf := by
  intro item htabular hdistinct environments
  obtain ⟨kind, entries, rfl⟩ := htabular.isTable rfl
  have hentries : ∀ e ∈ entries, Tabular overrideShape e.2 ∧ e.2.Distinct := by
    intro e he
    have hfound := (lookup_eq_some_iff_mem hdistinct.of_table.keys).2 he
    exact ⟨htabular.member hfound rfl, hdistinct.of_table.items e he⟩
  have hconforms : Conforms (.named overrideShape) (.table kind entries) ↔
      ∀ e ∈ entries, Conforms overrideShape e.2 := by
    rw [conforms_named_iff]
    constructor
    · intro h e he
      exact h e.1 e.2 ((lookup_eq_some_iff_mem hdistinct.of_table.keys).2 he)
    · intro h key sub hsub
      exact h (key, sub) (mem_of_lookup hsub)
  rw [hconforms]
  exact reads_override.mapM_eq_some_iff hentries environments

/-- A document whose groups are tables gives settings if and only if it conforms to the shape. -/
theorem ofDocument?_eq_some_iff {document : Entries}
    (htabular : Tabular shape (.table .header document)) (hdistinct : document.Distinct)
    (s : Settings) : ofDocument? document = some s ↔
      Conforms shape (.table .header document) ∧ s = settingsOf (.table .header document) := by
  have hroot : (Item.table .header document).Distinct := .table hdistinct
  have hfilter := reads_limits.optional?_eq_some_iff htabular hroot "filter" rfl
  have hdebug := reads_logging.optional?_eq_some_iff htabular hroot "debug" rfl
  have henvironments := reads_environments.optional?_eq_some_iff htabular hroot "environments" rfl
  rw [shape, conforms_group_iff (by decide), ofDocument?]
  by_cases hall : knows ["filter", "debug", "environments"] document = true
  · simp only [hall, if_true, Option.bind_eq_bind, Option.bind_eq_some_iff, hfilter, hdebug,
      henvironments, List.forall_mem_cons]
    constructor
    · rintro ⟨_, ⟨hfirst, rfl⟩, _, ⟨hsecond, rfl⟩, _, ⟨hthird, rfl⟩, hs⟩
      exact ⟨⟨knows_iff.1 hall, hfirst, hsecond, hthird, by simp⟩, (Option.some.inj hs).symm⟩
    · rintro ⟨⟨-, hfirst, hsecond, hthird, -⟩, rfl⟩
      exact ⟨_, ⟨hfirst, rfl⟩, _, ⟨hsecond, rfl⟩, _, ⟨hthird, rfl⟩, rfl⟩
  · rw [if_neg hall]
    refine iff_of_false (by simp) ?_
    rintro ⟨⟨hall', -⟩, -⟩
    exact hall (knows_iff.2 hall')

/-! ## Whole texts -/

/-- A limit on all requests is zero. -/
def GivesZero (root : Item) : Prop :=
  ∃ key ∈ limitKeys, root.at? ["filter", key] = some (.integer 0)

section

variable {env : Environment} {text : String} {document : Entries}

theorem naturalOf_eq_zero_iff {item : Item} (h : Conforms .natural item) :
    naturalOf item = 0 ↔ item = .integer 0 := by
  obtain ⟨i, rfl, hi⟩ := conforms_natural_iff.1 h
  rw [naturalOf, Item.integer.injEq, ← Int64.toInt_inj]
  have hzero : (0 : Int64).toInt = 0 := rfl
  omega

theorem settingsOf_maxCriteria (root : Item) : (settingsOf root).limits.maxCriteria =
    ((root.at? ["filter", "max_criteria"]).map naturalOf).getD 64 := by
  rw [Item.at?_cons, settingsOf]
  cases root.at? ["filter"] <;> rfl

theorem settingsOf_maxPayloadBytes (root : Item) : (settingsOf root).limits.maxPayloadBytes =
    ((root.at? ["filter", "max_payload_bytes"]).map naturalOf).getD 16384 := by
  rw [Item.at?_cons, settingsOf]
  cases root.at? ["filter"] <;> rfl

theorem settingsOf_logFilters (root : Item) : (settingsOf root).logFilters =
    ((root.at? ["debug", "log_filters"]).map truthOf).getD false := by
  rw [Item.at?_cons, settingsOf]
  cases root.at? ["debug"] <;> rfl

theorem environmentsOf_lookup (item : Item) (name : String) :
    (environmentsOf item).lookup name = (item.at? [name]).map overrideOf := by
  cases item with
  | table kind entries =>
      rw [Item.at?_key, Entries.get?, environmentsOf]
      induction entries with
      | nil => rfl
      | cons e entries ih =>
          rw [List.map_cons, List.lookup_cons, List.lookup_cons, ih]
          cases name == e.1 <;> rfl
  | text | integer | float | bool | moment | array | tables => rfl

theorem settingsOf_lookup (root : Item) (name : String) :
    (settingsOf root).environments.lookup name =
      (root.at? ["environments", name]).map overrideOf := by
  rw [Item.at?_cons, settingsOf]
  cases root.at? ["environments"] with
  | none => rfl
  | some item => exact environmentsOf_lookup item name

/-- A limit that is given is zero if a zero stands there. -/
theorem getD_naturalOf_pos_iff {found : Option Item} {n : Nat} (hn : 0 < n)
    (h : ∀ item, found = some item → Conforms .natural item) :
    0 < (found.map naturalOf).getD n ↔ found ≠ some (.integer 0) := by
  rw [getD_pos_iff hn]
  cases found with
  | none => simp
  | some item => simp [naturalOf_eq_zero_iff (h item rfl)]

theorem passes_settingsOf_iff {root : Item} (h : Conforms shape root) :
    (settingsOf root).Passes ↔ ¬ GivesZero root := by
  have hcriteria := getD_naturalOf_pos_iff (n := 64) (by decide)
    fun item (hitem : root.at? ["filter", "max_criteria"] = some item) => h.at? hitem rfl
  have hbytes := getD_naturalOf_pos_iff (n := 16384) (by decide)
    fun item (hitem : root.at? ["filter", "max_payload_bytes"] = some item) => h.at? hitem rfl
  rw [← settingsOf_maxCriteria] at hcriteria
  rw [← settingsOf_maxPayloadBytes] at hbytes
  have hzero : ¬ GivesZero root ↔
      root.at? ["filter", "max_criteria"] ≠ some (.integer 0) ∧
        root.at? ["filter", "max_payload_bytes"] ≠ some (.integer 0) := by
    simp [GivesZero, limitKeys]
  rw [hzero, ← hcriteria, ← hbytes]
  exact ⟨fun h => ⟨h.criteria, h.bytes⟩, fun h => ⟨h.1, h.2⟩⟩

/-- The settings of a text are those that its document says, if they let some request through. -/
theorem parse_eq_of_parse? (hparse : Toml.parse? (expand env.lookup? text.toList) = some document)
    (htables : Tabular shape (.table .header document)) :
    (¬ Conforms shape (.table .header document) ∧ parse env text = .error .malformed) ∨
    (Conforms shape (.table .header document) ∧ GivesZero (.table .header document) ∧
      ∃ setting, parse env text = .error (.zeroLimit setting)) ∨
    (Conforms shape (.table .header document) ∧ ¬ GivesZero (.table .header document) ∧
      parse env text = .ok (settingsOf (.table .header document))) := by
  have hread := ofDocument?_eq_some_iff htables (parse?_distinct hparse)
  by_cases hconforms : Conforms shape (.table .header document)
  · have hsettings := (hread _).2 ⟨hconforms, rfl⟩
    by_cases hzero : GivesZero (.table .header document)
    · have hpasses := mt (passes_settingsOf_iff hconforms).1 (not_not_intro hzero)
      obtain ⟨setting, hcheck⟩ := exists_zeroLimit hpasses
      refine Or.inr (Or.inl ⟨hconforms, hzero, setting, ?_⟩)
      simp only [parse, hparse, Option.bind_some, hsettings, hcheck]
      rfl
    · have hcheck := ((passes_settingsOf_iff hconforms).2 hzero).check_eq
      refine Or.inr (Or.inr ⟨hconforms, hzero, ?_⟩)
      simp only [parse, hparse, Option.bind_some, hsettings, hcheck]
      rfl
  · have hnone : ofDocument? document = none := by
      rw [Option.eq_none_iff_forall_ne_some]
      exact fun s hs => hconforms ((hread s).1 hs).1
    refine Or.inl ⟨hconforms, ?_⟩
    simp only [parse, hparse, Option.bind_some, hnone]

/-- **Settings are what the document says.** Where every group of settings is a table, a text gives
settings if and only if what stands at each path of its document belongs there and no limit is
zero; it is malformed if something does not belong where it stands, such as anything at a key that
is not known, and otherwise fails because of the limit. The settings are those at the paths of the
document, or the defaults, and each environment has what is said at its name. -/
theorem parse_tabular
    (hparse : Toml.parse? (expand env.lookup? text.toList) = some document)
    (htables : Tabular shape (.table .header document)) :
    let root := Item.table .header document
    ((∃ s, parse env text = .ok s) ↔ Conforms shape root ∧ ¬ GivesZero root) ∧
    (parse env text = .error .malformed ↔ ¬ Conforms shape root) ∧
    ((∃ setting, parse env text = .error (.zeroLimit setting)) ↔
      Conforms shape root ∧ GivesZero root) ∧
    (∀ path item, root.at? path = some item → shape.at? path = none →
      parse env text = .error .malformed) ∧
    ∀ s, parse env text = .ok s →
      s.limits.maxCriteria =
        ((root.at? ["filter", "max_criteria"]).map naturalOf).getD 64 ∧
      s.limits.maxPayloadBytes =
        ((root.at? ["filter", "max_payload_bytes"]).map naturalOf).getD 16384 ∧
      s.logFilters = ((root.at? ["debug", "log_filters"]).map truthOf).getD false ∧
      ∀ name, s.environments.lookup name =
        (root.at? ["environments", name]).map overrideOf := by
  intro root
  rcases parse_eq_of_parse? hparse htables with
    ⟨hconforms, hresult⟩ | ⟨hconforms, hzero, setting, hresult⟩ | ⟨hconforms, hzero, hresult⟩
  · simp [hresult, root, hconforms]
  · refine ⟨by simp [hresult, root, hzero], by simp [hresult, root, hconforms],
      by simp [hresult, root, hconforms, hzero], ?_, by simp [hresult]⟩
    intro path item hitem hpath
    exact absurd hpath (hconforms.at?_ne_none hitem)
  · refine ⟨by simp [hresult, root, hconforms, hzero], by simp [hresult, root, hconforms],
      by simp [hresult, root, hzero], ?_, ?_⟩
    · intro path item hitem hpath
      exact absurd hpath (hconforms.at?_ne_none hitem)
    · intro s hs
      obtain rfl := Except.ok.inj (hresult.symm.trans hs)
      exact ⟨settingsOf_maxCriteria root, settingsOf_maxPayloadBytes root,
        settingsOf_logFilters root, settingsOf_lookup root⟩

/-- A text with one limit on all requests and one number at a key of an environment. -/
def trialText (key : String) : String :=
  "[filter]\nmax_criteria=8\n[environments.trial.filter]\n" ++ key ++ "=4"

theorem toList_trialText (key : String) : (trialText key).toList =
    "[filter]\nmax_criteria=8\n[environments.trial.filter]\n".toList ++ key.toList ++
      "=4".toList :=
  String.toList_append.trans (congrArg (· ++ _) String.toList_append)

/-- The document of that text. -/
def trialDocument (key : String) : Entries :=
  [("filter", .table .header [("max_criteria", .integer 8)]),
    ("environments", .table .implied
      [("trial", .table .implied [("filter", .table .header [(key, .integer 4)])])])]

theorem tabular_trialDocument (key : String) :
    Tabular shape (.table .header (trialDocument key)) := by
  have hlimits : ∀ entries, Tabular limitShape (.table .header entries) := by
    intro entries
    refine tabular_group ?_
    intro _ _ m hm _
    refine tabular_of_isTable_eq_false ?_
    rcases List.mem_pair.1 hm with rfl | rfl <;> rfl
  have htrial : Tabular overrideShape
      (.table .implied [("filter", .table .header [(key, .integer 4)])]) := by
    refine tabular_group ?_
    simp [hlimits]
  refine tabular_group ?_
  simp [trialDocument, hlimits, tabular_named, htrial]

/-- The number counts at the key of a limit, and a misspelt key is not passed over although the
environment is not applied. -/
theorem parse_tabular_trial :
    (∃ s, parse {} (trialText "max_criteria") = .ok s ∧ s.limits.maxCriteria = 8 ∧
      s.limits.maxPayloadBytes = 16384 ∧ s.logFilters = false ∧
      s.environments.lookup "trial" = some ⟨some ⟨some 4, none⟩, none⟩) ∧
    parse {} (trialText "max_criterion") = .error .malformed := by
  have hknown : Toml.parse? (expand (Environment.lookup? {}) (trialText "max_criteria").toList) =
      some (trialDocument "max_criteria") := by
    rw [toList_trialText]
    cbv
  have hmisspelt : Toml.parse?
      (expand (Environment.lookup? {}) (trialText "max_criterion").toList) =
        some (trialDocument "max_criterion") := by
    rw [toList_trialText]
    cbv
  have hconforms : Conforms shape (.table .header (trialDocument "max_criteria")) :=
    ((ofDocument?_eq_some_iff (tabular_trialDocument _) (parse?_distinct hknown) _).1 rfl).1
  have hzero : ¬ GivesZero (.table .header (trialDocument "max_criteria")) := by
    rintro ⟨key, hkey, hzero⟩
    rcases List.mem_pair.1 hkey with rfl | rfl
    · exact absurd (Item.integer.inj (Option.some.inj hzero)) (by decide)
    · cases hzero
  obtain ⟨hok, -, -, -, hsays⟩ := parse_tabular hknown (tabular_trialDocument _)
  refine ⟨?_, ?_⟩
  · obtain ⟨s, hs⟩ := hok.2 ⟨hconforms, hzero⟩
    obtain ⟨hcriteria, hbytes, hlog, henvironments⟩ := hsays s hs
    exact ⟨s, hs, hcriteria, hbytes, hlog, henvironments "trial"⟩
  · exact (parse_tabular hmisspelt (tabular_trialDocument _)).2.2.2.1
      ["environments", "trial", "filter", "max_criterion"] (.integer 4) rfl rfl

end

end Criteria.Settings
