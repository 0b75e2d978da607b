import Criteria.Settings.Reader
import Mathlib.Control.Monad.Basic
import Mathlib.Tactic.SplitIfs

set_option autoImplicit false

/-! # Environments applied in turn

Environments are tried one after another, and where one fails the settings stay as they were. An
environment that succeeds is used up, so only its first success counts (`Progress.next`). What holds
between the settings and the environments that were applied is an invariant of each step
(`Invariant.next`), so it holds after any of them: each setting has the value of the latest applied
environment that gives one, or else its value from the start (`latest_environment_prevails`). -/

namespace Criteria

namespace Settings

/-! ## Settings that environments give -/

/-- A setting that an environment may give a value. -/
structure Setting (α : Type) where
  get : Settings → α
  given : Override → Option α
  get_override : ∀ s o, get (s.override o) = (given o).getD (get s)
  get_without : ∀ s name, get (s.without name) = get s

/-- The greatest number of criteria. -/
def Setting.maxCriteria : Setting Nat where
  get s := s.limits.maxCriteria
  given o := o.filter.bind (·.maxCriteria)
  get_override s o := by
    cases hfilter : o.filter <;> simp [Settings.override, Limits.override, hfilter]
  get_without _ _ := rfl

/-- The greatest number of bytes. -/
def Setting.maxPayloadBytes : Setting Nat where
  get s := s.limits.maxPayloadBytes
  given o := o.filter.bind (·.maxPayloadBytes)
  get_override s o := by
    cases hfilter : o.filter <;> simp [Settings.override, Limits.override, hfilter]
  get_without _ _ := rfl

/-- Whether requests are logged. -/
def Setting.logFilters : Setting Bool where
  get s := s.logFilters
  given o := o.debug.bind (·.logFilters)
  get_override _ _ := rfl
  get_without _ _ := rfl

/-! ## One environment -/

/-- Both limits let some request through. -/
structure Passes (s : Settings) : Prop where
  criteria : 0 < s.limits.maxCriteria
  bytes : 0 < s.limits.maxPayloadBytes

/-- An environment gives a limit that lets no request through. -/
def Refuses (o : Override) : Prop :=
  Setting.maxCriteria.given o = some 0 ∨ Setting.maxPayloadBytes.given o = some 0

variable {s base : Settings}

theorem passes_of_check (h : s.check = .ok ()) : s.Passes := by
  unfold check at h
  split_ifs at h with hcriteria hbytes
  exact ⟨Nat.pos_of_ne_zero hcriteria, Nat.pos_of_ne_zero hbytes⟩

theorem Passes.check_eq (h : s.Passes) : s.check = .ok () := by
  rw [check, if_neg (Nat.ne_of_gt h.criteria), if_neg (Nat.ne_of_gt h.bytes)]

/-- The check fails because of a limit. -/
theorem exists_zeroLimit (h : ¬ s.Passes) : ∃ setting, s.check = .error (.zeroLimit setting) := by
  unfold check
  split_ifs with hcriteria hbytes
  · exact ⟨_, rfl⟩
  · exact ⟨_, rfl⟩
  · exact absurd ⟨Nat.pos_of_ne_zero hcriteria, Nat.pos_of_ne_zero hbytes⟩ h

theorem getD_pos_iff {given : Option Nat} {n : Nat} (hn : 0 < n) :
    0 < given.getD n ↔ given ≠ some 0 := by
  cases given with
  | none => simp [hn]
  | some k => simp [Nat.pos_iff_ne_zero]

/-- Limits that let some request through do so until an environment gives one that does not. -/
theorem Passes.override_iff (h : s.Passes) (o : Override) (name : String) :
    ((s.override o).without name).Passes ↔ ¬ Refuses o := by
  have hcriteria : 0 < ((s.override o).without name).limits.maxCriteria ↔
      Setting.maxCriteria.given o ≠ some 0 := by
    rw [show ((s.override o).without name).limits.maxCriteria = _ from
      Setting.maxCriteria.get_override s o]
    exact getD_pos_iff h.criteria
  have hbytes : 0 < ((s.override o).without name).limits.maxPayloadBytes ↔
      Setting.maxPayloadBytes.given o ≠ some 0 := by
    rw [show ((s.override o).without name).limits.maxPayloadBytes = _ from
      Setting.maxPayloadBytes.get_override s o]
    exact getD_pos_iff h.bytes
  rw [Refuses, not_or]
  constructor
  · intro hpasses
    exact ⟨hcriteria.1 hpasses.criteria, hbytes.1 hpasses.bytes⟩
  · intro hgiven
    exact ⟨hcriteria.2 hgiven.1, hbytes.2 hgiven.2⟩

/-- A name that is not known changes nothing. -/
theorem Passes.withEnvironment_unknown (h : s.Passes) {name : String}
    (hname : s.environments.lookup name = none) : s.withEnvironment name = .ok s := by
  simp only [withEnvironment, hname, h.check_eq]
  rfl

/-- An environment that is known is applied and used up. -/
theorem Passes.withEnvironment_known (h : s.Passes) {name : String} {o : Override}
    (hname : s.environments.lookup name = some o) (ho : ¬ Refuses o) :
    s.withEnvironment name = .ok ((s.override o).without name) := by
  simp only [withEnvironment, hname, ((h.override_iff o name).2 ho).check_eq]
  rfl

/-- An environment that refuses every request is refused itself. -/
theorem Passes.withEnvironment_refused (h : s.Passes) {name : String} {o : Override}
    (hname : s.environments.lookup name = some o) (ho : Refuses o) :
    ∃ setting, s.withEnvironment name = .error (.zeroLimit setting) := by
  have hfails : ¬ ((s.override o).without name).Passes := by
    rw [h.override_iff o name]
    exact not_not_intro ho
  obtain ⟨setting, hcheck⟩ := exists_zeroLimit hfails
  refine ⟨setting, ?_⟩
  simp only [withEnvironment, hname, hcheck]
  rfl

/-- An environment fails if and only if it is known and gives a limit of zero. -/
theorem Passes.fails_iff (h : s.Passes) (name : String) :
    (∃ r, s.withEnvironment name = .error r) ↔
      ∃ o, s.environments.lookup name = some o ∧ Refuses o := by
  cases hname : s.environments.lookup name with
  | none => simp [h.withEnvironment_unknown hname]
  | some o =>
      by_cases ho : Refuses o
      · obtain ⟨setting, hfails⟩ := h.withEnvironment_refused hname ho
        simp [hfails, ho]
      · simp [h.withEnvironment_known hname ho, ho]

/-! ## Environments in turn -/

/-- Settings after some environments were tried, and which of these were applied: each once, when it
first succeeded, the latest in front. -/
structure Progress where
  settings : Settings
  applied : List String

/-- One more environment is tried; where it fails everything stays as it was. -/
def Progress.next (p : Progress) (name : String) : Progress :=
  match p.settings.withEnvironment name with
  | .ok s => ⟨s, p.applied.insert name⟩
  | .error _ => p

/-- The environments of the given names are tried in order. -/
def progress (s : Settings) (names : List String) : Progress := names.foldl Progress.next ⟨s, []⟩

/-- The value that the environment of a name gives a setting. -/
def given {α : Type} (s : Settings) (x : Setting α) (name : String) : Option α :=
  (s.environments.lookup name).bind x.given

/-- The settings are those from the start, with what was applied since. -/
structure Invariant (base : Settings) (p : Progress) : Prop where
  passes : p.settings.Passes
  get : ∀ {α : Type} (x : Setting α),
    x.get p.settings = (p.applied.findSome? (base.given x)).getD (x.get base)
  environments : p.settings.environments = base.environments.filter fun e => e.1 ∉ p.applied

theorem lookup_filter {α : Type} (entries : List (String × α)) (names : List String)
    (name : String) :
    (entries.filter fun e => e.1 ∉ names).lookup name =
      if name ∈ names then none else entries.lookup name := by
  induction entries with
  | nil => simp
  | cons e entries ih =>
      obtain ⟨key, a⟩ := e
      by_cases hkey : key ∈ names
      · rw [List.filter_cons_of_neg (by simpa using hkey), ih, List.lookup_cons]
        by_cases hname : name = key
        · simp [hname, hkey]
        · have hne : (name == key) = false := by simpa using hname
          rw [hne]
      · rw [List.filter_cons_of_pos (by simpa using hkey), List.lookup_cons, ih, List.lookup_cons]
        by_cases hname : name = key
        · simp [hname, hkey]
        · have hne : (name == key) = false := by simpa using hname
          rw [hne]

/-- An environment that is not known, or known no longer, leaves everything as it is. -/
theorem Invariant.insert_unknown {p : Progress} (h : Invariant base p) {name : String}
    (hname : p.settings.environments.lookup name = none) :
    Invariant base ⟨p.settings, p.applied.insert name⟩ := by
  by_cases happlied : name ∈ p.applied
  · rw [List.insert_of_mem happlied]
    exact h
  · have hbase : base.environments.lookup name = none := by
      rwa [h.environments, lookup_filter, if_neg happlied] at hname
    rw [List.insert_of_not_mem happlied]
    refine ⟨h.passes, ?_, ?_⟩
    · intro α x
      rw [h.get x, List.findSome?_cons, given, hbase]
      rfl
    · rw [h.environments]
      refine List.filter_congr ?_
      intro e he
      have hne : e.1 ≠ name := by
        have hall := List.lookup_eq_none_iff.1 hbase e he
        simpa using Ne.symm (by simpa using hall)
      simp [hne]

/-- An environment that is applied gives its values. -/
theorem Invariant.insert_known {p : Progress} (h : Invariant base p) {name : String} {o : Override}
    (hname : p.settings.environments.lookup name = some o) (ho : ¬ Refuses o) :
    Invariant base ⟨(p.settings.override o).without name, p.applied.insert name⟩ := by
  rw [h.environments, lookup_filter] at hname
  split_ifs at hname with happlied
  rw [List.insert_of_not_mem happlied]
  refine ⟨(h.passes.override_iff o name).2 ho, ?_, ?_⟩
  · intro α x
    rw [x.get_without, x.get_override, h.get x, List.findSome?_cons, given, hname, Option.bind_some]
    cases x.given o <;> rfl
  · have hbefore : (p.settings.override o).environments = p.settings.environments := rfl
    rw [without, hbefore, h.environments]
    dsimp only
    rw [List.filter_filter]
    refine List.filter_congr ?_
    intro e _
    by_cases he : e.1 = name <;> simp [he]

/-- The invariant holds after one more step. -/
theorem Invariant.next {p : Progress} (h : Invariant base p) (name : String) :
    Invariant base (p.next name) := by
  rw [Progress.next]
  cases hname : p.settings.environments.lookup name with
  | none =>
      rw [h.passes.withEnvironment_unknown hname]
      exact h.insert_unknown hname
  | some o =>
      by_cases ho : Refuses o
      · obtain ⟨setting, hfails⟩ := h.passes.withEnvironment_refused hname ho
        rw [hfails]
        exact h
      · rw [h.passes.withEnvironment_known hname ho]
        exact h.insert_known hname ho

/-- The invariant holds after any steps. -/
theorem invariant_progress (h : base.Passes) (names : List String) :
    Invariant base (base.progress names) := by
  have hrun : ∀ p, Invariant base p → Invariant base (names.foldl Progress.next p) := by
    induction names with
    | nil => exact fun p hp => hp
    | cons name names ih => exact fun p hp => ih _ (hp.next name)
  refine hrun _ ⟨h, fun x => rfl, ?_⟩
  exact (List.filter_eq_self.2 fun e _ => by simp).symm

theorem passes_of_parse {env : Environment} {text : String} (h : parse env text = .ok base) :
    base.Passes := by
  unfold parse at h
  split at h
  · cases h
  · next s hs =>
      cases hcheck : s.check with
      | error r =>
          rw [hcheck] at h
          cases h
      | ok u =>
          rw [hcheck] at h
          cases h
          exact passes_of_check hcheck

/-- **The latest environment prevails.** After any names were tried on the settings of a text, both
limits are greater than zero; each setting has the value of the latest applied environment that
gives one, and the value in the text if none does; the environments left are those not applied; and
the next name fails, because of a limit, exactly if its environment is left and gives a limit of
zero. -/
theorem latest_environment_prevails {env : Environment} {text : String}
    (h : parse env text = .ok base) (names : List String) :
    let now := (base.progress names).settings
    let applied := (base.progress names).applied
    (0 < now.limits.maxCriteria ∧ 0 < now.limits.maxPayloadBytes) ∧
    (now.limits.maxCriteria =
      (applied.findSome? (base.given .maxCriteria)).getD base.limits.maxCriteria ∧
    now.limits.maxPayloadBytes =
      (applied.findSome? (base.given .maxPayloadBytes)).getD base.limits.maxPayloadBytes ∧
    now.logFilters = (applied.findSome? (base.given .logFilters)).getD base.logFilters) ∧
    now.environments = base.environments.filter (fun e => e.1 ∉ applied) ∧
    ∀ name, ((∃ r, now.withEnvironment name = .error r) ↔
        ∃ o, now.environments.lookup name = some o ∧ Refuses o) ∧
      ∀ r, now.withEnvironment name = .error r → r.code = "sift::schema::config_error" := by
  intro now applied
  have hinvariant := invariant_progress (passes_of_parse h) names
  refine ⟨⟨hinvariant.passes.criteria, hinvariant.passes.bytes⟩,
    ⟨hinvariant.get .maxCriteria, hinvariant.get .maxPayloadBytes, hinvariant.get .logFilters⟩,
    hinvariant.environments, ?_⟩
  intro name
  refine ⟨hinvariant.passes.fails_iff name, ?_⟩
  intro r hr
  obtain ⟨o, hname, ho⟩ := (hinvariant.passes.fails_iff name).1 ⟨r, hr⟩
  obtain ⟨setting, hfails⟩ := hinvariant.passes.withEnvironment_refused hname ho
  obtain rfl := Except.error.inj (hfails.symm.trans hr)
  rfl

/-- Two environments that both limit the number of criteria, and one that lets no request
through. -/
def threeEnvironments : String :=
  "[environments]\n" ++ "live.filter.max_criteria=4\n" ++ "live.debug.log_filters=true\n" ++
    "trial.filter.max_criteria=8\n" ++ "off.filter.max_criteria=0"

/-- The settings of that text. -/
def threeBase : Settings where
  environments :=
    [("live", ⟨some ⟨some 4, none⟩, some ⟨some true⟩⟩), ("trial", ⟨some ⟨some 8, none⟩, none⟩),
      ("off", ⟨some ⟨some 0, none⟩, none⟩)]

/-- The live environment is applied first and tried again after the trial one, when it no longer
counts; the one that lets no request through fails, before and after. -/
theorem latest_environment_prevails_trial :
    let names := ["live", "off", "trial", "elsewhere", "live"]
    let now := (threeBase.progress names).settings
    parse {} threeEnvironments = .ok threeBase ∧
      (threeBase.progress names).applied = ["elsewhere", "trial", "live"] ∧
      now.limits.maxCriteria = 8 ∧ now.limits.maxPayloadBytes = 16384 ∧ now.logFilters = true ∧
      ∃ r, now.withEnvironment "off" = .error r := by
  intro names now
  have hparse : parse {} threeEnvironments = .ok threeBase := by
    unfold parse threeEnvironments
    simp only [String.toList_append]
    decide +kernel
  have happlied : (threeBase.progress names).applied = ["elsewhere", "trial", "live"] := by
    decide +kernel
  obtain ⟨-, ⟨hcriteria, hbytes, hlog⟩, henvironments, hnext⟩ :=
    latest_environment_prevails hparse names
  rw [happlied] at hcriteria hbytes hlog henvironments
  refine ⟨hparse, happlied, hcriteria, hbytes, hlog, (hnext "off").1.2 ?_⟩
  refine ⟨⟨some ⟨some 0, none⟩, none⟩, ?_, Or.inl rfl⟩
  rw [henvironments]
  decide

end Settings

end Criteria
