import Criteria.Proofs.Compile
import Mathlib.Data.List.SplitBy

set_option autoImplicit false

/-! # The shape of compiled filters

Criteria are joined from left to right, and joining extends a node of the same kind. So a compiled
filter leans to the left: every node holds a filter of the other kind, or a comparison, in front and
comparisons behind it (`Filter.LeftSpine`). What matters for the shape is how each criterion is
joined to those before it (`connectives`). These are the kinds of the nodes that hold the
comparisons from the second on (`Joined`), and each run of equal ones is a level of nesting
(`Filter.LeftSpine.depth_eq`). -/

namespace Criteria

/-! ## Connectives -/

/-- The two ways of joining filters. -/
inductive Connective where
  | all
  | any
deriving DecidableEq

namespace Connective

/-- The node of a kind. -/
def node : Connective → List Filter → Filter
  | .all => .all
  | .any => .any

/-- How a criterion is joined to those before it: a criterion on the property of the one before it
is an alternative. -/
def between (c d : Criterion) : Connective := if c.property = d.property then .any else .all

end Connective

/-- How the criteria from the second on are joined to those before them. -/
def connectives (cs : List Criterion) : List Connective :=
  List.zipWith Connective.between cs cs.tail

theorem connectives_concat (cs : List Criterion) (c d : Criterion) :
    connectives (cs ++ [c, d]) = connectives (cs ++ [c]) ++ [Connective.between c d] := by
  induction cs with
  | nil => rfl
  | cons b cs ih =>
      cases cs with
      | nil => rfl
      | cons b' cs => simpa [connectives] using ih

theorem getElem?_connectives {cs : List Criterion} {i : Nat} {c d : Criterion}
    (hc : cs[i]? = some c) (hd : cs[i + 1]? = some d) :
    (connectives cs)[i]? = some (Connective.between c d) := by
  rw [connectives, List.getElem?_zipWith, hc, List.getElem?_tail, hd]

namespace Filter

/-! ## Trees -/

/-- The kind of the node at the top. -/
def top? : Filter → Option Connective
  | .all _ => some .all
  | .any _ => some .any
  | _ => none

/-- Two filters, joined. -/
def join (k : Connective) (a b : Filter) : Filter :=
  match k with
  | .all => a.andThen b
  | .any => a.orElse b

mutual

/-- The number of nodes above the deepest comparison. -/
def depth : Filter → Nat
  | .always => 0
  | .compare .. => 0
  | .all operands => depthOf operands + 1
  | .any operands => depthOf operands + 1

/-- The greatest depth of several filters. -/
def depthOf : List Filter → Nat
  | [] => 0
  | f :: fs => max (depth f) (depthOf fs)

end

mutual

/-- The comparisons of a filter from left to right, each with the kind of the node that directly
holds it; `above` holds the whole filter. -/
def hanging (above : Option Connective) : Filter → List (Leaf × Option Connective)
  | .always => []
  | .compare op field value => [(⟨op, field, value⟩, above)]
  | .all operands => hangingOf .all operands
  | .any operands => hangingOf .any operands

/-- The comparisons of the operands of a node. -/
def hangingOf (k : Connective) : List Filter → List (Leaf × Option Connective)
  | [] => []
  | f :: fs => hanging (some k) f ++ hangingOf k fs

end

/-- The kinds of the nodes that hold the comparisons from the second on. -/
def joints (f : Filter) : List Connective := (hanging none f).tail.filterMap Prod.snd

mutual

theorem map_hanging (above : Option Connective) (f : Filter) :
    (hanging above f).map Prod.fst = leaves f := by
  cases f with
  | always => rfl
  | compare op field value => rfl
  | all operands => exact map_hangingOf .all operands
  | any operands => exact map_hangingOf .any operands

theorem map_hangingOf (k : Connective) (fs : List Filter) :
    (hangingOf k fs).map Prod.fst = leavesOf fs := by
  cases fs with
  | nil => rfl
  | cons f fs =>
      rw [hangingOf, leavesOf, List.map_append, map_hanging (some k) f, map_hangingOf k fs]

end

mutual

theorem leafCount_eq_length (f : Filter) : leafCount f = (leaves f).length := by
  cases f with
  | always => rfl
  | compare op field value => rfl
  | all operands => exact leafCounts_eq_length operands
  | any operands => exact leafCounts_eq_length operands

theorem leafCounts_eq_length (fs : List Filter) : leafCounts fs = (leavesOf fs).length := by
  cases fs with
  | nil => rfl
  | cons f fs =>
      rw [leafCounts, leavesOf, List.length_append, leafCount_eq_length f, leafCounts_eq_length fs]

end

@[simp] theorem top?_filter (l : Leaf) : l.filter.top? = none := rfl

@[simp] theorem top?_node (k : Connective) (fs : List Filter) : (k.node fs).top? = some k := by
  cases k <;> rfl

theorem hanging_node (above : Option Connective) (k : Connective) (fs : List Filter) :
    hanging above (k.node fs) = hangingOf k fs := by
  cases k <;> rfl

theorem depth_node (k : Connective) (fs : List Filter) : (k.node fs).depth = depthOf fs + 1 := by
  cases k <;> rfl

theorem hangingOf_leaves (k : Connective) (ls : List Leaf) :
    hangingOf k (ls.map Leaf.filter) = ls.map fun l => (l, some k) := by
  induction ls with
  | nil => rfl
  | cons l ls ih =>
      rw [List.map_cons, hangingOf, ih]
      rfl

theorem depthOf_leaves (ls : List Leaf) : depthOf (ls.map Leaf.filter) = 0 := by
  induction ls with
  | nil => rfl
  | cons l ls ih =>
      rw [List.map_cons, depthOf, ih]
      rfl

/-! ## Joining a comparison -/

theorem join_of_top (k : Connective) (fs : List Filter) (l : Leaf) :
    join k (k.node fs) l.filter = k.node (fs ++ [l.filter]) := by
  cases k <;> rfl

theorem join_of_ne {f : Filter} {k : Connective} (hne : f ≠ .always) (htop : f.top? ≠ some k)
    (l : Leaf) : join k f l.filter = k.node [f, l.filter] := by
  cases f with
  | always => exact absurd rfl hne
  | compare op field value => cases k <;> rfl
  | all operands =>
      cases k with
      | all => exact absurd rfl htop
      | any => rfl
  | any operands =>
      cases k with
      | all => rfl
      | any => exact absurd rfl htop

/-- A filter that leans to the left: a comparison, or a node whose first operand leans to the left
and is no node of the same kind, with one comparison or more behind it. -/
inductive LeftSpine : Filter → Prop where
  | leaf (l : Leaf) : LeftSpine l.filter
  | node (k : Connective) {first : Filter} {rest : List Leaf} (hfirst : LeftSpine first)
      (htop : first.top? ≠ some k) (hrest : rest ≠ []) :
      LeftSpine (k.node (first :: rest.map Leaf.filter))

namespace LeftSpine

variable {f : Filter}

theorem ne_always (h : LeftSpine f) : f ≠ .always := by
  cases h with
  | leaf l => simp [Leaf.filter]
  | node k hfirst htop hrest => cases k <;> simp [Connective.node]

theorem hanging_ne_nil (h : LeftSpine f) (above : Option Connective) : hanging above f ≠ [] := by
  cases h with
  | leaf l => simp [Leaf.filter, hanging]
  | node k hfirst htop hrest =>
      rw [hanging_node, hangingOf, hangingOf_leaves]
      simp [hrest]

/-- Only a comparison on its own hangs on what is above the filter. -/
theorem tail_hanging (h : LeftSpine f) (above : Option Connective) :
    (hanging above f).tail = (hanging none f).tail := by
  cases h with
  | leaf l => rfl
  | node k hfirst htop hrest => rw [hanging_node, hanging_node]

theorem tail_hanging_node {k : Connective} {first : Filter} {rest : List Leaf}
    (hfirst : LeftSpine first) :
    (hanging none (k.node (first :: rest.map Leaf.filter))).tail =
      (hanging none first).tail ++ rest.map fun l => (l, some k) := by
  rw [hanging_node, hangingOf, hangingOf_leaves,
    List.tail_append_of_ne_nil (hfirst.hanging_ne_nil _), hfirst.tail_hanging]

/-- A comparison is joined to the operands of a node of its kind, or to the whole filter. -/
theorem join_cases (h : LeftSpine f) (k : Connective) (l : Leaf) :
    (∃ first rest, LeftSpine first ∧ first.top? ≠ some k ∧
      f = k.node (first :: rest.map Leaf.filter) ∧
      f.join k l.filter = k.node (first :: (rest ++ [l]).map Leaf.filter)) ∨
    f.top? ≠ some k ∧ f.join k l.filter = k.node (f :: [l].map Leaf.filter) := by
  by_cases htop : f.top? = some k
  · cases h with
    | leaf l' => cases htop
    | @node k' first rest hfirst htop' hrest =>
        rw [top?_node] at htop
        cases htop
        exact Or.inl ⟨first, rest, hfirst, htop', rfl, by rw [join_of_top]; simp⟩
  · exact Or.inr ⟨htop, join_of_ne h.ne_always htop l⟩

/-- Joining a comparison keeps a filter leaning to the left. -/
theorem join (h : LeftSpine f) (k : Connective) (l : Leaf) : LeftSpine (f.join k l.filter) := by
  rcases h.join_cases k l with ⟨first, rest, hfirst, htop, -, hjoin⟩ | ⟨htop, hjoin⟩
  · rw [hjoin]
    exact node k hfirst htop (by simp)
  · rw [hjoin]
    exact node k h htop (by simp)

/-- The joined comparison is the last, and hangs on a node of the kind of the join. -/
theorem tail_hanging_join (h : LeftSpine f) (k : Connective) (l : Leaf) :
    (hanging none (f.join k l.filter)).tail = (hanging none f).tail ++ [(l, some k)] := by
  rcases h.join_cases k l with ⟨first, rest, hfirst, -, hf, hjoin⟩ | ⟨-, hjoin⟩
  · rw [hjoin, hf, tail_hanging_node hfirst, tail_hanging_node hfirst, List.map_append,
      List.append_assoc]
    rfl
  · rw [hjoin, tail_hanging_node h]
    rfl

/-! ### Nesting -/

theorem joints_node {k : Connective} {first : Filter} {rest : List Leaf}
    (hfirst : LeftSpine first) :
    joints (k.node (first :: rest.map Leaf.filter)) =
      joints first ++ List.replicate rest.length k := by
  rw [joints, tail_hanging_node hfirst, List.filterMap_append, List.filterMap_map]
  congr 1
  induction rest with
  | nil => rfl
  | cons l rest ih => simp [List.replicate_succ]

/-- The last comparison hangs on the node at the top. -/
theorem getLast?_joints (h : LeftSpine f) : ∀ k ∈ (joints f).getLast?, f.top? = some k := by
  cases h with
  | leaf l =>
      intro k hk
      exact absurd hk (by simp [joints, hanging, Leaf.filter])
  | node k hfirst htop hrest =>
      intro k' hk'
      rw [joints_node hfirst, List.getLast?_append_of_ne_nil _ (by simpa using hrest),
        List.getLast?_replicate] at hk'
      rw [top?_node]
      simp_all

/-- Each run of equal kinds is one level of nesting. -/
theorem depth_eq (h : LeftSpine f) : f.depth = ((joints f).splitBy (· == ·)).length := by
  induction h with
  | leaf l => rfl
  | @node k first rest hfirst htop hrest ih =>
      have hchange : ∀ x ∈ (joints first).getLast?,
          ∀ y ∈ (List.replicate rest.length k).head?, (x == y) = false := by
        intro x hx y hy
        have hfirstTop := hfirst.getLast?_joints x hx
        have hyk : y = k := List.eq_of_mem_replicate (List.mem_of_mem_head? hy)
        rw [hfirstTop] at htop
        simpa [hyk] using htop
      have hrun : (List.replicate rest.length k).splitBy (· == ·) =
          [List.replicate rest.length k] := by
        exact List.splitBy_of_isChain (by simpa using hrest)
          (List.isChain_replicate_of_rel _ (by simp))
      rw [depth_node, depthOf, depthOf_leaves, Nat.max_zero, ih, joints_node hfirst,
        List.splitBy_append hchange, hrun, List.length_append]
      rfl

end LeftSpine

end Filter

/-! ## A run -/

/-- The filter of criteria: it leans to the left, and its nodes are of the kinds of the connectives
between the criteria. -/
structure Joined (cs : List Criterion) (f : Filter) : Prop where
  spine : f.LeftSpine
  kinds : ((f.hanging none).tail).map Prod.snd = (connectives cs).map some

theorem Joined.joints_eq {cs : List Criterion} {f : Filter} (h : Joined cs f) :
    f.joints = connectives cs := by
  calc f.joints = (((f.hanging none).tail).map Prod.snd).filterMap id := by
        rw [List.filterMap_map]
        rfl
    _ = ((connectives cs).map some).filterMap id := by rw [h.kinds]
    _ = connectives cs := by
        rw [List.filterMap_map]
        exact List.filterMap_some

/-- One criterion more keeps the shape. -/
theorem Joined.joinNext {done : List Criterion} {last c : Criterion} {f : Filter}
    (h : Joined (done ++ [last]) f) (l : Leaf) :
    Joined (done ++ [last, c]) (f.joinNext (some last.property) c.property l.filter) := by
  have hjoin : f.joinNext (some last.property) c.property l.filter =
      f.join (Connective.between last c) l.filter := by
    unfold Filter.joinNext Connective.between
    by_cases hsame : last.property = c.property
    · simp only [if_pos hsame, Filter.join]
    · simp only [if_neg hsame, Filter.join]
  rw [hjoin]
  refine ⟨h.spine.join _ l, ?_⟩
  rw [h.spine.tail_hanging_join, List.map_append, h.kinds, connectives_concat, List.map_append]
  rfl

variable {env : Environment} {s : Schema}

/-- The rest of a run keeps the shape. -/
theorem joined_compileFrom {index : Nat} {done cs : List Criterion} {last : Criterion}
    {combined f : Filter} (h : Joined (done ++ [last]) combined)
    (hf : (compileFrom env s index (some last.property) combined cs).outcome = .ok f) :
    Joined (done ++ last :: cs) f := by
  induction cs generalizing index done last combined with
  | nil =>
      cases hf
      exact h
  | cons c cs ih =>
      rw [outcome_compileFrom_cons] at hf
      cases hc : c.filter s with
      | error r =>
          rw [hc] at hf
          exact absurd hf (by simp)
      | ok one =>
          rw [hc] at hf
          obtain ⟨field, value, op, -, -, -, -, rfl⟩ := Criterion.filter_eq_ok_iff.1 hc
          have hnext : Joined ((done ++ [last]) ++ [c]) (combined.joinNext (some last.property)
              c.property (Leaf.filter ⟨op, c.property, value⟩)) := by
            simpa using h.joinNext (c := c) ⟨op, c.property, value⟩
          simpa using ih hnext hf

theorem joined_compile {cs : List Criterion} {f : Filter} (hcs : cs ≠ [])
    (hf : (compile env s cs).outcome = .ok f) : Joined cs f := by
  cases cs with
  | nil => exact absurd rfl hcs
  | cons c cs =>
      rw [compile, outcome_compileFrom_cons] at hf
      cases hc : c.filter s with
      | error r =>
          rw [hc] at hf
          exact absurd hf (by simp)
      | ok one =>
          rw [hc] at hf
          obtain ⟨field, value, op, -, -, -, -, rfl⟩ := Criterion.filter_eq_ok_iff.1 hc
          have hfirst : Joined ([] ++ [c]) (Leaf.filter ⟨op, c.property, value⟩) := ⟨.leaf _, rfl⟩
          exact joined_compileFrom hfirst hf

/-- **Compiled filters lean to the left.** Their comparisons are those of the criteria, in order; the
node that directly holds the comparison of a criterion behind the first is an alternative if and
only if the criterion is on the property of the one before it; and the nodes nest as deep as there
are runs of equal connectives. -/
theorem compile_leftSpine {cs : List Criterion} {f : Filter} (hcs : cs ≠ [])
    (hf : (compile env s cs).outcome = .ok f) :
    f.LeftSpine ∧
    f.leaves.map (fun l => .ok l.filter) = cs.map (Criterion.filter · s) ∧
    f.leafCount = cs.length ∧
    (∀ i c d, cs[i]? = some c → cs[i + 1]? = some d →
      ∃ l, d.filter s = .ok l.filter ∧ (f.hanging none)[i + 1]? =
        some (l, some (if c.property = d.property then .any else .all))) ∧
    f.depth = ((connectives cs).splitBy (· == ·)).length := by
  obtain ⟨hspine, hkinds⟩ := joined_compile hcs hf
  have hleaves := leaves_compile hf
  refine ⟨hspine, hleaves.symm, ?_, ?_, ?_⟩
  · rw [Filter.leafCount_eq_length]
    simpa using (congrArg List.length hleaves).symm
  · intro i c d hc hd
    have hkind := congrArg (·[i]?) hkinds
    simp only [List.getElem?_map, List.getElem?_tail, getElem?_connectives hc hd,
      Option.map_some] at hkind
    obtain ⟨⟨l, k⟩, hl, hk⟩ := Option.map_eq_some_iff.1 hkind
    have hleaf : f.leaves[i + 1]? = some l := by
      rw [← Filter.map_hanging none f, List.getElem?_map, hl]
      rfl
    have hfilter := congrArg (·[i + 1]?) hleaves
    simp only [List.getElem?_map, hd, hleaf, Option.map_some, Option.some.injEq] at hfilter
    exact ⟨l, hfilter, hl.trans (by rw [show k = _ from hk]; rfl)⟩
  · rw [hspine.depth_eq, Joined.joints_eq ⟨hspine, hkinds⟩]

/-- Shelves with a number and a label that may be missing. -/
def shelves : Schema := ⟨"Shelf", [⟨"Number", .int, false⟩, ⟨"Label", .text, true⟩], "Number"⟩

/-- Five criteria on shelves that are joined by AND, OR, OR and AND. -/
def shelvesCriteria : List Criterion :=
  [⟨"Number", ">", .int 1⟩, ⟨"Label", "=", .null⟩, ⟨"Label", "<", .text "f"⟩,
    ⟨"Label", ">=", .text "t"⟩, ⟨"Number", "!=", .text "7"⟩]

theorem compile_leftSpine_shelves :
    ∃ f, (compile {} shelves shelvesCriteria).outcome = .ok f ∧ f.LeftSpine ∧ f.leafCount = 5 ∧
      f.depth = 3 := by
  have hf : (compile {} shelves shelvesCriteria).outcome =
      .ok (.all [.any [.all [.compare .greater "Number" (.int 1), .compare .equal "Label" .null],
        .compare .less "Label" (.text "f"), .compare .greaterOrEqual "Label" (.text "t")],
          .compare .notEqual "Number" (.int 7)]) := rfl
  obtain ⟨hspine, -, hcount, -, hdepth⟩ := compile_leftSpine (by decide) hf
  exact ⟨_, hf, hspine, hcount, hdepth⟩

end Criteria
