set_option autoImplicit false

/-! # Access

Before anything else is done for a request, a gate is asked whether the principal may do this to the
entity. Grants give a role of a tenant an entitlement on an entity; a principal has what any of its
roles was granted in its own tenant. -/

namespace Criteria

/-- What a principal may do to an entity. -/
inductive Entitlement where
  | create
  | read
  | update
  | delete
deriving DecidableEq, Inhabited

namespace Entitlement

/-- All entitlements. -/
def all : List Entitlement := [.create, .read, .update, .delete]

/-- The name of an entitlement. -/
def name : Entitlement → String
  | .create => "Create"
  | .read => "Read"
  | .update => "Update"
  | .delete => "Delete"

/-- The entitlement of a name. -/
def ofName? (s : String) : Option Entitlement := all.find? fun e => e.name == s

theorem mem_all (e : Entitlement) : e ∈ all := by cases e <;> decide

end Entitlement

/-- Who makes a request. -/
structure Principal where
  tenant : String
  user : String
  roles : List String := []
deriving DecidableEq, Inhabited

/-- Whether a principal has an entitlement on the entity of a name. -/
abbrev Gate := Principal → String → Entitlement → Bool

/-- The gate that denies nothing. -/
def Gate.allowAll : Gate := fun _ _ _ => true

/-! ## Grants -/

/-- Entries by name. -/
abbrev Table (α : Type) := List (String × α)

/-- The entry of a name. -/
def Table.get? {α : Type} (t : Table α) (name : String) : Option α := t.lookup name

/-- The table with the entry of a name changed, in its place. A name without an entry gets one at
the end, which is changed from the empty entry. -/
def Table.change {α : Type} (empty : α) (f : α → α) (name : String) : Table α → Table α
  | [] => [(name, f empty)]
  | (key, entry) :: rest =>
      if key = name then (key, f entry) :: rest else (key, entry) :: change empty f name rest

@[simp] theorem Table.get?_nil {α : Type} (name : String) : get? ([] : Table α) name = none := rfl

theorem Table.get?_cons {α : Type} (key : String) (entry : α) (t : Table α) (name : String) :
    get? ((key, entry) :: t) name = if name = key then some entry else get? t name := by
  rw [get?, List.lookup_cons]
  by_cases hname : name = key
  · simp [hname]
  · have hne : (name == key) = false := by simpa using hname
    simp [hname, hne, get?]

/-- Only the entry of the name changes. -/
theorem Table.get?_change {α : Type} (empty : α) (f : α → α) (name other : String) (t : Table α) :
    get? (change empty f name t) other =
      if other = name then some (f ((get? t name).getD empty)) else get? t other := by
  induction t with
  | nil => simp [change, get?_cons]
  | cons entry rest ih =>
      obtain ⟨key, a⟩ := entry
      rw [change]
      by_cases hkey : key = name
      · subst hkey
        simp only [if_true, get?_cons]
        by_cases hother : other = key <;> simp [hother]
      · have hname : name ≠ key := Ne.symm hkey
        simp only [hkey, if_false, get?_cons, ih, hname]
        by_cases hother : other = key
        · simp [hother, hkey]
        · simp [hother]

/-- What roles of tenants were granted, by tenant, then by role, then by entity. -/
structure Grants where
  tenants : Table (Table (Table (List Entitlement))) := []

namespace Grants

/-- The grants with a further one. -/
def grant (g : Grants) (tenant role entity : String) (entitlement : Entitlement) : Grants :=
  let toEntity := Table.change [] (fun held => held.insert entitlement) entity
  let toRole := Table.change [] toEntity role
  ⟨g.tenants.change [] toRole tenant⟩

/-- The grants with one of each entitlement. -/
def grantAll (g : Grants) (tenant role entity : String) : Grants :=
  Entitlement.all.foldl (fun g e => g.grant tenant role entity e) g

/-- The gate of grants: some role that the principal has in its tenant holds the entitlement. -/
def gate (g : Grants) : Gate := fun principal entity entitlement =>
  match g.tenants.get? principal.tenant with
  | none => false
  | some roles => principal.roles.any fun role =>
      ((Table.get? roles role).bind (Table.get? · entity)).any (·.contains entitlement)

end Grants

end Criteria
