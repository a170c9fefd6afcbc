import BrowserMesh.Js.Dict

/-! # The resource table of the kernel

* **Functions.**  A `ResourceTable` keeps every resource under a handle `res_N`, with its type and its owner; a `Kernel`
  keeps the table and the tenants.  What a tenant sees (`resourcesFor`) asks for its own id as the owner.
* **Runs.**  No handle is issued twice, and one that is gone never leads to a resource again (`handles_unique`).  Where
  resources are given to tenants that exist, each one belongs to such a tenant (`no_orphans`). -/

namespace BrowserMesh
open Js

structure ResourceEntry (ν : Type) where
  type : JsString
  value : ν
  owner : JsString

inductive ResourceError
  | tableFull (maxSize : ℕ)
  | handleNotFound (handle : JsString)
  | ownership (handle expected actual : JsString)

structure ResourceTable (ν : Type) where
  entries : JsMap JsString (ResourceEntry ν)
  counter : ℕ
  maxSize : ℕ

namespace ResourceTable
variable {ν : Type}

def handleOf (n : ℕ) : JsString := js "res_" ++ decimal n

def allocate (t : ResourceTable ν) (type : JsString) (value : ν) (owner : JsString) :
    Except ResourceError (ResourceTable ν × JsString) :=
  if t.maxSize ≤ t.entries.size then .error (.tableFull t.maxSize)
  else
    let handle := handleOf (t.counter + 1)
    .ok ({ t with entries := t.entries.set handle ⟨type, value, owner⟩, counter := t.counter + 1 }, handle)

/-- The owner is not looked at when none is expected. -/
def get (t : ResourceTable ν) (handle : JsString) (expectedOwner : Option JsString) :
    Except ResourceError (ResourceEntry ν) :=
  match t.entries.get? handle with
  | none => .error (.handleNotFound handle)
  | some entry =>
      match expectedOwner.filter (· ≠ entry.owner) with
      | some expected => .error (.ownership handle expected entry.owner)
      | none => .ok entry

def transfer (t : ResourceTable ν) (handle newOwner : JsString) : Except ResourceError (ResourceTable ν) :=
  match t.entries.get? handle with
  | none => .error (.handleNotFound handle)
  | some entry => .ok { t with entries := t.entries.set handle { entry with owner := newOwner } }

def drop (t : ResourceTable ν) (handle : JsString) (expectedOwner : Option JsString) :
    Except ResourceError (ResourceTable ν × ν) :=
  (t.get handle expectedOwner).map fun entry => ({ t with entries := t.entries.delete handle }, entry.value)

def listByOwner (t : ResourceTable ν) (owner : JsString) : List JsString :=
  (t.entries.entries.filter fun e => e.2.owner = owner).map Prod.fst

def clear (t : ResourceTable ν) : ResourceTable ν := { t with entries := .empty }

/-- `drop` for each handle, whatever it throws. -/
def dropAll (t : ResourceTable ν) (handles : List JsString) : ResourceTable ν :=
  handles.foldl (fun t handle => ((t.drop handle none).map Prod.fst).toOption.getD t) t

end ResourceTable

structure Kernel (ν : Type) where
  resources : ResourceTable ν
  tenants : JsSet JsString
  tenantCounter : ℕ

/-- The calls that change the table or the tenants; `drop` is also a tenant's, through `resourcesFor`. -/
inductive KernelCall (ν : Type)
  | createTenant
  | destroyTenant (tenantId : JsString)
  | allocate (type : JsString) (value : ν) (owner : JsString)
  | transfer (handle newOwner : JsString)
  | drop (handle : JsString) (expectedOwner : Option JsString)
  | clear
  | close

namespace Kernel
variable {ν : Type}

def createTenant (k : Kernel ν) : Kernel ν :=
  { k with
    tenants := k.tenants.add (js "tenant_" ++ decimal (k.tenantCounter + 1))
    tenantCounter := k.tenantCounter + 1 }

def destroyTenant (k : Kernel ν) (tenantId : JsString) : Kernel ν :=
  if k.tenants.has tenantId then
    { k with
      resources := k.resources.dropAll (k.resources.listByOwner tenantId)
      tenants := k.tenants.delete tenantId }
  else k

def close (k : Kernel ν) : Kernel ν :=
  let k := k.tenants.elems.foldl destroyTenant k
  { k with resources := k.resources.clear }

/-- A call, with the handle that it returns; a call that throws changes nothing. -/
def call (k : Kernel ν) : KernelCall ν → Kernel ν × Option JsString
  | .createTenant => (k.createTenant, none)
  | .destroyTenant tenantId => (k.destroyTenant tenantId, none)
  | .allocate type value owner =>
      match k.resources.allocate type value owner with
      | .ok (resources, handle) => ({ k with resources }, some handle)
      | .error _ => (k, none)
  | .transfer handle newOwner =>
      ({ k with resources := (k.resources.transfer handle newOwner).toOption.getD k.resources }, none)
  | .drop handle expectedOwner =>
      ({ k with resources := ((k.resources.drop handle expectedOwner).map Prod.fst).toOption.getD k.resources }, none)
  | .clear => ({ k with resources := k.resources.clear }, none)
  | .close => (k.close, none)

def run (k : Kernel ν) (calls : List (KernelCall ν)) : Kernel ν := calls.foldl (fun k c => (k.call c).1) k

def start (maxSize : ℕ) : Kernel ν := ⟨⟨.empty, 0, maxSize⟩, .empty, 0⟩

/-- The handles that a run returns. -/
def issued (k : Kernel ν) : List (KernelCall ν) → List JsString
  | [] => []
  | c :: calls => (k.call c).2.toList ++ issued (k.call c).1 calls

/-- Every resource belongs to a tenant. -/
def Owned (k : Kernel ν) : Prop := ∀ h entry, k.resources.entries.get? h = some entry → entry.owner ∈ k.tenants

end Kernel

/-- Who gets a resource is a tenant. -/
def KernelCall.Given {ν : Type} (k : Kernel ν) : KernelCall ν → Prop
  | .allocate _ _ owner | .transfer _ owner => owner ∈ k.tenants
  | _ => True

namespace Kernel
open ResourceTable (handleOf)
variable {ν : Type}

def GivenToTenants (k : Kernel ν) : List (KernelCall ν) → Prop
  | [] => True
  | c :: calls => GivenToTenants (k.call c).1 calls ∧ c.Given k

/-! ### Steps -/

theorem drop_ambient (t : ResourceTable ν) (handle : JsString) :
    ((t.drop handle none).map Prod.fst).toOption.getD t = { t with entries := t.entries.delete handle } := by
  unfold ResourceTable.drop ResourceTable.get
  cases hget : t.entries.get? handle with
  | none => rw [JsMap.delete_eq_self hget]; rfl
  | some entry => rfl

theorem dropAll_spec (t : ResourceTable ν) (handles : List JsString) :
    ∃ m, t.dropAll handles = { t with entries := m } ∧
      ∀ h, m.get? h = if h ∈ handles then none else t.entries.get? h := by
  induction handles generalizing t with
  | nil => exact ⟨_, rfl, fun _ => rfl⟩
  | cons handle handles ih =>
      obtain ⟨m, hm, hget⟩ := ih { t with entries := t.entries.delete handle }
      refine ⟨m, ?_, fun h => ?_⟩
      · rw [← hm, ← drop_ambient]
        rfl
      · rw [hget, JsMap.get?_delete]
        split_ifs <;> simp_all

/-- The tenant's resources are gone, and the tenant. -/
theorem destroyTenant_spec (k : Kernel ν) (tenantId : JsString) :
    (∃ m, (k.destroyTenant tenantId).resources = { k.resources with entries := m } ∧ ∀ h entry, m.get? h = some entry →
      k.resources.entries.get? h = some entry ∧ (tenantId ∈ k.tenants → entry.owner ≠ tenantId)) ∧
    ∀ id, id ∈ (k.destroyTenant tenantId).tenants ↔ id ∈ k.tenants ∧ id ≠ tenantId := by
  unfold destroyTenant
  split_ifs with htenant
  · obtain ⟨m, hm, hget⟩ := dropAll_spec k.resources (k.resources.listByOwner tenantId)
    refine ⟨⟨m, hm, fun h entry hentry => ?_⟩, fun id => JsSet.mem_delete⟩
    rw [hget] at hentry
    split_ifs at hentry with hlisted
    refine ⟨hentry, fun _ howner => hlisted (List.mem_map.mpr ⟨(h, entry), List.mem_filter.mpr ⟨?_, ?_⟩, rfl⟩)⟩
    · exact JsMap.mem_entries_iff.mpr hentry
    · exact decide_eq_true howner
  · rw [JsSet.has_iff] at htenant
    exact ⟨⟨_, rfl, fun h entry hentry => ⟨hentry, fun h => absurd h htenant⟩⟩,
      fun id => ⟨fun h => ⟨h, fun heq => htenant (heq ▸ h)⟩, And.left⟩⟩

/-- What a call or a run does to a kernel: it returns the next numbers of the counter, keeps the bound, holds what it
held or has issued, and keeps resources with tenants if they are `given` to tenants. -/
structure Effect (k k' : Kernel ν) (issued : List JsString) (given : Prop) : Prop where
  counter : k'.resources.counter = k.resources.counter + issued.length
  handles : issued = (List.range' (k.resources.counter + 1) issued.length).map handleOf
  maxSize : k'.resources.maxSize = k.resources.maxSize
  size : k.resources.entries.size ≤ k.resources.maxSize → k'.resources.entries.size ≤ k.resources.maxSize
  held : ∀ h, k'.resources.entries.get? h ≠ none → h ∈ issued ∨ k.resources.entries.get? h ≠ none
  owned : given → k.Owned → k'.Owned

theorem Effect.trans {k k' k'' : Kernel ν} {issued issued' : List JsString} {given given' : Prop}
    (h : Effect k k' issued given) (h' : Effect k' k'' issued' given') :
    Effect k k'' (issued ++ issued') (given' ∧ given) where
  counter := by rw [h'.counter, h.counter, List.length_append, Nat.add_assoc]
  handles := by
    rw [List.length_append, ← List.range'_append_1, List.map_append, ← h.handles]
    congr 1
    rw [h'.handles, h.counter, List.length_map, List.length_range', Nat.add_right_comm]
  maxSize := h'.maxSize.trans h.maxSize
  size hs := h.maxSize ▸ h'.size (h.maxSize ▸ h.size hs)
  held hd hne := (h'.held hd hne).elim (fun hmem => Or.inl (List.mem_append_right _ hmem))
    fun hne' => (h.held hd hne').imp_left (List.mem_append_left _)
  owned hgiven hk := h'.owned hgiven.1 (h.owned hgiven.2 hk)

/-- Nothing is issued where the table only loses entries or owners change. -/
theorem Effect.of_entries {k k' : Kernel ν} {m : JsMap JsString (ResourceEntry ν)} {given : Prop}
    (hres : k'.resources = { k.resources with entries := m })
    (hheld : ∀ h, m.get? h ≠ none → k.resources.entries.get? h ≠ none) (howned : given → k.Owned → k'.Owned) :
    Effect k k' [] given where
  counter := by rw [hres]; rfl
  handles := rfl
  maxSize := by rw [hres]
  size hs := by
    rw [hres]
    have hsub : m.keys ⊆ k.resources.entries.keys := fun h hh => by
      by_contra hnot
      exact hheld h (fun hnone => JsMap.get?_eq_none_iff.mp hnone hh) (JsMap.get?_eq_none_iff.mpr hnot)
    have hle := (List.Nodup.subperm m.nodup hsub).length_le
    simp only [JsMap.keys, List.length_map] at hle
    exact hle.trans hs
  held h hne := Or.inr (hheld h (by rwa [hres] at hne))
  owned := howned

theorem Effect.destroyTenant (k : Kernel ν) (tenantId : JsString) : Effect k (k.destroyTenant tenantId) [] True := by
  obtain ⟨⟨m, hm, hget⟩, htenants⟩ := k.destroyTenant_spec tenantId
  refine .of_entries hm (fun h hne hnone => ?_) fun _ hk h entry hentry => ?_
  · obtain ⟨entry, hentry⟩ := Option.ne_none_iff_exists'.mp hne
    rw [(hget h entry hentry).1] at hnone
    cases hnone
  · rw [hm] at hentry
    obtain ⟨hold, howner⟩ := hget h entry hentry
    have hmem := hk h entry hold
    exact (htenants _).mpr ⟨hmem, fun heq => howner (heq ▸ hmem) heq⟩

theorem Effect.call (k : Kernel ν) (c : KernelCall ν) :
    Effect k (k.call c).1 (k.call c).2.toList (c.Given k) := by
  cases c with
  | createTenant =>
      exact .of_entries rfl (fun _ h => h) fun _ hk h entry hentry => JsSet.mem_add.mpr (Or.inl (hk h entry hentry))
  | destroyTenant tenantId => exact Effect.destroyTenant k tenantId
  | allocate type value owner =>
      simp only [Kernel.call, ResourceTable.allocate]
      by_cases hfull : k.resources.maxSize ≤ k.resources.entries.size
      · rw [if_pos hfull]
        exact .of_entries rfl (fun _ h => h) fun _ => id
      · rw [if_neg hfull]
        refine ⟨rfl, rfl, rfl, fun _ => ?_, fun h hne => ?_, fun hgiven hk h entry hentry => ?_⟩
        · calc (k.resources.entries.set _ _).size
            _ = (k.resources.entries.set _ _).keys.length := (List.length_map _).symm
            _ ≤ k.resources.entries.keys.length + 1 := by
              rw [JsMap.keys_set]
              split_ifs <;> simp
            _ = k.resources.entries.size + 1 := congrArg (· + 1) (List.length_map _)
            _ ≤ k.resources.maxSize := not_le.mp hfull
        · simp only [JsMap.get?_set] at hne
          split_ifs at hne with heq
          · exact Or.inl (List.mem_singleton.mpr heq)
          · exact Or.inr hne
        · simp only [JsMap.get?_set] at hentry
          split_ifs at hentry
          · obtain rfl := Option.some.inj hentry
            exact hgiven
          · exact hk h entry hentry
  | transfer handle newOwner =>
      simp only [Kernel.call, ResourceTable.transfer]
      cases hget : k.resources.entries.get? handle with
      | none => exact .of_entries rfl (fun _ h => h) fun _ => id
      | some entry =>
          refine .of_entries rfl (fun h hne hnone => hne ?_) fun hgiven hk h e he => ?_
          · rw [JsMap.get?_set, if_neg (by rintro rfl; rw [hget] at hnone; cases hnone), hnone]
          · have he' : (k.resources.entries.set handle { entry with owner := newOwner }).get? h = some e := he
            rw [JsMap.get?_set] at he'
            split_ifs at he'
            · obtain rfl := Option.some.inj he'
              exact hgiven
            · exact hk h e he'
  | drop handle owner =>
      simp only [Kernel.call, ResourceTable.drop]
      cases k.resources.get handle owner with
      | error _ => exact .of_entries rfl (fun _ h => h) fun _ => id
      | ok _ =>
          have hsub (h : JsString) (hne : (k.resources.entries.delete handle).get? h ≠ none) :
              (k.resources.entries.delete handle).get? h = k.resources.entries.get? h := by
            rw [JsMap.get?_delete] at hne ⊢
            split_ifs at hne ⊢
            · exact absurd rfl hne
            · rfl
          refine .of_entries rfl (fun h hne => hsub h hne ▸ hne) fun _ hk h e he => hk h e ?_
          exact (hsub h (fun hnone => by cases hnone.symm.trans he)).symm.trans he
  | clear => exact .of_entries rfl (fun _ h => absurd rfl h) fun _ _ _ _ he => by cases he
  | close =>
      have hfold (ids : List JsString) (k : Kernel ν) : Effect k (ids.foldl Kernel.destroyTenant k) [] True := by
        induction ids generalizing k with
        | nil => exact .of_entries rfl (fun _ h => h) fun _ => id
        | cons id ids ih =>
            have h := (Effect.destroyTenant k id).trans (ih _)
            rwa [true_and] at h
      have hclose := hfold k.tenants.elems k
      exact ⟨hclose.counter, rfl, hclose.maxSize, fun _ => Nat.zero_le _, fun _ h => absurd rfl h,
        fun _ _ _ _ he => by cases he⟩

theorem Effect.run (k : Kernel ν) (calls : List (KernelCall ν)) :
    Effect k (k.run calls) (k.issued calls) (k.GivenToTenants calls) := by
  induction calls generalizing k with
  | nil => exact .of_entries rfl (fun _ h => h) fun _ => id
  | cons c calls ih => exact (Effect.call k c).trans (ih _)

/-! ### Runs -/

/-- **Handles.**  No handle is issued twice, and one that is gone stays gone; the table keeps its bound. -/
theorem handles_unique (maxSize : ℕ) (calls later : List (KernelCall ν)) :
    ((start maxSize).issued calls).Nodup ∧ ((start maxSize).run calls).resources.entries.size ≤ maxSize ∧
    ∀ handle ∈ (start maxSize).issued calls, ((start maxSize).run calls).resources.entries.get? handle = none →
      ∀ owner, ((start maxSize).run (calls ++ later)).resources.get handle owner = .error (.handleNotFound handle) := by
  have hrun := Effect.run (start maxSize) calls
  have hinj : Function.Injective handleOf := fun _ _ h => decimal_injective (List.append_cancel_left h)
  refine ⟨?_, hrun.size (Nat.zero_le _), fun handle hmem hgone owner => ?_⟩
  · rw [hrun.handles]
    exact (List.nodup_range' ..).map hinj
  · have hlater := Effect.run ((start maxSize).run calls) later
    have hnone : ((start maxSize).run (calls ++ later)).resources.entries.get? handle = none := by
      by_contra hne
      rw [Kernel.run, List.foldl_append] at hne
      refine (hlater.held handle hne).elim (fun hmem' => ?_) fun h => h hgone
      rw [hrun.handles] at hmem
      rw [hlater.handles, hrun.counter] at hmem'
      obtain ⟨i, hi, rfl⟩ := List.mem_map.mp hmem
      obtain ⟨j, hj, heq⟩ := List.mem_map.mp hmem'
      obtain rfl := hinj heq
      rw [List.mem_range'_1] at hi hj
      omega
    rw [ResourceTable.get, hnone]

/-- **Tenants.**  A resource belongs to a tenant that was not destroyed, and a tenant only sees its own. -/
theorem no_orphans {maxSize : ℕ} {calls : List (KernelCall ν)} (h : (start maxSize).GivenToTenants calls)
    {handle : JsString} {asked : Option JsString} {entry : ResourceEntry ν}
    (hget : ((start maxSize).run calls).resources.get handle asked = .ok entry) :
    entry.owner ∈ ((start maxSize).run calls).tenants ∧ ∀ tenantId, asked = some tenantId → entry.owner = tenantId := by
  have howned := (Effect.run (start maxSize) calls).owned h fun _ _ hentry => by cases hentry
  unfold ResourceTable.get at hget
  split at hget
  · cases hget
  · rename_i found hfound
    split at hget
    · cases hget
    · rename_i hfilter
      obtain rfl := Except.ok.inj hget
      refine ⟨howned handle found hfound, fun tenantId hasked => ?_⟩
      subst hasked
      by_contra hne
      rw [Option.filter_some, if_pos (decide_eq_true (Ne.symm hne))] at hfilter
      cases hfilter

/-- The calls of a first tenant that is given a port. -/
def firstTenant : List (KernelCall ℕ) := [.createTenant, .allocate (js "port") 7 (js "tenant_1")]

theorem first_tenant_sees : js "tenant_1" ∈ ((start 1).run firstTenant).tenants ∧
    ∀ tenantId, some (js "tenant_1") = some tenantId → js "tenant_1" = tenantId :=
  no_orphans (show (start 1).GivenToTenants firstTenant from
      ⟨⟨trivial, show js "tenant_1" ∈ _ by decide +kernel⟩, trivial⟩)
    (show ((start 1).run firstTenant).resources.get (js "res_1") (some (js "tenant_1")) =
      .ok ⟨js "port", 7, js "tenant_1"⟩ from rfl)

end Kernel
end BrowserMesh
