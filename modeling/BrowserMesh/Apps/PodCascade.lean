import BrowserMesh.Apps.PodLinks
import BrowserMesh.Library.Forest
import Mathlib.Data.List.Nodup

/-! # What a cascade drains

* **Ends.**  A cascade returns exactly when every walk down from its pod ends.
* **Order.**  In links with one parent for a child it drains what is below its pod, each pod once and before its parent
  (`Drained`).
* **Inverse.**  Calls that take no child from another parent, move no pod with children and leave no child of a drained
  pod keep the two maps inverse to each other. -/

namespace BrowserMesh.Apps
open Js Transition Relation Forest

theorem separatorAt_eq_some {key : JsString} {i : ℕ} (h : separatorAt key = some i) :
    key.take i ++ js "::" ++ key.drop (i + 2) = key := by
  induction key generalizing i with
  | nil => cases h
  | cons c rest ih =>
      rw [separatorAt] at h
      split_ifs at h with hpre
      · obtain rfl := Option.some.inj h
        obtain ⟨tail, htail⟩ := hpre
        rw [← htail]
        rfl
      · obtain ⟨j, hj, rfl⟩ := Option.map_eq_some_iff.mp h
        exact congrArg (c :: ·) (ih hj)

theorem separatorAt_refKey (ref : PodRef) : (separatorAt (refKey ref)).isSome = true := by
  cases ref with
  | mk host name =>
      unfold refKey
      induction host with
      | nil => rfl
      | cons c rest ih =>
          change (separatorAt (c :: (rest ++ js "::" ++ name))).isSome = true
          rw [separatorAt]
          split_ifs
          · rfl
          · rw [Option.isSome_map]
            exact ih

theorem refKey_parseKey (ref : PodRef) : refKey (parseKey (refKey ref)) = refKey ref := by
  obtain ⟨i, hi⟩ := Option.isSome_iff_exists.mp (separatorAt_refKey ref)
  unfold parseKey
  rw [hi]
  exact separatorAt_eq_some hi

namespace PodLinks
variable {s s' s'' : PodLinks} {u c x y parentKey childKey : JsString}

def Child (s : PodLinks) (u c : JsString) : Prop := c ∈ s.children u ∧ s.detached c = false

def Inverse (s : PodLinks) : Prop := ∀ u c, c ∈ s.children u ↔ s.parentOf.get? c = some u

/-- The entries have their keys, and what is linked is a key. -/
structure Keyed (s : PodLinks) : Prop where
  pods : ∀ key e, s.pods.get? key = some e → ∃ pod, s.entries[e]? = some pod ∧ refKey pod.ref = key
  children : ∀ u c, c ∈ s.children u → ∃ ref, refKey ref = c

theorem Keyed.refKey_refAt (h : Keyed s) (hc : c ∈ s.children u) : refKey (s.refAt c) = c := by
  unfold refAt podAt
  cases he : s.pods.get? c with
  | none =>
      obtain ⟨ref, rfl⟩ := h.children u c hc
      exact refKey_parseKey ref
  | some e =>
      obtain ⟨pod, hpod, href⟩ := h.pods c e he
      change refKey ((s.entries[e]?).elim (parseKey c) LinkedPod.ref) = c
      rw [hpod]
      exact href

/-! ### The sets -/

theorem mem_children_iff : c ∈ s.children u ↔ ∃ childKeys, s.childrenOf.get? u = some childKeys ∧ c ∈ childKeys := by
  unfold children
  cases s.childrenOf.get? u with
  | none => exact ⟨fun h => (by cases h), fun ⟨_, h, _⟩ => (by cases h)⟩
  | some childKeys =>
      exact ⟨fun h => ⟨childKeys, rfl, h⟩, fun ⟨_, heq, h⟩ => Option.some.inj heq ▸ h⟩

theorem children_nodup (s : PodLinks) (u : JsString) : (s.children u).Nodup := by
  unfold children
  cases s.childrenOf.get? u with
  | none => exact List.nodup_nil
  | some childKeys => exact childKeys.nodup

theorem mem_children_deleteChild :
    x ∈ (s.deleteChild parentKey childKey).children u ↔ x ∈ s.children u ∧ ¬ (u = parentKey ∧ x = childKey) := by
  unfold deleteChild
  cases hset : s.childrenOf.get? parentKey with
  | none =>
      refine ⟨fun h => ⟨h, ?_⟩, And.left⟩
      rintro ⟨rfl, rfl⟩
      obtain ⟨childKeys, hkeys, -⟩ := mem_children_iff.mp h
      cases hset.symm.trans hkeys
  | some childKeys =>
      rw [mem_children_iff, mem_children_iff]
      change (∃ keys, (s.childrenOf.set parentKey (childKeys.delete childKey)).get? u = some keys ∧ x ∈ keys) ↔ _
      rw [JsMap.get?_set]
      by_cases hu : u = parentKey
      · subst hu
        rw [if_pos rfl, hset]
        simp [JsSet.mem_delete]
      · rw [if_neg hu]
        simp [hu]

theorem mem_children_delete (h : s'.childrenOf = s.childrenOf.delete childKey) :
    x ∈ s'.children u ↔ x ∈ s.children u ∧ u ≠ childKey := by
  rw [mem_children_iff, mem_children_iff, h, JsMap.get?_delete]
  by_cases hu : u = childKey
  · rw [if_pos hu]
    exact ⟨fun ⟨_, h, _⟩ => (by cases h), fun h => absurd hu h.2⟩
  · rw [if_neg hu]
    exact ⟨fun h => ⟨h, hu⟩, And.left⟩

theorem mem_children_sever : x ∈ (s.sever parentKey childKey).children u ↔
    x ∈ s.children u ∧ u ≠ childKey ∧ ¬ (u = parentKey ∧ x = childKey) := by
  have hdelete : x ∈ PodLinks.children { s with
      childrenOf := s.childrenOf.delete childKey, parentOf := s.parentOf.delete childKey } u ↔
      x ∈ s.children u ∧ u ≠ childKey := mem_children_delete rfl
  unfold sever
  rw [mem_children_deleteChild, hdelete, and_assoc]

theorem deleteChild_pods : (s.deleteChild parentKey childKey).pods = s.pods ∧
    (s.deleteChild parentKey childKey).entries = s.entries ∧
    (s.deleteChild parentKey childKey).parentOf = s.parentOf := by
  unfold deleteChild
  split
  · exact ⟨rfl, rfl, rfl⟩
  · exact ⟨rfl, rfl, rfl⟩

theorem sever_pods : (s.sever parentKey childKey).pods = s.pods ∧ (s.sever parentKey childKey).entries = s.entries :=
  ⟨deleteChild_pods.1, deleteChild_pods.2.1⟩

theorem sever_parentOf : (s.sever parentKey childKey).parentOf = s.parentOf.delete childKey := deleteChild_pods.2.2

/-! ### Cascades that return -/

theorem podAt_congr (hpods : s'.pods = s.pods) (hentries : s'.entries = s.entries) (key : JsString) :
    s'.podAt key = s.podAt key := by
  unfold podAt
  rw [hpods, hentries]

/-- Links were deleted. -/
structure Within (s s' : PodLinks) : Prop where
  pods : s'.pods = s.pods
  entries : s'.entries = s.entries
  children : ∀ u c, c ∈ s'.children u → c ∈ s.children u

theorem Within.refl (s : PodLinks) : Within s s := ⟨rfl, rfl, fun _ _ => id⟩

theorem Within.trans (h : Within s s') (h' : Within s' s'') : Within s s'' :=
  ⟨h'.pods.trans h.pods, h'.entries.trans h.entries, fun u c hc => h.children u c (h'.children u c hc)⟩

theorem Within.keyed (h : Within s s') (hs : Keyed s) : Keyed s' := by
  refine ⟨?_, fun u c hc => hs.children u c (h.children u c hc)⟩
  rw [h.pods, h.entries]
  exact hs.pods

theorem Within.detached (h : Within s s') (key : JsString) : s'.detached key = s.detached key := by
  unfold PodLinks.detached
  rw [podAt_congr h.pods h.entries]

theorem Within.refAt (h : Within s s') (key : JsString) : s'.refAt key = s.refAt key := by
  unfold PodLinks.refAt
  rw [podAt_congr h.pods h.entries]

theorem within_sever (s : PodLinks) (parentKey childKey : JsString) : Within s (s.sever parentKey childKey) :=
  ⟨sever_pods.1, sever_pods.2, fun _ _ hc => (mem_children_sever.mp hc).1⟩

/-- Each of the links led to a pod from which every walk down ends. -/
structure Cut (s s' : PodLinks) : Prop extends Within s s' where
  cut : ∀ u c, s.Child u c → s'.Child u c ∨ Ends s.Child c

theorem Cut.refl (s : PodLinks) : Cut s s := ⟨.refl s, fun _ _ => .inl⟩

theorem Cut.ends (h : Cut s s') (hends : Ends s'.Child c) : Ends s.Child c := hends.of_cut h.cut

theorem Cut.trans (h : Cut s s') (h' : Cut s' s'') : Cut s s'' := by
  refine ⟨h.toWithin.trans h'.toWithin, fun u c hchild => ?_⟩
  rcases h.cut u c hchild with hchild | hends
  · exact (h'.cut u c hchild).imp_right h.ends
  · exact .inr hends

theorem Cut.sever (h : Cut s s') (parentKey : JsString) (hends : Ends s.Child childKey) :
    Cut s (s'.sever parentKey childKey) := by
  refine ⟨h.toWithin.trans (within_sever s' parentKey childKey), fun u c hchild => ?_⟩
  by_cases hu : u = childKey
  · exact .inr (hends.child (hu ▸ hchild))
  · by_cases hc : c = childKey
    · exact .inr (hc ▸ hends)
    · refine (h.cut u c hchild).imp_left fun hkept => ?_
      exact ⟨mem_children_sever.mpr ⟨hkept.1, hu, fun heq => hc heq.2⟩,
        ((within_sever s' parentKey childKey).detached c).trans hkept.2⟩

variable {below : PodLinks → PodRef → Option (PodLinks × List PodRef)}

theorem drainChild_eq_some {r r' : PodLinks × List PodRef} (h : drainChild below parentKey r childKey = some r') :
    r.1.detached childKey = true ∧ r' = r ∨ r.1.detached childKey = false ∧
      ∃ s order, below r.1 (r.1.refAt childKey) = some (s, order) ∧
        r' = (s.sever parentKey childKey, r.2 ++ order ++ [r.1.refAt childKey]) := by
  unfold drainChild at h
  split_ifs at h with hdetached
  · exact .inl ⟨hdetached, (Option.some.inj h).symm⟩
  · obtain ⟨⟨s, order⟩, hbelow, heq⟩ := Option.bind_eq_some_iff.mp h
    exact .inr ⟨Bool.eq_false_of_not_eq_true hdetached, s, order, hbelow, (Option.some.inj heq).symm⟩

theorem drainChild_of_detached
    {r : PodLinks × List PodRef} (h : r.1.detached childKey = true) : drainChild below parentKey r childKey = some r := by
  unfold drainChild
  rw [if_pos h]

variable {order : List PodRef}

theorem drainChild_of_below {r : PodLinks × List PodRef} (h : r.1.detached childKey = false)
    (hbelow : below r.1 (r.1.refAt childKey) = some (s, order)) :
    drainChild below parentKey r childKey =
      some (s.sever parentKey childKey, r.2 ++ order ++ [r.1.refAt childKey]) := by
  unfold drainChild
  rw [if_neg (by rw [h]; exact Bool.false_ne_true)]
  dsimp only
  rw [hbelow]
  rfl

variable {depth : ℕ} {ref : PodRef}

theorem cut_drainChildren (hkeyed : Keyed s)
    (h : drainChildren depth s ref = some (s', order)) : Cut s s' ∧ Ends s.Child (refKey ref) := by
  induction depth generalizing s s' ref order with
  | zero => cases h
  | succ depth ih =>
      have hloop : ∀ (l : List JsString) (r r' : PodLinks × List PodRef), (∀ c ∈ l, c ∈ s.children (refKey ref)) →
          Cut s r.1 → l.foldlM (drainChild (drainChildren depth) (refKey ref)) r = some r' →
          Cut s r'.1 ∧ ∀ c ∈ l, s.detached c = false → Ends s.Child c := by
        intro l
        induction l with
        | nil =>
            intro r r' _ hcut hr
            obtain rfl := Option.some.inj hr
            exact ⟨hcut, fun _ hc => (by cases hc)⟩
        | cons c l ihl =>
            intro r r' hsub hcut hfold
            rw [List.foldlM_cons] at hfold
            obtain ⟨r₁, hone, hr⟩ := Option.bind_eq_some_iff.mp hfold
            have hc := hsub c List.mem_cons_self
            have hrest := fun x hx => hsub x (List.mem_cons_of_mem c hx)
            rcases drainChild_eq_some hone with ⟨hdetached, rfl⟩ | ⟨hdetached, s₁, order₁, hbelow, rfl⟩
            · obtain ⟨hcut', hends⟩ := ihl _ r' hrest hcut hr
              refine ⟨hcut', fun x hx hstays => ?_⟩
              rcases List.mem_cons.mp hx with rfl | hx
              · rw [hcut.detached, hstays] at hdetached
                cases hdetached
              · exact hends x hx hstays
            · obtain ⟨hcut₁, hends₁⟩ := ih (hcut.keyed hkeyed) hbelow
              rw [hcut.refAt, hkeyed.refKey_refAt hc] at hends₁
              have hends := hcut.ends hends₁
              have hcut₂ := (hcut.trans hcut₁).sever (refKey ref) hends
              obtain ⟨hcut', hall⟩ := ihl _ r' hrest hcut₂ hr
              refine ⟨hcut', fun x hx hstays => ?_⟩
              rcases List.mem_cons.mp hx with rfl | hx
              · exact hends
              · exact hall x hx hstays
      obtain ⟨hcut, hends⟩ := hloop _ (s, []) (s', order) (fun _ hc => hc) (.refl s) h
      exact ⟨hcut, Acc.intro _ fun c hchild => hends c hchild.1 hchild.2⟩

theorem exists_depth {P : ℕ → JsString → Prop} (hmono : ∀ c d d', d ≤ d' → P d c → P d' c) (l : List JsString)
    (h : ∀ c ∈ l, ∃ d, P d c) : ∃ d, ∀ c ∈ l, P d c := by
  induction l with
  | nil => exact ⟨0, fun _ hc => (by cases hc)⟩
  | cons c l ih =>
      obtain ⟨d, hd⟩ := h c List.mem_cons_self
      obtain ⟨d', hd'⟩ := ih fun x hx => h x (List.mem_cons_of_mem c hx)
      refine ⟨max d d', fun x hx => ?_⟩
      rcases List.mem_cons.mp hx with rfl | hx
      · exact hmono _ _ _ (le_max_left d d') hd
      · exact hmono _ _ _ (le_max_right d d') (hd' x hx)

theorem drainChildren_isSome (hkeyed : Keyed s) (hends : Ends s.Child x) :
    ∃ d, ∀ depth, d ≤ depth → ∀ s', Within s s' → ∀ ref, refKey ref = x → (drainChildren depth s' ref).isSome = true := by
  induction hends with
  | intro x _ ih =>
      obtain ⟨d, hd⟩ := exists_depth (P := fun d c => s.detached c = false → ∀ depth, d ≤ depth → ∀ s', Within s s' →
          ∀ ref, refKey ref = c → (drainChildren depth s' ref).isSome = true)
        (fun c d d' hle hP hstays depth hdepth => hP hstays depth (hle.trans hdepth)) (s.children x) (by
          intro c hc
          by_cases hstays : s.detached c = false
          · obtain ⟨d, hd⟩ := ih c ⟨hc, hstays⟩
            exact ⟨d, fun _ => hd⟩
          · exact ⟨0, fun h => absurd h hstays⟩)
      refine ⟨d + 1, fun depth hdepth s' hwithin ref href => ?_⟩
      obtain ⟨depth, rfl⟩ := Nat.exists_eq_add_of_le' (Nat.one_le_of_lt hdepth)
      have hle : d ≤ depth := Nat.le_of_succ_le_succ hdepth
      have hloop : ∀ (l : List JsString) (r : PodLinks × List PodRef), (∀ c ∈ l, c ∈ s.children x) → Within s r.1 →
          (l.foldlM (drainChild (drainChildren depth) (refKey ref)) r).isSome = true := by
        intro l
        induction l with
        | nil => exact fun _ _ _ => rfl
        | cons c l ihl =>
            intro r hsub hr
            rw [List.foldlM_cons]
            have hrest := fun y hy => hsub y (List.mem_cons_of_mem c hy)
            cases hdetached : r.1.detached c with
            | true =>
                rw [drainChild_of_detached hdetached]
                exact ihl r hrest hr
            | false =>
                have hc := hsub c List.mem_cons_self
                have hstays : s.detached c = false := by rw [← hr.detached, hdetached]
                have hkey : refKey (r.1.refAt c) = c := by rw [hr.refAt, hkeyed.refKey_refAt hc]
                obtain ⟨⟨s₁, order⟩, hbelow⟩ := Option.isSome_iff_exists.mp (hd c hc hstays depth hle r.1 hr _ hkey)
                have hcut := (cut_drainChildren (hr.keyed hkeyed) hbelow).1
                rw [drainChild_of_below hdetached hbelow]
                exact ihl (s₁.sever (refKey ref) c, r.2 ++ order ++ [r.1.refAt c]) hrest
                  ((hr.trans hcut.toWithin).trans (within_sever s₁ _ c))
      rw [drainChildren, href]
      exact href ▸ hloop (s'.children x) (s', []) (fun c hc => hwithin.children x c hc) hwithin

/-! ### What a cascade drains -/

/-- Nothing is left of the links of the pods with `gone` as children, and nothing of their sets. -/
structure Gone (s s' : PodLinks) (gone : JsString → Prop) : Prop extends Within s s' where
  kept : ∀ u c, c ∈ s'.children u ↔ c ∈ s.children u ∧ ¬ gone u ∧ ¬ gone c
  parentOf : ∀ c, gone c → s'.parentOf.get? c = none
  parentKept : ∀ c, ¬ gone c → s'.parentOf.get? c = s.parentOf.get? c

/-- They were drained, each once and before its parent. -/
structure Drained (s s' : PodLinks) (order : List PodRef) (gone : JsString → Prop) : Prop extends Gone s s' gone where
  once : (order.map refKey).Nodup
  mem : ∀ x, x ∈ order.map refKey ↔ gone x
  before : ∀ u c, gone u → s.Child u c → [c, u].Sublist (order.map refKey)

def Below (s : PodLinks) (done : List JsString) (x : JsString) : Prop :=
  ∃ c ∈ done, s.detached c = false ∧ ReflTransGen s.Child c x

theorem Drained.congr {f g : JsString → Prop} (h : Drained s s' order f)
    (heq : ∀ x, g x ↔ f x) : Drained s s' order g := by
  obtain rfl : g = f := funext fun x => propext (heq x)
  exact h

variable {gone : JsString → Prop}

theorem Drained.child (h : Drained s s' order gone) :
    s'.Child u c ↔ s.Child u c ∧ ¬ gone u ∧ ¬ gone c := by
  unfold Child
  rw [h.kept, h.detached]
  exact ⟨fun ⟨⟨hc, hgone⟩, hstays⟩ => ⟨⟨hc, hstays⟩, hgone⟩, fun ⟨⟨hc, hstays⟩, hgone⟩ => ⟨⟨hc, hgone⟩, hstays⟩⟩

theorem Drained.reach (h : Drained s s' order gone)
    (hapart : ∀ y, ReflTransGen s.Child c y → ¬ gone y) : ReflTransGen s'.Child c x ↔ ReflTransGen s.Child c x := by
  constructor
  · exact ReflTransGen.mono (fun _ _ hchild => (h.child.mp hchild).1) _ _
  · intro hreach
    induction hreach with
    | refl => exact .refl
    | tail hreach hchild ih => exact ih.tail (h.child.mpr ⟨hchild, hapart _ hreach, hapart _ (hreach.tail hchild)⟩)

theorem Drained.reach' (h : Drained s s' order gone)
    (hapart : ∀ y, ReflTransGen s.Child c y → ¬ gone y) : TransGen s'.Child c x ↔ TransGen s.Child c x := by
  rw [TransGen.tail'_iff, TransGen.tail'_iff]
  refine exists_congr fun y => ?_
  rw [h.reach hapart]
  refine and_congr_right fun hreach => h.child.trans ?_
  exact ⟨And.left, fun hchild => ⟨hchild, hapart y hreach, hapart x (hreach.tail hchild)⟩⟩

theorem below_append {done : List JsString} (hstays : s.detached c = false) :
    s.Below (done ++ [c]) x ↔ s.Below done x ∨ ReflTransGen s.Child c x := by
  unfold Below
  constructor
  · rintro ⟨y, hy, hdetached, hreach⟩
    rcases List.mem_append.mp hy with hy | hy
    · exact .inl ⟨y, hy, hdetached, hreach⟩
    · exact .inr (List.mem_singleton.mp hy ▸ hreach)
  · rintro (⟨y, hy, hdetached, hreach⟩ | hreach)
    · exact ⟨y, List.mem_append_left _ hy, hdetached, hreach⟩
    · exact ⟨c, List.mem_append_right _ (List.mem_singleton_self c), hstays, hreach⟩

theorem reach_iff_eq_or : ReflTransGen s.Child c x ↔ x = c ∨ TransGen s.Child c x := by
  rw [reflTransGen_iff_eq_or_transGen]

theorem Drained.sever {done : List JsString} {r₁ r₂ : PodLinks} {order₁ order₂ : List PodRef}
    (hone : OneParent fun u c => c ∈ s.children u) (hends : Ends s.Child parentKey)
    (hsub : ∀ x ∈ done, x ∈ s.children parentKey) (hc : c ∈ s.children parentKey) (hnew : c ∉ done)
    (hstays : s.detached c = false) (href : refKey ref = c) (h₁ : Drained s r₁ order₁ (s.Below done))
    (h₂ : Drained r₁ r₂ order₂ (TransGen r₁.Child c)) :
    Drained s (r₂.sever parentKey c) (order₁ ++ order₂ ++ [ref]) (s.Below (done ++ [c])) := by
  have honeChild : OneParent s.Child := fun u u' c h h' => hone u u' c h.1 h'.1
  have hapart : ∀ y, ReflTransGen s.Child c y → ¬ s.Below done y := by
    rintro y hcy ⟨x, hx, hdetached, hxy⟩
    exact children_apart honeChild hends ⟨hc, hstays⟩ ⟨hsub x hx, hdetached⟩ (fun heq => hnew (heq ▸ hx)) hcy hxy
  have hbelow : ∀ y, TransGen r₁.Child c y ↔ TransGen s.Child c y := fun y => h₁.reach' hapart
  have hself : ¬ TransGen s.Child c c := (hends.child ⟨hc, hstays⟩).not_cycle
  have hgone : ∀ y, s.Below (done ++ [c]) y ↔ s.Below done y ∨ y = c ∨ TransGen s.Child c y := fun y => by
    rw [below_append hstays, reach_iff_eq_or]
  have h₂' : Drained r₁ r₂ _ (TransGen s.Child c) := h₂.congr fun y => (hbelow y).symm
  refine Drained.congr (f := fun y => s.Below done y ∨ y = c ∨ TransGen s.Child c y)
    ⟨⟨(h₁.toWithin.trans h₂.toWithin).trans (within_sever r₂ parentKey c), fun u x => ?_, fun x hx => ?_,
      fun x hx => ?_⟩, ?_, fun x => ?_, fun u x hu hchild => ?_⟩ hgone
  · have hparent : x ∈ s.children u → x = c → u = parentKey := by
      rintro hx rfl
      exact hone u parentKey x hx hc
    rw [mem_children_sever, h₂'.kept, h₁.kept]
    tauto
  · rw [sever_parentOf, JsMap.get?_delete]
    split_ifs with heq
    · rfl
    · rcases hx with hx | hx | hx
      · rw [h₂'.parentKept x fun hbelow => hapart x hbelow.to_reflTransGen hx]
        exact h₁.parentOf x hx
      · exact absurd hx heq
      · exact h₂'.parentOf x hx
  · obtain ⟨hx₁, hx₂, hx₃⟩ := not_or.mp hx |>.imp_right not_or.mp
    rw [sever_parentOf, JsMap.get?_delete, if_neg hx₂, h₂'.parentKept x hx₃, h₁.parentKept x hx₁]
  · rw [List.map_append, List.map_append, List.map_cons, List.map_nil, href, List.nodup_append, List.nodup_append]
    refine ⟨⟨h₁.once, h₂.once, fun a ha b hb => ?_⟩, List.nodup_singleton c, fun a ha b hb => ?_⟩
    · rintro rfl
      exact hapart a ((h₂'.mem a).mp hb).to_reflTransGen ((h₁.mem a).mp ha)
    · rw [List.mem_singleton.mp hb]
      rintro rfl
      rcases List.mem_append.mp ha with ha | ha
      · exact hapart a .refl ((h₁.mem a).mp ha)
      · exact hself ((h₂'.mem a).mp ha)
  · rw [List.map_append, List.map_append, List.map_cons, List.map_nil, href, List.mem_append, List.mem_append,
      h₁.mem, h₂'.mem, List.mem_singleton, or_assoc]
    exact or_congr_right or_comm
  · rw [List.map_append, List.map_append, List.map_cons, List.map_nil, href]
    rcases hu with hu | rfl | hu
    · exact ((h₁.before u x hu hchild).trans (List.sublist_append_left _ _)).trans (List.sublist_append_left _ _)
    · have hx : x ∈ order₂.map refKey := (h₂'.mem x).mpr (TransGen.single hchild)
      exact ((List.singleton_sublist.mpr hx).trans (List.sublist_append_right _ _)).append (List.Sublist.refl [u])
    · have hreach := hu.to_reflTransGen
      have hchild₁ := h₁.child.mpr ⟨hchild, hapart u hreach, hapart x (hreach.tail hchild)⟩
      have hbefore := h₂.before u x ((hbelow u).mpr hu) hchild₁
      exact (hbefore.trans (List.sublist_append_right _ _)).trans (List.sublist_append_left _ _)

theorem drained_drainChildren (hkeyed : Keyed s)
    (hone : OneParent fun u c => c ∈ s.children u) (h : drainChildren depth s ref = some (s', order)) :
    Drained s s' order (TransGen s.Child (refKey ref)) := by
  induction depth generalizing s s' ref order with
  | zero => cases h
  | succ depth ih =>
      have hends := (cut_drainChildren hkeyed h).2
      have hloop : ∀ (l done : List JsString) (r r' : PodLinks × List PodRef), s.children (refKey ref) = done ++ l →
          Drained s r.1 r.2 (s.Below done) → l.foldlM (drainChild (drainChildren depth) (refKey ref)) r = some r' →
          Drained s r'.1 r'.2 (s.Below (s.children (refKey ref))) := by
        intro l
        induction l with
        | nil =>
            intro done r r' hall hdrained hfold
            obtain rfl := Option.some.inj hfold
            rw [hall, List.append_nil]
            exact hdrained
        | cons c l ihl =>
            intro done r r' hall hdrained hfold
            rw [List.foldlM_cons] at hfold
            obtain ⟨r₁, hchild, hrest⟩ := Option.bind_eq_some_iff.mp hfold
            have hall' : s.children (refKey ref) = (done ++ [c]) ++ l := by rw [hall, List.append_assoc]; rfl
            have hc : c ∈ s.children (refKey ref) := by
              rw [hall]
              exact List.mem_append_right _ List.mem_cons_self
            have hsub : ∀ x ∈ done, x ∈ s.children (refKey ref) := by
              intro x hx
              rw [hall]
              exact List.mem_append_left _ hx
            have hnew : c ∉ done := by
              have hnodup := s.children_nodup (refKey ref)
              rw [hall, List.nodup_append] at hnodup
              exact fun hmem => hnodup.2.2 c hmem c List.mem_cons_self rfl
            refine ihl (done ++ [c]) r₁ r' hall' ?_ hrest
            rcases drainChild_eq_some hchild with ⟨hdetached, rfl⟩ | ⟨hdetached, s₁, order₁, hbelow, rfl⟩
            · refine hdrained.congr fun x => ⟨?_, ?_⟩
              · rintro ⟨y, hy, hstays, hreach⟩
                rcases List.mem_append.mp hy with hy | hy
                · exact ⟨y, hy, hstays, hreach⟩
                · rw [List.mem_singleton.mp hy, ← hdrained.detached, hdetached] at hstays
                  cases hstays
              · rintro ⟨y, hy, hstays, hreach⟩
                exact ⟨y, List.mem_append_left _ hy, hstays, hreach⟩
            · have hkey : refKey (r.1.refAt c) = c := by rw [hdrained.refAt, hkeyed.refKey_refAt hc]
              have hone' : OneParent fun u c => c ∈ r.1.children u := fun u u' c hu hu' =>
                hone u u' c (hdrained.children u c hu) (hdrained.children u' c hu')
              have hrec := ih (hdrained.keyed hkeyed) hone' hbelow
              rw [hkey] at hrec
              exact hdrained.sever hone hends hsub hc hnew (by rw [← hdrained.detached, hdetached]) hkey hrec
      have hstart : Drained s s [] (s.Below []) := by
        have hnone : ∀ x, ¬ s.Below [] x := fun x ⟨y, hy, _⟩ => (by cases hy)
        exact ⟨⟨.refl s, fun u c => ⟨fun hc => ⟨hc, hnone u, hnone c⟩, And.left⟩, fun c hc => absurd hc (hnone c),
          fun _ _ => rfl⟩, List.nodup_nil, fun x => ⟨fun hx => (by cases hx), fun hx => absurd hx (hnone x)⟩,
          fun u _ hu => absurd hu (hnone u)⟩
      refine (hloop _ [] (s, []) (s', order) rfl hstart h).congr fun x => ?_
      rw [TransGen.head'_iff]
      exact ⟨fun ⟨c, hchild, hreach⟩ => ⟨c, hchild.1, hchild.2, hreach⟩,
        fun ⟨c, hc, hstays, hreach⟩ => ⟨c, ⟨hc, hstays⟩, hreach⟩⟩

/-! ### Inverse maps -/

theorem Inverse.oneParent (h : Inverse s) : OneParent fun u c => c ∈ s.children u :=
  fun u u' c hu hu' => Option.some.inj (((h u c).mp hu).symm.trans ((h u' c).mp hu'))

theorem Gone.inverse (h : Gone s s' gone) (hs : Inverse s)
    (hclosed : ∀ u c, gone u → c ∈ s.children u → gone c) : Inverse s' := by
  intro u c
  rw [h.kept]
  by_cases hc : gone c
  · rw [h.parentOf c hc]
    exact ⟨fun hchild => absurd hc hchild.2.2, fun heq => (by cases heq)⟩
  · rw [h.parentKept c hc, ← hs u c]
    exact ⟨And.left, fun hchild => ⟨hchild, fun hu => hc (hclosed u c hu hchild), hc⟩⟩

theorem gone_severRoot (h : Gone s s' gone) (hs : Inverse s) (hx : ¬ gone x) :
    Gone s (s'.severRoot x) fun y => y = x ∨ gone y := by
  have hsame := h.parentKept x hx
  have hdelete : ∀ u c, c ∈ PodLinks.children { s' with childrenOf := s'.childrenOf.delete x } u ↔
      (c ∈ s.children u ∧ ¬ gone u ∧ ¬ gone c) ∧ u ≠ x := fun u c => by
    rw [← h.kept]
    exact mem_children_delete rfl
  unfold severRoot
  dsimp only
  cases hp : s'.parentOf.get? x with
  | none =>
      rw [hsame] at hp
      refine ⟨⟨h.pods, h.entries, fun u c hc => ((hdelete u c).mp hc).1.1⟩, fun u c => ?_, fun c hc => ?_, fun c hc => ?_⟩
      · have hnot : c ∈ s.children u → c ≠ x := by
          rintro hc rfl
          cases hp.symm.trans ((hs u c).mp hc)
        rw [hdelete]
        tauto
      · rcases hc with rfl | hc
        · exact hsame.trans hp
        · exact h.parentOf c hc
      · exact h.parentKept c fun hgone => hc (.inr hgone)
  | some p =>
      rw [hsame] at hp
      have hmem : ∀ u c, c ∈ PodLinks.children { PodLinks.deleteChild { s' with childrenOf := s'.childrenOf.delete x } p x with
          parentOf := s'.parentOf.delete x } u ↔
          ((c ∈ s.children u ∧ ¬ gone u ∧ ¬ gone c) ∧ u ≠ x) ∧ ¬ (u = p ∧ c = x) := fun u c => by
        rw [← hdelete]
        exact mem_children_deleteChild
      refine ⟨⟨deleteChild_pods.1.trans h.pods, deleteChild_pods.2.1.trans h.entries,
        fun u c hc => ((hmem u c).mp hc).1.1.1⟩, fun u c => ?_, fun c hc => ?_, fun c hc => ?_⟩
      · have hparent : c ∈ s.children u → c = x → u = p := by
          rintro hc rfl
          exact Option.some.inj (((hs u c).mp hc).symm.trans hp)
        rw [hmem]
        tauto
      · change (s'.parentOf.delete x).get? c = none
        rw [JsMap.get?_delete]
        split_ifs with heq
        · rfl
        · exact h.parentOf c (hc.resolve_left heq)
      · change (s'.parentOf.delete x).get? c = _
        rw [JsMap.get?_delete, if_neg fun heq => hc (.inl heq)]
        exact h.parentKept c fun hgone => hc (.inr hgone)

theorem gone_nothing (s : PodLinks) : Gone s s fun _ => False :=
  ⟨.refl s, fun _ _ => ⟨fun hc => ⟨hc, id, id⟩, And.left⟩, fun _ hc => hc.elim, fun _ _ => rfl⟩

theorem drained_drain (hkeyed : Keyed s) (hs : Inverse s) (h : s.drain depth ref true = some (s', order)) :
    Drained s s' order (ReflTransGen s.Child (refKey ref)) ∧ Ends s.Child (refKey ref) := by
  obtain ⟨⟨s₁, order₁⟩, hbelow, heq⟩ := Option.map_eq_some_iff.mp h
  obtain ⟨rfl, rfl⟩ := Prod.mk.inj heq
  rw [if_pos rfl] at hbelow
  have hends := (cut_drainChildren hkeyed hbelow).2
  have hdrained := drained_drainChildren hkeyed hs.oneParent hbelow
  have hself : ¬ TransGen s.Child (refKey ref) (refKey ref) := hends.not_cycle
  have hgone := gone_severRoot hdrained.toGone hs hself
  refine ⟨Drained.congr ⟨hgone, ?_, fun x => ?_, fun u c hu hchild => ?_⟩ fun x => reach_iff_eq_or, hends⟩
  · rw [List.map_append, List.nodup_append]
    refine ⟨hdrained.once, List.nodup_singleton _, fun a ha b hb => ?_⟩
    rw [List.mem_singleton.mp hb]
    rintro rfl
    exact hself ((hdrained.mem _).mp ha)
  · rw [List.map_append, List.mem_append, hdrained.mem]
    exact or_comm.trans (or_congr_left List.mem_singleton)
  · rw [List.map_append]
    rcases hu with rfl | hu
    · have hc : c ∈ order₁.map refKey := (hdrained.mem c).mpr (TransGen.single hchild)
      exact (List.singleton_sublist.mpr hc).append (List.Sublist.refl [refKey ref])
    · exact (hdrained.before u c hu hchild).trans (List.sublist_append_left _ _)

theorem finite_reach (s : PodLinks) (u : JsString) : Set.Finite {x | ReflTransGen s.Child u x} := by
  refine Set.Finite.subset (List.finite_toSet (u :: s.childrenOf.values.flatMap JsSet.elems)) fun x hx => ?_
  rcases reach_iff_eq_or.mp hx with rfl | hx
  · exact List.mem_cons_self
  · obtain ⟨v, -, hchild⟩ := TransGen.tail'_iff.mp hx
    obtain ⟨childKeys, hkeys, hmem⟩ := mem_children_iff.mp hchild.1
    refine List.mem_cons_of_mem _ (List.mem_flatMap.mpr ⟨childKeys, ?_, hmem⟩)
    exact List.mem_map.mpr ⟨_, JsMap.mem_entries_iff.mpr hkeys, rfl⟩

def Linked (s : PodLinks) (x : JsString) : Prop :=
  s.parentOf.get? x ≠ none ∨ (∃ u, x ∈ s.children u) ∨ s.children x ≠ [] ∨ ∃ c, s.parentOf.get? c = some x

/-- A drain returns, has drained its pod and each pod below it once and before its parent, and leaves none of them
linked. -/
def Works (s : PodLinks) (ref : PodRef) : Prop :=
  ∃ depth s' order, s.drain depth ref true = some (s', order) ∧ (order.map refKey).Nodup ∧
    (∀ x, x ∈ order.map refKey ↔ ReflTransGen s.Child (refKey ref) x) ∧
    (∀ u c, ReflTransGen s.Child (refKey ref) u → s.Child u c → [c, u].Sublist (order.map refKey)) ∧
    ∀ x ∈ order.map refKey, ¬ s'.Linked x

def NoCycle (s : PodLinks) (ref : PodRef) : Prop :=
  ∀ x, ReflTransGen s.Child (refKey ref) x → ¬ TransGen s.Child x x

def NoneLeft (s : PodLinks) (ref : PodRef) : Prop :=
  ∀ u c, ReflTransGen s.Child (refKey ref) u → c ∈ s.children u → ReflTransGen s.Child (refKey ref) c

theorem works_iff (hkeyed : Keyed s) (hs : Inverse s) (ref : PodRef) :
    s.Works ref ↔ s.NoCycle ref ∧ s.NoneLeft ref := by
  unfold NoCycle
  rw [← ends_iff_no_cycle (s.finite_reach _)]
  constructor
  · rintro ⟨depth, s', order, hdrain, -, hmem, -, hlinked⟩
    obtain ⟨hdrained, hends⟩ := drained_drain hkeyed hs hdrain
    refine ⟨hends, fun u c hu hc => ?_⟩
    by_contra hgone
    refine hlinked u ((hmem u).mpr hu) (.inr (.inr (.inr ⟨c, ?_⟩)))
    rw [hdrained.parentKept c hgone]
    exact (hs u c).mp hc
  · rintro ⟨hends, hclosed⟩
    obtain ⟨depth, hdepth⟩ := drainChildren_isSome hkeyed hends
    obtain ⟨⟨s₁, order⟩, hbelow⟩ := Option.isSome_iff_exists.mp (hdepth depth le_rfl s (.refl s) ref rfl)
    have hdrain : s.drain depth ref true = some (s₁.severRoot (refKey ref), order ++ [ref]) := by
      unfold PodLinks.drain
      rw [if_pos rfl, hbelow]
      rfl
    obtain ⟨hdrained, -⟩ := drained_drain hkeyed hs hdrain
    refine ⟨depth, _, _, hdrain, hdrained.once, hdrained.mem, hdrained.before, fun x hx => ?_⟩
    have hreach := (hdrained.mem x).mp hx
    have hinverse := hdrained.toGone.inverse hs hclosed
    rintro (hparent | ⟨u, hu⟩ | hchildren | ⟨c, hc⟩)
    · exact hparent (hdrained.parentOf x hreach)
    · exact ((hdrained.kept u x).mp hu).2.2 hreach
    · obtain ⟨c, hc⟩ := List.exists_mem_of_ne_nil _ hchildren
      exact ((hdrained.kept x c).mp hc).2.1 hreach
    · exact ((hdrained.kept x c).mp ((hinverse x c).mpr hc)).2.1 hreach

/-! ### Calls that keep the maps inverse -/

theorem mem_children_set {childKeys : JsSet JsString} (h : s'.childrenOf = s.childrenOf.set parentKey childKeys) :
    x ∈ s'.children u ↔ if u = parentKey then x ∈ childKeys else x ∈ s.children u := by
  rw [mem_children_iff, mem_children_iff, h, JsMap.get?_set]
  split_ifs with hu
  · exact ⟨fun ⟨_, heq, h⟩ => Option.some.inj heq ▸ h, fun h => ⟨childKeys, rfl, h⟩⟩
  · exact Iff.rfl

theorem mem_children_link {parentRef childRef : PodRef} : x ∈ (s.link parentRef childRef).children u ↔
    x ∈ s.children u ∨ u = refKey parentRef ∧ x = refKey childRef := by
  rw [show x ∈ (s.link parentRef childRef).children u ↔ _ from mem_children_set rfl]
  split_ifs with hu
  · rw [JsSet.mem_add, hu, mem_children_iff]
    cases hset : s.childrenOf.get? (refKey parentRef) with
    | none => simp
    | some childKeys => simp
  · simp [hu]

def MayLink (s : PodLinks) (parentKey childKey : JsString) : Prop :=
  ∀ q ∈ s.parentOf.get? childKey, q = parentKey

theorem Inverse.link (h : Inverse s) {parentRef childRef : PodRef}
    (hmay : s.MayLink (refKey parentRef) (refKey childRef)) : Inverse (s.link parentRef childRef) := by
  intro u c
  rw [mem_children_link, h u c]
  change _ ↔ (s.parentOf.set (refKey childRef) (refKey parentRef)).get? c = some u
  rw [JsMap.get?_set]
  split_ifs with hc
  · subst hc
    constructor
    · rintro (hu | ⟨rfl, -⟩)
      · rw [hmay u hu]
      · rfl
    · exact fun heq => .inr ⟨(Option.some.inj heq).symm, rfl⟩
  · exact ⟨fun hu => hu.resolve_right fun heq => hc heq.2, .inl⟩

theorem Inverse.unlink (h : Inverse s) (parentRef childRef : PodRef) : Inverse (s.unlink parentRef childRef) := by
  have hparent : (s.deleteChild (refKey parentRef) (refKey childRef)).parentOf = s.parentOf := deleteChild_pods.2.2
  unfold PodLinks.unlink
  dsimp only
  rw [hparent]
  split_ifs with hlinked
  · intro u c
    refine mem_children_deleteChild.trans ?_
    change _ ↔ (s.parentOf.delete (refKey childRef)).get? c = some u
    rw [JsMap.get?_delete, h u c]
    split_ifs with hc
    · subst hc
      refine ⟨fun hu => absurd ⟨?_, rfl⟩ hu.2, fun heq => (by cases heq)⟩
      exact Option.some.inj (hu.1.symm.trans hlinked)
    · exact ⟨And.left, fun hu => ⟨hu, fun heq => hc heq.2⟩⟩
  · intro u c
    rw [mem_children_deleteChild, hparent, h u c]
    refine ⟨And.left, fun hu => ⟨hu, ?_⟩⟩
    rintro ⟨rfl, rfl⟩
    exact hlinked hu

/-- The pod that moves has no children, and the new key is free. -/
def MayMove (s : PodLinks) (oldKey newKey : JsString) : Prop :=
  s.children oldKey = [] ∧ (s.childrenOf.get? oldKey ≠ none → ∀ x ∈ s.children newKey, x = oldKey) ∧
    ∀ p ∈ s.parentOf.get? oldKey, ∀ q ∈ s.parentOf.get? newKey, q = p

section
variable {oldKey newKey : JsString}

theorem mem_children_rekeyChildren (hnone : s.children oldKey = []) :
    x ∈ (s.rekeyChildren oldKey newKey).children u ↔
      x ∈ s.children u ∧ ¬ (u = newKey ∧ s.childrenOf.get? oldKey ≠ none) := by
  unfold rekeyChildren
  cases hkids : s.childrenOf.get? oldKey with
  | none => simp
  | some kids =>
      have hempty : ∀ y, y ∉ kids := fun y hy => by
        have hmem := mem_children_iff.mpr ⟨kids, hkids, hy⟩
        rw [hnone] at hmem
        cases hmem
      have hset : x ∈ PodLinks.children { s with childrenOf := (s.childrenOf.delete oldKey).set newKey kids } u ↔
          if u = newKey then x ∈ kids else x ∈ PodLinks.children { s with childrenOf := s.childrenOf.delete oldKey } u :=
        mem_children_set rfl
      have hdelete : x ∈ PodLinks.children { s with childrenOf := s.childrenOf.delete oldKey } u ↔
          x ∈ s.children u ∧ u ≠ oldKey := mem_children_delete rfl
      refine hset.trans ?_
      rw [hdelete]
      split_ifs with hu
      · exact ⟨fun hx => absurd hx (hempty x), fun hx => absurd ⟨hu, fun heq => (by cases heq)⟩ hx.2⟩
      · refine ⟨fun hx => ⟨hx.1, fun heq => hu heq.1⟩, fun hx => ⟨hx.1, ?_⟩⟩
        rintro rfl
        rw [hnone] at hx
        cases hx.1

theorem rekeyChildren_parentOf : (s.rekeyChildren oldKey newKey).parentOf = s.parentOf := by
  unfold rekeyChildren
  split
  · rfl
  · rfl

theorem Inverse.rekey (h : Inverse s) (hne : newKey ≠ oldKey) (hmay : s.MayMove oldKey newKey) :
    Inverse ((s.rekeyChildren oldKey newKey).rekeyParent oldKey newKey) ∧
      ¬ ((s.rekeyChildren oldKey newKey).rekeyParent oldKey newKey).Linked oldKey ∧
      ∀ u x, x ∈ ((s.rekeyChildren oldKey newKey).rekeyParent oldKey newKey).children u → x = newKey ∨ x ∈ s.children u := by
  obtain ⟨hnone, hfree, hparent⟩ := hmay
  have hchildren : ∀ u x, x ∈ (s.rekeyChildren oldKey newKey).children u ↔
      x ∈ s.children u ∧ ¬ (u = newKey ∧ s.childrenOf.get? oldKey ≠ none) := fun u x => mem_children_rekeyChildren hnone
  suffices hlinks : Inverse ((s.rekeyChildren oldKey newKey).rekeyParent oldKey newKey) ∧
      (∀ u, oldKey ∉ ((s.rekeyChildren oldKey newKey).rekeyParent oldKey newKey).children u) ∧
      (∀ x, x ∉ ((s.rekeyChildren oldKey newKey).rekeyParent oldKey newKey).children oldKey) ∧
      ∀ u x, x ∈ ((s.rekeyChildren oldKey newKey).rekeyParent oldKey newKey).children u → x = newKey ∨ x ∈ s.children u by
    refine ⟨hlinks.1, ?_, hlinks.2.2.2⟩
    rintro (hp | ⟨u, hu⟩ | hx | ⟨c, hc⟩)
    · obtain ⟨u, hu⟩ := Option.ne_none_iff_exists'.mp hp
      exact hlinks.2.1 u ((hlinks.1 u _).mpr hu)
    · exact hlinks.2.1 u hu
    · obtain ⟨x, hx⟩ := List.exists_mem_of_ne_nil _ hx
      exact hlinks.2.2.1 x hx
    · exact hlinks.2.2.1 c ((hlinks.1 _ c).mpr hc)
  unfold rekeyParent
  rw [rekeyChildren_parentOf]
  cases hp : s.parentOf.get? oldKey with
  | none =>
      dsimp only
      have hnot : ∀ u, oldKey ∉ s.children u := fun u hu => (by cases hp.symm.trans ((h u oldKey).mp hu))
      refine ⟨fun u x => ?_, fun u hu => hnot u ((hchildren u oldKey).mp hu).1, fun x hx => ?_,
        fun u x hx => .inr ((hchildren u x).mp hx).1⟩
      · rw [hchildren, rekeyChildren_parentOf, h u x]
        refine ⟨And.left, fun hx => ⟨hx, ?_⟩⟩
        rintro ⟨rfl, hkids⟩
        have hmem := (h _ x).mpr hx
        rw [hfree hkids x hmem] at hmem
        exact hnot _ hmem
      · rw [hchildren, hnone] at hx
        cases hx.1
  | some p =>
      have hmem : oldKey ∈ s.children p := (h p oldKey).mpr hp
      have hpne : p ≠ oldKey := by
        rintro rfl
        rw [hnone] at hmem
        cases hmem
      obtain ⟨siblings, hsiblings⟩ : ∃ siblings, (s.rekeyChildren oldKey newKey).childrenOf.get? p = some siblings := by
        by_cases hdropped : p = newKey ∧ s.childrenOf.get? oldKey ≠ none
        · obtain ⟨rfl, hkids⟩ := hdropped
          obtain ⟨kids, hkids⟩ := Option.ne_none_iff_exists'.mp hkids
          refine ⟨kids, ?_⟩
          unfold rekeyChildren
          rw [hkids]
          dsimp only
          rw [JsMap.get?_set, if_pos rfl]
        · obtain ⟨siblings, hsiblings, -⟩ := mem_children_iff.mp ((hchildren p oldKey).mpr ⟨hmem, hdropped⟩)
          exact ⟨siblings, hsiblings⟩
      dsimp only
      rw [hsiblings]
      dsimp only
      have hafter : ∀ u x, x ∈ PodLinks.children { s.rekeyChildren oldKey newKey with
          parentOf := (s.parentOf.delete oldKey).set newKey p
          childrenOf := (s.rekeyChildren oldKey newKey).childrenOf.set p ((siblings.delete oldKey).add newKey) } u ↔
          if u = p then (x ∈ (s.rekeyChildren oldKey newKey).children p ∧ x ≠ oldKey) ∨ x = newKey
          else x ∈ (s.rekeyChildren oldKey newKey).children u := by
        intro u x
        rw [mem_children_set (s := s.rekeyChildren oldKey newKey) rfl, JsSet.mem_add, JsSet.mem_delete,
          mem_children_iff (u := p), hsiblings]
        simp
      have honly : ∀ u, oldKey ∈ s.children u → u = p := fun u hu => h.oneParent u p oldKey hu hmem
      refine ⟨fun u x => ?_, fun u hu => ?_, fun x hx => ?_, fun u x hx => ?_⟩
      · rw [hafter]
        change _ ↔ ((s.parentOf.delete oldKey).set newKey p).get? x = some u
        rw [JsMap.get?_set, JsMap.get?_delete]
        by_cases hxnew : x = newKey
        · subst hxnew
          rw [if_pos rfl]
          by_cases hu : u = p
          · rw [if_pos hu, hu]
            exact ⟨fun _ => rfl, fun _ => .inr rfl⟩
          · rw [if_neg hu, hchildren]
            refine ⟨fun hx => absurd (hparent p hp u ((h u x).mp hx.1)) hu, fun heq => absurd (Option.some.inj heq).symm hu⟩
        · rw [if_neg hxnew]
          by_cases hxold : x = oldKey
          · subst hxold
            rw [if_pos rfl]
            split_ifs with hu
            · exact ⟨fun hx => hx.elim (fun hx => absurd rfl hx.2) fun heq => absurd heq.symm hne, fun heq => (by cases heq)⟩
            · exact ⟨fun hx => absurd (honly u ((hchildren u x).mp hx).1) hu, fun heq => (by cases heq)⟩
          · rw [if_neg hxold, ← h u x]
            have hkept : x ∈ (s.rekeyChildren oldKey newKey).children u ↔ x ∈ s.children u := by
              rw [hchildren]
              refine ⟨And.left, fun hx => ⟨hx, ?_⟩⟩
              rintro ⟨rfl, hkids⟩
              exact hxold (hfree hkids x hx)
            split_ifs with hu
            · rw [← hu, hkept]
              exact ⟨fun hx => hx.elim And.left fun heq => absurd heq hxnew, fun hx => .inl ⟨hx, hxold⟩⟩
            · exact hkept
      · rw [hafter] at hu
        split_ifs at hu with hup
        · exact hu.elim (fun hx => hx.2 rfl) fun heq => hne heq.symm
        · exact hup (honly u ((hchildren u oldKey).mp hu).1)
      · rw [hafter, if_neg (Ne.symm hpne), hchildren, hnone] at hx
        cases hx.1
      · rw [hafter] at hx
        split_ifs at hx with hup
        · refine hx.symm.imp_right fun hx => ?_
          rw [hup]
          exact ((hchildren p x).mp hx.1).1
        · exact .inr ((hchildren u x).mp hx).1

end

/-! ### Runs -/

/-- A call takes no child from another parent, moves no pod with children and to no key that is taken, and leaves no
child of a drained pod. -/
def MayDo (s : PodLinks) : PodLinkAction → Prop
  | .supervise ref (some (c :: name)) _ _ => s.MayLink (refKey ⟨ref.host, c :: name⟩) (refKey ref)
  | .supervise _ (some []) _ _ => True
  | .supervise _ none _ _ => True
  | .unsupervise _ => True
  | .link parentRef childRef => s.MayLink (refKey parentRef) (refKey childRef)
  | .unlink _ _ => True
  | .drain ref true _ => s.NoneLeft ref
  | .drain ref false _ => ∀ c ∈ s.children (refKey ref), c = refKey ref
  | .exit ref _ => ∀ u c, TransGen s.Child (refKey ref) u → c ∈ s.children u → TransGen s.Child (refKey ref) c
  | .move e newHost => ∀ pod ∈ s.entries[e]?, refKey { pod.ref with host := newHost } ≠ refKey pod.ref →
      s.MayMove (refKey pod.ref) (refKey { pod.ref with host := newHost })

theorem Keyed.link (h : Keyed s) (parentRef childRef : PodRef) : Keyed (s.link parentRef childRef) := by
  refine ⟨h.pods, fun u c hc => ?_⟩
  rcases mem_children_link.mp hc with hc | ⟨-, rfl⟩
  · exact h.children u c hc
  · exact ⟨childRef, rfl⟩

theorem within_unlink (s : PodLinks) (parentRef childRef : PodRef) : Within s (s.unlink parentRef childRef) := by
  have hdelete : Within s (s.deleteChild (refKey parentRef) (refKey childRef)) :=
    ⟨deleteChild_pods.1, deleteChild_pods.2.1, fun u c hc => (mem_children_deleteChild.mp hc).1⟩
  unfold unlink
  dsimp only
  split_ifs
  · exact hdelete.trans ⟨rfl, rfl, fun _ _ => id⟩
  · exact hdelete

def spawned (s : PodLinks) (ref : PodRef) (detachOnParentExit : Bool) (policy : RestartPolicy) : PodLinks :=
  { s with
    entries := s.entries ++ [⟨ref, detachOnParentExit, policy⟩]
    pods := s.pods.set (refKey ref) s.entries.length }

theorem Keyed.spawned (h : Keyed s) (ref : PodRef) (detachOnParentExit : Bool) (policy : RestartPolicy) :
    Keyed (s.spawned ref detachOnParentExit policy) := by
  refine ⟨fun key e hkey => ?_, h.children⟩
  change (s.pods.set (refKey ref) s.entries.length).get? key = some e at hkey
  rw [JsMap.get?_set] at hkey
  split_ifs at hkey with hsame
  · obtain rfl := Option.some.inj hkey
    exact ⟨_, List.getElem?_concat_length, hsame.symm⟩
  · obtain ⟨pod, hpod, href⟩ := h.pods key e hkey
    exact ⟨pod, (List.getElem?_append_left (List.getElem?_eq_some_iff.mp hpod).1).trans hpod, href⟩

variable {e : ℕ}

theorem rekeyPods_links {oldKey newKey newHost : JsString} :
    (s.rekeyPods e oldKey newKey newHost).childrenOf = s.childrenOf ∧
      (s.rekeyPods e oldKey newKey newHost).parentOf = s.parentOf := by
  unfold rekeyPods
  dsimp only
  split_ifs
  · exact ⟨rfl, rfl⟩
  · exact ⟨rfl, rfl⟩

theorem Keyed.rekeyPods (h : Keyed s) {pod : LinkedPod} (hpod : s.entries[e]? = some pod) (newHost : JsString) :
    Keyed (s.rekeyPods e (refKey pod.ref) (refKey { pod.ref with host := newHost }) newHost) := by
  have hold : ∀ key, s.pods.get? key = some e → key = refKey pod.ref := by
    intro key hkey
    obtain ⟨pod', hpod', href⟩ := h.pods key e hkey
    obtain rfl := Option.some.inj (hpod.symm.trans hpod')
    exact href.symm
  have hentries : ∀ (pods : JsMap JsString ℕ), (∀ key e', pods.get? key = some e' →
      e' = e ∧ key = refKey { pod.ref with host := newHost } ∨ e' ≠ e ∧ s.pods.get? key = some e') →
      ∀ key e', pods.get? key = some e' → ∃ pod', (s.entries.modify e fun pod =>
        { pod with ref := { pod.ref with host := newHost } })[e']? = some pod' ∧ refKey pod'.ref = key := by
    intro pods hpods key e' hkey
    rw [List.getElem?_modify]
    rcases hpods key e' hkey with ⟨rfl, rfl⟩ | ⟨hne, hkey⟩
    · refine ⟨{ pod with ref := { pod.ref with host := newHost } }, ?_, rfl⟩
      rw [hpod]
      exact congrArg some (if_pos rfl)
    · obtain ⟨pod', hpod', href⟩ := h.pods key e' hkey
      refine ⟨pod', ?_, href⟩
      rw [hpod']
      exact congrArg some (if_neg (Ne.symm hne))
  unfold PodLinks.rekeyPods
  dsimp only
  split_ifs with hsame
  · refine ⟨hentries s.pods fun key e' hkey => ?_, h.children⟩
    by_cases heq : e' = e
    · exact .inl ⟨heq, (hold key (heq ▸ hkey)).trans hsame.symm⟩
    · exact .inr ⟨heq, hkey⟩
  · refine ⟨hentries _ fun key e' hkey => ?_, h.children⟩
    rw [JsMap.get?_set, JsMap.get?_delete] at hkey
    split_ifs at hkey with hnew hgone
    · exact .inl ⟨(Option.some.inj hkey).symm, hnew⟩
    · exact .inr ⟨fun heq => hgone (hold key (heq ▸ hkey)), hkey⟩

theorem rekeyLinks_pods (s : PodLinks) (oldKey newKey : JsString) :
    ((s.rekeyChildren oldKey newKey).rekeyParent oldKey newKey).pods = s.pods ∧
      ((s.rekeyChildren oldKey newKey).rekeyParent oldKey newKey).entries = s.entries := by
  have hchildren : (s.rekeyChildren oldKey newKey).pods = s.pods ∧
      (s.rekeyChildren oldKey newKey).entries = s.entries := by
    unfold rekeyChildren
    split
    · exact ⟨rfl, rfl⟩
    · exact ⟨rfl, rfl⟩
  unfold rekeyParent
  split
  · exact hchildren
  · dsimp only
    split
    · exact hchildren
    · exact hchildren

theorem children_congr (h : s'.childrenOf = s.childrenOf) (u : JsString) : s'.children u = s.children u := by
  unfold children
  rw [h]

theorem Keyed.rekey (h : Keyed s) (hs : Inverse s) {pod : LinkedPod} {newHost : JsString}
    (hpod : s.entries[e]? = some pod) (hmay : s.MayDo (.move e newHost)) :
    Keyed (s.rekey e newHost) ∧ Inverse (s.rekey e newHost) ∧
      (refKey { pod.ref with host := newHost } ≠ refKey pod.ref → ¬ (s.rekey e newHost).Linked (refKey pod.ref)) := by
  have hkeyed := h.rekeyPods hpod newHost
  obtain ⟨hchildrenOf, hparentOf⟩ :
      (s.rekeyPods e (refKey pod.ref) (refKey { pod.ref with host := newHost }) newHost).childrenOf = s.childrenOf ∧
        (s.rekeyPods e (refKey pod.ref) (refKey { pod.ref with host := newHost }) newHost).parentOf = s.parentOf :=
    rekeyPods_links
  have hinverse : Inverse (s.rekeyPods e (refKey pod.ref) (refKey { pod.ref with host := newHost }) newHost) := by
    intro u c
    rw [children_congr hchildrenOf, hparentOf]
    exact hs u c
  unfold PodLinks.rekey
  rw [hpod]
  dsimp only
  split_ifs with hsame
  · exact ⟨hkeyed, hinverse, fun hne => absurd hsame hne⟩
  · have hmove := hmay pod hpod hsame
    have hmove' : MayMove (s.rekeyPods e (refKey pod.ref) (refKey { pod.ref with host := newHost }) newHost)
        (refKey pod.ref) (refKey { pod.ref with host := newHost }) := by
      unfold MayMove
      rw [children_congr hchildrenOf, children_congr hchildrenOf, hchildrenOf, hparentOf]
      exact hmove
    obtain ⟨hinv, hlinked, hmem⟩ := hinverse.rekey hsame hmove'
    obtain ⟨hpods, hentries⟩ := rekeyLinks_pods
      (s.rekeyPods e (refKey pod.ref) (refKey { pod.ref with host := newHost }) newHost) (refKey pod.ref)
      (refKey { pod.ref with host := newHost })
    refine ⟨⟨?_, fun u c hc => ?_⟩, hinv, fun _ => hlinked⟩
    · rw [hpods, hentries]
      exact hkeyed.pods
    · rcases hmem u c hc with rfl | hc
      · exact ⟨_, rfl⟩
      · exact hkeyed.children u c hc

theorem step_inverse {a : PodLinkAction} (h : Keyed s) (hs : Inverse s) (hmay : s.MayDo a) (hstep : s.step a = some s') :
    Keyed s' ∧ Inverse s' := by
  cases a with
  | supervise ref parent detachOnParentExit policy =>
      obtain rfl := Option.some.inj hstep
      have hkeyed := h.spawned ref detachOnParentExit policy
      have hinverse : Inverse (s.spawned ref detachOnParentExit policy) := hs
      cases parent with
      | none => exact ⟨hkeyed, hinverse⟩
      | some name =>
          cases name with
          | nil => exact ⟨hkeyed, hinverse⟩
          | cons c name => exact ⟨hkeyed.link _ _, hinverse.link hmay⟩
  | unsupervise ref =>
      obtain rfl := Option.some.inj hstep
      refine ⟨⟨fun key e hkey => ?_, h.children⟩, hs⟩
      rw [JsMap.get?_delete] at hkey
      split_ifs at hkey
      exact h.pods key e hkey
  | link parentRef childRef =>
      obtain rfl := Option.some.inj hstep
      exact ⟨h.link _ _, hs.link hmay⟩
  | unlink parentRef childRef =>
      obtain rfl := Option.some.inj hstep
      exact ⟨(within_unlink s _ _).keyed h, hs.unlink _ _⟩
  | drain ref cascade depth =>
      obtain ⟨⟨s₁, order⟩, hdrain, rfl⟩ := Option.map_eq_some_iff.mp hstep
      cases cascade with
      | true =>
          obtain ⟨hdrained, -⟩ := drained_drain h hs hdrain
          exact ⟨hdrained.keyed h, hdrained.toGone.inverse hs hmay⟩
      | false =>
          obtain ⟨rfl, -⟩ := Prod.mk.inj (Option.some.inj hdrain)
          have hgone := gone_severRoot (x := refKey ref) s.gone_nothing hs id
          refine ⟨hgone.keyed h, hgone.inverse hs fun u c hu hc => ?_⟩
          obtain rfl := hu.resolve_right id
          exact .inl (hmay c hc)
  | exit ref depth =>
      obtain ⟨⟨s₁, order⟩, hdrain, rfl⟩ := Option.map_eq_some_iff.mp hstep
      have hdrained := drained_drainChildren h hs.oneParent hdrain
      exact ⟨hdrained.keyed h, hdrained.toGone.inverse hs hmay⟩
  | move e newHost =>
      simp only [step] at hstep
      split_ifs at hstep with hlt
      obtain rfl := Option.some.inj hstep
      obtain ⟨hkeyed, hinverse, -⟩ := h.rekey hs (List.getElem?_eq_getElem hlt) hmay
      exact ⟨hkeyed, hinverse⟩

end PodLinks

theorem inverse_of_reach {s : PodLinks} (h : linkMachine.Reach PodLinks.MayDo s) : s.Keyed ∧ s.Inverse := by
  refine h.invariant (I := fun s => s.Keyed ∧ s.Inverse) ⟨⟨fun _ _ hkey => (by cases hkey), fun _ _ hc => (by cases hc)⟩, ?_⟩ ?_
  · exact fun u c => ⟨fun hc => (by cases hc), fun hc => (by cases hc)⟩
  · exact fun s a s' hI hmay hstep => PodLinks.step_inverse hI.1 hI.2 hmay hstep

/-- In a run of calls that may be done the maps are inverse, no link is left under the key that a pod had before it
moved, and a drain works exactly when no pod that is drained lies on a cycle or has a child that is not drained. -/
theorem links_stay_inverse {s : PodLinks} (h : linkMachine.Reach PodLinks.MayDo s) :
    s.Inverse ∧
      (∀ e newHost pod s', s.entries[e]? = some pod → s.MayDo (.move e newHost) → s.step (.move e newHost) = some s' →
        refKey { pod.ref with host := newHost } ≠ refKey pod.ref → ¬ s'.Linked (refKey pod.ref)) ∧
      ∀ ref, s.Works ref ↔ s.NoCycle ref ∧ s.NoneLeft ref := by
  obtain ⟨hkeyed, hinverse⟩ := inverse_of_reach h
  refine ⟨hinverse, fun e newHost pod s' hpod hmay hstep hne => ?_, PodLinks.works_iff hkeyed hinverse⟩
  simp only [PodLinks.step] at hstep
  split_ifs at hstep
  obtain rfl := Option.some.inj hstep
  exact (hkeyed.rekey hinverse hpod hmay).2.2 hne

def family (detachOnParentExit : Bool) : List PodLinkAction :=
  [.supervise ⟨js "a", js "p"⟩ none false .always, .supervise ⟨js "a", js "c"⟩ (some (js "p")) detachOnParentExit .always]

theorem links_stay_inverse_family : ∃ s, linkMachine.Reach PodLinks.MayDo s ∧
    js "a::c" ∈ s.children (js "a::p") ∧ s.Inverse ∧
      (s.Works ⟨js "a", js "p"⟩ ↔ s.NoCycle ⟨js "a", js "p"⟩ ∧ s.NoneLeft ⟨js "a", js "p"⟩) := by
  have hreach : linkMachine.Reach PodLinks.MayDo
      (((PodLinks.new.supervise ⟨js "a", js "p"⟩ none false .always).supervise ⟨js "a", js "c"⟩ (some (js "p")) false
        .always)) := by
    refine .step (.step .init (a := .supervise ⟨js "a", js "p"⟩ none false .always) trivial rfl)
      (a := .supervise ⟨js "a", js "c"⟩ (some (js "p")) false .always) ?_ rfl
    exact fun q hq => (by cases hq)
  obtain ⟨hinverse, -, hworks⟩ := links_stay_inverse hreach
  exact ⟨_, hreach, by decide +kernel, hinverse, hworks _⟩

/-- The child is linked to a second parent, the parent moves to another host, or it is drained while its child is
detached: the maps differ.  In a cycle no drain works. -/
theorem links_break :
    (∀ acts ∈ [family false ++ [.link ⟨js "a", js "q"⟩ ⟨js "a", js "c"⟩], family false ++ [.move 0 (js "b")],
        family true ++ [.drain ⟨js "a", js "p"⟩ true 2]],
      ∃ s, linkMachine.run (fun _ _ => True) linkMachine.init acts = some s ∧ ¬ s.Inverse) ∧
    ∃ s, linkMachine.Reach PodLinks.MayDo s ∧ s.Inverse ∧ ¬ s.Works ⟨js "a", js "p"⟩ := by
  have hrun : ∀ (acts : List PodLinkAction) (u c : JsString),
      (linkMachine.run (fun _ _ => True) linkMachine.init acts).any
        (fun s => decide (¬ (c ∈ s.children u ↔ s.parentOf.get? c = some u))) = true →
      ∃ s, linkMachine.run (fun _ _ => True) linkMachine.init acts = some s ∧ ¬ s.Inverse := by
    intro acts u c hany
    obtain ⟨s, hs, -, hdiffer⟩ := Machine.exists_of_run hany
    exact ⟨s, hs, fun hinverse => hdiffer (hinverse u c)⟩
  refine ⟨fun acts hacts => ?_, ?_⟩
  · rcases List.mem_cons.mp hacts with rfl | hacts
    · exact hrun _ (js "a::p") (js "a::c") (by decide +kernel)
    · rcases List.mem_cons.mp hacts with rfl | hacts
      · exact hrun _ (js "b::p") (js "a::c") (by decide +kernel)
      · rw [List.mem_singleton.mp hacts]
        exact hrun _ (js "a::p") (js "a::c") (by decide +kernel)
  · have hreach : linkMachine.Reach PodLinks.MayDo
        ((PodLinks.new.link ⟨js "a", js "p"⟩ ⟨js "a", js "c"⟩).link ⟨js "a", js "c"⟩ ⟨js "a", js "p"⟩) := by
      refine .step (.step .init (a := .link ⟨js "a", js "p"⟩ ⟨js "a", js "c"⟩) (fun q hq => (by cases hq)) rfl)
        (a := .link ⟨js "a", js "c"⟩ ⟨js "a", js "p"⟩) ?_ rfl
      intro q hq
      have hnone : (PodLinks.new.link ⟨js "a", js "p"⟩ ⟨js "a", js "c"⟩).parentOf.get? (js "a::p") = none := by
        decide +kernel
      cases hnone.symm.trans hq
    obtain ⟨hkeyed, hinverse⟩ := inverse_of_reach hreach
    refine ⟨_, hreach, hinverse, fun hworks => ?_⟩
    have hcycle := ((PodLinks.works_iff hkeyed hinverse _).mp hworks).1
    refine hcycle _ .refl (TransGen.tail (TransGen.single (b := js "a::c") ?_) ?_)
    · exact ⟨by decide +kernel, by decide +kernel⟩
    · exact ⟨by decide +kernel, by decide +kernel⟩

end BrowserMesh.Apps
