import BrowserMesh.Core.Keyring
import BrowserMesh.Library.Breadth

/-! # Ancestry

A keyring may hold several links into one identity, and cycles.  `descendantsOf` goes down all the links
(`mem_descendantsOf_iff`), while `getChain` goes up the first link of each identity only (`isDescendant_iff`).
So `isDescendant` and the path search of `verifyCryptoChain` agree with the links exactly if every link leads
from an identity that its child reaches by first links (`ancestry_iff`). -/

namespace BrowserMesh.Core
open Js Relation

namespace Keyring
variable {σ κ : Type} (k : Keyring σ)

def isDescendant (ancestorId descendantId : JsString) : Bool :=
  (k.getChain descendantId).any fun l => l.parent = ancestorId

def Linked (parent child : JsString) : Prop := ∃ l ∈ k.links, l.parent = parent ∧ l.child = child

/-- The first link that is stored into `child` is one from `parent`. -/
def FirstLinked (child parent : JsString) : Prop :=
  ∃ l, k.links.find? (fun l => l.child = child) = some l ∧ l.parent = parent

def NoPath (crypto : Crypto σ κ) (getPublicKey : JsString → Option κ) (opts : ChainOptions)
    (fromId toId : JsString) : Prop :=
  (k.verifyCryptoChain crypto getPublicKey opts fromId toId).2 = some (js "no-path", .noPath)

/-- `isDescendant` holds of what is reached along the links, and no path is reported only where there is none. -/
def Consistent : Prop :=
  ∀ a d, d ≠ a → (k.isDescendant a d = true ↔ TransGen k.Linked a d) ∧
    ∀ (κ : Type) (crypto : Crypto σ κ) (getPublicKey : JsString → Option κ) (opts : ChainOptions),
      k.NoPath crypto getPublicKey opts d a → ¬ TransGen k.Linked a d

def childIds : Finset JsString := (k.links.map KeyLink.child).toFinset

variable {k}

theorem card_childIds_lt : k.childIds.card < k.links.length + 1 :=
  Nat.lt_succ_of_le ((List.toFinset_card_le _).trans_eq (List.length_map _))

/-! ### Downwards -/

def childrenOf (k : Keyring σ) (id : JsString) : List JsString := (k.getChildren id).map KeyLink.child

variable {parent child : JsString}

theorem mem_childrenOf_iff : child ∈ k.childrenOf parent ↔ k.Linked parent child := by
  simp [childrenOf, getChildren, Linked, and_assoc]

theorem enqueueChildren_eq (cur : JsString) (s : Breadth.State JsString) :
    k.enqueueChildren cur s = (k.childrenOf cur).foldl Breadth.enqueue s := by
  unfold enqueueChildren childrenOf getChildren
  induction k.links generalizing s with
  | nil => rfl
  | cons l links ih =>
      rw [List.foldl_cons, ih, List.filter_cons]
      by_cases hparent : l.parent = cur
      · simp only [hparent, true_and, decide_true, if_true, List.map_cons, List.foldl_cons]
        congr 1
        unfold Breadth.enqueue
        split_ifs <;> simp_all
      · simp [hparent]

theorem descendantsLoop_eq (n : ℕ) (s : Breadth.State JsString) :
    k.descendantsLoop n s = Breadth.loop k.childrenOf n s := by
  induction n generalizing s with
  | zero => rfl
  | succ n ih =>
      obtain ⟨seen, out, _ | ⟨cur, queue⟩⟩ := s
      · rfl
      · rw [descendantsLoop, Breadth.loop, ih, enqueueChildren_eq]

theorem childrenOf_bounded (id : JsString) : ∀ b ∈ k.childrenOf id, b ∈ k.childIds := by
  intro b hb
  obtain ⟨l, hl, _, rfl⟩ := mem_childrenOf_iff.mp hb
  exact List.mem_toFinset.mpr (List.mem_map_of_mem hl)

theorem mem_descendantsOf_iff {a d : JsString} : d ∈ k.descendantsOf a ↔ d ≠ a ∧ TransGen k.Linked a d := by
  have hspec := (Breadth.search_spec k.childrenOf a childrenOf_bounded card_childIds_lt).2 d
  rw [descendantsOf, descendantsLoop_eq]
  refine hspec.trans (and_congr_right fun hne => ?_)
  have hstep : (fun x y => y ∈ k.childrenOf x) = k.Linked := by
    funext x y
    exact propext mem_childrenOf_iff
  rw [hstep, reflTransGen_iff_eq_or_transGen, or_iff_right hne]

theorem descendantsLoop_of_le (a : JsString) {m : ℕ} (hm : k.links.length + 1 ≤ m) :
    k.descendantsLoop m ([a], [], [a]) = k.descendantsOf a := by
  rw [descendantsOf, descendantsLoop_eq, descendantsLoop_eq]
  exact (Breadth.search_spec k.childrenOf a childrenOf_bounded card_childIds_lt).1 m hm

/-! ### Upwards -/

theorem FirstLinked.mem_childIds (h : k.FirstLinked child parent) : child ∈ k.childIds := by
  obtain ⟨l, hl, _⟩ := h
  have hchild := List.find?_some hl
  exact List.mem_toFinset.mpr (of_decide_eq_true hchild ▸ List.mem_map_of_mem (List.mem_of_find?_eq_some hl))

theorem FirstLinked.unique {parent' : JsString} (h : k.FirstLinked child parent)
    (h' : k.FirstLinked child parent') : parent = parent' := by
  obtain ⟨l, hl, rfl⟩ := h
  obtain ⟨l', hl', rfl⟩ := h'
  obtain rfl := Option.some.inj (hl.symm.trans hl')
  rfl

theorem FirstLinked.linked (h : k.FirstLinked child parent) : k.Linked parent child := by
  obtain ⟨l, hl, hparent⟩ := h
  have hchild := List.find?_some hl
  exact ⟨l, List.mem_of_find?_eq_some hl, hparent, of_decide_eq_true hchild⟩

theorem chain_sound {n : ℕ} {visited : List JsString} {current : JsString} {l : KeyLink σ}
    (h : l ∈ k.chainLoop n visited current) : TransGen k.FirstLinked current l.parent := by
  induction n generalizing visited current with
  | zero => cases h
  | succ n ih =>
      rw [chainLoop] at h
      split_ifs at h with hvisited
      · cases h
      · cases hfind : k.links.find? (fun l => l.child = current) with
        | none =>
            rw [hfind] at h
            cases h
        | some first =>
            rw [hfind] at h
            have hfirst : k.FirstLinked current first.parent := ⟨first, hfind, rfl⟩
            rcases List.mem_cons.mp h with rfl | h
            · exact .single hfirst
            · exact (ih h).head hfirst

/-- With enough rounds left the loop of `getChain` ends by itself, and what it left behind, where it is and
what it passes on its way have their first links inside the chain. -/
theorem chain_spec {n : ℕ} {visited : List JsString} {current : JsString} (hnodup : visited.Nodup)
    (hvisited : ∀ c ∈ visited, c ∈ k.childIds) (hn : k.childIds.card < n + visited.length) (left : JsString → Prop)
    (hleft : ∀ c ∈ visited, ∀ w, k.FirstLinked c w → left w) :
    (∀ m, n ≤ m → k.chainLoop m visited current = k.chainLoop n visited current) ∧
    ∀ c, (c ∈ visited ∨ c = current ∨ c ∈ (k.chainLoop n visited current).map KeyLink.parent) →
      ∀ w, k.FirstLinked c w → left w ∨ w ∈ (k.chainLoop n visited current).map KeyLink.parent := by
  induction n generalizing visited current left with
  | zero =>
      have hle := Finset.card_le_card (fun c hc => hvisited c (List.mem_toFinset.mp hc) : visited.toFinset ⊆ k.childIds)
      rw [List.toFinset_card_of_nodup hnodup] at hle
      omega
  | succ n ih =>
      by_cases hcur : current ∈ visited
      · have hstop : ∀ m, k.chainLoop (m + 1) visited current = [] := fun m => by rw [chainLoop, if_pos hcur]
        refine ⟨fun m hm => ?_, ?_⟩
        · obtain ⟨m, rfl⟩ := Nat.exists_eq_succ_of_ne_zero (Nat.ne_zero_of_lt hm)
          exact (hstop m).trans (hstop n).symm
        · rw [hstop]
          rintro c (hc | rfl | hc) w hw
          · exact Or.inl (hleft c hc w hw)
          · exact Or.inl (hleft _ hcur w hw)
          · cases hc
      · cases hfind : k.links.find? (fun l => l.child = current) with
        | none =>
            have hstop : ∀ m, k.chainLoop (m + 1) visited current = [] := fun m => by
              rw [chainLoop, if_neg hcur, hfind]
            refine ⟨fun m hm => ?_, ?_⟩
            · obtain ⟨m, rfl⟩ := Nat.exists_eq_succ_of_ne_zero (Nat.ne_zero_of_lt hm)
              exact (hstop m).trans (hstop n).symm
            · rw [hstop]
              rintro c (hc | rfl | hc) w hw
              · exact Or.inl (hleft c hc w hw)
              · obtain ⟨l, hl, _⟩ := hw
                rw [hfind] at hl
                cases hl
              · cases hc
        | some first =>
            have hgo : ∀ m, k.chainLoop (m + 1) visited current =
                first :: k.chainLoop m (current :: visited) first.parent := fun m => by
              rw [chainLoop, if_neg hcur, hfind]
            have hfirst : k.FirstLinked current first.parent := ⟨first, hfind, rfl⟩
            have hnow : ∀ c ∈ current :: visited, ∀ w, k.FirstLinked c w → left w ∨ w = first.parent := by
              intro c hc w hw
              rcases List.mem_cons.mp hc with rfl | hc
              · exact Or.inr (hw.unique hfirst)
              · exact Or.inl (hleft c hc w hw)
            obtain ⟨hmore, hclosed⟩ := @ih (current :: visited) first.parent (hnodup.cons hcur) (fun c hc => by
              rcases List.mem_cons.mp hc with rfl | hc
              · exact hfirst.mem_childIds
              · exact hvisited c hc) (by rw [List.length_cons]; omega) (fun w => left w ∨ w = first.parent) hnow
            refine ⟨fun m hm => ?_, ?_⟩
            · obtain ⟨m, rfl⟩ := Nat.exists_eq_succ_of_ne_zero (Nat.ne_zero_of_lt hm)
              rw [Nat.succ_eq_add_one, hgo, hgo, hmore m (by omega)]
            · rw [hgo, List.map_cons]
              intro c hc w hw
              have hwhere : c ∈ current :: visited ∨ c = first.parent ∨
                  c ∈ (k.chainLoop n (current :: visited) first.parent).map KeyLink.parent := by
                rcases hc with hc | rfl | hc
                · exact Or.inl (List.mem_cons_of_mem _ hc)
                · exact Or.inl List.mem_cons_self
                · exact Or.inr (List.mem_cons.mp hc)
              rcases hclosed c hwhere w hw with (hw | rfl) | hw
              · exact Or.inl hw
              · exact Or.inr List.mem_cons_self
              · exact Or.inr (List.mem_cons_of_mem _ hw)

theorem getChain_spec (id : JsString) :
    (∀ m, k.links.length + 1 ≤ m → k.chainLoop m [] id = k.getChain id) ∧
    ∀ c, (c = id ∨ c ∈ (k.getChain id).map KeyLink.parent) → ∀ w, k.FirstLinked c w →
      w ∈ (k.getChain id).map KeyLink.parent := by
  obtain ⟨hmore, hclosed⟩ := @chain_spec σ k (k.links.length + 1) [] id List.nodup_nil
    (fun c hc => absurd hc List.not_mem_nil) card_childIds_lt (fun _ => False)
    (fun c hc => absurd hc List.not_mem_nil)
  exact ⟨hmore, fun c hc w hw => (hclosed c (Or.inr hc) w hw).resolve_left (fun h => h)⟩

theorem isDescendant_iff {a d : JsString} : k.isDescendant a d = true ↔ TransGen k.FirstLinked d a := by
  rw [isDescendant, List.any_eq_true]
  constructor
  · rintro ⟨l, hl, hparent⟩
    exact of_decide_eq_true hparent ▸ chain_sound hl
  · intro hreach
    have hmem : a ∈ (k.getChain d).map KeyLink.parent := by
      induction hreach with
      | single hfirst => exact (getChain_spec d).2 d (Or.inl rfl) _ hfirst
      | tail _ hfirst ih => exact (getChain_spec d).2 _ (Or.inr ih) _ hfirst
    obtain ⟨l, hl, rfl⟩ := List.mem_map.mp hmem
    exact ⟨l, hl, decide_eq_true rfl⟩

/-! ### The path search -/

theorem chainTo_found (toId : JsString) (chain : List (KeyLink σ)) :
    (chainTo toId chain).2 = chain.any fun l => l.parent = toId := by
  induction chain with
  | nil => rfl
  | cons l chain ih =>
      rw [chainTo, List.any_cons]
      by_cases hparent : l.parent = toId
      · simp [hparent]
      · simpa [hparent] using ih

theorem linkFault_ne_noPath (crypto : Crypto σ κ) (getPublicKey : JsString → Option κ) (opts : ChainOptions)
    (l : KeyLink σ) : k.linkFault crypto getPublicKey opts l ≠ some .noPath := by
  unfold linkFault
  split_ifs
  all_goals try exact fun h => by cases h
  split
  · split_ifs <;> exact fun h => by cases h
  · exact fun h => by cases h

theorem noPath_iff (crypto : Crypto σ κ) (getPublicKey : JsString → Option κ) (opts : ChainOptions)
    (d a : JsString) : k.NoPath crypto getPublicKey opts d a ↔ k.isDescendant a d = false := by
  unfold NoPath verifyCryptoChain
  rw [isDescendant, ← chainTo_found]
  cases hfound : (chainTo a (k.getChain d)).2 with
  | false => simp [hfound]
  | true =>
      simp only [hfound, Bool.not_true, Bool.false_eq_true, if_false]
      refine iff_of_false (fun hfault => ?_) (by decide)
      obtain ⟨l, _, hl⟩ := List.exists_of_findSome?_eq_some hfault
      obtain ⟨fault, hlink, heq⟩ := Option.map_eq_some_iff.mp hl
      have hfault : fault = .noPath := congrArg Prod.snd heq
      exact linkFault_ne_noPath crypto getPublicKey opts l (hlink.trans (congrArg some hfault))

/-- The loops end, and the descendants are what is reached along the links.  Going up agrees with that exactly if every
link leads from an identity that its child reaches by first links. -/
theorem ancestry_iff (k : Keyring σ) :
    (∀ id m, k.links.length + 1 ≤ m → k.chainLoop m [] id = k.getChain id ∧
      k.descendantsLoop m ([id], [], [id]) = k.descendantsOf id) ∧
    (∀ a d, d ∈ k.descendantsOf a ↔ d ≠ a ∧ TransGen k.Linked a d) ∧
    (k.Consistent ↔ ∀ l ∈ k.links, l.child ≠ l.parent → TransGen k.FirstLinked l.child l.parent) := by
  refine ⟨fun id m hm => ⟨(getChain_spec id).1 m hm, descendantsLoop_of_le id hm⟩, fun a d => mem_descendantsOf_iff, ?_⟩
  constructor
  · intro h l hl hne
    exact isDescendant_iff.mp ((h l.parent l.child hne).1.mpr (.single ⟨l, hl, rfl, rfl⟩))
  · intro h
    have hup : ∀ a d, TransGen k.Linked a d → d = a ∨ TransGen k.FirstLinked d a := by
      have hstep : ∀ a d, k.Linked a d → d = a ∨ TransGen k.FirstLinked d a := by
        rintro a d ⟨l, hl, rfl, rfl⟩
        exact or_iff_not_imp_left.mpr (h l hl)
      intro a d hreach
      induction hreach with
      | single hlink => exact hstep a _ hlink
      | @tail b c _ hlink ih =>
          rcases hstep b c hlink with rfl | hbc
          · exact ih
          · rcases ih with rfl | hab
            · exact Or.inr hbc
            · exact Or.inr (hbc.trans hab)
    have hdown : ∀ a d, TransGen k.FirstLinked d a → TransGen k.Linked a d := by
      intro a d hreach
      induction hreach with
      | single hfirst => exact .single hfirst.linked
      | tail _ hfirst ih => exact .head hfirst.linked ih
    intro a d hne
    have hboth : k.isDescendant a d = true ↔ TransGen k.Linked a d :=
      isDescendant_iff.trans ⟨hdown a d, fun hreach => (hup a d hreach).resolve_left hne⟩
    refine ⟨hboth, fun κ crypto getPublicKey opts hno hreach => ?_⟩
    rw [noPath_iff, hboth.mpr hreach] at hno
    cases hno

theorem zero_ne_nan : (0 : JsNumber) ≠ JsNumber.nan := by decide

def plainLink (parent child : JsString) : KeyLink Unit :=
  ⟨parent, child, js "device", none, none, ⟨0, zero_ne_nan⟩, none, none⟩

/-- `b` hangs under `a` and, by a later link, under `c`. -/
def secondParent : Keyring Unit :=
  ⟨[plainLink (js "a") (js "b"), plainLink (js "c") (js "b")], [], none, false, JsMap.empty⟩

/-- So `b` is a descendant of `c` to which no path is found. -/
theorem second_parent_lost : js "b" ∈ secondParent.descendantsOf (js "c") ∧
    secondParent.isDescendant (js "c") (js "b") = false ∧
    secondParent.NoPath (⟨fun _ _ _ => true⟩ : Crypto Unit Unit) (fun _ => some ()) ⟨true, false, 0⟩ (js "b") (js "c") ∧
    ¬ secondParent.Consistent := by
  have hlost : secondParent.isDescendant (js "c") (js "b") = false := by decide +kernel
  have hdesc : js "b" ∈ secondParent.descendantsOf (js "c") := by decide +kernel
  obtain ⟨hne, hreach⟩ := mem_descendantsOf_iff.mp hdesc
  have hno := (noPath_iff (⟨fun _ _ _ => true⟩ : Crypto Unit Unit) (fun _ => some ()) ⟨true, false, 0⟩ _ _).mpr hlost
  exact ⟨hdesc, hlost, hno, fun h => (h _ _ hne).2 Unit _ _ _ hno hreach⟩

end Keyring
end BrowserMesh.Core
