import BrowserMesh.Apps.AuditPayload
import BrowserMesh.Library.Merkle

/-! # Merkle roots and proofs of an audit log

* **Roots.**  `buildMerkleRoot` commits to the log up to the repetition of nodes in odd layers (`merkle_root_commits`).
* **Proofs.**  `verifyMerkleProof` accepts what `buildMerkleProof` builds.  It never looks at the index, at the length of
  the proof or at the length of what it hashes; for a digest and a proof as long as the tree is deep, whose positions are
  the bits of an index with that entry, it accepts the hash of the entry alone (`merkle_proofs`). -/

namespace BrowserMesh.Apps
open Js Merkle

/-- A SHA-256 digest. -/
abbrev Digest : Type := {b : Bytes // b.length = 32}

/-- The side on which a sibling stands. -/
inductive Position where
  | left | right
  deriving DecidableEq

structure ProofStep where
  hash : Bytes
  position : Position
  deriving DecidableEq

structure MerkleProof where
  root : Digest
  proof : List ProofStep
  index : ℤ
  deriving DecidableEq

/-- `RangeError`: the index, and the number of entries. -/
structure IndexOutOfRange where
  index : ℤ
  length : ℕ
  deriving DecidableEq

namespace AuditChain
variable (sha256 : Bytes → Digest) (numbers : NumberText)

/-- `hash` of an entry. -/
def entryHash (e : AuditEntry Json.Data) : Digest := sha256 (payloadBytes numbers e.toSignedFields)

/-- `concat` of two digests. -/
def concatDigests (left right : Digest) : Bytes := left.1 ++ right.1

/-- `sha256Bytes(concat(left, right))`. -/
def hashPair (left right : Digest) : Digest := sha256 (concatDigests left right)

def EMPTY_ROOT : Digest := ⟨List.replicate 32 0, rfl⟩

/-- `buildMerkleRoot`. -/
def buildMerkleRoot (entries : List (AuditEntry Json.Data)) : Digest :=
  if entries.length = 0 then EMPTY_ROOT
  else (collapse (hashPair sha256) entries.length (entries.map (entryHash sha256 numbers))).headD EMPTY_ROOT

/-- What the loop over a layer, from the node at `i` on, pushes to the proof. -/
def layerSteps (currentIndex : ℕ) : ℕ → List Digest → List ProofStep
  | _, [] => []
  | i, [left] =>
      if i = currentIndex ∨ i + 1 = currentIndex then
        [if currentIndex % 2 = 0 then ⟨left.1, .right⟩ else ⟨left.1, .left⟩]
      else []
  | i, left :: right :: rest =>
      (if i = currentIndex ∨ i + 1 = currentIndex then
        [if currentIndex % 2 = 0 then ⟨right.1, .right⟩ else ⟨left.1, .left⟩]
      else []) ++ layerSteps currentIndex (i + 2) rest

/-- The loop of `buildMerkleProof`: the last layer and the proof. -/
def proofLoop : ℕ → List Digest → List ProofStep → ℕ → List Digest × List ProofStep
  | 0, layer, proof, _ => (layer, proof)
  | fuel + 1, layer, proof, currentIndex =>
      if 1 < layer.length then
        proofLoop fuel (pairUp (hashPair sha256) layer) (proof ++ layerSteps currentIndex 0 layer) (currentIndex / 2)
      else (layer, proof)

/-- `buildMerkleProof`. -/
def buildMerkleProof (entries : List (AuditEntry Json.Data)) (index : ℤ) : Except IndexOutOfRange MerkleProof :=
  if index < 0 ∨ entries.length ≤ index then .error ⟨index, entries.length⟩
  else
    let r := proofLoop sha256 entries.length (entries.map (entryHash sha256 numbers)) [] index.toNat
    .ok ⟨r.1.headD EMPTY_ROOT, r.2, index⟩

end AuditChain

/-- `concat` of the current bytes and the sibling, in the order that the step says. -/
def ProofStep.concat (step : ProofStep) (current : Bytes) : Bytes :=
  match step.position with
  | .right => current ++ step.hash
  | .left => step.hash ++ current

namespace AuditChain
variable (sha256 : Bytes → Digest) (numbers : NumberText)

/-- One turn of the loop of `verifyMerkleProof`. -/
def climb (current : Bytes) (step : ProofStep) : Bytes := (sha256 (step.concat current)).1

/-- `verifyMerkleProof`. -/
def verifyMerkleProof (entryHash : Bytes) (proof : List ProofStep) (index : ℤ) (root : Bytes) : Bool :=
  decide ((proof.foldl (fun state step => (climb sha256 state.1 step, state.2 / 2)) (entryHash, index)).1 = root)

/-! ### The messages -/

/-- The tree over the payloads of the entries. -/
def payloadTree (entries : List (AuditEntry Json.Data)) : Option (BinTree Bytes) :=
  treeOf (entries.map fun e => payloadBytes numbers e.toSignedFields)

/-- All that is hashed for a root. -/
def rootMessages (entries : List (AuditEntry Json.Data)) : List Bytes :=
  ((payloadTree numbers entries).map (messages sha256 concatDigests)).getD []

/-- All that is hashed for a proof. -/
def proofMessages (current : Bytes) : List ProofStep → List Bytes
  | [] => []
  | step :: proof => step.concat current :: proofMessages (climb sha256 current step) proof

/-- No two of the messages have one digest. -/
def CollisionFree (S : List Bytes) : Prop := ∀ m ∈ S, ∀ m' ∈ S, sha256 m = sha256 m' → m = m'

variable {sha256 numbers}

theorem concatDigests_inj {a b c d : Digest} (h : concatDigests a b = concatDigests c d) : a = c ∧ b = d := by
  obtain ⟨hl, hr⟩ := List.append_inj h (a.2.trans c.2.symm)
  exact ⟨Subtype.ext hl, Subtype.ext hr⟩

/-- No payload is the concatenation of two digests. -/
theorem payload_ne_concat (e : SignedFields Json.Data) (a b : Digest) : payloadBytes numbers e ≠ concatDigests a b := by
  intro h
  have hlength := payloadBytes_length numbers e
  rw [h, concatDigests, List.length_append, a.2, b.2] at hlength
  omega

variable {entries : List (AuditEntry Json.Data)} {t : BinTree Bytes}

theorem buildMerkleRoot_of_tree (h : payloadTree numbers entries = some t) :
    buildMerkleRoot sha256 numbers entries = digest sha256 concatDigests t := by
  have hne : entries ≠ [] := by
    rintro rfl
    cases h
  have hroot : root? (hashPair sha256) (entries.map (entryHash sha256 numbers)) =
      some (digest sha256 concatDigests t) := by
    have hfold := root?_eq_treeOf sha256 (hashPair sha256) (entries.map fun e => payloadBytes numbers e.toSignedFields)
    rw [List.map_map] at hfold
    rw [payloadTree] at h
    rw [h] at hfold
    exact hfold
  rw [root?, List.length_map] at hroot
  rw [buildMerkleRoot, if_neg fun h => hne (List.length_eq_zero_iff.mp h), List.headD_eq_head?_getD, hroot,
    Option.getD_some]

variable (numbers) in
theorem exists_payloadTree (h : entries ≠ []) :
    ∃ t, payloadTree numbers entries = some t :=
  exists_treeOf fun hnil => h (List.map_eq_nil_iff.mp hnil)

theorem leaf_ne_concat (h : payloadTree numbers entries = some t) : ∀ m ∈ t.leaves, ∀ a b, m ≠ concatDigests a b := by
  intro m hm a b
  rw [← filled_eq_leaves h] at hm
  obtain ⟨e, -, rfl⟩ := List.mem_map.mp ((prefix_filled _).2 m hm)
  exact payload_ne_concat _ a b

theorem mem_rootMessages
    (h : payloadTree numbers entries = some t) {m : Bytes} (hm : m ∈ messages sha256 concatDigests t) :
    m ∈ rootMessages sha256 numbers entries := by
  rw [rootMessages, h]
  exact hm

/-! ### What is built is accepted -/

variable {currentIndex : ℕ}

theorem layerSteps_of_lt {i : ℕ} (h : currentIndex < i) (layer : List Digest) :
    layerSteps currentIndex i layer = [] := by
  induction layer using pairUp.induct generalizing i with
  | case1 => rfl
  | case2 left => exact if_neg (by omega)
  | case3 left right rest ih =>
      rw [layerSteps, if_neg (by omega), ih (by omega), List.nil_append]

variable (sha256) in
/-- The step pushed for a layer leads from a node to the one above it. -/
theorem climb_layerSteps {i : ℕ} {layer : List Digest} (heven : i % 2 = 0) (hi : i ≤ currentIndex)
    {current : Digest} (hcurrent : layer[currentIndex - i]? = some current) :
    ∃ step above, layerSteps currentIndex i layer = [step] ∧
      (pairUp (hashPair sha256) layer)[(currentIndex - i) / 2]? = some above ∧
      climb sha256 current.1 step = above.1 := by
  induction layer using pairUp.induct generalizing i with
  | case1 => cases hcurrent
  | case2 left =>
      have hlt := (List.getElem?_eq_some_iff.mp hcurrent).1
      rw [List.length_singleton] at hlt
      obtain rfl : currentIndex = i := by omega
      rw [Nat.sub_self] at hcurrent
      obtain rfl := Option.some.inj hcurrent
      refine ⟨⟨left.1, .right⟩, hashPair sha256 left left, ?_, by rw [Nat.sub_self]; rfl, rfl⟩
      rw [layerSteps, if_pos (Or.inl rfl), if_pos heven]
  | case3 left right rest ih =>
      by_cases hnear : currentIndex - i < 2
      · rw [layerSteps, if_pos (by omega), layerSteps_of_lt (by omega), List.append_nil]
        refine ⟨_, hashPair sha256 left right, rfl, ?_, ?_⟩
        · rw [show (currentIndex - i) / 2 = 0 by omega]
          rfl
        · split_ifs with hparity
          · rw [show currentIndex - i = 0 by omega] at hcurrent
            obtain rfl := Option.some.inj hcurrent
            rfl
          · rw [show currentIndex - i = 1 by omega] at hcurrent
            obtain rfl := Option.some.inj hcurrent
            rfl
      · have hshift : currentIndex - i = currentIndex - (i + 2) + 2 := by omega
        rw [hshift] at hcurrent
        obtain ⟨step, above, hstep, habove, hclimb⟩ := ih (by omega) (by omega) hcurrent
        rw [layerSteps, if_neg (by omega), List.nil_append]
        refine ⟨step, above, hstep, ?_, hclimb⟩
        rw [show (currentIndex - i) / 2 = (currentIndex - (i + 2)) / 2 + 1 by omega]
        exact habove

variable (sha256) in
/-- The loop adds the way from a node to the root. -/
theorem proofLoop_spec {fuel : ℕ} {layer : List Digest} (proof : List ProofStep)
    (hfuel : layer.length ≤ fuel + 1) {current : Digest} (hcurrent : layer[currentIndex]? = some current) :
    ∃ steps root, proofLoop sha256 fuel layer proof currentIndex = ([root], proof ++ steps) ∧
      collapse (hashPair sha256) fuel layer = [root] ∧ steps.foldl (climb sha256) current.1 = root.1 := by
  have hdone : ¬ 1 < layer.length → layer = [current] := by
    intro hshort
    have hlt := (List.getElem?_eq_some_iff.mp hcurrent).1
    obtain ⟨a, rfl⟩ := List.length_eq_one_iff.mp (show layer.length = 1 by omega)
    rw [List.length_singleton] at hlt
    rw [show currentIndex = 0 by omega] at hcurrent
    rw [Option.some.inj hcurrent]
  induction fuel generalizing layer proof currentIndex current with
  | zero =>
      have hone := hdone (by omega)
      exact ⟨[], current, by rw [hone, proofLoop, List.append_nil], by rw [hone, collapse], rfl⟩
  | succ fuel ih =>
      by_cases hlong : 1 < layer.length
      · obtain ⟨step, above, hstep, habove, hclimb⟩ := climb_layerSteps sha256 (i := 0) rfl (Nat.zero_le _)
          (by rw [Nat.sub_zero]; exact hcurrent)
        rw [Nat.sub_zero] at habove
        have hlength := length_pairUp (hashPair sha256) layer
        have hdone' : ¬ 1 < (pairUp (hashPair sha256) layer).length → pairUp (hashPair sha256) layer = [above] := by
          intro hshort
          have hlt := (List.getElem?_eq_some_iff.mp habove).1
          obtain ⟨a, ha⟩ := List.length_eq_one_iff.mp (show (pairUp (hashPair sha256) layer).length = 1 by omega)
          rw [ha, List.length_singleton] at hlt
          rw [ha, show currentIndex / 2 = 0 by omega] at habove
          rw [ha, Option.some.inj habove]
        obtain ⟨steps, root, hloop, hcollapse, hroot⟩ := ih (proof ++ [step]) (by omega) habove hdone'
        refine ⟨step :: steps, root, ?_, ?_, ?_⟩
        · rw [proofLoop, if_pos hlong, hstep, hloop, List.append_assoc, List.singleton_append]
        · rw [collapse_pairUp hlong, hcollapse]
        · rw [List.foldl_cons, hclimb, hroot]
      · have hone := hdone hlong
        refine ⟨[], current, ?_, ?_, rfl⟩
        · rw [proofLoop, if_neg hlong, hone, List.append_nil]
        · rw [collapse, if_neg hlong, hone]

theorem verifyMerkleProof_eq (entryHash : Bytes) (proof : List ProofStep) (index : ℤ) (root : Bytes) :
    verifyMerkleProof sha256 entryHash proof index root = decide (proof.foldl (climb sha256) entryHash = root) := by
  have hfold : ∀ (proof : List ProofStep) (state : Bytes × ℤ),
      (proof.foldl (fun state step => (climb sha256 state.1 step, state.2 / 2)) state).1 =
        proof.foldl (climb sha256) state.1 := by
    intro proof
    induction proof with
    | nil => exact fun _ => rfl
    | cons step proof ih => exact fun state => ih _
  rw [verifyMerkleProof, hfold]

/-- A proof that is built has the root of the log and is accepted. -/
theorem buildMerkleProof_accepted {k : ℕ} {e : AuditEntry Json.Data} (he : entries[k]? = some e) :
    ∃ proof, buildMerkleProof sha256 numbers entries k = .ok ⟨buildMerkleRoot sha256 numbers entries, proof, k⟩ ∧
      verifyMerkleProof sha256 (entryHash sha256 numbers e).1 proof k (buildMerkleRoot sha256 numbers entries).1 =
        true := by
  obtain ⟨hk, -⟩ := List.getElem?_eq_some_iff.mp he
  have hcurrent : (entries.map (entryHash sha256 numbers))[k]? = some (entryHash sha256 numbers e) := by
    rw [List.getElem?_map, he, Option.map_some]
  obtain ⟨steps, root, hloop, hcollapse, hclimb⟩ := proofLoop_spec sha256 []
    (show (entries.map (entryHash sha256 numbers)).length ≤ entries.length + 1 by rw [List.length_map]; omega) hcurrent
  have hroot : buildMerkleRoot sha256 numbers entries = root := by
    rw [buildMerkleRoot, if_neg (by omega), hcollapse, List.headD_cons]
  refine ⟨steps, ?_, ?_⟩
  · rw [buildMerkleProof, if_neg (by omega), Int.toNat_natCast, hloop, hroot, List.nil_append]
    rfl
  · rw [verifyMerkleProof_eq, hroot, decide_eq_true hclimb]

/-! ### What is accepted -/

def entryHashes (sha256 : Bytes → Digest) (numbers : NumberText) (entries : List (AuditEntry Json.Data)) : List Digest :=
  entries.map (entryHash sha256 numbers)

/-- The leaf that the sides of the siblings lead to: the first of them is its lowest bit. -/
def leafIndex : List ProofStep → ℕ
  | [] => 0
  | step :: proof => (if step.position = .left then 1 else 0) + 2 * leafIndex proof

theorem climb_cons_reverse (h : Bytes) (step : ProofStep) (steps : List ProofStep) :
    (step :: steps).reverse.foldl (climb sha256) h =
      (sha256 (step.concat (steps.reverse.foldl (climb sha256) h))).1 := by
  rw [List.reverse_cons, List.foldl_append]
  rfl

theorem leafIndex_append (proof : List ProofStep) (step : ProofStep) :
    leafIndex (proof ++ [step]) = leafIndex proof + if step.position = .left then 2 ^ proof.length else 0 := by
  induction proof with
  | nil => simp [leafIndex]
  | cons s proof ih =>
      rw [List.cons_append, leafIndex, ih, leafIndex, List.length_cons, pow_succ]
      split_ifs
      all_goals omega

theorem proofMessages_append (h : Bytes) (proof : List ProofStep) (step : ProofStep) :
    proofMessages sha256 h (proof ++ [step]) =
      proofMessages sha256 h proof ++ [step.concat (proof.foldl (climb sha256) h)] := by
  induction proof generalizing h with
  | nil => rfl
  | cons s proof ih => simp only [List.cons_append, proofMessages, ih, List.foldl_cons]

theorem concat_eq_concatDigests_iff {step : ProofStep} {c left right : Digest} :
    step.concat c.1 = concatDigests left right ↔
      (step.position = .right ∧ step.hash = right.1 ∧ c = left) ∨
        (step.position = .left ∧ step.hash = left.1 ∧ c = right) := by
  obtain ⟨hash, position⟩ := step
  cases position with
  | right =>
      constructor
      · intro h
        obtain ⟨hl, hr⟩ := List.append_inj h (c.2.trans left.2.symm)
        exact Or.inl ⟨rfl, hr, Subtype.ext hl⟩
      · rintro (⟨-, rfl, rfl⟩ | ⟨h, -, -⟩)
        · rfl
        · cases h
  | left =>
      constructor
      · intro h
        obtain ⟨hl, hr⟩ := List.append_inj' h (c.2.trans right.2.symm)
        exact Or.inr ⟨rfl, hl, Subtype.ext hr⟩
      · rintro (⟨h, -, -⟩ | ⟨-, rfl, rfl⟩)
        · cases h
        · rfl

variable (sha256) in
theorem exists_climb (c : Digest) (steps : List ProofStep) :
    ∃ d : Digest, steps.reverse.foldl (climb sha256) c.1 = d.1 := by
  cases steps with
  | nil => exact ⟨c, rfl⟩
  | cons step steps => exact ⟨_, climb_cons_reverse _ step steps⟩

/-- The subtree that no more steps than the tree is deep lead to from the root. -/
theorem exists_subtree {S : List Bytes} (hcf : CollisionFree sha256 S) {n : ℕ} (hperfect : t.Perfect n)
    {steps : List ProofStep} (hlength : steps.length ≤ n) {c : Digest} (ht : messages sha256 concatDigests t ⊆ S)
    (hproof : proofMessages sha256 c.1 steps.reverse ⊆ S)
    (hroot : steps.reverse.foldl (climb sha256) c.1 = (digest sha256 concatDigests t).1) :
    ∃ s : BinTree Bytes, c = digest sha256 concatDigests s ∧ s.Perfect (n - steps.length) ∧
      messages sha256 concatDigests s ⊆ messages sha256 concatDigests t ∧
      (steps.length = n → t.leaves[leafIndex steps.reverse]? = some (message sha256 concatDigests s)) := by
  induction t generalizing steps n with
  | leaf m =>
      cases n with
      | succ n => cases hperfect
      | zero =>
          obtain rfl := List.length_eq_zero_iff.mp (Nat.le_zero.mp hlength)
          exact ⟨.leaf m, Subtype.ext hroot, trivial, List.Subset.refl _, fun _ => rfl⟩
  | node left right hleft hright =>
      cases n with
      | zero => cases hperfect
      | succ n =>
          cases steps with
          | nil => exact ⟨.node left right, Subtype.ext hroot, hperfect, List.Subset.refl _, fun h => by cases h⟩
          | cons step steps =>
              rw [List.reverse_cons, proofMessages_append, List.append_subset, List.cons_subset] at hproof
              have hstep : step.concat (steps.reverse.foldl (climb sha256) c.1) =
                  concatDigests (digest sha256 concatDigests left) (digest sha256 concatDigests right) := by
                rw [climb_cons_reverse] at hroot
                exact hcf _ hproof.2.1 _ (ht List.mem_cons_self) (Subtype.ext hroot)
              rw [List.length_cons] at hlength ⊢
              rw [List.reverse_cons, leafIndex_append, List.length_reverse, Nat.add_sub_add_right]
              rw [messages, List.cons_subset, List.append_subset] at ht
              obtain ⟨below, hbelow⟩ := exists_climb sha256 c steps
              rw [hbelow, concat_eq_concatDigests_iff] at hstep
              rcases hstep with ⟨hposition, -, rfl⟩ | ⟨hposition, -, rfl⟩
              · obtain ⟨s, hs, hdeep, hmessages, hleaf⟩ := hleft hperfect.1 (by omega) ht.2.1 hproof.1 hbelow
                refine ⟨s, hs, hdeep, ?_, fun h => ?_⟩
                · exact List.subset_cons_of_subset _ (List.subset_append_of_subset_left _ hmessages)
                · rw [hposition, if_neg (by decide), Nat.add_zero, BinTree.leaves]
                  exact List.getElem?_append_left (List.getElem?_eq_some_iff.mp (hleaf (by omega))).1 ▸ hleaf (by omega)
              · obtain ⟨s, hs, hdeep, hmessages, hleaf⟩ := hright hperfect.2 (by omega) ht.2.2 hproof.1 hbelow
                refine ⟨s, hs, hdeep, ?_, fun h => ?_⟩
                · exact List.subset_cons_of_subset _ (List.subset_append_of_subset_right _ hmessages)
                · obtain rfl : steps.length = n := by omega
                  rw [hposition, if_pos rfl, BinTree.leaves, List.getElem?_append_right, hperfect.1.length_leaves,
                    Nat.add_sub_cancel]
                  · exact hleaf rfl
                  · rw [hperfect.1.length_leaves]
                    exact Nat.le_add_left _ _

/-- The index is one of the log, and the bytes are the hash of its entry. -/
def Proven (sha256 : Bytes → Digest) (numbers : NumberText) (entries : List (AuditEntry Json.Data)) (index : ℤ)
    (h : Bytes) : Prop :=
  ∃ (k : ℕ) (e : AuditEntry Json.Data), index = k ∧ entries[k]? = some e ∧ h = (entryHash sha256 numbers e).1

/-- The bytes are a digest, the proof is as long as the tree over the log is deep, and the sides of its siblings are the
bits of the index, or lead to another place at which the log, filled up, has the same entry hash. -/
def Fits (sha256 : Bytes → Digest) (numbers : NumberText) (entries : List (AuditEntry Json.Data)) (h : Bytes)
    (proof : List ProofStep) (index : ℤ) : Prop :=
  h.length = 32 ∧ proof.length = Nat.clog 2 entries.length ∧ 0 ≤ index ∧ index < entries.length ∧
    (filled (entryHashes sha256 numbers entries))[leafIndex proof]? = (entryHashes sha256 numbers entries)[index.toNat]?

theorem proven_iff {index : ℤ} {c : Digest} :
    Proven sha256 numbers entries index c.1 ↔
      0 ≤ index ∧ index < entries.length ∧ (entryHashes sha256 numbers entries)[index.toNat]? = some c := by
  constructor
  · rintro ⟨k, e, rfl, he, hc⟩
    obtain ⟨hk, -⟩ := List.getElem?_eq_some_iff.mp he
    refine ⟨Int.natCast_nonneg k, by exact_mod_cast hk, ?_⟩
    rw [entryHashes, List.getElem?_map, Int.toNat_natCast, he, Option.map_some, Subtype.ext hc]
  · rintro ⟨hnonneg, -, hc⟩
    rw [entryHashes, List.getElem?_map] at hc
    obtain ⟨e, he, rfl⟩ := Option.map_eq_some_iff.mp hc
    exact ⟨index.toNat, e, (Int.toNat_of_nonneg hnonneg).symm, he, rfl⟩

/-- Among the digests that are accepted with a proof no longer than the tree is deep, those that fit are those that are
proven. -/
theorem fits_iff_proven (hne : entries ≠ []) {c : Digest} {proof : List ProofStep}
    {index : ℤ} (hcf : CollisionFree sha256 (rootMessages sha256 numbers entries ++ proofMessages sha256 c.1 proof))
    (hlength : proof.length ≤ Nat.clog 2 entries.length)
    (haccepted : verifyMerkleProof sha256 c.1 proof index (buildMerkleRoot sha256 numbers entries).1 = true) :
    Fits sha256 numbers entries c.1 proof index ↔ Proven sha256 numbers entries index c.1 := by
  obtain ⟨t, ht⟩ := exists_payloadTree numbers hne
  have hperfect := perfect_of_treeOf ht
  rw [List.length_map] at hperfect
  have hmessages : messages sha256 concatDigests t ⊆ rootMessages sha256 numbers entries :=
    fun m hm => mem_rootMessages ht hm
  rw [verifyMerkleProof_eq, decide_eq_true_iff, buildMerkleRoot_of_tree ht, ← List.reverse_reverse proof] at haccepted
  obtain ⟨s, rfl, hdeep, hbelow, hleaf⟩ := exists_subtree hcf hperfect (by rwa [List.length_reverse])
    (List.subset_append_of_subset_left _ hmessages)
    (by rw [List.reverse_reverse]; exact List.subset_append_right _ _) haccepted
  rw [List.length_reverse, List.reverse_reverse] at hleaf
  rw [List.length_reverse] at hdeep
  rcases hlength.lt_or_eq with hshort | hfull
  · -- A proof that is too short ends at an inner node, whose message is no payload.
    refine iff_of_false (fun hfits => hshort.ne hfits.2.1) ?_
    rintro ⟨k, e, -, he, hsame⟩
    have hpayload : payloadBytes numbers e.toSignedFields ∈ rootMessages sha256 numbers entries := by
      refine hmessages (leaves_subset_messages _ _ t ?_)
      rw [← filled_eq_leaves ht]
      exact (prefix_filled _).1.subset (List.mem_map_of_mem (List.mem_of_getElem? he))
    cases s with
    | leaf m =>
        rw [show Nat.clog 2 entries.length - proof.length =
          (Nat.clog 2 entries.length - proof.length - 1) + 1 by omega] at hdeep
        exact hdeep
    | node left right =>
        refine @payload_ne_concat numbers e.toSignedFields _ _ (hcf _ ?_ _ ?_ (Subtype.ext hsame.symm))
        · exact List.mem_append_left _ hpayload
        · exact List.mem_append_left _ (hmessages (hbelow List.mem_cons_self))
  · have hfilled : (filled (entryHashes sha256 numbers entries))[leafIndex proof]? =
        some (digest sha256 concatDigests s) := by
      have hmap : entryHashes sha256 numbers entries =
          (entries.map fun e => payloadBytes numbers e.toSignedFields).map sha256 := by
        rw [List.map_map]
        rfl
      rw [hmap, filled_map, List.getElem?_map, filled_eq_leaves ht, hleaf hfull, digest_eq_hash]
      rfl
    rw [Fits, proven_iff, hfilled]
    constructor
    · exact fun h => ⟨h.2.2.1, h.2.2.2.1, h.2.2.2.2.symm⟩
    · exact fun h => ⟨(digest sha256 concatDigests s).2, hfull, h.1, h.2.1, h.2.2.symm⟩

/-- Every proof that is built is accepted; what is accepted and fits the index is the hash of the entry there, and
nothing else that is accepted with a proof no longer than the tree is deep is. -/
theorem merkle_proofs (sha256 : Bytes → Digest) (numbers : NumberText) (entries : List (AuditEntry Json.Data))
    (hne : entries ≠ []) (h : Bytes) (proof : List ProofStep) (index : ℤ)
    (hcf : CollisionFree sha256 (rootMessages sha256 numbers entries ++ proofMessages sha256 h proof)) :
    (∀ (k : ℕ) (e : AuditEntry Json.Data), entries[k]? = some e →
      ∃ built, buildMerkleProof sha256 numbers entries k = .ok ⟨buildMerkleRoot sha256 numbers entries, built, k⟩ ∧
        verifyMerkleProof sha256 (entryHash sha256 numbers e).1 built k
          (buildMerkleRoot sha256 numbers entries).1 = true) ∧
    (Fits sha256 numbers entries h proof index →
      verifyMerkleProof sha256 h proof index (buildMerkleRoot sha256 numbers entries).1 = true →
        Proven sha256 numbers entries index h) ∧
    (proof.length ≤ Nat.clog 2 entries.length → ¬ Fits sha256 numbers entries h proof index →
      verifyMerkleProof sha256 h proof index (buildMerkleRoot sha256 numbers entries).1 = true →
        ¬ Proven sha256 numbers entries index h) := by
  refine ⟨fun k e he => buildMerkleProof_accepted he, fun hfits haccepted => ?_, fun hlength hfits haccepted hproven => ?_⟩
  · obtain ⟨c, rfl⟩ : ∃ c : Digest, h = c.1 := ⟨⟨h, hfits.1⟩, rfl⟩
    exact (fits_iff_proven hne hcf hfits.2.1.le haccepted).mp hfits
  · obtain ⟨k, e, -, -, rfl⟩ := id hproven
    exact hfits ((fits_iff_proven hne hcf hlength haccepted).mpr hproven)

/-! ### What a root commits to -/

/-- The root of a list is that of the tree over its hashes. -/
theorem buildMerkleRoot_eq (entries : List (AuditEntry Json.Data)) :
    buildMerkleRoot sha256 numbers entries =
      ((treeOf (entryHashes sha256 numbers entries)).map (BinTree.fold id (hashPair sha256))).getD EMPTY_ROOT := by
  have hfold := root?_eq_treeOf id (hashPair sha256) (entryHashes sha256 numbers entries)
  rw [List.map_id] at hfold
  rw [← hfold, root?, buildMerkleRoot, entryHashes, List.length_map, List.headD_eq_head?_getD]
  split_ifs with hempty
  · rw [List.length_eq_zero_iff.mp hempty]
    rfl
  · rfl

/-- The tree over the hashes is that over the payloads, hashed leaf by leaf. -/
theorem treeOf_entryHashes (entries : List (AuditEntry Json.Data)) :
    treeOf (entryHashes sha256 numbers entries) =
      (payloadTree numbers entries).map (BinTree.fold (fun m => .leaf (sha256 m)) .node) := by
  have hfold := root?_eq_treeOf (fun m => BinTree.leaf (sha256 m)) BinTree.node
    (entries.map fun e => payloadBytes numbers e.toSignedFields)
  rw [List.map_map] at hfold
  rw [treeOf, entryHashes, List.map_map]
  exact hfold

/-- Two logs have one root exactly if their hashes fill up to one list; logs of one length, and logs without repeated
entries, have one root only if they have the same hashes. -/
theorem merkle_root_commits (sha256 : Bytes → Digest) (numbers : NumberText) (xs ys : List (AuditEntry Json.Data))
    (hcf : CollisionFree sha256 (rootMessages sha256 numbers xs ++ rootMessages sha256 numbers ys))
    (hzero : ∀ m ∈ rootMessages sha256 numbers xs ++ rootMessages sha256 numbers ys, sha256 m ≠ EMPTY_ROOT) :
    (buildMerkleRoot sha256 numbers xs = buildMerkleRoot sha256 numbers ys ↔
      filled (entryHashes sha256 numbers xs) = filled (entryHashes sha256 numbers ys)) ∧
    (xs.length = ys.length → buildMerkleRoot sha256 numbers xs = buildMerkleRoot sha256 numbers ys →
      entryHashes sha256 numbers xs = entryHashes sha256 numbers ys) ∧
    ((entryHashes sha256 numbers xs).Nodup → (entryHashes sha256 numbers ys).Nodup →
      buildMerkleRoot sha256 numbers xs = buildMerkleRoot sha256 numbers ys →
      entryHashes sha256 numbers xs = entryHashes sha256 numbers ys) := by
  have hempty : ∀ {entries : List (AuditEntry Json.Data)} {t : BinTree Bytes},
      (∀ m ∈ rootMessages sha256 numbers entries, sha256 m ≠ EMPTY_ROOT) →
      payloadTree numbers entries = some t → buildMerkleRoot sha256 numbers entries ≠ EMPTY_ROOT := by
    intro entries t hzero ht
    rw [buildMerkleRoot_of_tree ht, digest_eq_hash]
    exact hzero _ (mem_rootMessages ht (message_mem _ _ _))
  have htree : buildMerkleRoot sha256 numbers xs = buildMerkleRoot sha256 numbers ys →
      payloadTree numbers xs = payloadTree numbers ys := by
    intro hroot
    cases hx : payloadTree numbers xs with
    | none =>
        cases hy : payloadTree numbers ys with
        | none => rfl
        | some t =>
            have hnil : xs = [] := by
              by_contra hne
              obtain ⟨t', ht'⟩ := exists_payloadTree numbers hne
              rw [hx] at ht'
              cases ht'
            rw [hnil] at hroot
            exact absurd hroot.symm (hempty (fun m hm => hzero m (List.mem_append_right _ hm)) hy)
    | some t =>
        cases hy : payloadTree numbers ys with
        | none =>
            have hnil : ys = [] := by
              by_contra hne
              obtain ⟨t', ht'⟩ := exists_payloadTree numbers hne
              rw [hy] at ht'
              cases ht'
            rw [hnil] at hroot
            exact absurd hroot (hempty (fun m hm => hzero m (List.mem_append_left _ hm)) hx)
        | some t' =>
            rw [buildMerkleRoot_of_tree hx, buildMerkleRoot_of_tree hy] at hroot
            refine congrArg some (digest_inj (S := {m | m ∈ rootMessages sha256 numbers xs ++ rootMessages sha256 numbers ys})
              (fun m hm m' hm' => hcf m hm m' hm') concatDigests_inj ?_ ?_ (leaf_ne_concat hx) (leaf_ne_concat hy) hroot)
            · exact fun m hm => List.mem_append_left _ (mem_rootMessages hx hm)
            · exact fun m hm => List.mem_append_right _ (mem_rootMessages hy hm)
  have hiff : buildMerkleRoot sha256 numbers xs = buildMerkleRoot sha256 numbers ys ↔
      filled (entryHashes sha256 numbers xs) = filled (entryHashes sha256 numbers ys) := by
    rw [← treeOf_eq_iff]
    constructor
    · intro hroot
      rw [treeOf_entryHashes, treeOf_entryHashes, htree hroot]
    · intro hsame
      rw [buildMerkleRoot_eq, buildMerkleRoot_eq, hsame]
  refine ⟨hiff, fun hlen hroot => ?_, fun hx hy hroot => filled_inj_of_nodup hx hy (hiff.mp hroot)⟩
  refine filled_inj_of_length ?_ (hiff.mp hroot)
  rw [entryHashes, entryHashes, List.length_map, List.length_map, hlen]

/-! ### Small logs -/

instance (S : List Bytes) : Decidable (CollisionFree sha256 S) :=
  inferInstanceAs (Decidable (∀ m ∈ S, ∀ m' ∈ S, sha256 m = sha256 m' → m = m'))

/-- A digest that tells the messages of small logs apart. -/
def checksum (m : Bytes) : Digest :=
  let n := m.foldl (fun acc b => (acc * 257 + b.val + 1) % 2 ^ 64) 0
  ⟨(List.range 32).map fun i => Fin.ofNat _ (n / 256 ^ (i % 8)), by simp⟩

def smallEntry (sequence : ℕ) : AuditEntry Json.Data :=
  ⟨⟨sequence, js "A", js "put", ⟨.null, rfl⟩, List.replicate 32 0, .ofNat 0⟩, none⟩

def smallLog : List (AuditEntry Json.Data) := [smallEntry 0, smallEntry 1, smallEntry 2]

/-- The proof of the last entry: it stands beside itself, and the two before it beside them. -/
def smallProof : List ProofStep :=
  [⟨(entryHash checksum unitNumbers (smallEntry 2)).1, .right⟩,
    ⟨(hashPair checksum (entryHash checksum unitNumbers (smallEntry 0)) (entryHash checksum unitNumbers (smallEntry 1))).1,
      .left⟩]

/-- The proof of the last entry is accepted for its index and for that before it, and proves it at the first alone. -/
theorem merkle_proofs_small :
    (∃ built, buildMerkleProof checksum unitNumbers smallLog 2 =
        .ok ⟨buildMerkleRoot checksum unitNumbers smallLog, built, 2⟩ ∧
      verifyMerkleProof checksum (entryHash checksum unitNumbers (smallEntry 2)).1 built 2
        (buildMerkleRoot checksum unitNumbers smallLog).1 = true) ∧
    Proven checksum unitNumbers smallLog 2 (entryHash checksum unitNumbers (smallEntry 2)).1 ∧
    ¬ Proven checksum unitNumbers smallLog 1 (entryHash checksum unitNumbers (smallEntry 2)).1 := by
  have hall := fun index => merkle_proofs checksum unitNumbers smallLog (List.cons_ne_nil _ _)
    (entryHash checksum unitNumbers (smallEntry 2)).1 smallProof index (by decide +kernel)
  have hdeep : smallProof.length = Nat.clog 2 smallLog.length := by decide +kernel
  refine ⟨(hall 2).1 2 _ rfl, (hall 2).2.1 ?_ (by decide +kernel), (hall 1).2.2 hdeep.le ?_ (by decide +kernel)⟩
  · exact ⟨(entryHash checksum unitNumbers (smallEntry 2)).2, hdeep, by decide, by decide, by decide +kernel⟩
  · exact fun hfits => absurd hfits.2.2.2.2 (by decide +kernel)

/-- The proof of the first of two entries is accepted for the second index. -/
theorem merkle_proof_of_another_index :
    ¬ ∀ (sha256 : Bytes → Digest) (numbers : NumberText) (entries : List (AuditEntry Json.Data)), entries ≠ [] →
      ∀ (h : Bytes) (proof : List ProofStep) (index : ℤ),
      CollisionFree sha256 (rootMessages sha256 numbers entries ++ proofMessages sha256 h proof) →
      verifyMerkleProof sha256 h proof index (buildMerkleRoot sha256 numbers entries).1 = true →
      Proven sha256 numbers entries index h := by
  intro hall
  obtain ⟨k, e, hk, he, hhash⟩ := hall checksum unitNumbers [smallEntry 0, smallEntry 1] (List.cons_ne_nil _ _)
    (entryHash checksum unitNumbers (smallEntry 0)).1
    [⟨(entryHash checksum unitNumbers (smallEntry 1)).1, .right⟩] 1 (by decide +kernel) (by decide +kernel)
  obtain rfl : k = 1 := by omega
  obtain rfl := Option.some.inj he
  exact absurd hhash (by decide +kernel)

theorem merkle_root_commits_small :
    buildMerkleRoot checksum unitNumbers smallLog = buildMerkleRoot checksum unitNumbers (smallLog ++ [smallEntry 2]) :=
  (merkle_root_commits checksum unitNumbers smallLog (smallLog ++ [smallEntry 2]) (by decide +kernel)
    (by decide +kernel)).1.mpr (by decide +kernel)

/-- A log of three entries has the root of the log in which the third is repeated. -/
theorem merkle_root_of_longer_log :
    ¬ ∀ (sha256 : Bytes → Digest) (numbers : NumberText) (xs ys : List (AuditEntry Json.Data)),
      CollisionFree sha256 (rootMessages sha256 numbers xs ++ rootMessages sha256 numbers ys) →
      buildMerkleRoot sha256 numbers xs = buildMerkleRoot sha256 numbers ys →
      entryHashes sha256 numbers xs = entryHashes sha256 numbers ys := by
  intro hall
  have hsame := hall checksum unitNumbers [smallEntry 0, smallEntry 1, smallEntry 2]
    [smallEntry 0, smallEntry 1, smallEntry 2, smallEntry 2] (by decide +kernel) (by decide +kernel)
  exact absurd (congrArg List.length hsame) (by decide)

end AuditChain
end BrowserMesh.Apps
