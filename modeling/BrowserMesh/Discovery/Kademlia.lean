import BrowserMesh.Js.Text

/-! # The routing table of the DHT

* `xorDistance` and `compareDistance`: distances of ids, place by place; a shorter id counts as padded with zeros.
* `highestBitIndex`: eight for each place before the first difference, and the leading zero bits of the low byte there.
* `RoutingTable`: contacts in `KBucket`s, `addContact` and `removeContact`.

A code unit has sixteen bits, and only the low byte of the difference is scanned.  So a farther id can have the greater
index (`Blurred`); where none has, a bucket holds one range of distances (`buckets_iff`). -/

namespace BrowserMesh.Discovery.Kademlia
open Js

/-! ### Distances -/

/-- `i < s.length ? s.charCodeAt(i) : 0`. -/
def charCodeAt (s : JsString) (i : ℕ) : ℕ := (s[i]?).elim 0 Fin.val

def xorDistance (a b : JsString) : List ℕ :=
  (List.range (max a.length b.length)).map fun i => charCodeAt a i ^^^ charCodeAt b i

/-- The difference at the first place where the distances differ. -/
def compareDistance (a b : List ℕ) : ℤ :=
  match (List.range (max a.length b.length)).find? fun i => a.getD i 0 ≠ b.getD i 0 with
  | none => 0
  | some i => (a.getD i 0 : ℤ) - b.getD i 0

/-- `while (bit >= 0 && !(byte & (1 << bit))) bit--` from `bit = n - 1`; the result is `bit + 1`. -/
def scanBits (byte : ℕ) : ℕ → ℕ
  | 0 => 0
  | bit + 1 => if byte.testBit bit then bit + 1 else scanBits byte bit

def highestBitIndex (a b : JsString) : ℕ :=
  let dist := xorDistance a b
  match (List.range dist.length).find? fun i => dist.getD i 0 ≠ 0 with
  | none => 0
  | some i => i * 8 + (8 - scanBits (dist.getD i 0) 8)

/-! ### The table -/

structure Contact where
  podId : JsString
  address : Option JsString
  lastSeen : Option ℕ

/-- The contacts of a bucket, the most recent one last. -/
structure KBucket where
  k : ℕ
  contacts : List Contact

namespace KBucket

/-- `contacts.splice(contacts.findIndex(c => c.podId === podId), 1)` where there is one. -/
def removeFirst (podId : JsString) (contacts : List Contact) : List Contact :=
  contacts.eraseP fun c => c.podId = podId

/-- `add(contact)`, and the contact that it evicts. -/
def add (b : KBucket) (contact : Contact) : KBucket × Option Contact :=
  if b.contacts.any (fun c => c.podId = contact.podId) then
    ({ b with contacts := removeFirst contact.podId b.contacts ++ [contact] }, none)
  else if b.k ≤ b.contacts.length then ({ b with contacts := b.contacts.tail ++ [contact] }, b.contacts.head?)
  else ({ b with contacts := b.contacts ++ [contact] }, none)

/-- `remove(podId)`, and whether the contact was found. -/
def remove (b : KBucket) (podId : JsString) : KBucket × Bool :=
  if b.contacts.any (fun c => c.podId = podId) then ({ b with contacts := removeFirst podId b.contacts }, true)
  else (b, false)

end KBucket

structure RoutingTable where
  localId : JsString
  buckets : List KBucket

/-- `getBucketIndex(targetId)` in a table with `bucketCount` buckets. -/
def getBucketIndex (localId : JsString) (bucketCount : ℕ) (targetId : JsString) : ℤ :=
  if targetId = localId then 0 else min (highestBitIndex localId targetId : ℤ) ((bucketCount : ℤ) - 1)

namespace RoutingTable

/-- `new RoutingTable(localId, k, bucketCount)`; `none` where it throws. -/
def new (localId : JsString) (k bucketCount : ℕ) : Option RoutingTable :=
  if localId = [] then none else some ⟨localId, List.replicate bucketCount ⟨k, []⟩⟩

/-- The bucket for an id and its index; `none` if there is no such bucket. -/
def bucketFor (t : RoutingTable) (podId : JsString) : Option (ℕ × KBucket) :=
  let idx := getBucketIndex t.localId t.buckets.length podId
  if 0 ≤ idx then (t.buckets[idx.toNat]?).map fun b => (idx.toNat, b) else none

/-- `addContact(contact)`; `none` where it throws. -/
def addContact (t : RoutingTable) (contact : Contact) : Option (RoutingTable × Option Contact) :=
  (t.bucketFor contact.podId).map fun b =>
    let (bucket, evicted) := b.2.add contact
    ({ t with buckets := t.buckets.set b.1 bucket }, evicted)

/-- `removeContact(podId)`; `none` where it throws. -/
def removeContact (t : RoutingTable) (podId : JsString) : Option (RoutingTable × Bool) :=
  (t.bucketFor podId).map fun b =>
    let (bucket, found) := b.2.remove podId
    ({ t with buckets := t.buckets.set b.1 bucket }, found)

def Holds (t : RoutingTable) (podId : JsString) : Prop := ∃ b ∈ t.buckets, ∃ c ∈ b.contacts, c.podId = podId

/-- A table made by adding and removing contacts. -/
inductive Reach (localId : JsString) (k bucketCount : ℕ) : RoutingTable → Prop
  | new {t : RoutingTable} : RoutingTable.new localId k bucketCount = some t → Reach localId k bucketCount t
  | add {t t' : RoutingTable} {contact : Contact} {evicted : Option Contact} :
      Reach localId k bucketCount t → t.addContact contact = some (t', evicted) → Reach localId k bucketCount t'
  | remove {t t' : RoutingTable} {podId : JsString} {found : Bool} :
      Reach localId k bucketCount t → t.removeContact podId = some (t', found) → Reach localId k bucketCount t'

end RoutingTable

/-! ### First places -/

def place (localId s : JsString) (i : ℕ) : ℕ := charCodeAt localId i ^^^ charCodeAt s i

/-- The first place where an id differs from the local one. -/
def First (localId s : JsString) (i : ℕ) : Prop := place localId s i ≠ 0 ∧ ∀ j < i, place localId s j = 0

/-- The order of `findClosest(localId)`. -/
def AtLeastAsFar (localId a b : JsString) : Prop :=
  0 ≤ compareDistance (xorDistance a localId) (xorDistance b localId)

variable {localId a b : JsString}

theorem charCodeAt_of_length_le {s : JsString} {i : ℕ} (h : s.length ≤ i) : charCodeAt s i = 0 := by
  rw [charCodeAt, List.getElem?_eq_none h]
  rfl

theorem getD_xorDistance (a b : JsString) (i : ℕ) : (xorDistance a b).getD i 0 = charCodeAt a i ^^^ charCodeAt b i := by
  rw [xorDistance, List.getD_eq_getElem?_getD, List.getElem?_map]
  by_cases h : i < max a.length b.length
  · rw [List.getElem?_range h]
    rfl
  · rw [List.getElem?_eq_none (by rw [List.length_range]; omega), charCodeAt_of_length_le (by omega),
      charCodeAt_of_length_le (by omega)]
    rfl

/-- The search for the first place where two sequences differ that agree from `n` on. -/
theorem find_spec {n : ℕ} {f g : ℕ → ℕ} (hrest : ∀ i, n ≤ i → f i = g i) :
    ((List.range n).find? (fun i => f i ≠ g i) = none ∧ ∀ i, f i = g i) ∨
      ∃ i, (List.range n).find? (fun i => f i ≠ g i) = some i ∧ f i ≠ g i ∧ ∀ j < i, f j = g j := by
  cases hfind : (List.range n).find? fun i => f i ≠ g i with
  | none =>
      refine Or.inl ⟨rfl, fun i => ?_⟩
      by_cases hi : i < n
      · have hno := List.find?_range_eq_none.mp hfind i hi
        simpa using hno
      · exact hrest i (by omega)
  | some i =>
      obtain ⟨hi, _, hbefore⟩ := List.find?_range_eq_some.mp hfind
      refine Or.inr ⟨i, rfl, of_decide_eq_true hi, fun j hj => ?_⟩
      have hno := hbefore j hj
      simpa using hno

theorem length_xorDistance (a b : JsString) : (xorDistance a b).length = max a.length b.length := by
  rw [xorDistance, List.length_map, List.length_range]

theorem place_of_length_le {s : JsString} {i : ℕ} (h : max localId.length s.length ≤ i) : place localId s i = 0 := by
  rw [place, charCodeAt_of_length_le (by omega), charCodeAt_of_length_le (by omega)]
  rfl

theorem atLeastAsFar_iff : AtLeastAsFar localId a b ↔ (∀ i, place localId a i = place localId b i) ∨
    ∃ i, (∀ j < i, place localId a j = place localId b j) ∧ place localId b i < place localId a i := by
  have hgetD : ∀ s i, (xorDistance s localId).getD i 0 = place localId s i := fun s i => by
    rw [getD_xorDistance, place, Nat.xor_comm]
  unfold AtLeastAsFar compareDistance
  simp only [hgetD]
  have hrest : ∀ i, max (xorDistance a localId).length (xorDistance b localId).length ≤ i →
      place localId a i = place localId b i := by
    intro i hi
    rw [length_xorDistance, length_xorDistance] at hi
    rw [place_of_length_le (by omega), place_of_length_le (by omega)]
  rcases find_spec hrest with ⟨hnone, hall⟩ | ⟨i, hsome, hne, hbefore⟩
  · rw [hnone]
    exact iff_of_true le_rfl (Or.inl hall)
  · rw [hsome]
    dsimp only
    constructor
    · intro hle
      exact Or.inr ⟨i, hbefore, by omega⟩
    · rintro (hall | ⟨i', hbefore', hlt⟩)
      · exact absurd (hall i) hne
      · have heq : i = i' := by
          rcases Nat.lt_trichotomy i i' with h | h | h
          · exact absurd (hbefore' i h) hne
          · exact h
          · exact absurd (hbefore i' h) hlt.ne'
        subst heq
        omega

theorem scanBits_eq (v n : ℕ) : scanBits v n = Nat.size (v % 2 ^ n) := by
  induction n with
  | zero =>
      rw [pow_zero, Nat.mod_one]
      rfl
  | succ n ih =>
      have hsplit : v % 2 ^ (n + 1) = v % 2 ^ n + 2 ^ n * (v / 2 ^ n % 2) := Nat.mod_pow_succ
      have hlt : v % 2 ^ n < 2 ^ n := Nat.mod_lt _ (Nat.two_pow_pos n)
      rw [scanBits, Nat.testBit_eq_decide_div_mod_eq]
      by_cases hbit : v / 2 ^ n % 2 = 1
      · rw [decide_eq_true hbit, if_pos rfl, hsplit, hbit, mul_one]
        refine Nat.le_antisymm ?_ ?_
        · exact Nat.lt_size.mpr (Nat.le_add_left _ _)
        · rw [Nat.size_le, pow_succ]
          omega
      · rw [decide_eq_false hbit, if_neg Bool.false_ne_true, ih, hsplit]
        have hzero : v / 2 ^ n % 2 = 0 := by omega
        rw [hzero, mul_zero, add_zero]

theorem highestBitIndex_spec (localId s : JsString) :
    (∀ i, place localId s i = 0) ∧ highestBitIndex localId s = 0 ∨
      ∃ i, First localId s i ∧ highestBitIndex localId s = i * 8 + (8 - Nat.size (place localId s i % 256)) := by
  have hgetD : ∀ i, (xorDistance localId s).getD i 0 = place localId s i := getD_xorDistance localId s
  unfold highestBitIndex
  dsimp only
  simp only [hgetD, scanBits_eq]
  have hrest : ∀ i, (xorDistance localId s).length ≤ i → place localId s i = 0 := by
    intro i hi
    rw [length_xorDistance] at hi
    exact place_of_length_le hi
  rcases find_spec hrest with ⟨hnone, hall⟩ | ⟨i, hsome, hne, hbefore⟩
  · rw [hnone]
    exact Or.inl ⟨hall, rfl⟩
  · rw [hsome]
    exact Or.inr ⟨i, ⟨hne, hbefore⟩, rfl⟩

theorem First.unique {s : JsString} {i j : ℕ} (hi : First localId s i) (hj : First localId s j) : i = j := by
  rcases Nat.lt_trichotomy i j with h | h | h
  · exact absurd (hj.2 i h) hi.1
  · exact h
  · exact absurd (hi.2 j h) hj.1

/-! ### The index and the distance -/

/-- A farther id `a` has the greater index, one below the cap for `b`: because `b` differs from the local id by trailing
zeros only, or because at the common first place the low byte for `a` is the shorter one. -/
def Blurred (localId : JsString) (n : ℕ) (a b : JsString) : Prop :=
  (∀ i, place localId b i = 0) ∧ 2 ≤ n ∧ (∃ i, First localId a i ∧ (0 < i ∨ place localId a i % 256 < 128)) ∨
    ∃ i, First localId a i ∧ First localId b i ∧ place localId b i ≤ place localId a i ∧
      Nat.size (place localId a i % 256) < Nat.size (place localId b i % 256) ∧
      i * 8 + 9 < n + Nat.size (place localId b i % 256)

theorem size_byte_le (v : ℕ) : Nat.size (v % 256) ≤ 8 := Nat.size_le.mpr (Nat.mod_lt _ (by norm_num))

theorem index_le_iff {n : ℕ} (ha : a ≠ localId) (hb : b ≠ localId) :
    (AtLeastAsFar localId a b → getBucketIndex localId n a ≤ getBucketIndex localId n b) ↔ ¬ Blurred localId n a b := by
  unfold getBucketIndex
  rw [if_neg ha, if_neg hb, atLeastAsFar_iff]
  rcases highestBitIndex_spec localId b with ⟨hbzero, hbi⟩ | ⟨j, hj, hbi⟩
  · rcases highestBitIndex_spec localId a with ⟨hazero, hai⟩ | ⟨i, hi, hai⟩
    · -- no difference at all
      rw [hai, hbi]
      refine iff_of_true (fun _ => le_rfl) ?_
      rintro (⟨_, _, i, hi, _⟩ | ⟨i, hi, _⟩)
      · exact hi.1 (hazero i)
      · exact hi.1 (hazero i)
    · have hfar : ∃ i, (∀ j < i, place localId a j = place localId b j) ∧ place localId b i < place localId a i :=
        ⟨i, fun j hj => (hi.2 j hj).trans (hbzero j).symm, by rw [hbzero i]; exact Nat.pos_of_ne_zero hi.1⟩
      have hsize := size_byte_le (place localId a i)
      have htop : Nat.size (place localId a i % 256) ≤ 7 ↔ place localId a i % 256 < 128 := Nat.size_le
      have hblurred : Blurred localId n a b ↔ 2 ≤ n ∧ (0 < i ∨ place localId a i % 256 < 128) := by
        constructor
        · rintro (⟨_, hn, i', hi', hlow⟩ | ⟨i', _, hb', _⟩)
          · obtain rfl := hi.unique hi'
            exact ⟨hn, hlow⟩
          · exact absurd (hbzero i') hb'.1
        · rintro ⟨hn, hlow⟩
          exact Or.inl ⟨hbzero, hn, i, hi, hlow⟩
      rw [hblurred, ← htop, hai, hbi]
      constructor
      · intro h
        have hle := h (Or.inr hfar)
        omega
      · intro h _
        omega
  · rcases highestBitIndex_spec localId a with ⟨hazero, hai⟩ | ⟨i, hi, hai⟩
    · -- `b` alone differs, so it is farther
      refine iff_of_true (fun h => ?_) ?_
      · rcases h with hall | ⟨i, _, hlt⟩
        · exact absurd ((hall j).symm.trans (hazero j)) hj.1
        · rw [hazero i] at hlt
          exact absurd hlt (Nat.not_lt_zero _)
      · rintro (⟨hbzero, _⟩ | ⟨i, hi, _⟩)
        · exact hj.1 (hbzero j)
        · exact hi.1 (hazero i)
    · have hsa := size_byte_le (place localId a i)
      have hsb := size_byte_le (place localId b j)
      have hnotZero : ¬ ∀ i, place localId b i = 0 := fun hall => hj.1 (hall j)
      rcases Nat.lt_trichotomy i j with hij | rfl | hji
      · -- `a` is farther, and its place comes first
        refine iff_of_true (fun _ => ?_) ?_
        · rw [hai, hbi]
          omega
        · rintro (⟨hall, _⟩ | ⟨i', hi', hj', _⟩)
          · exact hnotZero hall
          · have h₁ := hi.unique hi'
            have h₂ := hj.unique hj'
            omega
      · have hbefore : ∀ k < i, place localId a k = place localId b k := fun k hk => (hi.2 k hk).trans (hj.2 k hk).symm
        have hblurred : Blurred localId n a b ↔ place localId b i ≤ place localId a i ∧
            Nat.size (place localId a i % 256) < Nat.size (place localId b i % 256) ∧
            i * 8 + 9 < n + Nat.size (place localId b i % 256) := by
          constructor
          · rintro (⟨hall, _⟩ | ⟨i', hi', _, hrest⟩)
            · exact absurd hall hnotZero
            · obtain rfl := hi.unique hi'
              exact hrest
          · exact fun hrest => Or.inr ⟨i, hi, hj, hrest⟩
        rw [hblurred, hai, hbi]
        rcases Nat.lt_trichotomy (place localId a i) (place localId b i) with hlt | heq | hgt
        · refine iff_of_true (fun h => ?_) fun h => absurd h.1 (Nat.not_le.mpr hlt)
          rcases h with hall | ⟨i', hbefore', hlt'⟩
          · exact absurd (hall i) hlt.ne
          · rcases Nat.lt_trichotomy i i' with h | rfl | h
            · exact absurd (hbefore' i h) hlt.ne
            · omega
            · rw [hbefore i' h] at hlt'
              exact absurd hlt' (Nat.lt_irrefl _)
        · rw [heq]
          exact iff_of_true (fun _ => le_rfl) fun h => Nat.lt_irrefl _ h.2.1
        · constructor
          · intro h hrest
            have hle := h (Or.inr ⟨i, hbefore, hgt⟩)
            omega
          · intro h _
            have hor := Classical.not_and_iff_not_or_not.mp fun h' => h ⟨hgt.le, h'⟩
            omega
      · -- `b` is farther
        refine iff_of_true (fun h => ?_) ?_
        · rcases h with hall | ⟨i', hbefore', hlt⟩
          · exact absurd ((hall j).symm.trans (hi.2 j hji)) hj.1
          · rcases Nat.lt_trichotomy i' j with h | rfl | h
            · rw [hi.2 i' (h.trans hji)] at hlt
              exact absurd hlt (Nat.not_lt_zero _)
            · rw [hi.2 i' hji] at hlt
              exact absurd hlt (Nat.not_lt_zero _)
            · exact absurd ((hbefore' j h).symm.trans (hi.2 j hji)) hj.1
        · rintro (⟨hall, _⟩ | ⟨i', hi', hj', _⟩)
          · exact hnotZero hall
          · have h₁ := hi.unique hi'
            have h₂ := hj.unique hj'
            omega

/-! ### Contacts are found in their bucket -/

namespace KBucket
variable {l : List Contact} {podId : JsString}

theorem mem_removeFirst {c : Contact} (h : c ∈ removeFirst podId l) : c ∈ l := List.mem_of_mem_eraseP h

theorem nodup_removeFirst (h : (l.map Contact.podId).Nodup) : ((removeFirst podId l).map Contact.podId).Nodup :=
  h.sublist (List.eraseP_sublist.map _)

theorem ne_of_mem_removeFirst (h : (l.map Contact.podId).Nodup) {c : Contact} (hc : c ∈ removeFirst podId l) :
    c.podId ≠ podId := by
  induction l with
  | nil => cases hc
  | cons d l ih =>
      rw [List.map_cons, List.nodup_cons] at h
      rw [removeFirst, List.eraseP_cons] at hc
      by_cases hd : d.podId = podId
      · rw [decide_eq_true hd, cond_true] at hc
        rintro rfl
        exact h.1 (hd ▸ List.mem_map_of_mem hc)
      · rw [decide_eq_false hd, cond_false] at hc
        rcases List.mem_cons.mp hc with rfl | hc
        · exact hd
        · exact ih h.2 hc

theorem mem_add_iff {b : KBucket} {contact c : Contact} (h : c ∈ (b.add contact).1.contacts) :
    c = contact ∨ c ∈ b.contacts := by
  unfold add at h
  split_ifs at h
  all_goals
    rcases List.mem_append.mp h with h | h
    rotate_left
    · exact Or.inl (List.mem_singleton.mp h)
  · exact Or.inr (mem_removeFirst h)
  · exact Or.inr (List.mem_of_mem_tail h)
  · exact Or.inr h

theorem mem_add (b : KBucket) (contact : Contact) : contact ∈ (b.add contact).1.contacts := by
  unfold add
  split_ifs <;> exact List.mem_append_right _ List.mem_cons_self

theorem nodup_add {b : KBucket} (h : (b.contacts.map Contact.podId).Nodup) (contact : Contact) :
    ((b.add contact).1.contacts.map Contact.podId).Nodup := by
  have happend : ∀ l : List Contact, (l.map Contact.podId).Nodup → (∀ c ∈ l, c.podId ≠ contact.podId) →
      ((l ++ [contact]).map Contact.podId).Nodup := by
    intro l hl hne
    rw [List.map_append, List.map_singleton, List.nodup_append]
    refine ⟨hl, List.nodup_singleton _, fun p hp q hq => ?_⟩
    obtain ⟨c, hc, rfl⟩ := List.mem_map.mp hp
    rw [List.mem_singleton.mp hq]
    exact hne c hc
  unfold add
  by_cases hany : b.contacts.any (fun c => c.podId = contact.podId) = true
  · rw [if_pos hany]
    exact happend _ (nodup_removeFirst h) fun c hc => ne_of_mem_removeFirst h hc
  · have hnone : ∀ c ∈ b.contacts, c.podId ≠ contact.podId := fun c hc heq =>
      hany (List.any_eq_true.mpr ⟨c, hc, decide_eq_true heq⟩)
    rw [if_neg hany]
    split_ifs
    · exact happend _ (h.sublist ((List.tail_sublist _).map _)) fun c hc => hnone c (List.mem_of_mem_tail hc)
    · exact happend _ h hnone

end KBucket

namespace RoutingTable
variable {t t' : RoutingTable} {k n : ℕ}

/-- Every contact is in the bucket of its index, at most once. -/
structure Placed (localId : JsString) (n : ℕ) (t : RoutingTable) : Prop where
  localId_eq : t.localId = localId
  length_eq : t.buckets.length = n
  index : ∀ (i : ℕ) (b : KBucket), t.buckets[i]? = some b → ∀ c ∈ b.contacts, getBucketIndex localId n c.podId = i
  nodup : ∀ (i : ℕ) (b : KBucket), t.buckets[i]? = some b → (b.contacts.map Contact.podId).Nodup

theorem Placed.bucketFor (h : t.Placed localId n) {podId : JsString} {i : ℕ} {b : KBucket}
    (hb : t.bucketFor podId = some (i, b)) : getBucketIndex localId n podId = i ∧ t.buckets[i]? = some b := by
  unfold RoutingTable.bucketFor at hb
  dsimp only at hb
  rw [h.localId_eq, h.length_eq] at hb
  split_ifs at hb with hidx
  obtain ⟨b', hb', heq⟩ := Option.map_eq_some_iff.mp hb
  cases heq
  exact ⟨(Int.toNat_of_nonneg hidx).symm, hb'⟩

theorem Placed.set (h : t.Placed localId n) {i : ℕ} {b : KBucket}
    (hindex : ∀ c ∈ b.contacts, getBucketIndex localId n c.podId = i)
    (hnodup : (b.contacts.map Contact.podId).Nodup) : Placed localId n { t with buckets := t.buckets.set i b } where
  localId_eq := h.localId_eq
  length_eq := (List.length_set ..).trans h.length_eq
  index j b' hb' := by
    dsimp only at hb'
    rw [List.getElem?_set] at hb'
    split_ifs at hb' with hj hlt
    · obtain rfl := Option.some.inj hb'
      exact hj ▸ hindex
    · exact h.index j b' hb'
  nodup j b' hb' := by
    dsimp only at hb'
    rw [List.getElem?_set] at hb'
    split_ifs at hb' with hj hlt
    · obtain rfl := Option.some.inj hb'
      exact hnodup
    · exact h.nodup j b' hb'

theorem addContact_spec {contact : Contact} {evicted : Option Contact} (h : t.addContact contact = some (t', evicted)) :
    ∃ i b, t.bucketFor contact.podId = some (i, b) ∧ { t with buckets := t.buckets.set i (b.add contact).1 } = t' := by
  obtain ⟨⟨i, b⟩, hb, heq⟩ := Option.map_eq_some_iff.mp h
  exact ⟨i, b, hb, congrArg Prod.fst heq⟩

theorem removeContact_spec {podId : JsString} {found : Bool} (h : t.removeContact podId = some (t', found)) :
    ∃ i b, t.bucketFor podId = some (i, b) ∧ { t with buckets := t.buckets.set i (b.remove podId).1 } = t' ∧
      (b.remove podId).2 = found := by
  obtain ⟨⟨i, b⟩, hb, heq⟩ := Option.map_eq_some_iff.mp h
  exact ⟨i, b, hb, congrArg Prod.fst heq, congrArg Prod.snd heq⟩

theorem Placed.addContact (h : t.Placed localId n) {contact : Contact} {evicted : Option Contact}
    (hadd : t.addContact contact = some (t', evicted)) : t'.Placed localId n := by
  obtain ⟨i, b, hb, rfl⟩ := addContact_spec hadd
  obtain ⟨hi, hget⟩ := h.bucketFor hb
  refine h.set (fun c hc => ?_) (KBucket.nodup_add (h.nodup i b hget) contact)
  rcases KBucket.mem_add_iff hc with rfl | hc
  · exact hi
  · exact h.index i b hget c hc

theorem Placed.removeContact (h : t.Placed localId n) {podId : JsString} {found : Bool}
    (hremove : t.removeContact podId = some (t', found)) : t'.Placed localId n := by
  obtain ⟨i, b, hb, rfl, _⟩ := removeContact_spec hremove
  obtain ⟨_, hget⟩ := h.bucketFor hb
  unfold KBucket.remove
  split_ifs
  · exact h.set (fun c hc => h.index i b hget c (KBucket.mem_removeFirst hc)) (KBucket.nodup_removeFirst (h.nodup i b hget))
  · exact h.set (h.index i b hget) (h.nodup i b hget)

theorem placed_of_reach (h : Reach localId k n t) : t.Placed localId n := by
  induction h with
  | new hnew =>
      unfold RoutingTable.new at hnew
      split_ifs at hnew
      cases hnew
      have hempty : ∀ (i : ℕ) (b : KBucket), (List.replicate n (⟨k, []⟩ : KBucket))[i]? = some b → b.contacts = [] := by
        intro i b hb
        rw [List.eq_of_mem_replicate (List.mem_of_getElem? hb)]
      refine ⟨rfl, List.length_replicate, fun i b hb c hc => ?_, fun i b hb => ?_⟩
      · rw [hempty i b hb] at hc
        cases hc
      · rw [hempty i b hb]
        exact List.nodup_nil
  | add _ hadd ih => exact ih.addContact hadd
  | remove _ hremove ih => exact ih.removeContact hremove

theorem Placed.holds_iff (h : t.Placed localId n) {podId : JsString} {i : ℕ} {b : KBucket}
    (hi : getBucketIndex localId n podId = i) (hb : t.buckets[i]? = some b) :
    t.Holds podId ↔ ∃ c ∈ b.contacts, c.podId = podId := by
  constructor
  · rintro ⟨b', hb', c, hc, rfl⟩
    obtain ⟨j, hj⟩ := List.getElem?_of_mem hb'
    have hij : (i : ℤ) = j := hi.symm.trans (h.index j b' hj c hc)
    rw [← Int.ofNat.inj hij, hb] at hj
    obtain rfl := Option.some.inj hj
    exact ⟨c, hc, rfl⟩
  · rintro ⟨c, hc, rfl⟩
    exact ⟨b, List.mem_of_getElem? hb, c, hc, rfl⟩

/-- What is added is held, what is held is found and then gone, and with a bucket there is one for every id. -/
structure Finds (t : RoutingTable) : Prop where
  total : t.buckets ≠ [] → ∀ podId, (t.bucketFor podId).isSome = true
  added : ∀ contact t' evicted, t.addContact contact = some (t', evicted) → t'.Holds contact.podId
  removed : ∀ podId t' found, t.removeContact podId = some (t', found) →
    (found = true ↔ t.Holds podId) ∧ ¬ t'.Holds podId

theorem finds_of_placed (h : t.Placed localId n) : t.Finds where
  total hne podId := by
    have hlength := List.length_pos_of_ne_nil hne
    have hidx : 0 ≤ getBucketIndex t.localId t.buckets.length podId ∧
        getBucketIndex t.localId t.buckets.length podId < t.buckets.length := by
      unfold getBucketIndex
      split_ifs <;> omega
    unfold bucketFor
    dsimp only
    rw [if_pos hidx.1, List.getElem?_eq_getElem (by omega)]
    rfl
  added contact t' evicted hadd := by
    have hplaced := h.addContact hadd
    obtain ⟨i, b, hb, rfl⟩ := addContact_spec hadd
    obtain ⟨hi, hget⟩ := h.bucketFor hb
    have hlt : i < t.buckets.length := (List.getElem?_eq_some_iff.mp hget).1
    exact (hplaced.holds_iff hi (List.getElem?_set_self hlt)).mpr ⟨contact, KBucket.mem_add b contact, rfl⟩
  removed podId t' found hremove := by
    have hplaced := h.removeContact hremove
    obtain ⟨i, b, hb, rfl, rfl⟩ := removeContact_spec hremove
    obtain ⟨hi, hget⟩ := h.bucketFor hb
    have hlt : i < t.buckets.length := (List.getElem?_eq_some_iff.mp hget).1
    rw [hplaced.holds_iff hi (List.getElem?_set_self hlt), h.holds_iff hi hget]
    unfold KBucket.remove
    by_cases hany : b.contacts.any (fun c => c.podId = podId) = true
    · rw [if_pos hany]
      refine ⟨iff_of_true rfl ?_, fun ⟨c, hc, heq⟩ => KBucket.ne_of_mem_removeFirst (h.nodup i b hget) hc heq⟩
      obtain ⟨c, hc, heq⟩ := List.any_eq_true.mp hany
      exact ⟨c, hc, of_decide_eq_true heq⟩
    · have hnone : ¬ ∃ c ∈ b.contacts, c.podId = podId := fun ⟨c, hc, heq⟩ =>
        hany (List.any_eq_true.mpr ⟨c, hc, decide_eq_true heq⟩)
      rw [if_neg hany]
      exact ⟨iff_of_false Bool.false_ne_true hnone, hnone⟩

end RoutingTable

def Monotone (localId : JsString) (n : ℕ) (ids : Set JsString) : Prop :=
  ∀ a ∈ ids, ∀ b ∈ ids, AtLeastAsFar localId a b → getBucketIndex localId n a ≤ getBucketIndex localId n b

/-- What lies between two ids of a bucket is in the bucket. -/
def OneRange (localId : JsString) (n : ℕ) (ids : Set JsString) : Prop :=
  ∀ a ∈ ids, ∀ b ∈ ids, ∀ c ∈ ids, AtLeastAsFar localId a b → AtLeastAsFar localId b c →
    getBucketIndex localId n a = getBucketIndex localId n c → getBucketIndex localId n b = getBucketIndex localId n a

/-- For ids other than the local one the buckets are monotone in the distance, each of one range, exactly if no two ids
are blurred; and contacts are found in every table. -/
theorem buckets_iff (localId : JsString) (n : ℕ) (ids : Set JsString) :
    ((Monotone localId n (ids \ {localId}) ∧ OneRange localId n (ids \ {localId})) ∧
        ∀ k t, RoutingTable.Reach localId k n t → t.Finds) ↔
      ∀ a ∈ ids \ {localId}, ∀ b ∈ ids \ {localId}, ¬ Blurred localId n a b := by
  constructor
  · rintro ⟨⟨hmono, _⟩, _⟩ a ha b hb
    exact (index_le_iff ha.2 hb.2).mp (hmono a ha b hb)
  · intro h
    have hmono : Monotone localId n (ids \ {localId}) := fun a ha b hb => (index_le_iff ha.2 hb.2).mpr (h a ha b hb)
    refine ⟨⟨hmono, fun a ha b hb c hc hab hbc heq => ?_⟩, fun k t hreach =>
      RoutingTable.finds_of_placed (RoutingTable.placed_of_reach hreach)⟩
    exact le_antisymm ((hmono b hb c hc hbc).trans heq.ge) (hmono a ha b hb hab)

theorem farther_id_greater_index : AtLeastAsFar (js "a") (js "aĀ") (js "a\x01") ∧
    getBucketIndex (js "a") 160 (js "a\x01") = 15 ∧ getBucketIndex (js "a") 160 (js "aĀ") = 16 ∧
    ¬ Monotone (js "a") 160 {js "aĀ", js "a\x01"} := by
  have hfar : AtLeastAsFar (js "a") (js "aĀ") (js "a\x01") :=
    show 0 ≤ compareDistance _ _ by decide +kernel
  have hnear : getBucketIndex (js "a") 160 (js "a\x01") = 15 := by decide +kernel
  have hmore : getBucketIndex (js "a") 160 (js "aĀ") = 16 := by decide +kernel
  refine ⟨hfar, hnear, hmore, fun h => ?_⟩
  have hle := h _ (Set.mem_insert _ _) _ (Set.mem_insert_of_mem _ rfl) hfar
  rw [hnear, hmore] at hle
  exact absurd hle (by decide)

/-! ### The closest contacts -/

theorem compareDistance_swap (a b : List ℕ) : compareDistance b a = -compareDistance a b := by
  have hfind : ((List.range (max b.length a.length)).find? fun i => b.getD i 0 ≠ a.getD i 0) =
      (List.range (max a.length b.length)).find? fun i => a.getD i 0 ≠ b.getD i 0 := by
    rw [max_comm]
    exact congrArg (List.find? · _) (funext fun i => decide_eq_decide.mpr ne_comm)
  rw [compareDistance, compareDistance, hfind]
  split
  · rfl
  · exact (neg_sub _ _).symm

theorem atLeastAsFar_iff_lex : AtLeastAsFar localId a b ↔ toLex (place localId b) ≤ toLex (place localId a) := by
  rw [atLeastAsFar_iff, le_iff_eq_or_lt]
  refine or_congr ⟨fun h => congrArg toLex (funext fun i => (h i).symm),
    fun h i => (congrFun (toLex.injective h) i).symm⟩ ?_
  exact exists_congr fun i => and_congr_left fun _ => forall₂_congr fun j _ => eq_comm

namespace RoutingTable

def contacts (t : RoutingTable) : List Contact := t.buckets.flatMap KBucket.contacts

/-- The comparator of `findClosest` does not put `a` after `b`. -/
def NotAfter (targetId : JsString) (a b : Contact) : Prop :=
  compareDistance (xorDistance a.podId targetId) (xorDistance b.podId targetId) ≤ 0

instance (targetId : JsString) : DecidableRel (NotAfter targetId) := fun _ _ => inferInstanceAs (Decidable (_ ≤ _))

def findClosest (t : RoutingTable) (targetId : JsString) (count : ℕ) : List Contact :=
  (t.contacts.insertionSort (NotAfter targetId)).take count

theorem notAfter_iff {targetId : JsString} {a b : Contact} :
    NotAfter targetId a b ↔ AtLeastAsFar targetId b.podId a.podId := by
  rw [NotAfter, AtLeastAsFar, compareDistance_swap, neg_nonpos]

/-- The comparator is a total preorder, and what is returned are the closest contacts of the table in the order of their
distance. -/
theorem findClosest_spec (t : RoutingTable) (targetId : JsString) (count : ℕ) :
    (∀ a b, NotAfter targetId a b ∨ NotAfter targetId b a) ∧
    (∀ a b c, NotAfter targetId a b → NotAfter targetId b c → NotAfter targetId a c) ∧
    (t.findClosest targetId count).length = min count t.contacts.length ∧
    ((t.findClosest targetId count).Pairwise fun a b => AtLeastAsFar targetId b.podId a.podId) ∧
    ∃ rest, (t.findClosest targetId count ++ rest).Perm t.contacts ∧
      ∀ a ∈ t.findClosest targetId count, ∀ b ∈ rest, AtLeastAsFar targetId b.podId a.podId := by
  have : Std.Total (NotAfter targetId) := ⟨fun a b => by
    rw [notAfter_iff, notAfter_iff, atLeastAsFar_iff_lex, atLeastAsFar_iff_lex]
    exact le_total _ _⟩
  have : IsTrans Contact (NotAfter targetId) := ⟨fun a b c => by
    rw [notAfter_iff, notAfter_iff, notAfter_iff, atLeastAsFar_iff_lex, atLeastAsFar_iff_lex, atLeastAsFar_iff_lex]
    exact le_trans⟩
  have hperm := List.perm_insertionSort (NotAfter targetId) t.contacts
  have hsorted := (List.pairwise_insertionSort (NotAfter targetId) t.contacts).imp fun h => notAfter_iff.mp h
  rw [findClosest, List.length_take, hperm.length_eq]
  refine ⟨total_of (NotAfter targetId), fun _ _ _ => trans_of (NotAfter targetId), rfl,
    hsorted.sublist (List.take_sublist _ _),
    (t.contacts.insertionSort (NotAfter targetId)).drop count, ?_, ?_⟩
  · rw [List.take_append_drop]
    exact hperm
  · rw [← List.take_append_drop count (t.contacts.insertionSort _)] at hsorted
    exact (List.pairwise_append.mp hsorted).2.2

end RoutingTable

end BrowserMesh.Discovery.Kademlia
