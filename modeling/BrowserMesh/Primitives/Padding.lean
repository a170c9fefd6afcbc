import BrowserMesh.Js.Dict
import BrowserMesh.Js.Encoding
import BrowserMesh.Js.Midpoint

/-! # Padding to size buckets

* **Lengths.**  `bucketFor` is the first bucket that is large enough, or a multiple of the largest.  The division that finds
  the multiple is rounded, and its ceiling is exact all the same (`ceilQuotient_eq`).
* **Bytes.**  A padded payload is the payload, the fill and the trailer, each at its own places (`padTo_eq`). -/

namespace BrowserMesh.Primitives
open Js JsNumber

namespace Padding

/-! ### Lengths -/

def DEFAULT_PAD_BUCKETS : List ℕ := [256, 1024, 4096, 16384]

def PAD_TRAILER_BYTES : ℕ := 4

def RANDOM_CHUNK : ℕ := 65536

inductive PadError where
  | noBuckets
  | bucketSize (b : ℕ)
  | length
  | tooLarge
  | tooShort
  | trailer

/-- A safe integer above `PAD_TRAILER_BYTES`. -/
def ValidBucket (b : ℕ) : Prop := b < 2 ^ 53 ∧ PAD_TRAILER_BYTES < b

instance (b : ℕ) : Decidable (ValidBucket b) := inferInstanceAs (Decidable (_ ∧ _))

def normalizeBuckets (buckets : Option (List ℕ)) : Except PadError (List ℕ) :=
  let list := buckets.getD DEFAULT_PAD_BUCKETS
  if list = [] then .error .noBuckets
  else
    match list.find? fun b => ¬ ValidBucket b with
    | some b => .error (.bucketSize b)
    | none => .ok ((JsSet.ofList list).elems.insertionSort (· ≤ ·))

/-- `Math.ceil(needed / largest)`, of the rounded quotient. -/
def ceilQuotient (needed largest : ℕ) : ℕ :=
  (roundQuotient (needed * oneUnits) largest + (oneUnits - 1)) / oneUnits

def bucketFor (sorted : List ℕ) (needed : ℕ) : ℕ :=
  match sorted.find? fun b => needed ≤ b with
  | some b => b
  | none => ceilQuotient needed (sorted.getLastD 0) * sorted.getLastD 0

def paddedLength (length : ℕ) (buckets : Option (List ℕ)) : Except PadError ℕ :=
  if 2 ^ 53 ≤ length then .error .length
  else (normalizeBuckets buckets).map fun sorted => bucketFor sorted (length + PAD_TRAILER_BYTES)

/-! ### Bytes -/

/-- `crypto.getRandomValues(out.subarray(start, stop))`; `none` when it throws. -/
def getRandomValues (random : ℕ → Fin 256) (start stop : ℕ) (out : Bytes) : Option Bytes :=
  if 65536 < stop - start then none
  else some (out.mapIdx fun i c => if start ≤ i ∧ i < stop then random i else c)

def fillLoop (random : ℕ → Fin 256) (fillEnd off : ℕ) (out : Bytes) : Option Bytes :=
  if off < fillEnd then
    (getRandomValues random off (min (off + RANDOM_CHUNK) fillEnd) out).bind
      (fillLoop random fillEnd (off + RANDOM_CHUNK))
  else some out
termination_by fillEnd - off
decreasing_by
  rw [RANDOM_CHUNK]
  omega

/-- The byte `k` of four, the most significant first. -/
def uint32Byte (n k : ℕ) : Fin 256 := Fin.ofNat _ (n / 256 ^ (3 - k))

/-- `setUint32(offset, n, false)`. -/
def setUint32 (offset n : ℕ) (out : Bytes) : Bytes :=
  out.mapIdx fun i c => if offset ≤ i ∧ i < offset + 4 then uint32Byte n (i - offset) else c

/-- `getUint32(offset, false)`. -/
def getUint32 (offset : ℕ) (bytes : Bytes) : ℕ :=
  let byte (k : ℕ) : ℕ := (bytes[offset + k]?.getD 0).val
  ((byte 0 * 256 + byte 1) * 256 + byte 2) * 256 + byte 3

/-- `padTo`; the fill is what `random` has at each place. -/
def padTo (random : ℕ → Fin 256) (bytes : Bytes) (buckets : Option (List ℕ)) : Except PadError (Option Bytes) :=
  if 0xffffffff < bytes.length then .error .tooLarge
  else
    (paddedLength bytes.length buckets).map fun total =>
      (fillLoop random (total - PAD_TRAILER_BYTES) bytes.length (bytes ++ List.replicate (total - bytes.length) 0)).map
        (setUint32 (total - PAD_TRAILER_BYTES) bytes.length)

def unpad (padded : Bytes) : Except PadError Bytes :=
  if padded.length < PAD_TRAILER_BYTES then .error .tooShort
  else
    let fillEnd := padded.length - PAD_TRAILER_BYTES
    let length := getUint32 fillEnd padded
    if fillEnd < length then .error .trailer else .ok (padded.take length)

/-! ### The multiple of the largest bucket -/

theorem isRounded_mul_two_pow {q : ℕ} (h : q ≤ 2 ^ 53) (e : ℕ) : IsRounded (q * 2 ^ e) := by
  have hulp : ulp (2 ^ (e + 52)) = 2 ^ e := by rw [ulp, Nat.log2_two_pow, Nat.add_sub_cancel]
  exact hulp ▸ isRounded_of_mul_ulp h

variable {needed : ℕ}

theorem ceilQuotient_eq {largest : ℕ} (hneeded : 0 < needed) (hpos : 0 < largest) (hle : largest ≤ needed)
    (hmax : needed ≤ 2 ^ 52) : ceilQuotient needed largest = (needed - 1) / largest + 1 := by
  have hunits : oneUnits = 2 ^ leastExponent := by rw [oneUnits, Nat.one_shiftLeft]
  -- the exact quotient is above `m` and at most `m + 1`
  generalize hm : (needed - 1) / largest = m
  have hdiv := Nat.div_add_mod (needed - 1) largest
  have hmod := Nat.mod_lt (needed - 1) hpos
  rw [hm] at hdiv
  have hmle : m ≤ largest * m := Nat.le_mul_of_pos_left m hpos
  have hupper : roundQuotient (needed * oneUnits) largest ≤ (m + 1) * oneUnits := by
    refine roundQuotient_le hpos (hunits ▸ isRounded_mul_two_pow (by omega) leastExponent) ?_
    have hcover : needed ≤ (m + 1) * largest := by
      rw [Nat.add_mul, Nat.mul_comm m, Nat.one_mul]
      omega
    calc needed * oneUnits ≤ (m + 1) * largest * oneUnits := Nat.mul_le_mul_right _ hcover
      _ = (m + 1) * oneUnits * largest := Nat.mul_right_comm _ _ _
  have hlower : m * oneUnits < roundQuotient (needed * oneUnits) largest := by
    -- a double between `m` and the quotient: `m` and the last of the bits that `largest` has not
    obtain ⟨l, hl, hsmall⟩ : ∃ l, largest < 2 ^ l ∧ 2 ^ l ≤ 2 * largest := by
      refine ⟨largest.log2 + 1, Nat.lt_log2_self, ?_⟩
      rw [pow_succ, Nat.mul_comm]
      exact Nat.mul_le_mul_left 2 (Nat.log2_self_le (Nat.pos_iff_ne_zero.mp hpos))
    have hbits : l ≤ leastExponent := by
      have hlt : 2 ^ l < 2 ^ 54 := lt_of_le_of_lt (hsmall.trans (Nat.mul_le_mul_left 2 (hle.trans hmax))) (by norm_num)
      exact ((Nat.pow_lt_pow_iff_right (by norm_num)).mp hlt).le.trans (by decide)
    have hsplit : oneUnits = 2 ^ l * 2 ^ (leastExponent - l) := by rw [hunits, ← pow_add, Nat.add_sub_cancel' hbits]
    have hrounded : IsRounded ((m * 2 ^ l + 1) * 2 ^ (leastExponent - l)) := by
      refine isRounded_mul_two_pow ?_ _
      have hprod : m * 2 ^ l ≤ 2 * (largest * m) := by
        calc m * 2 ^ l ≤ m * (2 * largest) := Nat.mul_le_mul_left m hsmall
          _ = 2 * (largest * m) := by ring
      omega
    refine lt_of_lt_of_le ?_ (le_roundQuotient hpos hrounded ?_)
    · rw [hsplit, Nat.add_mul, ← Nat.mul_assoc, Nat.one_mul]
      exact Nat.lt_add_of_pos_right (Nat.two_pow_pos _)
    · have hless : (m * 2 ^ l + 1) * largest ≤ needed * 2 ^ l := by
        have hsum : largest * m + 1 ≤ needed := by omega
        calc (m * 2 ^ l + 1) * largest = largest * m * 2 ^ l + largest := by ring
          _ ≤ largest * m * 2 ^ l + 2 ^ l := Nat.add_le_add_left hl.le _
          _ = (largest * m + 1) * 2 ^ l := by ring
          _ ≤ needed * 2 ^ l := Nat.mul_le_mul_right _ hsum
      calc (m * 2 ^ l + 1) * 2 ^ (leastExponent - l) * largest = (m * 2 ^ l + 1) * largest * 2 ^ (leastExponent - l) := by ring
        _ ≤ needed * 2 ^ l * 2 ^ (leastExponent - l) := Nat.mul_le_mul_right _ hless
        _ = needed * oneUnits := by rw [hsplit, Nat.mul_assoc]
  have hone : 0 < oneUnits := hunits ▸ Nat.two_pow_pos leastExponent
  rw [ceilQuotient]
  refine Nat.div_eq_of_lt_le ?_ ?_
  · rw [Nat.add_mul, Nat.one_mul]
    omega
  · rw [Nat.add_mul (m + 1), Nat.one_mul]
    omega

/-! ### Buckets -/

/-- A list that `normalizeBuckets` takes. -/
def ValidBuckets (list : List ℕ) : Prop := list ≠ [] ∧ ∀ b ∈ list, ValidBucket b

/-- What it makes of one. -/
structure Normalized (sorted : List ℕ) : Prop where
  nonempty : sorted ≠ []
  nodup : sorted.Nodup
  ascending : sorted.Pairwise (· ≤ ·)
  valid : ∀ b ∈ sorted, ValidBucket b

theorem normalizeBuckets_eq (buckets : Option (List ℕ)) (h : ValidBuckets (buckets.getD DEFAULT_PAD_BUCKETS)) :
    ∃ sorted, normalizeBuckets buckets = .ok sorted ∧ Normalized sorted ∧
      ∀ b, b ∈ sorted ↔ b ∈ buckets.getD DEFAULT_PAD_BUCKETS := by
  obtain ⟨hne, hvalid⟩ := h
  have hmem (b : ℕ) : b ∈ (JsSet.ofList (buckets.getD DEFAULT_PAD_BUCKETS)).elems.insertionSort (· ≤ ·) ↔
      b ∈ buckets.getD DEFAULT_PAD_BUCKETS := (List.perm_insertionSort _ _).mem_iff.trans JsSet.mem_ofList
  refine ⟨_, ?_, ⟨?_, (List.perm_insertionSort _ _).nodup_iff.mpr (JsSet.nodup _), List.pairwise_insertionSort _ _, ?_⟩,
    hmem⟩
  · have hnone : (buckets.getD DEFAULT_PAD_BUCKETS).find? (fun b => ¬ ValidBucket b) = none := by
      rw [List.find?_eq_none]
      intro b hb
      simpa using hvalid b hb
    rw [normalizeBuckets, if_neg hne, hnone]
  · obtain ⟨b, hb⟩ := List.exists_mem_of_ne_nil _ hne
    exact List.ne_nil_of_mem ((hmem b).mpr hb)
  · intro b hb
    exact hvalid b ((hmem b).mp hb)

theorem Normalized.eq_of_mem_iff {l m : List ℕ} (hl : Normalized l) (hm : Normalized m)
    (h : ∀ b, b ∈ l ↔ b ∈ m) : l = m :=
  ((List.perm_ext_iff_of_nodup hl.nodup hm.nodup).mpr h).eq_of_pairwise (fun _ _ _ _ => le_antisymm)
    hl.ascending hm.ascending

variable {sorted : List ℕ}

theorem Normalized.le_getLastD (h : Normalized sorted) :
    sorted.getLastD 0 ∈ sorted ∧ ∀ b ∈ sorted, b ≤ sorted.getLastD 0 := by
  obtain ⟨init, last, rfl⟩ : ∃ init last, sorted = init ++ [last] :=
    ⟨_, _, (List.dropLast_append_getLast h.nonempty).symm⟩
  rw [List.getLastD_concat]
  refine ⟨List.mem_append_right _ List.mem_cons_self, ?_⟩
  intro b hb
  rcases List.mem_append.mp hb with hb | hb
  · exact (List.pairwise_append.mp h.ascending).2.2 b hb last List.mem_cons_self
  · exact (List.mem_singleton.mp hb).le

theorem bucketFor_fits (h : Normalized sorted) (hfits : ∃ b ∈ sorted, needed ≤ b) :
    bucketFor sorted needed ∈ sorted ∧ needed ≤ bucketFor sorted needed ∧
      ∀ b ∈ sorted, needed ≤ b → bucketFor sorted needed ≤ b := by
  cases hfind : sorted.find? fun b => needed ≤ b with
  | none =>
    obtain ⟨b, hb, hle⟩ := hfits
    exact absurd (decide_eq_true hle) (List.find?_eq_none.mp hfind b hb)
  | some found =>
    obtain ⟨hle, before, after, rfl, hbefore⟩ := List.find?_eq_some_iff_append.mp hfind
    rw [bucketFor, hfind]
    refine ⟨List.mem_append_right _ List.mem_cons_self, of_decide_eq_true hle, ?_⟩
    intro b hb hneeded
    rcases List.mem_append.mp hb with hb | hb
    · exact absurd (decide_eq_true hneeded) (by simpa using hbefore b hb)
    rcases List.mem_cons.mp hb with rfl | hb
    · exact le_rfl
    · exact List.rel_of_pairwise_cons (List.pairwise_append.mp h.ascending).2.1 hb

theorem bucketFor_above (h : Normalized sorted) (habove : ∀ b ∈ sorted, b < needed) (hmax : needed ≤ 2 ^ 52) :
    bucketFor sorted needed = ((needed - 1) / sorted.getLastD 0 + 1) * sorted.getLastD 0 := by
  have hlast := habove _ h.le_getLastD.1
  have hpos : 0 < sorted.getLastD 0 := Nat.zero_lt_of_lt (h.valid _ h.le_getLastD.1).2
  have hfind : sorted.find? (fun b => needed ≤ b) = none := by
    rw [List.find?_eq_none]
    intro b hb
    simpa using habove b hb
  rw [bucketFor, hfind]
  exact congrArg (· * _) (ceilQuotient_eq (Nat.zero_lt_of_lt hlast) hpos hlast.le hmax)

theorem bucketFor_spec (h : Normalized sorted) (hmax : needed ≤ 2 ^ 52) :
    needed ≤ bucketFor sorted needed ∧
      (bucketFor sorted needed ∈ sorted ∨ sorted.getLastD 0 ∣ bucketFor sorted needed) := by
  by_cases hfits : ∃ b ∈ sorted, needed ≤ b
  · have hspec := bucketFor_fits h hfits
    exact ⟨hspec.2.1, .inl hspec.1⟩
  · push Not at hfits
    have hpos : 0 < sorted.getLastD 0 := Nat.zero_lt_of_lt (h.valid _ h.le_getLastD.1).2
    rw [bucketFor_above h hfits hmax]
    refine ⟨?_, .inr (Nat.dvd_mul_left _ _)⟩
    have hlt := Nat.lt_mul_div_succ (needed - 1) hpos
    rw [Nat.mul_comm]
    omega

theorem bucketFor_mono (h : Normalized sorted) {n m : ℕ} (hle : n ≤ m) (hmax : m ≤ 2 ^ 52) :
    bucketFor sorted n ≤ bucketFor sorted m := by
  by_cases hfits : ∃ b ∈ sorted, m ≤ b
  · have hm := bucketFor_fits h hfits
    exact (bucketFor_fits h ⟨_, hm.1, hle.trans hm.2.1⟩).2.2 _ hm.1 (hle.trans hm.2.1)
  push Not at hfits
  rw [bucketFor_above h hfits hmax]
  by_cases hsmall : ∃ b ∈ sorted, n ≤ b
  · exact (h.le_getLastD.2 _ (bucketFor_fits h hsmall).1).trans (Nat.le_mul_of_pos_left _ (Nat.succ_pos _))
  · push Not at hsmall
    rw [bucketFor_above h hsmall (hle.trans hmax)]
    exact Nat.mul_le_mul_right _ (Nat.succ_le_succ (Nat.div_le_div_right (Nat.sub_le_sub_right hle 1)))

/-! ### The padded bytes -/

theorem fillLoop_eq (random : ℕ → Fin 256) (fillEnd off : ℕ) (out : Bytes) :
    fillLoop random fillEnd off out = some (out.mapIdx fun i c => if off ≤ i ∧ i < fillEnd then random i else c) := by
  induction off, out using fillLoop.induct fillEnd with
  | case1 off out hlt ih =>
    have hchunk : ¬ 65536 < min (off + RANDOM_CHUNK) fillEnd - off := by
      rw [RANDOM_CHUNK]
      omega
    rw [fillLoop, if_pos hlt, getRandomValues, if_neg hchunk, Option.bind_some, ih, List.mapIdx_mapIdx]
    congr 2
    funext i c
    by_cases hfill : off ≤ i ∧ i < fillEnd
    · by_cases hlater : off + RANDOM_CHUNK ≤ i
      · exact (if_pos ⟨hlater, hfill.2⟩).trans (if_pos hfill).symm
      · refine (if_neg fun hi => hlater hi.1).trans ?_
        rw [if_pos hfill]
        exact if_pos ⟨hfill.1, lt_min (Nat.lt_of_not_le hlater) hfill.2⟩
    · rw [Function.comp_apply, if_neg hfill, if_neg (by omega), if_neg (by omega)]
  | case2 off out hge =>
    rw [fillLoop, if_neg hge]
    congr 1
    refine (List.ext_getElem? fun i => ?_).symm
    rw [List.getElem?_mapIdx]
    have hout : (fun c : Fin 256 => if off ≤ i ∧ i < fillEnd then random i else c) = id := by
      funext c
      exact if_neg (by omega)
    rw [hout, Option.map_id_apply]

/-- The payload, the fill and the trailer. -/
structure Padded (random : ℕ → Fin 256) (bytes out : Bytes) : Prop where
  room : bytes.length + PAD_TRAILER_BYTES ≤ out.length
  payload : ∀ i < bytes.length, out[i]? = bytes[i]?
  fill : ∀ i, bytes.length ≤ i → i < out.length - PAD_TRAILER_BYTES → out[i]? = some (random i)
  trailer : ∀ k < PAD_TRAILER_BYTES, out[out.length - PAD_TRAILER_BYTES + k]? = some (uint32Byte bytes.length k)

theorem padTo_eq (random : ℕ → Fin 256) {bytes : Bytes} {buckets : Option (List ℕ)} {total : ℕ}
    (hlen : bytes.length < 2 ^ 32) (htotal : paddedLength bytes.length buckets = .ok total)
    (hroom : bytes.length + PAD_TRAILER_BYTES ≤ total) :
    ∃ out, padTo random bytes buckets = .ok (some out) ∧ out.length = total ∧ Padded random bytes out := by
  have hpad : PAD_TRAILER_BYTES = 4 := rfl
  have hlength : (bytes ++ List.replicate (total - bytes.length) (0 : Fin 256)).length = total := by
    rw [List.length_append, List.length_replicate]
    omega
  rw [padTo, if_neg (by omega), htotal, Except.map, fillLoop_eq, Option.map_some, setUint32, List.mapIdx_mapIdx]
  refine ⟨_, rfl, by rw [List.length_mapIdx, hlength], ?_⟩
  generalize hout : List.mapIdx _ _ = out
  have hplace (i : ℕ) : out[i]? = (bytes ++ List.replicate (total - bytes.length) (0 : Fin 256))[i]?.map fun c =>
      if total - 4 ≤ i ∧ i < total - 4 + 4 then uint32Byte bytes.length (i - (total - 4))
      else if bytes.length ≤ i ∧ i < total - 4 then random i else c := by
    rw [← hout, List.getElem?_mapIdx]
    rfl
  have hsome (i : ℕ) (hi : i < total) := List.getElem?_eq_getElem (hlength.symm ▸ hi : i < List.length (bytes ++ _))
  obtain rfl : out.length = total := by rw [← hout, List.length_mapIdx, hlength]
  refine ⟨hroom, ?_, ?_, ?_⟩
  · intro i hi
    rw [hplace, List.getElem?_append_left hi, List.getElem?_eq_getElem hi, Option.map_some, if_neg (by omega),
      if_neg (by omega)]
  · intro i hi hlt
    rw [hplace, hsome i (by omega), Option.map_some, if_neg (by omega), if_pos (by omega)]
  · intro k hk
    rw [hpad, hplace, hsome _ (by omega), Option.map_some, if_pos (by omega), Nat.add_sub_cancel_left]

theorem unpad_of_padded {random : ℕ → Fin 256} {bytes out : Bytes} (h : Padded random bytes out)
    (hlen : bytes.length < 2 ^ 32) : unpad out = .ok bytes := by
  have hroom := h.room
  have hbyte (k : ℕ) (hk : k < 4) :
      (out[out.length - PAD_TRAILER_BYTES + k]?.getD 0).val = bytes.length / 256 ^ (3 - k) % 256 := by
    rw [h.trailer k hk]
    rfl
  have hread : getUint32 (out.length - PAD_TRAILER_BYTES) out = bytes.length := by
    dsimp only [getUint32]
    rw [hbyte 0 (by decide), hbyte 1 (by decide), hbyte 2 (by decide), hbyte 3 (by decide)]
    omega
  rw [unpad, if_neg (by omega)]
  dsimp only
  rw [hread, if_neg (by omega)]
  refine congrArg _ (List.ext_getElem? fun i => ?_)
  by_cases hi : i < bytes.length
  · rw [List.getElem?_take_of_lt hi, h.payload i hi]
  · rw [List.getElem?_take_eq_none (Nat.le_of_not_lt hi), List.getElem?_eq_none (Nat.le_of_not_lt hi)]

theorem padding_lossless (random : ℕ → Fin 256) (buckets : Option (List ℕ))
    (hvalid : ValidBuckets (buckets.getD DEFAULT_PAD_BUCKETS)) (bytes : Bytes) (hlen : bytes.length < 2 ^ 32) :
    (∃ total out, paddedLength bytes.length buckets = .ok total ∧ padTo random bytes buckets = .ok (some out) ∧
      out.length = total ∧ unpad out = .ok bytes ∧ bytes.length + 4 ≤ total ∧ Padded random bytes out ∧
      (total ∈ buckets.getD DEFAULT_PAD_BUCKETS ∨ ∃ largest ∈ buckets.getD DEFAULT_PAD_BUCKETS,
        (∀ b ∈ buckets.getD DEFAULT_PAD_BUCKETS, b ≤ largest) ∧ largest ∣ total)) ∧
    (∀ n m total total', n ≤ m → m + 4 ≤ 2 ^ 52 → paddedLength n buckets = .ok total →
      paddedLength m buckets = .ok total' → total ≤ total') ∧
    (∀ random' bytes' out out', bytes'.length < 2 ^ 32 →
      paddedLength bytes'.length buckets = paddedLength bytes.length buckets →
      padTo random bytes buckets = .ok (some out) → padTo random' bytes' buckets = .ok (some out') →
      out'.length = out.length) ∧
    (∀ fillEnd off (out : Bytes), ∃ filled, fillLoop random fillEnd off out = some filled ∧
      ∀ i : ℕ, filled[i]? = if off ≤ i ∧ i < fillEnd then out[i]?.map fun _ => random i else out[i]?) ∧
    ∀ others, (∀ b, b ∈ others ↔ b ∈ buckets.getD DEFAULT_PAD_BUCKETS) →
      normalizeBuckets (some others) = normalizeBuckets buckets := by
  obtain ⟨sorted, hsorted, hnormal, hmem⟩ := normalizeBuckets_eq buckets hvalid
  have hpadded (n : ℕ) (hn : n + 4 ≤ 2 ^ 52) :
      paddedLength n buckets = .ok (bucketFor sorted (n + PAD_TRAILER_BYTES)) := by
    rw [paddedLength, if_neg (by omega), hsorted]
    rfl
  have hspec (n : ℕ) (hn : n + 4 ≤ 2 ^ 52) :=
    bucketFor_spec hnormal (show n + PAD_TRAILER_BYTES ≤ 2 ^ 52 from hn)
  refine ⟨?_, ?_, ?_, ?_, ?_⟩
  · obtain ⟨hroom, hbucket⟩ := hspec bytes.length (by omega)
    obtain ⟨out, hout, htotal, hplaces⟩ := padTo_eq random hlen (hpadded _ (by omega)) hroom
    refine ⟨_, out, hpadded _ (by omega), hout, htotal, unpad_of_padded hplaces hlen, hroom, hplaces, ?_⟩
    rcases hbucket with hbucket | hbucket
    · exact .inl ((hmem _).mp hbucket)
    · exact .inr ⟨_, (hmem _).mp hnormal.le_getLastD.1, fun b hb => hnormal.le_getLastD.2 b ((hmem b).mpr hb), hbucket⟩
  · intro n m total total' hle hm hn hm'
    rw [hpadded n (by omega)] at hn
    rw [hpadded m hm] at hm'
    cases hn
    cases hm'
    exact bucketFor_mono hnormal (Nat.add_le_add_right hle _) hm
  · intro random' bytes' out out' hlen' hsame hout hout'
    have hshort : bytes.length + 4 ≤ 2 ^ 52 := by omega
    have htwo := hsame.trans (hpadded bytes.length hshort)
    have hroom := (hspec bytes.length hshort).1
    have hroom' : bytes'.length + PAD_TRAILER_BYTES ≤ bucketFor sorted (bytes.length + PAD_TRAILER_BYTES) := by
      have hshort' : bytes'.length + 4 ≤ 2 ^ 52 := by omega
      rw [← Except.ok.inj ((hpadded _ hshort').symm.trans htwo)]
      exact (hspec _ hshort').1
    obtain ⟨_, heq, htotal, _⟩ := padTo_eq random hlen (hpadded _ hshort) hroom
    obtain ⟨_, heq', htotal', _⟩ := padTo_eq random' hlen' htwo hroom'
    cases heq.symm.trans hout
    cases heq'.symm.trans hout'
    exact htotal'.trans htotal.symm
  · intro fillEnd off out
    refine ⟨_, fillLoop_eq random fillEnd off out, ?_⟩
    intro i
    rw [List.getElem?_mapIdx]
    by_cases hfill : off ≤ i ∧ i < fillEnd
    · simp only [if_pos hfill]
    · simp only [if_neg hfill, Option.map_id']
  · intro others hothers
    have hvalid' : ValidBuckets others := by
      refine ⟨?_, fun b hb => hvalid.2 b ((hothers b).mp hb)⟩
      obtain ⟨b, hb⟩ := List.exists_mem_of_ne_nil _ hvalid.1
      exact List.ne_nil_of_mem ((hothers b).mpr hb)
    obtain ⟨sorted', hsorted', hnormal', hmem'⟩ := normalizeBuckets_eq (some others) hvalid'
    rw [hsorted, hsorted']
    exact congrArg _ (hnormal'.eq_of_mem_iff hnormal fun b => (hmem' b).trans ((hothers b).trans (hmem b).symm))

theorem padding_lossless_byte :
    ∃ total out, paddedLength 1 (some [16, 8, 16]) = .ok total ∧
      padTo (fun _ => 7) [5] (some [16, 8, 16]) = .ok (some out) ∧
      unpad out = .ok [5] := by
  have hvalid : ValidBuckets ((some [16, 8, 16]).getD DEFAULT_PAD_BUCKETS) := ⟨by decide, by decide⟩
  obtain ⟨⟨total, out, htotal, hout, _, hunpad, _⟩, _⟩ := padding_lossless (fun _ => 7) _ hvalid [5] (by decide)
  exact ⟨total, out, htotal, hout, hunpad⟩

end Padding
end BrowserMesh.Primitives
