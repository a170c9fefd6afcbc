import BrowserMesh.Js.Dict
import BrowserMesh.Js.Sorting
import BrowserMesh.Library.Parity

/-! # Agent state in shards

* **Splitting.**  A state is cut into `threshold` data shards of one length, the last ones padded with NUL, and every
  further shard is the XOR of all data shards, whatever the rotation (`parityData_eq`).
* **Collecting.**  What survives in the node is read back by key; one missing data shard is made from a parity shard.
* **Results.**  A state that does not end in NUL is reconstituted exactly if enough shards survive and at most one data
  shard is lost, and nothing else is ever returned (`reconstitute_cases`); `isViable` only counts the shards, so it tells
  the truth exactly if too few survive or at most one data shard is lost (`viable_iff_recoverable`). -/

namespace BrowserMesh.Discovery.Stealth
open Js

def nul : CodeUnit := 0

/-- `s.charCodeAt(c)`, where `^` takes `NaN` for 0. -/
def charCodeAt (s : JsString) (c : ℕ) : ℕ := (s[c]?.map Fin.val).getD 0

/-- `String.fromCharCode`. -/
def fromCharCode (n : ℕ) : CodeUnit := Fin.ofNat _ n

/-- `s.slice(start, end)`. -/
def slice (s : JsString) (start stop : ℕ) : JsString := (s.take stop).drop start

/-- `s.padEnd(n, '\0')`. -/
def padEnd (s : JsString) (n : ℕ) : JsString := s ++ List.replicate (n - s.length) nul

/-- `result.replace(/\0+$/, '')`. -/
def stripped (result : JsString) : JsString := result.rdropWhile (· = nul)

/-! ### Shards -/

def simpleChecksum (data : JsString) : ℕ := data.foldl (fun sum c => (sum + c.val) % 2 ^ 32) 0

/-- A shard, and the object that is stored for it. -/
structure StateShard where
  shardId : JsString
  agentId : JsString
  data : JsString
  threshold : ℕ
  total : ℕ
  checksum : ℕ
  deriving DecidableEq

def StateShard.verify (s : StateShard) : Bool := decide (simpleChecksum s.data = s.checksum)

/-- `parseInt(s.shardId.split(':').pop(), 10)`. -/
def StateShard.index (s : StateShard) : Option ℤ := parseInt (lastPart colon s.shardId)

def StateShard.numbered (agentId : JsString) (threshold total i : ℕ) (data : JsString) : StateShard where
  shardId := agentId ++ js ":shard:" ++ decimal i
  agentId
  data
  threshold
  total
  checksum := simpleChecksum data

/-- `Math.ceil(blob.length / threshold)`. -/
def chunkSize (blob : JsString) (threshold : ℕ) : ℕ := (blob.length + threshold - 1) / threshold

def chunk (blob : JsString) (threshold i : ℕ) : JsString :=
  let size := chunkSize blob threshold
  padEnd (slice blob (i * size) (i * size + size)) size

/-- The data of the parity shard `p`. -/
def parityData (chunks : List JsString) (chunkSize threshold p : ℕ) : JsString :=
  (List.range chunkSize).map fun c => fromCharCode
    ((List.range threshold).foldl (fun xorVal d => xorVal ^^^ charCodeAt (chunks.getD ((d + p) % threshold) []) c) 0)

/-- `#splitState`. -/
def splitState (agentId blob : JsString) (threshold total : ℕ) : List StateShard :=
  let chunks := (List.range threshold).map (chunk blob threshold)
  ((List.range threshold).map fun i => .numbered agentId threshold total i (chunk blob threshold i)) ++
    (List.range (total - threshold)).map fun p => .numbered agentId threshold total (threshold + p)
      (parityData chunks (chunkSize blob threshold) threshold p)

/-! ### The data of the shards -/

section data
variable {blob : JsString} {threshold : ℕ}

instance undoes_xor : Parity.Undoes fun a b : ℕ => a ^^^ b := ⟨fun a b => Nat.xor_xor_cancel_right a b⟩

theorem charCodeAt_lt (s : JsString) (c : ℕ) : charCodeAt s c < 2 ^ 16 := by
  unfold charCodeAt
  cases s[c]? with
  | none => decide
  | some unit => exact unit.isLt

theorem foldl_xor_lt {l : List ℕ} (hl : ∀ n ∈ l, n < 2 ^ 16) {e : ℕ} (he : e < 2 ^ 16) :
    l.foldl (fun a b => a ^^^ b) e < 2 ^ 16 := by
  induction l generalizing e with
  | nil => exact he
  | cons a l ih =>
      have ha := hl a List.mem_cons_self
      exact ih (fun n hn => hl n (List.mem_cons_of_mem a hn)) (Nat.xor_lt_two_pow he ha)

theorem fromCharCode_charCodeAt {s : JsString} {c : ℕ} (h : c < s.length) : fromCharCode (charCodeAt s c) = s[c] := by
  have hget : s[c]? = some s[c] := List.getElem?_eq_getElem h
  rw [fromCharCode, charCodeAt, hget]
  exact Fin.ofNat_val_eq_self _

theorem charCodeAt_map {n c : ℕ} (h : c < n) (f : ℕ → ℕ) (hf : f c < 2 ^ 16) :
    charCodeAt ((List.range n).map fun c => fromCharCode (f c)) c = f c := by
  have hget : ((List.range n).map fun c => fromCharCode (f c))[c]? = some (fromCharCode (f c)) := by
    rw [List.getElem?_map, List.getElem?_range h]
    rfl
  rw [charCodeAt, hget]
  exact Nat.mod_eq_of_lt hf

def codes (blob : JsString) (threshold c : ℕ) : List ℕ :=
  (List.range threshold).map fun d => charCodeAt (chunk blob threshold d) c

theorem codes_lt {c : ℕ} : ∀ n ∈ codes blob threshold c, n < 2 ^ 16 := by
  intro n hn
  obtain ⟨d, -, rfl⟩ := List.mem_map.mp hn
  exact charCodeAt_lt _ c

def parityWord (blob : JsString) (threshold : ℕ) : JsString :=
  (List.range (chunkSize blob threshold)).map fun c =>
    fromCharCode ((codes blob threshold c).foldl (fun a b => a ^^^ b) 0)

theorem range_rotated (n p : ℕ) : ((List.range n).map fun d => (d + p) % n).Perm (List.range n) := by
  have hrotate : ((List.range n).map fun d => (d + p) % n) = (List.range n).rotate p := by
    refine List.ext_getElem (by simp) fun i h₁ h₂ => ?_
    simp [List.getElem_rotate]
  rw [hrotate]
  exact List.rotate_perm _ p

theorem parityData_eq (hpos : 0 < threshold) (p : ℕ) :
    parityData ((List.range threshold).map (chunk blob threshold)) (chunkSize blob threshold) threshold p =
      parityWord blob threshold := by
  refine List.map_congr_left fun c _ => congrArg fromCharCode ?_
  have hchunk : ∀ d, ((List.range threshold).map (chunk blob threshold)).getD ((d + p) % threshold) [] =
      chunk blob threshold ((d + p) % threshold) := by
    intro d
    have hlt : (d + p) % threshold < threshold := Nat.mod_lt _ hpos
    rw [List.getD_eq_getElem?_getD, List.getElem?_map, List.getElem?_range hlt]
    rfl
  have hcodes : ((List.range threshold).map fun d =>
      charCodeAt (((List.range threshold).map (chunk blob threshold)).getD ((d + p) % threshold) []) c) =
      ((List.range threshold).map fun d => (d + p) % threshold).map fun d => charCodeAt (chunk blob threshold d) c := by
    rw [List.map_map]
    exact List.map_congr_left fun d _ => congrArg (fun s => charCodeAt s c) (hchunk d)
  rw [← List.foldl_map (f := fun d =>
    charCodeAt (((List.range threshold).map (chunk blob threshold)).getD ((d + p) % threshold) []) c), hcodes]
  exact ((range_rotated threshold p).map _).foldl_op_eq

def shardData (blob : JsString) (threshold i : ℕ) : JsString :=
  if i < threshold then chunk blob threshold i else parityWord blob threshold

theorem length_chunk (i : ℕ) : (chunk blob threshold i).length = chunkSize blob threshold := by
  have hslice : (slice blob (i * chunkSize blob threshold) (i * chunkSize blob threshold + chunkSize blob threshold)).length ≤
      chunkSize blob threshold := by
    rw [slice, List.length_drop, List.length_take]
    omega
  rw [chunk, padEnd, List.length_append, List.length_replicate]
  omega

theorem flatMap_chunk (n : ℕ) : ((List.range n).flatMap (chunk blob threshold)) =
    padEnd (blob.take (n * chunkSize blob threshold)) (n * chunkSize blob threshold) := by
  induction n with
  | zero => simp [padEnd]
  | succ n ih =>
      generalize hsize : chunkSize blob threshold = size at ih
      have hnext : (n + 1) * size = n * size + size := by ring
      rw [List.range_succ, List.flatMap_append, ih, List.flatMap_singleton, chunk, hsize, hnext]
      by_cases hlong : n * size ≤ blob.length
      · -- nothing is padded before this chunk
        have hfull : padEnd (blob.take (n * size)) (n * size) = blob.take (n * size) := by
          have hlen : n * size - (blob.take (n * size)).length = 0 := by
            rw [List.length_take]
            omega
          rw [padEnd, hlen, List.replicate_zero, List.append_nil]
        have hslice : blob.take (n * size) ++ slice blob (n * size) (n * size + size) = blob.take (n * size + size) := by
          have htake : blob.take (n * size) = (blob.take (n * size + size)).take (n * size) := by
            rw [List.take_take, Nat.min_eq_left (Nat.le_add_right _ _)]
          rw [htake, slice, List.take_append_drop]
        have hpad : size - (slice blob (n * size) (n * size + size)).length =
            n * size + size - (blob.take (n * size + size)).length := by
          rw [slice, List.length_drop, List.length_take]
          omega
        rw [hfull, padEnd, ← List.append_assoc, hslice, hpad, padEnd]
      · have hall : ∀ k, n * size ≤ k → blob.take k = blob := fun k hk => List.take_of_length_le (by omega)
        have hslice : slice blob (n * size) (n * size + size) = [] := by
          rw [slice, hall _ (Nat.le_add_right _ _)]
          exact List.drop_of_length_le (by omega)
        have hsum : n * size - blob.length + size = n * size + size - blob.length := by omega
        rw [hslice, hall _ le_rfl, hall _ (Nat.le_add_right _ _), padEnd, padEnd, padEnd, List.nil_append,
          List.length_nil, Nat.sub_zero, List.append_assoc, List.replicate_append_replicate, hsum]

theorem stripped_flatMap_chunk (hpos : 0 < threshold) (hend : blob.getLast? ≠ some nul) :
    stripped ((List.range threshold).flatMap (chunk blob threshold)) = blob := by
  have hsize : blob.length ≤ threshold * chunkSize blob threshold := by
    have hdiv := Nat.div_add_mod (blob.length + threshold - 1) threshold
    have hmod := Nat.mod_lt (blob.length + threshold - 1) hpos
    rw [chunkSize]
    omega
  have hstrip : ∀ n, stripped (blob ++ List.replicate n nul) = blob := by
    intro n
    induction n with
    | zero =>
        rw [List.replicate_zero, List.append_nil, stripped, List.rdropWhile_eq_self_iff]
        intro hne hlast
        refine hend ?_
        rw [List.getLast?_eq_some_getLast hne]
        exact congrArg some (of_decide_eq_true hlast)
    | succ n ih =>
        rw [List.replicate_succ', ← List.append_assoc, stripped, List.rdropWhile_concat_pos _ _ _ (by simp)]
        exact ih
  rw [flatMap_chunk, List.take_of_length_le hsize, padEnd]
  exact hstrip _

end data

/-! ### The node -/

/-- What the agent uses of its DHT node: the values that never expire; `none` for `null`. -/
abbrev DhtNode := JsMap JsString (Option StateShard)

/-- `dhtNode.get`, where `undefined` and `null` are alike. -/
def lookup (dhtNode : DhtNode) (key : JsString) : Option StateShard := (dhtNode.get? key).join

def shardKey (agentId : JsString) (i : ℕ) : JsString := js "stealth:" ++ agentId ++ js ":shard:" ++ decimal i

/-- `#generateShardKeys`. -/
def generateShardKeys (agentId : JsString) (total : ℕ) : List JsString := (List.range total).map (shardKey agentId)

/-- `distribute`; there are as many keys as shards if the threshold is at most the total. -/
def distribute (dhtNode : DhtNode) (agentId blob : JsString) (threshold total : ℕ) : DhtNode × List StateShard :=
  let shards := splitState agentId blob threshold total
  (((generateShardKeys agentId total).zip shards).foldl (fun dhtNode e => dhtNode.set e.1 (some e.2)) dhtNode, shards)

/-- `collect`. -/
def collect (dhtNode : DhtNode) (agentId : JsString) (totalShards : ℕ) : List StateShard :=
  (List.range totalShards).filterMap fun i => (lookup dhtNode (shardKey agentId i)).filter StateShard.verify

/-- `probe`. -/
def probe (dhtNode : DhtNode) (agentId : JsString) (totalShards : ℕ) : ℕ :=
  (collect dhtNode agentId totalShards).length

/-! ### Reconstruction -/

def sortIndex (s : StateShard) : JsNumber := (s.index.map fun idx => JsNumber.ofUnits (idx * oneUnits)).getD .nan

/-- `idxA - idxB`. -/
def compareIndex (a b : StateShard) : JsNumber := (sortIndex a).sub (sortIndex b)

/-- `byIndex` and `parity`. -/
structure Gathered where
  byIndex : JsMap ℤ JsString
  parity : Option JsString

/-- `if (!parity) parity = data`. -/
def Gathered.keepParity (g : Gathered) (data : JsString) : Gathered :=
  if g.parity = none ∨ g.parity = some [] then { g with parity := some data } else g

def Gathered.gather (threshold : ℕ) (g : Gathered) (s : StateShard) : Gathered :=
  match s.index with
  | none => g.keepParity s.data
  | some idx => if idx < threshold then { g with byIndex := g.byIndex.set idx s.data } else g.keepParity s.data

def Gathered.missing (threshold : ℕ) (g : Gathered) : List ℕ :=
  (List.range threshold).filter fun i : ℕ => !g.byIndex.has (i : ℤ)

/-- The chunk that is missing, by the parity and the other chunks. -/
def recovered (byIndex : JsMap ℤ JsString) (parity : JsString) : JsString :=
  (List.range parity.length).map fun c => fromCharCode
    (byIndex.values.foldl (fun xorVal data => xorVal ^^^ charCodeAt data c) (charCodeAt parity c))

/-- The chunks in order, and `'undefined'` for one that is missing. -/
def joined (threshold : ℕ) (byIndex : JsMap ℤ JsString) : JsString :=
  (List.range threshold).flatMap fun i : ℕ => (byIndex.get? (i : ℤ)).getD (js "undefined")

section reconstruction
variable (engine : ArraySort compareIndex)

def reconstruct (threshold : ℕ) (shards : List StateShard) : Except JsString JsString :=
  if shards.length < threshold then
    .error (js "Need at least " ++ decimal threshold ++ js " shards, got " ++ decimal shards.length)
  else
    let g := (engine.sort shards).foldl (Gathered.gather threshold) ⟨JsMap.empty, none⟩
    match g.missing threshold, g.parity with
    | [], _ => .ok (stripped (joined threshold g.byIndex))
    | [i], some parity => .ok (stripped (joined threshold (g.byIndex.set i (recovered g.byIndex parity))))
    | missing, _ => .error (js "Not enough data shards for reconstruction: need " ++ decimal threshold ++ js ", got " ++
        decimal (threshold - missing.length) ++ js " (parity can recover at most one missing data shard)")

end reconstruction

/-! ### The agent -/

structure Manifest where
  agentId : NonEmptyString
  threshold : ℕ
  totalShards : ℕ
  shardIds : List JsString
  hiddenAt : JsNumber

structure StealthAgent where
  agentId : NonEmptyString
  dhtNode : DhtNode
  threshold : ℕ
  totalShards : ℕ
  manifest : Option Manifest

namespace StealthAgent

def hide (a : StealthAgent) (stateBlob : JsString) (now : JsNumber) : StealthAgent × Manifest :=
  let r := distribute a.dhtNode a.agentId.val stateBlob a.threshold a.totalShards
  let manifest := ⟨a.agentId, a.threshold, a.totalShards, r.2.map StateShard.shardId, now⟩
  ({ a with dhtNode := r.1, manifest := some manifest }, manifest)

def reconstitute (a : StealthAgent) (engine : ArraySort compareIndex) : Except JsString JsString :=
  reconstruct engine a.threshold (collect a.dhtNode a.agentId.val a.totalShards)

def isViable (a : StealthAgent) : Bool := decide (a.threshold ≤ probe a.dhtNode a.agentId.val a.totalShards)

end StealthAgent

/-! ### What is stored -/

section stored
variable {agentId blob : JsString} {threshold total : ℕ} {dhtNode : DhtNode}

def shardOf (agentId blob : JsString) (threshold total i : ℕ) : StateShard :=
  .numbered agentId threshold total i (shardData blob threshold i)

theorem index_shardOf (i : ℕ) : (shardOf agentId blob threshold total i).index = some (i : ℤ) := by
  have htagged : (shardOf agentId blob threshold total i).shardId = tagged (agentId ++ js ":shard") i := by
    show agentId ++ js ":shard:" ++ decimal i = agentId ++ js ":shard" ++ colon :: decimal i
    have hcolon : js ":shard:" = js ":shard" ++ [colon] := by decide
    rw [hcolon]
    simp
  rw [StateShard.index, htagged, parseInt_lastPart_tagged]

theorem shardKey_injective (agentId : JsString) : Function.Injective (shardKey agentId) :=
  fun _ _ h => decimal_injective (List.append_cancel_left h)

theorem splitState_eq (hpos : 0 < threshold) (hle : threshold ≤ total) :
    splitState agentId blob threshold total = (List.range total).map (shardOf agentId blob threshold total) := by
  have htotal : total = threshold + (total - threshold) := by omega
  conv_rhs => rw [htotal, List.range_add, List.map_append, List.map_map]
  rw [← htotal]
  refine congrArg₂ (· ++ ·) (List.map_congr_left fun i hi => ?_) (List.map_congr_left fun p _ => ?_)
  · rw [shardOf, shardData, if_pos (List.mem_range.mp hi)]
  · rw [parityData_eq hpos]
    show _ = shardOf agentId blob threshold total (threshold + p)
    rw [shardOf, shardData, if_neg (by omega)]

theorem lookup_distribute (hpos : 0 < threshold) (hle : threshold ≤ total) {i : ℕ} (hi : i < total) :
    lookup (distribute dhtNode agentId blob threshold total).1 (shardKey agentId i) =
      some (shardOf agentId blob threshold total i) := by
  have hzip : (generateShardKeys agentId total).zip (splitState agentId blob threshold total) =
      (List.range total).map fun i => (shardKey agentId i, shardOf agentId blob threshold total i) := by
    rw [generateShardKeys, splitState_eq hpos hle, List.zip_map']
  have hkeys : (((List.range total).map fun i => (shardKey agentId i, shardOf agentId blob threshold total i)).map
      Prod.fst).Nodup := by
    rw [List.map_map]
    exact List.nodup_range.map (shardKey_injective agentId)
  have hget := JsMap.get?_foldl_set (fun _ _ s => some s) _ hkeys dhtNode (shardKey agentId i)
  rw [assoc_of_mem hkeys (List.mem_map_of_mem (List.mem_range.mpr hi))] at hget
  rw [lookup, distribute]
  dsimp only
  rw [hzip, hget]
  rfl

def surviving (dhtNode : DhtNode) (agentId : JsString) (total : ℕ) : List ℕ :=
  (List.range total).filter fun i => (lookup dhtNode (shardKey agentId i)).isSome

/-- Of the shards of the state some may be lost, and none is altered. -/
def Unmodified (dhtNode : DhtNode) (agentId blob : JsString) (threshold total : ℕ) : Prop :=
  ∀ i < total, lookup dhtNode (shardKey agentId i) = none ∨
    lookup dhtNode (shardKey agentId i) = some (shardOf agentId blob threshold total i)

theorem collect_of_unmodified (h : Unmodified dhtNode agentId blob threshold total) :
    collect dhtNode agentId total = (surviving dhtNode agentId total).map (shardOf agentId blob threshold total) := by
  rw [collect, surviving, ← List.filterMap_eq_map, List.filterMap_filter]
  refine List.filterMap_congr fun i hi => ?_
  rcases h i (List.mem_range.mp hi) with hlost | hkept
  · simp [hlost]
  · have hverify : (shardOf agentId blob threshold total i).verify = true := decide_eq_true rfl
    simp [hkept, hverify, Option.filter]

end stored

/-! ### What is gathered -/

section gathered
variable {agentId blob : JsString} {threshold total : ℕ}

theorem entries_set_of_not_mem {κ ν : Type} [DecidableEq κ] {m : JsMap κ ν} {k : κ} {v : ν} (h : k ∉ m.keys) :
    (m.set k v).entries = m.entries ++ [(k, v)] := by
  rw [JsMap.set, dif_neg h]

theorem gather_shardOf (g : Gathered) (hparity : g.parity = none ∨ g.parity = some (parityWord blob threshold)) (i : ℕ) :
    g.gather threshold (shardOf agentId blob threshold total i) =
      if i < threshold then ⟨g.byIndex.set (i : ℤ) (chunk blob threshold i), g.parity⟩
      else ⟨g.byIndex, some (parityWord blob threshold)⟩ := by
  rw [Gathered.gather, index_shardOf]
  dsimp only
  by_cases hdata : i < threshold
  · have hdata' : ((i : ℤ) < threshold) := by exact_mod_cast hdata
    rw [if_pos hdata', if_pos hdata, shardOf, StateShard.numbered, shardData, if_pos hdata]
  · have hdata' : ¬ ((i : ℤ) < threshold) := by exact_mod_cast hdata
    rw [if_neg hdata', if_neg hdata, Gathered.keepParity, shardOf, StateShard.numbered, shardData, if_neg hdata]
    split_ifs with hno
    · rfl
    · rcases hparity with hnone | hsome
      · exact absurd (Or.inl hnone) hno
      · rw [← hsome]

variable (agentId total) in
theorem foldl_gather (l : List ℕ) (hl : l.Nodup) (g : Gathered) (hfresh : ∀ i ∈ l, (i : ℤ) ∉ g.byIndex.keys)
    (hparity : g.parity = none ∨ g.parity = some (parityWord blob threshold)) :
    ((l.map (shardOf agentId blob threshold total)).foldl (Gathered.gather threshold) g).byIndex.entries =
      g.byIndex.entries ++ ((l.filter (· < threshold)).map fun i : ℕ => ((i : ℤ), chunk blob threshold i)) ∧
    ((l.map (shardOf agentId blob threshold total)).foldl (Gathered.gather threshold) g).parity =
      if ∀ i ∈ l, i < threshold then g.parity else some (parityWord blob threshold) := by
  induction l generalizing g with
  | nil => simp
  | cons i l ih =>
      rw [List.nodup_cons] at hl
      rw [List.map_cons, List.foldl_cons, gather_shardOf g hparity]
      have hi := hfresh i List.mem_cons_self
      have hrest : ∀ j ∈ l, (j : ℤ) ∉ g.byIndex.keys := fun j hj => hfresh j (List.mem_cons_of_mem i hj)
      by_cases hdata : i < threshold
      · have hfresh' : ∀ j ∈ l, (j : ℤ) ∉ (g.byIndex.set (i : ℤ) (chunk blob threshold i)).keys := by
          intro j hj
          rw [JsMap.keys_set, if_neg hi, List.mem_append, List.mem_singleton]
          rintro (hold | heq)
          · exact hrest j hj hold
          · exact hl.1 (Int.ofNat_inj.mp heq ▸ hj)
        obtain ⟨hentries, hparity'⟩ := ih hl.2 ⟨g.byIndex.set (i : ℤ) (chunk blob threshold i), g.parity⟩ hfresh' hparity
        rw [if_pos hdata, hentries, hparity', entries_set_of_not_mem hi]
        constructor
        · rw [List.filter_cons_of_pos (by simpa using hdata), List.map_cons, List.append_assoc]
          rfl
        · simp [hdata]
      · obtain ⟨hentries, hparity'⟩ := ih hl.2 ⟨g.byIndex, some (parityWord blob threshold)⟩ hrest (Or.inr rfl)
        rw [if_neg hdata, hentries, hparity', List.filter_cons_of_neg (by simpa using hdata)]
        constructor
        · rfl
        · simp [hdata]

def lost (threshold : ℕ) (l : List ℕ) : List ℕ := (List.range threshold).filter fun i => decide (i ∉ l)

variable {i : ℕ}

theorem mem_lost {l : List ℕ} : i ∈ lost threshold l ↔ i < threshold ∧ i ∉ l := by
  rw [lost, List.mem_filter, List.mem_range, decide_eq_true_iff]

theorem lost_congr {l l' : List ℕ} (h : l.Perm l') : lost threshold l = lost threshold l' :=
  List.filter_congr fun _ _ => decide_eq_decide.mpr (not_congr h.mem_iff)

theorem length_add_lost_le {l : List ℕ} (hl : l.Nodup) (hdata : ∀ i ∈ l, i < threshold) :
    l.length + (lost threshold l).length ≤ threshold := by
  have hnodup : (l ++ lost threshold l).Nodup := by
    rw [List.nodup_append]
    refine ⟨hl, List.nodup_range.filter _, ?_⟩
    rintro i hi j hj rfl
    exact (mem_lost.mp hj).2 hi
  have hsubset : l ++ lost threshold l ⊆ List.range threshold := by
    intro i hi
    rw [List.mem_range]
    rcases List.mem_append.mp hi with hi | hi
    · exact hdata i hi
    · exact (mem_lost.mp hi).1
  have hlength := (List.subperm_of_subset hnodup hsubset).length_le
  rwa [List.length_append, List.length_range] at hlength

/-- What the loop has gathered from these shards. -/
structure Holds (blob : JsString) (threshold : ℕ) (l : List ℕ) (g : Gathered) : Prop where
  entries : g.byIndex.entries = (l.filter (· < threshold)).map fun i : ℕ => ((i : ℤ), chunk blob threshold i)
  parity : g.parity = if ∀ i ∈ l, i < threshold then none else some (parityWord blob threshold)

variable (agentId blob threshold total) in
theorem holds_foldl_gather {l : List ℕ} (hl : l.Nodup) : Holds blob threshold l
    ((l.map (shardOf agentId blob threshold total)).foldl (Gathered.gather threshold) ⟨JsMap.empty, none⟩) := by
  have hfresh : ∀ i ∈ l, (i : ℤ) ∉ (JsMap.empty : JsMap ℤ JsString).keys := fun i _ hmem => by cases hmem
  obtain ⟨hentries, hparity⟩ := foldl_gather agentId total l hl ⟨JsMap.empty, none⟩ hfresh (Or.inl rfl)
  exact ⟨hentries, hparity⟩

variable {l : List ℕ} {g : Gathered}

theorem Holds.get? (h : Holds blob threshold l g) (hi : i < threshold) :
    g.byIndex.get? (i : ℤ) = if i ∈ l then some (chunk blob threshold i) else none := by
  have hmem : ∀ data, g.byIndex.get? (i : ℤ) = some data ↔ i ∈ l ∧ data = chunk blob threshold i := by
    intro data
    rw [← JsMap.mem_entries_iff, h.entries, List.mem_map]
    constructor
    · rintro ⟨j, hj, heq⟩
      obtain ⟨hji, rfl⟩ := Prod.mk.inj heq
      obtain rfl := Int.ofNat_inj.mp hji
      exact ⟨(List.mem_filter.mp hj).1, rfl⟩
    · rintro ⟨hil, rfl⟩
      exact ⟨i, List.mem_filter.mpr ⟨hil, by simpa using hi⟩, rfl⟩
  split_ifs with hil
  · exact (hmem _).mpr ⟨hil, rfl⟩
  · rw [Option.eq_none_iff_forall_not_mem]
    exact fun data hdata => hil ((hmem data).mp hdata).1

theorem Holds.missing_eq (h : Holds blob threshold l g) : g.missing threshold = lost threshold l := by
  refine List.filter_congr fun i hi => ?_
  rw [JsMap.has, h.get? (List.mem_range.mp hi)]
  by_cases hil : i ∈ l <;> simp [hil]

theorem range_perm_of_lost (hl : l.Nodup) (hlost : lost threshold l = [i]) :
    (List.range threshold).Perm (i :: l.filter (· < threshold)) := by
  have hi : i < threshold ∧ i ∉ l := mem_lost.mp (hlost ▸ List.mem_singleton_self i)
  have hnodup : (i :: l.filter (· < threshold)).Nodup := by
    rw [List.nodup_cons]
    exact ⟨fun hmem => hi.2 (List.mem_filter.mp hmem).1, hl.filter _⟩
  rw [List.perm_ext_iff_of_nodup List.nodup_range hnodup]
  intro j
  rw [List.mem_range, List.mem_cons, List.mem_filter, decide_eq_true_iff]
  constructor
  · intro hj
    by_cases hjl : j ∈ l
    · exact Or.inr ⟨hjl, hj⟩
    · have hjlost : j ∈ lost threshold l := mem_lost.mpr ⟨hj, hjl⟩
      rw [hlost] at hjlost
      exact Or.inl (List.mem_singleton.mp hjlost)
  · rintro (rfl | ⟨-, hj⟩)
    · exact hi.1
    · exact hj

theorem Holds.recovered_eq (h : Holds blob threshold l g) (hl : l.Nodup) (hlost : lost threshold l = [i]) :
    recovered g.byIndex (parityWord blob threshold) = chunk blob threshold i := by
  have hlength : (parityWord blob threshold).length = chunkSize blob threshold := by rw [parityWord, List.length_map, List.length_range]
  have hvalues : g.byIndex.values = (l.filter (· < threshold)).map (chunk blob threshold) := by
    rw [JsMap.values, h.entries, List.map_map]
    rfl
  rw [recovered, hlength]
  refine List.ext_getElem (by rw [List.length_map, List.length_range, length_chunk]) fun c h₁ h₂ => ?_
  have hc : c < chunkSize blob threshold := by rwa [length_chunk] at h₂
  have hcodes : (codes blob threshold c).Perm
      (charCodeAt (chunk blob threshold i) c :: g.byIndex.values.map fun data => charCodeAt data c) := by
    rw [hvalues, List.map_map, codes]
    exact (range_perm_of_lost hl hlost).map _
  have hparity : charCodeAt (parityWord blob threshold) c = (codes blob threshold c).foldl (fun a b => a ^^^ b) 0 :=
    charCodeAt_map hc _ (foldl_xor_lt codes_lt (by decide))
  rw [List.getElem_map, List.getElem_range, hparity, ← List.foldl_map (f := fun data => charCodeAt data c),
    Parity.foldl_missing _ hcodes, Nat.zero_xor, fromCharCode_charCodeAt]

theorem Holds.get?_of_lost_nil (h : Holds blob threshold l g) (hlost : lost threshold l = []) :
    ∀ i < threshold, g.byIndex.get? (i : ℤ) = some (chunk blob threshold i) := by
  intro i hi
  have hil : i ∈ l := by
    by_contra hil
    have hmem : i ∈ lost threshold l := mem_lost.mpr ⟨hi, hil⟩
    rw [hlost] at hmem
    cases hmem
  rw [h.get? hi, if_pos hil]

theorem Holds.parity_eq (h : Holds blob threshold l g) (hl : l.Nodup) (hlost : lost threshold l = [i])
    (henough : threshold ≤ l.length) : g.parity = some (parityWord blob threshold) := by
  have hparity : ¬ ∀ i ∈ l, i < threshold := by
    intro hdata
    have hlength := length_add_lost_le hl hdata
    rw [hlost, List.length_singleton] at hlength
    omega
  rw [h.parity, if_neg hparity]

theorem Holds.get?_recovered (h : Holds blob threshold l g) (hl : l.Nodup) (hlost : lost threshold l = [i]) :
    ∀ k < threshold, (g.byIndex.set (i : ℤ) (recovered g.byIndex (parityWord blob threshold))).get? (k : ℤ) =
      some (chunk blob threshold k) := by
  intro k hk
  rw [JsMap.get?_set, h.recovered_eq hl hlost]
  by_cases hki : k = i
  · rw [hki, if_pos rfl]
  · have hkl : k ∈ l := by
      by_contra hkl
      have hmem : k ∈ lost threshold l := mem_lost.mpr ⟨hk, hkl⟩
      rw [hlost] at hmem
      exact hki (List.mem_singleton.mp hmem)
    rw [if_neg fun heq => hki (Int.ofNat_inj.mp heq), h.get? hk, if_pos hkl]

theorem joined_eq (byIndex : JsMap ℤ JsString)
    (hget : ∀ i < threshold, byIndex.get? (i : ℤ) = some (chunk blob threshold i)) :
    joined threshold byIndex = (List.range threshold).flatMap (chunk blob threshold) := by
  rw [joined]
  refine List.flatMap_congr fun i hi => ?_
  rw [hget i (List.mem_range.mp hi)]
  rfl

end gathered

/-! ### Reconstruction from what survives -/

section results
variable {agentId blob : JsString} {threshold total : ℕ} (engine : ArraySort compareIndex)

variable (agentId blob threshold total) in
theorem exists_perm_of_sort (l : List ℕ) : ∃ l' : List ℕ, l'.Perm l ∧
    engine.sort (l.map (shardOf agentId blob threshold total)) = l'.map (shardOf agentId blob threshold total) := by
  have hindex : ∀ i, ((shardOf agentId blob threshold total i).index.getD 0).toNat = i := by
    intro i
    rw [index_shardOf]
    rfl
  have hperm := engine.perm (l.map (shardOf agentId blob threshold total))
  refine ⟨(engine.sort (l.map (shardOf agentId blob threshold total))).map fun s => (s.index.getD 0).toNat, ?_, ?_⟩
  · have hback : (l.map (shardOf agentId blob threshold total)).map (fun s => (s.index.getD 0).toNat) = l := by
      rw [List.map_map]
      exact (List.map_congr_left fun i _ => hindex i).trans (List.map_id l)
    have hnumbers := hperm.map fun s => (s.index.getD 0).toNat
    rwa [hback] at hnumbers
  · rw [List.map_map]
    refine (List.map_id _).symm.trans (List.map_congr_left fun s hs => ?_)
    obtain ⟨i, -, rfl⟩ := List.mem_map.mp (hperm.mem_iff.mp hs)
    exact congrArg (shardOf agentId blob threshold total) (hindex i).symm

/-- The state comes back exactly from enough shards with at most one data shard lost; else the call throws. -/
theorem reconstruct_shardOf (hpos : 0 < threshold) (hend : blob.getLast? ≠ some nul) {l : List ℕ} (hl : l.Nodup) :
    (reconstruct engine threshold (l.map (shardOf agentId blob threshold total)) = .ok blob ∧
      threshold ≤ l.length ∧ (lost threshold l).length ≤ 1) ∨
    (∃ message, reconstruct engine threshold (l.map (shardOf agentId blob threshold total)) = .error message) ∧
      (l.length < threshold ∨ 1 < (lost threshold l).length) := by
  by_cases hfew : l.length < threshold
  · refine Or.inr ⟨?_, Or.inl hfew⟩
    rw [reconstruct, List.length_map, if_pos hfew]
    exact ⟨_, rfl⟩
  obtain ⟨l', hperm, hsort⟩ := exists_perm_of_sort agentId blob threshold total engine l
  have hl' : l'.Nodup := hperm.nodup_iff.mpr hl
  have hholds := holds_foldl_gather agentId blob threshold total hl'
  rw [reconstruct, List.length_map, if_neg hfew, hsort]
  dsimp only
  generalize (l'.map (shardOf agentId blob threshold total)).foldl (Gathered.gather threshold) ⟨JsMap.empty, none⟩ = g
    at hholds
  rw [hholds.missing_eq, ← lost_congr hperm]
  rcases hlost : lost threshold l' with _ | ⟨i, _ | ⟨j, rest⟩⟩
  · refine Or.inl ⟨?_, not_lt.mp hfew, Nat.zero_le 1⟩
    dsimp only
    rw [joined_eq g.byIndex (hholds.get?_of_lost_nil hlost), stripped_flatMap_chunk hpos hend]
  · refine Or.inl ⟨?_, not_lt.mp hfew, le_rfl⟩
    rw [hholds.parity_eq hl' hlost (hperm.length_eq ▸ not_lt.mp hfew)]
    dsimp only
    rw [joined_eq _ (hholds.get?_recovered hl' hlost), stripped_flatMap_chunk hpos hend]
  · exact Or.inr ⟨⟨_, rfl⟩, Or.inr (by simp)⟩

end results

/-! ### Viability -/

namespace StealthAgent

/-- The node with what is left of the shards that the agent stored: some may be lost, and none is altered. -/
def Survive (a : StealthAgent) (dhtNode : DhtNode) : Prop :=
  ∀ i < a.totalShards, lookup dhtNode (shardKey a.agentId.val i) = none ∨
    lookup dhtNode (shardKey a.agentId.val i) = lookup a.dhtNode (shardKey a.agentId.val i)

instance (a : StealthAgent) (dhtNode : DhtNode) : Decidable (a.Survive dhtNode) :=
  inferInstanceAs (Decidable (∀ i < _, _))

/-- `isViable` is true exactly if the state comes back, and no other string ever does. -/
def TellsTruth (a : StealthAgent) (engine : ArraySort compareIndex) (stateBlob : JsString) : Prop :=
  (a.isViable = true ↔ a.reconstitute engine = .ok stateBlob) ∧
    ∀ result, a.reconstitute engine = .ok result → result = stateBlob

def survivors (a : StealthAgent) : List ℕ := surviving a.dhtNode a.agentId.val a.totalShards

section results
variable {a : StealthAgent} {stateBlob : JsString}

theorem isViable_iff (h : Unmodified a.dhtNode a.agentId.val stateBlob a.threshold a.totalShards) :
    a.isViable = true ↔ a.threshold ≤ a.survivors.length := by
  rw [isViable, decide_eq_true_iff, probe, collect_of_unmodified h, List.length_map, survivors]

theorem reconstitute_cases (engine : ArraySort compareIndex)
    (h : Unmodified a.dhtNode a.agentId.val stateBlob a.threshold a.totalShards) (hpos : 0 < a.threshold)
    (hend : stateBlob.getLast? ≠ some nul) :
    (a.reconstitute engine = .ok stateBlob ∧
      a.threshold ≤ a.survivors.length ∧ (lost a.threshold a.survivors).length ≤ 1) ∨
    (∃ message, a.reconstitute engine = .error message) ∧
      (a.survivors.length < a.threshold ∨ 1 < (lost a.threshold a.survivors).length) := by
  rw [reconstitute, collect_of_unmodified h]
  exact reconstruct_shardOf engine hpos hend (List.nodup_range.filter _)

theorem unmodified_of_survive {now : JsNumber} {dhtNode : DhtNode} (hpos : 0 < a.threshold)
    (hle : a.threshold ≤ a.totalShards) (h : (a.hide stateBlob now).1.Survive dhtNode) :
    Unmodified dhtNode a.agentId.val stateBlob a.threshold a.totalShards := by
  intro i hi
  rcases h i hi with hlost | hkept
  · exact Or.inl hlost
  · exact Or.inr (hkept.trans (lookup_distribute hpos hle hi))

end results

/-- **Viability.**  Whatever survives of the shards that `hide` stored, unaltered: `isViable` is true exactly if the state
is reconstituted, and else the call throws, exactly if fewer shards than the threshold survive or at most one data shard
is lost. -/
theorem viable_iff_recoverable (engine : ArraySort compareIndex) (a : StealthAgent) (stateBlob : JsString) (now : JsNumber)
    (dhtNode : DhtNode) (hpos : 1 ≤ a.threshold) (hle : a.threshold ≤ a.totalShards)
    (hend : stateBlob.getLast? ≠ some nul) (hsurvive : (a.hide stateBlob now).1.Survive dhtNode) :
    TellsTruth { (a.hide stateBlob now).1 with dhtNode } engine stateBlob ↔
      (surviving dhtNode a.agentId.val a.totalShards).length < a.threshold ∨
        (lost a.threshold (surviving dhtNode a.agentId.val a.totalShards)).length ≤ 1 := by
  have hunmodified := unmodified_of_survive hpos hle hsurvive
  generalize ha : { (a.hide stateBlob now).1 with dhtNode } = b
  have hunmodified' : Unmodified b.dhtNode b.agentId.val stateBlob b.threshold b.totalShards := ha ▸ hunmodified
  have hsurvivors : b.survivors = surviving dhtNode a.agentId.val a.totalShards := by
    rw [← ha]
    rfl
  have hthreshold : b.threshold = a.threshold := by
    rw [← ha]
    rfl
  have hpos' : 0 < b.threshold := hthreshold ▸ hpos
  have hviable := isViable_iff hunmodified'
  rw [← hsurvivors, ← hthreshold, TellsTruth, hviable]
  rcases reconstitute_cases engine hunmodified' hpos' hend with ⟨hok, henough, hone⟩ | ⟨⟨message, herror⟩, hwhy⟩
  · refine iff_of_true ⟨iff_of_true henough hok, fun result hresult => ?_⟩ (Or.inr hone)
    exact (Except.ok.inj (hok.symm.trans hresult)).symm
  · have hnever : ∀ result, b.reconstitute engine ≠ .ok result := by
      intro result hresult
      cases herror.symm.trans hresult
    constructor
    · intro htruth
      have hfew : ¬ b.threshold ≤ b.survivors.length := fun henough => hnever _ (htruth.1.mp henough)
      exact Or.inl (not_le.mp hfew)
    · intro hholds
      have hfew : b.survivors.length < b.threshold := by
        rcases hwhy with hfew | hmany
        · exact hfew
        · exact hholds.resolve_right (not_le.mpr hmany)
      exact ⟨iff_of_false (not_le.mpr hfew) (hnever _), fun result hresult => absurd hresult (hnever result)⟩

/-- An agent with three data shards and two parity shards. -/
def agentSeven : StealthAgent := ⟨⟨js "agent-007", by decide⟩, JsMap.empty, 3, 5, none⟩

/-- The node after these shards of the agent are lost. -/
def losing (a : StealthAgent) (l : List ℕ) : DhtNode :=
  l.foldl (fun dhtNode i => dhtNode.set (shardKey a.agentId.val i) none) a.dhtNode

theorem viable_iff_recoverable_one_lost :
    TellsTruth { (agentSeven.hide (js "abcdefg") 0).1 with
      dhtNode := (agentSeven.hide (js "abcdefg") 0).1.losing [1] } (JsNumber.byNumber sortIndex) (js "abcdefg") :=
  (viable_iff_recoverable (JsNumber.byNumber sortIndex) agentSeven (js "abcdefg") 0
    ((agentSeven.hide (js "abcdefg") 0).1.losing [1]) (by decide) (by decide) (by decide) (by decide +kernel)).mpr
      (by decide +kernel)

theorem viable_and_lost : ¬ ∀ (engine : ArraySort compareIndex) (a : StealthAgent) (stateBlob : JsString) (now : JsNumber)
    (dhtNode : DhtNode), 1 ≤ a.threshold → a.threshold ≤ a.totalShards → stateBlob.getLast? ≠ some nul →
    (a.hide stateBlob now).1.Survive dhtNode →
    TellsTruth { (a.hide stateBlob now).1 with dhtNode } engine stateBlob := by
  intro h
  have hsurvive : (agentSeven.hide (js "abcdefg") 0).1.Survive ((agentSeven.hide (js "abcdefg") 0).1.losing [0, 1]) := by
    decide +kernel
  have htruth := h (JsNumber.byNumber sortIndex) agentSeven (js "abcdefg") 0 _ (by decide) (by decide) (by decide) hsurvive
  have hok := htruth.1.mp (by decide +kernel)
  have hunmodified := unmodified_of_survive (a := agentSeven) (by decide) (by decide) hsurvive
  rcases reconstitute_cases (a := { (agentSeven.hide (js "abcdefg") 0).1 with
      dhtNode := (agentSeven.hide (js "abcdefg") 0).1.losing [0, 1] }) (JsNumber.byNumber sortIndex) hunmodified
      (by decide) (by decide) with
    ⟨-, -, hone⟩ | ⟨⟨message, herror⟩, -⟩
  · revert hone
    decide +kernel
  · cases herror.symm.trans hok

end StealthAgent
end BrowserMesh.Discovery.Stealth
