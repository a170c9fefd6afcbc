import BrowserMesh.Apps.MerkleProofs

/-! # Comparing two audit chains

* **Groups.**  `detectFork` groups entries by sequence and reports the first group whose entries have different hashes.
* **Back along the links.**  Two valid chains with one hash at a position have one hash at every position before it
  (`hash_before`).
* **Look-alikes.**  Entries have one hash exactly if they look alike.  So the comparison is right exactly as long as entries
  of one position that look alike agree (`audit_forks`). -/

namespace BrowserMesh.Apps
open Js

namespace AuditChain

/-! ### Groups -/

section groups
variable {α κ : Type} [DecidableEq κ]

/-- `for (const a of l) { if (!m.has(key(a))) m.set(key(a), []); m.get(key(a)).push(a) }`. -/
def groupBy (key : α → κ) (l : List α) : JsMap κ (List α) :=
  l.foldl (fun m a => m.set (key a) ((m.get? (key a)).getD [] ++ [a])) JsMap.empty

theorem groupBy_concat (key : α → κ) (l : List α) (a : α) :
    groupBy key (l ++ [a]) = (groupBy key l).set (key a) (((groupBy key l).get? (key a)).getD [] ++ [a]) := by
  rw [groupBy, List.foldl_append]
  rfl

theorem get?_groupBy (key : α → κ) (l : List α) (k : κ) :
    (groupBy key l).get? k = if k ∈ l.map key then some (l.filter fun a => key a = k) else none := by
  induction l using List.reverseRecOn with
  | nil => rfl
  | append_singleton l a ih =>
      have hgroup : ((groupBy key l).get? k).getD [] = l.filter fun a => key a = k := by
        rw [ih]
        split_ifs with hk
        · rfl
        · refine (List.filter_eq_nil_iff.mpr fun b hb hkey => hk ?_).symm
          rw [← of_decide_eq_true hkey]
          exact List.mem_map_of_mem hb
      rw [groupBy_concat, JsMap.get?_set, List.map_append, List.filter_append]
      by_cases hk : k = key a
      · subst hk
        have hmem : key a ∈ l.map key ++ [a].map key := List.mem_append_right _ List.mem_cons_self
        rw [if_pos rfl, hgroup, if_pos hmem]
        simp
      · have hne : ¬ key a = k := fun h => hk h.symm
        rw [if_neg hk, ih]
        simp [hk, hne]

theorem mem_keys_groupBy {key : α → κ} {l : List α} {k : κ} : k ∈ (groupBy key l).keys ↔ ∃ a ∈ l, key a = k := by
  rw [← JsMap.has_iff, JsMap.has, get?_groupBy]
  split_ifs with hk
  · exact iff_of_true rfl (List.mem_map.mp hk)
  · exact iff_of_false (by simp) fun h => hk (List.mem_map.mpr h)

theorem values_groupBy (key : α → κ) (l : List α) :
    (groupBy key l).values = (groupBy key l).keys.map fun k => l.filter fun a => key a = k := by
  rw [JsMap.values, JsMap.keys, List.map_map]
  refine List.map_congr_left ?_
  rintro ⟨k, group⟩ hmem
  have hget := JsMap.mem_entries_iff.mp hmem
  rw [get?_groupBy] at hget
  split_ifs at hget
  exact (Option.some.inj hget).symm

theorem values_groupBy_pair {key : α → κ} {l : List α} {a b : α} (ha : a ∈ l) (hb : b ∈ l) (hne : key a ≠ key b)
    (hall : ∀ c ∈ l, c = a ∨ c = b) :
    ∃ g g', ((groupBy key l).values = [g, g'] ∨ (groupBy key l).values = [g', g]) ∧ g ≠ [] ∧ g' ≠ [] ∧
      (∀ c ∈ g, c = a) ∧ ∀ c ∈ g', c = b := by
  have hkeys : (groupBy key l).keys = [key a, key b] ∨ (groupBy key l).keys = [key b, key a] := by
    refine List.perm_pair.mp ((List.perm_ext_iff_of_nodup (groupBy key l).nodup (by simpa using hne)).mpr fun k => ?_)
    rw [← JsMap.keys, mem_keys_groupBy]
    constructor
    · rintro ⟨c, hc, rfl⟩
      rcases hall c hc with rfl | rfl
      · exact List.mem_cons_self
      · exact List.mem_cons_of_mem _ List.mem_cons_self
    · intro hk
      rcases List.mem_pair.mp hk with rfl | rfl
      · exact ⟨a, ha, rfl⟩
      · exact ⟨b, hb, rfl⟩
  refine ⟨l.filter fun c => key c = key a, l.filter fun c => key c = key b, ?_, ?_, ?_, ?_, ?_⟩
  · rw [values_groupBy]
    exact hkeys.imp (fun h => by rw [h]; rfl) fun h => by rw [h]; rfl
  · exact List.ne_nil_of_mem (List.mem_filter.mpr ⟨ha, decide_eq_true rfl⟩)
  · exact List.ne_nil_of_mem (List.mem_filter.mpr ⟨hb, decide_eq_true rfl⟩)
  · intro c hc
    obtain ⟨hc, hkey⟩ := List.mem_filter.mp hc
    exact (hall c hc).resolve_right fun hcb => hne (by rw [← of_decide_eq_true hkey, hcb])
  · intro c hc
    obtain ⟨hc, hkey⟩ := List.mem_filter.mp hc
    exact (hall c hc).resolve_left fun hca => hne (by rw [← hca, of_decide_eq_true hkey])

theorem one_lt_size_iff {l : List κ} : 1 < (JsSet.ofList l).elems.length ↔ ∃ a ∈ l, ∃ b ∈ l, a ≠ b := by
  have hmem : ∀ a, a ∈ (JsSet.ofList l).elems ↔ a ∈ l := fun a => JsSet.mem_ofList
  have hnodup := (JsSet.ofList l).nodup
  constructor
  · intro h
    rcases hlist : (JsSet.ofList l).elems with _ | ⟨a, _ | ⟨b, rest⟩⟩
    · rw [hlist] at h
      cases h
    · rw [hlist] at h
      exact absurd h (by simp)
    · rw [hlist] at hnodup hmem
      refine ⟨a, (hmem a).mp List.mem_cons_self, b, (hmem b).mp (List.mem_cons_of_mem _ List.mem_cons_self), ?_⟩
      rintro rfl
      exact (List.nodup_cons.mp hnodup).1 List.mem_cons_self
  · rintro ⟨a, ha, b, hb, hne⟩
    by_contra hshort
    have ha := (hmem a).mpr ha
    have hb := (hmem b).mpr hb
    obtain ⟨c, hc⟩ := List.length_eq_one_iff.mp
      (show (JsSet.ofList l).elems.length = 1 by have := List.length_pos_of_mem ha; omega)
    rw [hc] at ha hb
    exact hne ((List.mem_singleton.mp ha).trans (List.mem_singleton.mp hb).symm)

end groups

/-! ### Forks -/

/-- What `detectFork` returns. -/
structure Fork (δ : Type) where
  ancestor : ℤ
  branches : List (List (AuditEntry δ))

section fork
variable {δ : Type} (hash : AuditEntry δ → Bytes)

def forkAt (seq : ℕ) (group : List (AuditEntry δ)) : Option (Fork δ) :=
  if group.length < 2 then none
  else if 1 < (JsSet.ofList (group.map hash)).elems.length then some ⟨seq - 1, (groupBy hash group).values⟩
  else none

/-- `detectFork`. -/
def detectFork (entries : List (AuditEntry δ)) : Option (Fork δ) :=
  if entries.length = 0 then none
  else
    let bySeq := groupBy (fun e => e.sequence) entries
    (bySeq.keys.insertionSort (· ≤ ·)).findSome? fun seq => forkAt hash seq ((bySeq.get? seq).getD [])

variable {hash}

/-- Two entries of the sequence have different hashes. -/
def Diverges (hash : AuditEntry δ → Bytes) (entries : List (AuditEntry δ)) (seq : ℕ) : Prop :=
  ∃ e ∈ entries, ∃ e' ∈ entries, e.sequence = seq ∧ e'.sequence = seq ∧ hash e ≠ hash e'

variable (hash) in
theorem forkAt_eq (seq : ℕ) (entries : List (AuditEntry δ)) :
    (Diverges hash entries seq ∧ forkAt hash seq (entries.filter fun e => e.sequence = seq) =
        some ⟨seq - 1, (groupBy hash (entries.filter fun e => e.sequence = seq)).values⟩) ∨
      ¬ Diverges hash entries seq ∧ forkAt hash seq (entries.filter fun e => e.sequence = seq) = none := by
  have hdiverges : 1 < (JsSet.ofList ((entries.filter fun e => e.sequence = seq).map hash)).elems.length ↔
      Diverges hash entries seq := by
    rw [one_lt_size_iff]
    constructor
    · rintro ⟨_, ha, _, hb, hne⟩
      obtain ⟨e, he, rfl⟩ := List.mem_map.mp ha
      obtain ⟨e', he', rfl⟩ := List.mem_map.mp hb
      obtain ⟨he, hseq⟩ := List.mem_filter.mp he
      obtain ⟨he', hseq'⟩ := List.mem_filter.mp he'
      exact ⟨e, he, e', he', of_decide_eq_true hseq, of_decide_eq_true hseq', hne⟩
    · rintro ⟨e, he, e', he', hseq, hseq', hne⟩
      exact ⟨_, List.mem_map_of_mem (List.mem_filter.mpr ⟨he, decide_eq_true hseq⟩), _,
        List.mem_map_of_mem (List.mem_filter.mpr ⟨he', decide_eq_true hseq'⟩), hne⟩
  by_cases h : Diverges hash entries seq
  · refine Or.inl ⟨h, ?_⟩
    have hlong : ¬ (entries.filter fun e => e.sequence = seq).length < 2 := by
      obtain ⟨e, he, e', he', hseq, hseq', hne⟩ := h
      intro hshort
      have he : e ∈ entries.filter fun e => e.sequence = seq := List.mem_filter.mpr ⟨he, decide_eq_true hseq⟩
      have he' : e' ∈ entries.filter fun e => e.sequence = seq := List.mem_filter.mpr ⟨he', decide_eq_true hseq'⟩
      obtain ⟨a, ha⟩ := List.length_eq_one_iff.mp
        (show (entries.filter fun e => e.sequence = seq).length = 1 by have := List.length_pos_of_mem he; omega)
      rw [ha] at he he'
      rw [List.mem_singleton.mp he, List.mem_singleton.mp he'] at hne
      exact hne rfl
    rw [forkAt, if_neg hlong, if_pos (hdiverges.mpr h)]
  · refine Or.inr ⟨h, ?_⟩
    rw [forkAt, if_neg fun hmany => h (hdiverges.mp hmany)]
    split_ifs <;> rfl

variable {entries : List (AuditEntry δ)}

theorem get?_bySeq {seq : ℕ} (h : seq ∈ (groupBy (fun e : AuditEntry δ => e.sequence) entries).keys) :
    ((groupBy (fun e : AuditEntry δ => e.sequence) entries).get? seq).getD [] =
      entries.filter fun e => e.sequence = seq := by
  rw [get?_groupBy, if_pos (List.mem_map.mpr (mem_keys_groupBy.mp h))]
  rfl

theorem detectFork_eq_none_iff :
    detectFork hash entries = none ↔ ∀ seq, ¬ Diverges hash entries seq := by
  rw [detectFork]
  split_ifs with hempty
  · refine iff_of_true rfl ?_
    rintro seq ⟨e, he, -⟩
    rw [List.length_eq_zero_iff.mp hempty] at he
    cases he
  · dsimp only
    rw [List.findSome?_eq_none_iff]
    constructor
    · rintro h seq ⟨e, he, e', he', hseq, hseq', hne⟩
      have hkey : seq ∈ (groupBy (fun e : AuditEntry δ => e.sequence) entries).keys :=
        mem_keys_groupBy.mpr ⟨e, he, hseq⟩
      have hnone := h seq ((List.mem_insertionSort _).mpr hkey)
      rw [get?_bySeq hkey] at hnone
      rcases forkAt_eq hash seq entries with ⟨-, hsome⟩ | ⟨hnot, -⟩
      · rw [hsome] at hnone
        cases hnone
      · exact hnot ⟨e, he, e', he', hseq, hseq', hne⟩
    · intro h seq hseq
      rw [get?_bySeq ((List.mem_insertionSort _).mp hseq)]
      rcases forkAt_eq hash seq entries with ⟨hdiverges, -⟩ | ⟨-, hnone⟩
      · exact absurd hdiverges (h seq)
      · exact hnone

theorem detectFork_eq_some {fork : Fork δ} (h : detectFork hash entries = some fork) :
    ∃ seq : ℕ, Diverges hash entries seq ∧ (∀ earlier < seq, ¬ Diverges hash entries earlier) ∧
      fork.ancestor = seq - 1 ∧
      fork.branches = (groupBy hash (entries.filter fun e => e.sequence = seq)).values := by
  rw [detectFork] at h
  split_ifs at h with hempty
  dsimp only at h
  obtain ⟨before, seq, after, hsplit, hfork, hbefore⟩ := List.findSome?_eq_some_iff.mp h
  have hmem : ∀ k, k ∈ before ∨ k = seq ∨ k ∈ after ↔
      k ∈ (groupBy (fun e : AuditEntry δ => e.sequence) entries).keys := by
    intro k
    refine Iff.trans ?_ (List.mem_insertionSort (· ≤ ·))
    rw [hsplit]
    simp
  have hkey := (hmem seq).mp (Or.inr (Or.inl rfl))
  rw [get?_bySeq hkey] at hfork
  rcases forkAt_eq hash seq entries with ⟨hdiverges, hsome⟩ | ⟨-, hnone⟩
  · rw [hsome] at hfork
    obtain rfl := Option.some.inj hfork
    refine ⟨seq, hdiverges, fun earlier hlt hearlier => ?_, rfl, rfl⟩
    have hearlierKey : earlier ∈ (groupBy (fun e : AuditEntry δ => e.sequence) entries).keys := by
      obtain ⟨e, he, -, -, hseq, -⟩ := hearlier
      exact mem_keys_groupBy.mpr ⟨e, he, hseq⟩
    have hsorted := List.pairwise_insertionSort (· ≤ ·) (groupBy (fun e : AuditEntry δ => e.sequence) entries).keys
    rw [hsplit] at hsorted
    rcases (hmem earlier).mpr hearlierKey with hin | rfl | hin
    · have hnone := hbefore earlier hin
      rw [get?_bySeq hearlierKey] at hnone
      rcases forkAt_eq hash earlier entries with ⟨-, hsome⟩ | ⟨hnot, -⟩
      · rw [hsome] at hnone
        cases hnone
      · exact hnot hearlier
    · omega
    · have hle := (List.pairwise_cons.mp (List.pairwise_append.mp hsorted).2.1).1 earlier hin
      omega
  · rw [hnone] at hfork
    cases hfork

end fork

/-! ### Two chains -/

section chains
variable {sha256 : Bytes → Digest} {numbers : NumberText} {ed25519 : JsString → Bytes → Bytes → Bool}

def linkHash (sha256 : Bytes → Digest) (numbers : NumberText) (e : AuditEntry Json.Data) : Bytes :=
  (entryHash sha256 numbers e).1

def payloadCrypto (sha256 : Bytes → Digest) (numbers : NumberText) (ed25519 : JsString → Bytes → Bytes → Bool) :
    AuditCrypto Json.Data where
  hash fields := (sha256 (payloadBytes numbers fields)).1
  verify podId fields signature := ed25519 podId (payloadBytes numbers fields) signature

theorem Agree.refl (e : SignedFields Json.Data) : Agree e e := ⟨rfl, rfl, rfl, rfl, rfl, rfl⟩

theorem Agree.symm {e e' : SignedFields Json.Data} (h : Agree e e') : Agree e' e :=
  ⟨h.sequence.symm, h.authorPodId.symm, h.operation.symm, Eq.symm h.data, h.previousHash.symm, h.timestamp.symm⟩

/-- The chain passes `verify`. -/
def Valid (sha256 : Bytes → Digest) (numbers : NumberText) (ed25519 : JsString → Bytes → Bytes → Bool)
    (entries : List (AuditEntry Json.Data)) : Prop :=
  verify (payloadCrypto sha256 numbers ed25519) entries = .ok ()

instance (entries : List (AuditEntry Json.Data)) : Decidable (Valid sha256 numbers ed25519 entries) :=
  inferInstanceAs (Decidable (_ = _))

def payloads (numbers : NumberText) (entries : List (AuditEntry Json.Data)) : List Bytes :=
  entries.map fun e => payloadBytes numbers e.toSignedFields

/-- The first chain is the first part of the second one. -/
def Extends (xs ys : List (AuditEntry Json.Data)) : Prop :=
  xs.length ≤ ys.length ∧ ∀ (i : ℕ) (e e' : AuditEntry Json.Data), xs[i]? = some e → ys[i]? = some e' →
    Agree e.toSignedFields e'.toSignedFields

/-- What the comparison of two chains should report: nothing if one extends the other, else the last position before they
differ, and the two entries that do. -/
def Reported (xs ys : List (AuditEntry Json.Data)) : Option (Fork Json.Data) → Prop
  | none => Extends xs ys ∨ Extends ys xs
  | some fork => ∃ (k : ℕ) (e e' : AuditEntry Json.Data), xs[k]? = some e ∧ ys[k]? = some e' ∧
      ¬ Agree e.toSignedFields e'.toSignedFields ∧
      (∀ i < k, ∀ a b : AuditEntry Json.Data, xs[i]? = some a → ys[i]? = some b →
        Agree a.toSignedFields b.toSignedFields) ∧
      fork.ancestor = k - 1 ∧
      ∃ branch branch', (fork.branches = [branch, branch'] ∨ fork.branches = [branch', branch]) ∧
        branch ≠ [] ∧ branch' ≠ [] ∧ (∀ a ∈ branch, a = e) ∧ ∀ a ∈ branch', a = e'

/-- Chains of one length and last hash agree, and the comparison of their entries reports what it should. -/
structure Evident (sha256 : Bytes → Digest) (numbers : NumberText) (xs ys entries : List (AuditEntry Json.Data)) :
    Prop where
  agree : xs.length = ys.length →
    xs.getLast?.map (linkHash sha256 numbers) = ys.getLast?.map (linkHash sha256 numbers) →
    List.Forall₂ (fun e e' => Agree e.toSignedFields e'.toSignedFields) xs ys
  reported : Reported xs ys (detectFork (linkHash sha256 numbers) entries)

def NoLookAlikes (xs ys : List (AuditEntry Json.Data)) : Prop :=
  ∀ (i : ℕ) (e e' : AuditEntry Json.Data), xs[i]? = some e → ys[i]? = some e' →
    LookAlike e.toSignedFields e'.toSignedFields → Agree e.toSignedFields e'.toSignedFields

variable {entries : List (AuditEntry Json.Data)} {i : ℕ} {e : AuditEntry Json.Data}

theorem verifyFrom_getElem? {crypto : AuditCrypto Json.Data} {start : ℕ}
    {prev : Bytes} (h : verifyFrom crypto start prev entries = .ok ()) (he : entries[i]? = some e) :
    e.sequence = start + i ∧
      ∀ j e', i = j + 1 → entries[j]? = some e' → e.previousHash = crypto.hash e'.toSignedFields := by
  induction entries generalizing start prev i with
  | nil => cases he
  | cons a entries ih =>
      simp only [verifyFrom, Guards.bind_eq_ok] at h
      obtain ⟨_, ha, hrest⟩ := h
      cases i with
      | zero =>
          obtain rfl := Option.some.inj he
          exact ⟨(verifyEntry_eq_ok.mp ha).1, fun j e' hj => by omega⟩
      | succ i =>
          obtain ⟨hseq, hlink⟩ := ih hrest he
          refine ⟨by omega, ?_⟩
          rintro j e' hj he'
          obtain rfl : i = j := by omega
          cases i with
          | zero =>
              obtain rfl := Option.some.inj he'
              cases entries with
              | nil => cases he
              | cons b entries =>
                  obtain rfl := Option.some.inj he
                  simp only [verifyFrom, Guards.bind_eq_ok] at hrest
                  obtain ⟨_, hb, -⟩ := hrest
                  exact (verifyEntry_eq_ok.mp hb).2.1
          | succ i => exact hlink i e' rfl he'

theorem Valid.sequence (h : Valid sha256 numbers ed25519 entries) (he : entries[i]? = some e) : e.sequence = i := by
  rw [(verifyFrom_getElem? h he).1, Nat.zero_add]

variable {e' : AuditEntry Json.Data}

theorem Valid.link (h : Valid sha256 numbers ed25519 entries)
    (he : entries[i]? = some e) (he' : entries[i + 1]? = some e') :
    e'.previousHash = linkHash sha256 numbers e := (verifyFrom_getElem? h he').2 i e rfl he

theorem Valid.getElem?_sequence (h : Valid sha256 numbers ed25519 entries)
    (he : e ∈ entries) : entries[e.sequence]? = some e := by
  obtain ⟨i, hi⟩ := List.mem_iff_getElem?.mp he
  rw [h.sequence hi]
  exact hi

theorem payload_mem (he : entries[i]? = some e) : payloadBytes numbers e.toSignedFields ∈ payloads numbers entries :=
  List.mem_map_of_mem (List.mem_of_getElem? he)

variable {xs ys : List (AuditEntry Json.Data)} (hxs : Valid sha256 numbers ed25519 xs)
  (hys : Valid sha256 numbers ed25519 ys) (hcf : CollisionFree sha256 (payloads numbers xs ++ payloads numbers ys))

include hxs hys hcf

theorem linkHash_eq_iff (he : xs[i]? = some e) (he' : ys[i]? = some e') :
    linkHash sha256 numbers e = linkHash sha256 numbers e' ↔ LookAlike e.toSignedFields e'.toSignedFields := by
  rw [← payloadBytes_eq_iff numbers ((hxs.sequence he).trans (hys.sequence he').symm)]
  constructor
  · intro h
    exact hcf _ (List.mem_append_left _ (payload_mem he)) _ (List.mem_append_right _ (payload_mem he')) (Subtype.ext h)
  · intro h
    rw [linkHash, linkHash, entryHash, entryHash, h]

theorem hash_before {n : ℕ} (he : xs[n]? = some e) (he' : ys[n]? = some e')
    (h : linkHash sha256 numbers e = linkHash sha256 numbers e') (hi : i ≤ n) {a b : AuditEntry Json.Data}
    (ha : xs[i]? = some a) (hb : ys[i]? = some b) : linkHash sha256 numbers a = linkHash sha256 numbers b := by
  induction n generalizing e e' with
  | zero =>
      obtain rfl : i = 0 := by omega
      obtain rfl := Option.some.inj (he.symm.trans ha)
      obtain rfl := Option.some.inj (he'.symm.trans hb)
      exact h
  | succ n ih =>
      by_cases hlast : i = n + 1
      · subst hlast
        obtain rfl := Option.some.inj (he.symm.trans ha)
        obtain rfl := Option.some.inj (he'.symm.trans hb)
        exact h
      · have hlookAlike := (linkHash_eq_iff hxs hys hcf he he').mp h
        have hx : n < xs.length := by have := (List.getElem?_eq_some_iff.mp he).1; omega
        have hy : n < ys.length := by have := (List.getElem?_eq_some_iff.mp he').1; omega
        refine ih (List.getElem?_eq_getElem hx) (List.getElem?_eq_getElem hy) ?_ (by omega)
        rw [← hxs.link (List.getElem?_eq_getElem hx) he, ← hys.link (List.getElem?_eq_getElem hy) he',
          hlookAlike.previousHash]

theorem diverges_iff (hentries : ∀ e, e ∈ entries ↔ e ∈ xs ∨ e ∈ ys) {k : ℕ} :
    Diverges (linkHash sha256 numbers) entries k ↔ ∃ e e' : AuditEntry Json.Data, xs[k]? = some e ∧ ys[k]? = some e' ∧
      ¬ LookAlike e.toSignedFields e'.toSignedFields := by
  constructor
  · rintro ⟨a, ha, b, hb, hak, hbk, hne⟩
    rcases (hentries a).mp ha with ha | ha <;> rcases (hentries b).mp hb with hb | hb
    · have hab := (hxs.getElem?_sequence ha).symm.trans ((hak.trans hbk.symm) ▸ hxs.getElem?_sequence hb)
      exact absurd (congrArg (linkHash sha256 numbers) (Option.some.inj hab)) hne
    · have hax : xs[k]? = some a := hak ▸ hxs.getElem?_sequence ha
      have hby : ys[k]? = some b := hbk ▸ hys.getElem?_sequence hb
      exact ⟨a, b, hax, hby, fun h => hne ((linkHash_eq_iff hxs hys hcf hax hby).mpr h)⟩
    · have hay : ys[k]? = some a := hak ▸ hys.getElem?_sequence ha
      have hbx : xs[k]? = some b := hbk ▸ hxs.getElem?_sequence hb
      exact ⟨b, a, hbx, hay, fun h => hne ((linkHash_eq_iff hxs hys hcf hbx hay).mpr h).symm⟩
    · have hab := (hys.getElem?_sequence ha).symm.trans ((hak.trans hbk.symm) ▸ hys.getElem?_sequence hb)
      exact absurd (congrArg (linkHash sha256 numbers) (Option.some.inj hab)) hne
  · rintro ⟨e, e', he, he', hne⟩
    exact ⟨e, (hentries e).mpr (Or.inl (List.mem_of_getElem? he)), e',
      (hentries e').mpr (Or.inr (List.mem_of_getElem? he')), hxs.sequence he, hys.sequence he',
      fun h => hne ((linkHash_eq_iff hxs hys hcf he he').mp h)⟩

theorem branches_of_diverge (hentries : ∀ e, e ∈ entries ↔ e ∈ xs ∨ e ∈ ys) {k : ℕ} (he : xs[k]? = some e)
    (he' : ys[k]? = some e') (hne : ¬ LookAlike e.toSignedFields e'.toSignedFields) :
    ∃ branch branch',
      ((groupBy (linkHash sha256 numbers) (entries.filter fun a => a.sequence = k)).values = [branch, branch'] ∨
        (groupBy (linkHash sha256 numbers) (entries.filter fun a => a.sequence = k)).values = [branch', branch]) ∧
      branch ≠ [] ∧ branch' ≠ [] ∧ (∀ a ∈ branch, a = e) ∧ ∀ a ∈ branch', a = e' := by
  refine values_groupBy_pair ?_ ?_ (fun h => hne ((linkHash_eq_iff hxs hys hcf he he').mp h)) fun a ha => ?_
  · exact List.mem_filter.mpr ⟨(hentries e).mpr (Or.inl (List.mem_of_getElem? he)), decide_eq_true (hxs.sequence he)⟩
  · exact List.mem_filter.mpr ⟨(hentries e').mpr (Or.inr (List.mem_of_getElem? he')), decide_eq_true (hys.sequence he')⟩
  · obtain ⟨ha, hseq⟩ := List.mem_filter.mp ha
    have hseq : a.sequence = k := of_decide_eq_true hseq
    refine ((hentries a).mp ha).imp (fun ha => ?_) fun ha => ?_
    · exact Option.some.inj ((hseq ▸ hxs.getElem?_sequence ha : xs[k]? = some a).symm.trans he)
    · exact Option.some.inj ((hseq ▸ hys.getElem?_sequence ha : ys[k]? = some a).symm.trans he')

theorem lookAlike_of_last (hlength : xs.length = ys.length)
    (hlast : xs.getLast?.map (linkHash sha256 numbers) = ys.getLast?.map (linkHash sha256 numbers))
    (he : xs[i]? = some e) (he' : ys[i]? = some e') :
    LookAlike e.toSignedFields e'.toSignedFields := by
  have hi := (List.getElem?_eq_some_iff.mp he).1
  rw [List.getLast?_eq_getElem?, List.getLast?_eq_getElem?, ← hlength,
    List.getElem?_eq_getElem (show xs.length - 1 < xs.length by omega),
    List.getElem?_eq_getElem (show xs.length - 1 < ys.length by omega)] at hlast
  exact (linkHash_eq_iff hxs hys hcf he he').mp (hash_before hxs hys hcf
    (List.getElem?_eq_getElem (show xs.length - 1 < xs.length by omega))
    (List.getElem?_eq_getElem (show xs.length - 1 < ys.length by omega)) (Option.some.inj hlast) (by omega) he he')

theorem reported_of_noLookAlikes (hentries : ∀ e, e ∈ entries ↔ e ∈ xs ∨ e ∈ ys) (hno : NoLookAlikes xs ys) :
    Reported xs ys (detectFork (linkHash sha256 numbers) entries) := by
  cases hfork : detectFork (linkHash sha256 numbers) entries with
  | none =>
      have hall := detectFork_eq_none_iff.mp hfork
      have hagree : ∀ (i : ℕ) (e e' : AuditEntry Json.Data), xs[i]? = some e → ys[i]? = some e' →
          Agree e.toSignedFields e'.toSignedFields := by
        intro i e e' he he'
        by_contra hne
        exact hall i ((diverges_iff hxs hys hcf hentries).mpr
          ⟨e, e', he, he', fun h => hne (hno i e e' he he' h)⟩)
      rcases Nat.le_total xs.length ys.length with hle | hle
      · exact Or.inl ⟨hle, hagree⟩
      · exact Or.inr ⟨hle, fun i e e' he he' => (hagree i e' e he' he).symm⟩
  | some fork =>
      obtain ⟨k, hdiverges, hbefore, hancestor, hbranches⟩ := detectFork_eq_some hfork
      obtain ⟨e, e', he, he', hne⟩ := (diverges_iff hxs hys hcf hentries).mp hdiverges
      refine ⟨k, e, e', he, he', fun h => hne h.lookAlike, fun i hi a b ha hb => ?_, hancestor, ?_⟩
      · by_contra hagree
        exact hbefore i hi ((diverges_iff hxs hys hcf hentries).mpr ⟨a, b, ha, hb, fun h => hagree (hno i a b ha hb h)⟩)
      · rw [hbranches]
        exact branches_of_diverge hxs hys hcf hentries he he' hne

theorem noLookAlikes_of_reported (hentries : ∀ e, e ∈ entries ↔ e ∈ xs ∨ e ∈ ys)
    (hreported : Reported xs ys (detectFork (linkHash sha256 numbers) entries)) : NoLookAlikes xs ys := by
  intro i e e' he he' hlookAlike
  cases hfork : detectFork (linkHash sha256 numbers) entries with
  | none =>
      rw [hfork] at hreported
      rcases hreported with ⟨-, hagree⟩ | ⟨-, hagree⟩
      · exact hagree i e e' he he'
      · exact (hagree i e' e he' he).symm
  | some fork =>
      rw [hfork] at hreported
      obtain ⟨k, a, b, ha, hb, -, hagree, hancestor, -⟩ := hreported
      by_cases hi : i < k
      · exact hagree i hi e e' he he'
      · -- a hash that is shared at `i` is shared at `k`, where the entries diverge
        obtain ⟨seq, hdiverges, -, hseq, -⟩ := detectFork_eq_some hfork
        obtain rfl : k = seq := by omega
        obtain ⟨c, d, hc, hd, hne⟩ := (diverges_iff hxs hys hcf hentries).mp hdiverges
        have hhash := hash_before hxs hys hcf he he' ((linkHash_eq_iff hxs hys hcf he he').mpr hlookAlike)
          (Nat.le_of_not_lt hi) hc hd
        exact absurd ((linkHash_eq_iff hxs hys hcf hc hd).mp hhash) hne

theorem audit_forks (entries : List (AuditEntry Json.Data)) (hentries : ∀ e, e ∈ entries ↔ e ∈ xs ∨ e ∈ ys) :
    Evident sha256 numbers xs ys entries ↔ NoLookAlikes xs ys := by
  constructor
  · exact fun h => noLookAlikes_of_reported hxs hys hcf hentries h.reported
  · intro hno
    refine ⟨fun hlength hlast => List.forall₂_iff_get.mpr ⟨hlength, fun i hx hy => ?_⟩,
      reported_of_noLookAlikes hxs hys hcf hentries hno⟩
    have hex : xs[i]? = some (xs.get ⟨i, hx⟩) := List.getElem?_eq_getElem hx
    have hey : ys[i]? = some (ys.get ⟨i, hy⟩) := List.getElem?_eq_getElem hy
    exact hno i _ _ hex hey (lookAlike_of_last hxs hys hcf hlength hlast hex hey)

end chains

def signedEntry (sequence : ℕ) (previousHash : Bytes) (data : Json.Data) : AuditEntry Json.Data :=
  ⟨⟨sequence, js "A", js "put", data, previousHash, .ofNat 0⟩, some []⟩

theorem isData_null : Json.isData .null = true := rfl

/-- The first entry of a chain that puts `null`. -/
def nullEntry : AuditEntry Json.Data := signedEntry 0 GENESIS_HASH ⟨.null, isData_null⟩

def boolEntry (b : Bool) : AuditEntry Json.Data := signedEntry 1 (linkHash checksum unitNumbers nullEntry) ⟨.bool b, rfl⟩

theorem audit_forks_small :
    Evident checksum unitNumbers [nullEntry, boolEntry true] [nullEntry, boolEntry false]
      ([nullEntry, boolEntry true] ++ [nullEntry, boolEntry false]) := by
  have hvalid : ∀ b, Valid checksum unitNumbers (fun _ _ _ => true) [nullEntry, boolEntry b] := by decide +kernel
  have hcf : CollisionFree checksum
      (payloads unitNumbers [nullEntry, boolEntry true] ++ payloads unitNumbers [nullEntry, boolEntry false]) := by
    decide +kernel
  refine (audit_forks (hvalid true) (hvalid false) hcf _ fun _ => List.mem_append).mpr ?_
  intro i e e' he he' hlookAlike
  rcases i with _ | _ | i
  · rw [List.getElem?_cons_zero] at he he'
    cases he
    cases he'
    exact Agree.refl _
  · rw [List.getElem?_cons_succ, List.getElem?_cons_zero] at he he'
    cases he
    cases he'
    exact absurd (congrArg (Json.stringify unitNumbers) hlookAlike.data) (by decide +kernel)
  · cases he

/-- The entry whose data is an object with the own field `__proto__`. -/
def protoEntry (b : Bool) : AuditEntry Json.Data :=
  signedEntry 0 GENESIS_HASH ⟨.object [(js "__proto__", .bool b)], by cases b <;> decide +kernel⟩

/-- What the field `__proto__` holds is not hashed. -/
theorem audit_forks_unhashed :
    ¬ ∀ (sha256 : Bytes → Digest) (numbers : NumberText) (ed25519 : JsString → Bytes → Bytes → Bool)
        (xs ys : List (AuditEntry Json.Data)), Valid sha256 numbers ed25519 xs → Valid sha256 numbers ed25519 ys →
        CollisionFree sha256 (payloads numbers xs ++ payloads numbers ys) →
        ∀ entries : List (AuditEntry Json.Data), (∀ e, e ∈ entries ↔ e ∈ xs ∨ e ∈ ys) →
        Evident sha256 numbers xs ys entries := by
  intro hall
  have hevident := hall checksum unitNumbers (fun _ _ _ => true) [protoEntry true] [protoEntry false]
    (by decide +kernel) (by decide +kernel) (by decide +kernel) _ fun _ => List.mem_append
  obtain ⟨hagree, -⟩ := List.forall₂_cons.mp (hevident.agree rfl (by decide +kernel))
  exact absurd (congrArg (Json.stringify unitNumbers) hagree.data) (by decide +kernel)

end AuditChain
end BrowserMesh.Apps
