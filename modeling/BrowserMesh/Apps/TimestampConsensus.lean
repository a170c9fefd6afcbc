import BrowserMesh.Apps.TimestampAuthority
import BrowserMesh.Js.Midpoint
import BrowserMesh.Library.Median

/-! # What a timestamp proof is worth

More than half of the timestamps in an interval put the two middle ones there (`Median.IsNth.mem_of_majority`), and with
them the median (`median_mem`), so the filter keeps that half and the second median lies in the interval as well.  What
can go wrong is outside of this argument: a timestamp that is `NaN`, with which the sort promises no order
(`nanInTheMiddle`), middle values whose sum overflows, and timestamps so far apart that none is near the median. -/

namespace BrowserMesh.Apps
open Js Median
namespace TimestampAuthority

/-! ### Medians -/

instance (l : List JsNumber) (k : ℕ) (x : JsNumber) : Decidable (IsNth l k x) := inferInstanceAs (Decidable (_ ∧ _))

/-- `m` is the middle element of `l`, or the mean of the two middle elements. -/
def IsMedian (l : List JsNumber) (m : JsNumber) : Prop :=
  ∃ x y, IsNth l ((l.length - 1) / 2) x ∧ IsNth l (l.length / 2) y ∧
    m = if l.length % 2 = 1 then y else (x.add y).divNat 2

variable {l : List JsNumber} {m m' : JsNumber}

theorem IsMedian.unique (h : IsMedian l m) (h' : IsMedian l m') : m = m' := by
  obtain ⟨x, y, hx, hy, rfl⟩ := h
  obtain ⟨x', y', hx', hy', rfl⟩ := h'
  rw [hx.unique hx', hy.unique hy']

theorem IsMedian.ne_nil (h : IsMedian l m) : l ≠ [] := by
  obtain ⟨x, y, hx, _⟩ := h
  exact List.ne_nil_of_mem hx.mem

theorem computeMedian_isMedian (engine : ArraySort JsNumber.sub) (hnan : .nan ∉ l) (hne : l ≠ []) :
    IsMedian l (computeMedian engine l) := by
  have hlen : (engine.sort l).length = l.length := (engine.perm l).length_eq
  have hpos : 0 < l.length := List.length_pos_of_ne_nil hne
  have hnth : ∀ k, k < l.length → IsNth l k ((engine.sort l).getD k .nan) := by
    intro k hk
    rw [List.getD_eq_getElem _ _ (hlen ▸ hk)]
    exact (isNth_getElem (JsNumber.sorted_of_no_nan engine hnan) (hlen ▸ hk)).perm (engine.perm l)
  refine ⟨_, _, hnth ((l.length - 1) / 2) (by omega), hnth (l.length / 2) (by omega), ?_⟩
  unfold computeMedian
  rw [if_neg (by omega)]
  simp only [hlen]
  split_ifs with hodd
  · rfl
  · rw [show l.length / 2 - 1 = (l.length - 1) / 2 by omega]

theorem exists_fin {z : JsNumber} (hz : z.isFinite = true) : ∃ n hn, z = .fin n hn := by
  obtain ⟨n, hn⟩ := Option.isSome_iff_exists.mp hz
  obtain ⟨hd, rfl⟩ := JsNumber.units?_eq_some.mp hn
  exact ⟨n, hd, rfl⟩

theorem isFinite_of_mem {a b z : JsNumber} (ha : a.isFinite = true) (hb : b.isFinite = true) (hz : a ≤ z ∧ z ≤ b) :
    z.isFinite = true := by
  obtain ⟨p, hp, rfl⟩ := exists_fin ha
  obtain ⟨q, hq, rfl⟩ := exists_fin hb
  cases z with
  | nan => exact absurd (le_antisymm hz.2 (JsNumber.le_nan _)) (by simp)
  | negInf => exact absurd (le_antisymm hz.1 (JsNumber.negInf_le _)) (by simp)
  | posInf => exact absurd (le_antisymm hz.2 (JsNumber.fin_le_posInf _)) (by simp)
  | fin n hn => rfl

theorem median_mem {a b : JsNumber} (ha : a.isFinite = true) (hb : b.isFinite = true) (h : IsMedian l m)
    (hmaj : Majority l a b) : (a ≤ m ∧ m ≤ b) ∨ m = .posInf ∨ m = .negInf := by
  obtain ⟨x, y, hx, hy, rfl⟩ := h
  have hxmem := hx.mem_of_majority (Or.inl rfl) hmaj
  have hymem := hy.mem_of_majority (Or.inr rfl) hmaj
  split_ifs
  · exact Or.inl hymem
  · obtain ⟨i, hi, rfl⟩ := exists_fin (isFinite_of_mem ha hb hxmem)
    obtain ⟨j, hj, rfl⟩ := exists_fin (isFinite_of_mem ha hb hymem)
    obtain ⟨p, hp, rfl⟩ := exists_fin ha
    obtain ⟨q, hq, rfl⟩ := exists_fin hb
    rw [JsNumber.fin_le_fin, JsNumber.fin_le_fin] at hxmem hymem
    exact JsNumber.midpoint_mem hp hq hxmem.1 hxmem.2 hymem.1 hymem.2

/-! ### What is asked for -/

/-- More than half of the timestamps lie in `[a, b]`, an interval no longer than the skew. -/
def Agreement (clockSkewMs : JsNumber) (values : List JsNumber) (a b : JsNumber) : Prop :=
  a.isFinite ∧ b.isFinite ∧ (b.sub a).le clockSkewMs ∧ Majority values a b

instance (clockSkewMs : JsNumber) (values : List JsNumber) (a b : JsNumber) :
    Decidable (Agreement clockSkewMs values a b) := inferInstanceAs (Decidable (_ ∧ _))

variable (text : JsNumber → JsString) (signer : Signer) (clockSkewMs localTime : JsNumber) (eventHash : NonEmptyString)
  (peerTimestamps : Option (JsMap JsString JsNumber))

/-- The canonical timestamp lies in every interval of agreement, whose timestamps are witnesses, and the proof passes
its own checks. -/
structure Tolerates (timestamps : JsMap JsString JsNumber) (proof : TimestampProof) : Prop where
  canonical : ∀ a b, Agreement clockSkewMs timestamps.values a b →
    a ≤ proof.canonicalTimestamp ∧ proof.canonicalTimestamp ≤ b
  witnesses : ∀ a b, Agreement clockSkewMs timestamps.values a b → ∀ e ∈ timestamps.entries, a ≤ e.2 → e.2 ≤ b →
    ∃ w ∈ proof.witnesses, w.podId = e.1 ∧ w.localTimestamp = e.2
  structureValid : (proof.verify text none).valid = true
  signaturesValid : (proof.verify text (some signer.verifyFn)).valid = true

/-- No timestamp is `NaN`; some are near the median of all, the median of these is not `0` or below, and it is finite
when more than half of the timestamps agree. -/
def Settled (values : List JsNumber) : Prop :=
  .nan ∉ values ∧ ∃ m c, IsMedian values m ∧ IsMedian (values.filter (within clockSkewMs m)) c ∧ c.le 0 = false ∧
    ((∃ a b, Agreement clockSkewMs values a b) → c.isFinite = true)

variable {text signer clockSkewMs localTime eventHash peerTimestamps}

/-! ### The filter -/

theorem values_rejectOutliers (clockSkewMs : JsNumber) (timestamps : JsMap JsString JsNumber) (median : JsNumber) :
    (rejectOutliers clockSkewMs timestamps median).values = timestamps.values.filter (within clockSkewMs median) := by
  rw [JsMap.values, JsMap.values, rejectOutliers, List.filter_map]
  rfl

theorem within_ne_nan {median ts : JsNumber} (h : within clockSkewMs median ts = true) : ts ≠ .nan := by
  rintro rfl
  have hsub : JsNumber.nan.sub median = .nan := JsNumber.nan_add
  rw [within, hsub] at h
  exact absurd h (by simp [JsNumber.abs, JsNumber.lt, JsNumber.le])

theorem within_nan (ts : JsNumber) : within clockSkewMs .nan ts = false := by
  have hsub : ts.sub .nan = .nan := JsNumber.add_nan
  rw [within, hsub]
  simp [JsNumber.abs, JsNumber.lt, JsNumber.le]

theorem posInf_le_iff {c : JsNumber} : JsNumber.le .posInf c = true ↔ c = .posInf := by
  rw [JsNumber.le, decide_eq_true_iff]
  constructor
  · rintro ⟨_, hnan, hle⟩
    cases c with
    | nan => exact absurd rfl hnan
    | negInf => exact absurd (le_antisymm hle (JsNumber.negInf_le _)) (by simp)
    | posInf => rfl
    | fin n hn => exact absurd (le_antisymm hle (JsNumber.fin_le_posInf hn)) (by simp)
  · rintro rfl
    exact ⟨by simp, by simp, le_rfl⟩

theorem within_infinite {median ts : JsNumber} (hm : median = .posInf ∨ median = .negInf) :
    within clockSkewMs median ts = true ↔ clockSkewMs = .posInf ∧ ts ≠ .nan ∧ ts ≠ median := by
  have hpos : JsNumber.posInf.abs = .posInf := by decide
  have hneg : JsNumber.negInf.abs = .posInf := by decide
  cases ts with
  | nan => simpa using fun h => within_ne_nan h rfl
  | negInf =>
      rcases hm with rfl | rfl
      · have hsub : JsNumber.negInf.sub .posInf = .negInf := rfl
        rw [within, hsub, hneg, posInf_le_iff]
        simp
      · have hsub : JsNumber.negInf.sub .negInf = .nan := rfl
        rw [within, hsub]
        simp [JsNumber.abs, JsNumber.lt, JsNumber.le]
  | posInf =>
      rcases hm with rfl | rfl
      · have hsub : JsNumber.posInf.sub .posInf = .nan := rfl
        rw [within, hsub]
        simp [JsNumber.abs, JsNumber.lt, JsNumber.le]
      · have hsub : JsNumber.posInf.sub .negInf = .posInf := rfl
        rw [within, hsub, hpos, posInf_le_iff]
        simp
  | fin n hn =>
      rcases hm with rfl | rfl
      · have hsub : (JsNumber.fin n hn).sub .posInf = .negInf := rfl
        rw [within, hsub, hneg, posInf_le_iff]
        simp
      · have hsub : (JsNumber.fin n hn).sub .negInf = .posInf := rfl
        rw [within, hsub, hpos, posInf_le_iff]
        simp

theorem within_of_agreement {values : List JsNumber} {a b ts : JsNumber} (h : Agreement clockSkewMs values a b)
    (hm : IsMedian values m) (hsome : values.filter (within clockSkewMs m) ≠ []) (hts : a ≤ ts ∧ ts ≤ b) :
    within clockSkewMs m ts = true := by
  obtain ⟨ha, hb, hskew, hmaj⟩ := h
  obtain ⟨n, hn, rfl⟩ := exists_fin (isFinite_of_mem ha hb hts)
  rcases median_mem ha hb hm hmaj with hmem | hinf
  · obtain ⟨j, hj, rfl⟩ := exists_fin (isFinite_of_mem ha hb hmem)
    obtain ⟨p, hp, rfl⟩ := exists_fin ha
    obtain ⟨q, hq, rfl⟩ := exists_fin hb
    rw [JsNumber.fin_le_fin, JsNumber.fin_le_fin] at hts hmem
    exact JsNumber.distance_le hts.1 hts.2 hmem.1 hmem.2 hskew
  · obtain ⟨w, hw⟩ := List.exists_mem_of_ne_nil _ hsome
    obtain ⟨hskew', _⟩ := (within_infinite hinf).mp (List.mem_filter.mp hw).2
    refine (within_infinite hinf).mpr ⟨hskew', by simp, ?_⟩
    rcases hinf with rfl | rfl <;> simp

/-! ### The proof -/

theorem verify_stamp (engine : ArraySort JsNumber.sub) (verifyFn : Option (JsString → JsString → JsString → Bool))
    (hverify : verifyFn = none ∨ verifyFn = some signer.verifyFn) :
    ((stamp engine text signer clockSkewMs localTime eventHash peerTimestamps).verify text verifyFn).valid = true ↔
      (stamp engine text signer clockSkewMs localTime eventHash peerTimestamps).canonicalTimestamp.le 0 = false ∧
        (stamp engine text signer clockSkewMs localTime eventHash peerTimestamps).witnesses ≠ [] := by
  generalize hproof : stamp engine text signer clockSkewMs localTime eventHash peerTimestamps = proof
  have hhash : proof.eventHash ≠ [] := by
    rw [← hproof]
    exact eventHash.2
  have hauthority : proof.signature ≠ [] ∧ signer.verifyFn proof.issuedBy proof.signature
      (TimestampProof.authorityData text proof.eventHash proof.canonicalTimestamp) = true := by
    rw [← hproof]
    exact ⟨signer.nonempty _, signer.accepts _⟩
  have hwitnesses : proof.witnesses.findSome? (TimestampProof.witnessFailure text signer.verifyFn proof) = none := by
    rw [List.findSome?_eq_none_iff]
    intro w hw
    have hsign : w.signature = signer.sign (TimestampProof.witnessData text proof.eventHash w.podId w.localTimestamp) ∧
        proof.issuedBy = signer.podId := by
      rw [← hproof] at hw ⊢
      obtain ⟨e, _, rfl⟩ := List.mem_map.mp hw
      exact ⟨rfl, rfl⟩
    rw [TimestampProof.witnessFailure, hsign.1, hsign.2, if_neg (signer.nonempty _), if_pos (signer.accepts _)]
  have hempty : proof.witnesses.isEmpty = true ↔ proof.witnesses = [] := List.isEmpty_iff
  unfold TimestampProof.verify
  rw [if_neg hhash]
  by_cases hpos : proof.canonicalTimestamp.le 0 = true
  · rw [if_pos hpos]
    simp [TimestampProof.invalid, hpos]
  by_cases hnone : proof.witnesses.isEmpty = true
  · rw [if_neg hpos, if_pos hnone]
    simp [TimestampProof.invalid, hempty.mp hnone]
  have hne : proof.witnesses ≠ [] := fun h => hnone (hempty.mpr h)
  have hpos' : proof.canonicalTimestamp.le 0 = false := Bool.eq_false_of_not_eq_true hpos
  rw [if_neg hpos, if_neg hnone]
  rcases hverify with rfl | rfl
  · simp [hpos', hne]
  · simp [hauthority.1, hauthority.2, hwitnesses, hpos', hne]

/-! ### An engine that disturbs the order -/

/-- A sort that leaves `NaN` in the middle, when there is one. -/
def nanInTheMiddle : ArraySort JsNumber.sub where
  sort l :=
    if .nan ∈ l then (l.erase .nan).take (l.length / 2) ++ .nan :: (l.erase .nan).drop (l.length / 2)
    else l.insertionSort (· ≤ ·)
  perm l := by
    split_ifs with h
    · refine List.perm_middle.trans ?_
      rw [List.take_append_drop]
      exact (List.perm_cons_erase h).symm
    · exact List.perm_insertionSort _ l
  sorted l hl := by
    split_ifs with h
    · -- everything is tied with `NaN`, so the elements of `l` are tied with each other
      have htied : ∀ a ∈ l, Tied JsNumber.sub a .nan ∧ Tied JsNumber.sub .nan a := by
        intro a _
        have hsub : a.sub .nan = .nan := JsNumber.add_nan
        have hsub' : JsNumber.nan.sub a = .nan := JsNumber.nan_add
        unfold Tied Before After
        rw [hsub, hsub']
        simp [JsNumber.lt]
      have hmem : ∀ a ∈ (l.erase .nan).take (l.length / 2) ++ .nan :: (l.erase .nan).drop (l.length / 2), a ∈ l := by
        intro a ha
        rcases List.mem_append.mp ha with ha | ha
        · exact List.mem_of_mem_erase (List.mem_of_mem_take ha)
        · rcases List.mem_cons.mp ha with rfl | ha
          · exact h
          · exact List.mem_of_mem_erase (List.mem_of_mem_drop ha)
      refine List.Pairwise.imp_of_mem (R := fun _ _ => True) (fun {a b} ha hb _ => ?_) (List.pairwise_of_forall (by simp))
      exact (hl.trans a (hmem a ha) .nan h b (hmem b hb) (htied a (hmem a ha)).1 (htied b (hmem b hb)).2).2
    · have hmem : ∀ a ∈ l.insertionSort (· ≤ ·), a ≠ .nan := fun a ha heq => h (heq ▸ (List.mem_insertionSort _).mp ha)
      refine List.Pairwise.imp_of_mem (fun {a b} ha hb hle => ?_) (List.pairwise_insertionSort (· ≤ ·) l)
      rw [JsNumber.after_sub_iff (hmem a ha) (hmem b hb)]
      exact not_lt.mpr hle

/-- The median is `NaN` then. -/
theorem computeMedian_nanInTheMiddle (h : .nan ∈ l) : computeMedian nanInTheMiddle l = .nan := by
  have hpos : 0 < l.length := List.length_pos_of_mem h
  have hlen : (l.erase .nan).length = l.length - 1 := List.length_erase_of_mem h
  have hsort : nanInTheMiddle.sort l =
      (l.erase .nan).take (l.length / 2) ++ .nan :: (l.erase .nan).drop (l.length / 2) := if_pos h
  have hmid : (nanInTheMiddle.sort l).getD (l.length / 2) .nan = .nan := by
    rw [hsort, List.getD_append_right _ _ _ _ (by rw [List.length_take]; omega)]
    have hzero : l.length / 2 - ((l.erase .nan).take (l.length / 2)).length = 0 := by
      rw [List.length_take]
      omega
    rw [hzero]
    rfl
  have hsorted : (nanInTheMiddle.sort l).length = l.length := (nanInTheMiddle.perm l).length_eq
  unfold computeMedian
  rw [if_neg (by omega)]
  simp only [hsorted, hmid]
  split_ifs
  · rfl
  · rw [JsNumber.add_nan]
    rfl

/-! ### Main result -/

/-- Whatever the engine does where the sort promises nothing, the canonical timestamp lies where more than half of the
timestamps agree and the proof is valid, exactly when the timestamps are settled. -/
theorem stamp_tolerates (text : JsNumber → JsString) (signer : Signer) (clockSkewMs localTime : JsNumber)
    (eventHash : NonEmptyString) (peerTimestamps : Option (JsMap JsString JsNumber)) :
    (∀ engine, Tolerates text signer clockSkewMs (allTimestamps signer.podId localTime peerTimestamps)
        (stamp engine text signer clockSkewMs localTime eventHash peerTimestamps)) ↔
      Settled clockSkewMs (allTimestamps signer.podId localTime peerTimestamps).values := by
  generalize htimestamps : allTimestamps signer.podId localTime peerTimestamps = timestamps
  have hcanonical : ∀ engine, (stamp engine text signer clockSkewMs localTime eventHash peerTimestamps).canonicalTimestamp =
      computeMedian engine (timestamps.values.filter (within clockSkewMs (computeMedian engine timestamps.values))) := by
    intro engine
    rw [← values_rejectOutliers, ← htimestamps]
    rfl
  have hwitnesses : ∀ engine, (stamp engine text signer clockSkewMs localTime eventHash peerTimestamps).witnesses = [] ↔
      timestamps.values.filter (within clockSkewMs (computeMedian engine timestamps.values)) = [] := by
    intro engine
    rw [← values_rejectOutliers, ← htimestamps, JsMap.values]
    simp [stamp]
  constructor
  · intro h
    have hverify : ∀ engine, _ := fun engine =>
      (verify_stamp engine none (Or.inl rfl)).mp (h engine).structureValid
    have hnan : .nan ∉ timestamps.values := by
      intro hnan
      refine (hverify nanInTheMiddle).2 ((hwitnesses _).mpr ?_)
      rw [computeMedian_nanInTheMiddle hnan, List.filter_eq_nil_iff]
      exact fun ts _ => by rw [within_nan]; simp
    have hne := (hwitnesses nanInTheMiddle).not.mp (hverify nanInTheMiddle).2
    have hne' : timestamps.values ≠ [] := fun hnil => hne (by rw [hnil]; rfl)
    refine ⟨hnan, _, _, computeMedian_isMedian nanInTheMiddle hnan hne',
      computeMedian_isMedian nanInTheMiddle (fun hmem => hnan (List.mem_filter.mp hmem).1) hne, ?_, ?_⟩
    · rw [← hcanonical]
      exact (hverify nanInTheMiddle).1
    · rintro ⟨a, b, hab⟩
      rw [← hcanonical]
      exact isFinite_of_mem hab.1 hab.2.1 ((h nanInTheMiddle).canonical a b hab)
  · rintro ⟨hnan, m, c, hm, hc, hpos, hfinite⟩ engine
    have hmedian : computeMedian engine timestamps.values = m :=
      (computeMedian_isMedian engine hnan hm.ne_nil).unique hm
    have hcanon : (stamp engine text signer clockSkewMs localTime eventHash peerTimestamps).canonicalTimestamp = c := by
      rw [hcanonical, hmedian]
      exact (computeMedian_isMedian engine (fun hmem => hnan (List.mem_filter.mp hmem).1) hc.ne_nil).unique hc
    have hvalid : ∀ verifyFn, verifyFn = none ∨ verifyFn = some signer.verifyFn →
        ((stamp engine text signer clockSkewMs localTime eventHash peerTimestamps).verify text verifyFn).valid = true := by
      intro verifyFn hverifyFn
      refine (verify_stamp engine verifyFn hverifyFn).mpr ⟨by rw [hcanon]; exact hpos, ?_⟩
      rw [Ne, hwitnesses, hmedian]
      exact hc.ne_nil
    refine ⟨fun a b hab => ?_, fun a b hab e he ha hb => ?_, hvalid _ (Or.inl rfl), hvalid _ (Or.inr rfl)⟩
    · rw [hcanon]
      have hmaj := hab.2.2.2.filter (p := within clockSkewMs m) fun x _ ha hb =>
        within_of_agreement hab hm hc.ne_nil ⟨ha, hb⟩
      rcases median_mem hab.1 hab.2.1 hc hmaj with hmem | hinf
      · exact hmem
      · have := hfinite ⟨a, b, hab⟩
        rcases hinf with rfl | rfl <;> exact absurd this (by decide)
    · refine ⟨_, List.mem_map.mpr ⟨e, ?_, rfl⟩, rfl, rfl⟩
      rw [rejectOutliers, List.mem_filter]
      rw [htimestamps, hmedian]
      exact ⟨he, within_of_agreement hab hm hc.ne_nil ⟨ha, hb⟩⟩

/-- A peer that answers `NaN` hides the agreement of the two other clocks; two clocks a quarter of an hour apart make a
proof that is not valid. -/
theorem consensus_disturbed :
    let signer : Signer := ⟨js "a", fun _ => js "s", fun _ _ _ => true, fun _ => rfl, fun _ => by decide⟩
    let stampWith := fun engine localTime peers =>
      stamp engine (fun _ => []) signer (.ofNat 30000) localTime ⟨js "e", by decide⟩ (some (JsMap.ofEntries peers))
    (∃ engine, Agreement (.ofNat 30000) [.ofNat 100, .nan, .ofNat 50] (.ofNat 50) (.ofNat 100) ∧
      ¬ Tolerates (fun _ => []) signer (.ofNat 30000)
        (allTimestamps signer.podId (.ofNat 100) (some (JsMap.ofEntries [(js "b", .nan), (js "c", .ofNat 50)])))
        (stampWith engine (.ofNat 100) [(js "b", .nan), (js "c", .ofNat 50)])) ∧
      ∀ engine, ((stampWith engine (.ofNat 1000) [(js "b", .ofNat 1000000)]).verify (fun _ => []) none).valid = false := by
  intro signer stampWith
  refine ⟨⟨nanInTheMiddle, by decide +kernel, fun h => ?_⟩, fun engine => ?_⟩
  · have hzero : (stampWith nanInTheMiddle (.ofNat 100) [(js "b", .nan), (js "c", .ofNat 50)]).canonicalTimestamp = 0 := by
      decide +kernel
    have hmem := h.canonical (.ofNat 50) (.ofNat 100) (by decide +kernel)
    rw [hzero] at hmem
    exact absurd hmem.1 (by decide +kernel)
  · have hvalues : (allTimestamps signer.podId (.ofNat 1000) (some (JsMap.ofEntries [(js "b", .ofNat 1000000)]))).values =
        [.ofNat 1000, .ofNat 1000000] := by decide +kernel
    have hmedian : IsMedian [.ofNat 1000, .ofNat 1000000] (.ofNat 500500) :=
      ⟨.ofNat 1000, .ofNat 1000000, by decide +kernel, by decide +kernel, by decide +kernel⟩
    have hcompute : computeMedian engine [.ofNat 1000, .ofNat 1000000] = .ofNat 500500 :=
      (computeMedian_isMedian engine (by decide +kernel) (by simp)).unique hmedian
    have hnone : [JsNumber.ofNat 1000, .ofNat 1000000].filter (within (.ofNat 30000) (.ofNat 500500)) = [] := by
      decide +kernel
    refine Bool.eq_false_of_not_eq_true fun hvalid => ?_
    refine ((verify_stamp engine none (Or.inl rfl)).mp hvalid).2 ?_
    have hwitnesses := values_rejectOutliers (.ofNat 30000)
      (allTimestamps signer.podId (.ofNat 1000) (some (JsMap.ofEntries [(js "b", .ofNat 1000000)]))) (.ofNat 500500)
    rw [hvalues, hnone, JsMap.values, List.map_eq_nil_iff] at hwitnesses
    simp only [stamp]
    rw [hvalues, hcompute, hwitnesses]
    rfl

end TimestampAuthority
end BrowserMesh.Apps
