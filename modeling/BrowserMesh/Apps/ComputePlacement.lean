import BrowserMesh.Apps.ResourceScorer
import BrowserMesh.Library.Best

/-! # Which descriptor is selected

A descriptor that passes the checks of `score` scores at least `15` (`fifteen_le_weigh`), any other `0`, and the loop of
`selectBest` starts at `-1`.  So as long as some descriptor passes the checks, and all those that do have a score that is
a number, the first of greatest score is selected (`Best.foldl_keep`).  When none does, the first of the list is. -/

namespace BrowserMesh.Apps.Resources
open Js
namespace ResourceScorer

/-! ### What is asked for -/

/-- Online or busy, and with the lane that `lane` reports as required. -/
def Qualifies (request : ComputeRequest) (d : ResourceDescriptor) : Prop :=
  (d.online ∨ d.busy) ∧ (lane request).required.all d.provides

instance (request : ComputeRequest) (d : ResourceDescriptor) : Decidable (Qualifies request d) :=
  inferInstanceAs (Decidable (_ ∧ _))

/-- `best` is the first of the qualifying descriptors with the greatest score, or `null` when none qualifies. -/
def IsFirstMaximal (request : ComputeRequest) (ds : List ResourceDescriptor) : Option ResourceDescriptor → Prop
  | none => ∀ d ∈ ds, ¬ Qualifies request d
  | some d => ∃ earlier later s, ds = earlier ++ d :: later ∧ Qualifies request d ∧ score request d = some s ∧
      (∀ e ∈ earlier, Qualifies request e → ∃ t, score request e = some t ∧ t.lt s) ∧
      ∀ e ∈ ds, Qualifies request e → ∃ t, score request e = some t ∧ t.le s

/-- The checks of `score`: a `shell` module in the `isolate` lane needs both classes. -/
def Fits (request : ComputeRequest) (d : ResourceDescriptor) : Prop :=
  Qualifies request d ∧ request.isolation.runtimeClass.all d.provides

/-- The values that `score` reads convert to numbers, and the memory ratio is not `Infinity / Infinity`. -/
def Scorable (request : ComputeRequest) (d : ResourceDescriptor) : Prop :=
  (request.prefer = js "gpu" → d.gpu.toNumber ≠ none) ∧ d.cpu.toNumber ≠ none ∧ d.bandwidth.toNumber ≠ none ∧
    ∃ reqMem memory, request.maxMemoryMb.toNumber = some reqMem ∧ d.memory.toNumber = some memory ∧
      ¬ (memory = .posInf ∧ reqMem = .posInf)

variable {request : ComputeRequest} {d : ResourceDescriptor} {s s' : JsNumber}

/-! ### Bonuses -/

/-- `s'` is at least `s`, or not a number, which it can only be when `s` is below `0` or not a number. -/
def Gains (s s' : JsNumber) : Prop := s ≤ s' ∧ (s.NonNeg → s'.NonNeg)

theorem Gains.refl (s : JsNumber) : Gains s s := ⟨le_rfl, id⟩

theorem Gains.trans {s₁ s₂ s₃ : JsNumber} (h₁ : Gains s₁ s₂) (h₂ : Gains s₂ s₃) : Gains s₁ s₃ :=
  ⟨h₁.1.trans h₂.1, h₂.2 ∘ h₁.2⟩

theorem gains_add {x : JsNumber} (hx : x.NonNeg) : Gains s (s.add x) :=
  ⟨JsNumber.le_add_of_nonNeg s hx, fun hs => hs.add hx⟩

theorem gains_cpuBonus (h : cpuBonus d s = some s') : Gains s s' := by
  obtain ⟨cpu, _, rfl⟩ := Option.map_eq_some_iff.mp h
  split_ifs with hpos
  · exact gains_add ((JsNumber.nonNeg_of_lt hpos).mathMin (JsNumber.nonNeg_ofNat _))
  · exact .refl s

theorem gains_bandwidthBonus (h : bandwidthBonus d s = some s') : Gains s s' := by
  obtain ⟨bandwidth, _, rfl⟩ := Option.map_eq_some_iff.mp h
  split_ifs with hpos
  · exact gains_add (((JsNumber.nonNeg_of_lt hpos).divNat 20).round.mathMin (JsNumber.nonNeg_ofNat _))
  · exact .refl s

theorem memoryBonus_spec {reqMem memory : JsNumber} (hreq : request.maxMemoryMb.toNumber = some reqMem)
    (hmem : d.memory.toNumber = some memory) :
    ∃ s', memoryBonus request d s = some s' ∧ (¬ (memory = .posInf ∧ reqMem = .posInf) → Gains s s') ∧
      (memory = .posInf ∧ reqMem = .posInf → s' = .nan) := by
  simp only [memoryBonus, hreq, hmem, Option.bind_eq_bind, Option.bind_some]
  split_ifs with hboth hpos
  · refine ⟨_, rfl, fun hne => gains_add ?_, ?_⟩
    · have hratio := ((JsNumber.nonNeg_of_lt hboth.2).div hboth.1 hne).mathMin (JsNumber.nonNeg_ofNat 4)
      exact ((hratio.divNat 4).mulNat 15).round
    · rintro ⟨rfl, rfl⟩
      exact JsNumber.add_nan
  · refine ⟨_, rfl, fun _ => gains_add (JsNumber.nonNeg_ofNat _), ?_⟩
    rintro ⟨rfl, rfl⟩
    exact absurd ⟨rfl, hpos⟩ hboth
  · refine ⟨_, rfl, fun _ => .refl s, ?_⟩
    rintro ⟨rfl, rfl⟩
    exact absurd rfl hpos

theorem preferenceMatch_cases (h : preferenceMatch request d s = some s') :
    s' ∈ [s, s.add (.ofNat 20), s.add (.ofNat 10)] := by
  unfold preferenceMatch at h
  split_ifs at h with hgpu hcpu hany
  · obtain ⟨has, _, rfl⟩ := Option.map_eq_some_iff.mp h
    cases has <;> simp
  · obtain ⟨has, _, rfl⟩ := Option.map_eq_some_iff.mp h
    cases has <;> simp
  · cases h
    simp
  · cases h
    simp

theorem runtimeClassMatch_cases (request : ComputeRequest) (d : ResourceDescriptor) (s : JsNumber) :
    runtimeClassMatch request d s ∈ [s, s.add (.ofNat 60), s.sub (.ofNat 15)] := by
  unfold runtimeClassMatch
  cases request.preferRuntimeClass with
  | none => simp
  | some name =>
      simp only
      split_ifs <;> simp

/-- The scores that an available descriptor starts from. -/
def baseScores : List JsNumber := [.ofNat 50, .ofNat 75, .ofNat 30, .ofNat 55]

theorem fifteen_le_base : ∀ s ∈ baseScores, ∀ t ∈ [s, s.add (.ofNat 20), s.add (.ofNat 10)],
    ∀ u ∈ [t, t.add (.ofNat 60), t.sub (.ofNat 15)], JsNumber.ofNat 15 ≤ u ∧ u.NonNeg := by
  decide +kernel

/-! ### Scores -/

theorem weigh_eq_some (h : weigh request d s = some s') :
    ∃ t u v, preferenceMatch request d s = some t ∧ memoryBonus request d (runtimeClassMatch request d t) = some u ∧
      cpuBonus d u = some v ∧ bandwidthBonus d v = some s' := by
  obtain ⟨t, ht, h⟩ := Option.bind_eq_some_iff.mp h
  obtain ⟨u, hu, h⟩ := Option.bind_eq_some_iff.mp h
  obtain ⟨v, hv, h⟩ := Option.bind_eq_some_iff.mp h
  exact ⟨t, u, v, ht, hu, hv, h⟩

theorem memoryBonus_isSome {u : JsNumber} (h : memoryBonus request d s = some u) :
    ∃ reqMem memory, request.maxMemoryMb.toNumber = some reqMem ∧ d.memory.toNumber = some memory := by
  obtain ⟨reqMem, hreq, h⟩ := Option.bind_eq_some_iff.mp h
  obtain ⟨memory, hmem, _⟩ := Option.bind_eq_some_iff.mp h
  exact ⟨reqMem, memory, hreq, hmem⟩

/-- A descriptor that passes the checks has a score, which is `15` or more. -/
theorem fifteen_le_weigh (hs : s ∈ baseScores) (h : Scorable request d) :
    ∃ s', weigh request d s = some s' ∧ JsNumber.ofNat 15 ≤ s' ∧ s' ≠ .nan := by
  obtain ⟨hgpu, hcpu, hbandwidth, reqMem, memory, hreq, hmem, hratio⟩ := h
  obtain ⟨cpu, hcpu⟩ := Option.ne_none_iff_exists'.mp hcpu
  obtain ⟨bandwidth, hbandwidth⟩ := Option.ne_none_iff_exists'.mp hbandwidth
  obtain ⟨t, ht⟩ : ∃ t, preferenceMatch request d s = some t := by
    unfold preferenceMatch positive
    split_ifs with hprefer
    · obtain ⟨gpu, hgpu⟩ := Option.ne_none_iff_exists'.mp (hgpu hprefer)
      exact ⟨_, by rw [hgpu]; rfl⟩
    · exact ⟨_, by rw [hcpu]; rfl⟩
    · exact ⟨_, rfl⟩
    · exact ⟨_, rfl⟩
  obtain ⟨u, hu, hgain, _⟩ := memoryBonus_spec (s := runtimeClassMatch request d t) hreq hmem
  obtain ⟨v, hv⟩ : ∃ v, cpuBonus d u = some v := ⟨_, by rw [cpuBonus, hcpu]; rfl⟩
  obtain ⟨s', hs'⟩ : ∃ s', bandwidthBonus d v = some s' := ⟨_, by rw [bandwidthBonus, hbandwidth]; rfl⟩
  have hstart := fifteen_le_base s hs t (preferenceMatch_cases ht) _ (runtimeClassMatch_cases request d t)
  have hgains := ((hgain hratio).trans (gains_cpuBonus hv)).trans (gains_bandwidthBonus hs')
  refine ⟨s', ?_, hstart.1.trans hgains.1, (hgains.2 hstart.2).ne_nan⟩
  simp only [weigh, ht, hu, hv, hs', Option.bind_eq_bind, Option.bind_some]

theorem scorable_of_weigh (h : weigh request d s = some s') (hnum : s' ≠ .nan) : Scorable request d := by
  obtain ⟨t, u, v, ht, hu, hv, hs'⟩ := weigh_eq_some h
  refine ⟨fun hprefer hgpu => ?_, fun hcpu => ?_, fun hbandwidth => ?_, ?_⟩
  · simp only [preferenceMatch, if_pos hprefer, positive, hgpu, Option.map_none, reduceCtorEq] at ht
  · simp only [cpuBonus, hcpu, Option.map_none, reduceCtorEq] at hv
  · simp only [bandwidthBonus, hbandwidth, Option.map_none, reduceCtorEq] at hs'
  · obtain ⟨reqMem, memory, hreq, hmem⟩ := memoryBonus_isSome hu
    refine ⟨reqMem, memory, hreq, hmem, fun hboth => hnum ?_⟩
    obtain ⟨u', hu', _, hnan⟩ := memoryBonus_spec (s := runtimeClassMatch request d t) hreq hmem
    obtain rfl : u = u' := Option.some.inj (hu.symm.trans hu')
    have hgains := (gains_cpuBonus hv).trans (gains_bandwidthBonus hs')
    rw [hnan hboth] at hgains
    exact le_antisymm (JsNumber.le_nan s') hgains.1

theorem required_lane (request : ComputeRequest) : (lane request).required =
    if request.moduleType = some .shell then some .microvm else request.isolation.runtimeClass := by
  unfold lane
  by_cases hshell : request.moduleType = some .shell
  · rw [if_pos hshell, if_pos hshell]
  · rw [if_neg hshell, if_neg hshell]
    cases request.isolation.runtimeClass with
    | none =>
        simp only
        split_ifs <;> rfl
    | some c => rfl

theorem fits_iff : Fits request d ↔ (d.online ∨ d.busy) ∧
    (request.moduleType = some .shell → d.provides .microvm) ∧ request.isolation.runtimeClass.all d.provides := by
  unfold Fits Qualifies
  rw [required_lane]
  split_ifs with hshell <;> simp only [hshell, Option.all_some, true_implies, false_implies, true_and, and_assoc]
  exact ⟨fun h => ⟨h.1, h.2.2⟩, fun h => ⟨h.1, h.2, h.2⟩⟩

theorem fits_qualifies (h : Fits request d) : Qualifies request d := h.1

theorem laneBonus_mem (request : ComputeRequest) (d : ResourceDescriptor) (s : JsNumber) :
    laneBonus request d s = s ∨ laneBonus request d s = s.add (.ofNat 25) := by
  unfold laneBonus
  split_ifs
  · exact Or.inr rfl
  · exact Or.inr rfl
  · exact Or.inl rfl

theorem base_mem_baseScores : ∀ s ∈ [JsNumber.ofNat 50, .ofNat 30], s ∈ baseScores ∧ s.add (.ofNat 25) ∈ baseScores := by
  decide +kernel

/-- What the checks of `scoreLane` let through is weighed, what they do not scores `0`. -/
theorem scoreLane_spec (request : ComputeRequest) (d : ResourceDescriptor) (hs : s ∈ [JsNumber.ofNat 50, .ofNat 30]) :
    if (request.moduleType = some .shell → d.provides .microvm) ∧ request.isolation.runtimeClass.all d.provides then
      ∃ t ∈ baseScores, scoreLane request d s = weigh request d t
    else scoreLane request d s = some 0 := by
  unfold scoreLane
  by_cases hshell : request.moduleType = some .shell ∧ d.provides .microvm = false
  · rw [if_pos hshell, if_neg]
    rintro ⟨hmicrovm, _⟩
    exact absurd (hmicrovm hshell.1) (by simp [hshell.2])
  rw [if_neg hshell]
  have hmicrovm : request.moduleType = some .shell → d.provides .microvm = true := by
    intro h
    by_contra hno
    exact hshell ⟨h, Bool.eq_false_of_not_eq_true hno⟩
  cases request.isolation.runtimeClass with
  | none =>
      rw [if_pos ⟨hmicrovm, rfl⟩]
      rcases laneBonus_mem request d s with hlane | hlane
      · exact ⟨s, (base_mem_baseScores s hs).1, by rw [hlane]⟩
      · exact ⟨_, (base_mem_baseScores s hs).2, by rw [hlane]⟩
  | some c =>
      cases hc : d.provides c with
      | false => simp [hc]
      | true =>
          rw [if_pos ⟨hmicrovm, hc⟩]
          exact ⟨s, (base_mem_baseScores s hs).1, by simp [hc]⟩

/-- A descriptor that does not pass the checks scores `0`. -/
theorem score_of_not_fits (h : ¬ Fits request d) : score request d = some 0 := by
  rw [fits_iff] at h
  unfold score
  split_ifs with honline hbusy
  · have hspec := scoreLane_spec request d (s := .ofNat 50) (by simp)
    rwa [if_neg fun hchecks => h ⟨Or.inl honline, hchecks⟩] at hspec
  · have hspec := scoreLane_spec request d (s := .ofNat 30) (by simp)
    rwa [if_neg fun hchecks => h ⟨Or.inr hbusy, hchecks⟩] at hspec
  · rfl

theorem score_of_fits (h : Fits request d) : ∃ s ∈ baseScores, score request d = weigh request d s := by
  obtain ⟨havailable, hchecks⟩ := fits_iff.mp h
  unfold score
  split_ifs with honline hbusy
  · have hspec := scoreLane_spec request d (s := .ofNat 50) (by simp)
    rwa [if_pos hchecks] at hspec
  · have hspec := scoreLane_spec request d (s := .ofNat 30) (by simp)
    rwa [if_pos hchecks] at hspec
  · rcases havailable with honline' | hbusy'
    · exact absurd honline' honline
    · exact absurd hbusy' hbusy

/-! ### The loop -/

/-- What the loop compares: a score that is not a number never wins. -/
def rankedScore (request : ComputeRequest) (d : ResourceDescriptor) : JsNumber :=
  match score request d with
  | some .nan => .negInf
  | some s => s
  | none => .negInf

theorem rankedScore_eq (h : score request d = some s) (hnum : s ≠ .nan) : rankedScore request d = s := by
  cases s with
  | nan => exact absurd rfl hnum
  | negInf => simp only [rankedScore, h]
  | posInf => simp only [rankedScore, h]
  | fin n hn => simp only [rankedScore, h]

theorem rankedScore_ne_nan (request : ComputeRequest) (d : ResourceDescriptor) : rankedScore request d ≠ .nan := by
  unfold rankedScore
  split
  · simp
  · assumption
  · simp

variable {best : Option ResourceDescriptor × JsNumber}

theorem better_eq (hbest : best.2 ≠ .nan)
    (h : score request d = some s) : better request best d = some (Best.keep (rankedScore request) best d) := by
  rw [better, h, Option.map_some, Best.keep]
  congr 1
  by_cases hnum : s = .nan
  · have hrank : rankedScore request d = .negInf := by simp only [rankedScore, h, hnum]
    rw [hrank, if_neg (not_lt.mpr (JsNumber.negInf_le _)), hnum, if_neg]
    simp [JsNumber.lt]
  · rw [rankedScore_eq h hnum]
    by_cases hlt : best.2 < s
    · rw [if_pos hlt, if_pos ((JsNumber.lt_iff hbest hnum).mpr hlt)]
    · rw [if_neg hlt, if_neg fun h => hlt ((JsNumber.lt_iff hbest hnum).mp h)]

theorem keep_ne_nan (hbest : best.2 ≠ .nan) (d : ResourceDescriptor) :
    (Best.keep (rankedScore request) best d).2 ≠ .nan := by
  unfold Best.keep
  split_ifs
  · exact rankedScore_ne_nan request d
  · exact hbest

variable {ds : List ResourceDescriptor}

theorem foldlM_better (hbest : best.2 ≠ .nan) (h : ∀ d ∈ ds, ∃ s, score request d = some s) :
    ds.foldlM (better request) best = some (ds.foldl (Best.keep (rankedScore request)) best) := by
  induction ds generalizing best with
  | nil => rfl
  | cons d ds ih =>
      obtain ⟨s, hs⟩ := h d List.mem_cons_self
      rw [List.foldlM_cons, better_eq hbest hs, List.foldl_cons, Option.bind_eq_bind, Option.bind_some]
      exact ih (keep_ne_nan hbest d) fun e he => h e (List.mem_cons_of_mem _ he)

theorem selectBest_eq (h : ∀ d ∈ ds, ∃ s, score request d = some s) :
    selectBest request ds =
      some (ds.foldl (Best.keep (rankedScore request)) (none, (JsNumber.ofNat 1).neg)).1 := by
  rw [selectBest, foldlM_better (by decide +kernel) h, Option.map_some]

/-! ### The selected descriptor -/

theorem score_of_scorable (h : Fits request d) (hs : Scorable request d) :
    ∃ s, score request d = some s ∧ JsNumber.ofNat 15 ≤ s ∧ s ≠ .nan := by
  obtain ⟨base, hbase, heq⟩ := score_of_fits h
  rw [heq]
  exact fifteen_le_weigh hbase hs

theorem scorable_of_score (h : Fits request d) (hs : score request d = some s) (hnum : s ≠ .nan) :
    Scorable request d := by
  obtain ⟨base, _, heq⟩ := score_of_fits h
  exact scorable_of_weigh (heq ▸ hs) hnum

/-- No score is computed below `0` when the numbers can be read. -/
theorem score_cases (h : Fits request d → Scorable request d) :
    ∃ s, score request d = some s ∧ s ≠ .nan ∧ 0 ≤ s ∧ (Fits request d → JsNumber.ofNat 15 ≤ s) := by
  by_cases hfits : Fits request d
  · obtain ⟨s, hs, hle, hnum⟩ := score_of_scorable hfits (h hfits)
    exact ⟨s, hs, hnum, le_trans (JsNumber.nonNeg_iff.mp (JsNumber.nonNeg_ofNat 15)).1 hle, fun _ => hle⟩
  · exact ⟨0, score_of_not_fits hfits, by decide, le_rfl, fun h => absurd h hfits⟩

variable {earlier later : List ResourceDescriptor}

theorem isFirstMaximal_of_first (hscores : ∀ d ∈ ds, Fits request d → Scorable request d)
    (h : Best.First (rankedScore request) ds d earlier later) (hd : Qualifies request d) :
    IsFirstMaximal request ds (some d) := by
  have hranked : ∀ e ∈ ds, ∃ t, score request e = some t ∧ t ≠ .nan ∧ rankedScore request e = t := by
    intro e he
    obtain ⟨t, ht, hnum, _⟩ := score_cases (hscores e he)
    exact ⟨t, ht, hnum, rankedScore_eq ht hnum⟩
  obtain ⟨s, hs, hsnum, hsrank⟩ := hranked d h.mem
  refine ⟨earlier, later, s, h.split, hd, hs, fun e he _ => ?_, fun e he _ => ?_⟩
  · obtain ⟨t, ht, htnum, htrank⟩ := hranked e (h.split ▸ List.mem_append_left _ he)
    refine ⟨t, ht, (JsNumber.lt_iff htnum hsnum).mpr ?_⟩
    rw [← htrank, ← hsrank]
    exact h.lt e he
  · obtain ⟨t, ht, htnum, htrank⟩ := hranked e he
    refine ⟨t, ht, ?_⟩
    rw [JsNumber.le, decide_eq_true_iff]
    refine ⟨htnum, hsnum, ?_⟩
    rw [← htrank, ← hsrank]
    exact h.le_of_mem he

theorem selectBest_first (hscores : ∀ d ∈ ds, Fits request d → Scorable request d)
    (hne : ds ≠ []) : ∃ d earlier later, selectBest request ds = some (some d) ∧
      Best.First (rankedScore request) ds d earlier later := by
  have hall : ∀ d ∈ ds, ∃ s, score request d = some s := fun d hd =>
    have ⟨s, hs, _⟩ := score_cases (hscores d hd)
    ⟨s, hs⟩
  rcases Best.foldl_keep (rankedScore request) ds (none, (JsNumber.ofNat 1).neg) with
    ⟨_, hle⟩ | ⟨d, earlier, later, hr, _, hfirst⟩
  · obtain ⟨d, hd⟩ := List.exists_mem_of_ne_nil ds hne
    obtain ⟨s, hs, hnum, hpos, _⟩ := score_cases (hscores d hd)
    have hbelow := hle d hd
    rw [rankedScore_eq hs hnum] at hbelow
    exact absurd (hpos.trans hbelow) (by decide +kernel)
  · exact ⟨d, earlier, later, by rw [selectBest_eq hall, hr], hfirst⟩

theorem fits_of_first (hscores : ∀ d ∈ ds, Fits request d → Scorable request d)
    (h : Best.First (rankedScore request) ds d earlier later) (hfits : ∃ e ∈ ds, Fits request e) :
    Fits request d := by
  obtain ⟨e, he, hefits⟩ := hfits
  by_contra hno
  obtain ⟨t, ht, htnum, _, hfifteen⟩ := score_cases (hscores e he)
  have hle := h.le_of_mem he
  rw [rankedScore_eq ht htnum, rankedScore_eq (score_of_not_fits hno) (by decide)] at hle
  exact absurd ((hfifteen hefits).trans hle) (by decide +kernel)

theorem first_of_none_fits
    (h : Best.First (rankedScore request) ds d earlier later) (hnone : ¬ ∃ e ∈ ds, Fits request e) :
    ds.head? = some d := by
  have hrank : ∀ e ∈ ds, rankedScore request e = 0 := fun e he =>
    rankedScore_eq (score_of_not_fits fun hfits => hnone ⟨e, he, hfits⟩) (by decide)
  cases earlier with
  | nil => rw [h.split, List.nil_append, List.head?_cons]
  | cons e earlier =>
      have hlt := h.lt e List.mem_cons_self
      rw [hrank e (h.split ▸ List.mem_append_left _ List.mem_cons_self), hrank d h.mem] at hlt
      exact absurd hlt (lt_irrefl _)

theorem scorable_of_isFirstMaximal {best : Option ResourceDescriptor}
    (h : IsFirstMaximal request ds best) : ∀ d ∈ ds, Fits request d → Scorable request d := by
  intro d hd hfits
  cases best with
  | none => exact absurd (fits_qualifies hfits) (h d hd)
  | some best =>
      obtain ⟨earlier, later, s, _, _, _, _, hmax⟩ := h
      obtain ⟨t, ht, hle⟩ := hmax d hd (fits_qualifies hfits)
      rw [JsNumber.le, decide_eq_true_iff] at hle
      exact scorable_of_score hfits ht hle.1

theorem qualifies_of_isFirstMaximal (h : IsFirstMaximal request ds (some d)) :
    Qualifies request d := by
  obtain ⟨_, _, _, _, hd, _⟩ := h
  exact hd

/-- A qualifying descriptor of greatest score is selected exactly when the scores of the descriptors that pass the checks
of `score` are numbers and, unless one of them passes these checks, the list is empty or its first descriptor
qualifies. -/
theorem selects_first_maximal (request : ComputeRequest) (ds : List ResourceDescriptor) :
    (∃ best, selectBest request ds = some best ∧ IsFirstMaximal request ds best) ↔
      (∀ d ∈ ds, Fits request d → Scorable request d) ∧
        (ds = [] ∨ (∃ d ∈ ds, Fits request d) ∨ ∃ d, ds.head? = some d ∧ Qualifies request d) := by
  constructor
  · rintro ⟨best, hbest, hmax⟩
    have hscores := scorable_of_isFirstMaximal hmax
    refine ⟨hscores, ?_⟩
    by_cases hnil : ds = []
    · exact Or.inl hnil
    obtain ⟨d, earlier, later, hd, hfirst⟩ := selectBest_first hscores hnil
    obtain rfl : best = some d := Option.some.inj (hbest.symm.trans hd)
    by_cases hfits : ∃ e ∈ ds, Fits request e
    · exact Or.inr (Or.inl hfits)
    · exact Or.inr (Or.inr ⟨d, first_of_none_fits hfirst hfits, qualifies_of_isFirstMaximal hmax⟩)
  · rintro ⟨hscores, hcond⟩
    by_cases hnil : ds = []
    · exact ⟨none, by rw [hnil]; rfl, fun d hd => absurd (hnil ▸ hd) List.not_mem_nil⟩
    obtain ⟨d, earlier, later, hd, hfirst⟩ := selectBest_first hscores hnil
    refine ⟨some d, hd, isFirstMaximal_of_first hscores hfirst ?_⟩
    by_cases hfits : ∃ e ∈ ds, Fits request e
    · exact fits_qualifies (fits_of_first hscores hfirst hfits)
    · rcases hcond with h | h | ⟨e, hhead, he⟩
      · exact absurd h hnil
      · exact absurd h hfits
      · obtain rfl : e = d := Option.some.inj (hhead.symm.trans (first_of_none_fits hfirst hfits))
        exact he

theorem offline_selected :
    let request : ComputeRequest := ⟨some .js, .any, js "any", none, .null⟩
    let d : ResourceDescriptor := ⟨.number 0, .number 0, .number 0, .number 0, [], .string (js "offline")⟩
    selectBest request [d] = some (some d) ∧ ¬ Qualifies request d ∧
      ¬ ∃ best, selectBest request [d] = some best ∧ IsFirstMaximal request [d] best := by
  intro request d
  have hno : ¬ Qualifies request d := by decide
  have hselect : selectBest request [d] = some (some d) := by
    have hscores : ∀ e ∈ [d], Fits request e → Scorable request e := by
      intro e he hfits
      obtain rfl : e = d := List.mem_singleton.mp he
      exact absurd (fits_qualifies hfits) hno
    obtain ⟨e, earlier, later, he, hfirst⟩ := selectBest_first hscores (by simp)
    obtain rfl : e = d := List.mem_singleton.mp hfirst.mem
    exact he
  refine ⟨hselect, hno, ?_⟩
  rintro ⟨best, hbest, hmax⟩
  obtain rfl : best = some d := Option.some.inj (hbest.symm.trans hselect)
  exact hno (qualifies_of_isFirstMaximal hmax)

end ResourceScorer
end BrowserMesh.Apps.Resources
