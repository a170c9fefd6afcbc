import BrowserMesh.Js.Countdown
import BrowserMesh.Apps.UsageReports
import BrowserMesh.Transport.StreamQuiescence

/-! # Stream credits

* **Whole numbers.**  Credits that are whole numbers up to `2 ^ 53` are counted exactly.
* **Law.**  `Conserving` relates the two ends of a stream: the credits that the receiver keeps are those of the sender
  and what is on the link, and one more for every frame that was received, because `_receiveData` takes none away.
* **Bounds.**  So grants run out, and what a peer puts on the wire is added as it comes (`credits_conserved_iff`). -/

namespace BrowserMesh.Js.JsNumber

def Whole (n : JsNumber) : Prop := ∃ k ≤ 2 ^ 53, n = ofNat k

def whole (n : JsNumber) : ℕ := (n.units?.getD 0).toNat / oneUnits

theorem whole_ofNat {k : ℕ} (h : k ≤ 2 ^ 53) : (ofNat k).whole = k := by
  rw [ofNat_eq h]
  show ((k * oneUnits : ℕ) : ℤ).toNat / oneUnits = k
  rw [Int.toNat_natCast]
  exact Nat.mul_div_cancel k oneUnits_pos

theorem Whole.eq {n : JsNumber} (h : n.Whole) : n = ofNat n.whole ∧ n.whole ≤ 2 ^ 53 := by
  obtain ⟨k, hk, rfl⟩ := h
  rw [whole_ofNat hk]
  exact ⟨rfl, hk⟩

theorem zero_eq_ofNat : (0 : JsNumber) = ofNat 0 := by
  rw [ofNat_eq (Nat.zero_le _)]
  exact fin_congr (by simp)

theorem add_ofNat {j k : ℕ} (h : j + k ≤ 2 ^ 53) : (ofNat j).add (ofNat k) = ofNat (j + k) := by
  rw [ofNat_eq ((Nat.le_add_right j k).trans h), ofNat_eq ((Nat.le_add_left k j).trans h), add]
  have hsum : ((j * oneUnits : ℕ) : ℤ) + (k * oneUnits : ℕ) = ((j + k) * oneUnits : ℕ) := by
    rw [← Nat.cast_add, Nat.add_mul]
  rw [hsum]
  rfl

theorem sub_ofNat {j k : ℕ} (hj : j ≤ 2 ^ 53) (h : k ≤ j) : (ofNat j).sub (ofNat k) = ofNat (j - k) := by
  rw [ofNat_eq hj, ofNat_eq (h.trans hj), sub, neg, add]
  have hsum : ((j * oneUnits : ℕ) : ℤ) + -(k * oneUnits : ℕ) = ((j - k) * oneUnits : ℕ) := by
    rw [Nat.sub_mul, Nat.cast_sub (Nat.mul_le_mul_right _ h)]
    rfl
  rw [hsum]
  rfl

theorem lt_ofNat {j k : ℕ} (hj : j ≤ 2 ^ 53) (hk : k ≤ 2 ^ 53) : (ofNat j).lt (ofNat k) = true ↔ j < k := by
  have hne : ∀ q : ℕ, q ≤ 2 ^ 53 → ofNat q ≠ nan := by
    intro q hq
    rw [ofNat_eq hq]
    exact fun h => by cases h
  rw [lt_iff (hne j hj) (hne k hk), ofNat_eq hj, ofNat_eq hk, lt_iff_not_ge, fin_le_fin, not_le, Nat.cast_lt]
  exact Nat.mul_lt_mul_right oneUnits_pos

variable {n m : JsNumber}

theorem Whole.add (hn : n.Whole) (hm : m.Whole) (h : n.whole + m.whole ≤ 2 ^ 53) :
    (n.add m).Whole ∧ (n.add m).whole = n.whole + m.whole := by
  obtain ⟨j, hj, rfl⟩ := hn
  obtain ⟨k, hk, rfl⟩ := hm
  rw [whole_ofNat hj, whole_ofNat hk] at h ⊢
  rw [add_ofNat h, whole_ofNat h]
  exact ⟨⟨_, h, rfl⟩, rfl⟩

/-- Above `0` there is one to take away. -/
theorem Whole.sub_one (hn : n.Whole) (hpos : JsNumber.lt 0 n = true) :
    (n.sub (.ofNat 1)).Whole ∧ (n.sub (.ofNat 1)).whole + 1 = n.whole := by
  obtain ⟨k, hk, rfl⟩ := hn
  rw [zero_eq_ofNat, lt_ofNat (Nat.zero_le _) hk] at hpos
  rw [sub_ofNat hk hpos, whole_ofNat hk, whole_ofNat ((Nat.sub_le k 1).trans hk)]
  exact ⟨⟨k - 1, (Nat.sub_le k 1).trans hk, rfl⟩, Nat.sub_add_cancel hpos⟩

end BrowserMesh.Js.JsNumber

namespace BrowserMesh.Transport
open Js Guards Link Transition Apps.Quotas

/-! ### What is allowed -/

/-- Streams are opened under new ids, written and granted whole numbers of credits. -/
def MayStream (x y : StreamEnd) : StreamAction → Prop
  | .openStream id initialCredits _ => x.stream? id = none ∧ y.stream? id = none ∧
      (initialCredits.getD x.mux.defaults.initialCredits).Whole
  | .write _ _ => True
  | .grantCredits _ n => n.Whole
  | .goOn (.onCredits _) => True
  | .fails (.onCredits _) => True
  | _ => False

def Streams : StreamLink → Link.Action StreamAction → Prop := Party.Meets MayStream fun _ _ => True

/-! ### Credits on the link -/

theorem maxCredits_eq : STREAM_DEFAULTS.maxCredits = .ofNat 64 := by simp only [STREAM_DEFAULTS]

theorem cap_iff {n : JsNumber} (hn : n.Whole) : STREAM_DEFAULTS.maxCredits.lt n = true ↔ 64 < n.whole := by
  obtain ⟨k, hk, rfl⟩ := hn
  rw [JsNumber.whole_ofNat hk, maxCredits_eq]
  exact JsNumber.lt_ofNat (by norm_num) hk

theorem cap_add_iff {n m : JsNumber} (hn : n.Whole) (hm : m.Whole) :
    STREAM_DEFAULTS.maxCredits.lt (n.add m) = true ↔ 64 < n.whole + m.whole := by
  rcases Nat.lt_or_ge (2 ^ 53) (n.whole + m.whole) with hlarge | hsmall
  · obtain ⟨j, hj, rfl⟩ := hn
    obtain ⟨k, hk, rfl⟩ := hm
    rw [JsNumber.whole_ofNat hj, JsNumber.whole_ofNat hk] at hlarge ⊢
    refine ⟨fun _ => by omega, fun _ => ?_⟩
    rw [maxCredits_eq, JsNumber.ofNat_eq hj, JsNumber.ofNat_eq hk, JsNumber.add]
    have hle : JsNumber.ofNat 65 ≤ JsNumber.ofUnits (((j * oneUnits : ℕ) : ℤ) + (k * oneUnits : ℕ)) := by
      rw [JsNumber.ofNat_eq (by norm_num)]
      refine JsNumber.fin_le_ofUnits _ ?_
      rw [← Nat.cast_add, ← Nat.add_mul]
      exact Int.ofNat_le.mpr (Nat.mul_le_mul_right _ (by omega))
    have hlt : JsNumber.ofNat 64 < JsNumber.ofNat 65 := by decide +kernel
    exact (JsNumber.lt_iff (by decide +kernel) (JsNumber.ofUnits_ne_nan _)).mpr (hlt.trans_le hle)
  · obtain ⟨hsum, hvalue⟩ := hn.add hm hsmall
    rw [cap_iff hsum, hvalue]

theorem receiveCredits_spec (s : MeshStream) (n : JsNumber) :
    (s.receiveCredits n).state = s.state ∧ (s.receiveCredits n).recvCredits = s.recvCredits ∧
      (s.receiveCredits n).framesReceived = s.framesReceived ∧
      (STREAM_DEFAULTS.maxCredits.lt (s.sendCredits.add n) = false →
        (s.receiveCredits n).sendCredits = s.sendCredits.add n) := by
  unfold MeshStream.receiveCredits
  refine ⟨rfl, rfl, rfl, fun hcap => ?_⟩
  simp only [hcap, Bool.false_eq_true, if_false]

def StreamBody.granted : StreamBody → ℕ
  | .windowUpdate n => n.whole
  | _ => 0

def grantedIn (f : List StreamBody) : ℕ := (f.map StreamBody.granted).sum

@[simp] theorem grantedIn_nil : grantedIn [] = 0 := rfl

theorem grantedIn_cons (b : StreamBody) (f : List StreamBody) : grantedIn (b :: f) = b.granted + grantedIn f := rfl

def Plain (f : List StreamBody) : Prop := ∀ b ∈ f, b.kind = .data ∨ b.kind = .windowUpdate

theorem Plain.nil : Plain [] := fun _ h => absurd h List.not_mem_nil

theorem Plain.snoc {f : List StreamBody} {b : StreamBody} (h : Plain f) (hb : b.kind = .data ∨ b.kind = .windowUpdate) :
    Plain (f ++ [b]) := by
  intro c hc
  rcases List.mem_append.mp hc with hc | hc
  · exact h c hc
  · rw [List.mem_singleton.mp hc]
    exact hb

theorem Plain.tail {f : List StreamBody} {b : StreamBody} (h : Plain (b :: f)) : Plain f := fun c hc =>
  h c (List.mem_cons_of_mem b hc)

def Failing (f : List StreamBody) : Prop := ∀ b ∈ f, b.kind = .error

/-- The credits that two open ends keep, with what is on the link from the sender `s` and to it. -/
structure Balanced (s : MeshStream) (f : List StreamBody) (s' : MeshStream) (f' : List StreamBody) : Prop where
  opened : s.state = .opened
  plain : Plain f
  law : s'.recvCredits.whole = s.sendCredits.whole + grantedIn f' + countOf .data f + s'.framesReceived

/-- The stream is new: `c` credits are on the way to the other end. -/
structure NewStream (s : MeshStream) (c : JsNumber) (f : List StreamBody) : Prop where
  opened : s.state = .opened
  plain : Plain f
  whole : c.Whole
  sent : c.whole = s.sendCredits.whole + countOf .data f
  granted : s.recvCredits.whole = c.whole + grantedIn f
  received : s.framesReceived = 0

/-- An end `v` of a stream, with what is on the link from it, the other end `u`, and what is on the link back: none of
them knows the stream; or one has opened it; or the other one has refused it; or both have opened it. -/
inductive Handshake (v : StreamView) (f : List StreamBody) (u : StreamView) (f' : List StreamBody) : Prop where
  | unknown (hv : v.stream = none) (hu : u.stream = none) (hf : f = []) (hf' : f' = [])
  | opening (s : MeshStream) (c : JsNumber) (rest : List StreamBody) (hv : v.stream = some s) (hu : u.stream = none)
      (hf : f = .opened c :: rest) (hf' : f' = []) (h : NewStream s c rest)
  | opened (s : MeshStream) (c : JsNumber) (rest : List StreamBody) (hv : v.stream = none) (hu : u.stream = some s)
      (hf : f = []) (hf' : f' = .opened c :: rest) (h : NewStream s c rest)
  | refused (s : MeshStream) (hv : v.stream = some s) (hu : u.stream = none) (hf' : Failing f')
      (hf : ∀ b ∈ f, b.kind ≠ .opened ∧ b.kind ≠ .ended)
  | refuses (s : MeshStream) (hv : v.stream = none) (hu : u.stream = some s) (hf : Failing f)
      (hf' : ∀ b ∈ f', b.kind ≠ .opened ∧ b.kind ≠ .ended)
  | joined (s s' : MeshStream) (hv : v.stream = some s) (hu : u.stream = some s') (h : Balanced s f s' f')
      (h' : Balanced s' f' s f)

/-- Whole credits, bounded by the initial ones and the cap. -/
structure WholeCredits (v : StreamView) (s : MeshStream) : Prop where
  send : s.sendCredits.Whole
  recv : s.recvCredits.Whole
  bounded : ∃ c, v.initial = some c ∧ s.recvCredits.whole ≤ max c.whole 64

/-- One end, and what is on the link from it. -/
structure Conserving (v : StreamView) (f : List StreamBody) (u : StreamView) (f' : List StreamBody) : Prop where
  credits : ∀ s, v.stream = some s → WholeCredits v s
  listed : ∀ s, v.stream = some s → s.state = .opened → v.deleted = false
  updates : ∀ n, .windowUpdate n ∈ f → n.Whole ∧ ∀ s, v.stream = some s → s.recvCredits.whole ≤ 64
  handshake : Handshake v f u f'

theorem countOf_append (k : StreamKind) (f f' : List StreamBody) : countOf k (f ++ f') = countOf k f + countOf k f' := by
  rw [countOf, List.countP_append]
  rfl

theorem grantedIn_append (f f' : List StreamBody) : grantedIn (f ++ f') = grantedIn f + grantedIn f' := by
  rw [grantedIn, List.map_append, List.sum_append]
  rfl

/-- What a stream that writes or grants does: it spends a credit for each frame, and keeps one for each that it grants. -/
structure Spends (s s₁ : MeshStream) (sent : List StreamBody) : Prop where
  state : s₁.state = s.state
  received : s₁.framesReceived = s.framesReceived
  plain : Plain sent
  sends : s.sendCredits.whole = s₁.sendCredits.whole + countOf .data sent
  keeps : s₁.recvCredits.whole = s.recvCredits.whole + grantedIn sent

namespace Handshake
variable {v v' u : StreamView} {f f' sent : List StreamBody} {b : StreamBody}

theorem symm (h : Handshake v f u f') : Handshake u f' v f := by
  cases h with
  | unknown hv hu hf hf' => exact .unknown hu hv hf' hf
  | opening s c rest hv hu hf hf' h => exact .opened s c rest hu hv hf' hf h
  | opened s c rest hv hu hf hf' h => exact .opening s c rest hu hv hf' hf h
  | refused s hv hu hf' hf => exact .refuses s hu hv hf' hf
  | refuses s hv hu hf hf' => exact .refused s hu hv hf hf'
  | joined s s' hv hu h h' => exact .joined s' s hu hv h' h

theorem same (h : Handshake v f u f') (hstream : v'.stream = v.stream) : Handshake v' f u f' := by
  cases h with
  | unknown hv hu hf hf' => exact .unknown (hstream.trans hv) hu hf hf'
  | opening s c rest hv hu hf hf' h => exact .opening s c rest (hstream.trans hv) hu hf hf' h
  | opened s c rest hv hu hf hf' h => exact .opened s c rest (hstream.trans hv) hu hf hf' h
  | refused s hv hu hf' hf => exact .refused s (hstream.trans hv) hu hf' hf
  | refuses s hv hu hf hf' => exact .refuses s (hstream.trans hv) hu hf hf'
  | joined s s' hv hu h h' => exact .joined s s' (hstream.trans hv) hu h h'

theorem opens (h : Handshake v f u f') (hv : v.stream = none) (hu : u.stream = none) {c : JsNumber} (hc : c.Whole)
    (size : ℕ) (hv' : v'.stream = some (MeshStream.new c size).markOpen) : Handshake v' (f ++ [.opened c]) u f' := by
  have hnew : NewStream (MeshStream.new c size).markOpen c [] := ⟨rfl, Plain.nil, hc, rfl, rfl, rfl⟩
  cases h with
  | unknown _ _ hf hf' =>
      rw [hf, List.nil_append]
      exact .opening _ c [] hv' hu rfl hf' hnew
  | opening s c rest hs _ _ _ _ => cases hv.symm.trans hs
  | opened s c rest _ hs _ _ _ => cases hu.symm.trans hs
  | refused s hs _ _ _ => cases hv.symm.trans hs
  | refuses s _ hs _ _ => cases hu.symm.trans hs
  | joined s s' hs _ _ _ => cases hv.symm.trans hs

theorem spends (h : Handshake v f u f') {s s₁ : MeshStream} (hs : v.stream = some s) (hs₁ : v'.stream = some s₁)
    (hspends : Spends s s₁ sent) : Handshake v' (f ++ sent) u f' := by
  have hplain : ∀ q, Plain q → Plain (q ++ sent) := fun q hq c hc =>
    (List.mem_append.mp hc).elim (hq c) (hspends.plain c)
  have hsends := hspends.sends
  have hkeeps := hspends.keeps
  cases h with
  | unknown hv _ _ _ => cases hv.symm.trans hs
  | opened _ _ _ hv _ _ _ _ => cases hv.symm.trans hs
  | refuses _ hv _ _ _ => cases hv.symm.trans hs
  | opening s' c rest hv hu hf hf' h =>
      obtain rfl := Option.some.inj (hs.symm.trans hv)
      refine .opening s₁ c (rest ++ sent) hs₁ hu (by rw [hf]; rfl) hf'
        ⟨hspends.state.trans h.opened, hplain rest h.plain, h.whole, ?_, ?_, hspends.received.trans h.received⟩
      · have hsent := h.sent
        rw [countOf_append]
        omega
      · have hgranted := h.granted
        rw [grantedIn_append]
        omega
  | refused s' hv hu hf' hf =>
      refine .refused s₁ hs₁ hu hf' fun b hb => ?_
      rcases List.mem_append.mp hb with hb | hb
      · exact hf b hb
      · rcases hspends.plain b hb with hkind | hkind
        · rw [hkind]
          exact ⟨by decide, by decide⟩
        · rw [hkind]
          exact ⟨by decide, by decide⟩
  | joined s₀ s' hv hu h h' =>
      obtain rfl := Option.some.inj (hs.symm.trans hv)
      have hlaw := h.law
      have hlaw' := h'.law
      have hreceived := hspends.received
      refine .joined s₁ s' hs₁ hu ⟨hspends.state.trans h.opened, hplain f h.plain, ?_⟩ ⟨h'.opened, h'.plain, ?_⟩
      · rw [countOf_append]
        omega
      · rw [grantedIn_append]
        omega

theorem accepts {c : JsNumber} (h : Handshake v f u (.opened c :: f')) (hv : v.stream = none) (size : ℕ)
    (hv' : v'.stream = some (MeshStream.new c size).markOpen) : Handshake v' f u f' := by
  cases h with
  | unknown _ _ _ hf' => cases hf'
  | opening _ _ _ _ _ _ hf' _ => cases hf'
  | refused s hs _ _ _ => cases hv.symm.trans hs
  | refuses _ _ _ _ hf' => exact absurd rfl (hf' _ List.mem_cons_self).1
  | joined s _ hs _ _ _ => cases hv.symm.trans hs
  | opened s c' rest _ hu hf hf' h =>
      obtain ⟨hbody, rfl⟩ := List.cons.inj hf'
      obtain rfl := StreamBody.opened.inj hbody
      rw [hf]
      have hsent := h.sent
      have hgranted := h.granted
      have hreceived := h.received
      have hnew : ((MeshStream.new c size).markOpen).sendCredits.whole = c.whole ∧
          ((MeshStream.new c size).markOpen).recvCredits.whole = c.whole ∧
          ((MeshStream.new c size).markOpen).framesReceived = 0 := ⟨rfl, rfl, rfl⟩
      refine .joined _ s hv' hu ⟨rfl, Plain.nil, ?_⟩ ⟨h.opened, h.plain, ?_⟩
      · rw [countOf_nil]
        omega
      · rw [grantedIn_nil]
        omega

theorem refusesOne (h : Handshake v f u (b :: f')) (hv : ∀ s, v.stream = some s → s.state ≠ .opened) {c : StreamBody}
    (hc : c.kind = .error) : Handshake v (f ++ [c]) u f' := by
  cases h with
  | unknown _ _ _ hf' => cases hf'
  | opening _ _ _ _ _ _ hf' _ => cases hf'
  | joined s _ hs _ h _ => exact absurd h.opened (hv s hs)
  | opened s c' rest hnone hu hf hf' h =>
      obtain ⟨-, rfl⟩ := List.cons.inj hf'
      rw [hf]
      refine .refuses s hnone hu (fun b hb => by rw [List.mem_singleton.mp hb]; exact hc) fun b hb => ?_
      rcases h.plain b hb with hkind | hkind
      · rw [hkind]
        exact ⟨by decide, by decide⟩
      · rw [hkind]
        exact ⟨by decide, by decide⟩
  | refused s hs hu hf' hf =>
      refine .refused s hs hu (fun d hd => hf' d (List.mem_cons_of_mem b hd)) fun d hd => ?_
      rcases List.mem_append.mp hd with hd | hd
      · exact hf d hd
      · rw [List.mem_singleton.mp hd, hc]
        exact ⟨by decide, by decide⟩
  | refuses s hnone hu hf hf' =>
      refine .refuses s hnone hu (fun d hd => ?_) fun d hd => hf' d (List.mem_cons_of_mem b hd)
      rcases List.mem_append.mp hd with hd | hd
      · exact hf d hd
      · rw [List.mem_singleton.mp hd]
        exact hc

theorem of_heard (h : Handshake v f u (b :: f')) {s : MeshStream} (hs : v.stream = some s) :
    (u.stream = none ∧ Failing (b :: f') ∧ ∀ d ∈ f, d.kind ≠ .opened ∧ d.kind ≠ .ended) ∨
      ∃ s', u.stream = some s' ∧ Balanced s f s' (b :: f') ∧ Balanced s' (b :: f') s f := by
  cases h with
  | unknown hv _ _ _ => cases hv.symm.trans hs
  | opening _ _ _ _ _ _ hf' _ => cases hf'
  | opened _ _ _ hv _ _ _ _ => cases hv.symm.trans hs
  | refused _ _ hu hf' hf => exact Or.inl ⟨hu, hf', hf⟩
  | refuses _ hv _ _ _ => cases hv.symm.trans hs
  | joined s₀ s' hv hu h h' =>
      obtain rfl := Option.some.inj (hs.symm.trans hv)
      exact Or.inr ⟨s', hu, h, h'⟩

end Handshake

namespace Conserving
variable {v v' u : StreamView} {f f' f'' g g' sent : List StreamBody} {b : StreamBody}

theorem init (hv : v.stream = none) (hu : u.stream = none) : Conserving v [] u [] where
  credits s hs := by cases hv.symm.trans hs
  listed s hs := by cases hv.symm.trans hs
  updates n hn := absurd hn List.not_mem_nil
  handshake := .unknown hv hu rfl rfl

theorem moved (h' : Conserving u f' v f) (hcredits : ∀ s, v'.stream = some s → WholeCredits v' s)
    (hlisted : ∀ s, v'.stream = some s → s.state = .opened → v'.deleted = false)
    (hupdates : ∀ n, .windowUpdate n ∈ g → n.Whole ∧ ∀ s, v'.stream = some s → s.recvCredits.whole ≤ 64)
    (hsub : g' ⊆ f') (hhandshake : Handshake v' g u g') : Conserving v' g u g' ∧ Conserving u g' v' g :=
  ⟨⟨hcredits, hlisted, hupdates, hhandshake⟩,
    ⟨h'.credits, h'.listed, fun n hn => h'.updates n (hsub hn), hhandshake.symm⟩⟩

theorem same (h : Conserving v f u f') (h' : Conserving u f' v f) (hstream : v'.stream = v.stream)
    (hinitial : v'.initial = v.initial) (hdeleted : v'.deleted = v.deleted) :
    Conserving v' f u f' ∧ Conserving u f' v' f := by
  refine h'.moved (fun s hs => ?_) (fun s hs => ?_) (fun n hn => ?_) (fun _ hb => hb) (h.handshake.same hstream)
  · obtain ⟨hsend, hrecv, hbounded⟩ := h.credits s (hstream.symm.trans hs)
    exact ⟨hsend, hrecv, by rwa [hinitial]⟩
  · rw [hdeleted]
    exact h.listed s (hstream.symm.trans hs)
  · obtain ⟨hn, hle⟩ := h.updates n hn
    exact ⟨hn, fun s hs => hle s (hstream.symm.trans hs)⟩

variable {s : MeshStream}

theorem writes (h : Conserving v f u f') (h' : Conserving u f' v f) {s₁ : MeshStream} (hs : v.stream = some s)
    (hs₁ : v'.stream = some s₁) (hinitial : v'.initial = v.initial) (hdeleted : v'.deleted = v.deleted)
    (hrecv : s₁.recvCredits = s.recvCredits) (hsend : s₁.sendCredits.Whole) (hdata : ∀ b ∈ sent, b.kind = .data)
    (hspends : Spends s s₁ sent) : Conserving v' (f ++ sent) u f' ∧ Conserving u f' v' (f ++ sent) := by
  obtain ⟨-, hwhole, hbounded⟩ := h.credits s hs
  refine h'.moved (fun s' hs' => ?_) (fun s' hs' hopened => ?_) (fun n hn => ?_) (fun _ hb => hb)
    (h.handshake.spends hs hs₁ hspends)
  · obtain rfl := Option.some.inj (hs₁.symm.trans hs')
    exact ⟨hsend, hrecv ▸ hwhole, by rw [hrecv, hinitial]; exact hbounded⟩
  · obtain rfl := Option.some.inj (hs₁.symm.trans hs')
    rw [hdeleted]
    exact h.listed s hs (hspends.state.symm.trans hopened)
  · rcases List.mem_append.mp hn with hn | hn
    · obtain ⟨hn, hle⟩ := h.updates n hn
      refine ⟨hn, fun s' hs' => ?_⟩
      obtain rfl := Option.some.inj (hs₁.symm.trans hs')
      rw [hrecv]
      exact hle s hs
    · cases hdata _ hn

theorem grants (h : Conserving v f u f') (h' : Conserving u f' v f) (hs : v.stream = some s)
    {n : JsNumber} (hn : n.Whole) (hsum : (s.recvCredits.add n).Whole)
    (hvalue : (s.recvCredits.add n).whole = s.recvCredits.whole + n.whole) (hcap : (s.recvCredits.add n).whole ≤ 64) :
    Conserving (v.put { s with recvCredits := s.recvCredits.add n }) (f ++ [.windowUpdate n]) u f' ∧
      Conserving u f' (v.put { s with recvCredits := s.recvCredits.add n }) (f ++ [.windowUpdate n]) := by
  obtain ⟨hsend, -, c, hc, -⟩ := h.credits s hs
  refine h'.moved (fun s₁ hs₁ => ?_) (fun s₁ hs₁ hopened => ?_) (fun m hm => ?_) (fun _ hb => hb)
    (h.handshake.spends hs rfl ⟨rfl, rfl, Plain.nil.snoc (Or.inr rfl), rfl, ?_⟩)
  · obtain rfl := Option.some.inj hs₁
    exact ⟨hsend, hsum, c, hc, hcap.trans (le_max_right _ _)⟩
  · obtain rfl := Option.some.inj hs₁
    exact h.listed s hs hopened
  · have hsmall : ∀ s₁, (v.put { s with recvCredits := s.recvCredits.add n }).stream = some s₁ →
        s₁.recvCredits.whole ≤ 64 := by
      intro s₁ hs₁
      obtain rfl := Option.some.inj hs₁
      exact hcap
    rcases List.mem_append.mp hm with hm | hm
    · exact ⟨(h.updates m hm).1, hsmall⟩
    · obtain rfl := StreamBody.windowUpdate.inj (List.mem_singleton.mp hm)
      exact ⟨hn, hsmall⟩
  · rw [hvalue]
    exact (Nat.add_zero _).symm ▸ rfl

theorem hearsData (h : Conserving v f u (b :: f')) (h' : Conserving u (b :: f') v f)
    (hs : v.stream = some s) (hb : b.kind = .data) (v' : StreamView) (bytes : Payload) (seq : ℕ) :
    ∃ s₁, s.receiveData bytes seq = some s₁ ∧ (v'.stream = some s₁ → v'.initial = v.initial → v'.deleted = v.deleted →
      Conserving v' f u f' ∧ Conserving u f' v' f) := by
  obtain ⟨-, hfailing, -⟩ | ⟨s', hu, hbalanced, hbalanced'⟩ := h.handshake.of_heard hs
  · have hkind := hfailing b List.mem_cons_self
    rw [hb] at hkind
    cases hkind
  · refine ⟨_, if_neg fun hclosed => hclosed.1 hbalanced.opened, fun hs₁ hinitial hdeleted => ?_⟩
    have hlaw := hbalanced.law
    have hlaw' := hbalanced'.law
    obtain ⟨hsend, hrecv, hbounded⟩ := h.credits s hs
    refine h'.moved (fun s₁ hs₁' => ?_) (fun s₁ hs₁' hopened => ?_) (fun n hn => ?_) (List.subset_cons_self b f')
      (.joined _ s' hs₁ hu ⟨hbalanced.opened, hbalanced.plain, ?_⟩ ⟨hbalanced'.opened, hbalanced'.plain.tail, ?_⟩)
    · obtain rfl := Option.some.inj (hs₁.symm.trans hs₁')
      exact ⟨hsend, hrecv, by rw [hinitial]; exact hbounded⟩
    · rw [hdeleted]
      exact h.listed s hs hbalanced.opened
    · obtain ⟨hn, hle⟩ := h.updates n hn
      refine ⟨hn, fun s₁ hs₁' => ?_⟩
      obtain rfl := Option.some.inj (hs₁.symm.trans hs₁')
      exact hle s hs
    · rw [grantedIn_cons] at hlaw
      have hnone : b.granted = 0 := by
        cases b with
        | windowUpdate n => cases hb
        | opened _ | data _ _ | ended _ | error _ _ _ => rfl
      rw [hnone] at hlaw
      show s'.recvCredits.whole = s.sendCredits.whole + grantedIn f' + countOf .data f + s'.framesReceived
      omega
    · rw [countOf_cons, if_pos hb] at hlaw'
      show s.recvCredits.whole = s'.sendCredits.whole + grantedIn f + countOf .data f' + (s.framesReceived + 1)
      omega

theorem hearsCredits (h : Conserving v f u f'') (h' : Conserving u f'' v f) {n : JsNumber}
    (hf' : f'' = .windowUpdate n :: f') (hs : v.stream = some s)
    (hs₁ : v'.stream = some (s.receiveCredits n)) (hinitial : v'.initial = v.initial) (hdeleted : v'.deleted = v.deleted) :
    Conserving v' f u f' ∧ Conserving u f' v' f := by
  subst hf'
  obtain ⟨-, hfailing, -⟩ | ⟨s', hu, hbalanced, hbalanced'⟩ := h.handshake.of_heard hs
  · cases hfailing _ List.mem_cons_self
  · have hlaw := hbalanced.law
    have hlaw' := hbalanced'.law
    obtain ⟨hsend, hrecv, hbounded⟩ := h.credits s hs
    obtain ⟨hn, hle⟩ := h'.updates n List.mem_cons_self
    have hcap := hle s' hu
    rw [grantedIn_cons, StreamBody.granted] at hlaw
    obtain ⟨hsum, hvalue⟩ := hsend.add hn (by omega)
    have hcapped : STREAM_DEFAULTS.maxCredits.lt (s.sendCredits.add n) = false := by
      rw [Bool.eq_false_iff, ne_eq, cap_iff hsum]
      omega
    obtain ⟨hstate, hkeeps, hreceived, hadd⟩ := receiveCredits_spec s n
    generalize s.receiveCredits n = s₁ at *
    have hadd := hadd hcapped
    refine h'.moved (fun s₂ hs₂ => ?_) (fun s₂ hs₂ hopened => ?_) (fun m hm => ?_) (List.subset_cons_self _ f')
      (.joined s₁ s' hs₁ hu ⟨hstate.trans hbalanced.opened, hbalanced.plain, ?_⟩
        ⟨hbalanced'.opened, hbalanced'.plain.tail, ?_⟩)
    · obtain rfl := Option.some.inj (hs₁.symm.trans hs₂)
      exact ⟨hadd ▸ hsum, hkeeps ▸ hrecv, by rw [hkeeps, hinitial]; exact hbounded⟩
    · rw [hdeleted]
      exact h.listed s hs hbalanced.opened
    · obtain ⟨hm, hle⟩ := h.updates m hm
      refine ⟨hm, fun s₂ hs₂ => ?_⟩
      obtain rfl := Option.some.inj (hs₁.symm.trans hs₂)
      rw [hkeeps]
      exact hle s hs
    · rw [hadd, hvalue]
      omega
    · rw [countOf_cons, if_neg fun hkind => (by cases hkind)] at hlaw'
      rw [hkeeps, hreceived]
      exact hlaw'

theorem hearsError (h : Conserving v f u (b :: f')) (h' : Conserving u (b :: f') v f) (hb : b.kind = .error)
    (hs : v.stream = some s) :
    Conserving (v.put s.receiveError).delete f u f' ∧ Conserving u f' (v.put s.receiveError).delete f := by
  obtain ⟨hu, hfailing, hf⟩ | ⟨s', hu, hbalanced, hbalanced'⟩ := h.handshake.of_heard hs
  · have hsame : s.receiveError.sendCredits = s.sendCredits ∧ s.receiveError.recvCredits = s.recvCredits ∧
        s.receiveError.state = .closed := by
      unfold MeshStream.receiveError
      split_ifs with hclosed
      · exact ⟨rfl, rfl, hclosed⟩
      · exact ⟨rfl, rfl, rfl⟩
    obtain ⟨hsend, hrecv, hclosed⟩ := hsame
    obtain ⟨hsend', hrecv', hbounded⟩ := h.credits s hs
    refine h'.moved (fun s₁ hs₁ => ?_) (fun s₁ hs₁ hopened => ?_) (fun n hn => ?_) (List.subset_cons_self b f')
      (.refused _ rfl hu (fun d hd => hfailing d (List.mem_cons_of_mem b hd)) hf)
    · obtain rfl := Option.some.inj hs₁
      exact ⟨hsend ▸ hsend', hrecv ▸ hrecv', by rw [hrecv]; exact hbounded⟩
    · obtain rfl := Option.some.inj hs₁
      cases hclosed.symm.trans hopened
    · obtain ⟨hn, hle⟩ := h.updates n hn
      refine ⟨hn, fun s₁ hs₁ => ?_⟩
      obtain rfl := Option.some.inj hs₁
      rw [hrecv]
      exact hle s hs
  · rcases hbalanced'.plain b List.mem_cons_self with hkind | hkind
    · rw [hb] at hkind
      cases hkind
    · rw [hb] at hkind
      cases hkind

theorem opens (h : Conserving v f u f') (h' : Conserving u f' v f) (hv : v.stream = none) (hu : u.stream = none)
    {c : JsNumber} (hc : c.Whole) (size : ℕ) :
    Conserving (v.start (MeshStream.new c size).markOpen) (f ++ [.opened c]) u f' ∧
      Conserving u f' (v.start (MeshStream.new c size).markOpen) (f ++ [.opened c]) := by
  have hnone : ∀ n, .windowUpdate n ∉ f ++ [.opened c] := by
    intro n hn
    cases h.handshake with
    | unknown _ _ hf _ =>
        rw [hf] at hn
        cases List.mem_singleton.mp hn
    | opening _ _ _ hs _ _ _ _ => cases hv.symm.trans hs
    | opened _ _ _ _ hs _ _ _ => cases hu.symm.trans hs
    | refused _ hs _ _ _ => cases hv.symm.trans hs
    | refuses _ _ hs _ _ => cases hu.symm.trans hs
    | joined _ _ hs _ _ _ => cases hv.symm.trans hs
  refine h'.moved (fun s hs => ?_) (fun _ _ _ => rfl) (fun n hn => absurd hn (hnone n)) (fun _ hb => hb)
    (h.handshake.opens hv hu hc size rfl)
  obtain rfl := Option.some.inj hs
  exact ⟨hc, hc, c, rfl, le_max_left _ _⟩

theorem accepts {c : JsNumber} (h : Conserving v f u (.opened c :: f')) (h' : Conserving u (.opened c :: f') v f)
    (hv : v.stream = none) (size : ℕ) : Conserving (v.start (MeshStream.new c size).markOpen) f u f' ∧
      Conserving u f' (v.start (MeshStream.new c size).markOpen) f := by
  have hopening : c.Whole ∧ f = [] := by
    cases h.handshake with
    | unknown _ _ _ hf' => cases hf'
    | opening _ _ _ _ _ _ hf' _ => cases hf'
    | refused _ hs _ _ _ => cases hv.symm.trans hs
    | refuses _ _ _ _ hf' => exact absurd rfl (hf' _ List.mem_cons_self).1
    | joined _ _ hs _ _ _ => cases hv.symm.trans hs
    | opened s c' rest _ _ hf hf' h =>
        obtain rfl := StreamBody.opened.inj (List.cons.inj hf').1
        exact ⟨h.whole, hf⟩
  obtain ⟨hc, hf⟩ := hopening
  refine h'.moved (fun s hs => ?_) (fun _ _ _ => rfl) (fun n hn => ?_) (List.subset_cons_self _ f')
    (h.handshake.accepts hv size rfl)
  · obtain rfl := Option.some.inj hs
    exact ⟨hc, hc, c, rfl, le_max_left _ _⟩
  · rw [hf] at hn
    exact absurd hn List.not_mem_nil

theorem answers (h : Conserving v f u (b :: f')) (h' : Conserving u (b :: f') v f)
    (hv : ∀ s, v.stream = some s → s.state ≠ .opened)
    (herror : ∃ code message retryable, sent = [.error code message retryable]) :
    Conserving v (f ++ sent) u f' ∧ Conserving u f' v (f ++ sent) := by
  obtain ⟨code, message, retryable, rfl⟩ := herror
  refine h'.moved h.credits h.listed (fun n hn => ?_) (List.subset_cons_self b f') (h.handshake.refusesOne hv rfl)
  rcases List.mem_append.mp hn with hn | hn
  · exact h.updates n hn
  · cases List.mem_singleton.mp hn

theorem sends (h : Conserving v f u f') (h' : Conserving u f' v f) (hs : v.stream = some s)
    (hpos : JsNumber.lt 0 s.sendCredits = true) (queue : List Payload) (bytes : Payload)
    (hs₁ : v'.stream = some ({ s with sendQueue := queue }.send bytes).1) (hinitial : v'.initial = v.initial)
    (hdeleted : v'.deleted = v.deleted) :
    Conserving v' (f ++ ({ s with sendQueue := queue }.send bytes).2) u f' ∧
      Conserving u f' v' (f ++ ({ s with sendQueue := queue }.send bytes).2) := by
  obtain ⟨hwhole, hone⟩ := (h.credits s hs).send.sub_one hpos
  exact h.writes h' hs hs₁ hinitial hdeleted rfl hwhole (fun b hb => by rw [List.mem_singleton.mp hb]; rfl)
    ⟨rfl, rfl, Plain.nil.snoc (Or.inl rfl), hone.symm, rfl⟩

theorem acts {x y : StreamEnd} {a : StreamAction} (h : Conserving (x.view a.streamId) f (y.view a.streamId) f')
    (h' : Conserving (y.view a.streamId) f' (x.view a.streamId) f) (hmay : MayStream x y a)
    (hacts : x.Acts a v' sent) :
    Conserving v' (f ++ sent) (y.view a.streamId) f' ∧ Conserving (y.view a.streamId) f' v' (f ++ sent) := by
  have hunchanged : v' = x.view a.streamId → sent = [] →
      Conserving v' (f ++ sent) (y.view a.streamId) f' ∧ Conserving (y.view a.streamId) f' v' (f ++ sent) := by
    rintro rfl rfl
    rw [List.append_nil]
    exact ⟨h, h'⟩
  cases a with
  | openStream id initialCredits maxSize =>
      rcases hacts with ⟨rfl, rfl⟩ | ⟨s, hopen, rfl, rfl⟩
      · exact hunchanged rfl rfl
      · simp only [StreamMultiplexer.openStream, bind_eq_ok, failIf_eq_ok, pure_eq_ok] at hopen
        obtain ⟨-, -, rfl⟩ := hopen
        obtain ⟨hx, hy, hwhole⟩ := hmay
        exact h.opens h' hx hy hwhole _
  | write id bytes =>
      obtain ⟨s, hs, ⟨rfl, rfl⟩ | ⟨r, hwrite, rfl, rfl⟩⟩ := hacts
      · exact hunchanged rfl rfl
      · simp only [MeshStream.write, bind_eq_ok, failIf_eq_ok, pure_eq_ok] at hwrite
        obtain ⟨-, -, -, -, rfl⟩ := hwrite
        by_cases hpos : JsNumber.lt 0 s.sendCredits = true
        · simp only [if_pos hpos]
          exact h.sends h' hs hpos s.sendQueue bytes rfl rfl rfl
        · simp only [if_neg hpos]
          exact h.writes h' hs rfl rfl rfl rfl (h.credits s hs).send (fun b hb => absurd hb List.not_mem_nil)
            ⟨rfl, rfl, Plain.nil, rfl, rfl⟩
  | grantCredits id n =>
      obtain ⟨s, hs, ⟨rfl, rfl⟩ | ⟨r, hgrant, rfl, rfl⟩⟩ := hacts
      · exact hunchanged rfl rfl
      · simp only [MeshStream.grantCredits, bind_eq_ok, failIf_eq_ok] at hgrant
        obtain ⟨-, -, hgrant⟩ := hgrant
        have hrecv := (h.credits s hs).recv
        have hn : n.Whole := hmay
        split_ifs at hgrant
        · cases hgrant
          rw [put_of_stream (v := x.view id) hs, List.append_nil]
          exact ⟨h, h'⟩
        · simp only [bind_eq_ok, failIf_eq_ok, pure_eq_ok] at hgrant
          obtain ⟨-, hcap, rfl⟩ := hgrant
          rw [cap_add_iff hrecv hn, not_lt] at hcap
          obtain ⟨hsum, hvalue⟩ := hrecv.add hn (hcap.trans (by norm_num))
          exact h.grants h' hs hn hsum hvalue (hvalue ▸ hcap)
  | goOn callback =>
      cases callback with
      | onEnd id => exact hmay.elim
      | onCredits id =>
          obtain ⟨s, hs, ⟨r, hdrain, rfl, rfl⟩ | ⟨-, ⟨b, rfl⟩, rfl⟩⟩ := hacts
          · unfold MeshStream.drain at hdrain
            split at hdrain
            · cases hdrain
            · rename_i bytes rest hqueue
              split_ifs at hdrain with hpos
              cases hdrain
              exact h.sends h' hs hpos rest bytes rfl rfl rfl
          · rw [List.append_nil]
            exact h.same h' rfl rfl rfl
  | fails callback =>
      cases callback with
      | onEnd id => exact hmay.elim
      | onCredits id =>
          obtain ⟨rfl, b, rfl⟩ := hacts
          rw [List.append_nil]
          exact h.same h' rfl rfl rfl
  | endStream id => exact hmay.elim
  | cancel id reason => exact hmay.elim
  | close id => exact hmay.elim
  | closeOne id => exact hmay.elim
  | forge id n => exact hmay.elim

theorem hears {x y : StreamEnd} {id : JsString} {body : StreamBody}
    (h : Conserving (x.view id) f (y.view id) (body :: f')) (h' : Conserving (y.view id) (body :: f') (x.view id) f)
    (hhears : x.Hears id body v' sent) :
    Conserving v' (f ++ sent) (y.view id) f' ∧ Conserving (y.view id) f' v' (f ++ sent) := by
  have hunlisted : x.stream? id = none ∨ (x.view id).deleted = true →
      ∀ s, (x.view id).stream = some s → s.state ≠ .opened := by
    rintro (hnone | hdeleted) s hs hopened
    · cases hnone.symm.trans hs
    · cases hdeleted.symm.trans (h.listed s hs hopened)
  have hkinds : ∀ s, (x.view id).stream = some s →
      body.kind = .error ∨ body.kind = .data ∨ body.kind = .windowUpdate := by
    intro s hs
    obtain ⟨-, hfailing, -⟩ | ⟨s', -, -, hbalanced'⟩ := h.handshake.of_heard hs
    · exact Or.inl (hfailing body List.mem_cons_self)
    · exact Or.inr (hbalanced'.plain body List.mem_cons_self)
  cases body with
  | opened c =>
      have hnone : x.stream? id = none := by
        cases hs : x.stream? id with
        | none => rfl
        | some s => rcases hkinds s hs with hkind | hkind | hkind <;> cases hkind
      rcases hhears with ⟨-, -, hsome⟩ | ⟨-, rfl, herror⟩ | ⟨rfl, rfl⟩
      · rw [hnone] at hsome
        cases hsome
      · exact h.answers h' (hunlisted (Or.inl hnone)) herror
      · rw [List.append_nil]
        exact h.accepts h' hnone _
  | data bytes seq =>
      rcases hhears with ⟨hnone, rfl, herror⟩ | ⟨s, hs, -, rfl, hdata⟩
      · exact h.answers h' (hunlisted hnone) herror
      · obtain ⟨s₁, hreceive, hheard⟩ := h.hearsData h' hs rfl v' bytes seq
        rw [List.append_nil]
        rcases hdata with ⟨hnone, -⟩ | ⟨s', hsome, rfl⟩
        · cases hnone.symm.trans hreceive
        · obtain rfl := Option.some.inj (hreceive.symm.trans hsome)
          exact hheard rfl rfl rfl
  | windowUpdate n =>
      rcases hhears with ⟨hnone, rfl, herror⟩ | ⟨s, hs, -, rfl, rfl⟩
      · exact h.answers h' (hunlisted hnone) herror
      · rw [List.append_nil]
        exact h.hearsCredits h' rfl hs rfl rfl rfl
  | ended totalBytes =>
      rcases hhears with ⟨hnone, rfl, herror⟩ | ⟨s, hs, -, -, -⟩
      · exact h.answers h' (hunlisted hnone) herror
      · rcases hkinds s hs with hkind | hkind | hkind <;> cases hkind
  | error code message retryable =>
      rcases hhears with ⟨hnone, rfl, herror⟩ | ⟨s, hs, -, rfl, rfl⟩
      · exact h.answers h' (hunlisted hnone) herror
      · rw [List.append_nil]
        exact h.hearsError h' rfl hs

end Conserving

theorem conserving_reach {defaults : End → StreamDefaults} {w : StreamLink}
    (h : (streamMachine defaults).Reach Streams w) : Party.Both (EachStream Conserving) w := by
  refine h.invariant (fun e id => Conserving.init rfl rfl) fun w a w' hI hok hs => ?_
  exact eachStream_step (fun x y a v' f f' sent h h' hmay hacts => h.acts h' hmay hacts)
    (fun x y id body v' f f' sent h h' _ hhears => h.hears h' hhears) hI hok hs

/-! ### What a peer puts on the wire -/

/-- The cap of `_receiveCredits`. -/
def capped (credits : Tally) : Tally :=
  if STREAM_DEFAULTS.maxCredits.lt credits.toNumber then .number STREAM_DEFAULTS.maxCredits else credits

/-- `_receiveCredits` of `additionalCredits`, where `none` is `undefined`: a conversion that throws leaves the credits
as they are. -/
def wireCredits (numberText : JsNumber → JsString) (credits : JsNumber) (v : Option Json) : Tally :=
  match (Tally.number credits).plus numberText v with
  | none => .number credits
  | some sum => capped sum

def IsCount (credits : Tally) : Prop := ∃ j ≤ 64, credits = .number (.ofNat j)

/-- What leaves `k` credits a whole number up to the cap: `null`, a boolean, a number that makes the sum whole or takes
it above the cap, and what is joined to a text only if that spells a number above the cap. -/
def CountsWith (numberText : JsNumber → JsString) (k : ℕ) : Option Json → Prop
  | none => False
  | some .null => True
  | some (.bool _) => True
  | some (.number n) =>
      STREAM_DEFAULTS.maxCredits.lt ((JsNumber.ofNat k).add n) = true ∨ IsCount (.number ((JsNumber.ofNat k).add n))
  | some v => ∀ t ∈ v.toText numberText,
      STREAM_DEFAULTS.maxCredits.lt (stringToNumber (numberText (.ofNat k) ++ t)) = true

theorem isCount_capped_iff (sum : Tally) :
    IsCount (capped sum) ↔ STREAM_DEFAULTS.maxCredits.lt sum.toNumber = true ∨ IsCount sum := by
  rw [capped]
  by_cases hcap : STREAM_DEFAULTS.maxCredits.lt sum.toNumber = true
  · rw [if_pos hcap, maxCredits_eq]
    exact ⟨fun _ => Or.inl (maxCredits_eq ▸ hcap), fun _ => ⟨64, le_refl _, rfl⟩⟩
  · rw [if_neg hcap]
    exact ⟨Or.inr, fun h => h.resolve_left hcap⟩

section
variable (numberText : JsNumber → JsString) {k : ℕ}

theorem isCount_capped_add (hk : k ≤ 64) {n : ℕ} (hn : n ≤ 1) :
    IsCount (capped (.number ((JsNumber.ofNat k).add (.ofNat n)))) := by
  rw [isCount_capped_iff]
  rcases Nat.lt_or_ge 64 (k + n) with hover | hsmall
  · refine Or.inl ((cap_add_iff ⟨k, by omega, rfl⟩ ⟨n, by omega, rfl⟩).mpr ?_)
    rwa [JsNumber.whole_ofNat (by omega), JsNumber.whole_ofNat (by omega)]
  · exact Or.inr ⟨k + n, hsmall, by rw [JsNumber.add_ofNat (by omega)]⟩

theorem isCount_text_iff (v : Json) (hk : k ≤ 64)
    (hplus : (Tally.number (.ofNat k)).plus numberText (some v) =
      (v.toText numberText).map fun t => .text (numberText (.ofNat k) ++ t)) :
    IsCount (wireCredits numberText (.ofNat k) (some v)) ↔ ∀ t ∈ v.toText numberText,
      STREAM_DEFAULTS.maxCredits.lt (stringToNumber (numberText (.ofNat k) ++ t)) = true := by
  rw [wireCredits, hplus]
  cases htext : v.toText numberText with
  | none => exact ⟨fun _ t ht => (by cases ht), fun _ => ⟨k, hk, rfl⟩⟩
  | some t =>
      simp only [Option.map_some, Option.mem_def, Option.some.injEq, forall_eq']
      rw [isCount_capped_iff]
      refine ⟨fun h => h.resolve_right ?_, Or.inl⟩
      rintro ⟨j, -, heq⟩
      cases heq

theorem isCount_wireCredits_iff (hk : k ≤ 64) (v : Option Json) :
    IsCount (wireCredits numberText (.ofNat k) v) ↔ CountsWith numberText k v := by
  cases v with
  | none =>
      refine ⟨?_, False.elim⟩
      have hsum : wireCredits numberText (.ofNat k) none = capped (.number ((JsNumber.ofNat k).add .nan)) := rfl
      rw [hsum, JsNumber.add_nan, isCount_capped_iff]
      rintro (hcap | ⟨j, hj, heq⟩)
      · exact (of_decide_eq_true hcap).2.1 rfl
      · rw [JsNumber.ofNat_eq (hj.trans (by norm_num))] at heq
        cases heq
  | some v =>
      cases v with
      | null =>
          have hsum : wireCredits numberText (.ofNat k) (some .null) = capped (.number ((JsNumber.ofNat k).add 0)) := rfl
          rw [hsum, JsNumber.zero_eq_ofNat]
          exact ⟨fun _ => trivial, fun _ => isCount_capped_add hk (Nat.zero_le 1)⟩
      | bool b =>
          refine ⟨fun _ => trivial, fun _ => ?_⟩
          cases b with
          | true => exact isCount_capped_add hk (le_refl 1)
          | false =>
              have hsum : wireCredits numberText (.ofNat k) (some (.bool false)) =
                  capped (.number ((JsNumber.ofNat k).add 0)) := rfl
              rw [hsum, JsNumber.zero_eq_ofNat]
              exact isCount_capped_add hk (Nat.zero_le 1)
      | number n => exact isCount_capped_iff (.number ((JsNumber.ofNat k).add n))
      | string s => exact isCount_text_iff numberText (.string s) hk rfl
      | array items => exact isCount_text_iff numberText (.array items) hk rfl
      | object fields => exact isCount_text_iff numberText (.object fields) hk rfl

end

/-! ### What the credits are worth -/

theorem whole_iff (n : JsNumber) : n = .ofNat n.whole ∧ n.whole ≤ 2 ^ 53 ↔ n.Whole :=
  ⟨fun h => ⟨n.whole, h.2, h.1⟩, JsNumber.Whole.eq⟩

instance : DecidablePred JsNumber.Whole := fun n => decidable_of_iff _ (whole_iff n)

instance (x y : StreamEnd) : DecidablePred (MayStream x y)
  | .openStream _ _ _ => inferInstanceAs (Decidable (_ ∧ _))
  | .write _ _ => inferInstanceAs (Decidable True)
  | .grantCredits _ n => inferInstanceAs (Decidable n.Whole)
  | .goOn (.onCredits _) => inferInstanceAs (Decidable True)
  | .goOn (.onEnd _) => inferInstanceAs (Decidable False)
  | .fails (.onCredits _) => inferInstanceAs (Decidable True)
  | .fails (.onEnd _) => inferInstanceAs (Decidable False)
  | .endStream _ => inferInstanceAs (Decidable False)
  | .cancel _ _ => inferInstanceAs (Decidable False)
  | .close _ => inferInstanceAs (Decidable False)
  | .closeOne _ => inferInstanceAs (Decidable False)
  | .forge _ _ => inferInstanceAs (Decidable False)

instance (w : StreamLink) : DecidablePred (Streams w) :=
  inferInstanceAs (DecidablePred (Party.Meets MayStream (fun _ _ => True) w))

theorem grantOne_iff {s : MeshStream} (hopened : s.state = .opened) (hrecv : s.recvCredits.Whole) :
    (∃ r, s.grantCredits (.ofNat 1) = .ok r) ↔ s.recvCredits.whole + 1 ≤ 64 := by
  have hone : JsNumber.Whole (.ofNat 1) := ⟨1, by norm_num, rfl⟩
  have hpositive : ¬ ((JsNumber.ofNat 1).le 0 = true ∨ (JsNumber.ofNat 1).isFinite = false) := by decide +kernel
  have hcap := cap_add_iff hrecv hone
  rw [JsNumber.whole_ofNat (by norm_num)] at hcap
  simp only [MeshStream.grantCredits, bind_eq_ok, failIf_eq_ok]
  rw [if_neg (by rw [hopened]; exact fun h => (by cases h))]
  simp only [bind_eq_ok, failIf_eq_ok, pure_eq_ok]
  constructor
  · rintro ⟨r, -, -, -, hle, -⟩
    exact not_lt.mp (hle ∘ hcap.mpr)
  · intro hle
    exact ⟨_, ⟨⟩, hpositive, ⟨⟩, not_lt.mpr hle ∘ hcap.mp, rfl⟩

/-- The credits that a receiver keeps are what the sender has and what is on the link exactly as long as it has received
no frame; one more is granted for each frame only as long as the initial ones and those add up to the cap, and no more
frames than that are received; and what a peer puts on the wire leaves a whole number exactly if it `CountsWith` the
credits. -/
theorem credits_conserved_iff {defaults : End → StreamDefaults} {w : StreamLink}
    (h : (streamMachine defaults).Reach Streams w) {e : End} {id : JsString} {s s' : MeshStream} {c : JsNumber}
    (hs : (w e).state.stream? id = some s) (hs' : (w e.other).state.stream? id = some s')
    (hc : (w e.other).state.initial.get? id = some c) :
    (s'.recvCredits.whole = s.sendCredits.whole + grantedIn (bodies (w e).inbox id) +
        countOf .data (bodies (w e.other).inbox id) ↔ s'.framesReceived = 0) ∧
    s'.framesReceived ≤ max c.whole 64 ∧
    (s'.recvCredits.whole + 1 = c.whole + s'.framesReceived →
      ((∃ r, s'.grantCredits (.ofNat 1) = .ok r) ↔ c.whole + s'.framesReceived ≤ 64)) ∧
    ∀ (numberText : JsNumber → JsString) (k : ℕ), k ≤ 64 → ∀ v : Option Json,
      IsCount (wireCredits numberText (.ofNat k) v) ↔ CountsWith numberText k v := by
  have hboth := conserving_reach h e id
  have hother := conserving_reach h e.other id
  rw [End.other_other] at hother
  have hcredits := hother.credits s' hs'
  obtain ⟨c', hc', hbounded⟩ := hcredits.bounded
  obtain rfl : c' = c := Option.some.inj (hc'.symm.trans hc)
  have hopen : Balanced s (bodies (w e.other).inbox id) s' (bodies (w e).inbox id) ∧ s'.state = .opened := by
    cases hboth.handshake with
    | unknown hv _ _ _ => cases hv.symm.trans hs
    | opening _ _ _ _ hu _ _ _ => cases hu.symm.trans hs'
    | opened _ _ _ hv _ _ _ _ => cases hv.symm.trans hs
    | refused _ _ hu _ _ => cases hu.symm.trans hs'
    | refuses _ hv _ _ _ => cases hv.symm.trans hs
    | joined s₀ s₁ hv hu h h' =>
        obtain rfl := Option.some.inj (hs.symm.trans hv)
        obtain rfl := Option.some.inj (hs'.symm.trans hu)
        exact ⟨h, h'.opened⟩
  obtain ⟨hbalanced, hopened⟩ := hopen
  have hlaw := hbalanced.law
  refine ⟨?_, ?_, fun hgranted => ?_, fun numberText k hk v => isCount_wireCredits_iff numberText hk v⟩
  · constructor <;> intro h <;> omega
  · omega
  · rw [grantOne_iff hopened hcredits.recv, hgranted]

/-- A stream is opened with credits up to the cap, and one frame is received. -/
def fullRun (id : JsString) : List (Link.Action StreamAction) :=
  [.act .left (.openStream id (some (.ofNat 64)) none), .deliver .right, .act .left (.write id [0]), .deliver .right]

theorem fullRun_spec : ∃ w, (streamMachine fun _ => STREAM_DEFAULTS).run Streams
      (streamMachine fun _ => STREAM_DEFAULTS).init (fullRun (js "s1")) = some w ∧
    (streamMachine fun _ => STREAM_DEFAULTS).Reach Streams w ∧
    (∃ s s', (w .left).state.stream? (js "s1") = some s ∧ (w .right).state.stream? (js "s1") = some s' ∧
      s.sendCredits = .ofNat 63 ∧ s'.recvCredits = .ofNat 64 ∧ s'.framesReceived = 1 ∧ s'.state = .opened) ∧
    (w .right).state.initial.get? (js "s1") = some (.ofNat 64) ∧ (w .left).inbox = [] ∧ (w .right).inbox = [] := by
  obtain ⟨w, hw, hreach, hends, hinitial, hleft, hright⟩ := Machine.exists_of_run (P := fun w : StreamLink =>
      (((w .left).state.stream? (js "s1")).map MeshStream.sendCredits = some (.ofNat 63) ∧
        ((w .right).state.stream? (js "s1")).map (fun s => (s.recvCredits, s.framesReceived, s.state)) =
          some (.ofNat 64, 1, .opened)) ∧
      (w .right).state.initial.get? (js "s1") = some (.ofNat 64) ∧ (w .left).inbox = [] ∧ (w .right).inbox = [])
    (show ((streamMachine fun _ => STREAM_DEFAULTS).run Streams (streamMachine fun _ => STREAM_DEFAULTS).init
      (fullRun (js "s1"))).any _ = true by decide +kernel)
  obtain ⟨s, hs, hsend⟩ := Option.map_eq_some_iff.mp hends.1
  obtain ⟨s', hs', hrecv⟩ := Option.map_eq_some_iff.mp hends.2
  obtain ⟨hrecv, hreceived⟩ := Prod.mk.inj hrecv
  obtain ⟨hreceived, hopened⟩ := Prod.mk.inj hreceived
  exact ⟨w, hw, hreach, ⟨s, s', hs, hs', hsend, hrecv, hreceived, hopened⟩, hinitial, hleft, hright⟩

theorem credits_conserved_full : ∃ w s s', (streamMachine fun _ => STREAM_DEFAULTS).Reach Streams w ∧
    (w .left).state.stream? (js "s1") = some s ∧ (w .right).state.stream? (js "s1") = some s' ∧
    s'.recvCredits.whole ≠ s.sendCredits.whole + grantedIn (bodies (w .left).inbox (js "s1")) +
      countOf .data (bodies (w .right).inbox (js "s1")) ∧
    ¬ ∃ r, s'.grantCredits (.ofNat 1) = .ok r := by
  obtain ⟨w, -, hreach, ⟨s, s', hs, hs', hsend, hrecv, hreceived, -⟩, hinitial, -, -⟩ := fullRun_spec
  obtain ⟨hlaw, -, hgrant, -⟩ := credits_conserved_iff hreach (e := .left) hs hs' hinitial
  refine ⟨w, s, s', hreach, hs, hs', fun h => ?_, fun hok => ?_⟩
  · rw [hlaw.mp h] at hreceived
    cases hreceived
  · rw [hrecv, hreceived] at hgrant
    have hle := (hgrant rfl).mp hok
    rw [JsNumber.whole_ofNat (by norm_num)] at hle
    exact absurd hle (by norm_num)

/-- Received frames are not taken off the receiver's credits, so the first grant is refused; and a negative number on
the wire makes the credits negative. -/
theorem credits_not_conserved :
    (¬ ∀ w, (streamMachine fun _ => STREAM_DEFAULTS).Reach Streams w → ∀ e id s s',
      (w e).state.stream? id = some s → (w e.other).state.stream? id = some s' →
      s'.recvCredits.whole = s.sendCredits.whole + grantedIn (bodies (w e).inbox id) +
        countOf .data (bodies (w e.other).inbox id)) ∧
    (¬ ∀ w, (streamMachine fun _ => STREAM_DEFAULTS).Reach Streams w → ∀ e id s' c,
      (w e).state.stream? id = some s' → (w e).state.initial.get? id = some c →
      s'.recvCredits.whole + 1 = c.whole + s'.framesReceived → ∃ r, s'.grantCredits (.ofNat 1) = .ok r) ∧
    ∀ numberText, ¬ ∀ v, IsCount (wireCredits numberText (.ofNat 8) v) := by
  obtain ⟨w, -, hreach, ⟨s, s', hs, hs', hsend, hrecv, hreceived, hopened⟩, hinitial, hleft, hright⟩ :=
    fullRun_spec
  have h63 : JsNumber.whole (.ofNat 63) = 63 := JsNumber.whole_ofNat (by norm_num)
  have h64 : JsNumber.whole (.ofNat 64) = 64 := JsNumber.whole_ofNat (by norm_num)
  refine ⟨fun h => ?_, fun h => ?_, fun numberText h => ?_⟩
  · have hlaw := h w hreach .left (js "s1") s s' hs hs'
    rw [hleft, show (w End.left.other).inbox = [] from hright, hsend, hrecv, h63, h64] at hlaw
    cases hlaw
  · have hgrant := h w hreach .right (js "s1") s' (.ofNat 64) hs' hinitial (by rw [hrecv, hreceived])
    rw [grantOne_iff hopened (hrecv ▸ ⟨64, by norm_num, rfl⟩), hrecv, h64] at hgrant
    exact absurd hgrant (by norm_num)
  · have hcount : IsCount (capped (.number ((JsNumber.ofNat 8).add (JsNumber.ofNat 100).neg))) :=
      h (some (.number (JsNumber.ofNat 100).neg))
    rw [isCount_capped_iff] at hcount
    rcases hcount with hcap | ⟨j, hj, heq⟩
    · exact absurd hcap (by decide +kernel)
    · have hneg : ((JsNumber.ofNat 8).add (JsNumber.ofNat 100).neg).lt 0 = true := by decide +kernel
      rw [Tally.number.inj heq, JsNumber.zero_eq_ofNat,
        JsNumber.lt_ofNat (hj.trans (by norm_num)) (Nat.zero_le _)] at hneg
      exact absurd hneg (Nat.not_lt_zero j)

end BrowserMesh.Transport
