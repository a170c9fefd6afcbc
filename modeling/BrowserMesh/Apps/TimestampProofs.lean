import BrowserMesh.Apps.TimestampConsensus

/-! # Forged timestamp proofs

The authority signs `eventHash:canonicalTimestamp` and for each witness `eventHash:podId:localTimestamp`.  Nothing ties
the texts of one stamp together and none holds the confidence, so whoever has seen two of them that belong to one event
makes a proof of his own (`unforgeable_iff`). -/

namespace BrowserMesh.Apps
open Js

namespace TimestampProof
variable (text : JsNumber → JsString)

/-- The texts that are signed for a proof. -/
def signedTexts (proof : TimestampProof) : List JsString :=
  authorityData text proof.eventHash proof.canonicalTimestamp ::
    proof.witnesses.map fun w => witnessData text proof.eventHash w.podId w.localTimestamp

theorem verify_valid_iff {text : JsNumber → JsString} {verifyFn : JsString → JsString → JsString → Bool}
    {proof : TimestampProof} : (proof.verify text (some verifyFn)).valid = true ↔
      proof.eventHash ≠ [] ∧ proof.canonicalTimestamp.le 0 = false ∧ proof.witnesses ≠ [] ∧ proof.signature ≠ [] ∧
      verifyFn proof.issuedBy proof.signature (authorityData text proof.eventHash proof.canonicalTimestamp) = true ∧
      ∀ w ∈ proof.witnesses, w.signature ≠ [] ∧
        verifyFn proof.issuedBy w.signature (witnessData text proof.eventHash w.podId w.localTimestamp) = true := by
  have hnone : proof.witnesses.findSome? (witnessFailure text verifyFn proof) = none ↔ ∀ w ∈ proof.witnesses,
      w.signature ≠ [] ∧
        verifyFn proof.issuedBy w.signature (witnessData text proof.eventHash w.podId w.localTimestamp) = true := by
    rw [List.findSome?_eq_none_iff]
    refine forall₂_congr fun w _ => ?_
    unfold witnessFailure
    split_ifs <;> simp_all
  rw [← hnone]
  simp only [verify]
  cases proof.witnesses.findSome? (witnessFailure text verifyFn proof) <;> split_ifs <;> simp_all [invalid]

theorem confidence_of_valid {text : JsNumber → JsString} {verifyFn : JsString → JsString → JsString → Bool}
    {proof : TimestampProof} (h : (proof.verify text (some verifyFn)).valid = true) :
    (proof.verify text (some verifyFn)).confidence = proof.confidence := by
  revert h
  simp only [verify]
  cases proof.witnesses.findSome? (witnessFailure text verifyFn proof) <;> split_ifs <;> simp [invalid]

end TimestampProof

namespace TimestampAuthority
open TimestampProof

/-- A call of `stamp`: the clock, the event and the timestamps of the peers. -/
abbrev StampCall := JsNumber × NonEmptyString × Option (JsMap JsString JsNumber)

variable (engine : ArraySort JsNumber.sub) (text : JsNumber → JsString) (signer : Signer) (clockSkewMs : JsNumber)

def stamps (calls : List StampCall) : List TimestampProof :=
  calls.map fun c => stamp engine text signer clockSkewMs c.1 c.2.1 c.2.2

/-- The texts that the authority has signed in a run. -/
def textsOf (calls : List StampCall) : List JsString :=
  (stamps engine text signer clockSkewMs calls).flatMap (signedTexts text)

/-- The signatures that the pods have seen: all of the run, and none of the authority's on another text. -/
structure Seen (calls : List StampCall) (seen : JsString → Prop) : Prop where
  stamped : ∀ data ∈ textsOf engine text signer clockSkewMs calls, seen (signer.sign data)
  unforged : ∀ signature data, seen signature → signer.verifyFn signer.podId signature data = true →
    data ∈ textsOf engine text signer clockSkewMs calls

/-- A proof made of signatures that were seen is what one stamp put together, if it is valid. -/
def Unforgeable (calls : List StampCall) (seen : JsString → Prop) : Prop :=
  ∀ proof : TimestampProof, proof.issuedBy = signer.podId → seen proof.signature →
    (∀ w ∈ proof.witnesses, seen w.signature) → (proof.verify text (some signer.verifyFn)).valid = true →
    ∃ stamped ∈ stamps engine text signer clockSkewMs calls, proof.eventHash = stamped.eventHash ∧
      proof.canonicalTimestamp = stamped.canonicalTimestamp ∧
      proof.witnesses.map (fun w => (w.podId, w.localTimestamp)) =
        stamped.witnesses.map (fun w => (w.podId, w.localTimestamp)) ∧
      (proof.verify text (some signer.verifyFn)).confidence = stamped.confidence

theorem computeConfidence_ne_negInf (accepted total : ℕ) : computeConfidence accepted total ≠ .negInf := by
  unfold computeConfidence
  split_ifs with hzero
  · decide
  · by_cases hinf : JsNumber.ofNat accepted = .posInf ∧ JsNumber.ofNat total = .posInf
    · rw [hinf.1, hinf.2]
      decide
    · intro heq
      have htotal : JsNumber.lt 0 (.ofNat total) = true :=
        JsNumber.ofUnits_pos_of_pos (Int.natCast_pos.mpr (Nat.mul_pos (Nat.pos_of_ne_zero hzero) (by decide)))
      have hnonneg := (JsNumber.nonNeg_ofUnits (Int.natCast_nonneg (accepted * oneUnits))).div htotal hinf
      rw [show (JsNumber.ofUnits _).div _ = JsNumber.negInf from heq] at hnonneg
      exact absurd hnonneg (by decide)

/-- Proofs cannot be forged, exactly if nothing can be proved with what was signed: no text for the time of an event and
text for a witness of it. -/
theorem unforgeable_iff {calls : List StampCall} {seen : JsString → Prop}
    (hseen : Seen engine text signer clockSkewMs calls seen) :
    Unforgeable engine text signer clockSkewMs calls seen ↔
      ∀ eventHash canonicalTimestamp podId localTimestamp, eventHash ≠ [] → canonicalTimestamp.le 0 = false →
        authorityData text eventHash canonicalTimestamp ∈ textsOf engine text signer clockSkewMs calls →
        witnessData text eventHash podId localTimestamp ∉ textsOf engine text signer clockSkewMs calls := by
  constructor
  · intro h eventHash canonicalTimestamp podId localTimestamp hevent hpos hauthority hwitness
    -- the confidence of the forged proof is one that no stamp computes
    let forged : TimestampProof := ⟨eventHash, canonicalTimestamp,
      [⟨podId, localTimestamp, signer.sign (witnessData text eventHash podId localTimestamp)⟩],
      signer.podId, 0, .negInf, signer.sign (authorityData text eventHash canonicalTimestamp)⟩
    have hvalid : (forged.verify text (some signer.verifyFn)).valid = true := by
      refine verify_valid_iff.mpr ⟨hevent, hpos, List.cons_ne_nil _ _, signer.nonempty _, signer.accepts _,
        fun w hw => ?_⟩
      obtain rfl := List.mem_singleton.mp hw
      exact ⟨signer.nonempty _, signer.accepts _⟩
    obtain ⟨stamped, hstamped, -, -, -, hconfidence⟩ := h forged rfl (hseen.stamped _ hauthority) (fun w hw => by
      obtain rfl := List.mem_singleton.mp hw
      exact hseen.stamped _ hwitness) hvalid
    obtain ⟨call, -, rfl⟩ := List.mem_map.mp hstamped
    exact computeConfidence_ne_negInf _ _ (hconfidence.symm.trans (confidence_of_valid hvalid))
  · intro h proof hissued hsignature hwitnesses hvalid
    obtain ⟨hevent, hpos, hne, -, hauthority, hok⟩ := verify_valid_iff.mp hvalid
    obtain ⟨w, hw⟩ := List.exists_mem_of_ne_nil _ hne
    rw [hissued] at hauthority hok
    exact absurd (hseen.unforged _ _ (hwitnesses w hw) (hok w hw).2)
      (h _ _ _ _ hevent hpos (hseen.unforged _ _ hsignature hauthority))

/-! ### A run with one stamp -/

/-- An identity whose signatures are the marked texts. -/
def marking : Signer where
  podId := js "a"
  sign data := js "s" ++ data
  verifyFn _ signature data := decide (signature = js "s" ++ data)
  accepts _ := decide_eq_true rfl
  nonempty _ := List.append_ne_nil_of_left_ne_nil (by decide) _

def oneStamp : List StampCall := [(.ofNat 1, ⟨js "e", by decide⟩, none)]

/-- The signatures of a run, where every number is written as `1`. -/
def marked (calls : List StampCall) (signature : JsString) : Prop :=
  ∃ data ∈ textsOf nanInTheMiddle (fun _ => js "1") marking (.ofNat 30000) calls, signature = js "s" ++ data

theorem seen_marked (calls : List StampCall) :
    Seen nanInTheMiddle (fun _ => js "1") marking (.ofNat 30000) calls (marked calls) where
  stamped data hdata := ⟨data, hdata, rfl⟩
  unforged signature data := by
    rintro ⟨data', hdata', rfl⟩ hverify
    rwa [← List.append_cancel_left (of_decide_eq_true hverify)]

theorem one_stamp_forged :
    Unforgeable nanInTheMiddle (fun _ => js "1") marking (.ofNat 30000) [] (marked []) ∧
      ¬ Unforgeable nanInTheMiddle (fun _ => js "1") marking (.ofNat 30000) oneStamp (marked oneStamp) := by
  refine ⟨(unforgeable_iff _ _ _ _ (seen_marked [])).mpr fun _ _ _ _ _ _ => by rintro ⟨⟩, fun h => ?_⟩
  exact (unforgeable_iff _ _ _ _ (seen_marked oneStamp)).mp h (js "e") (.ofNat 1) (js "a") (.ofNat 1) (by decide)
    (by decide +kernel) (by decide +kernel) (by decide +kernel)

/-- The proof of the stamp is valid with every other confidence. -/
theorem confidence_forged :
    ¬ Unforgeable nanInTheMiddle (fun _ => js "1") marking (.ofNat 30000) oneStamp (marked oneStamp) := by
  intro h
  obtain ⟨stamped, hstamped, -, -, -, hconfidence⟩ := h
    ⟨js "e", .ofNat 1, [⟨js "a", .ofNat 1, js "se:a:1"⟩], js "a", 0, .ofNat 2, js "se:1"⟩ rfl
    ⟨js "e:1", by decide +kernel, rfl⟩ (fun w hw => by
      obtain rfl := List.mem_singleton.mp hw
      exact ⟨js "e:a:1", by decide +kernel, rfl⟩) (by decide +kernel)
  obtain rfl := List.mem_singleton.mp hstamped
  exact absurd hconfidence (by decide +kernel)

end TimestampAuthority
end BrowserMesh.Apps
