import BrowserMesh.Js.Arithmetic
import BrowserMesh.Js.Dict
import BrowserMesh.Js.Sorting

/-! # Timestamp consensus

* **Values.**  A `TimestampProof` with its witnesses, and what `verify` says of it.
* **Functions.**  `computeMedian`, `rejectOutliers` and `stamp` of a `TimestampAuthority`.
* **Environment.**  The engine's sort, the identity that signs, and `text`, which writes a number as a string. -/

namespace BrowserMesh.Apps
open Js

/-- Signatures are kept as their base64 text. -/
structure TimestampWitness where
  podId : JsString
  localTimestamp : JsNumber
  signature : JsString

structure TimestampProof where
  eventHash : JsString
  canonicalTimestamp : JsNumber
  witnesses : List TimestampWitness
  issuedBy : JsString
  issuedAt : JsNumber
  confidence : JsNumber
  signature : JsString

inductive Checked where
  | structural
  | signatures

structure Verdict where
  valid : Bool
  confidence : JsNumber
  checked : Checked
  reason : Option JsString

/-- An identity and those who check its signatures. -/
structure Signer where
  podId : JsString
  sign : JsString → JsString
  /-- `verifyFn(signerPodId, fromBase64(signature), data)`. -/
  verifyFn : JsString → JsString → JsString → Bool
  accepts : ∀ data, verifyFn podId (sign data) data = true
  nonempty : ∀ data, sign data ≠ []

namespace TimestampProof

variable (text : JsNumber → JsString)

def authorityData (eventHash : JsString) (canonicalTimestamp : JsNumber) : JsString :=
  eventHash ++ js ":" ++ text canonicalTimestamp

/-- What the authority signs for a witness. -/
def witnessData (eventHash podId : JsString) (localTimestamp : JsNumber) : JsString :=
  eventHash ++ js ":" ++ podId ++ js ":" ++ text localTimestamp

def invalid (checked : Checked) (reason : JsString) : Verdict := ⟨false, 0, checked, some reason⟩

/-- The first witness that `verify` does not accept, with the reason it gives. -/
def witnessFailure (verifyFn : JsString → JsString → JsString → Bool) (proof : TimestampProof)
    (witness : TimestampWitness) : Option JsString :=
  if witness.signature = [] then some (js "witness " ++ witness.podId ++ js " carries no signature")
  else if verifyFn proof.issuedBy witness.signature
      (witnessData text proof.eventHash witness.podId witness.localTimestamp) then none
  else some (js "witness entry for " ++ witness.podId ++ js " failed verification")

def verify (verifyFn : Option (JsString → JsString → JsString → Bool)) (proof : TimestampProof) : Verdict :=
  if proof.eventHash = [] then invalid .structural (js "eventHash missing or not a string")
  else if proof.canonicalTimestamp.le 0 then
    invalid .structural (js "canonicalTimestamp missing or not a positive number")
  else if proof.witnesses.isEmpty then invalid .structural (js "witnesses missing or empty")
  else
    match verifyFn with
    | none => ⟨true, proof.confidence, .structural, none⟩
    | some verifyFn =>
        if proof.signature = [] then invalid .signatures (js "proof carries no authority signature")
        else if verifyFn proof.issuedBy proof.signature
            (authorityData text proof.eventHash proof.canonicalTimestamp) = false then
          invalid .signatures (js "authority signature from " ++ proof.issuedBy ++ js " failed verification")
        else
          match proof.witnesses.findSome? (witnessFailure text verifyFn proof) with
          | some reason => invalid .signatures reason
          | none => ⟨true, proof.confidence, .signatures, none⟩

end TimestampProof

namespace TimestampAuthority

variable (engine : ArraySort JsNumber.sub)

/-- The arithmetic mean of the two middle values, or the middle value. -/
def computeMedian (values : List JsNumber) : JsNumber :=
  if values.length = 0 then 0
  else
    let sorted := engine.sort values
    let mid := sorted.length / 2
    if sorted.length % 2 = 1 then sorted.getD mid .nan
    else ((sorted.getD (mid - 1) .nan).add (sorted.getD mid .nan)).divNat 2

/-- `Math.abs(ts - median) <= clockSkewMs`. -/
def within (clockSkewMs median ts : JsNumber) : Bool := (ts.sub median).abs.le clockSkewMs

def rejectOutliers (clockSkewMs : JsNumber) (timestamps : JsMap JsString JsNumber) (median : JsNumber) :
    JsMap JsString JsNumber :=
  ⟨timestamps.entries.filter fun e => within clockSkewMs median e.2,
    timestamps.nodup.sublist (List.filter_sublist.map Prod.fst)⟩

def computeConfidence (accepted total : ℕ) : JsNumber :=
  if total = 0 then 0 else (JsNumber.ofNat accepted).div (.ofNat total)

/-- The local clock and the timestamps of the peers, each pod once. -/
def allTimestamps (localPodId : JsString) (localTime : JsNumber) (peerTimestamps : Option (JsMap JsString JsNumber)) :
    JsMap JsString JsNumber :=
  let timestamps := JsMap.empty.set localPodId localTime
  match peerTimestamps with
  | none => timestamps
  | some peers => peers.entries.foldl (fun m e => m.set e.1 e.2) timestamps

variable (text : JsNumber → JsString)

/-- `stamp`, at the clock reading `localTime`. -/
def stamp (signer : Signer) (clockSkewMs localTime : JsNumber) (eventHash : NonEmptyString)
    (peerTimestamps : Option (JsMap JsString JsNumber)) : TimestampProof :=
  let timestamps := allTimestamps signer.podId localTime peerTimestamps
  let median := computeMedian engine timestamps.values
  let accepted := rejectOutliers clockSkewMs timestamps median
  let canonicalTimestamp := computeMedian engine accepted.values
  { eventHash := eventHash
    canonicalTimestamp := canonicalTimestamp
    witnesses := accepted.entries.map fun e =>
      ⟨e.1, e.2, signer.sign (TimestampProof.witnessData text eventHash e.1 e.2)⟩
    issuedBy := signer.podId
    issuedAt := localTime
    confidence := computeConfidence accepted.size timestamps.size
    signature := signer.sign (TimestampProof.authorityData text eventHash canonicalTimestamp) }

end TimestampAuthority
end BrowserMesh.Apps
