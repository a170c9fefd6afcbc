import BrowserMesh.Js.Encoding
import BrowserMesh.Library.Regroup

/-! # Content identifiers

* `base32Encode`, `base32Decode`: bits wait in an accumulator until five, or eight, of them are there.
* `cidFromDigest`, `parseCid`: the text form of a version 1 identifier with a SHA-256 digest.

What `base32Decode` leaves in the accumulator at the end is dropped unseen: `cid_canonical_iff`. -/

namespace BrowserMesh.Sync

open Js Regroup

/-! ### Base 32 -/

/-- `B32`. -/
def base32Alphabet : JsString := js "abcdefghijklmnopqrstuvwxyz234567"

/-- `B32[d]`. -/
def base32Unit (d : ℕ) : CodeUnit := base32Alphabet.getD d 0

/-- `B32.indexOf(ch)`. -/
def base32Value (ch : CodeUnit) : Option ℕ := base32Alphabet.idxOf? ch

variable {d : ℕ}

theorem base32Value_unit (h : d < 32) : base32Value (base32Unit d) = some d := by
  have hall : ∀ d : Fin 32, base32Value (base32Unit d) = some d.val := by decide +kernel
  exact hall ⟨d, h⟩

theorem base32Unit_of_value {ch : CodeUnit} (h : base32Value ch = some d) :
    d < 32 ∧ base32Unit d = ch := by
  obtain ⟨hlt, heq, -⟩ := List.findIdx?_eq_some_iff_getElem.mp h
  refine ⟨hlt, ?_⟩
  rw [base32Unit, List.getD_eq_getElem _ _ hlt]
  exact eq_of_beq heq

/-- The variables of a coder. -/
structure BitCoder (α : Type) where
  out : List α
  bits : ℕ
  acc : ℕ

/-- The inner loop of `base32Encode`. -/
def emitUnits (s : BitCoder CodeUnit) : BitCoder CodeUnit :=
  if 5 ≤ s.bits then
    emitUnits { s with out := s.out ++ [base32Unit ((s.acc >>> (s.bits - 5)) &&& 31)], bits := s.bits - 5 }
  else s
termination_by s.bits

def encodeByte (s : BitCoder CodeUnit) (b : Fin 256) : BitCoder CodeUnit :=
  let s' := emitUnits { s with acc := (s.acc <<< 8) ||| b.val, bits := s.bits + 8 }
  { s' with acc := s'.acc &&& ((1 <<< s'.bits) - 1) }

def base32Encode (bytes : Bytes) : JsString :=
  let s := bytes.foldl encodeByte ⟨[], 0, 0⟩
  if 0 < s.bits then s.out ++ [base32Unit ((s.acc <<< (5 - s.bits)) &&& 31)] else s.out

/-- The body of the loop of `base32Decode`; `none` for a character outside the alphabet. -/
def decodeUnit (s : BitCoder (Fin 256)) (ch : CodeUnit) : Option (BitCoder (Fin 256)) :=
  (base32Value ch).map fun v =>
    let acc := (s.acc <<< 5) ||| v
    let bits := s.bits + 5
    let s' : BitCoder (Fin 256) :=
      if 8 ≤ bits then ⟨s.out ++ [Fin.ofNat _ ((acc >>> (bits - 8)) &&& 255)], bits - 8, acc⟩ else ⟨s.out, bits, acc⟩
    { s' with acc := s'.acc &&& ((1 <<< s'.bits) - 1) }

def base32Decode (str : JsString) : Option Bytes := (str.foldlM decodeUnit ⟨[], 0, 0⟩).map BitCoder.out

/-! ### Identifiers -/

inductive Codec where
  | raw
  | dagPb
deriving DecidableEq

/-- `CODEC_RAW`, `CODEC_DAG_PB`. -/
def Codec.code : Codec → Fin 256
  | .raw => 0x55
  | .dagPb => 0x70

/-- `MH_SHA256`. -/
def sha256Code : Fin 256 := 0x12

/-- A SHA-256 digest. -/
abbrev Digest := {digest : Bytes // digest.length = 32}

def cidFromDigest (codec : Codec) (digest : Digest) : JsString :=
  let bytes := [1, codec.code, sha256Code, Fin.ofNat _ digest.1.length] ++ digest.1
  js "b" ++ base32Encode bytes

/-- The errors of `parseCid`. -/
inductive CidError where
  | multibase
  | base32
  | multihash
  | codec
deriving DecidableEq

def CidError.message : CidError → String
  | .multibase => "unsupported CID: expected base32 CIDv1 (\"b\" prefix)"
  | .base32 => "invalid base32 character"
  | .multihash => "unsupported CID: expected CIDv1 with sha2-256 multihash"
  | .codec => "unsupported CID codec"

/-- The codec and the digest of an identifier; the codec stands for its code, too. -/
structure ParsedCid where
  codec : Codec
  digest : Digest
deriving DecidableEq

variable {bytes : Bytes}

theorem digest_length {p q r : Prop} (h : ¬ (bytes.length ≠ 36 ∨ p ∨ q ∨ r)) :
    (bytes.drop 4).length = 32 := by
  rw [not_or, not_not] at h
  rw [List.length_drop, h.1]

def parseCid (cid : JsString) : Except CidError ParsedCid :=
  if cid.head? ≠ some 98 then .error .multibase
  else
    match base32Decode cid.tail with
    | none => .error .base32
    | some bytes =>
        if h : bytes.length ≠ 36 ∨ bytes[0]? ≠ some 1 ∨ bytes[2]? ≠ some sha256Code ∨ bytes[3]? ≠ some 32 then
          .error .multihash
        else
          let digest : Digest := ⟨bytes.drop 4, digest_length h⟩
          if bytes[1]? = some Codec.raw.code then .ok ⟨.raw, digest⟩
          else if bytes[1]? = some Codec.dagPb.code then .ok ⟨.dagPb, digest⟩
          else .error .codec

/-! ### Accumulators -/

/-- The five-bit values of the units. -/
def unitValues (str : JsString) : List ℕ := str.map fun ch => (base32Value ch).getD 0

def byteValues (bytes : Bytes) : List ℕ := bytes.map Fin.val

theorem byteValues_lt (bytes : Bytes) : ∀ d ∈ byteValues bytes, d < 2 ^ 8 := by
  intro d hd
  obtain ⟨b, -, rfl⟩ := List.mem_map.mp hd
  exact b.isLt

variable {n : ℕ}

theorem byteValues_concat (bytes : Bytes) (h : n < 256) :
    byteValues (bytes ++ [Fin.ofNat 256 n]) = byteValues bytes ++ [n] := by
  rw [byteValues, List.map_append, List.map_singleton, Fin.val_ofNat, Nat.mod_eq_of_lt h]
  rfl

theorem byteValues_injective : Function.Injective byteValues :=
  List.map_injective_iff.mpr Fin.val_injective

/-- Units of the alphabet, of which every one has a value. -/
def InAlphabet (str : JsString) : Prop := ∀ ch ∈ str, (base32Value ch).isSome

variable {str : JsString}

theorem unitValues_lt (h : InAlphabet str) : ∀ d ∈ unitValues str, d < 2 ^ 5 := by
  intro d hd
  obtain ⟨ch, hch, rfl⟩ := List.mem_map.mp hd
  obtain ⟨v, hv⟩ := Option.isSome_iff_exists.mp (h ch hch)
  simp only [hv, Option.getD_some]
  exact (base32Unit_of_value hv).1

variable {s t : JsString}

theorem unitValues_inj (hs : InAlphabet s) (ht : InAlphabet t) (h : unitValues s = unitValues t) :
    s = t := by
  induction s generalizing t with
  | nil =>
      cases t with
      | nil => rfl
      | cons c t => cases h
  | cons c s ih =>
      cases t with
      | nil => cases h
      | cons c' t =>
          obtain ⟨v, hv⟩ := Option.isSome_iff_exists.mp (hs c List.mem_cons_self)
          obtain ⟨v', hv'⟩ := Option.isSome_iff_exists.mp (ht c' List.mem_cons_self)
          rw [unitValues, unitValues, List.map_cons, List.map_cons, hv, hv'] at h
          obtain ⟨hhead, htail⟩ := List.cons.inj h
          obtain rfl : v = v' := hhead
          rw [← (base32Unit_of_value hv).2, ← (base32Unit_of_value hv').2,
            ih (fun x hx => hs x (List.mem_cons_of_mem _ hx)) (fun x hx => ht x (List.mem_cons_of_mem _ hx)) htail]

variable {acc : ℕ}

theorem shiftLeft_or (h : d < 2 ^ n) : (acc <<< n) ||| d = acc * 2 ^ n + d := by
  rw [← Nat.shiftLeft_add_eq_or_of_lt h, Nat.shiftLeft_eq]

theorem mask_eq (acc bits : ℕ) : acc &&& ((1 <<< bits) - 1) = acc % 2 ^ bits := by
  rw [Nat.one_shiftLeft, Nat.and_two_pow_sub_one_eq_mod]

theorem shiftRight_mask {k : ℕ} : (acc >>> n) &&& (2 ^ k - 1) = acc / 2 ^ n % 2 ^ k := by
  rw [Nat.and_two_pow_sub_one_eq_mod, Nat.shiftRight_eq_div_pow]

/-! ### Encoding -/

/-- The bytes taken so far are the units given out and the waiting bits. -/
def Encoding (taken : Bytes) (s : BitCoder CodeUnit) : Prop :=
  InAlphabet s.out ∧ Regrouped 8 5 (byteValues taken) (unitValues s.out) s.bits s.acc

theorem inAlphabet_nil : InAlphabet [] := fun _ hch => absurd hch List.not_mem_nil

theorem inAlphabet_concat (h : InAlphabet str) (hd : d < 32) :
    InAlphabet (str ++ [base32Unit d]) := by
  intro ch hch
  rcases List.mem_append.mp hch with hch | hch
  · exact h ch hch
  · rw [List.mem_singleton.mp hch, base32Value_unit hd]
    rfl

theorem unitValues_concat (str : JsString) (hd : d < 32) :
    unitValues (str ++ [base32Unit d]) = unitValues str ++ [d] := by
  rw [unitValues, List.map_append, List.map_singleton, base32Value_unit hd]
  rfl

/-- The inner loop stops with fewer than five bits. -/
theorem encoding_emitUnits {taken : Bytes} {s : BitCoder CodeUnit} (h : Encoding taken s) :
    Encoding taken (emitUnits s) ∧ (emitUnits s).bits < 5 := by
  induction s using emitUnits.induct with
  | case1 s hbits ih =>
      rw [emitUnits, if_pos hbits]
      have hlt : (s.acc >>> (s.bits - 5)) &&& 31 < 32 := Nat.lt_succ_of_le Nat.and_le_right
      refine ih ⟨inAlphabet_concat h.1 hlt, ?_⟩
      rw [unitValues_concat _ hlt, show (31 : ℕ) = 2 ^ 5 - 1 from rfl, shiftRight_mask]
      exact h.2.give hbits
  | case2 s hbits =>
      rw [emitUnits, if_neg hbits]
      exact ⟨h, not_le.mp hbits⟩

theorem encoding_encodeByte {taken : Bytes} {s : BitCoder CodeUnit} (h : Encoding taken s)
    (hacc : s.acc < 2 ^ s.bits) (b : Fin 256) :
    Encoding (taken ++ [b]) (encodeByte s b) ∧ (encodeByte s b).acc < 2 ^ (encodeByte s b).bits ∧
      (encodeByte s b).bits < 5 := by
  have htaken : Encoding (taken ++ [b]) { s with acc := (s.acc <<< 8) ||| b.val, bits := s.bits + 8 } := by
    refine ⟨h.1, ?_⟩
    rw [byteValues, List.map_append, List.map_singleton, shiftLeft_or b.isLt]
    exact h.2.take hacc b.isLt
  obtain ⟨hemit, hbits⟩ := encoding_emitUnits htaken
  unfold encodeByte
  simp only [mask_eq]
  exact ⟨⟨hemit.1, hemit.2.mask⟩, Nat.mod_lt _ (Nat.two_pow_pos _), hbits⟩

theorem encoding_foldl (bytes : Bytes) : ∀ {taken : Bytes} {s : BitCoder CodeUnit}, Encoding taken s →
    s.acc < 2 ^ s.bits → s.bits < 5 →
      Encoding (taken ++ bytes) (bytes.foldl encodeByte s) ∧ (bytes.foldl encodeByte s).bits < 5 := by
  induction bytes with
  | nil =>
      intro taken s h _ hbits
      rw [List.append_nil]
      exact ⟨h, hbits⟩
  | cons b bytes ih =>
      intro taken s h hacc _
      obtain ⟨hstep, hacc', hbits'⟩ := encoding_encodeByte h hacc b
      rw [List.foldl_cons, ← List.singleton_append, ← List.append_assoc]
      exact ih hstep hacc' hbits'

/-- **What is written**: the bytes, padded with zero bits. -/
theorem padded_base32Encode (bytes : Bytes) :
    InAlphabet (base32Encode bytes) ∧
      ∃ pad, Padded 8 5 (byteValues bytes) (unitValues (base32Encode bytes)) pad := by
  have hinit : Encoding [] (⟨[], 0, 0⟩ : BitCoder CodeUnit) := ⟨inAlphabet_nil, .nil 8 5 0⟩
  obtain ⟨⟨halphabet, hregrouped⟩, hbits⟩ := encoding_foldl bytes hinit (by decide) (by decide)
  rw [List.nil_append] at hregrouped
  unfold base32Encode
  simp only
  split_ifs with hpos
  · have hmask : ∀ n : ℕ, n &&& 31 = n % 2 ^ 5 := fun n => Nat.and_two_pow_sub_one_eq_mod n 5
    rw [hmask, Nat.shiftLeft_eq]
    have hlt := Nat.mod_lt ((bytes.foldl encodeByte ⟨[], 0, 0⟩).acc *
      2 ^ (5 - (bytes.foldl encodeByte ⟨[], 0, 0⟩).bits)) (show 0 < 2 ^ 5 by decide)
    have hpad := hregrouped.pad hpos hbits
    rw [← unitValues_concat _ hlt] at hpad
    exact ⟨inAlphabet_concat halphabet hlt, _, hpad⟩
  · rw [Nat.eq_zero_of_not_pos hpos] at hregrouped
    exact ⟨halphabet, 0, hregrouped.padded_of_zero (by decide)⟩

/-! ### Decoding -/

/-- The units taken so far are the bytes given out and fewer than eight waiting bits. -/
structure Decoding (taken : JsString) (s : BitCoder (Fin 256)) : Prop where
  alphabet : InAlphabet taken
  regrouped : Regrouped 5 8 (unitValues taken) (byteValues s.out) s.bits s.acc
  masked : s.acc < 2 ^ s.bits
  short : s.bits < 8

theorem decoding_decodeUnit {taken : JsString} {s s' : BitCoder (Fin 256)} (h : Decoding taken s) {ch : CodeUnit}
    (hs : decodeUnit s ch = some s') : Decoding (taken ++ [ch]) s' := by
  obtain ⟨v, hv, rfl⟩ := Option.map_eq_some_iff.mp hs
  have hlt : v < 2 ^ 5 := (base32Unit_of_value hv).1
  have htaken := h.regrouped.take h.masked hlt
  rw [← shiftLeft_or hlt] at htaken
  have hvalues : unitValues (taken ++ [ch]) = unitValues taken ++ [v] := by
    rw [unitValues, List.map_append, List.map_singleton, hv]
    rfl
  have halphabet : InAlphabet (taken ++ [ch]) := by
    rw [← (base32Unit_of_value hv).2]
    exact inAlphabet_concat h.alphabet hlt
  simp only [mask_eq]
  split_ifs with hbits
  · have hgive := (htaken.give hbits).mask
    rw [← shiftRight_mask, show (2 ^ 8 - 1 : ℕ) = 255 from rfl,
      ← byteValues_concat _ (Nat.lt_succ_of_le Nat.and_le_right)] at hgive
    refine ⟨halphabet, ?_, Nat.mod_lt _ (Nat.two_pow_pos _), ?_⟩
    · rw [hvalues]
      exact hgive
    · have := h.short
      change s.bits + 5 - 8 < 8
      omega
  · refine ⟨halphabet, ?_, Nat.mod_lt _ (Nat.two_pow_pos _), not_le.mp hbits⟩
    rw [hvalues]
    exact htaken.mask

theorem decoding_foldlM (str : JsString) : ∀ {taken : JsString} {s s' : BitCoder (Fin 256)}, Decoding taken s →
    str.foldlM decodeUnit s = some s' → Decoding (taken ++ str) s' := by
  induction str with
  | nil =>
      intro taken s s' h hs
      obtain rfl := Option.some.inj hs
      rwa [List.append_nil]
  | cons ch str ih =>
      intro taken s s' h hs
      rw [List.foldlM_cons] at hs
      obtain ⟨s₁, h₁, h₂⟩ := Option.bind_eq_some_iff.mp hs
      rw [← List.singleton_append, ← List.append_assoc]
      exact ih (decoding_decodeUnit h h₁) h₂

theorem decoding_nil : Decoding [] ⟨[], 0, 0⟩ := ⟨inAlphabet_nil, .nil 5 8 0, by decide, by decide⟩

/-- **What is read**: the bits of the units, but for fewer than eight at the end. -/
theorem decoding_base32Decode (h : base32Decode str = some bytes) :
    ∃ bits acc, Decoding str ⟨bytes, bits, acc⟩ := by
  obtain ⟨s, hs, rfl⟩ := Option.map_eq_some_iff.mp h
  have hdec := decoding_foldlM str decoding_nil hs
  rw [List.nil_append] at hdec
  exact ⟨s.bits, s.acc, hdec⟩

theorem exists_foldlM (h : InAlphabet str) (s : BitCoder (Fin 256)) :
    ∃ s', str.foldlM decodeUnit s = some s' := by
  induction str generalizing s with
  | nil => exact ⟨s, rfl⟩
  | cons ch str ih =>
      obtain ⟨v, hv⟩ := Option.isSome_iff_exists.mp (h ch List.mem_cons_self)
      rw [List.foldlM_cons, decodeUnit, hv]
      exact ih (fun x hx => h x (List.mem_cons_of_mem _ hx)) _

theorem base32Decode_encode (bytes : Bytes) : base32Decode (base32Encode bytes) = some bytes := by
  obtain ⟨halphabet, pad, hpadded⟩ := padded_base32Encode bytes
  obtain ⟨s, hs⟩ := exists_foldlM halphabet ⟨[], 0, 0⟩
  have hdec := decoding_foldlM _ decoding_nil hs
  rw [List.nil_append] at hdec
  have hsame := Regrouped.eq_of_padded hpadded hdec.regrouped (by decide) hdec.short (byteValues_lt bytes)
  rw [base32Decode, hs, Option.map_some, byteValues_injective hsame]

/-- **Writing what was read** gives the text back exactly when fewer than five bits were dropped, all of them zero. -/
theorem base32Encode_decode_iff {bits : ℕ}
    (h : Decoding str ⟨bytes, bits, acc⟩) : base32Encode bytes = str ↔ bits < 5 ∧ acc % 2 ^ bits = 0 := by
  obtain ⟨halphabet, pad, hpadded⟩ := padded_base32Encode bytes
  rw [← Padded.eq_iff h.regrouped hpadded (unitValues_lt h.alphabet)]
  constructor
  · rintro rfl
    rfl
  · exact unitValues_inj halphabet h.alphabet

/-! ### Canonical texts -/

/-- The bytes that the text of an identifier stands for. -/
def identifierBytes (codec : Codec) (digest : Digest) : Bytes :=
  [1, codec.code, sha256Code, Fin.ofNat _ digest.1.length] ++ digest.1

theorem cidFromDigest_eq (codec : Codec) (digest : Digest) :
    cidFromDigest codec digest = js "b" ++ base32Encode (identifierBytes codec digest) := rfl

theorem digest_length_byte (digest : Digest) : (Fin.ofNat 256 digest.1.length : Fin 256) = 32 := by
  rw [digest.2]
  rfl

theorem head_tail (t : JsString) : (js "b" ++ t).head? = some 98 ∧ (js "b" ++ t).tail = t := ⟨rfl, rfl⟩

theorem identifierBytes_form (codec : Codec) (digest : Digest) :
    (identifierBytes codec digest).length = 36 ∧ (identifierBytes codec digest)[0]? = some 1 ∧
      (identifierBytes codec digest)[2]? = some sha256Code ∧ (identifierBytes codec digest)[3]? = some 32 := by
  refine ⟨?_, rfl, rfl, congrArg some (digest_length_byte digest)⟩
  rw [identifierBytes, List.length_append, digest.2]
  rfl

theorem eq_identifierBytes {codec : Codec} {hlen : (bytes.drop 4).length = 32}
    (h : bytes.length = 36 ∧ bytes[0]? = some 1 ∧ bytes[2]? = some sha256Code ∧ bytes[3]? = some 32)
    (hcodec : bytes[1]? = some codec.code) : bytes = identifierBytes codec ⟨bytes.drop 4, hlen⟩ := by
  obtain ⟨_, hfirst, hhash, hsize⟩ := h
  rcases bytes with _ | ⟨b₀, _ | ⟨b₁, _ | ⟨b₂, _ | ⟨b₃, rest⟩⟩⟩⟩
  · cases hfirst
  · cases hcodec
  · cases hhash
  · cases hsize
  · obtain rfl := Option.some.inj hfirst
    obtain rfl := Option.some.inj hcodec
    obtain rfl := Option.some.inj hhash
    obtain rfl := Option.some.inj hsize
    rw [identifierBytes, digest_length_byte]
    rfl

theorem parseCid_of_decode {codec : Codec} {digest : Digest}
    (h : base32Decode t = some (identifierBytes codec digest)) : parseCid (js "b" ++ t) = .ok ⟨codec, digest⟩ := by
  have hok := identifierBytes_form codec digest
  have hform : ¬ ((identifierBytes codec digest).length ≠ 36 ∨ (identifierBytes codec digest)[0]? ≠ some 1 ∨
      (identifierBytes codec digest)[2]? ≠ some sha256Code ∨ (identifierBytes codec digest)[3]? ≠ some 32) := by
    simp only [not_or, not_not]
    exact hok
  have hcodec : (identifierBytes codec digest)[1]? = some codec.code := rfl
  have hhead : ¬ (js "b" ++ t).head? ≠ some 98 := fun hne => hne (head_tail t).1
  rw [parseCid, if_neg hhead, (head_tail t).2]
  simp only [h, dif_neg hform, hcodec]
  cases codec with
  | raw => rfl
  | dagPb => rfl

/-- An accepted text is `b` followed by a text of the identifier's bytes. -/
theorem of_parseCid {p : ParsedCid} (h : parseCid s = .ok p) :
    ∃ t, s = js "b" ++ t ∧ base32Decode t = some (identifierBytes p.codec p.digest) := by
  unfold parseCid at h
  split_ifs at h with hhead
  rw [not_not] at hhead
  refine ⟨s.tail, ?_, ?_⟩
  · cases s with
    | nil => cases hhead
    | cons c s =>
        obtain rfl : c = 98 := Option.some.inj hhead
        rfl
  split at h
  · cases h
  · rename_i bytes hbytes
    split_ifs at h with hform hraw hpb
    · simp only [not_or, not_not] at hform
      obtain rfl := Except.ok.inj h
      rw [hbytes]
      exact congrArg some (eq_identifierBytes hform hraw)
    · simp only [not_or, not_not] at hform
      obtain rfl := Except.ok.inj h
      rw [hbytes]
      exact congrArg some (eq_identifierBytes hform hpb)

/-- `b` and 58 units, the last of which stands for a multiple of four. -/
def Canonical (s : JsString) : Prop := s.length = 59 ∧ ∃ ch d, s.getLast? = some ch ∧ base32Value ch = some d ∧ 4 ∣ d

/-- The bytes of an identifier are read from 58 units, of which two bits are dropped, or from 59, of which seven are. -/
theorem units_of_decoding {bits : ℕ} (h : Decoding t ⟨bytes, bits, acc⟩)
    (hbytes : bytes.length = 36) : (t.length = 58 ∧ bits = 2) ∨ (t.length = 59 ∧ bits = 7) := by
  have hlen : 5 * t.length = 8 * bytes.length + bits := by
    have hlen := h.regrouped.length_eq
    rwa [unitValues, byteValues, List.length_map, List.length_map] at hlen
  have hshort : bits < 8 := h.short
  omega

/-- **One text.**  An accepted text is the one its codec and digest are written as exactly when it is canonical. -/
theorem canonical_iff {p : ParsedCid} (h : parseCid s = .ok p) :
    cidFromDigest p.codec p.digest = s ↔ Canonical s := by
  obtain ⟨t, rfl, hdecode⟩ := of_parseCid h
  obtain ⟨bits, acc, hdec⟩ := decoding_base32Decode hdecode
  rw [cidFromDigest_eq, List.append_right_inj, base32Encode_decode_iff hdec]
  have hlength : (js "b" ++ t).length = t.length + 1 := by
    rw [List.length_append, Nat.add_comm]
    rfl
  unfold Canonical
  rw [hlength]
  rcases units_of_decoding hdec (identifierBytes_form _ _).1 with ⟨ht, rfl⟩ | ⟨ht, rfl⟩
  · obtain ⟨front, ch, rfl⟩ : ∃ front ch, t = front ++ [ch] := by
      refine (List.eq_nil_or_concat' t).resolve_left ?_
      rintro rfl
      cases ht
    have halphabet := hdec.alphabet ch (List.mem_append_right _ (List.mem_singleton_self ch))
    obtain ⟨d, hd⟩ := Option.isSome_iff_exists.mp halphabet
    have hregrouped := hdec.regrouped
    rw [← (base32Unit_of_value hd).2, unitValues_concat _ (base32Unit_of_value hd).1] at hregrouped
    have hlast : (js "b" ++ (front ++ [ch])).getLast? = some ch := by
      rw [← List.append_assoc, List.getLast?_concat]
    have hlow : acc % 2 ^ 2 = d % 2 ^ 2 := hregrouped.mod_last (show 2 ≤ 5 by decide)
    rw [hlow, ht, hlast]
    constructor
    · rintro ⟨_, hzero⟩
      exact ⟨rfl, ch, d, rfl, hd, Nat.dvd_of_mod_eq_zero hzero⟩
    · rintro ⟨_, ch', d', hch', hd', hdvd⟩
      obtain rfl := Option.some.inj hch'
      obtain rfl := Option.some.inj (hd.symm.trans hd')
      exact ⟨by decide, Nat.mod_eq_zero_of_dvd hdvd⟩
  · -- seven bits are dropped: there is a unit too many
    refine iff_of_false (fun hc => absurd hc.1 (by decide)) fun hc => ?_
    omega

/-- **The text form of an identifier.**  What is written is read back; and an accepted text is the one that is written
for its codec and digest if and only if it is canonical. -/
theorem cid_canonical_iff (codec : Codec) (digest : Digest) (s : JsString) :
    parseCid (cidFromDigest codec digest) = .ok ⟨codec, digest⟩ ∧
      ∀ p, parseCid s = .ok p → (cidFromDigest p.codec p.digest = s ↔ Canonical s) :=
  ⟨parseCid_of_decode (base32Decode_encode _), fun _ h => canonical_iff h⟩

def zeroDigest : Digest := ⟨List.replicate 32 0, List.length_replicate⟩

theorem cid_canonical_zeros : parseCid (cidFromDigest .raw zeroDigest) = .ok ⟨.raw, zeroDigest⟩ ∧
    Canonical (cidFromDigest .raw zeroDigest) :=
  have h := cid_canonical_iff .raw zeroDigest (cidFromDigest .raw zeroDigest)
  ⟨h.1, (h.2 ⟨.raw, zeroDigest⟩ h.1).mp rfl⟩

/-- Three texts of one identifier: the last two have a dropped bit set, and a unit too many. -/
theorem three_texts :
    (∀ s ∈ [js "bafkreiaaaaaaaaaaaaaaaaaaaaaaaaaaaaaaaaaaaaaaaaaaaaaaaaaaaa",
        js "bafkreiaaaaaaaaaaaaaaaaaaaaaaaaaaaaaaaaaaaaaaaaaaaaaaaaaaab",
        js "bafkreiaaaaaaaaaaaaaaaaaaaaaaaaaaaaaaaaaaaaaaaaaaaaaaaaaaaa7"],
        parseCid s = .ok ⟨.raw, zeroDigest⟩) ∧
      ¬ ∀ s p, parseCid s = .ok p → cidFromDigest p.codec p.digest = s := by
  have hread : ∀ s ∈ [js "bafkreiaaaaaaaaaaaaaaaaaaaaaaaaaaaaaaaaaaaaaaaaaaaaaaaaaaaa",
      js "bafkreiaaaaaaaaaaaaaaaaaaaaaaaaaaaaaaaaaaaaaaaaaaaaaaaaaaab",
      js "bafkreiaaaaaaaaaaaaaaaaaaaaaaaaaaaaaaaaaaaaaaaaaaaaaaaaaaaa7"],
      parseCid s = .ok ⟨.raw, zeroDigest⟩ := by decide +kernel
  refine ⟨hread, fun hall => ?_⟩
  have hfirst := hall _ _ (hread _ (List.mem_cons_self))
  have hsecond := hall _ _ (hread _ (List.mem_cons_of_mem _ List.mem_cons_self))
  exact absurd (hfirst.symm.trans hsecond) (by decide +kernel)

end BrowserMesh.Sync
