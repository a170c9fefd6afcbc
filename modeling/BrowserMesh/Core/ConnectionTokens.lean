import BrowserMesh.Js.Dict
import BrowserMesh.Js.Number
import BrowserMesh.Library.Guards

/-! # Connection tokens and their replay set

* **The token check.**  `DirectInputHandshake.validateToken`: the field checks, the two time checks, and
  the replay set that is pruned before every lookup.
* **Sessions.**  `session` presents a list of tokens, each at its own clock reading, and keeps the
  tokens accepted.
* **Single use.**  A token's age is compared with the lifetime by `>`, its replay entry with the clock by
  `<=`: at the exact end of its lifetime the token is still good and its entry already gone.
  `accepted_once_iff`: under a clock that does not go back and below the cap, this is the only way a token
  is accepted twice. -/

namespace BrowserMesh.ConnectionTokens
open Js Guards

/-- `TOKEN_TTL_MS`. -/
def TOKEN_TTL_MS : JsNumber := .ofNat (5 * 60 * 1000)

/-- The clock skew tolerated for a timestamp in the future, `-30_000`. -/
def maxSkew : JsNumber := .neg (.ofNat 30000)

/-- `DEFAULT_MAX_CONSUMED_NONCES`. -/
def DEFAULT_MAX_CONSUMED_NONCES : ℕ+ := 10000

/-- The fields of a presented object; `none` for a field that is missing or of another type. -/
structure ConnectionToken where
  podId : Option JsString
  publicKey : Option JsString
  nonce : Option JsString
  timestamp : Option JsNumber
  deriving DecidableEq

/-- What makes two tokens the same one. -/
structure TokenId where
  podId : JsString
  nonce : JsString
  timestamp : JsNumber
  deriving DecidableEq

namespace ConnectionToken

/-- The identity of a presented object that has the three fields. -/
def id? (token : ConnectionToken) : Option TokenId :=
  token.podId.bind fun podId => token.nonce.bind fun nonce =>
    token.timestamp.map fun timestamp => ⟨podId, nonce, timestamp⟩

/-- `!(!value || typeof value !== 'string')`. -/
def text (value : Option JsString) : Option JsString := value.filter fun s => s ≠ []

theorem text_eq_some {value : Option JsString} {s : JsString} :
    text value = some s ↔ value = some s ∧ s ≠ [] := by
  simp [text, Option.filter_eq_some_iff]

end ConnectionToken

/-- The end of a token's lifetime, kept with its nonce. -/
def TokenId.expiresAt (t : TokenId) : JsNumber := t.timestamp.add TOKEN_TTL_MS

/-- `#nonceKey`. -/
def nonceKey (t : TokenId) : JsString := t.podId ++ 0 :: t.nonce

/-- The two time checks: not older than the lifetime, not from the future. -/
def InWindow (t : TokenId) (now : JsNumber) : Prop :=
  TOKEN_TTL_MS.lt (now.sub t.timestamp) = false ∧ (now.sub t.timestamp).lt maxSkew = false

instance (t : TokenId) (now : JsNumber) : Decidable (InWindow t now) :=
  inferInstanceAs (Decidable (_ ∧ _))

/-- What `validateToken` reads and writes of a `DirectInputHandshake`. -/
structure DirectInputHandshake where
  localPodId : JsString
  maxConsumedNonces : ℕ+
  consumedNonces : JsMap JsString JsNumber

namespace DirectInputHandshake

/-- The constructor; `none` for a cap that is not a positive whole number. -/
def create (localPodId : NonEmptyString) (maxConsumedNonces : Option ℕ+) : DirectInputHandshake :=
  ⟨localPodId, maxConsumedNonces.getD DEFAULT_MAX_CONSUMED_NONCES, JsMap.empty⟩

/-- `#pruneConsumedNonces`: the loop over the map drops the entries that are over, the second loop drops
entries from the front until the cap is met. -/
def pruneConsumedNonces (h : DirectInputHandshake) (now : JsNumber) : DirectInputHandshake :=
  let live := h.consumedNonces.entries.filter fun e => !e.2.le now
  { h with
    consumedNonces := ⟨live.drop (live.length - h.maxConsumedNonces), h.consumedNonces.nodup.sublist
      (((List.drop_sublist _ _).trans List.filter_sublist).map Prod.fst)⟩ }

/-- The checks of `validateToken` before it turns to the replay set. -/
def checkToken (h : DirectInputHandshake) (token : Option ConnectionToken) (now : JsNumber) :
    Except JsString TokenId := do
  let token ← required (js "Token is not an object") token
  let podId ← required (js "Token missing podId") (ConnectionToken.text token.podId)
  let _ ← required (js "Token missing publicKey") (ConnectionToken.text token.publicKey)
  let nonce ← required (js "Token missing nonce") (ConnectionToken.text token.nonce)
  failIf (podId = h.localPodId) (js "Cannot connect to self")
  let timestamp ← required (js "Token missing timestamp") token.timestamp
  let age := now.sub timestamp
  failIf (TOKEN_TTL_MS.lt age = true) (js "Token expired")
  failIf (age.lt maxSkew = true) (js "Token timestamp is in the future")
  return ⟨podId, nonce, timestamp⟩

/-- `validateToken`, with the clock reading it takes. -/
def validateToken (h : DirectInputHandshake) (token : Option ConnectionToken) (consume : Bool)
    (now : JsNumber) : DirectInputHandshake × Except JsString TokenId :=
  match h.checkToken token now with
  | .error error => (h, .error error)
  | .ok t =>
      let h := h.pruneConsumedNonces now
      let key := nonceKey t
      if h.consumedNonces.has key then (h, .error (js "Token already used"))
      else if consume then
        -- remembered "for as long as it could still be presented"
        ({ h with consumedNonces := h.consumedNonces.set key t.expiresAt }, .ok t)
      else (h, .ok t)

/-! ### What the checks let through -/

/-- The token has its fields, and it is not the pod's own. -/
structure WellFormed (h : DirectInputHandshake) (token : ConnectionToken) (t : TokenId) : Prop where
  id : token.id? = some t
  publicKey : ∃ key, ConnectionToken.text token.publicKey = some key
  podId : t.podId ≠ []
  nonce : t.nonce ≠ []
  other : t.podId ≠ h.localPodId

variable {h : DirectInputHandshake}

theorem checkToken_eq_ok {token : Option ConnectionToken} {now : JsNumber}
    {t : TokenId} : h.checkToken token now = .ok t ↔
      ∃ token', token = some token' ∧ h.WellFormed token' t ∧ InWindow t now := by
  constructor
  · intro hok
    simp only [checkToken, bind_eq_ok, required_eq_ok, failIf_eq_ok, pure_eq_ok,
      ConnectionToken.text_eq_some] at hok
    obtain ⟨token, rfl, podId, ⟨hpod, hpodNe⟩, key, hkey, nonce, ⟨hnonce, hnonceNe⟩, -, hself,
      timestamp, htime, -, hage, -, hskew, rfl⟩ := hok
    refine ⟨token, rfl, ⟨?_, ⟨key, ConnectionToken.text_eq_some.mpr hkey⟩, hpodNe, hnonceNe, hself⟩, ?_⟩
    · simp [ConnectionToken.id?, hpod, hnonce, htime]
    · exact ⟨Bool.eq_false_iff.mpr hage, Bool.eq_false_iff.mpr hskew⟩
  · rintro ⟨token, rfl, hw, hage, hskew⟩
    obtain ⟨podId, nonce, timestamp⟩ := t
    obtain ⟨key, hkey⟩ := hw.publicKey
    have hid := hw.id
    simp only [ConnectionToken.id?, Option.bind_eq_some_iff, Option.map_eq_some_iff] at hid
    obtain ⟨_, hpod, _, hnonce, _, htime, heq⟩ := hid
    obtain ⟨rfl, rfl, rfl⟩ := TokenId.mk.inj heq
    simp only [checkToken, bind_eq_ok, required_eq_ok, failIf_eq_ok, pure_eq_ok,
      ConnectionToken.text_eq_some]
    exact ⟨token, rfl, _, ⟨hpod, hw.podId⟩, key, ConnectionToken.text_eq_some.mp hkey, _,
      ⟨hnonce, hw.nonce⟩, (), hw.other, _, htime, (), Bool.eq_false_iff.mp hage, (),
      Bool.eq_false_iff.mp hskew, rfl⟩

/-! ### The replay set -/

theorem of_get?_pruneConsumedNonces {now e : JsNumber} {key : JsString}
    (hget : (h.pruneConsumedNonces now).consumedNonces.get? key = some e) :
    h.consumedNonces.get? key = some e ∧ e.le now = false := by
  have hmem := List.mem_of_mem_drop (JsMap.mem_entries_iff.mpr hget)
  obtain ⟨hmem, hlive⟩ := List.mem_filter.mp hmem
  exact ⟨JsMap.mem_entries_iff.mp hmem, by simpa using hlive⟩

theorem get?_pruneConsumedNonces {now e : JsNumber} {key : JsString}
    (hcap : h.consumedNonces.size ≤ h.maxConsumedNonces) (hget : h.consumedNonces.get? key = some e)
    (hlive : e.le now = false) : (h.pruneConsumedNonces now).consumedNonces.get? key = some e := by
  have hlen := List.length_filter_le (fun e : JsString × JsNumber => !e.2.le now)
    h.consumedNonces.entries
  refine JsMap.mem_entries_iff.mp ?_
  simp only [pruneConsumedNonces]
  rw [Nat.sub_eq_zero_of_le (hlen.trans hcap), List.drop_zero]
  exact List.mem_filter.mpr ⟨JsMap.mem_entries_iff.mpr hget, by simp [hlive]⟩

end DirectInputHandshake

/-! ### Sessions -/

/-- A consuming call: what is presented, and the clock reading. -/
abbrev Presentation := Option ConnectionToken × JsNumber

/-- A handshake with the tokens it has accepted, in order. -/
structure Session where
  handshake : DirectInputHandshake
  accepted : List TokenId

def present (s : Session) (c : Presentation) : Session :=
  match s.handshake.validateToken c.1 true c.2 with
  | (h, .ok t) => ⟨h, s.accepted ++ [t]⟩
  | (h, .error _) => ⟨h, s.accepted⟩

def session (h : DirectInputHandshake) (calls : List Presentation) : Session :=
  calls.foldl present ⟨h, []⟩

def presentedTokens (calls : List Presentation) : List TokenId :=
  calls.filterMap fun c => c.1.bind ConnectionToken.id?

theorem session_append_singleton (h : DirectInputHandshake) (calls : List Presentation)
    (c : Presentation) : session h (calls ++ [c]) = present (session h calls) c := by
  simp [session]

theorem presentedTokens_append_singleton (calls : List Presentation) (c : Presentation) :
    presentedTokens (calls ++ [c]) = presentedTokens calls ++ (c.1.bind ConnectionToken.id?).toList := by
  cases hc : c.1.bind ConnectionToken.id? <;> simp [presentedTokens, hc]

theorem present_of_unused {s : Session} {c : Presentation} {t : TokenId}
    (hcheck : s.handshake.checkToken c.1 c.2 = .ok t)
    (hget : (s.handshake.pruneConsumedNonces c.2).consumedNonces.get? (nonceKey t) = none) :
    present s c = ⟨{ s.handshake.pruneConsumedNonces c.2 with
      consumedNonces := (s.handshake.pruneConsumedNonces c.2).consumedNonces.set (nonceKey t)
        t.expiresAt }, s.accepted ++ [t]⟩ := by
  simp [present, DirectInputHandshake.validateToken, hcheck, JsMap.has, hget]

theorem present_cases (s : Session) (c : Presentation) :
    present s c = s ∨ present s c = ⟨s.handshake.pruneConsumedNonces c.2, s.accepted⟩ ∨
    ∃ t, s.handshake.checkToken c.1 c.2 = .ok t ∧
      (s.handshake.pruneConsumedNonces c.2).consumedNonces.get? (nonceKey t) = none := by
  rcases hcheck : s.handshake.checkToken c.1 c.2 with error | t
  · left
    simp [present, DirectInputHandshake.validateToken, hcheck]
  · right
    rcases hget : (s.handshake.pruneConsumedNonces c.2).consumedNonces.get? (nonceKey t) with _ | e
    · exact Or.inr ⟨t, rfl, hget⟩
    · left
      simp [present, DirectInputHandshake.validateToken, hcheck, JsMap.has, hget]

theorem accepted_prefix_present (s : Session) (c : Presentation) :
    s.accepted <+: (present s c).accepted := by
  rcases present_cases s c with heq | heq | ⟨t, hcheck, hget⟩
  · rw [heq]
  · rw [heq]
  · rw [present_of_unused hcheck hget]
    exact List.prefix_append _ _

theorem accepted_prefix_foldl (s : Session) (calls : List Presentation) :
    s.accepted <+: (calls.foldl present s).accepted := by
  induction calls generalizing s with
  | nil => exact List.prefix_rfl
  | cons c calls ih => exact (accepted_prefix_present s c).trans (ih _)

/-! ### What is remembered -/

/-- After `calls`, what is remembered was presented, and an accepted token is remembered until its
lifetime is over. -/
structure Remembered (localPodId : NonEmptyString) (cap : ℕ+) (calls : List Presentation)
    (s : Session) : Prop where
  pod : s.handshake.localPodId = localPodId
  limit : s.handshake.maxConsumedNonces = cap
  keys : ∀ key ∈ s.handshake.consumedNonces.keys, ∃ t ∈ presentedTokens calls, nonceKey t = key
  kept : ∀ t ∈ s.accepted, s.handshake.consumedNonces.get? (nonceKey t) = some t.expiresAt ∨
    ∃ c ∈ calls, t.expiresAt.le c.2 = true
  accepted : ∀ t ∈ s.accepted, t.podId ≠ [] ∧ t.nonce ≠ [] ∧ t.podId ≠ localPodId

namespace Remembered
variable {localPodId : NonEmptyString} {cap : ℕ+} {calls : List Presentation} {s : Session}

theorem size_le (h : Remembered localPodId cap calls s) :
    s.handshake.consumedNonces.size ≤ (presentedTokens calls).dedup.length := by
  have hsub : s.handshake.consumedNonces.keys ⊆ (presentedTokens calls).dedup.map nonceKey := by
    intro key hkey
    obtain ⟨t, ht, rfl⟩ := h.keys key hkey
    exact List.mem_map_of_mem (List.mem_dedup.mpr ht)
  have hlen := (s.handshake.consumedNonces.nodup.subperm hsub).length_le
  simpa [JsMap.keys, JsMap.size] using hlen

theorem keys_prune (h : Remembered localPodId cap calls s) (now : JsNumber) :
    ∀ key ∈ (s.handshake.pruneConsumedNonces now).consumedNonces.keys,
      ∃ t ∈ presentedTokens calls, nonceKey t = key := by
  intro key hkey
  obtain ⟨e, he⟩ := Option.isSome_iff_exists.mp (JsMap.has_iff.mpr hkey)
  have hget := (DirectInputHandshake.of_get?_pruneConsumedNonces he).1
  exact h.keys key (JsMap.has_iff.mp (by rw [JsMap.has, hget]; rfl))

theorem kept_prune (h : Remembered localPodId cap calls s)
    (hcap : (presentedTokens calls).dedup.length ≤ cap) (now : JsNumber) {t : TokenId}
    (ht : t ∈ s.accepted) :
    (s.handshake.pruneConsumedNonces now).consumedNonces.get? (nonceKey t) = some t.expiresAt ∨
      t.expiresAt.le now = true ∨ ∃ c ∈ calls, t.expiresAt.le c.2 = true := by
  rcases h.kept t ht with hget | hover
  · cases hle : t.expiresAt.le now with
    | true => exact Or.inr (Or.inl rfl)
    | false =>
        refine Or.inl (DirectInputHandshake.get?_pruneConsumedNonces ?_ hget hle)
        rw [h.limit]
        exact h.size_le.trans hcap
  · exact Or.inr (Or.inr hover)

theorem step (h : Remembered localPodId cap calls s) (c : Presentation)
    (hcap : (presentedTokens calls).dedup.length ≤ cap) :
    Remembered localPodId cap (calls ++ [c]) (present s c) := by
  have hpres : ∀ t ∈ presentedTokens calls, t ∈ presentedTokens (calls ++ [c]) := by
    intro t ht
    rw [presentedTokens_append_singleton]
    exact List.mem_append_left _ ht
  have hover : ∀ {t : TokenId}, (t.expiresAt.le c.2 = true ∨ ∃ c ∈ calls, t.expiresAt.le c.2 = true) →
      ∃ c' ∈ calls ++ [c], t.expiresAt.le c'.2 = true := by
    rintro t (hle | ⟨c', hc', hle⟩)
    · exact ⟨c, by simp, hle⟩
    · exact ⟨c', List.mem_append_left _ hc', hle⟩
  rcases present_cases s c with heq | heq | ⟨t, hcheck, hget⟩
  · rw [heq]
    refine ⟨h.pod, h.limit, fun key hkey => ?_, fun t ht => ?_, h.accepted⟩
    · obtain ⟨t, ht, hkey⟩ := h.keys key hkey
      exact ⟨t, hpres t ht, hkey⟩
    · exact (h.kept t ht).imp id fun hc => hover (Or.inr hc)
  · rw [heq]
    refine ⟨h.pod, h.limit, fun key hkey => ?_, fun t ht => ?_, h.accepted⟩
    · obtain ⟨t, ht, hkey⟩ := h.keys_prune c.2 key hkey
      exact ⟨t, hpres t ht, hkey⟩
    · exact (h.kept_prune hcap c.2 ht).imp id hover
  · obtain ⟨token, htoken, hw, -⟩ := DirectInputHandshake.checkToken_eq_ok.mp hcheck
    have hmem : t ∈ presentedTokens (calls ++ [c]) := by
      rw [presentedTokens_append_singleton, htoken, Option.bind_some, hw.id]
      exact List.mem_append_right _ List.mem_cons_self
    rw [present_of_unused hcheck hget]
    refine ⟨h.pod, h.limit, fun key hkey => ?_, fun t' ht' => ?_, fun t' ht' => ?_⟩
    · simp only [JsMap.keys_set] at hkey
      split_ifs at hkey with hold
      · obtain ⟨t', ht', hkey⟩ := h.keys_prune c.2 key hkey
        exact ⟨t', hpres t' ht', hkey⟩
      · rcases List.mem_append.mp hkey with hkey | hkey
        · obtain ⟨t', ht', hkey⟩ := h.keys_prune c.2 key hkey
          exact ⟨t', hpres t' ht', hkey⟩
        · exact ⟨t, hmem, (List.mem_singleton.mp hkey).symm⟩
    · rcases List.mem_append.mp ht' with ht' | ht'
      · rw [JsMap.get?_set]
        rcases h.kept_prune hcap c.2 ht' with hkept | hgone
        · -- the new token's nonce is not remembered, so it is another one
          have hne : nonceKey t' ≠ nonceKey t := by
            intro hkey
            rw [hkey, hget] at hkept
            cases hkept
          rw [if_neg hne]
          exact Or.inl hkept
        · exact Or.inr (hover hgone)
      · obtain rfl := List.mem_singleton.mp ht'
        left
        rw [JsMap.get?_set, if_pos rfl]
    · rcases List.mem_append.mp ht' with ht' | ht'
      · exact h.accepted t' ht'
      · obtain rfl := List.mem_singleton.mp ht'
        exact ⟨hw.podId, hw.nonce, by rw [← h.pod]; exact hw.other⟩

end Remembered

theorem dedup_length_le {before calls : List Presentation} (h : before <+: calls) :
    (presentedTokens before).dedup.length ≤ (presentedTokens calls).dedup.length := by
  have hsub : presentedTokens before ⊆ presentedTokens calls := (h.sublist.filterMap _).subset
  refine ((List.nodup_dedup _).subperm ?_).length_le
  intro t ht
  exact List.mem_dedup.mpr (hsub (List.mem_dedup.mp ht))

theorem remembered_session (localPodId : NonEmptyString) (max : Option ℕ+) (calls : List Presentation)
    (hcap : (presentedTokens calls).dedup.length ≤ max.getD DEFAULT_MAX_CONSUMED_NONCES) :
    Remembered localPodId (max.getD DEFAULT_MAX_CONSUMED_NONCES) calls
      (session (.create localPodId max) calls) := by
  induction calls using List.reverseRecOn with
  | nil => exact ⟨rfl, rfl, by simp [session, DirectInputHandshake.create, JsMap.empty, JsMap.keys],
      by simp [session], by simp [session]⟩
  | append_singleton calls c ih =>
      have hle := (dedup_length_le (List.prefix_append calls [c])).trans hcap
      rw [session_append_singleton]
      exact (ih hle).step c hle

/-! ### Single use -/

/-- The token was accepted before, both time checks still let it through, its lifetime is over all the
same, and its nonce is not remembered for another token. -/
def Reopens (s : Session) (c : Presentation) : Prop :=
  ∃ token t, c.1 = some token ∧ token.id? = some t ∧ ConnectionToken.text token.publicKey ≠ none ∧
    t ∈ s.accepted ∧ InWindow t c.2 ∧ t.expiresAt.le c.2 = true ∧
    ∀ e, s.handshake.consumedNonces.get? (nonceKey t) = some e → e.le c.2 = true

theorem not_nodup_of_reopens {localPodId : NonEmptyString} {cap : ℕ+} {calls : List Presentation}
    {s : Session} (h : Remembered localPodId cap calls s) {c : Presentation} (hc : Reopens s c) :
    ¬ (present s c).accepted.Nodup := by
  obtain ⟨token, t, htoken, hid, hkey, ht, hin, -, hfree⟩ := hc
  obtain ⟨hpod, hnonce, hother⟩ := h.accepted t ht
  have hcheck : s.handshake.checkToken c.1 c.2 = .ok t :=
    DirectInputHandshake.checkToken_eq_ok.mpr ⟨token, htoken,
      ⟨hid, Option.ne_none_iff_exists'.mp hkey, hpod, hnonce, by rw [h.pod]; exact hother⟩, hin⟩
  have hget : (s.handshake.pruneConsumedNonces c.2).consumedNonces.get? (nonceKey t) = none := by
    by_contra hne
    obtain ⟨e, he⟩ := Option.ne_none_iff_exists'.mp hne
    obtain ⟨hold, hlive⟩ := DirectInputHandshake.of_get?_pruneConsumedNonces he
    rw [hfree e hold] at hlive
    cases hlive
  rw [present_of_unused hcheck hget]
  exact fun hnodup => (List.nodup_append.mp hnodup).2.2 t ht t List.mem_cons_self rfl

/-- Under a clock that does not go back and below the cap, no token is accepted twice if and only if no
accepted token is presented at an instant at which its lifetime is over and its age not yet too large. -/
theorem accepted_once_iff (localPodId : NonEmptyString) (max : Option ℕ+) (calls : List Presentation)
    (hclock : calls.Pairwise fun c c' => c.2.le c'.2 = true)
    (hcap : (presentedTokens calls).dedup.length <
      (DirectInputHandshake.create localPodId max).maxConsumedNonces) :
    (session (.create localPodId max) calls).accepted.Nodup ↔
      ∀ before c after, calls = before ++ c :: after →
        ¬ Reopens (session (.create localPodId max) before) c := by
  constructor
  · rintro hnodup before c after rfl hc
    have hle := (dedup_length_le (List.prefix_append before (c :: after))).trans hcap.le
    refine not_nodup_of_reopens (remembered_session localPodId max before hle) hc ?_
    refine hnodup.sublist (List.IsPrefix.sublist ?_)
    simp only [session, List.foldl_append, List.foldl_cons]
    exact accepted_prefix_foldl _ after
  · intro hnone
    induction calls using List.reverseRecOn with
    | nil => exact List.nodup_nil
    | append_singleton calls c ih =>
        have hle := (dedup_length_le (List.prefix_append calls [c])).trans_lt hcap
        obtain ⟨hbefore, -, hlast⟩ := List.pairwise_append.mp hclock
        have hnodup := ih hbefore hle fun before c' after heq =>
          hnone before c' (after ++ [c]) (by rw [heq]; simp)
        have hrem := remembered_session localPodId max calls hle.le
        rw [session_append_singleton]
        rcases present_cases (session (.create localPodId max) calls) c with
          heq | heq | ⟨t, hcheck, hget⟩
        · rw [heq]
          exact hnodup
        · rw [heq]
          exact hnodup
        · rw [present_of_unused hcheck hget]
          refine List.nodup_append.mpr ⟨hnodup, List.nodup_singleton t, ?_⟩
          rintro t' ht' _ hmem rfl
          obtain rfl := List.mem_singleton.mp hmem
          obtain ⟨token, htoken, hw, hin⟩ := DirectInputHandshake.checkToken_eq_ok.mp hcheck
          obtain ⟨key, hkey⟩ := hw.publicKey
          have hover : t'.expiresAt.le c.2 = true := by
            rcases hrem.kept_prune hle.le c.2 ht' with hkept | hnow | ⟨c', hc', hpast⟩
            · rw [hget] at hkept
              cases hkept
            · exact hnow
            · exact JsNumber.le_of_le_of_le hpast (hlast c' hc' c List.mem_cons_self)
          refine hnone calls c [] rfl ⟨token, t', htoken, hw.id, by simp [hkey], ht', hin, hover, ?_⟩
          intro e he
          by_contra hlive
          have hkept := DirectInputHandshake.get?_pruneConsumedNonces
            (by rw [hrem.limit]; exact hrem.size_le.trans hle.le) he (Bool.eq_false_iff.mpr hlive)
          rw [hget] at hkept
          cases hkept

def sampleToken : ConnectionToken :=
  ⟨some (js "pod-b"), some (js "key"), some (js "nonce"), some 0⟩

def presentedAt (first second : ℕ) : List Presentation :=
  [(some sampleToken, .ofNat first), (some sampleToken, .ofNat second)]

theorem accepted_once_before_end :
    ((presentedAt 1 299999).Pairwise (fun c c' => c.2.le c'.2 = true) ∧
      (presentedTokens (presentedAt 1 299999)).dedup.length <
        (DirectInputHandshake.create ⟨js "pod-a", by decide⟩ none).maxConsumedNonces) ∧
    ((session (.create ⟨js "pod-a", by decide⟩ none) (presentedAt 1 299999)).accepted.Nodup ↔
      ∀ before c after, presentedAt 1 299999 = before ++ c :: after →
        ¬ Reopens (session (.create ⟨js "pod-a", by decide⟩ none) before) c) :=
  ⟨⟨by decide +kernel, by decide +kernel⟩,
    accepted_once_iff _ none (presentedAt 1 299999) (by decide +kernel) (by decide +kernel)⟩

theorem token_accepted_twice :
    ¬ ∀ (localPodId : NonEmptyString) (max : Option ℕ+) (calls : List Presentation),
      calls.Pairwise (fun c c' => c.2.le c'.2 = true) →
      (presentedTokens calls).dedup.length <
        (DirectInputHandshake.create localPodId max).maxConsumedNonces →
      (session (.create localPodId max) calls).accepted.Nodup := by
  intro h
  have hnodup := h ⟨js "pod-a", by decide⟩ none (presentedAt 0 300000) (by decide +kernel)
    (by decide +kernel)
  exact absurd hnodup (by decide +kernel)

end BrowserMesh.ConnectionTokens
