import BrowserMesh.Core.MeshAcl
import BrowserMesh.Js.Stringify
import BrowserMesh.Library.Transition

/-! # Invitations

* **Tokens** are objects: `markUsed` changes the object that is handed in.  Copies that are read back from their
  serialised form are objects of their own.
* **The list** keeps the tokens it made under their nonces, but `redeemInvitation` does not look there.  It looks at the
  token only, and marks it before `addEntry` looks for the template.

So an invitation is good for one redemption if only the kept objects are redeemed while their templates are there
(`redemptions_respected`). -/

namespace BrowserMesh.Core
open Js Primitives Transition

/-! ### Tokens -/

structure InvitationToken where
  owner : JsString
  templateName : JsString
  expires : JsNumber
  nonce : JsString
  used : Bool
  deriving DecidableEq

/-- The options of the constructor. -/
structure InvitationOptions where
  owner : JsString
  templateName : JsString
  expires : Option JsNumber := none
  nonce : Option JsString := none

/-- The serialised form. -/
structure InvitationJSON extends InvitationOptions where
  used : Option Bool

/-- `n.toString(36)`. -/
def base36 (n : ℕ) : JsString :=
  if n = 0 then [hexUnit 0] else ((Nat.digits 36 n).map hexUnit).reverse

def nonceText (now seq : ℕ) : JsString := js "inv_" ++ base36 now ++ js "_" ++ base36 seq

theorem hexValue_hexUnit_of_lt {d : ℕ} (h : d < 36) : hexValue (hexUnit d) = d := by
  interval_cases d <;> rfl

theorem base36_eq (n : ℕ) :
    ∃ ds : List ℕ, base36 n = (ds.map hexUnit).reverse ∧ (∀ d ∈ ds, d < 36) ∧ Nat.ofDigits 36 ds = n := by
  unfold base36
  split_ifs with hn
  · subst hn
    exact ⟨[0], rfl, by simp, rfl⟩
  · exact ⟨Nat.digits 36 n, rfl, fun d hd => Nat.digits_lt_base (by norm_num) hd, Nat.ofDigits_digits 36 n⟩

theorem base36_injective : Function.Injective base36 := by
  have hvalues : ∀ ds : List ℕ, (∀ d ∈ ds, d < 36) → (ds.map hexUnit).map hexValue = ds := by
    intro ds hds
    rw [List.map_map]
    exact (List.map_congr_left fun d hd => hexValue_hexUnit_of_lt (hds d hd)).trans (List.map_id ds)
  intro m n h
  obtain ⟨ds, hm, hds, rfl⟩ := base36_eq m
  obtain ⟨es, hn, hes, rfl⟩ := base36_eq n
  rw [hm, hn, List.reverse_inj] at h
  rw [← hvalues ds hds, ← hvalues es hes, h]

theorem underscore_not_mem_base36 (n : ℕ) : (95 : CodeUnit) ∉ base36 n := by
  obtain ⟨ds, hn, hds, -⟩ := base36_eq n
  rw [hn, List.mem_reverse]
  intro h
  obtain ⟨d, hd, heq⟩ := List.mem_map.mp h
  have hvalue := congrArg hexValue heq
  rw [hexValue_hexUnit_of_lt (hds d hd)] at hvalue
  have hd8 : d = 8 := hvalue
  rw [hd8] at heq
  exact absurd heq (by decide)

theorem nonceText_counter {now now' seq seq' : ℕ} (h : nonceText now seq = nonceText now' seq') : seq = seq' := by
  have hlast : ∀ now seq, lastPart 95 (nonceText now seq) = base36 seq := by
    intro now seq
    rw [nonceText, List.append_assoc]
    exact lastPart_append (js "inv_" ++ base36 now) (base36 seq) (underscore_not_mem_base36 seq)
  have heq := congrArg (lastPart 95) h
  rw [hlast, hlast] at heq
  exact base36_injective heq

namespace InvitationToken

/-- The constructor, with the counter of the generated nonces. -/
def construct (opts : InvitationOptions) (now seq : ℕ) : InvitationToken × ℕ :=
  let expires := opts.expires.getD (.ofNat (now + 15 * 60 * 1000))
  match opts.nonce with
  | some nonce => (⟨opts.owner, opts.templateName, expires, nonce, false⟩, seq)
  | none => (⟨opts.owner, opts.templateName, expires, nonceText now (seq + 1), false⟩, seq + 1)

def isExpired (tok : InvitationToken) (now : ℕ) : Bool := tok.expires.le (.ofNat now)

def isUsed (tok : InvitationToken) : Bool := tok.used

def markUsed (tok : InvitationToken) : InvitationToken := { tok with used := true }

def toJSON (tok : InvitationToken) : InvitationJSON :=
  ⟨⟨tok.owner, tok.templateName, some tok.expires, some tok.nonce⟩, some tok.used⟩

def fromJSON (data : InvitationJSON) (now seq : ℕ) : InvitationToken × ℕ :=
  let made := construct data.toInvitationOptions now seq
  ({ made.1 with used := data.used.getD false }, made.2)

theorem fromJSON_toJSON (tok : InvitationToken) (now seq : ℕ) : fromJSON tok.toJSON now seq = (tok, seq) := rfl

theorem construct_counter_le (opts : InvitationOptions) (now seq : ℕ) : seq ≤ (construct opts now seq).2 := by
  unfold construct
  cases opts.nonce with
  | none => exact Nat.le_succ seq
  | some nonce => exact le_rfl

end InvitationToken

/-! ### The list -/

/-- A list with the tokens there are; a reference is a place among them. -/
structure InvitationACL where
  acl : MeshACL
  /-- `_invitations`: the tokens by their nonces. -/
  invitations : JsMap JsString ℕ
  tokens : List InvitationToken
  nonceSeq : ℕ
  deriving DecidableEq

inductive RedemptionError where
  | expired
  | used
  | template (e : UnknownTemplate)
  deriving DecidableEq

def RedemptionError.message : RedemptionError → JsString
  | .expired => js "Invitation expired"
  | .used => js "Invitation already used"
  | .template e => js "Unknown template: " ++ e.templateName

namespace InvitationACL

/-- `new MeshACL({ owner })`. -/
def new (owner : JsString) : InvitationACL := ⟨MeshACL.new owner, JsMap.empty, [], 0⟩

def addToken (w : InvitationACL) (made : InvitationToken × ℕ) : InvitationACL :=
  { w with tokens := w.tokens ++ [made.1], nonceSeq := made.2 }

/-- `createInvitation`, with the new token. -/
def createInvitation (w : InvitationACL) (templateName : JsString) (expires : Option JsNumber) (now : ℕ) :
    InvitationACL × Except UnknownTemplate InvitationToken :=
  if !w.acl.templates.has templateName then (w, .error ⟨templateName⟩)
  else
    let made := InvitationToken.construct ⟨w.acl.owner, templateName, expires, none⟩ now w.nonceSeq
    ({ w.addToken made with invitations := w.invitations.set made.1.nonce w.tokens.length }, .ok made.1)

/-- `redeemInvitation(token, identity)`; `tok` is the object at `ref`. -/
def redeemInvitation (w : InvitationACL) (ref : ℕ) (tok : InvitationToken) (identity : JsString) (now : ℕ) :
    InvitationACL × Except RedemptionError Unit :=
  if tok.isExpired now then (w, .error .expired)
  else if tok.isUsed then (w, .error .used)
  else
    let added := w.acl.addEntry identity tok.templateName none
    ({ w with acl := added.1, tokens := w.tokens.set ref tok.markUsed }, added.2.mapError .template)

/-- `updateEntry`; `none` is `null`. -/
def updateEntry (acl : MeshACL) (identity templateName : JsString) : MeshACL × Except UnknownTemplate (Option Unit) :=
  if !acl.roster.has identity then (acl, .ok none)
  else
    let added := (acl.removeEntry identity).addEntry identity templateName none
    (added.1, added.2.map some)

/-- `pruneExpired`, without the number. -/
def pruneExpired (acl : MeshACL) (now : JsNumber) : MeshACL :=
  acl.roster.entries.foldl (fun acl e => if e.2.isExpired now then acl.removeEntry e.1 else acl) acl

/-- The templates that are restored: the default ones, and the others that were there. -/
def restoredTemplates (templates : JsMap JsString (List JsString)) : JsMap JsString (List JsString) :=
  let custom := templates.entries.filter fun e => !(DEFAULT_TEMPLATES.has e.1 || decide (e.1 ∈ inheritedNames))
  custom.foldl (fun acc e => acc.set e.1 e.2) DEFAULT_TEMPLATES

def restoreInvitation (now : ℕ) (w : InvitationACL) (data : InvitationJSON) : InvitationACL :=
  let made := InvitationToken.fromJSON data now w.nonceSeq
  { w.addToken made with invitations := w.invitations.set made.1.nonce w.tokens.length }

def keptTokens (w : InvitationACL) : List InvitationToken := w.invitations.values.filterMap fun ref => w.tokens[ref]?

/-- `MeshACL.fromJSON(acl.toJSON())`. -/
def reload (w : InvitationACL) (now : ℕ) : InvitationACL :=
  let acl : MeshACL := { w.acl with templates := restoredTemplates w.acl.templates }
  (w.keptTokens.map InvitationToken.toJSON).foldl (restoreInvitation now) { w with acl, invitations := JsMap.empty }

end InvitationACL

/-! ### Runs -/

/-- What users do. -/
inductive AclOp where
  | createInvitation (templateName : JsString) (expires : Option JsNumber) (now : ℕ)
  | redeemInvitation (ref : ℕ) (identity : JsString) (now : ℕ)
  /-- Somebody makes a token. -/
  | construct (opts : InvitationOptions) (now : ℕ)
  /-- Somebody reads a token from data. -/
  | fromJSON (data : InvitationJSON) (now : ℕ)
  | reload (now : ℕ)
  | addTemplate (name : JsString) (scopes : List JsString)
  | removeTemplate (name : JsString)
  /-- `addEntry`, `grant`. -/
  | addEntry (identity templateName : JsString) (expires : Option JsNumber)
  /-- `removeEntry`, `revokeAll`, `revoke`. -/
  | removeEntry (identity : JsString)
  | updateEntry (identity templateName : JsString)
  | pruneExpired (now : JsNumber)

/-- The list, with the nonces of the invitations it made and of those that were redeemed. -/
structure AclRun where
  world : InvitationACL
  created : List JsString
  redeemed : List JsString
  deriving DecidableEq

namespace AclRun

def withAcl (r : AclRun) (acl : MeshACL) : AclRun := { r with world := { r.world with acl } }

def step (r : AclRun) : AclOp → Option AclRun
  | .createInvitation templateName expires now =>
      let (world, result) := r.world.createInvitation templateName expires now
      match result with
      | .ok tok => some { r with world, created := r.created ++ [tok.nonce] }
      | .error _ => some { r with world }
  | .redeemInvitation ref identity now =>
      match r.world.tokens[ref]? with
      | none => none
      | some tok =>
          let (world, result) := r.world.redeemInvitation ref tok identity now
          match result with
          | .ok _ => some { r with world, redeemed := r.redeemed ++ [tok.nonce] }
          | .error _ => some { r with world }
  | .construct opts now =>
      some { r with world := r.world.addToken (InvitationToken.construct opts now r.world.nonceSeq) }
  | .fromJSON data now =>
      some { r with world := r.world.addToken (InvitationToken.fromJSON data now r.world.nonceSeq) }
  | .reload now => some { r with world := r.world.reload now }
  | .addTemplate name scopes => some (r.withAcl (r.world.acl.addTemplate name scopes))
  | .removeTemplate name => some (r.withAcl (r.world.acl.removeTemplate name))
  | .addEntry identity templateName expires =>
      some (r.withAcl (r.world.acl.addEntry identity templateName expires).1)
  | .removeEntry identity => some (r.withAcl (r.world.acl.removeEntry identity))
  | .updateEntry identity templateName =>
      some (r.withAcl (InvitationACL.updateEntry r.world.acl identity templateName).1)
  | .pruneExpired now => some (r.withAcl (InvitationACL.pruneExpired r.world.acl now))

def machine (owner : JsString) : Machine AclRun AclOp := ⟨⟨InvitationACL.new owner, [], []⟩, step⟩

/-- Who is redeemed was made by the list and not redeemed before; a refusal leaves the roster and the tokens alone. -/
def Respected (r : AclRun) : AclOp → Prop
  | .redeemInvitation ref identity now => ∀ tok, r.world.tokens[ref]? = some tok →
      ((r.world.redeemInvitation ref tok identity now).2 = .ok () → tok.nonce ∈ r.created ∧ tok.nonce ∉ r.redeemed) ∧
      ∀ e, (r.world.redeemInvitation ref tok identity now).2 = .error e →
        (r.world.redeemInvitation ref tok identity now).1.acl.roster = r.world.acl.roster ∧
          (r.world.redeemInvitation ref tok identity now).1.tokens = r.world.tokens
  | _ => True

/-- A token that is neither expired nor used is the object the list keeps under the nonce, and its template is there. -/
def Vetted (r : AclRun) : AclOp → Prop
  | .redeemInvitation ref _ now => ∀ tok, r.world.tokens[ref]? = some tok → tok.isExpired now = false →
      tok.isUsed = false →
      r.world.invitations.get? tok.nonce = some ref ∧ r.world.acl.templates.has tok.templateName = true
  | _ => True

/-! ### The invariant -/

/-- The list keeps every invitation it made under its nonce, and a used token for what was redeemed. -/
structure Kept (r : AclRun) : Prop where
  stored : ∀ nonce ref, r.world.invitations.get? nonce = some ref →
    nonce ∈ r.created ∧ ∃ tok, r.world.tokens[ref]? = some tok ∧ tok.nonce = nonce
  spent : ∀ nonce ∈ r.redeemed, ∃ ref tok, r.world.invitations.get? nonce = some ref ∧
    r.world.tokens[ref]? = some tok ∧ tok.used = true
  counted : ∀ nonce ∈ r.created, ∃ now seq, seq ≤ r.world.nonceSeq ∧ nonce = nonceText now seq

theorem Kept.init (owner : JsString) : Kept (machine owner).init where
  stored nonce ref h := by cases h
  spent nonce h := absurd h List.not_mem_nil
  counted nonce h := absurd h List.not_mem_nil

variable {r : AclRun}

theorem Kept.withAcl (h : Kept r) (acl : MeshACL) : Kept (r.withAcl acl) := ⟨h.stored, h.spent, h.counted⟩

variable {ref : ℕ} {tok : InvitationToken}

theorem getElem?_concat {tokens : List InvitationToken} {tok' : InvitationToken}
    (h : tokens[ref]? = some tok) : (tokens ++ [tok'])[ref]? = some tok := by
  obtain ⟨hlt, -⟩ := List.getElem?_eq_some_iff.mp h
  exact (List.getElem?_append_left hlt).trans h

theorem Kept.addToken (h : Kept r) {made : InvitationToken × ℕ} (hle : r.world.nonceSeq ≤ made.2) :
    Kept { r with world := r.world.addToken made } where
  stored nonce ref hget := by
    obtain ⟨hmem, tok, htok, hnonce⟩ := h.stored nonce ref hget
    exact ⟨hmem, tok, getElem?_concat htok, hnonce⟩
  spent nonce hmem := by
    obtain ⟨ref, tok, hget, htok, hused⟩ := h.spent nonce hmem
    exact ⟨ref, tok, hget, getElem?_concat htok, hused⟩
  counted nonce hmem := by
    obtain ⟨now, seq, hseq, hnonce⟩ := h.counted nonce hmem
    exact ⟨now, seq, hseq.trans hle, hnonce⟩

variable {now : ℕ}

theorem Kept.createInvitation (h : Kept r) {templateName : JsString} {expires : Option JsNumber}
    {world : InvitationACL} (heq : r.world.createInvitation templateName expires now = (world, .ok tok)) :
    Kept { r with world, created := r.created ++ [tok.nonce] } := by
  unfold InvitationACL.createInvitation at heq
  split_ifs at heq with htemplate
  · cases (Prod.mk.inj heq).2
  obtain ⟨rfl, hok⟩ := Prod.mk.inj heq
  obtain rfl := Except.ok.inj hok
  have hfresh : ∀ nonce ∈ r.created, nonce ≠ nonceText now (r.world.nonceSeq + 1) := by
    rintro nonce hmem rfl
    obtain ⟨now', seq, hseq, hnonce⟩ := h.counted _ hmem
    have hcounter := nonceText_counter hnonce
    omega
  refine ⟨fun nonce ref hget => ?_, fun nonce hmem => ?_, fun nonce hmem => ?_⟩
  · have hget : (r.world.invitations.set (nonceText now (r.world.nonceSeq + 1)) r.world.tokens.length).get? nonce =
        some ref := hget
    rw [JsMap.get?_set] at hget
    split_ifs at hget with hnew
    · obtain rfl := Option.some.inj hget
      subst hnew
      exact ⟨List.mem_append_right _ (List.mem_singleton_self _), _, List.getElem?_concat_length, rfl⟩
    · obtain ⟨hmem, tok, htok, hnonce⟩ := h.stored nonce ref hget
      exact ⟨List.mem_append_left _ hmem, tok, getElem?_concat htok, hnonce⟩
  · obtain ⟨ref, tok, hget, htok, hused⟩ := h.spent nonce hmem
    refine ⟨ref, tok, ?_, getElem?_concat htok, hused⟩
    show (r.world.invitations.set (nonceText now (r.world.nonceSeq + 1)) r.world.tokens.length).get? nonce = some ref
    rw [JsMap.get?_set, if_neg (hfresh nonce (h.stored nonce ref hget).1)]
    exact hget
  · rcases List.mem_append.mp hmem with hold | hnew
    · obtain ⟨now', seq, hseq, hnonce⟩ := h.counted nonce hold
      exact ⟨now', seq, Nat.le_succ_of_le hseq, hnonce⟩
    · exact ⟨now, r.world.nonceSeq + 1, le_rfl, List.mem_singleton.mp hnew⟩

theorem getElem?_markUsed {tokens : List InvitationToken}
    (htok : tokens[ref]? = some tok) {ref' : ℕ} {tok' : InvitationToken} (htok' : tokens[ref']? = some tok') :
    ∃ tok'', (tokens.set ref tok.markUsed)[ref']? = some tok'' ∧ tok''.nonce = tok'.nonce ∧
      (tok'.used = true ∨ ref' = ref → tok''.used = true) := by
  by_cases href : ref' = ref
  · subst href
    obtain ⟨hlt, -⟩ := List.getElem?_eq_some_iff.mp htok
    obtain rfl := Option.some.inj (htok.symm.trans htok')
    exact ⟨tok.markUsed, List.getElem?_set_self hlt, rfl, fun _ => rfl⟩
  · rw [List.getElem?_set_ne (Ne.symm href)]
    exact ⟨tok', htok', rfl, fun h => h.resolve_right href⟩

/-- What `redeemInvitation` does with a token that is accepted. -/
theorem redeemInvitation_cases (w : InvitationACL) (ref : ℕ) (tok : InvitationToken) (identity : JsString) (now : ℕ) :
    ((∃ e, w.redeemInvitation ref tok identity now = (w, .error e)) ∧ (tok.isExpired now = true ∨ tok.isUsed = true)) ∨
      tok.isExpired now = false ∧ tok.isUsed = false ∧
        w.redeemInvitation ref tok identity now =
          ({ w with
              acl := (w.acl.addEntry identity tok.templateName none).1
              tokens := w.tokens.set ref tok.markUsed },
            (w.acl.addEntry identity tok.templateName none).2.mapError .template) := by
  unfold InvitationACL.redeemInvitation
  cases hexpired : tok.isExpired now with
  | true => exact Or.inl ⟨⟨_, if_pos rfl⟩, Or.inl rfl⟩
  | false =>
      cases hused : tok.isUsed with
      | true => exact Or.inl ⟨⟨_, rfl⟩, Or.inr rfl⟩
      | false => exact Or.inr ⟨rfl, rfl, rfl⟩

theorem Kept.redeem (h : Kept r) (htok : r.world.tokens[ref]? = some tok)
    (hkept : r.world.invitations.get? tok.nonce = some ref) (acl : MeshACL) :
    Kept
      { r with
        world := { r.world with acl, tokens := r.world.tokens.set ref tok.markUsed }
        redeemed := r.redeemed ++ [tok.nonce] } where
  stored nonce ref' hget := by
    obtain ⟨hmem, tok', htok', hnonce⟩ := h.stored nonce ref' hget
    obtain ⟨tok'', htok'', hsame, -⟩ := getElem?_markUsed htok htok'
    exact ⟨hmem, tok'', htok'', hsame.trans hnonce⟩
  spent nonce hmem := by
    rcases List.mem_append.mp hmem with hold | hnew
    · obtain ⟨ref', tok', hget, htok', hused⟩ := h.spent nonce hold
      obtain ⟨tok'', htok'', -, hused'⟩ := getElem?_markUsed htok htok'
      exact ⟨ref', tok'', hget, htok'', hused' (Or.inl hused)⟩
    · obtain ⟨tok'', htok'', -, hused'⟩ := getElem?_markUsed htok htok
      rw [List.mem_singleton.mp hnew]
      exact ⟨ref, tok'', hkept, htok'', hused' (Or.inr rfl)⟩
  counted := h.counted

/-- **Restored invitations** are the tokens that were written, each under its nonce. -/
theorem restoreInvitations_spec (now : ℕ) (toks : List InvitationToken) (w : InvitationACL) {w' : InvitationACL}
    (hw : (toks.map InvitationToken.toJSON).foldl (InvitationACL.restoreInvitation now) w = w') :
    w'.nonceSeq = w.nonceSeq ∧ w'.tokens = w.tokens ++ toks ∧
      (∀ nonce ref, w'.invitations.get? nonce = some ref → w.invitations.get? nonce = some ref ∨
        ∃ tok ∈ toks, w'.tokens[ref]? = some tok ∧ tok.nonce = nonce) ∧
      ∀ tok ∈ toks, ∃ ref, ∃ tok' ∈ toks, w'.invitations.get? tok.nonce = some ref ∧
        w'.tokens[ref]? = some tok' ∧ tok'.nonce = tok.nonce := by
  induction toks using List.reverseRecOn generalizing w' with
  | nil =>
      subst hw
      exact ⟨rfl, (List.append_nil _).symm, fun _ _ h => Or.inl h, fun _ h => absurd h List.not_mem_nil⟩
  | append_singleton toks tok ih =>
      rw [List.map_append, List.foldl_append] at hw
      obtain ⟨hseq, htokens, hstored, hfound⟩ := ih rfl
      generalize (toks.map InvitationToken.toJSON).foldl (InvitationACL.restoreInvitation now) w = v at *
      have hw' :
          { v.addToken (tok, v.nonceSeq) with invitations := v.invitations.set tok.nonce v.tokens.length } = w' := hw
      subst hw'
      have hlast : (v.tokens ++ [tok])[v.tokens.length]? = some tok := List.getElem?_concat_length
      refine ⟨hseq, ?_, fun nonce ref hget => ?_, fun tok' htok' => ?_⟩
      · rw [← List.append_assoc, ← htokens]
        rfl
      · have hget : (v.invitations.set tok.nonce v.tokens.length).get? nonce = some ref := hget
        rw [JsMap.get?_set] at hget
        split_ifs at hget with hnew
        · obtain rfl := Option.some.inj hget
          exact Or.inr ⟨tok, List.mem_append_right _ (List.mem_singleton_self _), hlast, hnew.symm⟩
        · refine (hstored nonce ref hget).imp_right ?_
          rintro ⟨tok', hmem, htok', hnonce⟩
          exact ⟨tok', List.mem_append_left _ hmem, getElem?_concat htok', hnonce⟩
      · show ∃ ref, ∃ tok'' ∈ toks ++ [tok], (v.invitations.set tok.nonce v.tokens.length).get? tok'.nonce = some ref ∧
          (v.tokens ++ [tok])[ref]? = some tok'' ∧ tok''.nonce = tok'.nonce
        rw [JsMap.get?_set]
        by_cases hnew : tok'.nonce = tok.nonce
        · rw [if_pos hnew]
          exact ⟨_, tok, List.mem_append_right _ (List.mem_singleton_self _), rfl, hlast, hnew.symm⟩
        · rw [if_neg hnew]
          have hmem : tok' ∈ toks := by
            refine (List.mem_append.mp htok').resolve_right fun h => hnew ?_
            rw [List.mem_singleton.mp h]
          obtain ⟨ref, tok'', hmem'', hget, htok'', hnonce⟩ := hfound tok' hmem
          exact ⟨ref, tok'', List.mem_append_left _ hmem'', hget, getElem?_concat htok'', hnonce⟩

theorem mem_keptTokens {w : InvitationACL} :
    tok ∈ w.keptTokens ↔ ∃ nonce ref, w.invitations.get? nonce = some ref ∧ w.tokens[ref]? = some tok := by
  unfold InvitationACL.keptTokens
  rw [List.mem_filterMap]
  constructor
  · rintro ⟨ref, href, htok⟩
    obtain ⟨e, he, rfl⟩ := List.mem_map.mp href
    exact ⟨e.1, e.2, JsMap.mem_entries_iff.mp he, htok⟩
  · rintro ⟨nonce, ref, hget, htok⟩
    exact ⟨ref, List.mem_map.mpr ⟨(nonce, ref), JsMap.mem_entries_iff.mpr hget, rfl⟩, htok⟩

theorem Kept.reload (h : Kept r) (now : ℕ) : Kept { r with world := r.world.reload now } := by
  obtain ⟨hseq, -, hstored, hfound⟩ := restoreInvitations_spec now r.world.keptTokens
    { r.world with
      acl := { r.world.acl with templates := InvitationACL.restoredTemplates r.world.acl.templates }
      invitations := JsMap.empty } rfl
  refine ⟨fun nonce ref hget => ?_, fun nonce hmem => ?_, fun nonce hmem => ?_⟩
  · obtain hnone | ⟨tok, hkept, htok, rfl⟩ := hstored nonce ref hget
    · cases hnone
    · obtain ⟨nonce, ref', hget', hplace⟩ := mem_keptTokens.mp hkept
      obtain ⟨hmem, tok', htok', rfl⟩ := h.stored nonce ref' hget'
      obtain rfl := Option.some.inj (hplace.symm.trans htok')
      exact ⟨hmem, tok, htok, rfl⟩
  · obtain ⟨ref, tok, hget, htok, hused⟩ := h.spent nonce hmem
    obtain ⟨-, tok₁, htok₁, rfl⟩ := h.stored nonce ref hget
    obtain rfl := Option.some.inj (htok.symm.trans htok₁)
    obtain ⟨ref', tok', hkept, hget', htok', hnonce⟩ := hfound tok (mem_keptTokens.mpr ⟨_, _, hget, htok⟩)
    -- no other kept token has this nonce
    obtain ⟨nonce, ref₂, hget₂, hplace⟩ := mem_keptTokens.mp hkept
    obtain ⟨-, tok₂, htok₂, rfl⟩ := h.stored nonce ref₂ hget₂
    obtain rfl := Option.some.inj (hplace.symm.trans htok₂)
    rw [hnonce, hget] at hget₂
    obtain rfl := Option.some.inj hget₂
    obtain rfl := Option.some.inj (hplace.symm.trans htok)
    exact ⟨ref', tok', hget', htok', hused⟩
  · obtain ⟨now', seq, hle, hnonce⟩ := h.counted nonce hmem
    exact ⟨now', seq, hle.trans_eq hseq.symm, hnonce⟩

/-- **One step**: a vetted operation is respected and keeps the invariant. -/
theorem Kept.step {r' : AclRun} {op : AclOp} (h : Kept r) (hvetted : Vetted r op) (hstep : r.step op = some r') :
    Respected r op ∧ Kept r' := by
  cases op with
  | createInvitation templateName expires now =>
      refine ⟨trivial, ?_⟩
      cases hcreate : r.world.createInvitation templateName expires now with
      | mk world result =>
          simp only [AclRun.step, hcreate] at hstep
          cases result with
          | ok tok =>
              obtain rfl := Option.some.inj hstep
              exact h.createInvitation hcreate
          | error e =>
              obtain rfl := Option.some.inj hstep
              unfold InvitationACL.createInvitation at hcreate
              split_ifs at hcreate
              · obtain ⟨rfl, -⟩ := Prod.mk.inj hcreate
                exact h
              · cases (Prod.mk.inj hcreate).2
  | redeemInvitation ref identity now =>
      cases htok : r.world.tokens[ref]? with
      | none =>
          simp only [AclRun.step, htok] at hstep
          cases hstep
      | some tok =>
          obtain ⟨⟨e, herror⟩, -⟩ | ⟨hexpired, hused, heq⟩ := redeemInvitation_cases r.world ref tok identity now
          · simp only [AclRun.step, htok, herror] at hstep
            obtain rfl := Option.some.inj hstep
            refine ⟨fun tok' htok' => ?_, h⟩
            obtain rfl := Option.some.inj (htok.symm.trans htok')
            rw [herror]
            exact ⟨fun hok => (by cases hok), fun _ _ => ⟨rfl, rfl⟩⟩
          · obtain ⟨hkept, htemplate⟩ := hvetted tok htok hexpired hused
            have hadd : (r.world.acl.addEntry identity tok.templateName none).2 = .ok () := by
              rw [MeshACL.addEntry, if_pos htemplate]
            rw [hadd] at heq
            simp only [AclRun.step, htok, heq] at hstep
            obtain rfl := Option.some.inj hstep
            refine ⟨fun tok' htok' => ?_, h.redeem htok hkept _⟩
            obtain rfl := Option.some.inj (htok.symm.trans htok')
            rw [heq]
            refine ⟨fun _ => ⟨(h.stored tok.nonce ref hkept).1, fun hmem => ?_⟩, fun e he => (by cases he)⟩
            obtain ⟨ref', tok', hget, htok', hused'⟩ := h.spent tok.nonce hmem
            rw [hkept] at hget
            obtain rfl := Option.some.inj hget
            obtain rfl := Option.some.inj (htok.symm.trans htok')
            rw [InvitationToken.isUsed, hused'] at hused
            cases hused
  | construct opts now =>
      obtain rfl := Option.some.inj hstep
      exact ⟨trivial, h.addToken (InvitationToken.construct_counter_le opts now _)⟩
  | fromJSON data now =>
      obtain rfl := Option.some.inj hstep
      exact ⟨trivial, h.addToken (InvitationToken.construct_counter_le data.toInvitationOptions now _)⟩
  | reload now =>
      obtain rfl := Option.some.inj hstep
      exact ⟨trivial, h.reload now⟩
  | addTemplate _ _ | removeTemplate _ | addEntry _ _ _ | removeEntry _ | updateEntry _ _ | pruneExpired _ =>
      obtain rfl := Option.some.inj hstep
      exact ⟨trivial, h.withAcl _⟩

/-- **Invitations are single use and bound to their issuer** in every run that redeems kept tokens with known templates
only. -/
theorem redemptions_respected (owner : JsString) (ops : List AclOp)
    (h : (machine owner).Along Vetted (machine owner).init ops) :
    (machine owner).Along Respected (machine owner).init ops := by
  have hrun : ∀ (ops : List AclOp) (r : AclRun), Kept r → (machine owner).Along Vetted r ops →
      (machine owner).Along Respected r ops := by
    intro ops
    induction ops with
    | nil => exact fun _ _ _ => trivial
    | cons op ops ih =>
        intro r hr halong r' hstep
        obtain ⟨hvetted, hrest⟩ := halong r' hstep
        obtain ⟨hrespected, hr'⟩ := hr.step hvetted hstep
        exact ⟨hrespected, ih r' hr' hrest⟩
  exact hrun ops _ (Kept.init owner) h

theorem redemptions_respected_bob : (machine (js "alice")).Along Respected (machine (js "alice")).init
    [.createInvitation (js "guest") (some (.ofNat 100)) 1, .redeemInvitation 0 (js "bob") 3] :=
  redemptions_respected (js "alice") _ fun r hr => ⟨trivial, fun r' hr' => ⟨fun tok htok _ _ => by
    obtain rfl := Option.some.inj hr
    obtain rfl := Option.some.inj htok
    exact ⟨by decide +kernel, by decide +kernel⟩, trivial⟩⟩

/-- What is redeemed was not made here or was redeemed before, or a refusal marked the token. -/
def violates (r : AclRun) (ref : ℕ) (identity : JsString) (now : ℕ) : Bool :=
  r.world.tokens[ref]?.any fun tok =>
    match (r.world.redeemInvitation ref tok identity now).2 with
    | .ok _ => decide (tok.nonce ∉ r.created ∨ tok.nonce ∈ r.redeemed)
    | .error _ => decide ((r.world.redeemInvitation ref tok identity now).1.tokens ≠ r.world.tokens)

theorem not_respected_of_violates {identity : JsString}
    (h : r.violates ref identity now = true) : ¬ Respected r (.redeemInvitation ref identity now) := by
  intro hrespected
  obtain ⟨tok, htok, hbad⟩ := (Option.any_eq_true _ _).mp h
  obtain ⟨hok, herror⟩ := hrespected tok htok
  cases hresult : (r.world.redeemInvitation ref tok identity now).2 with
  | ok u =>
      rw [hresult] at hbad
      obtain ⟨hcreated, hredeemed⟩ := hok hresult
      obtain hno | hyes := of_decide_eq_true hbad
      · exact hno hcreated
      · exact hredeemed hyes
  | error e =>
      rw [hresult] at hbad
      exact of_decide_eq_true hbad (herror e hresult).2

theorem not_along_of_violates {owner : JsString} {ops : List AclOp} {identity : JsString}
    (h : ((machine owner).run (fun _ _ => True) (machine owner).init ops).any
      (fun r => decide (r.violates ref identity now = true)) = true) :
    ¬ (machine owner).Along Respected (machine owner).init (ops ++ [.redeemInvitation ref identity now]) := by
  obtain ⟨r, hrun, -, hviolates⟩ := Machine.exists_of_run h
  intro halong
  obtain ⟨tok, htok, -⟩ := (Option.any_eq_true _ _).mp hviolates
  have hstep : ∃ r', (machine owner).step r (.redeemInvitation ref identity now) = some r' := by
    show ∃ r', AclRun.step r (.redeemInvitation ref identity now) = some r'
    simp only [AclRun.step, htok]
    cases (r.world.redeemInvitation ref tok identity now).2 with
    | ok u => exact ⟨_, rfl⟩
    | error e => exact ⟨_, rfl⟩
  obtain ⟨r', hr'⟩ := hstep
  exact not_respected_of_violates hviolates (Machine.Along.last halong hrun hr')

def firstInvitation : InvitationToken :=
  (InvitationToken.construct ⟨js "alice", js "guest", some (.ofNat 100), none⟩ 1 0).1

theorem copy_redeemed : ((machine (js "alice")).run (fun _ _ => True) (machine (js "alice")).init
    [.createInvitation (js "guest") (some (.ofNat 100)) 1, .fromJSON firstInvitation.toJSON 2,
      .redeemInvitation 0 (js "bob") 3]).any (fun r => decide (r.violates 1 (js "carol") 4 = true)) = true := by
  decide +kernel

theorem forgery_redeemed : ((machine (js "alice")).run (fun _ _ => True) (machine (js "alice")).init
    [.construct ⟨js "mallory", js "admin", some (.ofNat 100), none⟩ 1]).any
      (fun r => decide (r.violates 0 (js "mallory") 2 = true)) = true := by
  decide +kernel

theorem orphan_spent : ((machine (js "alice")).run (fun _ _ => True) (machine (js "alice")).init
    [.addTemplate (js "team") [js "chat:*"], .createInvitation (js "team") (some (.ofNat 100)) 1,
      .removeTemplate (js "team")]).any (fun r => decide (r.violates 0 (js "bob") 2 = true)) = true := by
  decide +kernel

/-- A copy is redeemed after its original, a token that somebody else made is redeemed, and a token whose template was
removed is spent in vain. -/
theorem invitations_leak :
    ¬ (machine (js "alice")).Along Respected (machine (js "alice")).init
      [.createInvitation (js "guest") (some (.ofNat 100)) 1, .fromJSON firstInvitation.toJSON 2,
        .redeemInvitation 0 (js "bob") 3, .redeemInvitation 1 (js "carol") 4] ∧
    ¬ (machine (js "alice")).Along Respected (machine (js "alice")).init
      [.construct ⟨js "mallory", js "admin", some (.ofNat 100), none⟩ 1, .redeemInvitation 0 (js "mallory") 2] ∧
    ¬ (machine (js "alice")).Along Respected (machine (js "alice")).init
      [.addTemplate (js "team") [js "chat:*"], .createInvitation (js "team") (some (.ofNat 100)) 1,
        .removeTemplate (js "team"), .redeemInvitation 0 (js "bob") 2] :=
  ⟨not_along_of_violates copy_redeemed, not_along_of_violates forgery_redeemed, not_along_of_violates orphan_spent⟩

end AclRun

end BrowserMesh.Core
