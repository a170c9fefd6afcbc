import BrowserMesh.Js.Arithmetic
import BrowserMesh.Js.Encoding
import BrowserMesh.Library.Transition

/-! # Usage reports and quotas

* **Sums.**  What `usage[field] += amount` and `Math.max` make of an amount from the wire.
* **Rules.**  The limits of a pod: those of its rule until it expires, then the defaults.
* **Recording.**  `recordUsage` adds to the record under `podId::period` and records a violation if the result is above the
  limit.
* **Reports.**  An inbound report is recorded for the peer it comes from.  Records of other peers are not touched, and what
  rises above a limit is a violation; usage stays a number that does not fall as long as the amounts count
  (`quota_reports`). -/

namespace BrowserMesh.Apps
open Js Transition

namespace Quotas

/-! ### Sums -/

/-- What a field holds that values are added to. -/
inductive Tally where
  | undefined
  | number (n : JsNumber)
  | text (t : JsString)
  deriving DecidableEq

namespace Tally

/-- `Number(tally)`. -/
def toNumber : Tally → JsNumber
  | .undefined => .nan
  | .number n => n
  | .text t => stringToNumber t

/-- The sum with a value that counts as the number `n` and is written `t`. -/
def addNumber (n : JsNumber) (t : JsString) : Tally → Tally
  | .undefined => .number .nan
  | .number m => .number (m.add n)
  | .text s => .text (s ++ t)

section plus
variable (numberText : JsNumber → JsString)

/-- `String(tally)`. -/
def toText : Tally → JsString
  | .undefined => js "undefined"
  | .number n => numberText n
  | .text t => t

/-- `tally + v`, where `none` is `undefined`; `none` when the conversion of `v` throws. -/
def plus (tally : Tally) : Option Json → Option Tally
  | none => some (tally.addNumber .nan (js "undefined"))
  | some .null => some (tally.addNumber 0 (js "null"))
  | some (.bool true) => some (tally.addNumber (.ofNat 1) (js "true"))
  | some (.bool false) => some (tally.addNumber 0 (js "false"))
  | some (.number n) => some (tally.addNumber n (numberText n))
  | some v => (v.toText numberText).map fun t => .text (tally.toText numberText ++ t)

end plus

/-- `Number(v)`. -/
def numberOf : Option Json → Option JsNumber
  | none => some .nan
  | some v => v.toNumber

/-- `Math.max(tally, v)`. -/
def highWater (tally : Tally) (v : Option Json) : Option Tally :=
  (numberOf v).map fun n => .number (tally.toNumber.mathMax n)

end Tally

/-! ### Resources and rules -/

/-- The keys of `RESOURCE_FIELD_MAP`, which maps them one to one to the fields of a usage. -/
inductive Resource where
  | cpuMs | memoryMb | storageMb | bandwidthMb | jobsPerHour | maxConcurrentJobs
  deriving DecidableEq

def Resource.name : Resource → JsString
  | .cpuMs => js "cpuMs"
  | .memoryMb => js "memoryMb"
  | .storageMb => js "storageMb"
  | .bandwidthMb => js "bandwidthMb"
  | .jobsPerHour => js "jobsPerHour"
  | .maxConcurrentJobs => js "maxConcurrentJobs"

def Resource.all : List Resource :=
  [.cpuMs, .memoryMb, .storageMb, .bandwidthMb, .jobsPerHour, .maxConcurrentJobs]

def objectProperties : List JsString :=
  [js "constructor", js "__defineGetter__", js "__defineSetter__", js "hasOwnProperty", js "__lookupGetter__",
    js "__lookupSetter__", js "isPrototypeOf", js "propertyIsEnumerable", js "toString", js "valueOf", js "__proto__",
    js "toLocaleString"]

/-- The field that a usage is recorded in: the one of a resource, or one named by the text of an inherited property. -/
inductive UsageField where
  | of (r : Resource)
  | inherited (name : JsString)
  deriving DecidableEq

/-- `RESOURCE_FIELD_MAP[key]`, where it counts as true. -/
def usageField? (key : JsString) : Option UsageField :=
  match Resource.all.find? fun r => r.name = key with
  | some r => some (.of r)
  | none => if key ∈ objectProperties then some (.inherited key) else none

inductive OveragePolicy where
  | block | throttle | charge
  deriving DecidableEq

/-- Limits of the resources; `none` for no limit. -/
abbrev Limits := Resource → Option JsNumber

structure QuotaRule where
  limits : Limits
  overagePolicy : OveragePolicy
  expiresAt : Option JsNumber

/-- `isExpired`. -/
def QuotaRule.isExpired (rule : QuotaRule) (now : JsNumber) : Bool := rule.expiresAt.any fun t => t.le now

structure QuotaManager where
  rules : JsMap JsString QuotaRule
  defaultLimits : Limits

namespace QuotaManager

/-- `setQuota`; `limits` gives the members that are set.  A rule for the empty string is refused. -/
def setQuota (m : QuotaManager) (podId : JsString) (limits : Resource → Option (Option JsNumber))
    (overagePolicy : OveragePolicy) (expiresAt : Option JsNumber) : QuotaManager :=
  if podId = [] then m
  else { m with rules := m.rules.set podId ⟨fun r => (limits r).getD (m.defaultLimits r), overagePolicy, expiresAt⟩ }

def removeQuota (m : QuotaManager) (podId : JsString) : QuotaManager := { m with rules := m.rules.delete podId }

/-- `resolveEffective`. -/
def resolveEffective (m : QuotaManager) (podId : JsString) (now : JsNumber) : Limits × OveragePolicy :=
  match m.rules.get? podId with
  | some rule => if rule.isExpired now then (m.defaultLimits, .block) else (rule.limits, rule.overagePolicy)
  | none => (m.defaultLimits, .block)

end QuotaManager

/-! ### Recording usage -/

/-- `date.toISOString().slice(0, 13)`. -/
def Period : Type := { t : JsString // t.length = 13 }

structure UsageRecord where
  podId : JsString
  period : Period
  usage : UsageField → Tally

/-- A limit that usage is compared with; what is inherited is compared as its text. -/
inductive Limit where
  | number (n : JsNumber)
  | inherited (name : JsString)

structure Violation where
  podId : JsString
  resource : Option Json
  limit : Limit
  actual : Tally
  policy : OveragePolicy
  timestamp : JsNumber

structure QuotaEnforcer where
  usage : JsMap JsString UsageRecord
  violations : List Violation

/-- What a call of `recordUsage` comes to. -/
inductive Outcome where
  | threw
  | recorded
  | violated (violation : Violation)

/-- The texts of numbers and of what objects inherit. -/
structure Texts where
  ofNumber : JsNumber → JsString
  ofInherited : JsString → JsString

/-- The record of a pod that has used nothing. -/
def UsageRecord.new (podId : JsString) (period : Period) : UsageRecord where
  podId := podId
  period := period
  usage
    | .of _ => .number 0
    | .inherited _ => .undefined

/-- `record.usage[field] = tally`. -/
def UsageRecord.put (record : UsageRecord) (field : UsageField) (tally : Tally) : UsageRecord :=
  { record with usage := Function.update record.usage field tally }

@[simp] theorem UsageRecord.put_usage (record : UsageRecord) (field : UsageField) (tally : Tally) :
    (record.put field tally).usage = Function.update record.usage field tally := rfl

/-- `_key`. -/
def recordKey (podId : JsString) (period : Period) : JsString := podId ++ js "::" ++ period.1

section recording
variable (texts : Texts)

/-- `actual > limit`. -/
def exceeds (actual : Tally) : Limit → Bool
  | .number n => n.lt actual.toNumber
  | .inherited name =>
      match actual with
      | .text t => texts.ofInherited name < t
      | tally => (stringToNumber (texts.ofInherited name)).lt tally.toNumber

/-- The property key that `resource` makes. -/
def resourceKey : Option Json → Option JsString
  | none => some (js "undefined")
  | some v => v.toText texts.ofNumber

/-- What is recorded after `amount`: the larger one of concurrent jobs, else the sum. -/
def recorded (resource amount : Option Json) (tally : Tally) : Option Tally :=
  if Json.isString Resource.maxConcurrentJobs.name resource then tally.highWater amount
  else tally.plus texts.ofNumber amount

/-- `limits[resource]`. -/
def limitOf (limits : Limits) : UsageField → Option Limit
  | .of r => (limits r).map .number
  | .inherited name => some (.inherited name)

/-- `recordUsage`. -/
def recordUsage (m : QuotaManager) (e : QuotaEnforcer) (podId : JsString) (resource amount : Option Json)
    (period : Period) (now : JsNumber) : QuotaEnforcer × Outcome :=
  let key := recordKey podId period
  let record := (e.usage.get? key).getD (.new podId period)
  let e := { e with usage := e.usage.set key record }
  match (resourceKey texts resource).bind usageField? with
  | none => (e, .threw)
  | some field =>
      match recorded texts resource amount (record.usage field) with
      | none => (e, .threw)
      | some actual =>
          let e := { e with usage := e.usage.set key (record.put field actual) }
          let (limits, overagePolicy) := m.resolveEffective podId now
          match (limitOf limits field).filter fun limit => exceeds texts actual limit with
          | none => (e, .recorded)
          | some limit =>
              let violation := ⟨podId, resource, limit, actual, overagePolicy, now⟩
              ({ e with violations := e.violations ++ [violation] }, .violated violation)

end recording

/-- `getUsage`. -/
def QuotaEnforcer.getUsage (e : QuotaEnforcer) (podId : JsString) (period : Period) : Option UsageRecord :=
  e.usage.get? (recordKey podId period)

/-! ### The reporting service -/

/-- A quota authority, with the violations it has sent. -/
structure Authority where
  manager : QuotaManager
  enforcer : QuotaEnforcer
  sent : List (JsString × Violation)

inductive Action where
  /-- A message of the service's type comes in. -/
  | receive (fromPubKey : JsString) (msg : Json) (period : Period) (now : JsNumber)
  | recordUsage (podId : JsString) (resource amount : Option Json) (period : Period) (now : JsNumber)
  | setQuota (podId : JsString) (limits : Resource → Option (Option JsNumber)) (overagePolicy : OveragePolicy)
      (expiresAt : Option JsNumber)
  | removeQuota (podId : JsString)

section service
variable (texts : Texts)

/-- `handleUsageReport`: the usage is that of the sender, who is told of a violation. -/
def handleUsageReport (s : Authority) (fromPubKey : JsString) (msg : Json) (period : Period) (now : JsNumber) :
    Authority :=
  let (enforcer, outcome) := recordUsage texts s.manager s.enforcer fromPubKey (msg.field (js "resource"))
    (msg.field (js "amount")) period now
  match outcome with
  | .violated violation => { s with enforcer := enforcer, sent := s.sent ++ [(fromPubKey, violation)] }
  | _ => { s with enforcer := enforcer }

/-- Other kinds of messages are only passed on as events. -/
def step (s : Authority) : Action → Authority
  | .receive fromPubKey msg period now =>
      if Json.isString (js "usage-report") (msg.field (js "kind")) then handleUsageReport texts s fromPubKey msg period now
      else s
  | .recordUsage podId resource amount period now =>
      { s with enforcer := (recordUsage texts s.manager s.enforcer podId resource amount period now).1 }
  | .setQuota podId limits overagePolicy expiresAt =>
      { s with manager := s.manager.setQuota podId limits overagePolicy expiresAt }
  | .removeQuota podId => { s with manager := s.manager.removeQuota podId }

def machine (defaultLimits : Limits) : Machine Authority Action :=
  ⟨⟨⟨JsMap.empty, defaultLimits⟩, ⟨JsMap.empty, []⟩, []⟩, fun s a => some (step texts s a)⟩

end service

/-! ### What is asked of reports -/

/-- What the pod has used of the resource in the period. -/
def usageOf (e : QuotaEnforcer) (podId : JsString) (period : Period) (r : Resource) : Tally :=
  (e.getUsage podId period).elim (.number 0) fun record => record.usage (.of r)

/-- The pod for which the action records usage. -/
def Action.pod? : Action → Option JsString
  | .receive fromPubKey _ _ _ => some fromPubKey
  | .recordUsage podId _ _ _ _ => some podId
  | _ => none

/-- The clock when the action records usage. -/
def Action.now? : Action → Option JsNumber
  | .receive _ _ _ now => some now
  | .recordUsage _ _ _ _ now => some now
  | _ => none

/-- The action is a message that comes in. -/
def Action.inbound : Action → Bool
  | .receive _ _ _ _ => true
  | _ => false

/-- The violation is that the pod has used `actual` of the resource, which the limit `l` does not allow. -/
structure Tells (texts : Texts) (v : Violation) (podId : JsString) (r : Resource) (l : JsNumber) (actual : Tally) :
    Prop where
  podId : v.podId = podId
  resource : resourceKey texts v.resource = some r.name
  limit : v.limit = .number l
  actual : v.actual = actual

/-- Usage is that of the pod that reports it, and what rises above a limit is a violation. -/
structure Attributed (texts : Texts) (s : Authority) (a : Action) (s' : Authority) : Prop where
  others : ∀ podId, a.pod? ≠ some podId → ∀ period, s'.enforcer.getUsage podId period = s.enforcer.getUsage podId period
  violation : ∀ podId period r actual now l, usageOf s'.enforcer podId period r = actual →
    usageOf s.enforcer podId period r ≠ actual → a.now? = some now →
    (s.manager.resolveEffective podId now).1 r = some l → exceeds texts actual (.number l) = true →
    ∃ v, Tells texts v podId r l actual ∧ s'.enforcer.violations = s.enforcer.violations ++ [v] ∧
      (a.inbound = true → s'.sent = s.sent ++ [(podId, v)])

/-- Usage is a finite number, and does not fall. -/
def Growing (s s' : Authority) : Prop :=
  ∀ podId period r, ∃ m n, usageOf s.enforcer podId period r = .number m ∧
    usageOf s'.enforcer podId period r = .number n ∧ n.isFinite = true ∧ m.le n = true

/-- The number that an amount adds to a number, if it makes no text of it. -/
def added : Option Json → Option JsNumber
  | none => some .nan
  | some .null => some 0
  | some (.bool true) => some (.ofNat 1)
  | some (.bool false) => some 0
  | some (.number n) => some n
  | some _ => none

/-- If the resource is one that is recorded, the amount can be: its conversion throws, or it is a number, a truth value or
`null`, not negative, that adds up to a finite number; for concurrent jobs, what converts to a number or to `-Infinity`. -/
def Counts (texts : Texts) (s : Authority) (podId : JsString) (resource amount : Option Json) (period : Period) : Prop :=
  ∀ r, (resourceKey texts resource).bind usageField? = some (.of r) →
    if Json.isString Resource.maxConcurrentJobs.name resource = true then
      ∀ n, Tally.numberOf amount = some n → n ≠ .nan ∧ n ≠ .posInf
    else
      (∃ v, amount = some v ∧ v.toText texts.ofNumber = none) ∨
        ∃ n, added amount = some n ∧ n.NonNeg ∧
          ∀ m, usageOf s.enforcer podId period r = .number m → (m.add n).isFinite = true

def Counted (texts : Texts) (s : Authority) : Action → Prop
  | .receive fromPubKey msg period _ => Json.isString (js "usage-report") (msg.field (js "kind")) = true →
      Counts texts s fromPubKey (msg.field (js "resource")) (msg.field (js "amount")) period
  | .recordUsage podId resource amount period _ => Counts texts s podId resource amount period
  | _ => True

/-! ### One call -/

theorem recordKey_inj {podId podId' : JsString} {period period' : Period}
    (h : recordKey podId period = recordKey podId' period') : podId = podId' ∧ period = period' := by
  rw [recordKey, recordKey, List.append_assoc, List.append_assoc] at h
  obtain ⟨hpod, hrest⟩ := List.append_inj' h (by
    rw [List.length_append, List.length_append, period.2, period'.2])
  exact ⟨hpod, Subtype.ext (List.append_cancel_left hrest)⟩

theorem usageField?_of {key : JsString} {r : Resource} (h : usageField? key = some (.of r)) : key = r.name := by
  rw [usageField?] at h
  cases hfind : Resource.all.find? fun r => r.name = key with
  | none =>
      rw [hfind] at h
      dsimp only at h
      split_ifs at h
      cases h
  | some r' =>
      rw [hfind] at h
      obtain rfl : r' = r := UsageField.of.inj (Option.some.inj h)
      have hname := List.find?_some hfind
      exact (by simpa using hname : r'.name = key).symm

section call
variable (texts : Texts) (m : QuotaManager) (e : QuotaEnforcer) (podId : JsString) (resource amount : Option Json)
  (period : Period) (now : JsNumber)

/-- The record that a call finds or makes. -/
def found : UsageRecord := (e.usage.get? (recordKey podId period)).getD (.new podId period)

/-- A call of `recordUsage` leaves the record of the pod as it is, or it records a field, and a violation if the result is
above the limit. -/
theorem recordUsage_cases :
    ∃ record, (∀ key, (recordUsage texts m e podId resource amount period now).1.usage.get? key =
        if key = recordKey podId period then some record else e.usage.get? key) ∧
      (((recordUsage texts m e podId resource amount period now).2 = .threw ∧ record = found e podId period ∧
          (recordUsage texts m e podId resource amount period now).1.violations = e.violations) ∨
        ∃ field actual, (resourceKey texts resource).bind usageField? = some field ∧
          recorded texts resource amount ((found e podId period).usage field) = some actual ∧
          record = (found e podId period).put field actual ∧
          (((recordUsage texts m e podId resource amount period now).2 = .recorded ∧
              (∀ limit, limitOf (m.resolveEffective podId now).1 field = some limit → exceeds texts actual limit = false) ∧
              (recordUsage texts m e podId resource amount period now).1.violations = e.violations) ∨
            ∃ limit, limitOf (m.resolveEffective podId now).1 field = some limit ∧
              (recordUsage texts m e podId resource amount period now).2 =
                .violated ⟨podId, resource, limit, actual, (m.resolveEffective podId now).2, now⟩ ∧
              (recordUsage texts m e podId resource amount period now).1.violations = e.violations ++
                [⟨podId, resource, limit, actual, (m.resolveEffective podId now).2, now⟩])) := by
  rw [recordUsage]
  dsimp only
  cases hfield : (resourceKey texts resource).bind usageField? with
  | none =>
      refine ⟨found e podId period, fun key => JsMap.get?_set _ _ _ _, Or.inl ⟨rfl, rfl, rfl⟩⟩
  | some field =>
      dsimp only
      cases hrecorded : recorded texts resource amount ((found e podId period).usage field) with
      | none =>
          rw [found] at hrecorded
          rw [hrecorded]
          exact ⟨found e podId period, fun key => JsMap.get?_set _ _ _ _, Or.inl ⟨rfl, rfl, rfl⟩⟩
      | some actual =>
          have hget : ∀ key, ((e.usage.set (recordKey podId period) (found e podId period)).set (recordKey podId period)
              ((found e podId period).put field actual)).get? key =
                if key = recordKey podId period then some ((found e podId period).put field actual)
                else e.usage.get? key := by
            intro key
            rw [JsMap.get?_set, JsMap.get?_set]
            split_ifs <;> rfl
          refine ⟨(found e podId period).put field actual, ?_⟩
          have hrec := hrecorded
          rw [found] at hrecorded
          rw [hrecorded]
          dsimp only
          cases hlimit : (limitOf (m.resolveEffective podId now).1 field).filter fun limit => exceeds texts actual limit with
          | none =>
              refine ⟨hget, Or.inr ⟨field, actual, rfl, hrec, rfl, Or.inl ⟨rfl, fun limit hsome => ?_, rfl⟩⟩⟩
              rw [hsome, Option.filter_some] at hlimit
              split_ifs at hlimit with hexceeds
              exact Bool.eq_false_iff.mpr hexceeds
          | some limit =>
              obtain ⟨hsome, -⟩ := Option.filter_eq_some_iff.mp hlimit
              exact ⟨hget, Or.inr ⟨field, actual, rfl, hrec, rfl, Or.inr ⟨limit, hsome, rfl, rfl⟩⟩⟩

theorem usageOf_eq_found (r : Resource) : usageOf e podId period r = (found e podId period).usage (.of r) := by
  rw [usageOf, found, QuotaEnforcer.getUsage]
  cases e.usage.get? (recordKey podId period) <;> rfl

variable {podId period} in
theorem usageOf_of_get? {e' : QuotaEnforcer} {record : UsageRecord}
    (h : e'.usage.get? (recordKey podId period) = some record) (r : Resource) :
    usageOf e' podId period r = record.usage (.of r) := by
  rw [usageOf, QuotaEnforcer.getUsage, h]
  rfl

/-- A call changes one field of one record, to what is recorded after the amount. -/
theorem usageOf_recordUsage (podId' : JsString) (period' : Period) (r : Resource) :
    usageOf (recordUsage texts m e podId resource amount period now).1 podId' period' r = usageOf e podId' period' r ∨
      podId' = podId ∧ period' = period ∧ (resourceKey texts resource).bind usageField? = some (.of r) ∧
        recorded texts resource amount (usageOf e podId period r) =
          some (usageOf (recordUsage texts m e podId resource amount period now).1 podId period r) := by
  obtain ⟨record, hget, hcases⟩ := recordUsage_cases texts m e podId resource amount period now
  by_cases hkey : recordKey podId' period' = recordKey podId period
  · obtain ⟨rfl, rfl⟩ := recordKey_inj hkey
    rw [usageOf_of_get? ((hget _).trans (if_pos rfl)), usageOf_eq_found]
    rcases hcases with ⟨-, rfl, -⟩ | ⟨field, actual, hfield, hrecorded, rfl, -⟩
    · exact Or.inl rfl
    · by_cases hr : field = .of r
      · subst hr
        refine Or.inr ⟨rfl, rfl, hfield, hrecorded.trans ?_⟩
        rw [UsageRecord.put_usage, Function.update_self]
      · refine Or.inl ?_
        rw [UsageRecord.put_usage, Function.update_of_ne fun h => hr h.symm]
  · refine Or.inl ?_
    rw [usageOf, QuotaEnforcer.getUsage, hget, if_neg hkey]
    rfl

variable {texts m e podId resource amount period now}

theorem getUsage_other {podId' : JsString} (h : podId' ≠ podId) (period' : Period) :
    (recordUsage texts m e podId resource amount period now).1.getUsage podId' period' = e.getUsage podId' period' := by
  obtain ⟨record, hget, -⟩ := recordUsage_cases texts m e podId resource amount period now
  rw [QuotaEnforcer.getUsage, hget, if_neg fun hkey => h (recordKey_inj hkey).1]
  rfl

theorem violated_of_exceeds {podId' : JsString} {period' : Period} {r : Resource} {actual : Tally} {l : JsNumber}
    (hafter : usageOf (recordUsage texts m e podId resource amount period now).1 podId' period' r = actual)
    (hbefore : usageOf e podId' period' r ≠ actual) (hlimit : (m.resolveEffective podId' now).1 r = some l)
    (hlt : exceeds texts actual (.number l) = true) :
    podId' = podId ∧ ∃ v, Tells texts v podId' r l actual ∧
      (recordUsage texts m e podId resource amount period now).2 = .violated v ∧
      (recordUsage texts m e podId resource amount period now).1.violations = e.violations ++ [v] := by
  rcases usageOf_recordUsage texts m e podId resource amount period now podId' period' r with hsame | ⟨rfl, rfl, hfield, hrecorded⟩
  · exact absurd (hsame.symm.trans hafter) hbefore
  refine ⟨rfl, ?_⟩
  obtain ⟨record, hget, hcases⟩ := recordUsage_cases texts m e podId' resource amount period' now
  rcases hcases with ⟨-, rfl, -⟩ | ⟨field, actual', hfield', hrecorded', -, hcases⟩
  · rw [usageOf_of_get? ((hget _).trans (if_pos rfl)), ← usageOf_eq_found] at hafter
    exact absurd hafter hbefore
  obtain rfl : field = .of r := Option.some.inj (hfield'.symm.trans hfield)
  obtain rfl : actual' = actual := by
    rw [usageOf_eq_found, hrecorded', hafter] at hrecorded
    exact Option.some.inj hrecorded
  have hl : limitOf (m.resolveEffective podId' now).1 (.of r) = some (.number l) := by rw [limitOf, hlimit]; rfl
  rcases hcases with ⟨-, hwithin, -⟩ | ⟨limit, hsome, houtcome, hviolations⟩
  · exact absurd ((hwithin _ hl).symm.trans hlt) (by decide)
  · obtain rfl := Option.some.inj (hl.symm.trans hsome)
    obtain ⟨key, hkey, hname⟩ := Option.bind_eq_some_iff.mp hfield
    rw [usageField?_of hname] at hkey
    exact ⟨_, ⟨rfl, hkey, rfl, rfl⟩, houtcome, hviolations⟩

end call

/-! ### Amounts that count -/

section amounts
variable {texts : Texts} {n : JsNumber}

theorem ne_nan_of_isFinite (h : n.isFinite = true) : n ≠ .nan := by
  rintro rfl
  cases h

theorem le_refl_of_isFinite (h : n.isFinite = true) : n.le n = true := by
  rw [JsNumber.le, decide_eq_true_iff]
  exact ⟨ne_nan_of_isFinite h, ne_nan_of_isFinite h, le_rfl⟩

variable (texts) in
theorem plus_added (tally : Tally) {amount : Option Json} (h : added amount = some n) :
    ∃ t, tally.plus texts.ofNumber amount = some (tally.addNumber n t) := by
  cases amount with
  | none =>
      obtain rfl := Option.some.inj h
      exact ⟨_, rfl⟩
  | some v =>
      cases v with
      | null =>
          obtain rfl := Option.some.inj h
          exact ⟨_, rfl⟩
      | bool b =>
          cases b with
          | false =>
              obtain rfl := Option.some.inj h
              exact ⟨_, rfl⟩
          | true =>
              obtain rfl := Option.some.inj h
              exact ⟨_, rfl⟩
      | number n =>
          obtain rfl := Option.some.inj h
          exact ⟨_, rfl⟩
      | string s => cases h
      | array items => cases h
      | object fields => cases h

/-- Nothing is added where the conversion throws. -/
theorem plus_of_toText_none {tally : Tally} {v : Json} (h : v.toText texts.ofNumber = none) :
    tally.plus texts.ofNumber (some v) = none := by
  cases v with
  | array items => exact congrArg (Option.map fun t => Tally.text (tally.toText texts.ofNumber ++ t)) h
  | object fields => exact congrArg (Option.map fun t => Tally.text (tally.toText texts.ofNumber ++ t)) h
  | null => cases h
  | bool b => cases b <;> cases h
  | number n => cases h
  | string s => cases h

/-- What is recorded after an amount that counts is a finite number, and not less than before. -/
theorem recorded_of_counts {s : Authority} {podId : JsString} {resource amount : Option Json} {period : Period}
    (h : Counts texts s podId resource amount period) {r : Resource}
    (hfield : (resourceKey texts resource).bind usageField? = some (.of r)) {m : JsNumber}
    (hm : usageOf s.enforcer podId period r = .number m) (hfinite : m.isFinite = true) {tally : Tally}
    (hrecorded : recorded texts resource amount (.number m) = some tally) :
    ∃ n, tally = .number n ∧ n.isFinite = true ∧ m.le n = true := by
  have hcounts := h r hfield
  rw [recorded] at hrecorded
  split_ifs at hrecorded hcounts with hconcurrent
  · obtain ⟨n, hn, rfl⟩ := Option.map_eq_some_iff.mp hrecorded
    obtain ⟨hnan, hinf⟩ := hcounts n hn
    refine ⟨_, rfl, ?_⟩
    rw [Tally.toNumber, JsNumber.mathMax_eq_max]
    rcases le_total m n with hle | hle
    · rw [max_eq_right hle]
      have hn : n.isFinite = true := by
        cases n with
        | nan => exact absurd rfl hnan
        | negInf =>
            rw [le_antisymm hle (JsNumber.negInf_le m)] at hfinite
            cases hfinite
        | fin k hk => rfl
        | posInf => exact absurd rfl hinf
      rw [JsNumber.le, decide_eq_true_iff]
      exact ⟨hn, ne_nan_of_isFinite hfinite, hnan, hle⟩
    · rw [max_eq_left hle]
      exact ⟨hfinite, le_refl_of_isFinite hfinite⟩
  · rcases hcounts with ⟨v, rfl, hthrows⟩ | ⟨n, hn, hnonNeg, hsum⟩
    · rw [plus_of_toText_none hthrows] at hrecorded
      cases hrecorded
    · obtain ⟨t, hplus⟩ := plus_added texts (.number m) hn
      obtain rfl := Option.some.inj (hplus.symm.trans hrecorded)
      refine ⟨m.add n, rfl, hsum m hm, ?_⟩
      rw [JsNumber.le, decide_eq_true_iff]
      exact ⟨ne_nan_of_isFinite hfinite, ne_nan_of_isFinite (hsum m hm), JsNumber.le_add_of_nonNeg m hnonNeg⟩

end amounts

/-! ### Runs -/

section runs
variable {texts : Texts} {s : Authority} {a : Action}

/-- The step records nothing, or it is one call of `recordUsage` for the pod of the action. -/
theorem step_cases (texts : Texts) (s : Authority) (a : Action) :
    ((step texts s a).enforcer = s.enforcer ∧ (step texts s a).sent = s.sent) ∨
      ∃ podId resource amount period now, a.pod? = some podId ∧ a.now? = some now ∧
        (Counted texts s a → Counts texts s podId resource amount period) ∧
        (step texts s a).enforcer = (recordUsage texts s.manager s.enforcer podId resource amount period now).1 ∧
        (a.inbound = true → ∀ v,
          (recordUsage texts s.manager s.enforcer podId resource amount period now).2 = .violated v →
            (step texts s a).sent = s.sent ++ [(podId, v)]) := by
  cases a with
  | receive fromPubKey msg period now =>
      rw [step]
      split_ifs with hkind
      · refine Or.inr ⟨fromPubKey, msg.field (js "resource"), msg.field (js "amount"), period, now, rfl, rfl,
          fun h => h hkind, ?_, fun _ v hv => ?_⟩
        · rw [handleUsageReport]
          dsimp only
          cases (recordUsage texts s.manager s.enforcer fromPubKey (msg.field (js "resource"))
            (msg.field (js "amount")) period now).2 <;> rfl
        · rw [handleUsageReport]
          dsimp only
          rw [hv]
      · exact Or.inl ⟨rfl, rfl⟩
  | recordUsage podId resource amount period now =>
      exact Or.inr ⟨podId, resource, amount, period, now, rfl, rfl, id, rfl, fun h => by cases h⟩
  | setQuota podId limits overagePolicy expiresAt => exact Or.inl ⟨rfl, rfl⟩
  | removeQuota podId => exact Or.inl ⟨rfl, rfl⟩

/-- Every step attributes usage and tells of violations as it should. -/
theorem attributed_step (texts : Texts) (s : Authority) (a : Action) : Attributed texts s a (step texts s a) := by
  rcases step_cases texts s a with ⟨henforcer, -⟩ | ⟨podId, resource, amount, period, now, hpod, hnow, -, henforcer, hsent⟩
  · refine ⟨fun _ _ _ => by rw [henforcer], fun podId period r actual now l hafter hbefore => ?_⟩
    rw [henforcer] at hafter
    exact absurd hafter hbefore
  · refine ⟨fun podId' hne period' => ?_, fun podId' period' r actual now' l hafter hbefore hnow' hlimit hlt => ?_⟩
    · rw [henforcer]
      refine getUsage_other ?_ period'
      rintro rfl
      exact hne hpod
    · obtain rfl := Option.some.inj (hnow.symm.trans hnow')
      rw [henforcer] at hafter ⊢
      obtain ⟨rfl, v, htells, houtcome, hviolations⟩ := violated_of_exceeds hafter hbefore hlimit hlt
      exact ⟨v, htells, hviolations, fun hinbound => hsent hinbound v houtcome⟩

/-- Every usage is a finite number. -/
def Finite (s : Authority) : Prop :=
  ∀ podId period r, ∃ n, usageOf s.enforcer podId period r = .number n ∧ n.isFinite = true

theorem growing_step (h : Finite s) (hcounted : Counted texts s a) : Growing s (step texts s a) := by
  intro podId' period' r
  obtain ⟨m, hm, hfinite⟩ := h podId' period' r
  rcases step_cases texts s a with ⟨henforcer, -⟩ | ⟨podId, resource, amount, period, now, -, -, hcounts, henforcer, -⟩
  · exact ⟨m, m, hm, by rwa [henforcer], hfinite, le_refl_of_isFinite hfinite⟩
  · rw [henforcer]
    rcases usageOf_recordUsage texts s.manager s.enforcer podId resource amount period now podId' period' r with hsame | ⟨rfl, rfl, hfield, hrecorded⟩
    · exact ⟨m, m, hm, hsame.trans hm, hfinite, le_refl_of_isFinite hfinite⟩
    · rw [hm] at hrecorded
      obtain ⟨n, hn, hfinite', hle⟩ := recorded_of_counts (hcounts hcounted) hfield hm hfinite hrecorded
      exact ⟨m, n, hm, hn, hfinite', hle⟩

theorem finite_of_growing {s' : Authority} (h : Growing s s') : Finite s' := fun podId period r => by
  obtain ⟨-, n, -, hn, hfinite, -⟩ := h podId period r
  exact ⟨n, hn, hfinite⟩

theorem Reach.finite {defaultLimits : Limits} (h : (machine texts defaultLimits).Reach (Counted texts) s) : Finite s := by
  refine Machine.Reach.invariant (fun _ _ _ => ⟨0, rfl, by decide +kernel⟩) (fun s a s' hfinite hcounted hstep => ?_) h
  obtain rfl := Option.some.inj hstep
  exact finite_of_growing (growing_step hfinite hcounted)

/-- Usage is that of the pod that reports it, and what rises above a limit is a violation; along runs in which amounts count,
usage is a finite number that does not fall. -/
theorem quota_reports (texts : Texts) (defaultLimits : Limits) :
    (∀ s, (machine texts defaultLimits).Reach (fun _ _ => True) s → ∀ a s',
      (machine texts defaultLimits).step s a = some s' → Attributed texts s a s') ∧
    ∀ s, (machine texts defaultLimits).Reach (Counted texts) s → ∀ a s', Counted texts s a →
      (machine texts defaultLimits).step s a = some s' → Growing s s' := by
  constructor
  · intro s _ a s' hstep
    obtain rfl := Option.some.inj hstep
    exact attributed_step texts s a
  · intro s hreach a s' hcounted hstep
    obtain rfl := Option.some.inj hstep
    exact growing_step (Reach.finite hreach) hcounted

/-- How numbers and functions are written. -/
def plainTexts : Texts where
  ofNumber n := n.toText fun _ => js "NaN"
  ofInherited name := js "function " ++ name ++ js "() { [native code] }"

def noLimits : Limits := fun _ => none

def firstHour : Period := ⟨js "2026-03-02T06", by decide +kernel⟩

def cpuReport (amount : JsNumber) : Action :=
  .receive (js "A") (.object [(js "kind", .string (js "usage-report")), (js "resource", .string (js "cpuMs")),
    (js "amount", .number amount)]) firstHour 0

theorem quota_reports_small :
    Growing (machine plainTexts noLimits).init (step plainTexts (machine plainTexts noLimits).init (cpuReport (.ofNat 5))) := by
  refine (quota_reports plainTexts noLimits).2 _ .init (cpuReport (.ofNat 5)) _ ?_ rfl
  intro _ r _
  refine (if_neg (by decide +kernel)).mpr (Or.inr ⟨.ofNat 5, rfl, by decide +kernel, fun m hm => ?_⟩)
  obtain rfl : 0 = m := Tally.number.inj hm
  decide +kernel

/-- A report of less than nothing makes the usage fall. -/
theorem negative_report :
    ¬ ∀ (texts : Texts) (defaultLimits : Limits) (s : Authority),
      (machine texts defaultLimits).Reach (fun _ _ => True) s → ∀ a s',
        (machine texts defaultLimits).step s a = some s' → Attributed texts s a s' ∧ Growing s s' := by
  intro hall
  obtain ⟨-, hgrowing⟩ := hall plainTexts noLimits _ .init (cpuReport (.neg (.ofNat 1))) _ rfl
  obtain ⟨m, n, hm, hn, -, hle⟩ := hgrowing (js "A") firstHour .cpuMs
  have hafter : usageOf (step plainTexts (machine plainTexts noLimits).init (cpuReport (.neg (.ofNat 1)))).enforcer (js "A")
      firstHour .cpuMs = .number (.neg (.ofNat 1)) := by decide +kernel
  obtain rfl : 0 = m := Tally.number.inj hm
  obtain rfl := Tally.number.inj (hafter.symm.trans hn)
  exact absurd hle (by decide +kernel)

end runs

end Quotas
end BrowserMesh.Apps
