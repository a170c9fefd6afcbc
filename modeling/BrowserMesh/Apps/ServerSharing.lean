import BrowserMesh.Js.Url
import BrowserMesh.Library.Transition

/-! # Sharing of local servers

A remote peer names an exposed server and a path, and `ServerSharing` fetches the path from the server.  The path is any
JSON value; its text is appended to `protocol://hostname:port`.  A path that starts with `/` stays on the server, but
`@host/` or the digit of a longer port leads elsewhere: every fetch is from the named server exactly as long as the paths
are harmless (`sharing_confined`). -/

namespace BrowserMesh.Apps.Sharing
open Js Transition

/-! ### The servers -/

structure ServerConfig where
  name : JsString
  port : JsNumber
  hostname : JsString
  protocol : JsString

/-- What a peer asks for. -/
structure ProxyRequest where
  name : Option Json
  method : Option Json
  path : Option Json
  headers : Option Json
  body : Option Json

/-- A call of `fetchFn`. -/
structure Fetch where
  url : JsString
  method : Json
  headers : Json
  body : Option Json

/-- What a request comes to before anything is awaited. -/
inductive Proxied where
  /-- `404` or `503`. -/
  | responded (status : ℕ)
  /-- The text of a value cannot be made; the service responds with `500`. -/
  | threw
  | fetching (fetch : Fetch)

structure ServerSharing where
  exposed : JsMap JsString ServerConfig
  /-- A `fetchFn` was given. -/
  fetches : Bool
  /-- The calls of `fetchFn` with the servers that the requests found, the latest first. -/
  fetched : List (ServerConfig × Fetch)

/-- `v || d`. -/
def orElse (v : Option Json) (d : Json) : Json := if v.any Json.truthy then v.getD d else d

section
variable (otherText : JsNumber → JsString)

/-- The text of the path, or `/`. -/
def pathText (path : Option Json) : Option JsString :=
  (orElse path (.string (js "/"))).toText (JsNumber.toText otherText)

def urlOf (config : ServerConfig) (path : Option Json) : Option JsString :=
  (pathText otherText path).map fun t =>
    config.protocol ++ js "://" ++ config.hostname ++ colon :: config.port.toText otherText ++ t

namespace ServerSharing
variable (s : ServerSharing)

def lookup : Option Json → Option ServerConfig
  | some (.string name) => s.exposed.get? name
  | _ => none

/-- `handleRequest`. -/
def handleRequest (request : ProxyRequest) : Proxied :=
  match s.lookup request.name with
  | none => if request.name.all Json.printable then .responded 404 else .threw
  | some config =>
      match urlOf otherText config request.path with
      | none => .threw
      | some url =>
          if s.fetches then
            .fetching ⟨url, orElse request.method (.string (js "GET")), orElse request.headers (.object []), request.body⟩
          else .responded 503

/-- `expose`, which throws when the port or the name is refused. -/
def expose (port name : Json) (hostname protocol : Option JsString) : Option ServerSharing :=
  match port, name with
  | .number port, .string name =>
      if port.le 0 = true ∨ name = [] then none
      else
        let config : ServerConfig := ⟨name, port, hostname.getD (js "localhost"), protocol.getD (js "http")⟩
        some { s with exposed := s.exposed.set name config }
  | _, _ => none

def unexpose (name : JsString) : ServerSharing := { s with exposed := s.exposed.delete name }

end ServerSharing

inductive SharingCall where
  | expose (port name : Json) (hostname protocol : Option JsString)
  | unexpose (name : JsString)
  | request (request : ProxyRequest)

def step (s : ServerSharing) : SharingCall → ServerSharing
  | .expose port name hostname protocol => (s.expose port name hostname protocol).getD s
  | .unexpose name => s.unexpose name
  | .request request =>
      match s.lookup request.name, s.handleRequest otherText request with
      | some config, .fetching fetch => { s with fetched := (config, fetch) :: s.fetched }
      | _, _ => s

def machine (fetches : Bool) : Machine ServerSharing SharingCall where
  init := ⟨.empty, fetches, []⟩
  step s call := some (step otherText s call)

end

/-! ### What is asked for -/

section
variable {H : Type} (parseHost : Bool → JsString → Option H) (otherText : JsNumber → JsString)

/-- The protocol, the host and the port of a server that can have a URL. -/
def IsLocation (config : ServerConfig) (l : Url.Location H) : Prop :=
  ∃ port, config.port = .ofNat port ∧ port ≤ 65535 ∧ l = Url.locationOf parseHost config.protocol config.hostname port

def Confined (config : ServerConfig) (url : JsString) : Prop :=
  ∀ l, Url.parse parseHost url = some l → IsLocation parseHost config l

def Servable (config : ServerConfig) : Prop :=
  ∃ port, config.port = .ofNat port ∧ Url.Writable parseHost config.protocol config.hostname port

/-- A path whose text is harmless after the origin of the server. -/
def HarmlessPath (config : ServerConfig) (path : Option Json) : Prop :=
  ∀ t port, pathText otherText path = some t → config.port = .ofNat port → port ≤ 65535 →
    Url.Harmless parseHost config.protocol config.hostname port t

def Exposes : SharingCall → Prop
  | .expose (.number port) (.string name) hostname protocol =>
      port.le 0 = true ∨ name = [] ∨
        Servable parseHost ⟨name, port, hostname.getD (js "localhost"), protocol.getD (js "http")⟩
  | _ => True

/-- The path of a request is harmless for the server that it finds. -/
def AsksHarmless (s : ServerSharing) (request : ProxyRequest) : Prop :=
  ∀ config, s.lookup request.name = some config → s.fetches = true → HarmlessPath parseHost otherText config request.path

/-- The owner exposes servers that can have a URL, and peers ask for harmless paths. -/
def Clean (s : ServerSharing) (call : SharingCall) : Prop :=
  Exposes parseHost call ∧ ∀ request, call = .request request → AsksHarmless parseHost otherText s request

end

/-! ### URLs of servers -/

section
variable {H : Type} {parseHost : Bool → JsString → Option H} {otherText : JsNumber → JsString} {config : ServerConfig}

theorem ofNat_injOn {m n : ℕ} (hm : m ≤ 65535) (hn : n ≤ 65535) (h : JsNumber.ofNat m = .ofNat n) : m = n := by
  have htext := congrArg (JsNumber.toText fun _ => []) h
  rw [JsNumber.toText_ofNat (by omega), JsNumber.toText_ofNat (by omega)] at htext
  exact decimal_injective htext

theorem isLocation_iff {port : ℕ} (hport : config.port = .ofNat port) (hrange : port ≤ 65535) {l : Url.Location H} :
    IsLocation parseHost config l ↔ l = Url.locationOf parseHost config.protocol config.hostname port := by
  constructor
  · rintro ⟨port', hport', hrange', hl⟩
    rwa [ofNat_injOn hrange' hrange (hport'.symm.trans hport)] at hl
  · exact fun hl => ⟨port, hport, hrange, hl⟩

theorem confined_iff (hs : Servable parseHost config) {path : Option Json} :
    (∀ url, urlOf otherText config path = some url → Confined parseHost config url) ↔
      HarmlessPath parseHost otherText config path := by
  obtain ⟨port, hport, hw⟩ := hs
  have hrange : port ≤ 65535 := hw.portRange.2
  have htext : config.port.toText otherText = decimal port := by
    rw [hport]
    exact JsNumber.toText_ofNat (by omega)
  have hurl : ∀ t, config.protocol ++ js "://" ++ config.hostname ++ colon :: config.port.toText otherText ++ t =
      Url.base config.protocol config.hostname port ++ t := by
    intro t
    rw [htext, Url.base]
  constructor
  · intro h t port' ht hport' hrange'
    rw [ofNat_injOn hrange' hrange (hport'.symm.trans hport), ← hw.names_iff]
    intro l hl
    rw [← isLocation_iff hport hrange]
    refine h (Url.base config.protocol config.hostname port ++ t) ?_ l hl
    rw [urlOf, ht, Option.map_some, hurl]
  · intro h url hsome l hl
    obtain ⟨t, ht, rfl⟩ := Option.map_eq_some_iff.mp hsome
    rw [hurl] at hl
    rw [isLocation_iff hport hrange]
    exact (hw.names_iff t).mpr (h t port ht hport hrange) l hl

theorem pathText_string {t : JsString} (h : t ≠ []) : pathText otherText (some (.string t)) = some t := by
  simp [pathText, orElse, Json.truthy, h, Json.toText]

theorem harmlessPath_of_slash (t : JsString) :
    HarmlessPath parseHost otherText config (some (.string (47 :: t))) := by
  intro t' port ht _ _
  rw [pathText_string (List.cons_ne_nil 47 t)] at ht
  rw [← Option.some.inj ht]
  exact Url.harmless_of_slash t

variable {request : ProxyRequest}

theorem handleRequest_eq_fetching {s : ServerSharing} {fetch : Fetch}
    (h : s.handleRequest otherText request = .fetching fetch) :
    ∃ config, s.lookup request.name = some config ∧ s.fetches = true ∧
      urlOf otherText config request.path = some fetch.url := by
  unfold ServerSharing.handleRequest at h
  split at h
  · split_ifs at h
  · rename_i config hconfig
    split at h
    · cases h
    · rename_i url hurl
      split_ifs at h with hfetches
      obtain rfl := Proxied.fetching.inj h
      exact ⟨config, hconfig, hfetches, hurl⟩

theorem handleRequest_of_url {s : ServerSharing} {url : JsString}
    (hconfig : s.lookup request.name = some config) (hfetches : s.fetches = true)
    (hurl : urlOf otherText config request.path = some url) :
    ∃ fetch, s.handleRequest otherText request = .fetching fetch ∧ fetch.url = url := by
  refine ⟨⟨url, orElse request.method (.string (js "GET")), orElse request.headers (.object []), request.body⟩, ?_, rfl⟩
  simp only [ServerSharing.handleRequest, hconfig, hurl, hfetches, if_true]

/-! ### Runs -/

def AllServable (parseHost : Bool → JsString → Option H) (s : ServerSharing) : Prop :=
  ∀ name config, s.exposed.get? name = some config → Servable parseHost config

theorem AllServable.lookup {s : ServerSharing} (h : AllServable parseHost s) {name : Option Json}
    (hconfig : s.lookup name = some config) : Servable parseHost config := by
  unfold ServerSharing.lookup at hconfig
  split at hconfig
  · exact h _ _ hconfig
  · cases hconfig

theorem expose_eq_some {s s' : ServerSharing} {port name : Json} {hostname protocol : Option JsString}
    (h : s.expose port name hostname protocol = some s') :
    ∃ p n, port = .number p ∧ name = .string n ∧ ¬ (p.le 0 = true ∨ n = []) ∧ s' = { s with
      exposed := s.exposed.set n ⟨n, p, hostname.getD (js "localhost"), protocol.getD (js "http")⟩ } := by
  unfold ServerSharing.expose at h
  split at h
  · rename_i p n
    split_ifs at h with hrefused
    exact ⟨p, n, rfl, rfl, hrefused, (Option.some.inj h).symm⟩
  · cases h

theorem allServable_step {s : ServerSharing} {call : SharingCall} (h : AllServable parseHost s)
    (hcall : Exposes parseHost call) : AllServable parseHost (step otherText s call) := by
  cases call with
  | expose port name hostname protocol =>
      rw [step]
      cases hexpose : s.expose port name hostname protocol with
      | none => exact h
      | some s' =>
          obtain ⟨p, n, rfl, rfl, haccepted, rfl⟩ := expose_eq_some hexpose
          intro name' config hget
          rw [Option.getD_some, JsMap.get?_set] at hget
          split_ifs at hget with hname
          · obtain rfl := Option.some.inj hget
            exact (or_assoc.mpr hcall).resolve_left haccepted
          · exact h name' config hget
  | unexpose name =>
      intro name' config hget
      rw [step, ServerSharing.unexpose, JsMap.get?_delete] at hget
      split_ifs at hget with hname
      exact h name' config hget
  | request request =>
      rw [step]
      split
      · exact h
      · exact h

theorem mem_fetched_step {s : ServerSharing} {call : SharingCall} {x : ServerConfig × Fetch}
    (hx : x ∈ (step otherText s call).fetched) :
    x ∈ s.fetched ∨ ∃ request, call = .request request ∧ s.lookup request.name = some x.1 ∧
      s.handleRequest otherText request = .fetching x.2 := by
  cases call with
  | expose port name hostname protocol =>
      rw [step] at hx
      cases hexpose : s.expose port name hostname protocol with
      | none =>
          rw [hexpose] at hx
          exact Or.inl hx
      | some s' =>
          rw [hexpose] at hx
          obtain ⟨p, n, _, _, _, rfl⟩ := expose_eq_some hexpose
          exact Or.inl hx
  | unexpose name => exact Or.inl hx
  | request request =>
      rw [step] at hx
      split at hx
      · rename_i config fetch hconfig hfetch
        rcases List.mem_cons.mp hx with rfl | hx
        · exact Or.inr ⟨request, rfl, hconfig, hfetch⟩
        · exact Or.inl hx
      · exact Or.inl hx

variable {fetches : Bool}

theorem allServable_of_reach {s : ServerSharing}
    (h : (machine otherText fetches).Reach (fun _ call => Exposes parseHost call) s) : AllServable parseHost s := by
  refine h.invariant (I := AllServable parseHost) (fun name config hget => by cases hget) fun s call s' hs hcall hs' => ?_
  obtain rfl := Option.some.inj hs'
  exact allServable_step hs hcall

/-- A request that finds a servable server and asks for a harmless path fetches from the server, and no other. -/
theorem asksHarmless_iff {s : ServerSharing} (h : AllServable parseHost s) :
    (∀ config fetch, s.lookup request.name = some config → s.handleRequest otherText request = .fetching fetch →
      Confined parseHost config fetch.url) ↔ AsksHarmless parseHost otherText s request := by
  constructor
  · intro hconfined config hconfig hfetches
    refine (confined_iff (h.lookup hconfig)).mp fun url hurl => ?_
    obtain ⟨fetch, hfetch, rfl⟩ := handleRequest_of_url hconfig hfetches hurl
    exact hconfined config fetch hconfig hfetch
  · intro hasks config fetch hconfig hfetch
    obtain ⟨config', hconfig', hfetches, hurl⟩ := handleRequest_eq_fetching hfetch
    obtain rfl := Option.some.inj (hconfig.symm.trans hconfig')
    exact (confined_iff (h.lookup hconfig)).mpr (hasks config hconfig hfetches) _ hurl

end

/-! ### Main result -/

/-- In every run of clean calls every fetch is from the server that was exposed under the requested name; and a request in
any run is confined to its server exactly when its path is harmless. -/
theorem sharing_confined {H : Type} (parseHost : Bool → JsString → Option H) (otherText : JsNumber → JsString)
    (fetches : Bool) :
    (∀ s, (machine otherText fetches).Reach (Clean parseHost otherText) s →
      ∀ x ∈ s.fetched, Confined parseHost x.1 x.2.url) ∧
    ∀ s, (machine otherText fetches).Reach (fun _ call => Exposes parseHost call) s → ∀ request,
      (∀ config fetch, s.lookup request.name = some config → s.handleRequest otherText request = .fetching fetch →
        Confined parseHost config fetch.url) ↔ AsksHarmless parseHost otherText s request := by
  refine ⟨fun s hs => ?_, fun s hs request => asksHarmless_iff (allServable_of_reach hs)⟩
  have hinv : AllServable parseHost s ∧ ∀ x ∈ s.fetched, Confined parseHost x.1 x.2.url := by
    refine hs.invariant (I := fun s => AllServable parseHost s ∧ ∀ x ∈ s.fetched, Confined parseHost x.1 x.2.url)
      ⟨fun name config hget => (by cases hget), fun x hx => absurd hx List.not_mem_nil⟩ fun s call s' hI hcall hs' => ?_
    obtain rfl := Option.some.inj hs'
    refine ⟨allServable_step hI.1 hcall.1, fun x hx => ?_⟩
    rcases mem_fetched_step hx with hx | ⟨request, rfl, hconfig, hfetch⟩
    · exact hI.2 x hx
    · exact (asksHarmless_iff hI.1).mpr (hcall.2 request rfl) x.1 x.2 hconfig hfetch
  exact hinv.2

/-- `expose(3000, 'app')`. -/
def exposeApp : SharingCall := .expose (.number (.ofNat 3000)) (.string (js "app")) none none

/-- A request for a path of `app`. -/
def requestApp (path : JsString) : ProxyRequest := ⟨some (.string (js "app")), none, some (.string path), none, none⟩

def appConfig : ServerConfig := ⟨js "app", .ofNat 3000, js "localhost", js "http"⟩

/-- The state in which `app` is exposed and nothing was fetched. -/
def withApp : ServerSharing := ⟨JsMap.empty.set (js "app") appConfig, true, []⟩

theorem writable_app : Url.Writable (fun _ host => some host) (js "http") (js "localhost") 3000 where
  scheme := by decide +kernel
  notFile := by decide +kernel
  hostChars := by decide +kernel
  hostColons := by decide +kernel
  hostParses := by decide +kernel
  portRange := by decide

theorem port_app : appConfig.port = .ofNat 3000 := by
  unfold appConfig
  dsimp only

theorem servable_app : Servable (fun _ host => some host) appConfig := by
  refine ⟨3000, port_app, ?_⟩
  unfold appConfig
  dsimp only
  exact writable_app

theorem exposes_app : Exposes (fun _ host => some host) exposeApp := by
  unfold Exposes exposeApp
  exact Or.inr (Or.inr servable_app)

theorem step_exposeApp (otherText : JsNumber → JsString) : step otherText ⟨.empty, true, []⟩ exposeApp = withApp := by
  have hport : ¬ (JsNumber.le (.ofNat 3000) 0 = true ∨ js "app" = []) := by decide +kernel
  simp only [step, exposeApp, ServerSharing.expose, if_neg hport]
  rfl

/-- The path `/x` is fetched from the server. -/
theorem sharing_confined_run : ∃ s : ServerSharing, s.fetched.map (fun x => x.2.url) = [js "http://localhost:3000/x"] ∧
    ∀ x ∈ s.fetched, Confined (fun _ host => some host) x.1 x.2.url := by
  have hexposed : (machine (fun _ => []) true).Reach (Clean (fun _ host => some host) fun _ => []) withApp :=
    .step .init ⟨exposes_app, fun request heq => by cases heq⟩ (congrArg some (step_exposeApp fun _ => []))
  have hclean : Clean (fun _ host => some host) (fun _ => []) withApp (.request (requestApp (47 :: js "x"))) := by
    refine ⟨trivial, fun request heq config _ _ => ?_⟩
    rw [← SharingCall.request.inj heq]
    exact harmlessPath_of_slash (js "x")
  have hfetched : (machine (fun _ => []) true).Reach (Clean (fun _ host => some host) fun _ => [])
      (step (fun _ => []) withApp (.request (requestApp (47 :: js "x")))) := .step hexposed hclean rfl
  exact ⟨_, by decide +kernel, (sharing_confined (fun _ host => some host) (fun _ => []) true).1 _ hfetched⟩

/-- What the URL of a request for a path of `app` names. -/
def namedBy (path : JsString) : Option (Url.Location JsString) :=
  match withApp.handleRequest (fun _ => []) (requestApp path) with
  | .fetching fetch => Url.parse (fun _ host => some host) fetch.url
  | _ => none

theorem namedBy_eq_some {path : JsString} {l : Url.Location JsString} (h : namedBy path = some l) :
    ∃ fetch, withApp.handleRequest (fun _ => []) (requestApp path) = .fetching fetch ∧
      Url.parse (fun _ host => some host) fetch.url = some l := by
  unfold namedBy at h
  split at h
  · rename_i fetch hfetch
    exact ⟨fetch, hfetch, h⟩
  · cases h

/-- The path `@evil/` makes the server a user name, and the path `0/` makes the port another. -/
theorem sharing_escapes : namedBy (js "/x") = some ⟨js "http", some (js "localhost"), some 3000⟩ ∧
    namedBy (js "@evil/") = some ⟨js "http", some (js "evil"), none⟩ ∧
    namedBy (js "0/") = some ⟨js "http", some (js "localhost"), some 30000⟩ ∧
    (machine (fun _ => []) true).Reach (fun _ _ => True) withApp ∧
    ∃ fetch, withApp.lookup (requestApp (js "@evil/")).name = some appConfig ∧
      withApp.handleRequest (fun _ => []) (requestApp (js "@evil/")) = .fetching fetch ∧
      ¬ Confined (fun _ host => some host) appConfig fetch.url := by
  have hevil : namedBy (js "@evil/") = some ⟨js "http", some (js "evil"), none⟩ := by decide +kernel
  obtain ⟨fetch, hfetch, hparse⟩ := namedBy_eq_some hevil
  have hreach : (machine (fun _ => []) true).Reach (fun _ _ => True) withApp :=
    .step .init trivial (congrArg some (step_exposeApp fun _ => []))
  refine ⟨by decide +kernel, hevil, by decide +kernel, hreach, fetch, rfl, hfetch, fun h => ?_⟩
  have hhost := congrArg Url.Location.host ((isLocation_iff port_app (by decide)).mp (h _ hparse))
  exact absurd hhost (by decide +kernel)

end BrowserMesh.Apps.Sharing
