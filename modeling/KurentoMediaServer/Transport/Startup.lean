import KurentoMediaServer.Config.PropertyTree
import KurentoMediaServer.Transport.Registrar

/-! The constructor of `WebSocketTransport`: which servers it opens, with what, and the
registrar it makes. The registrar is told a URL made of the configuration, not of the
servers that have been opened, so the URL leads to a server only if the one it names is
up. Its path is let in unless it has a query. -/

namespace KurentoMediaServer.Transport

open Foundations Config

/-! ### Settings -/

/-- What boost makes of the text of a setting; none where it throws. -/
structure Translators where
  bool : String → Option Bool
  uint16 : String → Option ℕ
  uint : String → Option ℕ

/-- `config.get <T> (path, default)`: the default also stands in for a setting that does
not convert. -/
def getOr {α : Type} (read : String → Option α) (config : PTree) (path : String) (dflt : α) : α :=
  ((PTree.get config path).bind read).getD dflt

def DEFAULT_LOCAL_ADDRESS : String := "localhost"

def WEBSOCKET_IPV6_DEFAULT : Bool := true

def WEBSOCKET_PATH_DEFAULT : String := "kurento"

def WEBSOCKET_THREADS_DEFAULT : ℕ := 10

/-! ### The host -/

inductive Endpoint where
  | address (address : String) (port : ℕ)
  | v6 (port : ℕ)
  | v4 (port : ℕ)
  deriving DecidableEq

def Endpoint.port : Endpoint → ℕ
  | .address _ port | .v6 port | .v4 port => port

/-- What the constructor learns from its host. -/
structure Host where
  /-- `boost::asio::socket_base::max_connections`. -/
  maxConnections : ℕ
  /-- `boost::asio::ip::address::from_string` takes the text. -/
  isAddress : String → Bool
  /-- `boost::filesystem::exists`; none where it throws. -/
  fileExists : String → Option Bool
  /-- `listen` on the plain server returns. -/
  listens : Endpoint → Bool
  /-- `listen` on the secure server returns. -/
  secureListens : Endpoint → Bool

/-- How startup fails: with an exception of boost, or with one of the server's own. -/
inductive StartupError where
  | boost
  | own (what : String)
  deriving DecidableEq

structure Tls where
  certificateFile : String
  password : String
  deriving DecidableEq

structure Listener where
  endpoint : Endpoint
  backlog : ℕ
  tls : Option Tls
  deriving DecidableEq

structure WebSocketTransport where
  path : String
  nThreads : ℕ
  server : Option Listener
  secureServer : Option Listener
  registrar : Option Registrar.Config

variable (read : Translators) (host : Host) (config : PTree)

/-! ### The constructor -/

/-- The number of threads. It is converted from `uint` to `int` before it is checked. -/
def threadCount : ℕ :=
  match (PTree.get config "mediaServer.net.websocket.threads").bind read.uint with
  | some n => if n < 1 ∨ 2 ^ 31 ≤ n then WEBSOCKET_THREADS_DEFAULT else n
  | none => WEBSOCKET_THREADS_DEFAULT

/-- IPv6 if it is enabled and can be listened on, or else IPv4. -/
def listenAny (listens : Endpoint → Bool) (ipv6 : Bool) (port : ℕ) : Option Endpoint :=
  if ipv6 = true ∧ listens (.v6 port) = true then some (.v6 port)
  else if listens (.v4 port) then some (.v4 port)
  else none

def connqueue : ℕ := getOr read.uint config "mediaServer.net.websocket.connqueue" host.maxConnections

def initWebSocket : Except StartupError (Option Listener) :=
  let ipv6 := getOr read.bool config "mediaServer.net.websocket.ipv6" WEBSOCKET_IPV6_DEFAULT
  let port := getOr read.uint16 config "mediaServer.net.websocket.port" 0
  let listener (endpoint : Endpoint) : Listener := ⟨endpoint, connqueue read host config, none⟩
  if port = 0 then .ok none
  else match PTree.get config "mediaServer.net.websocket.address" with
    | some address =>
      if host.isAddress address then
        .ok (if host.listens (.address address port) then some (listener (.address address port))
          else none)
      else .error .boost
    | none => .ok ((listenAny host.listens ipv6 port).map listener)

/-- `is_relative` of boost's paths. Behind two slashes, but not three, stands the name of a
root, and only a slash after it makes the path absolute. -/
def isRelative (file : String) : Bool :=
  match file.toList with
  | '/' :: '/' :: '/' :: _ => false
  | '/' :: '/' :: name => '/' ∉ name
  | '/' :: _ => false
  | _ => true

/-- `operator/` of boost's paths. -/
def appendPath (dir file : String) : String :=
  if file = "" then dir
  else if dir = "" ∨ dir.toList.getLast? = some '/' ∨ file.toList.head? = some '/' then dir ++ file
  else dir ++ "/" ++ file

/-- The certificate file: a relative one is below the directory of the configuration. -/
def certificatePath (certificate : String) : Except StartupError String :=
  if isRelative certificate = true then
    match PTree.get config "configPath" with
    | some configPath => .ok (appendPath configPath certificate)
    | none => .error .boost
  else .ok certificate

def initSecureWebSocket : Except StartupError (Option Listener) :=
  let ipv6 := getOr read.bool config "mediaServer.net.websocket.ipv6" WEBSOCKET_IPV6_DEFAULT
  let securePort := getOr read.uint16 config "mediaServer.net.websocket.secure.port" 0
  let password := (PTree.get config "mediaServer.net.websocket.secure.password").getD ""
  if securePort = 0 then .ok none
  else match PTree.get config "mediaServer.net.websocket.secure.certificate" with
    | none => .ok none
    | some certificate =>
      match certificatePath config certificate with
      | .error e => .error e
      | .ok certificateFile =>
        match host.fileExists certificateFile with
        | none => .error .boost
        | some false => .ok none
        | some true => .ok ((listenAny host.secureListens ipv6 securePort).map fun endpoint =>
            ⟨endpoint, connqueue read host config, some ⟨certificateFile, password⟩⟩)

def initRegistrar (path : String) : Option Registrar.Config :=
  let registrarAddress := (PTree.get config "mediaServer.net.websocket.registrar.address").getD ""
  let localAddress :=
    (PTree.get config "mediaServer.net.websocket.registrar.localAddress").getD DEFAULT_LOCAL_ADDRESS
  let port := getOr read.uint16 config "mediaServer.net.websocket.port" 0
  let securePort := getOr read.uint16 config "mediaServer.net.websocket.secure.port" 0
  if registrarAddress ≠ "" ∧ localAddress ≠ "" then
    some ⟨registrarAddress, localAddress, port, securePort, path⟩
  else none

def WebSocketTransport.create : Except StartupError WebSocketTransport := do
  let path := (PTree.get config "mediaServer.net.websocket.path").getD WEBSOCKET_PATH_DEFAULT
  let server ← initWebSocket read host config
  let secureServer ← initSecureWebSocket read host config
  if server.isNone = true ∧ secureServer.isNone = true then
    throw (.own "Cannot open a WebSocket listener on the specified port (multiple KMS instances?)")
  return ⟨path, threadCount read config, server, secureServer, initRegistrar read config path⟩

/-! ### Opening a connection -/

/-- The path a client asks for: the resource up to its query, without the leading slash. -/
def requestedPath (resource : String) : String :=
  let resource := match resource.toList with
    | '/' :: rest => rest
    | resource => resource
  String.ofList (resource.takeWhile (· ≠ '?'))

/-- `openHandler`: the reason it closes the connection for, if it does. -/
def openHandler (path resource : String) : Option String :=
  if requestedPath resource ≠ path then some "Invalid path" else none

structure Url where
  secure : Bool
  host : String
  port : ℕ
  resource : String

def Url.text (u : Url) : String :=
  (if u.secure then "wss://" else "ws://") ++ u.host ++ ":" ++ toString u.port ++ u.resource

/-- A server of the transport listens on the port of the URL, with its protocol, and lets a
client with its resource in. -/
def WebSocketTransport.Serves (t : WebSocketTransport) (u : Url) : Prop :=
  (∃ l, (if u.secure then t.secureServer else t.server) = some l ∧ l.endpoint.port = u.port) ∧
    openHandler t.path u.resource = none

def announcedUrl (m : Json) : Option String :=
  match (m.member? "params").bind (·.member? "ws") with
  | some (.str url) => some url
  | _ => none

/-! ### What the constructor does -/

section Create
variable {read host config}

theorem listenAny_port {listens : Endpoint → Bool} {ipv6 : Bool} {port : ℕ} {e : Endpoint}
    (h : listenAny listens ipv6 port = some e) : e.port = port := by
  unfold listenAny at h
  split_ifs at h <;> cases h <;> rfl

theorem port_of_initWebSocket {l : Listener} (h : initWebSocket read host config = .ok (some l)) :
    l.endpoint.port = getOr read.uint16 config "mediaServer.net.websocket.port" 0 := by
  unfold initWebSocket at h
  dsimp only at h
  split_ifs at h
  · cases h
  · split at h
    · split_ifs at h <;> cases h
      rfl
    · obtain ⟨e, he, rfl⟩ := Option.map_eq_some_iff.mp (Except.ok.inj h)
      exact listenAny_port he

theorem port_of_initSecureWebSocket {l : Listener}
    (h : initSecureWebSocket read host config = .ok (some l)) :
    l.endpoint.port = getOr read.uint16 config "mediaServer.net.websocket.secure.port" 0 := by
  unfold initSecureWebSocket at h
  dsimp only at h
  split_ifs at h
  · cases h
  · split at h
    · cases h
    · split at h
      · cases h
      · split at h
        · cases h
        · cases h
        · obtain ⟨e, he, rfl⟩ := Option.map_eq_some_iff.mp (Except.ok.inj h)
          exact listenAny_port he

theorem certificate_of_initSecureWebSocket {l : Listener}
    (h : initSecureWebSocket read host config = .ok (some l)) : ∃ certificate tls,
      PTree.get config "mediaServer.net.websocket.secure.certificate" = some certificate ∧
      l.tls = some tls ∧ certificatePath config certificate = .ok tls.certificateFile := by
  unfold initSecureWebSocket at h
  dsimp only at h
  split_ifs at h
  · cases h
  · split at h
    · cases h
    · next certificate hc =>
      split at h
      · cases h
      · next certificateFile hf =>
        split at h
        · cases h
        · cases h
        · obtain ⟨e, -, rfl⟩ := Option.map_eq_some_iff.mp (Except.ok.inj h)
          exact ⟨certificate, _, hc, rfl, hf⟩

theorem initSecureWebSocket_of_port
    (h : getOr read.uint16 config "mediaServer.net.websocket.secure.port" 0 = 0) :
    initSecureWebSocket read host config = .ok none :=
  if_pos h

/-- The constructor returns when no server fails to be set up and one of them listens. -/
theorem create_eq_ok {t : WebSocketTransport} : WebSocketTransport.create read host config = .ok t ↔
    initWebSocket read host config = .ok t.server ∧
      initSecureWebSocket read host config = .ok t.secureServer ∧
      (t.server.isSome = true ∨ t.secureServer.isSome = true) ∧
      t.path = (PTree.get config "mediaServer.net.websocket.path").getD WEBSOCKET_PATH_DEFAULT ∧
      t.nThreads = threadCount read config ∧ t.registrar = initRegistrar read config t.path := by
  obtain ⟨path, nThreads, server, secureServer, registrar⟩ := t
  unfold WebSocketTransport.create
  rcases initWebSocket read host config with e | s
  · simp [bind, Except.bind]
  · rcases initSecureWebSocket read host config with e | s'
    · simp [bind, Except.bind]
    · simp only [bind, Except.bind]
      split_ifs with hn
      · constructor
        · exact fun h => by cases h
        · rintro ⟨hs, hs', h, -⟩
          cases hs
          cases hs'
          cases server <;> cases secureServer <;> simp_all
      · simp only [pure, Except.pure, Except.ok.injEq, WebSocketTransport.mk.injEq]
        constructor
        · rintro ⟨rfl, rfl, rfl, rfl, rfl⟩
          refine ⟨rfl, rfl, ?_, rfl, rfl, rfl⟩
          cases s <;> cases s' <;> simp_all
        · rintro ⟨rfl, rfl, -, rfl, rfl, rfl⟩
          exact ⟨rfl, rfl, rfl, rfl, rfl⟩

/-! ### Paths -/

/-- A client is let in with the path, and with anything for a query. -/
theorem openHandler_eq_none {path resource : String} : openHandler path resource = none ↔
    requestedPath resource = path := by
  unfold openHandler
  split_ifs with h
  · simpa using h
  · simpa using h

theorem requestedPath_slash (path : String) : requestedPath ("/" ++ path) =
    String.ofList (path.toList.takeWhile (· ≠ '?')) := by
  simp [requestedPath, String.toList_append]

/-- The path with a slash before it is let in if it has no query. -/
theorem openHandler_slash (path : String) :
    openHandler path ("/" ++ path) = none ↔ '?' ∉ path.toList := by
  rw [openHandler_eq_none, requestedPath_slash]
  constructor
  · intro h hq
    have hl := congrArg String.toList h
    rw [String.toList_ofList] at hl
    rw [← hl] at hq
    simpa using List.mem_takeWhile_imp hq
  · intro h
    have hl : path.toList.takeWhile (· ≠ '?') = path.toList := by
      refine List.takeWhile_eq_self_iff.mpr fun c hc => ?_
      simp only [ne_eq, decide_eq_true_eq]
      rintro rfl
      exact h hc
    rw [hl, String.ofList_toList]

end Create

/-! ### The URL that is registered -/

/-- The URL that `connectionOpen` makes of its configuration. -/
def registeredUrl (cfg : Registrar.Config) : Url where
  secure := decide (cfg.localSecurePort > 0)
  host := cfg.localAddress
  port := if cfg.localSecurePort > 0 then cfg.localSecurePort else cfg.localPort
  resource := "/" ++ cfg.path

theorem announcedUrl_registerRequest (cfg : Registrar.Config) :
    announcedUrl (Registrar.registerRequest cfg) = some (registeredUrl cfg).text := by
  have hurl : announcedUrl (Registrar.registerRequest cfg) = some (if cfg.localSecurePort > 0 then
      "wss://" ++ cfg.localAddress ++ ":" ++ toString cfg.localSecurePort ++ "/" ++ cfg.path
    else "ws://" ++ cfg.localAddress ++ ":" ++ toString cfg.localPort ++ "/" ++ cfg.path) := rfl
  rw [hurl, registeredUrl, Url.text]
  by_cases h : cfg.localSecurePort > 0 <;> simp [h, String.append_assoc]

theorem sent_of_run {cfg : Registrar.Config} {w w' : Registrar.WebSocketRegistrar}
    {es : List Registrar.Action} (hw : Registrar.start cfg = some w)
    (hrun : Run (Registrar.Step cfg) w es w') : ∀ m ∈ w'.sent, m = Registrar.registerRequest cfg := by
  refine hrun.invariant (motive := fun w => ∀ m ∈ w.sent, m = Registrar.registerRequest cfg) ?_ ?_
  · intro t a t' ht hstep m hm
    cases hstep
    case opens n sends _ _ _ =>
      cases sends
      · exact ht m hm
      · exact (List.mem_append.mp hm).elim (ht m) fun hm => List.mem_singleton.mp hm
    all_goals exact ht m hm
  · unfold Registrar.start at hw
    split_ifs at hw
    cases hw
    simp

section Registered
variable {read : Translators} {host : Host} {config : PTree} {t : WebSocketTransport}
  {cfg : Registrar.Config}

theorem registrar_eq (h : WebSocketTransport.create read host config = .ok t)
    (hr : t.registrar = some cfg) : cfg.path = t.path ∧
      cfg.localPort = getOr read.uint16 config "mediaServer.net.websocket.port" 0 ∧
      cfg.localSecurePort = getOr read.uint16 config "mediaServer.net.websocket.secure.port" 0 := by
  obtain ⟨-, -, -, -, -, hreg⟩ := create_eq_ok.mp h
  rw [hreg, initRegistrar] at hr
  split_ifs at hr
  cases hr
  exact ⟨rfl, rfl, rfl⟩

/-- Every message the registrar of a transport ever sends names one URL. A client that
opens it finds a server of the transport and is let in exactly when no secure port is
configured or the secure server is up, and the path has no question mark. -/
theorem registered_url_served (h : WebSocketTransport.create read host config = .ok t)
    (hr : t.registrar = some cfg) :
    (∀ {w w' : Registrar.WebSocketRegistrar} {es : List Registrar.Action},
      Registrar.start cfg = some w → Run (Registrar.Step cfg) w es w' →
        ∀ m ∈ w'.sent, announcedUrl m = some (registeredUrl cfg).text) ∧
      (t.Serves (registeredUrl cfg) ↔
        (cfg.localSecurePort = 0 ∨ t.secureServer.isSome = true) ∧ '?' ∉ t.path.toList) := by
  obtain ⟨hpath, hport, hsecure⟩ := registrar_eq h hr
  obtain ⟨hserver, hsecureServer, hsome, -⟩ := create_eq_ok.mp h
  refine ⟨fun hw hrun m hm => ?_, ?_⟩
  · rw [sent_of_run hw hrun m hm, announcedUrl_registerRequest]
  · refine and_congr ?_ (by rw [registeredUrl, hpath]; exact openHandler_slash t.path)
    by_cases hz : cfg.localSecurePort = 0
    · -- without a secure port there is only the plain server, which must be up
      rw [initSecureWebSocket_of_port (hsecure ▸ hz)] at hsecureServer
      obtain ⟨l, hl⟩ : ∃ l, t.server = some l := by
        rw [← Except.ok.inj hsecureServer] at hsome
        exact Option.isSome_iff_exists.mp (hsome.resolve_right (by simp))
      have hlport : l.endpoint.port = cfg.localPort := by
        rw [hport]
        exact port_of_initWebSocket (hl ▸ hserver)
      simp [registeredUrl, hz, hl, hlport]
    · have hpos : cfg.localSecurePort > 0 := by omega
      simp only [registeredUrl, hpos, hz, decide_true, if_true, false_or]
      constructor
      · rintro ⟨l, hl, -⟩
        simp [hl]
      · intro hup
        obtain ⟨l, hl⟩ := Option.isSome_iff_exists.mp hup
        refine ⟨l, hl, ?_⟩
        rw [hsecure]
        exact port_of_initSecureWebSocket (hl ▸ hsecureServer)

end Registered

/-- Numbers in decimal digits, and Booleans as words or digits. -/
def Translators.plain : Translators where
  bool s := if s = "true" ∨ s = "1" then some true else if s = "false" ∨ s = "0" then some false
    else none
  uint16 s := (decimal s).filter (· < 2 ^ 16)
  uint s := (decimal s).filter (· < 2 ^ 32)
where
  decimal (s : String) : Option ℕ :=
    if s.toList ≠ [] ∧ s.toList.all Char.isDigit then
      some (s.toList.foldl (fun n c => 10 * n + (c.toNat - '0'.toNat)) 0)
    else none

/-- A host with IPv4 only and no certificate. -/
def Host.plain : Host where
  maxConnections := 4096
  isAddress _ := true
  fileExists _ := some false
  listens
    | .v6 _ => false
    | _ => true
  secureListens _ := true

/-- A registrar and a secure port, without a certificate. -/
def uncertified : PTree :=
  let leaf (value : String) : PTree := .node value []
  .node "" [("mediaServer", .node "" [("net", .node "" [("websocket", .node "" [
    ("port", leaf "8888"),
    ("secure", .node "" [("port", leaf "8433")]),
    ("registrar", .node "" [("address", leaf "ws://registrar")])])])])]

/-- The server starts, and registers a URL that nobody serves. -/
theorem registered_url_served_uncertified : ∃ t cfg,
    WebSocketTransport.create .plain .plain uncertified = .ok t ∧ t.registrar = some cfg ∧
      t.server = some ⟨.v4 8888, 4096, none⟩ ∧
      (registeredUrl cfg).text = "wss://localhost:8433/kurento" ∧ ¬ t.Serves (registeredUrl cfg) := by
  obtain ⟨t, cfg, h, hr, hserver, hsecure, hport, htext⟩ : ∃ t cfg,
      WebSocketTransport.create .plain .plain uncertified = .ok t ∧ t.registrar = some cfg ∧
        t.server = some ⟨.v4 8888, 4096, none⟩ ∧ t.secureServer = none ∧ cfg.localSecurePort = 8433 ∧
        (registeredUrl cfg).text = "wss://localhost:8433/kurento" := ⟨_, _, rfl, rfl, rfl, rfl, rfl, rfl⟩
  refine ⟨t, cfg, h, hr, hserver, htext, fun hserves => ?_⟩
  have hiff := (registered_url_served h hr).2.mp hserves
  simp [hport, hsecure] at hiff

end KurentoMediaServer.Transport
