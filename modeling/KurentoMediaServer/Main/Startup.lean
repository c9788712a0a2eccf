import KurentoMediaServer.Config.ModulePlace
import KurentoMediaServer.Transport.Startup

/-! The start of the server, from its configuration file to its transport. The settings
are read below `mediaServer`, and the directory of the configuration for the certificate,
so no module file has a say in how the server starts. -/

namespace KurentoMediaServer.Main

open Foundations KeyedTree Config Transport

/-! ### Creating the transport -/

section Create
variable (read : Translators) (host : Host) (config : PTree)

/-- `TransportFactory::create_transport`. One factory is registered. -/
def createTransport : Except StartupError WebSocketTransport :=
  match PTree.getChildOptional config "mediaServer.net" with
  | none => .error .boost
  | some netConfig =>
    if PTree.size netConfig > 1 then .error (.own "Only one network interface can be configured")
    else match netConfig.children with
      | [] => .error (.own "No network interface is configured")
      | (name, _) :: _ =>
        if name = "websocket" then WebSocketTransport.create read host config
        else .error (.own "Configured network interface has not been registered")

end Create

/-! ### The server -/

/-- The conversions of the other settings, and what the server does without them. -/
structure Defaults (φ : Type) where
  long : String → Option ℤ
  float : String → Option φ
  /-- `MediaSet::getCollectorInterval ()`, in seconds. -/
  collectorInterval : ℤ
  DEFAULT_RESOURCE_LIMIT_PERCENT : φ

/-- What a server has been started with. -/
structure Started (φ : Type) where
  killResourceLimit : Option φ
  collectorInterval : ℤ
  disableRequestCache : Bool
  resourceLimitPercent : φ
  transport : WebSocketTransport

variable {φ : Type} (defaults : Defaults φ) (read : Translators) (host : Host)

/-- `main` between `loadConfig` and `start`, with the settings of `ServerMethods`. -/
def startServer (config : PTree) : Except StartupError (Started φ) := do
  let killResourceLimit := (PTree.get config "mediaServer.resources.killLimit").bind defaults.float
  let collectorInterval := getOr defaults.long config "mediaServer.resources.garbageCollectorPeriod"
    defaults.collectorInterval
  let disableRequestCache := getOr read.bool config "mediaServer.resources.disableRequestCache" false
  let resourceLimitPercent := getOr defaults.float config "mediaServer.resources.exceptionLimit"
    defaults.DEFAULT_RESOURCE_LIMIT_PERCENT
  let transport ← createTransport read host config
  return ⟨killResourceLimit, collectorInterval, disableRequestCache, resourceLimitPercent, transport⟩

/-! ### What it depends on -/

/-- The same outside `modules`. -/
def AgreeOutside (config config' : PTree) : Prop :=
  ∀ k p, k ≠ "modules" → walk (k :: p) config = walk (k :: p) config'

/-- The path begins at another key than `modules`. -/
def outside (path : String) : Bool := (steps path).head?.any (· ≠ "modules")

section Agree
variable {read host} {config config' : PTree} {path : String}

theorem AgreeOutside.child (h : AgreeOutside config config') (hp : outside path = true) :
    PTree.getChildOptional config path = PTree.getChildOptional config' path := by
  rw [PTree.getChildOptional, PTree.getChildOptional]
  unfold outside at hp
  cases hs : steps path with
  | nil => simp [hs] at hp
  | cons k p => exact h k p (by simpa [hs] using hp)

theorem AgreeOutside.get (h : AgreeOutside config config') (hp : outside path = true) :
    PTree.get config path = PTree.get config' path := by
  rw [PTree.get, PTree.get, h.child hp]

theorem AgreeOutside.getOr (h : AgreeOutside config config') (hp : outside path = true) {α : Type}
    (read : String → Option α) (dflt : α) : getOr read config path dflt = getOr read config' path dflt := by
  rw [Transport.getOr, Transport.getOr, h.get hp]

theorem AgreeOutside.create (h : AgreeOutside config config') :
    WebSocketTransport.create read host config = WebSocketTransport.create read host config' := by
  have hserver : initWebSocket read host config = initWebSocket read host config' := by
    simp (disch := decide) only [initWebSocket, connqueue, h.getOr, h.get]
  have hcertificate : certificatePath config = certificatePath config' := by
    funext certificate
    simp (disch := decide) only [certificatePath, h.get]
  have hsecure : initSecureWebSocket read host config = initSecureWebSocket read host config' := by
    simp (disch := decide) only [initSecureWebSocket, connqueue, hcertificate, h.getOr, h.get]
  have hregistrar : initRegistrar read config = initRegistrar read config' := by
    funext path
    simp (disch := decide) only [initRegistrar, h.getOr, h.get]
  have hthreads : threadCount read config = threadCount read config' := by
    simp (disch := decide) only [threadCount, h.get]
  simp (disch := decide) only [WebSocketTransport.create, hserver, hsecure, hregistrar, hthreads, h.get]

theorem AgreeOutside.startServer (h : AgreeOutside config config') :
    startServer defaults read host config = startServer defaults read host config' := by
  have htransport : createTransport read host config = createTransport read host config' := by
    simp (disch := decide) only [createTransport, h.child, h.create]
  simp (disch := decide) only [Main.startServer, htransport, h.getOr, h.get]

end Agree

theorem startServer_eq_ok {config : PTree} {st : Started φ}
    (h : startServer defaults read host config = .ok st) :
    WebSocketTransport.create read host config = .ok st.transport := by
  have htransport : createTransport read host config = .ok st.transport := by
    unfold startServer at h
    cases ht : createTransport read host config with
    | error e =>
      rw [ht] at h
      cases h
    | ok t =>
      rw [ht] at h
      cases h
      rfl
  unfold createTransport at htransport
  split at htransport
  · cases htransport
  · split_ifs at htransport
    split at htransport
    · cases htransport
    · split_ifs at htransport
      exact htransport

/-- Whatever module files there are, a server that has loaded its configuration starts as it
would with its main file alone: with the same servers, threads, registrar and limits, or
with the same failure. A relative certificate is looked for beside the main file. -/
theorem modules_leave_startup {fs : FileSystem} {config config' main : PTree} {file : ConfigFile}
    {modulesConfigPath : String} (hmain : readConfig file = .ok main)
    (h : loadConfig fs config file modulesConfigPath = .loaded config') :
    startServer defaults read host config' =
        startServer defaults read host (mainConfig config main file) ∧
      ∀ st, startServer defaults read host config' = .ok st → ∀ l,
        st.transport.secureServer = some l → ∃ certificate tls,
          PTree.get config' "mediaServer.net.websocket.secure.certificate" = some certificate ∧
          l.tls = some tls ∧ tls.certificateFile =
            if isRelative certificate = true then appendPath file.parentPath certificate
            else certificate := by
  have hagree : AgreeOutside config' (mainConfig config main file) := by
    intro k p hk
    unfold loadConfig loadFile at h
    rw [hmain] at h
    dsimp only [Except.map] at h
    split_ifs at h
    obtain rfl := Outcome.loaded.inj h
    rw [loadModulesConfig_eq]
    exact walk_loadModules hk p _ _
  refine ⟨hagree.startServer _, fun st hst l hl => ?_⟩
  obtain ⟨-, hsecure, -⟩ := create_eq_ok.mp (startServer_eq_ok _ _ _ hst)
  obtain ⟨certificate, tls, hget, htls, hfile⟩ := certificate_of_initSecureWebSocket (hl ▸ hsecure)
  refine ⟨certificate, tls, hget, htls, ?_⟩
  have hpath : PTree.get config' "configPath" = some file.parentPath := by
    rw [hagree.get (by decide), PTree.get, PTree.getChildOptional, plainKey_configPath.steps]
    exact get_mainConfig config main file
  unfold certificatePath at hfile
  split_ifs at hfile ⊢ with hrelative
  · rw [hpath] at hfile
    exact (Except.ok.inj hfile).symm
  · exact (Except.ok.inj hfile).symm

/-- A main file with a secure port and a certificate. -/
def certified : PTree := .node "" [("mediaServer", .node "" [("net", .node "" [("websocket",
  .node "" [("secure", .node "" [("port", .node "8433" []),
    ("certificate", .node "cert.pem" [])])])])])]

def certifiedFile : ConfigFile := ⟨"/etc/kurento", "kurento.conf.json", fun _ => .ok certified⟩

/-- A host that has the certificate. -/
def certifiedHost : Host :=
  { Host.plain with fileExists := fun file => some (file = "/etc/kurento/cert.pem") }

/-- Limits in per cent, of which none is configured. -/
def Defaults.plain : Defaults ℕ where
  long _ := none
  float _ := none
  collectorInterval := 240
  DEFAULT_RESOURCE_LIMIT_PERCENT := 80

/-- It is loaded with a module file, and the server starts with its certificate. -/
theorem modules_leave_startup_certified : ∃ config' st l,
    loadConfig sampleModules default certifiedFile "" = .loaded config' ∧
      startServer .plain .plain certifiedHost config' = .ok st ∧
      st.transport.secureServer = some l ∧ l.tls = some ⟨"/etc/kurento/cert.pem", ""⟩ := by
  obtain ⟨config', h⟩ : ∃ config', loadConfig sampleModules default certifiedFile "" =
      .loaded config' := by
    have hmain : loadFile default certifiedFile = .ok (.node "" [certified.children.head!,
        ("configPath", .node "/etc/kurento" [])], "kurento") := rfl
    have hfiles : allModuleFiles sampleModules certifiedFile "" = [(["kurento"], sampleModule)] := rfl
    have hmodule : loadFile default sampleModule = .ok (.node "" [("codec", .node "VP8" []),
        ("configPath", .node "/etc/kurento/modules/kurento" [])], "SdpEndpoint") := rfl
    have hkey : moduleKey ["kurento"] "SdpEndpoint" = "modules.kurento.SdpEndpoint" := rfl
    have hpath : fragments "modules.kurento.SdpEndpoint" = ["modules", "kurento", "SdpEndpoint"] :=
      rfl
    unfold loadConfig
    simp only [hmain, loadModulesConfig_eq, hfiles, loadModules, List.foldl_cons,
      List.foldl_nil, loadModule, mergeModule, hmodule, loadedConfig, PTree.putChild, hkey, hpath]
    exact ⟨_, if_pos (by decide)⟩
  obtain ⟨st, l, hst, hl, htls⟩ : ∃ st l, startServer .plain .plain certifiedHost
      (mainConfig default certified certifiedFile) = .ok st ∧ st.transport.secureServer = some l ∧
      l.tls = some ⟨"/etc/kurento/cert.pem", ""⟩ := ⟨_, _, rfl, rfl, rfl⟩
  obtain ⟨hstart, -⟩ := modules_leave_startup .plain .plain certifiedHost rfl h
  exact ⟨config', st, l, h, hstart.trans hst, hl, htls⟩

end KurentoMediaServer.Main
