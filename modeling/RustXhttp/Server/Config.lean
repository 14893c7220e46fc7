import RustXhttp.Lib.Exec
import RustXhttp.Lib.Utf8
import RustXhttp.Origin.Directory
import RustXhttp.Origin.Handle
import RustXhttp.Vless.Addons

/-!
# The configuration (`src/config.rs`)

`serde_json` reads a `JsonConfig`, with defaults for the fields that are left out, and
`Config.tryFrom` checks it and makes the configuration that the server runs with. The
deserialisation is a parameter. Texts are their bytes; the numbers are only compared and copied, so
they are not bounded here. A debug format in a message is kept as the value that it shows.

- **What each check accepts**: `validateAcme_ok`, `validateServer_ok`, `validateFlows_ok`; what the
  checks that also change their setting let through: `parseTls_ok`, `normalizeXhttp_ok`,
  `validateFallback_ok`.
- `tryFrom_ok`: a configuration that is accepted is valid (`Config.Valid`), and its users are the
  clients of the one inbound.
- `tryFrom_defaults`, `validateAcme_defaults`: the defaults are accepted.
-/

namespace Xhttp.Server

open Http (PathBuf UplinkDataPlacement)
open Vless (xrv)

/-! ## Errors -/

/-- A piece of a message: a text, or a value in its debug format. -/
inductive Fragment where
  | text (s : String)
  | debug (value : Bytes)
  deriving DecidableEq

inductive ConfigError where
  | json (message : Bytes)
  | invalid (message : List Fragment)
  deriving DecidableEq

def invalid (s : String) : ConfigError := .invalid [.text s]

/-! ## What is deserialised -/

structure UserConfig where
  id : ByteArr 16
  email : Str
  flow : Str
  deriving DecidableEq

inductive IpAddr where
  | v4 (octets : ByteArr 4)
  | v6 (octets : ByteArr 16)
  deriving DecidableEq

/-- `0.0.0.0`. -/
def unspecified : IpAddr := .v4 (zeros 4)

/-- Without the flow and the scope of IPv6. -/
structure SocketAddr where
  ip : IpAddr
  port : UInt16
  deriving DecidableEq

structure AcmeConfig where
  domains : List Bytes
  email : Bytes
  directoryUrl : Bytes := ascii "https://acme-v02.api.letsencrypt.org/directory"
  caCertificateFile : Option PathBuf := none
  challengeListen : SocketAddr := ⟨unspecified, 80⟩
  cacheDir : PathBuf := [ascii "var", ascii "lib", ascii "rust-xhttp", ascii "acme"]
  renewBeforeDays : Nat := 30
  renewCheckHours : Nat := 12
  acceptTerms : Bool := false
  deriving DecidableEq

structure TlsCertificateConfig where
  certificateFile : PathBuf
  keyFile : PathBuf

structure TlsSettings where
  alpn : List Bytes := [ascii "h2", ascii "http/1.1"]
  certificates : List TlsCertificateConfig := []
  acme : Option AcmeConfig := none

structure XhttpSettings where
  path : Bytes
  host : Bytes := []
  scMaxEachPostBytes : Nat := 1000000
  scMaxBufferedPosts : Nat := 30
  sessionGraceSeconds : Nat := 30
  noSseHeader : Bool := false
  serverMaxHeaderBytes : Nat := 8192
  xPaddingBytes : Bytes := ascii "100-1000"
  uplinkDataPlacement : UplinkDataPlacement := .body
  uplinkDataKey : Bytes := []

structure StreamSettings where
  network : Bytes
  security : Bytes := ascii "none"
  tlsSettings : Option TlsSettings := none
  xhttpSettings : XhttpSettings

structure VlessInboundSettings where
  clients : List UserConfig
  decryption : Bytes := []

structure InboundConfig where
  tag : Bytes := []
  listen : IpAddr := unspecified
  port : UInt16
  protocol : Bytes
  settings : VlessInboundSettings
  streamSettings : StreamSettings

structure LogConfig where
  loglevel : Bytes := ascii "info"

structure Limits where
  maxSessions : Nat := 65536
  maxPendingPacketsPerSession : Nat := 30
  maxPendingBytesPerSession : Nat := 16 * 1024 * 1024
  globalBufferBytes : Nat := 1024 * 1024 * 1024
  maxConcurrentTargetConns : Nat := 100000
  handshakeTimeoutSeconds : Nat := 10
  targetConnectSeconds : Nat := 10
  udpAssociationIdleSeconds : Nat := 60

structure ServerConfig where
  workers : Nat := 0
  tcpNodelay : Bool := true
  reusePort : Bool := true
  backlog : Int := 4096
  tcpKeepaliveSeconds : Nat := 300
  gracefulShutdownSeconds : Nat := 30
  limits : Limits := {}

inductive FallbackMode where
  | builtin | directory
  deriving DecidableEq

structure SiteConfig where
  seed : Bytes := []
  title : Bytes := []
  author : Bytes := []
  description : Bytes := []
  language : Bytes := []

structure FallbackConfig where
  mode : FallbackMode := .builtin
  dist : Option PathBuf := none
  index : Bytes := ascii "index.html"
  notFound : Option Bytes := none
  maxFileBytes : Nat := 8 * 1024 * 1024
  maxTotalBytes : Nat := 128 * 1024 * 1024
  site : SiteConfig := {}

structure JsonConfig where
  log : LogConfig := {}
  inbounds : List InboundConfig
  server : ServerConfig := {}
  fallback : FallbackConfig := {}

/-! ## What the server runs with -/

structure ListenConfig where
  addr : SocketAddr
  workers : Nat
  tcpNodelay : Bool
  reusePort : Bool
  backlog : Int
  tcpKeepaliveSecs : Nat
  gracefulShutdownSecs : Nat

structure TlsConfig where
  cert : PathBuf
  key : PathBuf
  alpn : List Bytes
  acme : Option AcmeConfig

structure XhttpConfig where
  path : Bytes
  host : Bytes
  maxEachPostBytes : Nat
  maxBufferedPosts : Nat
  sessionGraceSecs : Nat
  sseHeader : Bool
  maxHeaderBytes : Nat
  paddingFrom : Nat
  paddingTo : Nat
  uplinkDataPlacement : UplinkDataPlacement
  uplinkDataKey : Bytes

structure VlessConfig where
  users : List UserConfig
  decryption : Bytes

structure Observability where
  log : Bytes

structure Config where
  listen : ListenConfig
  tls : Option TlsConfig
  xhttp : XhttpConfig
  vless : VlessConfig
  limits : Limits
  observability : Observability
  fallback : FallbackConfig

/-! ## The checks -/

/-- A name that `validate_acme` takes for a DNS name: with a dot, no wildcard, and none of
`/`, `:`, space, tab and line feed. -/
def dnsName (domain : Bytes) : Bool :=
  domain != [] && domain.all (· < 128) && !(ascii "*.").isPrefixOf domain &&
    domain.all (fun b => !(ascii "/: \t\n").contains b) && domain.contains 46

def validateDomains : List Bytes → Except ConfigError Unit
  | [] => .ok ()
  | domain :: domains => do
    rejectIf (dnsName domain = false)
      (.invalid [.text "invalid HTTP-01 ACME DNS name ", .debug domain])
    validateDomains domains

def validateAcme (acme : AcmeConfig) : Except ConfigError Unit := do
  rejectIf (acme.acceptTerms = false) (invalid "tlsSettings.acme.acceptTerms must be true")
  rejectIf (acme.domains = []) (invalid "tlsSettings.acme.domains must be non-empty")
  rejectIf (acme.challengeListen.port = 0)
    (invalid "tlsSettings.acme.challengeListen port must be non-zero")
  validateDomains acme.domains
  rejectIf (acme.email.contains 64 = false)
    (invalid "tlsSettings.acme.email must be a valid contact address")
  rejectIf ((ascii "https://").isPrefixOf acme.directoryUrl = false)
    (invalid "tlsSettings.acme.directoryUrl must use https")
  rejectIf (acme.renewBeforeDays = 0 ∨ acme.renewBeforeDays ≥ 90)
    (invalid "tlsSettings.acme.renewBeforeDays must be between 1 and 89")
  rejectIf (acme.renewCheckHours = 0)
    (invalid "tlsSettings.acme.renewCheckHours must be non-zero")

/-- The certificate of the settings. -/
def certificateSource (settings : TlsSettings) : Except ConfigError TlsConfig :=
  match settings.certificates, settings.acme with
  | [manual], none => .ok ⟨manual.certificateFile, manual.keyFile, settings.alpn, none⟩
  | [], some acme => do
    validateAcme acme
    return ⟨acme.cacheDir ++ [ascii "current", ascii "certificate.pem"],
      acme.cacheDir ++ [ascii "current", ascii "private-key.pem"], settings.alpn, some acme⟩
  | _, _ => .error
    (invalid "tlsSettings requires exactly one manual certificate or one acme object")

/-- A protocol that the server speaks. -/
def knownAlpn (value : Bytes) : Bool := value == ascii "h2" || value == ascii "http/1.1"

def parseTls (stream : StreamSettings) : Except ConfigError (Option TlsConfig) :=
  let security := lowercase stream.security
  if security = [] ∨ security = ascii "none" then do
    rejectIf stream.tlsSettings.isSome
      (invalid "tlsSettings requires streamSettings.security = \"tls\"")
    return none
  else if security = ascii "tls" then
    match stream.tlsSettings with
    | none => .error (invalid "streamSettings.security = \"tls\" requires tlsSettings")
    | some settings => do
      rejectIf (settings.alpn = [] ∨ settings.alpn.all knownAlpn = false)
        (invalid "tlsSettings.alpn must contain only h2 and/or http/1.1")
      return some (← certificateSource settings)
  else .error (.invalid [.text "unsupported streamSettings.security ", .debug security])

/-- The characters of `char::is_whitespace`, in UTF-8. -/
def whitespace : List Bytes :=
  [[9], [10], [11], [12], [13], [32], [0xC2, 0x85], [0xC2, 0xA0], [0xE1, 0x9A, 0x80]] ++
    (List.range 11).map (fun i => [0xE2, 0x80, 0x80 + UInt8.ofNat i]) ++
    [[0xE2, 0x80, 0xA8], [0xE2, 0x80, 0xA9], [0xE2, 0x80, 0xAF], [0xE2, 0x81, 0x9F],
      [0xE3, 0x80, 0x80]]

/-- At most `n` of the characters are removed. -/
def trimStart : Nat → Bytes → Bytes
  | 0, s => s
  | n + 1, s =>
    match whitespace.find? (·.isPrefixOf s) with
    | some c => trimStart n (s.drop c.length)
    | none => s

def trimEnd : Nat → Bytes → Bytes
  | 0, s => s
  | n + 1, s =>
    match whitespace.find? (·.isSuffixOf s) with
    | some c => trimEnd n (s.take (s.length - c.length))
    | none => s

/-- `str::trim`. -/
def trim (s : Bytes) : Bytes := trimEnd s.length (trimStart s.length s)

/-- One end of the range. -/
def parseEnd (value part : Bytes) : Except ConfigError Nat :=
  match parseU32 (trim part) with
  | some n => .ok n
  | none => .error (.invalid [.text "invalid xPaddingBytes range ", .debug value])

def parseRange (value : Bytes) : Except ConfigError (Nat × Nat) := do
  let (lo, hi) := (splitOnce 45 value).getD (value, value)
  let lo ← parseEnd value lo
  let hi ← parseEnd value hi
  rejectIf (lo = 0 ∨ lo > hi) (invalid "xPaddingBytes must satisfy 0 < minimum <= maximum")
  return (lo, hi)

def parseXhttp (raw : XhttpSettings) : Except ConfigError XhttpConfig := do
  let (paddingFrom, paddingTo) ← parseRange raw.xPaddingBytes
  return {
    path := raw.path
    host := raw.host
    maxEachPostBytes := raw.scMaxEachPostBytes
    maxBufferedPosts := raw.scMaxBufferedPosts
    sessionGraceSecs := raw.sessionGraceSeconds
    sseHeader := !raw.noSseHeader
    maxHeaderBytes := raw.serverMaxHeaderBytes
    paddingFrom
    paddingTo
    uplinkDataPlacement := raw.uplinkDataPlacement
    uplinkDataKey := raw.uplinkDataKey }

/-- A slash at both ends. -/
def normalizePath (path : Bytes) : Bytes :=
  let path := if path = [] ∨ path.head? ≠ some 47 then 47 :: path else path
  if path.getLast? = some 47 then path else path ++ [47]

def normalizeXhttp (xhttp : XhttpConfig) : Except ConfigError XhttpConfig := do
  let xhttp := { xhttp with path := normalizePath xhttp.path }
  rejectIf (xhttp.maxEachPostBytes = 0 ∨ xhttp.maxBufferedPosts = 0)
    (invalid "XHTTP upload and buffered-post limits must be non-zero")
  rejectIf (xhttp.uplinkDataPlacement ≠ .body ∧ xhttp.uplinkDataKey = [])
    (invalid "xhttpSettings.uplinkDataKey is required for non-body placement")
  return xhttp

def validateServer (server : ServerConfig) : Except ConfigError Unit := do
  rejectIf (server.backlog < 1) (invalid "server.backlog must be greater than zero")
  rejectIf (server.gracefulShutdownSeconds = 0 ∨ server.gracefulShutdownSeconds > 300)
    (invalid "server.gracefulShutdownSeconds must be between 1 and 300")
  rejectIf (server.limits.handshakeTimeoutSeconds = 0 ∨ server.limits.targetConnectSeconds = 0 ∨
      server.limits.maxSessions = 0 ∨ server.limits.maxConcurrentTargetConns = 0 ∨
      server.limits.globalBufferBytes = 0)
    (invalid <| "server limits for sessions, buffers, connections, and timeouts " ++
      "must be non-zero")

def validateFallback (fallback : FallbackConfig) (xhttp : XhttpConfig) :
    Except ConfigError FallbackConfig := do
  rejectIf (fallback.index = [] ∨ 47 ∈ fallback.index ∨ 92 ∈ fallback.index ∨
      fallback.index = ascii "." ∨ fallback.index = ascii "..")
    (invalid "fallback.index must be a single safe file name")
  rejectIf (fallback.maxFileBytes = 0 ∨ fallback.maxTotalBytes < fallback.maxFileBytes)
    (invalid "fallback byte limits must be non-zero and maxTotalBytes >= maxFileBytes")
  rejectIf (fallback.mode = .builtin ∧ fallback.dist.isSome)
    (invalid "fallback.dist is only valid when mode is \"directory\"")
  rejectIf (fallback.mode = .directory ∧ fallback.dist.isNone)
    (invalid "fallback.mode = \"directory\" requires fallback.dist")
  let seed := if fallback.site.seed ≠ [] then fallback.site.seed
    else if xhttp.host = [] then xhttp.path else xhttp.host
  return { fallback with site := { fallback.site with seed } }

def validateFlows : List UserConfig → Except ConfigError Unit
  | [] => .ok ()
  | user :: users => do
    rejectIf (user.flow.val ≠ [] ∧ user.flow.val ≠ xrv)
      (.invalid [.text "unsupported flow ", .debug user.flow.val,
        .text "; expected \"\" or \"xtls-rprx-vision\""])
    validateFlows users

/-- `try_from`, after the check that there is one inbound. -/
def Config.fromInbound (raw : JsonConfig) (inbound : InboundConfig) :
    Except ConfigError Config := do
  rejectIf (eqIgnoreAsciiCase inbound.protocol (ascii "vless") = false)
    (.invalid [.text "inbound ", .debug inbound.tag, .text " uses unsupported protocol ",
      .debug inbound.protocol, .text "; expected \"vless\""])
  rejectIf (eqIgnoreAsciiCase inbound.streamSettings.network (ascii "xhttp") = false)
    (invalid "streamSettings.network must be \"xhttp\"")
  rejectIf (inbound.port = 0) (invalid "inbound port must be non-zero")
  let tls ← parseTls inbound.streamSettings
  rejectIf ((tls.bind (·.acme)).any (·.challengeListen.port == inbound.port))
    (invalid "ACME challengeListen and the TLS inbound cannot use the same TCP port")
  let xhttp ← parseXhttp inbound.streamSettings.xhttpSettings
  rejectIf (inbound.settings.clients = [])
    (invalid "inbounds[0].settings.clients must be non-empty")
  validateFlows inbound.settings.clients
  let xhttp ← normalizeXhttp xhttp
  validateServer raw.server
  let fallback ← validateFallback raw.fallback xhttp
  return {
    listen := {
      addr := ⟨inbound.listen, inbound.port⟩
      workers := raw.server.workers
      tcpNodelay := raw.server.tcpNodelay
      reusePort := raw.server.reusePort
      backlog := raw.server.backlog
      tcpKeepaliveSecs := raw.server.tcpKeepaliveSeconds
      gracefulShutdownSecs := raw.server.gracefulShutdownSeconds }
    tls
    xhttp
    vless := ⟨inbound.settings.clients, inbound.settings.decryption⟩
    limits := raw.server.limits
    observability := ⟨raw.log.loglevel⟩
    fallback }

def Config.tryFrom (raw : JsonConfig) : Except ConfigError Config :=
  match raw.inbounds with
  | [inbound] => fromInbound raw inbound
  | _ => .error (invalid "exactly one VLESS/XHTTP inbound is supported")

/-- `from_json_str`, where `deserialize` is `serde_json::from_str`. -/
def Config.fromJsonStr (deserialize : Bytes → Except Bytes JsonConfig) (source : Bytes) :
    Except ConfigError Config :=
  match deserialize source with
  | .error e => .error (.json e)
  | .ok raw => tryFrom raw

/-! ## What the checks accept -/

structure AcmeConfig.Valid (acme : AcmeConfig) : Prop where
  acceptTerms : acme.acceptTerms = true
  domains : acme.domains ≠ []
  challengePort : acme.challengeListen.port ≠ 0
  names : ∀ domain ∈ acme.domains, dnsName domain = true
  email : 64 ∈ acme.email
  directoryUrl : ascii "https://" <+: acme.directoryUrl
  renewBeforeDays : 0 < acme.renewBeforeDays ∧ acme.renewBeforeDays < 90
  renewCheckHours : 0 < acme.renewCheckHours

section

variable {domains : List Bytes} {value : Bytes} {raw : JsonConfig} {xhttp : XhttpConfig}
  {cfg : Config}

theorem validateDomains_ok {u : Unit} :
    validateDomains domains = .ok u ↔ ∀ domain ∈ domains, dnsName domain = true := by
  induction domains with
  | nil => simp [validateDomains]
  | cons domain domains ih =>
    rw [validateDomains, rejectIf_bind_ok, ih, List.forall_mem_cons, Bool.not_eq_false]

theorem validateAcme_ok {acme : AcmeConfig} : validateAcme acme = .ok () ↔ acme.Valid := by
  unfold validateAcme
  simp only [except_bind_ok, rejectIf_ok, validateDomains_ok, Bool.not_eq_false,
    List.contains_iff_mem, List.isPrefixOf_iff_prefix, exists_const, not_or]
  constructor
  · rintro ⟨hterms, hdomains, hport, hnames, hemail, hurl, ⟨hdays, hmax⟩, hhours⟩
    exact ⟨hterms, hdomains, hport, hnames, hemail, hurl, ⟨by omega, by omega⟩, by omega⟩
  · rintro ⟨hterms, hdomains, hport, hnames, hemail, hurl, ⟨hdays, hmax⟩, hhours⟩
    exact ⟨hterms, hdomains, hport, hnames, hemail, hurl, ⟨by omega, by omega⟩, by omega⟩

/-- The defaults are valid. -/
theorem validateAcme_defaults {email : Bytes} (hdomains : domains ≠ [])
    (hnames : ∀ domain ∈ domains, dnsName domain = true) (hemail : 64 ∈ email) :
    validateAcme { domains, email, acceptTerms := true } = .ok () := by
  have hport : (80 : UInt16) ≠ 0 := by decide
  have hurl : ascii "https://" <+: ascii "https://acme-v02.api.letsencrypt.org/directory" := by
    decide
  have hdays : 0 < 30 ∧ 30 < 90 := by decide
  exact validateAcme_ok.mpr ⟨rfl, hdomains, hport, hnames, hemail, hurl, hdays, Nat.succ_pos 11⟩

structure TlsConfig.Valid (tls : TlsConfig) : Prop where
  alpn : tls.alpn ≠ [] ∧ ∀ value ∈ tls.alpn, knownAlpn value = true
  acme : ∀ acme, tls.acme = some acme → acme.Valid ∧
    tls.cert = acme.cacheDir ++ [ascii "current", ascii "certificate.pem"] ∧
    tls.key = acme.cacheDir ++ [ascii "current", ascii "private-key.pem"]

theorem parseTls_ok {stream : StreamSettings} {tls : TlsConfig}
    (h : parseTls stream = .ok (some tls)) : tls.Valid := by
  unfold parseTls at h
  simp only at h
  split at h
  · obtain ⟨-, h⟩ := rejectIf_bind_ok.mp h
    cases h
  split at h
  case isFalse => cases h
  split at h
  · cases h
  case h_2 settings _ =>
    obtain ⟨halpn, h⟩ := rejectIf_bind_ok.mp h
    obtain ⟨config, hconfig, h⟩ := except_bind_ok.mp h
    cases h
    rw [not_or, Bool.not_eq_false, List.all_eq_true] at halpn
    unfold certificateSource at hconfig
    split at hconfig
    · cases hconfig
      exact ⟨halpn, fun acme hacme => by cases hacme⟩
    case h_2 acme _ _ =>
      obtain ⟨_, hacme, hconfig⟩ := except_bind_ok.mp hconfig
      cases hconfig
      refine ⟨halpn, fun acme' hacme' => ?_⟩
      cases hacme'
      exact ⟨validateAcme_ok.mp hacme, rfl, rfl⟩
    · cases hconfig

theorem parseEnd_ok {part : Bytes} {n : Nat} (h : parseEnd value part = .ok n) :
    n < 4294967296 := by
  unfold parseEnd at h
  split at h
  case h_2 => cases h
  case h_1 m hm =>
    cases h
    exact of_decide_eq_true (Option.filter_eq_some_iff.mp hm).2

theorem parseRange_ok {lo hi : Nat} (h : parseRange value = .ok (lo, hi)) :
    0 < lo ∧ lo ≤ hi ∧ hi < 4294967296 := by
  unfold parseRange at h
  obtain ⟨lo', -, h⟩ := except_bind_ok.mp h
  obtain ⟨hi', hhi, h⟩ := except_bind_ok.mp h
  obtain ⟨hrange, h⟩ := rejectIf_bind_ok.mp h
  cases h
  have := parseEnd_ok hhi
  omega

structure XhttpConfig.Valid (xhttp : XhttpConfig) : Prop where
  path : xhttp.path.head? = some 47 ∧ xhttp.path.getLast? = some 47
  limits : 0 < xhttp.maxEachPostBytes ∧ 0 < xhttp.maxBufferedPosts
  padding : 0 < xhttp.paddingFrom ∧ xhttp.paddingFrom ≤ xhttp.paddingTo ∧
    xhttp.paddingTo < 4294967296
  key : xhttp.uplinkDataPlacement = .body ∨ xhttp.uplinkDataKey ≠ []

theorem normalizePath_slashes (path : Bytes) :
    (normalizePath path).head? = some 47 ∧ (normalizePath path).getLast? = some 47 := by
  obtain ⟨rest, hrest⟩ : ∃ rest,
      (if path = [] ∨ path.head? ≠ some 47 then 47 :: path else path) = 47 :: rest := by
    split
    case isTrue => exact ⟨path, rfl⟩
    case isFalse h =>
      rw [not_or, Classical.not_not] at h
      exact ⟨path.tail, (List.eq_cons_of_mem_head? h.2).trans rfl⟩
  unfold normalizePath
  simp only [hrest]
  split
  case isTrue h => exact ⟨rfl, h⟩
  case isFalse => exact ⟨rfl, List.getLast?_concat⟩

/-- The padding is checked when the settings are read, and the rest when they are normalised. -/
theorem normalizeXhttp_ok {raw : XhttpSettings} {xhttp' : XhttpConfig}
    (h : parseXhttp raw = .ok xhttp) (h' : normalizeXhttp xhttp = .ok xhttp') : xhttp'.Valid := by
  obtain ⟨⟨lo, hi⟩, hrange, h⟩ := except_bind_ok.mp h
  cases h
  obtain ⟨hlimits, h'⟩ := rejectIf_bind_ok.mp h'
  obtain ⟨hkey, h'⟩ := rejectIf_bind_ok.mp h'
  cases h'
  refine ⟨normalizePath_slashes _, ?_, parseRange_ok hrange, ?_⟩
  · simp only [not_or] at hlimits
    exact ⟨Nat.pos_of_ne_zero hlimits.1, Nat.pos_of_ne_zero hlimits.2⟩
  · rw [not_and_or, Classical.not_not] at hkey
    exact hkey

structure ServerConfig.Valid (server : ServerConfig) : Prop where
  backlog : 1 ≤ server.backlog
  shutdown : 0 < server.gracefulShutdownSeconds ∧ server.gracefulShutdownSeconds ≤ 300
  timeouts : 0 < server.limits.handshakeTimeoutSeconds ∧ 0 < server.limits.targetConnectSeconds
  sessions : 0 < server.limits.maxSessions
  connections : 0 < server.limits.maxConcurrentTargetConns
  buffers : 0 < server.limits.globalBufferBytes

theorem validateServer_ok {server : ServerConfig} :
    validateServer server = .ok () ↔ server.Valid := by
  unfold validateServer
  simp only [except_bind_ok, rejectIf_ok, exists_const, not_or]
  constructor
  · rintro ⟨hbacklog, hshutdown, hhandshake, hconnect, hsessions, hconns, hbuffers⟩
    exact ⟨by omega, by omega, by omega, by omega, by omega, by omega⟩
  · rintro ⟨hbacklog, hshutdown, htimeouts, hsessions, hconns, hbuffers⟩
    exact ⟨by omega, by omega, by omega, by omega, by omega, by omega, by omega⟩

structure FallbackConfig.Valid (fallback : FallbackConfig) : Prop where
  index : fallback.index ≠ [] ∧ 47 ∉ fallback.index ∧ 92 ∉ fallback.index ∧
    fallback.index ≠ ascii "." ∧ fallback.index ≠ ascii ".."
  bytes : 0 < fallback.maxFileBytes ∧ fallback.maxFileBytes ≤ fallback.maxTotalBytes
  dist : fallback.dist.isSome ↔ fallback.mode = .directory
  seed : fallback.site.seed ≠ []

/-- The path, with its slashes, is a seed. -/
theorem validateFallback_ok {fallback fallback' : FallbackConfig} (hpath : xhttp.path ≠ [])
    (h : validateFallback fallback xhttp = .ok fallback') : fallback'.Valid := by
  obtain ⟨hindex, h⟩ := rejectIf_bind_ok.mp h
  obtain ⟨hbytes, h⟩ := rejectIf_bind_ok.mp h
  obtain ⟨hbuiltin, h⟩ := rejectIf_bind_ok.mp h
  obtain ⟨hdirectory, h⟩ := rejectIf_bind_ok.mp h
  cases h
  simp only [not_or] at hindex hbytes
  refine ⟨hindex, ⟨Nat.pos_of_ne_zero hbytes.1, Nat.not_lt.mp hbytes.2⟩, ?_, ?_⟩
  · show fallback.dist.isSome ↔ fallback.mode = .directory
    cases hmode : fallback.mode with
    | builtin => simpa [hmode] using hbuiltin
    | directory => simpa [hmode, Option.isSome_iff_ne_none] using hdirectory
  · show (if _ then _ else _) ≠ []
    split
    case isTrue h => exact h
    split
    · exact hpath
    case isFalse h => exact h

theorem validateFlows_ok {users : List UserConfig} :
    validateFlows users = .ok () ↔ ∀ user ∈ users, user.flow.val = [] ∨ user.flow.val = xrv := by
  induction users with
  | nil => simp [validateFlows]
  | cons user users ih =>
    rw [validateFlows, rejectIf_bind_ok, ih, List.forall_mem_cons, not_and_or, Classical.not_not,
      Classical.not_not]

/-! ## Configurations that are accepted -/

structure Config.Valid (cfg : Config) : Prop where
  port : cfg.listen.addr.port ≠ 0
  tls : ∀ tls, cfg.tls = some tls → tls.Valid
  challengePort : ∀ tls acme, cfg.tls = some tls → tls.acme = some acme →
    acme.challengeListen.port ≠ cfg.listen.addr.port
  xhttp : cfg.xhttp.Valid
  users : cfg.vless.users ≠ []
  flows : ∀ user ∈ cfg.vless.users, user.flow.val = [] ∨ user.flow.val = xrv
  backlog : 1 ≤ cfg.listen.backlog
  shutdown : 0 < cfg.listen.gracefulShutdownSecs ∧ cfg.listen.gracefulShutdownSecs ≤ 300
  timeouts : 0 < cfg.limits.handshakeTimeoutSeconds ∧ 0 < cfg.limits.targetConnectSeconds
  sessions : 0 < cfg.limits.maxSessions
  connections : 0 < cfg.limits.maxConcurrentTargetConns
  buffers : 0 < cfg.limits.globalBufferBytes
  fallback : cfg.fallback.Valid

theorem fromInbound_ok {inbound : InboundConfig} (h : Config.fromInbound raw inbound = .ok cfg) :
    cfg.Valid ∧ cfg.vless = ⟨inbound.settings.clients, inbound.settings.decryption⟩ := by
  obtain ⟨-, h⟩ := rejectIf_bind_ok.mp h
  obtain ⟨-, h⟩ := rejectIf_bind_ok.mp h
  obtain ⟨hport, h⟩ := rejectIf_bind_ok.mp h
  obtain ⟨tls, htls, h⟩ := except_bind_ok.mp h
  obtain ⟨hchallenge, h⟩ := rejectIf_bind_ok.mp h
  obtain ⟨xhttp, hparsed, h⟩ := except_bind_ok.mp h
  obtain ⟨husers, h⟩ := rejectIf_bind_ok.mp h
  obtain ⟨_, hflows, h⟩ := except_bind_ok.mp h
  obtain ⟨xhttp', hnormal, h⟩ := except_bind_ok.mp h
  obtain ⟨_, hserver, h⟩ := except_bind_ok.mp h
  obtain ⟨fallback, hfallback, h⟩ := except_bind_ok.mp h
  cases h
  have hxhttp := normalizeXhttp_ok hparsed hnormal
  have hserver := validateServer_ok.mp hserver
  have hpath : xhttp'.path ≠ [] := by
    intro hnil
    have := hxhttp.path.1
    rw [hnil] at this
    cases this
  refine ⟨⟨hport, ?_, ?_, hxhttp, husers, validateFlows_ok.mp hflows, hserver.backlog,
    hserver.shutdown, hserver.timeouts, hserver.sessions, hserver.connections, hserver.buffers,
    validateFallback_ok hpath hfallback⟩, rfl⟩
  · rintro tls' rfl
    exact parseTls_ok htls
  · rintro tls' acme rfl hacme hsame
    refine hchallenge ?_
    simp [hacme, hsame]

/-- An accepted configuration is valid, and its users are the clients of the one inbound. -/
theorem tryFrom_ok (h : Config.tryFrom raw = .ok cfg) :
    cfg.Valid ∧ ∃ inbound, raw.inbounds = [inbound] ∧
      cfg.vless = ⟨inbound.settings.clients, inbound.settings.decryption⟩ := by
  unfold Config.tryFrom at h
  split at h
  case h_1 inbound hinbound =>
    obtain ⟨hvalid, hvless⟩ := fromInbound_ok h
    exact ⟨hvalid, inbound, hinbound, hvless⟩
  case h_2 => cases h

end

/-- A configuration that leaves out whatever it can. -/
def JsonConfig.minimal (port : UInt16) (path : Bytes) (clients : List UserConfig) : JsonConfig where
  inbounds := [{
    port
    protocol := ascii "vless"
    settings := { clients }
    streamSettings := { network := ascii "xhttp", xhttpSettings := { path } } }]

/-- The defaults are accepted. -/
theorem tryFrom_defaults {port : UInt16} (path : Bytes) {clients : List UserConfig}
    (hport : port ≠ 0) (hclients : clients ≠ [])
    (hflows : ∀ user ∈ clients, user.flow.val = [] ∨ user.flow.val = xrv) :
    ∃ cfg, Config.tryFrom (.minimal port path clients) = .ok cfg := by
  have hprotocol : ¬ eqIgnoreAsciiCase (ascii "vless") (ascii "vless") = false := by decide
  have hnetwork : ¬ eqIgnoreAsciiCase (ascii "xhttp") (ascii "xhttp") = false := by decide
  refine ⟨?cfg, ?accepted⟩
  case accepted =>
    refine rejectIf_bind_ok.mpr ⟨hprotocol, ?_⟩
    refine rejectIf_bind_ok.mpr ⟨hnetwork, ?_⟩
    refine rejectIf_bind_ok.mpr ⟨hport, ?_⟩
    refine except_bind_ok.mpr ⟨none, rfl, ?_⟩
    refine rejectIf_bind_ok.mpr ⟨Bool.false_ne_true, ?_⟩
    refine except_bind_ok.mpr ⟨_, rfl, ?_⟩
    refine rejectIf_bind_ok.mpr ⟨hclients, ?_⟩
    refine except_bind_ok.mpr ⟨(), validateFlows_ok.mpr hflows, ?_⟩
    refine except_bind_ok.mpr ⟨_, rfl, ?_⟩
    refine except_bind_ok.mpr ⟨(), rfl, ?_⟩
    refine except_bind_ok.mpr ⟨_, rfl, ?_⟩
    rfl

end Xhttp.Server
