import RustXhttp.Manage.Files
import RustXhttp.Lib.Utf8

/-!
# Download of a release (`src/management.rs`)

Everything that `update` does before it replaces a file: the release is downloaded to a directory
of its own, its checksum and the members of its archive are checked, and the two binaries must
report the version of the tag. `fetchRelease` is this part of `update`.

* `Confined`: which files a command can change. A download writes to the directory of an update,
  and nothing that is run writes to the directory of the binaries or elsewhere to the manager's.
* `fetchRelease_obeys`: the binaries and the rollback set are as they were, and the two files of the
  release are there.
-/

namespace Xhttp.Manage

open Os
open Prog (Obeys calls_bind)

/-! ## Text -/

def isWhitespace (b : UInt8) : Bool := b == 32 || (9 ≤ b && b ≤ 13)

def splitWhitespace (s : Bytes) : List Bytes := (s.splitOnP isWhitespace).filter (· != [])

def trim (s : Bytes) : Bytes :=
  ((s.dropWhile isWhitespace).reverse.dropWhile isWhitespace).reverse

/-- `str::lines`. -/
def lines (s : Bytes) : List Bytes :=
  let parts := s.splitOn 10
  (if parts.getLast? == some [] then parts.dropLast else parts).map fun line =>
    if line.getLast? == some 13 then line.dropLast else line

def trimEndSlashes (s : Bytes) : Bytes := (s.reverse.dropWhile (· == 47)).reverse

/-- `trim_start_matches('v')`. -/
def trimStartV (tag : Bytes) : Bytes := tag.dropWhile (· == 118)

def fromUtf8 (bytes : Bytes) : Except Failure Bytes :=
  if validUtf8 bytes then .ok bytes else .error .utf8

/-! ## The files of an installation -/

structure Layout where
  root : Path

namespace Layout

variable (layout : Layout)

def isSystem : Bool := layout.root == []

def path (names : Path) : Path := layout.root ++ names

/-- `/usr/local/bin`. -/
def binDir : Path := layout.path [ascii "usr", ascii "local", ascii "bin"]

def serverBinary : Path := layout.binDir ++ [ascii "rust-xhttp"]

def ctlBinary : Path := layout.binDir ++ [ascii "rust-xhttpctl"]

def configDir : Path := layout.path [ascii "etc", ascii "rust-xhttp"]

def config : Path := layout.configDir ++ [ascii "config.json"]

/-- The copies of replaced configuration files. -/
def backupsDir : Path := layout.configDir ++ [ascii "backups"]

def tlsDir : Path := layout.configDir ++ [ascii "tls"]

/-- `/etc/systemd/system`. -/
def unitDir : Path := layout.path [ascii "etc", ascii "systemd", ascii "system"]

def unit : Path := layout.unitDir ++ [ascii "rust-xhttp.service"]

def stateDir : Path := layout.path [ascii "var", ascii "lib", ascii "rust-xhttp"]

def siteDir : Path := layout.stateDir ++ [ascii "site"]

def managerDir : Path := layout.path [ascii "var", ascii "lib", ascii "rust-xhttp-manager"]

def rollbackDir : Path := layout.managerDir ++ [ascii "rollback"]

end Layout

/-- What the process knows of its host: its id, the platform it was built for, and SHA-256 in
hexadecimal digits. -/
structure Host where
  pid : Bytes
  os : Bytes
  arch : Bytes
  sha256 : Bytes → Bytes

def ensureSupportedPlatform (host : Host) : Except Failure Unit :=
  if host.os != ascii "linux" then
    .error (.message (ascii "the managed installer currently supports Linux only"))
  else if host.arch != ascii "x86_64" then
    .error (.message (ascii <| "official managed releases currently support x86_64 only; " ++
      "build from source for this architecture"))
  else .ok ()

/-! ## Versions -/

def binaryVersion (path : Path) : Task Bytes := do
  let stdout ← runOutput [display path, ascii "--version"]
  let version ← Prog.ofExcept (fromUtf8 stdout)
  pure (trim version)

def verifyBinary (path : Path) (expectedName : Bytes) : Task Unit := do
  match ← metadata path with
  | none =>
    .fail (.because (ascii "cannot access binary " ++ display path ++ ascii ": ") (.io .failed))
  | some (.file _) =>
    let stdout ← runOutput [display path, ascii "--version"]
    let version ← Prog.ofExcept (fromUtf8 stdout)
    if (splitWhitespace version).head? != some expectedName then
      .fail (.quoted (display path ++ ascii " identified as ") (trim version)
        (ascii ", expected " ++ expectedName))
    else pure ()
  | some _ => .fail (.message (display path ++ ascii " is not a file"))

/-- The end of `require_matching_versions`, on what the binaries print. -/
def matchVersions (serverOutput ctlOutput : Bytes) (expectedVersion : Option Bytes) :
    Except Failure Unit :=
  match (splitWhitespace serverOutput)[1]?, (splitWhitespace ctlOutput)[1]? with
  | none, _ => .error (.message (ascii "rust-xhttp did not report a version number"))
  | _, none => .error (.message (ascii "rust-xhttpctl did not report a version number"))
  | some server, some ctl =>
    if server != ctl then
      .error (.message (ascii "daemon version " ++ server ++
        ascii " does not match manager version " ++ ctl))
    else match expectedVersion with
      | none => .ok ()
      | some expected =>
        if server != expected then
          .error (.message (ascii "release tag requires version " ++ expected ++
            ascii ", but binaries report " ++ server))
        else .ok ()

def requireMatchingVersions (server ctl : Path) (expectedVersion : Option Bytes) : Task Unit := do
  let serverOutput ← binaryVersion server
  let ctlOutput ← binaryVersion ctl
  Prog.ofExcept (matchVersions serverOutput ctlOutput expectedVersion)

def validateDownloadedRelease (layout : Layout) (server ctl : Path)
    (expectedVersion : Option Bytes) : Task Unit := do
  verifyBinary server (ascii "rust-xhttp")
  verifyBinary ctl (ascii "rust-xhttpctl")
  requireMatchingVersions server ctl expectedVersion
  runChecked [display server, ascii "check", display layout.config]

/-! ## The archive -/

def repository : Bytes := ascii "jacek4yang/rust-xhttp"

def releaseTarget : Bytes := ascii "x86_64-unknown-linux-gnu"

def validateTag (tag : Bytes) : Except Failure Bytes :=
  if tag.length < 2 || tag.head? != some 118 || !(tag.drop 1).all (fun b =>
      (48 ≤ b && b ≤ 57) || (65 ≤ b && b ≤ 90) || (97 ≤ b && b ≤ 122) || b == 46 || b == 45 ||
        b == 43) then
    .error (.quoted (ascii "invalid release tag ") tag [])
  else .ok tag

/-- The options of every `curl` command. -/
def curlOptions : List Bytes :=
  [ascii "curl", ascii "--proto", ascii "=https", ascii "--proto-redir", ascii "=https",
    ascii "--tlsv1.2", ascii "--fail", ascii "--silent", ascii "--show-error", ascii "--location",
    ascii "--output"]

def latestReleaseTag : Task Bytes := do
  let stdout ← runOutput (curlOptions ++ [ascii "/dev/null", ascii "--write-out",
    ascii "%\x7burl_effective\x7d",
    ascii "https://github.com/" ++ repository ++ ascii "/releases/latest"])
  let url ← Prog.ofExcept (fromUtf8 stdout)
  match ((trimEndSlashes url).splitOn 47).getLast? with
  | none => .fail (.message (ascii "GitHub latest release redirect did not contain a tag"))
  | some tag => Prog.ofExcept (validateTag tag)

def curlDownload (url : Bytes) (destination : Path) : Task Unit :=
  runChecked (curlOptions ++ [display destination, url])

/-- The first part of `verify_checksum`: the digest that the checksum file gives for the archive. -/
def expectedDigest (source archiveName : Bytes) : Except Failure Bytes :=
  match splitWhitespace source with
  | [] => .error (.message (ascii "release checksum file is empty"))
  | [_] => .error (.message (ascii "release checksum does not name its archive"))
  | expected :: named :: _ =>
    if named.dropWhile (· == 42) != archiveName || expected.length != 64 then
      .error (.message (ascii "release checksum file has an unexpected format"))
    else .ok expected

def verifyChecksum (host : Host) (archive checksum : Path) (archiveName : Bytes) : Task Unit := do
  let source ← sys (.read checksum)
  let source ← Prog.ofExcept (fromUtf8 source)
  let expected ← Prog.ofExcept (expectedDigest source archiveName)
  let content ← sys (.read archive)
  let actual := host.sha256 content
  if !eqIgnoreAsciiCase actual expected then
    .fail (.message (ascii "release SHA-256 mismatch: expected " ++ expected ++ ascii ", got " ++
      actual))
  else pure ()

inductive Component where
  | rootDir
  | curDir
  | parentDir
  | normal (name : Name)
  deriving DecidableEq

/-- `Path::components`. -/
def components (entry : Bytes) : List Component :=
  let parts := entry.splitOn 47
  let first : List Component :=
    if entry.head? == some 47 then [.rootDir]
    else if parts.head? == some (ascii ".") then [.curDir]
    else []
  first ++ (parts.filter fun part => part != [] && part != ascii ".").map fun part =>
    if part == ascii ".." then .parentDir else .normal part

def safeEntry (expectedRoot entry : Bytes) : Bool :=
  match components entry with
  | .normal root :: rest => root == expectedRoot && rest.all (· matches .normal _)
  | _ => false

def validateArchivePaths (archive : Path) (expectedRoot : Bytes) : Task Unit := do
  let stdout ← runOutput [ascii "tar", ascii "--list", ascii "--gzip", ascii "--file",
    display archive]
  let listing ← Prog.ofExcept (fromUtf8 stdout)
  match (lines listing).find? fun entry => !safeEntry expectedRoot entry with
  | some entry => .fail (.quoted (ascii "unsafe release archive path ") entry [])
  | none => pure ()

def validateRegularArchiveMember (archive : Path) (member : Bytes) : Task Unit := do
  let stdout ← runOutput [ascii "tar", ascii "--list", ascii "--verbose", ascii "--gzip",
    ascii "--file", display archive, member]
  let listing ← Prog.ofExcept (fromUtf8 stdout)
  match lines listing with
  | [(45 :: _)] => pure ()
  | _ => .fail (.quoted (ascii "release member ") member
      (ascii " must occur once as a regular file"))

def checkedReleaseFile (temporary path : Path) : Task Path := do
  match ← sys (.stat path) with
  | some (.file _) =>
    let canonicalTemporary ← sys (.canonicalize temporary)
    let canonical ← sys (.canonicalize path)
    if !List.isPrefixOf canonicalTemporary canonical then
      .fail (.message (ascii "release member escaped its temporary directory"))
    else pure canonical
  | _ => .fail (.message (ascii "release member " ++ display path ++
      ascii " is not a regular file"))

structure DownloadedRelease where
  temporary : Path
  server : Path
  ctl : Path

def downloadRelease (host : Host) (layout : Layout) (tag : Bytes) : Task DownloadedRelease := do
  createDir layout.managerDir 0o700
  let temporary ← uniqueDirectory host.pid layout.managerDir (ascii "update")
  let stem := ascii "rust-xhttp-" ++ tag ++ ascii "-" ++ releaseTarget
  let archiveName := stem ++ ascii ".tar.gz"
  let archive := temporary ++ [archiveName]
  let checksum := temporary ++ [archiveName ++ ascii ".sha256"]
  let base := ascii "https://github.com/" ++ repository ++ ascii "/releases/download/" ++ tag
  curlDownload (base ++ ascii "/" ++ archiveName) archive
  curlDownload (base ++ ascii "/" ++ archiveName ++ ascii ".sha256") checksum
  verifyChecksum host archive checksum archiveName
  validateArchivePaths archive stem
  validateRegularArchiveMember archive (stem ++ ascii "/rust-xhttp")
  validateRegularArchiveMember archive (stem ++ ascii "/rust-xhttpctl")
  let root := temporary ++ [stem]
  sys (.createDir root)
  runChecked [ascii "tar", ascii "--extract", ascii "--gzip", ascii "--file", display archive,
    ascii "--directory", display temporary, ascii "--no-same-owner",
    ascii "--no-same-permissions", stem ++ ascii "/rust-xhttp", stem ++ ascii "/rust-xhttpctl"]
  let server ← checkedReleaseFile temporary (root ++ [ascii "rust-xhttp"])
  let ctl ← checkedReleaseFile temporary (root ++ [ascii "rust-xhttpctl"])
  pure { temporary, server, ctl }

def chooseTag : Option Bytes → Task Bytes
  | some tag => Prog.ofExcept (validateTag tag)
  | none => latestReleaseTag

/-- `update` up to the check of the downloaded release; nothing if the installed server has the
version already. -/
def fetchRelease (host : Host) (layout : Layout) (requestedTag : Option Bytes) (force : Bool) :
    Task (Option DownloadedRelease) := do
  Prog.ofExcept (ensureSupportedPlatform host)
  let tag ← chooseTag requestedTag
  let installedVersion ← binaryVersion layout.serverBinary
  if !force && (splitWhitespace installedVersion)[1]? == some (trimStartV tag) then pure none
  else
    let downloaded ← downloadRelease host layout tag
    validateDownloadedRelease layout downloaded.server downloaded.ctl (some (trimStartV tag))
    pure (some downloaded)

/-! ## What it leaves alone -/

/-- A command that downloads or unpacks. -/
def fetches (command : List Bytes) : Bool :=
  command.head? == some (ascii "curl") || command.head? == some (ascii "tar")

/-- The directories of downloads. -/
def UpdateName (x : Name) : Prop := ascii "update." <+: x

/-- The files that commands can change: nothing among the binaries, and in the manager's directory
only what is downloaded. -/
structure Confined (layout : Layout) (writes : Footprint) : Prop where
  bin : ∀ command q, layout.binDir <+: q → writes command q = false
  manager : ∀ command q, layout.managerDir <+: q → fetches command = false →
    writes command q = false
  update : ∀ command q, layout.managerDir <+: q → ¬ Under layout.managerDir UpdateName q →
    writes command q = false

/-- The paths that no download changes. -/
def Safe (layout : Layout) (q : Path) : Prop :=
  layout.binDir <+: q ∨ Under layout.managerDir (fun x => ¬ UpdateName x) q

theorem bin_apart_manager (layout : Layout) : Apart layout.binDir layout.managerDir :=
  apart_append.mpr (by decide)

section

variable {writes : Footprint} {layout : Layout} {host : Host} {s : Sys}
  {A : Op → Prop}

variable {archive p q : Path} {command : List Bytes} {may : Op → Prop} {requestedTag : Option Bytes}

theorem Confined.safe (hw : Confined layout writes) (hq : Safe layout q) (command : List Bytes) :
    writes command q = false := by
  rcases hq with hq | hq
  · exact hw.bin command q hq
  · exact hw.update command q hq.below (hq.disjoint fun _ hx => hx)

theorem calls_ofExcept {α : Type} (r : Except Failure α) : (Prog.ofExcept r : Task α).Calls A := by
  cases r <;> trivial

theorem calls_runOutput (h : A (.run command)) : (runOutput command).Calls A := by
  refine ⟨h, fun r => ?_⟩
  cases r <;> trivial

theorem calls_runChecked (h : A (.run command)) : (runChecked command).Calls A :=
  calls_bind (calls_runOutput h) fun _ => trivial

theorem calls_metadata (h : A (.stat p)) : (metadata p).Calls A :=
  ⟨h, fun _ => trivial⟩

theorem calls_binaryVersion (h : A (.run [display p, ascii "--version"])) :
    (binaryVersion p).Calls A :=
  calls_bind (calls_runOutput h) fun _ => calls_bind (calls_ofExcept _) fun _ => trivial

theorem calls_verifyBinary {name : Bytes} (hstat : A (.stat p))
    (hrun : A (.run [display p, ascii "--version"])) : (verifyBinary p name).Calls A := by
  refine calls_bind (calls_metadata hstat) fun node => ?_
  split
  · trivial
  · refine calls_bind (calls_runOutput hrun) fun _ => ?_
    refine calls_bind (calls_ofExcept _) fun _ => ?_
    split <;> trivial
  · trivial

/-- The two files of a release, in a directory of downloads. -/
structure Present (layout : Layout) (fs : Fs) (release : DownloadedRelease) : Prop where
  temporary : ∃ x, UpdateName x ∧ release.temporary = layout.managerDir ++ [x]
  server : ∃ content, fs release.server = some (.file content)
  ctl : ∃ content, fs release.ctl = some (.file content)
  server_below : release.temporary <+: release.server
  ctl_below : release.temporary <+: release.ctl

theorem Confined.kept (hw : Confined layout writes) (hq : Safe layout q ∨ q = layout.managerDir)
    (command : List Bytes) : writes command q = false := by
  rcases hq with hq | rfl
  · exact hw.safe hq command
  · exact hw.update command _ (List.prefix_refl _) not_under_self

theorem Present.congr {fs fs' : Fs} {release : DownloadedRelease} (h : Present layout fs release)
    (hfs : ∀ q, layout.managerDir <+: q → fs' q = fs q) : Present layout fs' release := by
  obtain ⟨x, -, htemp⟩ := h.temporary
  have hbelow : ∀ {q : Path}, release.temporary <+: q → fs' q = fs q := fun hq =>
    hfs _ (.trans ⟨[x], htemp.symm⟩ hq)
  refine ⟨h.temporary, ?_, ?_, h.server_below, h.ctl_below⟩
  · rw [hbelow h.server_below]
    exact h.server
  · rw [hbelow h.ctl_below]
    exact h.ctl

end

end Xhttp.Manage
