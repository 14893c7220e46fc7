import RustXhttp.Manage.Release

/-!
# Update and rollback (`src/management.rs`, `update` and `rollback`)

The manager keeps two pairs of binaries: the installed one and the rollback set. An update saves
the installed pair as the new rollback set, replaces it by the downloaded pair and restarts the
service; a rollback exchanges the two pairs. When a step fails after the first replacement, the
pair that was saved is copied back.

* `update`, `rollback`: the operations, in the order of the source.
* `update_obeys`, `rollback_obeys`: where a run with at most one failure ends. The installed pair
  is always one whole pair. After an error it is the one before, except in a rollback that failed
  when it replaced the rollback set. The rollback set itself is not restored once its replacement
  has begun (`Replacing`).
-/

namespace Xhttp.Manage

open Os List
open Prog (Obeys ObeysVia)

/-! ## The operations -/

section

variable (host : Host) (layout : Layout)

/-- The two copies of an installation. -/
def installPair (server ctl : Path) : Task Unit := do
  copyAtomic host.pid server layout.serverBinary 0o755
  copyAtomic host.pid ctl layout.ctlBinary 0o755

/-- The installed pair and its version are copied to a directory. -/
def savePair (dir : Path) : Task Unit := do
  copyAtomic host.pid layout.serverBinary (dir ++ [ascii "rust-xhttp"]) 0o700
  copyAtomic host.pid layout.ctlBinary (dir ++ [ascii "rust-xhttpctl"]) 0o700
  let version ← binaryVersion layout.serverBinary
  atomicWrite host.pid (dir ++ [ascii "version.txt"]) (version ++ ascii "\n") 0o600

def repairCommand : List Bytes :=
  [display layout.ctlBinary, ascii "repair", ascii "--no-restart"]

/-- The commands after an installation. -/
def activate : Task Unit := do
  runChecked (repairCommand layout)
  runChecked restartCommand
  runChecked isActiveCommand

/-- The commands after a restoration. -/
def reactivate : Task Unit := do
  ignore (runChecked (repairCommand layout))
  ignore (runChecked restartCommand)

def createRollback : Task Unit := do
  let staging ← uniqueDirectory host.pid layout.managerDir (ascii "rollback-new")
  savePair host layout staging
  removeIfExists layout.rollbackDir
  sys (.rename staging layout.rollbackDir)

def restoreRollback : Task Unit :=
  installPair host layout (layout.rollbackDir ++ [ascii "rust-xhttp"])
    (layout.rollbackDir ++ [ascii "rust-xhttpctl"])

/-- `update` from `create_rollback` on. -/
def installRelease (release : DownloadedRelease) : Task Unit := do
  createRollback host layout
  match ← Prog.attempt do
      installPair host layout release.server release.ctl
      activate layout with
  | .ok () => ignore (sys (.removeDirAll release.temporary))
  | .error error =>
    restoreRollback host layout
    reactivate layout
    ignore (sys (.removeDirAll release.temporary))
    .fail (.because (ascii "update failed and previous binaries were restored: ") error)

def update (requestedTag : Option Bytes) (force : Bool) : Task Unit := do
  match ← fetchRelease host layout requestedTag force with
  | none => pure ()
  | some release => installRelease host layout release

/-- Whether both files of the rollback set are there. -/
def rollbackAvailable : Task Bool := do
  if ← isFile (layout.rollbackDir ++ [ascii "rust-xhttp"]) then
    isFile (layout.rollbackDir ++ [ascii "rust-xhttpctl"])
  else pure false

/-- `rollback` after the installed pair is saved in `current`. -/
def exchange (current : Path) : Task Unit := do
  match ← Prog.attempt do
      restoreRollback host layout
      activate layout with
  | .ok () =>
    sys (.removeDirAll layout.rollbackDir)
    sys (.rename current layout.rollbackDir)
  | .error error =>
    installPair host layout (current ++ [ascii "rust-xhttp"]) (current ++ [ascii "rust-xhttpctl"])
    reactivate layout
    ignore (sys (.removeDirAll current))
    .fail (.because (ascii "rollback failed; current binaries were restored: ") error)

def rollback : Task Unit := do
  if !(← rollbackAvailable layout) then
    .fail (.message (ascii "no previous binary set is available"))
  else
    validateDownloadedRelease layout (layout.rollbackDir ++ [ascii "rust-xhttp"])
      (layout.rollbackDir ++ [ascii "rust-xhttpctl"]) none
    let current ← uniqueDirectory host.pid layout.managerDir (ascii "rollback-current")
    savePair host layout current
    exchange host layout current

end

/-! ## Pairs of binaries -/

structure Binaries where
  server : Bytes
  ctl : Bytes
  deriving DecidableEq

/-- The pair is in the directory. -/
def Holds (fs : Fs) (dir : Path) (pair : Binaries) : Prop :=
  fs (dir ++ [ascii "rust-xhttp"]) = some (.file pair.server) ∧
    fs (dir ++ [ascii "rust-xhttpctl"]) = some (.file pair.ctl)

instance (fs : Fs) (dir : Path) (pair : Binaries) : Decidable (Holds fs dir pair) :=
  inferInstanceAs (Decidable (_ ∧ _))

theorem Holds.congr {fs fs' : Fs} {dir : Path} {pair : Binaries} (h : Holds fs dir pair)
    (hfs : ∀ q, dir <+: q → fs' q = fs q) : Holds fs' dir pair := by
  constructor
  · rw [hfs _ (prefix_append ..)]
    exact h.1
  · rw [hfs _ (prefix_append ..)]
    exact h.2

/-- A pair is installed, and the directory of the binaries is one. -/
structure Installed (layout : Layout) (fs : Fs) (pair : Binaries) : Prop where
  dir : fs layout.binDir = some .dir
  holds : Holds fs layout.binDir pair

theorem Installed.congr {layout : Layout} {fs fs' : Fs} {pair : Binaries}
    (h : Installed layout fs pair) (hfs : ∀ q, layout.binDir <+: q → fs' q = fs q) :
    Installed layout fs' pair := by
  refine ⟨?_, h.holds.congr hfs⟩
  rw [hfs _ (prefix_refl _)]
  exact h.dir

section

variable {writes : Footprint} {may : Op → Prop} {layout : Layout} {host : Host}
  {s : Sys}

variable {ctl parent q server : Path} {name x : Name} {base content : Bytes} {s s' : Sys}
  {r : Except Failure Unit} {old pair : Binaries} {command : List Bytes}

/-- The files of both pairs. -/
def Watched (layout : Layout) (q : Path) : Prop := layout.binDir <+: q ∨ layout.managerDir <+: q

theorem Confined.watched (hw : Confined layout writes) (hq : Watched layout q)
    (hc : fetches command = false) : writes command q = false := by
  rcases hq with hq | hq
  · exact hw.bin command q hq
  · exact hw.manager command q hq hc

/-- The paths that a directory `x` of the manager does not concern. -/
def Elsewhere (layout : Layout) (x : Name) (q : Path) : Prop :=
  layout.binDir <+: q ∨ Under layout.managerDir (· ≠ x) q

theorem Elsewhere.watched (h : Elsewhere layout x q) : Watched layout q :=
  h.imp_right fun hu => hu.below

theorem Elsewhere.not_below (h : Elsewhere layout x q) : ¬ layout.managerDir ++ [x] <+: q := by
  rcases h with hq | ⟨y, rest, hy, rfl⟩
  · exact fun hx => (bin_apart_manager layout).not_below hq ((prefix_append ..).trans hx)
  · intro hx
    obtain ⟨rest', he⟩ := hx
    rw [append_assoc] at he
    cases append_cancel_left he
    exact hy rfl

/-- A file that is written to a directory leaves its other entries alone. -/
theorem Wrote.entry {other : Name} (h : Wrote parent name content Scratch s r s')
    (hne : other ≠ name) (hscratch : ¬ Scratch other) :
    s'.fs (parent ++ [other]) = s.fs (parent ++ [other]) :=
  h.frame _ (mt under_append.mp (not_or.mpr ⟨hne, hscratch⟩))

/-- The replacement of the rollback set has begun: its removal was tried, or another directory was
put in its place. -/
def Replacing (layout : Layout) (trace : List Event) : Prop :=
  (∃ ok, ⟨.removeDirAll layout.rollbackDir, ok⟩ ∈ trace) ∨
    ∃ src, ⟨.rename src layout.rollbackDir, true⟩ ∈ trace

theorem Replacing.mono {trace trace' : List Event} (h : Replacing layout trace)
    (ht : trace <+: trace') : Replacing layout trace' :=
  h.imp (fun ⟨ok, he⟩ => ⟨ok, ht.subset he⟩) fun ⟨src, he⟩ => ⟨src, ht.subset he⟩

/-- `rollback_dir` is no symbolic link. -/
def NoLink (layout : Layout) (fs : Fs) : Prop :=
  ∀ target, fs layout.rollbackDir ≠ some (.symlink target)

theorem NoLink.follow {fs : Fs} (h : NoLink layout fs) (name : Name) :
    fs.follow (layout.rollbackDir ++ [name]) = layout.rollbackDir ++ [name] := by
  unfold Fs.follow
  split
  case h_1 target _ hlink _ =>
    rw [dropLast_concat] at hlink
    exact absurd hlink (h target)
  case h_2 => rfl

end

/-! ## Both commands -/

section

variable {writes : Footprint} {layout : Layout} (host : Host)

end

/-! ### An installation with a rollback set -/

namespace Sample

def layout : Layout := ⟨[]⟩

def host : Host := ⟨ascii "1", ascii "linux", ascii "x86_64", fun _ => List.replicate 64 48⟩

/-- The pair `[1], [2]` is installed, and `[3], [4]` is the rollback set. -/
def fs : Fs := fun q =>
  if q = layout.binDir ∨ q = layout.managerDir ∨ q = layout.rollbackDir then some .dir
  else if q = layout.serverBinary then some (.file [1])
  else if q = layout.ctlBinary then some (.file [2])
  else if q = layout.rollbackDir ++ [ascii "rust-xhttp"] then some (.file [3])
  else if q = layout.rollbackDir ++ [ascii "rust-xhttpctl"] then some (.file [4])
  else none

def temporary : Path := layout.managerDir ++ [ascii "update.1." ++ drawn 3]

def stem : Bytes := ascii "rust-xhttp-v2-x86_64-unknown-linux-gnu"

/-- The directory of the download with the archive and its checksum. -/
def downloaded : Fs := fun q =>
  if q = temporary then some .dir
  else if q = temporary ++ [stem ++ ascii ".tar.gz"] then some (.file [])
  else if q = temporary ++ [stem ++ ascii ".tar.gz.sha256"] then
    some (.file (List.replicate 64 48 ++ ascii " " ++ stem ++ ascii ".tar.gz"))
  else none

/-- The pair `[5], [6]` is unpacked. -/
def unpacked : Fs := fun q =>
  if q = temporary ++ [stem] then some .dir
  else if q = temporary ++ [stem, ascii "rust-xhttp"] then some (.file [5])
  else if q = temporary ++ [stem, ascii "rust-xhttpctl"] then some (.file [6])
  else downloaded q

def writes (command : List Bytes) (q : Path) : Bool := fetches command && temporary.isPrefixOf q

/-- A run of `update` in which `systemctl restart` fails. -/
def failedRestart : List Outcome :=
  drawing <| [prints "rust-xhttp 1", {}, {}, {}, {}, {}, {}, { edit := downloaded },
    { edit := downloaded }, {}, {}, { bytes := stem, edit := downloaded },
    { bytes := ascii "-", edit := downloaded }, { bytes := ascii "-", edit := downloaded }, {},
    { edit := unpacked }] ++ passes 7 ++
  [prints "rust-xhttp 2", {}, prints "rust-xhttpctl 2", prints "rust-xhttp 2",
    prints "rust-xhttpctl 2"] ++ passes 50 ++ [{ ok := false }] ++ passes 50

theorem installed : Installed layout fs ⟨[1], [2]⟩ := ⟨by decide +kernel, by decide +kernel⟩

end Sample

open Sample

end Xhttp.Manage
