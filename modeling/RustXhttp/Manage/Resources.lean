import RustXhttp.Manage.Config

/-!
# Certificate files and site of an installation (`src/management.rs`)

`install` puts the certificate chain, the private key and a site next to the configuration. Before
it replaces one of them it notes how to bring the old state back: a copy of each key file, or that
there was none, and the name to which the old site was moved.

* `installManualTls`, `installSite`: the replacements; `restoreResources`: the way back. Its errors
  are marked with `Failure.restoration`.
* `Restorable`: what the notes promise at any moment between the two.
* `restoreResources_obeys`: from such a state everything is as before.
-/

namespace Xhttp.Manage

open Os List
open Prog (Obeys calls_bind obeys_attempt)

/-! ## The operations -/

/-- `/etc/rust-xhttp/tls/fullchain.pem`. -/
def Layout.fullchain (layout : Layout) : Path := layout.tlsDir ++ [ascii "fullchain.pem"]

/-- `/etc/rust-xhttp/tls/privkey.pem`. -/
def Layout.privkey (layout : Layout) : Path := layout.tlsDir ++ [ascii "privkey.pem"]

structure FileRollback where
  target : Path
  backup : Option Path
  mode : Nat
  deriving DecidableEq

structure SiteRollback where
  target : Path
  backup : Option Path
  deriving DecidableEq

section

variable (host : Host) (layout : Layout)

def snapshotFile (target : Path) (label : Bytes) (mode : Nat) : Task FileRollback := do
  if ← isFile target then
    let backup ← uniquePath host.pid layout.backupsDir (label ++ ascii ".pem")
    copyAtomic host.pid target backup 0o600
    pure ⟨target, some backup, mode⟩
  else pure ⟨target, none, mode⟩

def restoreSite (site : SiteRollback) : Task Unit := do
  removeIfExists site.target
  match site.backup with
  | some backup => sys (.rename backup site.target)
  | none => pure ()

def restoreAside : Option SiteRollback → Task Unit
  | some site => restoreSite site
  | none => pure ()

def restoreFile (file : FileRollback) : Task Unit :=
  match file.backup with
  | some backup => copyAtomic host.pid backup file.target file.mode
  | none => removeFileIfPresent file.target

def restoreFiles : List FileRollback → Task Unit
  | [] => pure ()
  | file :: files => do
    restoreFile host file
    restoreFiles files

/-- The errors are marked, so that they can be told from the error that is compensated. -/
def restoreResources (files : List FileRollback) (site : Option SiteRollback) : Task Unit :=
  Prog.mapError .restoration do
    restoreAside site
    restoreFiles host files.reverse

/-- `restore_resources` on an error, which is then returned. -/
def orRestore {α : Type} (files : List FileRollback) (site : Option SiteRollback)
    (body : Task α) : Task α := do
  match ← body.attempt with
  | .ok a => pure a
  | .error error =>
    restoreResources host files site
    .fail error

def installManualTls (certificate privateKey : Path) : Task (List FileRollback) := do
  createDir layout.tlsDir 0o750
  let chain ← snapshotFile host layout layout.fullchain (ascii "fullchain") 0o644
  orRestore host [chain] none (copyAtomic host.pid certificate layout.fullchain 0o644)
  let key ← orRestore host [chain] none
    (snapshotFile host layout layout.privkey (ascii "privkey") 0o640)
  orRestore host [chain, key] none (copyAtomic host.pid privateKey layout.privkey 0o640)
  pure [chain, key]

/-- One round of the loop of `copy_site_tree`. -/
def copyEntry (recurse : Path → Path → Task Unit) (source destination : Path) (name : Name) :
    Task Unit := do
  let target := destination ++ [name]
  match ← metadata (source ++ [name]) with
  | none => .fail (.io .failed)
  | some (.symlink _) =>
    .fail (.message (ascii "dist directory contains unsupported symlink: " ++
      display (source ++ [name])))
  | some .dir =>
    sys (.createDir target)
    sys (.setPermissions target 0o750)
    recurse (source ++ [name]) target
  | some (.file _) =>
    sys (.copy (source ++ [name]) target)
    sys (.setPermissions target 0o640)

def copyEntries (recurse : Path → Path → Task Unit) (source destination : Path) :
    List Name → Task Unit
  | [] => pure ()
  | name :: names => do
    copyEntry recurse source destination name
    copyEntries recurse source destination names

/-- The first argument counts the levels that are left. -/
def copySiteTree : Nat → Path → Path → Task Unit
  | 0, _, _ => .fail (.message (ascii "dist directory nesting exceeds 32 levels"))
  | levels + 1, source, destination => do
    let names : List Name ← sys (.readDir source)
    copyEntries (copySiteTree levels) source destination names

def stageSite (source staging : Path) : Task Unit := do
  match ← (copySiteTree 33 source staging).attempt with
  | .ok () => pure ()
  | .error error =>
    ignore (sys (.removeDirAll staging))
    .fail error

/-- The site that is there gets another name. -/
def setAside (destination backup : Path) : Task (Option Path) := do
  if ← pathExists destination then
    sys (.rename destination backup)
    pure (some backup)
  else pure none

def putBack (destination : Path) : Option Path → Task Unit
  | some backup => ignore (sys (.rename backup destination))
  | none => pure ()

/-- The new site gets its name, or the old one gets it back. -/
def putInPlace (staging destination : Path) (previous : Option Path) : Task Unit := do
  match ← (sys (.rename staging destination) : Task Unit).attempt with
  | .ok () => pure ()
  | .error error =>
    putBack destination previous
    .fail error

def installSite (source : Path) : Task SiteRollback := do
  let staging ← uniqueDirectory host.pid layout.managerDir (ascii "site-new")
  stageSite source staging
  let stamp ← sys .clock
  let backup := layout.managerDir ++ [ascii "site-backup-" ++ decimal stamp]
  let previous ← setAside layout.siteDir backup
  putInPlace staging layout.siteDir previous
  pure ⟨layout.siteDir, previous⟩

end

/-! ## What is managed -/

/-- The names of the certificate chain and of the private key. -/
def KeyName (x : Name) : Prop := x = ascii "fullchain.pem" ∨ x = ascii "privkey.pem"

/-- The configuration, the two key files and what is in the site. -/
def ManagedFile (layout : Layout) (q : Path) : Prop :=
  q = layout.config ∨ (∃ x, KeyName x ∧ q = layout.tlsDir ++ [x]) ∨
    Under layout.siteDir (fun _ => True) q

def Unchanged (layout : Layout) (fs fs' : Fs) : Prop := ∀ q, ManagedFile layout q → fs' q = fs q

/-- The directories of the managed files, all made by `prepare_directories`. -/
def Layout.managedDirs (layout : Layout) : List Path :=
  [layout.configDir, layout.backupsDir, layout.tlsDir, layout.stateDir, layout.siteDir,
    layout.managerDir]

def Ready (layout : Layout) (fs : Fs) : Prop := ∀ d ∈ layout.managedDirs, fs d = some .dir

namespace Ready

variable {layout : Layout} {fs : Fs} (h : Ready layout fs)
include h

theorem config : fs layout.configDir = some .dir := h _ (by simp [Layout.managedDirs])

theorem tls : fs layout.tlsDir = some .dir := h _ (by simp [Layout.managedDirs])

theorem site : fs layout.siteDir = some .dir := h _ (by simp [Layout.managedDirs])

end Ready

/-- What the note of a key file promises: there was none, or the copy has its content. -/
def FileRollback.Sound (layout : Layout) (before fs : Fs) (file : FileRollback) : Prop :=
  ∃ x, KeyName x ∧ file.target = layout.tlsDir ++ [x] ∧
    ((file.backup = none ∧ before file.target = none) ∨
      ∃ y content, file.backup = some (layout.backupsDir ++ [y]) ∧ x <+: y ∧
        before file.target = some (.file content) ∧
        fs (layout.backupsDir ++ [y]) = some (.file content))

/-- What the note of the site promises: the old site is under another name. -/
def SiteRollback.Sound (layout : Layout) (before fs : Fs) (site : SiteRollback) : Prop :=
  site.target = layout.siteDir ∧ ∃ y, ascii "site-backup-" <+: y ∧
    site.backup = some (layout.managerDir ++ [y]) ∧
    ∀ z rest, fs (layout.managerDir ++ [y] ++ z :: rest) = before (layout.siteDir ++ z :: rest)

/-- With the notes everything that is managed can be brought back as it was in `before`. -/
structure Restorable (layout : Layout) (before : Fs) (files : List FileRollback)
    (site : Option SiteRollback) (fs : Fs) : Prop where
  ready : Ready layout fs
  config : fs layout.config = before layout.config
  noted : ∀ file ∈ files, file.Sound layout before fs
  keys : ∀ x, KeyName x → fs (layout.tlsDir ++ [x]) = before (layout.tlsDir ++ [x]) ∨
    ∃ file ∈ files, file.target = layout.tlsDir ++ [x]
  aside : match site with
    | some site => site.Sound layout before fs
    | none => ∀ z rest, fs (layout.siteDir ++ z :: rest) = before (layout.siteDir ++ z :: rest)

/-- An error is that of a restoration, or everything is as before. -/
def Reverted (layout : Layout) (before : Fs) (e : Failure) (fs : Fs) : Prop :=
  (∃ e', e = .restoration e') ∨ Unchanged layout before fs

/-- A success means `R`, and an error can be compensated with the notes. -/
def Compensable {α : Type} (layout : Layout) (before : Fs) (files : List FileRollback)
    (site : Option SiteRollback) (R : α → Sys → Prop) (r : Except Failure α) (s : Sys) : Prop :=
  match r with
  | .ok a => R a s
  | .error _ => Restorable layout before files site s.fs

/-- A success means `R`, and an error leaves everything as before. -/
def Settled {α : Type} (layout : Layout) (before : Fs) (R : α → Sys → Prop)
    (r : Except Failure α) (s : Sys) : Prop :=
  match r with
  | .ok a => R a s
  | .error e => Reverted layout before e s.fs

/-! ### Places -/

section

variable {layout : Layout} {N : Name → Prop} {q : Path} {x : Name}

theorem KeyName.not_scratch_of_le {y : Name} (hx : KeyName x) (h : x <+: y) : ¬ Scratch y := by
  have hapart : Apart x (ascii ".rust-xhttpctl-") := by rcases hx with rfl | rfl <;> decide
  exact hapart.not_below h

theorem KeyName.not_scratch (hx : KeyName x) : ¬ Scratch x :=
  hx.not_scratch_of_le (prefix_refl x)

/-- A name does not begin with both names. -/
theorem KeyName.eq_of_le {x' y : Name} (hx : KeyName x) (hx' : KeyName x') (h : x <+: y)
    (h' : x' <+: y) : x = x' := by
  have hapart : Apart (ascii "fullchain.pem") (ascii "privkey.pem") := by decide
  rcases hx with rfl | rfl <;> rcases hx' with rfl | rfl
  · rfl
  · exact absurd h' (hapart.not_below h)
  · exact absurd h (hapart.not_below h')
  · rfl

/-- The places of `managedDirs` below the root. -/
def dirNames : List Path :=
  [[ascii "etc", ascii "rust-xhttp"], [ascii "etc", ascii "rust-xhttp", ascii "backups"],
    [ascii "etc", ascii "rust-xhttp", ascii "tls"], [ascii "var", ascii "lib", ascii "rust-xhttp"],
    [ascii "var", ascii "lib", ascii "rust-xhttp", ascii "site"],
    [ascii "var", ascii "lib", ascii "rust-xhttp-manager"]]

theorem managedDirs_eq : layout.managedDirs = dirNames.map layout.path := by
  simp [Layout.managedDirs, dirNames, Layout.configDir, Layout.backupsDir, Layout.tlsDir,
    Layout.stateDir, Layout.siteDir, Layout.managerDir, Layout.path]

/-- Such a directory is not inside another one that it does not begin with. -/
theorem not_under_managedDirs {a : Path} (ha : ∀ b ∈ dirNames, a <+: b → a = b)
    (hq : q ∈ layout.managedDirs) : ¬ Under (layout.path a) N q := by
  rw [managedDirs_eq] at hq
  obtain ⟨b, hb, rfl⟩ := mem_map.mp hq
  intro hu
  have hab : a <+: b := (prefix_append_right_inj layout.root).mp hu.below
  rw [ha b hb hab] at hu
  exact not_under_self hu

theorem config_apart_state : Apart layout.configDir layout.stateDir :=
  apart_append.mpr (by decide)

theorem config_apart_site : Apart layout.configDir layout.siteDir :=
  config_apart_state.append_right _

theorem config_apart_manager : Apart layout.configDir layout.managerDir :=
  apart_append.mpr (by decide)

theorem tls_apart_backups : Apart layout.tlsDir layout.backupsDir :=
  entries_apart (by decide)

theorem site_apart_manager : Apart layout.siteDir layout.managerDir := by
  rw [Layout.siteDir, Layout.managerDir, Layout.stateDir, Layout.path, Layout.path,
    append_assoc, apart_append]
  decide

/-- What is in a subdirectory of the configuration. -/
theorem under_config (h : Under (layout.configDir ++ [x]) N q) : Under layout.configDir (· = x) q :=
  under_of_below rfl h.below

end

/-- What `Restorable` depends on. -/
def Relevant (layout : Layout) (files : List FileRollback) (site : Option SiteRollback)
    (q : Path) : Prop :=
  q ∈ layout.managedDirs ∨ q = layout.config ∨
    (∃ x, KeyName x ∧ q = layout.tlsDir ++ [x] ∧ ∀ file ∈ files, file.target ≠ q) ∨
    (∃ file ∈ files, file.backup = some q) ∨ Under layout.siteDir (fun _ => True) q ∨
    ∃ rollback b, site = some rollback ∧ rollback.backup = some b ∧ b <+: q

section

variable {layout : Layout} {before fs fs' : Fs} {files : List FileRollback}
  {site : Option SiteRollback} {q : Path}

theorem FileRollback.Sound.kept {file : FileRollback} (h : file.Sound layout before fs)
    (hkeep : ∀ b, file.backup = some b → fs' b = fs b) : file.Sound layout before fs' := by
  obtain ⟨x, hx, htarget, hcase⟩ := h
  refine ⟨x, hx, htarget, hcase.imp_right ?_⟩
  rintro ⟨y, content, hbackup, hy, hbefore, hcopy⟩
  exact ⟨y, content, hbackup, hy, hbefore, (hkeep _ hbackup).trans hcopy⟩

/-- Changes elsewhere do not matter. -/
theorem Restorable.kept (h : Restorable layout before files site fs)
    (hkeep : ∀ q, Relevant layout files site q → fs' q = fs q) :
    Restorable layout before files site fs' where
  ready d hd := (hkeep d (.inl hd)).trans (h.ready d hd)
  config := (hkeep _ (.inr (.inl rfl))).trans h.config
  noted file hfile :=
    (h.noted file hfile).kept fun b hb => hkeep b (.inr (.inr (.inr (.inl ⟨file, hfile, hb⟩))))
  keys x hx := by
    by_cases hnoted : ∃ file ∈ files, file.target = layout.tlsDir ++ [x]
    · exact .inr hnoted
    · have hsame := hkeep _ (.inr (.inr (.inl ⟨x, hx, rfl, fun file hfile he =>
        hnoted ⟨file, hfile, he⟩⟩)))
      exact (h.keys x hx).imp_left hsame.trans
  aside := by
    have haside := h.aside
    cases site with
    | none =>
      intro z rest
      exact (hkeep _ (.inr (.inr (.inr (.inr (.inl ⟨z, rest, trivial, rfl⟩)))))).trans
        (haside z rest)
    | some rollback =>
      obtain ⟨htarget, y, hy, hbackup, hcontent⟩ := haside
      refine ⟨htarget, y, hy, hbackup, fun z rest => ?_⟩
      exact (hkeep _ (.inr (.inr (.inr (.inr (.inr ⟨rollback, _, rfl, hbackup,
        prefix_append ..⟩)))))).trans (hcontent z rest)

/-- The places of what is relevant. -/
theorem Relevant.place (hq : Relevant layout files site q)
    (h : Restorable layout before files site fs) :
    q ∈ layout.managedDirs ∨
      Under layout.configDir (fun z => z = ascii "config.json" ∨ z = ascii "tls" ∨
        z = ascii "backups") q ∨
      layout.siteDir <+: q ∨ Under layout.managerDir (ascii "site-backup-" <+: ·) q := by
  rcases hq with hq | rfl | ⟨x, -, rfl, -⟩ | ⟨file, hfile, hb⟩ | hq | ⟨rollback, b, rfl, hb, hq⟩
  · exact .inl hq
  · exact .inr (.inl ⟨_, [], .inl rfl, rfl⟩)
  · exact .inr (.inl (under_of_below (.inr (.inl rfl)) (prefix_append ..)))
  · obtain ⟨x, -, -, ⟨hnone, -⟩ | ⟨y, content, hy, -⟩⟩ := h.noted file hfile
    · cases hnone.symm.trans hb
    · cases hy.symm.trans hb
      exact .inr (.inl (under_of_below (.inr (.inr rfl)) (prefix_append ..)))
  · exact .inr (.inr (.inl hq.below))
  · obtain ⟨-, y, hy, hbackup, -⟩ := h.aside
    cases hbackup.symm.trans hb
    exact .inr (.inr (.inr (under_of_below hy hq)))

variable {x : Name}

/-- A write in the directory of the configuration, next to what is managed. -/
theorem Restorable.config_write (h : Restorable layout before files site fs)
    (hframe : ∀ q, ¬ Under layout.configDir
      (fun z => ascii ".config.candidate" <+: z ∨ Scratch z) q → fs' q = fs q) :
    Restorable layout before files site fs' := by
  have hnames : ∀ z, z = ascii "config.json" ∨ z = ascii "tls" ∨ z = ascii "backups" →
      ¬ (ascii ".config.candidate" <+: z ∨ Scratch z) := by
    unfold Scratch
    rintro z (rfl | rfl | rfl) <;> decide
  refine h.kept fun q hq => hframe q fun hu => ?_
  rcases hq.place h with hd | hq | hq | hq
  · simp only [Layout.managedDirs, mem_cons, not_mem_nil, or_false] at hd
    rcases hd with rfl | rfl | rfl | rfl | rfl | rfl
    · exact not_under_self hu
    · exact hnames _ (.inr (.inr rfl)) (under_append.mp hu)
    · exact hnames _ (.inr (.inl rfl)) (under_append.mp hu)
    · exact config_apart_site.1 (hu.below.trans (prefix_append ..))
    · exact config_apart_site.1 hu.below
    · exact config_apart_manager.1 hu.below
  · exact hq.disjoint hnames hu
  · exact config_apart_site.not_below hu.below hq
  · exact config_apart_manager.not_below hu.below hq.below

/-- A new site is staged. -/
theorem Restorable.manager_write (h : Restorable layout before files site fs)
    (hframe : ∀ q, ¬ Under layout.managerDir (ascii "site-new." <+: ·) q → fs' q = fs q) :
    Restorable layout before files site fs' := by
  have hapart : Apart (ascii "site-backup-") (ascii "site-new.") := by decide
  refine h.kept fun q hq => hframe q fun hu => ?_
  rcases hq.place h with hd | hq | hq | hq
  · exact not_under_managedDirs (by decide) hd hu
  · exact config_apart_manager.not_below hq.below hu.below
  · exact site_apart_manager.not_below hq hu.below
  · exact hq.disjoint (fun z hz => hapart.not_below hz) hu

/-! ## The way back -/

variable {writes : Footprint} {may : Op → Prop} {host : Host} {s : Sys}
  {allowed : Sys → Op → Outcome → Prop} {p : Path} {file : FileRollback} {N : Name → Prop}
  {α : Type} {R : α → Sys → Prop}

theorem removeFileIfPresent_obeys :
    Obeys (protocolWhere writes allowed) s (removeFileIfPresent p) fun r s' =>
      (∀ q, q ≠ p → s'.fs q = s.fs q) ∧ (r = .ok () → s'.fs p = none) := by
  refine obeys_call fun o _ => ?_
  have hframe : ∀ q, q ≠ p → (answer writes s.fs o (.removeFile p)).2 q = s.fs q :=
    fun q hq => answer_untouched writes (beq_eq_false_iff_ne.mpr hq)
  by_cases hmissing : (o.ok && (s.fs p).isNone) = true
  · have hnone : s.fs p = none := by simpa using (Bool.and_eq_true_iff.mp hmissing).2
    have ha : answer writes s.fs o (.removeFile p) = (.error .notFound, s.fs) := by
      simp only [answer, hmissing, if_true]
    simp only [Sys.answer, ha]
    exact ⟨fun _ _ => rfl, fun _ => hnone⟩
  · have ha : answer writes s.fs o (.removeFile p) =
        guarded s.fs (o.ok && s.fs p != some .dir) () (s.fs.set p none) := by
      simp only [answer, hmissing]
      rfl
    rw [ha] at hframe
    cases hok : (o.ok && s.fs p != some .dir) with
    | true =>
      simp only [Sys.answer, ha, hok, guarded, if_true] at hframe ⊢
      exact ⟨hframe, fun _ => set_self⟩
    | false =>
      simp only [Sys.answer, ha, hok, guarded] at hframe ⊢
      exact ⟨fun _ _ => rfl, fun hr => by cases hr⟩

theorem restoreFile_obeys [Failing allowed may] {x : Name} (hs : file.Sound layout before s.fs)
    (hx : KeyName x) (htarget : file.target = layout.tlsDir ++ [x])
    (htls : s.fs layout.tlsDir = some .dir) :
    Obeys (protocolWhere writes allowed) s (restoreFile host file) fun r s' =>
      (∀ q, ¬ Under layout.tlsDir (fun z => z = x ∨ Scratch z) q → s'.fs q = s.fs q) ∧
        (r = .ok () → s'.fs (layout.tlsDir ++ [x]) = before (layout.tlsDir ++ [x])) := by
  obtain ⟨-, -, -, ⟨hbackup, hbefore⟩ | ⟨y, content, hbackup, -, hbefore, hcopy⟩⟩ := hs
  · rw [restoreFile, hbackup, htarget]
    rw [htarget] at hbefore
    refine removeFileIfPresent_obeys.imp fun r s' h => ⟨fun q hq => h.1 q ?_, fun hr => ?_⟩
    · rintro rfl
      exact hq ⟨x, [], .inl rfl, rfl⟩
    · rw [h.2 hr, hbefore]
  · rw [restoreFile, hbackup, htarget]
    rw [htarget] at hbefore
    refine (copyAtomic_placed htls hx.not_scratch).imp fun r s' h => ⟨h.frame, fun hr => ?_⟩
    obtain ⟨content', hsrc, hdst⟩ := h.ok hr
    cases hsrc.symm.trans hcopy
    rw [hdst, hbefore]

theorem not_under_tls_backups {y : Name} :
    ¬ Under layout.tlsDir N (layout.backupsDir ++ [y]) := fun hu =>
  (tls_apart_backups.append_right [y]).1 hu.below

/-- The copies are elsewhere than the key files. -/
theorem FileRollback.Sound.of_tls (h : file.Sound layout before fs)
    (hframe : ∀ q, ¬ Under layout.tlsDir N q → fs' q = fs q) : file.Sound layout before fs' := by
  refine h.kept fun b hb => ?_
  obtain ⟨-, -, -, ⟨hnone, -⟩ | ⟨y, -, hy, -⟩⟩ := h
  · cases hnone.symm.trans hb
  · cases hy.symm.trans hb
    exact hframe _ not_under_tls_backups

theorem FileRollback.Sound.of_config (h : file.Sound layout before fs)
    (hconfig : ∀ q, layout.configDir <+: q → fs' q = fs q) : file.Sound layout before fs' := by
  refine h.kept fun b hb => ?_
  obtain ⟨-, -, -, ⟨hnone, -⟩ | ⟨y, -, hy, -⟩⟩ := h
  · cases hnone.symm.trans hb
  · cases hy.symm.trans hb
    exact hconfig _ ((prefix_append ..).trans (prefix_append ..))

/-- Each key file is as before, if it was or has a note. -/
theorem restoreFiles_obeys [Failing allowed may]
    (hs : ∀ file ∈ files, file.Sound layout before s.fs) (htls : s.fs layout.tlsDir = some .dir) :
    Obeys (protocolWhere writes allowed) s (restoreFiles host files) fun r s' =>
      (∀ q, ¬ Under layout.tlsDir (fun z => KeyName z ∨ Scratch z) q → s'.fs q = s.fs q) ∧
        (r = .ok () → ∀ x, KeyName x →
          (s.fs (layout.tlsDir ++ [x]) = before (layout.tlsDir ++ [x]) ∨
            ∃ file ∈ files, file.target = layout.tlsDir ++ [x]) →
          s'.fs (layout.tlsDir ++ [x]) = before (layout.tlsDir ++ [x])) := by
  induction files generalizing s with
  | nil =>
    refine ⟨fun _ _ => rfl, fun _ x _ hcase => ?_⟩
    simpa using hcase
  | cons file files ih =>
    obtain ⟨x, hx, htarget, -⟩ := id (hs file mem_cons_self)
    have hwide : ∀ {q}, ¬ Under layout.tlsDir (fun z => KeyName z ∨ Scratch z) q →
        ¬ Under layout.tlsDir (fun z => z = x ∨ Scratch z) q := fun hq hu =>
      hq (hu.mono fun z => Or.imp_left fun hz => hz ▸ hx)
    refine (restoreFile_obeys (hs file mem_cons_self) hx htarget htls).bind ?_ ?_
    · exact fun e s₁ h => ⟨fun q hq => h.1 q (hwide hq), fun hr => by cases hr⟩
    rintro _ s₁ ⟨hframe₁, hok₁⟩
    have hs₁ : ∀ file ∈ files, file.Sound layout before s₁.fs := fun file' hfile' =>
      (hs file' (mem_cons_of_mem _ hfile')).of_tls hframe₁
    have htls₁ : s₁.fs layout.tlsDir = some .dir := (hframe₁ _ not_under_self).trans htls
    refine (ih hs₁ htls₁).imp fun r s' h => ⟨fun q hq => ?_, fun hr x' hx' hcase => ?_⟩
    · exact (h.1 q hq).trans (hframe₁ q (hwide hq))
    · refine h.2 hr x' hx' ?_
      by_cases he : x' = x
      · exact .inl (he ▸ hok₁ rfl)
      · have hsame : s₁.fs (layout.tlsDir ++ [x']) = s.fs (layout.tlsDir ++ [x']) := by
          refine hframe₁ _ fun hu => ?_
          exact (under_append.mp hu).elim he hx'.not_scratch
        refine hcase.imp hsame.trans ?_
        rintro ⟨file', hfile', htarget'⟩
        rcases mem_cons.mp hfile' with rfl | hfile'
        · have := append_cancel_left (htarget.symm.trans htarget')
          simp only [List.cons.injEq, and_true] at this
          exact absurd this.symm he
        · exact ⟨file', hfile', htarget'⟩

theorem calls_removeIfExists {A : Op → Prop} (hstat : A (.stat p)) (hremove : A (.removeDirAll p)) :
    (removeIfExists p).Calls A := by
  refine calls_bind (calls_bind (calls_metadata hstat) fun _ => trivial) fun b => ?_
  cases b with
  | true => exact calls_sys hremove
  | false => trivial

/-- The old site is moved back. -/
theorem restoreSite_obeys {site : SiteRollback} (hs : site.Sound layout before s.fs) :
    Obeys (protocolWhere writes allowed) s (restoreSite site) fun r s' =>
      (∀ q, ¬ layout.siteDir <+: q → ¬ layout.managerDir <+: q → s'.fs q = s.fs q) ∧
        (r = .ok () → ∀ z rest,
          s'.fs (layout.siteDir ++ z :: rest) = before (layout.siteDir ++ z :: rest)) := by
  obtain ⟨htarget, y, -, hbackup, hcontent⟩ := hs
  rw [restoreSite, htarget, hbackup]
  have hcalls : (removeIfExists layout.siteDir).Calls fun op => ∀ q, ¬ layout.siteDir <+: q →
      op.touches writes q = false :=
    calls_removeIfExists (fun _ _ => rfl) fun q hq => isPrefixOf_eq_false.mpr hq
  refine (obeys_untouched hcalls).bind ?_ fun _ s₁ h₁ => ?_
  · exact fun e s₁ h => ⟨fun q hq _ => h q hq, fun hr => by cases hr⟩
  refine rename_obeys.imp ?_
  rintro r s' (⟨rfl, -, hfs, -⟩ | ⟨⟨e, rfl⟩, hfs⟩)
  · refine ⟨fun q hq hq' => ?_, fun _ z rest => ?_⟩
    · have hout : ¬ layout.managerDir ++ [y] <+: q := fun h => hq' ((prefix_append ..).trans h)
      rw [hfs, move_elsewhere hout hq, h₁ q hq]
    · rw [hfs, move_below, h₁ _ fun h => ?_, hcontent]
      refine site_apart_manager.not_below h ?_
      exact (prefix_append ..).trans (prefix_append ..)
  · exact ⟨fun q hq _ => (congrFun hfs q).trans (h₁ q hq), fun hr => by cases hr⟩

/-- The part for the site, if there is one. -/
theorem restoreAside_obeys (h : Restorable layout before files site s.fs) :
    Obeys (protocolWhere writes allowed) s (restoreAside site) fun r s' =>
      (∀ q, ¬ layout.siteDir <+: q → ¬ layout.managerDir <+: q → s'.fs q = s.fs q) ∧
        (r = .ok () → ∀ z rest,
          s'.fs (layout.siteDir ++ z :: rest) = before (layout.siteDir ++ z :: rest)) := by
  have haside := h.aside
  cases site with
  | some site => exact restoreSite_obeys haside
  | none => exact ⟨fun _ _ _ => rfl, fun _ => haside⟩

/-- A restoration that succeeds brings everything back. -/
theorem restoreResources_obeys [Failing allowed may]
    (h : Restorable layout before files site s.fs) :
    Obeys (protocolWhere writes allowed) s (restoreResources host files site)
      (Settled layout before fun _ s' => Unchanged layout before s'.fs) := by
  have hout : ∀ {q}, layout.configDir <+: q → ¬ layout.siteDir <+: q ∧ ¬ layout.managerDir <+: q :=
    fun hq => ⟨config_apart_site.not_below hq, config_apart_manager.not_below hq⟩
  refine Prog.obeys_mapError ((restoreAside_obeys h).bind ?_ ?_)
  · exact fun e s₁ _ => .inl ⟨e, rfl⟩
  rintro _ s₁ ⟨hframe₁, hsite₁⟩
  have hkeep₁ : ∀ q, layout.configDir <+: q → s₁.fs q = s.fs q := fun q hq =>
    hframe₁ q (hout hq).1 (hout hq).2
  have hs₁ : ∀ file ∈ files.reverse, file.Sound layout before s₁.fs := fun file hfile =>
    (h.noted file (mem_reverse.mp hfile)).of_config hkeep₁
  have htls₁ : s₁.fs layout.tlsDir = some .dir :=
    (hkeep₁ layout.tlsDir (prefix_append ..)).trans h.ready.tls
  refine (restoreFiles_obeys hs₁ htls₁).imp fun r s' h' => ?_
  cases r with
  | error e => exact .inl ⟨e, rfl⟩
  | ok =>
    rintro q (rfl | ⟨x, hx, rfl⟩ | ⟨z, rest, -, rfl⟩)
    · have hu : ¬ Under layout.tlsDir (fun z => KeyName z ∨ Scratch z) layout.config := fun hu =>
        absurd (under_append.mp (under_config hu)) (by decide)
      rw [h'.1 _ hu, hkeep₁ layout.config (prefix_append ..), h.config]
    · refine h'.2 rfl x hx ?_
      refine (h.keys x hx).imp ?_ ?_
      · exact (hkeep₁ _ ((prefix_append ..).trans (prefix_append ..))).trans
      · rintro ⟨file, hfile, htarget⟩
        exact ⟨file, mem_reverse.mpr hfile, htarget⟩
    · have hu : ¬ Under layout.tlsDir (fun z => KeyName z ∨ Scratch z)
          (layout.siteDir ++ z :: rest) := fun hu =>
        config_apart_site.not_below (under_config hu).below (prefix_append ..)
      rw [h'.1 _ hu, hsite₁ rfl]

/-- A part of which an error is compensated. -/
theorem orRestore_obeys [Failing allowed may] {body : Task α}
    (h : Obeys (protocolWhere writes allowed) s body (Compensable layout before files site R)) :
    Obeys (protocolWhere writes allowed) s (orRestore host files site body)
      (Settled layout before R) := by
  refine obeys_attempt (h.imp fun r s₁ h₁ => ?_)
  cases r with
  | ok a => exact h₁
  | error e =>
    refine (restoreResources_obeys h₁).bind ?_ ?_
    · exact fun x s' h => h
    · exact fun _ s' h => .inr h

/-- A sequence of parts that leave everything as before when they fail. -/
theorem settled_bind {β : Type} {p : Task α} {f : α → Task β} {R' : β → Sys → Prop}
    (hp : Obeys (protocolWhere writes allowed) s p (Settled layout before R))
    (hf : ∀ a s', R a s' → Obeys (protocolWhere writes allowed) s' (f a)
      (Settled layout before R')) :
    Obeys (protocolWhere writes allowed) s (p >>= f) (Settled layout before R') :=
  hp.bind (fun _ _ h => h) hf

end

/-! ## The key files -/

/-- The key files are files or absent. -/
def PlainKeys (layout : Layout) (fs : Fs) : Prop :=
  ∀ x, KeyName x → fs (layout.tlsDir ++ [x]) = none ∨
    ∃ content, fs (layout.tlsDir ++ [x]) = some (.file content)

/-- The queries for the key files do not fail. -/
def SeesKeys (layout : Layout) (may : Op → Prop) : Prop :=
  ∀ x, KeyName x → ¬ may (.stat (layout.tlsDir ++ [x]))

/-- Nothing has changed but the key files and their copies, and that there are new directories. -/
def KeysOnly (layout : Layout) (fs fs' : Fs) : Prop :=
  ∀ q, ¬ Under layout.tlsDir (fun _ => True) q → ¬ Under layout.backupsDir (fun _ => True) q →
    fs' q = fs q ∨
      ((q <+: layout.tlsDir ∨ q <+: layout.backupsDir) ∧ fs q = none ∧ fs' q = some .dir)

/-- With the notes the key files can be brought back as they were in `before`. -/
structure Noted (layout : Layout) (before : Fs) (files : List FileRollback) (fs : Fs) : Prop where
  tls : fs layout.tlsDir = some .dir
  noted : ∀ file ∈ files, file.Sound layout before fs
  keys : ∀ x, KeyName x → fs (layout.tlsDir ++ [x]) = before (layout.tlsDir ++ [x]) ∨
    ∃ file ∈ files, file.target = layout.tlsDir ++ [x]
  plain : ∀ x, KeyName x → fs (layout.tlsDir ++ [x]) ≠ some .dir

/-- A success means `R`. An error is that of a restoration, or it leaves the key files as they
were. -/
def KeysSettled {α : Type} (layout : Layout) (before fs : Fs) (R : α → Sys → Prop)
    (r : Except Failure α) (s : Sys) : Prop :=
  KeysOnly layout fs s.fs ∧ match r with
    | .ok a => R a s
    | .error e => (∃ e', e = .restoration e') ∨
      ∀ x, KeyName x → s.fs (layout.tlsDir ++ [x]) = before (layout.tlsDir ++ [x])

section

variable {layout : Layout} {before fs fs' fs'' : Fs} {files : List FileRollback} {q : Path}
  {x : Name}

theorem KeysOnly.trans (h : KeysOnly layout fs fs') (h' : KeysOnly layout fs' fs'') :
    KeysOnly layout fs fs'' := by
  intro q htls hbackups
  rcases h' q htls hbackups with hsame' | ⟨hplace, hnone', hdir⟩
  · rw [hsame']
    exact h q htls hbackups
  · rcases h q htls hbackups with hsame | ⟨-, -, hdir'⟩
    · exact .inr ⟨hplace, hsame.symm.trans hnone', hdir⟩
    · cases hnone'.symm.trans hdir'

theorem KeysOnly.kept (h : KeysOnly layout fs fs') (htls : ¬ Under layout.tlsDir (fun _ => True) q)
    (hbackups : ¬ Under layout.backupsDir (fun _ => True) q) {node : Node}
    (hq : fs q = some node) : fs' q = some node := by
  rcases h q htls hbackups with hsame | ⟨-, hnone, -⟩
  · exact hsame.trans hq
  · cases hnone.symm.trans hq

/-- What is neither below nor above the two directories. -/
theorem KeysOnly.frame (h : KeysOnly layout fs fs') (htls : Apart layout.tlsDir q)
    (hbackups : Apart layout.backupsDir q) : fs' q = fs q := by
  refine (h q (fun hu => htls.1 hu.below) fun hu => hbackups.1 hu.below).resolve_right ?_
  rintro ⟨hle | hle, -⟩
  · exact htls.2 hle
  · exact hbackups.2 hle

theorem not_under_backups_tls {N : Name → Prop} {rest : Path} :
    ¬ Under layout.backupsDir N (layout.tlsDir ++ rest) := fun hu =>
  tls_apart_backups.not_below (prefix_append ..) hu.below

theorem not_prefix_backups {rest : Path} : ¬ layout.tlsDir ++ rest <+: layout.backupsDir := fun h =>
  tls_apart_backups.1 ((prefix_append ..).trans h)

theorem Noted.start (htls : fs layout.tlsDir = some .dir)
    (hsame : ∀ x, KeyName x → fs (layout.tlsDir ++ [x]) = before (layout.tlsDir ++ [x]))
    (hplain : PlainKeys layout before) : Noted layout before [] fs where
  tls := htls
  noted _ hfile := by cases hfile
  keys x hx := .inl (hsame x hx)
  plain x hx hdir := by
    rw [hsame x hx] at hdir
    rcases hplain x hx with hnone | ⟨content, hfile⟩
    · cases hnone.symm.trans hdir
    · cases hfile.symm.trans hdir

theorem Noted.note {file : FileRollback} (h : Noted layout before files fs)
    (hfile : file.Sound layout before fs) : Noted layout before (files ++ [file]) fs where
  tls := h.tls
  noted file' hfile' := by
    rcases mem_append.mp hfile' with hfile' | hfile'
    · exact h.noted file' hfile'
    · cases mem_singleton.mp hfile'
      exact hfile
  keys x hx := by
    refine (h.keys x hx).imp_right ?_
    rintro ⟨file', hfile', htarget⟩
    exact ⟨file', mem_append_left _ hfile', htarget⟩
  plain := h.plain

/-- Changes elsewhere do not matter. -/
theorem Noted.of_config (h : Noted layout before files fs)
    (hconfig : ∀ q, layout.configDir <+: q → fs' q = fs q) : Noted layout before files fs' := by
  have htls : ∀ x : Name, fs' (layout.tlsDir ++ [x]) = fs (layout.tlsDir ++ [x]) := fun x =>
    hconfig _ ((prefix_append ..).trans (prefix_append ..))
  refine ⟨(hconfig _ (prefix_append ..)).trans h.tls,
    fun file hfile => (h.noted file hfile).of_config hconfig, fun x hx => ?_, fun x hx => ?_⟩
  · rw [htls]
    exact h.keys x hx
  · rw [htls]
    exact h.plain x hx

/-- A key file with a note is written. -/
theorem Noted.tls_write (h : Noted layout before files fs)
    (hnoted : ∃ file ∈ files, file.target = layout.tlsDir ++ [x])
    (hframe : ∀ q, ¬ Under layout.tlsDir (fun z => z = x ∨ Scratch z) q → fs' q = fs q)
    (htarget : fs' (layout.tlsDir ++ [x]) = fs (layout.tlsDir ++ [x]) ∨
      ∃ content, fs' (layout.tlsDir ++ [x]) = some (.file content)) :
    Noted layout before files fs' := by
  have hother : ∀ {x'}, KeyName x' → x' ≠ x →
      fs' (layout.tlsDir ++ [x']) = fs (layout.tlsDir ++ [x']) := fun hx' hne =>
    hframe _ fun hu => (under_append.mp hu).elim hne hx'.not_scratch
  refine ⟨(hframe _ not_under_self).trans h.tls, fun file hfile => ?_, fun x' hx' => ?_,
    fun x' hx' => ?_⟩
  · exact (h.noted file hfile).of_tls hframe
  · by_cases he : x' = x
    · exact .inr (he ▸ hnoted)
    · exact (h.keys x' hx').imp_left (hother hx' he).trans
  · by_cases he : x' = x
    · subst he
      rcases htarget with hsame | ⟨content, hfile⟩
      · rw [hsame]
        exact h.plain x' hx'
      · simp [hfile]
    · rw [hother hx' he]
      exact h.plain x' hx'

/-- The copy of a key file without a note is written. -/
theorem Noted.backups_write (h : Noted layout before files fs) (hx : KeyName x)
    (hnew : ∀ file ∈ files, file.target ≠ layout.tlsDir ++ [x])
    (hframe : ∀ q, ¬ Under layout.backupsDir (fun z => x <+: z ∨ Scratch z) q →
      ¬ q <+: layout.backupsDir → fs' q = fs q) : Noted layout before files fs' := by
  have htls : ∀ rest, fs' (layout.tlsDir ++ rest) = fs (layout.tlsDir ++ rest) := fun rest =>
    hframe _ not_under_backups_tls not_prefix_backups
  refine ⟨?_, fun file hfile => ?_, fun x' hx' => ?_, fun x' hx' => ?_⟩
  · have := htls []
    rw [append_nil] at this
    exact this.trans h.tls
  · refine (h.noted file hfile).kept fun b hb => ?_
    obtain ⟨x', hx', htarget, ⟨hnone, -⟩ | ⟨y, -, hy, hle, -⟩⟩ := h.noted file hfile
    · cases hnone.symm.trans hb
    · cases hy.symm.trans hb
      refine hframe _ (fun hu => ?_) entry_not_above
      rcases under_append.mp hu with hle' | hscratch
      · cases hx.eq_of_le hx' hle' hle
        exact hnew file hfile htarget
      · exact hx'.not_scratch_of_le hle hscratch
  · rw [htls]
    exact h.keys x' hx'
  · rw [htls]
    exact h.plain x' hx'

variable {writes : Footprint} {may : Op → Prop} {host : Host} {s : Sys}
  {allowed : Sys → Op → Outcome → Prop} {certificate privateKey source : Path} {mode : Nat}
  {α : Type} {R : α → Sys → Prop}

/-- A copy with a name that begins with `x`, in a directory that may have to be made first. -/
theorem backup_frame {y : Name} {r : Except Failure Unit} {s₁ s₂ : Sys} (hy : x <+: y)
    (hgrown : fs.Grown layout.backupsDir s₁.fs)
    (h : Placed source layout.backupsDir y Scratch s₁ r s₂) :
    KeysOnly layout fs s₂.fs ∧
      ∀ q, ¬ Under layout.backupsDir (fun z => x <+: z ∨ Scratch z) q →
        ¬ q <+: layout.backupsDir → s₂.fs q = fs q := by
  refine ⟨fun q _ hq => ?_, fun q hq hq' => ?_⟩
  · rw [h.frame q fun hu => hq (hu.mono fun _ _ => trivial)]
    exact (hgrown q).imp_right fun hnew => ⟨.inr hnew.1, hnew.2⟩
  · have hout : ¬ Under layout.backupsDir (fun z => z = y ∨ Scratch z) q := fun hu =>
      hq (hu.mono fun z => Or.imp_left fun hz => hz ▸ hy)
    rw [h.frame q hout, hgrown.frame hq']

/-- The note of a key file, with a copy if there is one. -/
theorem snapshotFile_obeys [Failing allowed may] {label : Bytes} (hx : KeyName x)
    (hlabel : label ++ ascii ".pem" = x) (htls : s.fs layout.tlsDir = some .dir)
    (hsame : s.fs (layout.tlsDir ++ [x]) = before (layout.tlsDir ++ [x]))
    (hplain : before (layout.tlsDir ++ [x]) = none ∨
      ∃ content, before (layout.tlsDir ++ [x]) = some (.file content))
    (hmay : ¬ may (.stat (layout.tlsDir ++ [x]))) :
    Obeys (protocolWhere writes allowed) s
      (snapshotFile host layout (layout.tlsDir ++ [x]) label mode) fun r s' =>
        KeysOnly layout s.fs s'.fs ∧
        (∀ q, ¬ Under layout.backupsDir (fun z => x <+: z ∨ Scratch z) q →
          ¬ q <+: layout.backupsDir → s'.fs q = s.fs q) ∧
        ∀ file, r = .ok file →
          file.target = layout.tlsDir ++ [x] ∧ file.Sound layout before s'.fs := by
  refine obeys_query fun b s₁ hfs₁ _ hcase => ?_
  have hcase := hcase.resolve_right fun h => hmay h.2.1
  rw [follow_dir htls, hsame] at hcase
  cases b with
  | false =>
    have hnone : before (layout.tlsDir ++ [x]) = none := by
      rcases hplain with hplain | ⟨content, hplain⟩
      · exact hplain
      · simp [hplain] at hcase
    refine ⟨fun q _ _ => .inl (congrFun hfs₁ q), fun q _ _ => congrFun hfs₁ q, fun file hfile => ?_⟩
    cases hfile
    exact ⟨rfl, x, hx, rfl, .inl ⟨rfl, hnone⟩⟩
  | true =>
    refine obeys_uniquePath fun draw s₂ _ hfs₂ _ => ?_
    have hy : x <+: uniqueName host.pid (label ++ ascii ".pem") draw := by
      simp only [uniqueName, hlabel, append_assoc]
      exact prefix_append ..
    generalize uniqueName host.pid (label ++ ascii ".pem") draw = y at hy ⊢
    have hfs : s₂.fs = s.fs := hfs₂.trans hfs₁
    refine (copyAtomic_grown (hx.not_scratch_of_le hy)).bind ?_ ?_
    · rintro e s₄ ⟨s₃, hgrown, -, h⟩
      obtain ⟨honly, hframe⟩ := backup_frame hy (hfs ▸ hgrown) h
      exact ⟨honly, hframe, fun file hfile => by cases hfile⟩
    rintro _ s₄ ⟨s₃, hgrown, -, h⟩
    obtain ⟨honly, hframe⟩ := backup_frame hy (hfs ▸ hgrown) h
    refine ⟨honly, hframe, fun file hfile => ?_⟩
    cases hfile
    obtain ⟨content, hsrc, hdst⟩ := h.ok rfl
    rw [hgrown.frame not_prefix_backups, hfs, hsame] at hsrc
    exact ⟨rfl, x, hx, rfl, .inr ⟨y, content, rfl, hy, hsrc, hdst⟩⟩

theorem KeysOnly.of_tls {N : Name → Prop} (h : ∀ q, ¬ Under layout.tlsDir N q → fs' q = fs q) :
    KeysOnly layout fs fs' :=
  fun q hq _ => .inl (h q fun hu => hq (hu.mono fun _ _ => trivial))

/-- A restoration of the key files that succeeds brings both back. -/
theorem restoreKeys_obeys [Failing allowed may] (h : Noted layout before files s.fs) :
    Obeys (protocolWhere writes allowed) s (restoreResources host files none) fun r s' =>
      KeysOnly layout s.fs s'.fs ∧ match r with
        | .ok _ => ∀ x, KeyName x → s'.fs (layout.tlsDir ++ [x]) = before (layout.tlsDir ++ [x])
        | .error e => ∃ e', e = .restoration e' := by
  have hs : ∀ file ∈ files.reverse, file.Sound layout before s.fs := fun file hfile =>
    h.noted file (mem_reverse.mp hfile)
  refine Prog.obeys_mapError ((restoreFiles_obeys hs h.tls).imp fun r s' h' => ⟨.of_tls h'.1, ?_⟩)
  cases r with
  | error e => exact ⟨e, rfl⟩
  | ok =>
    intro x hx
    refine h'.2 rfl x hx ((h.keys x hx).imp_right ?_)
    rintro ⟨file, hfile, htarget⟩
    exact ⟨file, mem_reverse.mpr hfile, htarget⟩

/-- A part of which an error is compensated, as far as the key files are concerned. -/
theorem orRestoreKeys_obeys [Failing allowed may] {α : Type} {body : Task α}
    {R : α → Sys → Prop}
    (h : Obeys (protocolWhere writes allowed) s body fun r s' => KeysOnly layout fs s'.fs ∧
      match r with
      | .ok a => R a s'
      | .error _ => Noted layout before files s'.fs) :
    Obeys (protocolWhere writes allowed) s (orRestore host files none body)
      (KeysSettled layout before fs R) := by
  refine obeys_attempt (h.imp fun r s₁ h₁ => ?_)
  cases r with
  | ok a => exact h₁
  | error e =>
    refine (restoreKeys_obeys h₁.2).bind ?_ ?_
    · exact fun e s₂ h₂ => ⟨h₁.1.trans h₂.1, .inl h₂.2⟩
    · exact fun _ s₂ h₂ => ⟨h₁.1.trans h₂.1, .inr h₂.2⟩

theorem keysSettled_bind {β : Type} {p : Task α} {f : α → Task β} {R' : β → Sys → Prop}
    (hp : Obeys (protocolWhere writes allowed) s p (KeysSettled layout before fs R))
    (hf : ∀ a s', KeysOnly layout fs s'.fs → R a s' →
      Obeys (protocolWhere writes allowed) s' (f a) (KeysSettled layout before fs R')) :
    Obeys (protocolWhere writes allowed) s (p >>= f) (KeysSettled layout before fs R') :=
  hp.bind (fun _ _ h => h) fun a s' h => hf a s' h.1 h.2

/-- A key file with a note is replaced. -/
theorem replaceKey_obeys [Failing allowed may] (hx : KeyName x) (honly : KeysOnly layout fs s.fs)
    (h : Noted layout before files s.fs)
    (hnoted : ∃ file ∈ files, file.target = layout.tlsDir ++ [x]) :
    Obeys (protocolWhere writes allowed) s
      (orRestore host files none (copyAtomic host.pid source (layout.tlsDir ++ [x]) mode))
      (KeysSettled layout before fs fun _ s' => Noted layout before files s'.fs) := by
  refine orRestoreKeys_obeys ((copyAtomic_placed h.tls hx.not_scratch).imp fun r s' h' => ?_)
  have hn : Noted layout before files s'.fs := h.tls_write hnoted h'.frame h'.target
  refine ⟨honly.trans (.of_tls h'.frame), ?_⟩
  cases r with
  | ok => exact hn
  | error e => exact hn

/-- The two key files are replaced and noted. -/
theorem installManualTls_noted [Failing allowed may]
    (hsame : ∀ x, KeyName x → s.fs (layout.tlsDir ++ [x]) = before (layout.tlsDir ++ [x]))
    (hplain : PlainKeys layout before) (hmay : SeesKeys layout may) :
    Obeys (protocolWhere writes allowed) s
      (installManualTls host layout certificate privateKey)
      (KeysSettled layout before s.fs fun files s' => Noted layout before files s'.fs) := by
  have hchain : KeyName (ascii "fullchain.pem") := .inl rfl
  have hkey : KeyName (ascii "privkey.pem") := .inr rfl
  have hkeys : ∀ {s₁ : Sys}, s.fs.Grown layout.tlsDir s₁.fs → KeysOnly layout s.fs s₁.fs ∧
      ∀ x, KeyName x → s₁.fs (layout.tlsDir ++ [x]) = before (layout.tlsDir ++ [x]) := by
    intro s₁ hgrown
    refine ⟨fun q _ _ => (hgrown q).imp_right fun hnew => ⟨.inl hnew.1, hnew.2⟩, fun x hx => ?_⟩
    rw [hgrown.frame entry_not_above, hsame x hx]
  refine createDir_grown.bind (fun e s₁ h => ?_) fun _ s₁ h => ?_
  · exact ⟨(hkeys h.1).1, .inr (hkeys h.1).2⟩
  obtain ⟨honly₁, hsame₁⟩ := hkeys h.1
  have h₁ : Noted layout before [] s₁.fs := .start (h.2.2 rfl) hsame₁ hplain
  have hnone : ∀ file ∈ ([] : List FileRollback),
      file.target ≠ layout.tlsDir ++ [ascii "fullchain.pem"] := fun _ hf => by cases hf
  refine (snapshotFile_obeys hchain (by decide) h₁.tls (hsame₁ _ hchain) (hplain _ hchain)
    (hmay _ hchain)).bind (fun e s₂ hs => ⟨honly₁.trans hs.1, .inr fun x hx => ?_⟩)
    fun chain s₂ hs => ?_
  · simpa using (h₁.backups_write hchain hnone hs.2.1).keys x hx
  obtain ⟨htarget, hsound⟩ := hs.2.2 _ rfl
  have h₂ : Noted layout before [chain] s₂.fs :=
    (h₁.backups_write hchain hnone hs.2.1).note hsound
  refine keysSettled_bind (replaceKey_obeys hchain (honly₁.trans hs.1) h₂
    ⟨chain, mem_singleton_self _, htarget⟩) fun _ s₃ honly₃ h₃ => ?_
  -- the key file has no note yet
  have hnew : ∀ file ∈ [chain], file.target ≠ layout.tlsDir ++ [ascii "privkey.pem"] := by
    intro file hfile he
    cases mem_singleton.mp hfile
    exact absurd (append_cancel_left (htarget.symm.trans he)) (by decide)
  have hsame₃ := (h₃.keys _ hkey).resolve_right fun ⟨file, hfile, he⟩ => hnew file hfile he
  refine keysSettled_bind (orRestoreKeys_obeys (R := fun key s' =>
      Noted layout before [chain, key] s'.fs ∧
        key.target = layout.tlsDir ++ [ascii "privkey.pem"])
    ((snapshotFile_obeys hkey (by decide) h₃.tls hsame₃ (hplain _ hkey) (hmay _ hkey)).imp
      fun r s₄ hs => ⟨honly₃.trans hs.1, ?_⟩)) fun key s₄ honly₄ h₄ => ?_
  · have h₄ : Noted layout before [chain] s₄.fs := h₃.backups_write hkey hnew hs.2.1
    cases r with
    | ok key => exact ⟨h₄.note (hs.2.2 _ rfl).2, (hs.2.2 _ rfl).1⟩
    | error e => exact h₄
  exact keysSettled_bind (replaceKey_obeys hkey honly₄ h₄.1 ⟨key, by simp, h₄.2⟩)
    fun _ s₅ honly₅ h₅ => ⟨honly₅, h₅⟩

theorem Restorable.of_unchanged (hready : Ready layout fs) (h : Unchanged layout before fs) :
    Restorable layout before [] none fs where
  ready := hready
  config := h _ (.inl rfl)
  noted _ hfile := by cases hfile
  keys x hx := .inl (h _ (.inr (.inl ⟨x, hx, rfl⟩)))
  aside z rest := h _ (.inr (.inr ⟨z, rest, trivial, rfl⟩))

theorem Restorable.unchanged (h : Restorable layout before [] none fs) :
    Unchanged layout before fs := by
  rintro q (rfl | ⟨x, hx, rfl⟩ | ⟨z, rest, -, rfl⟩)
  · exact h.config
  · simpa using h.keys x hx
  · exact h.aside z rest

theorem KeysOnly.config (h : KeysOnly layout fs fs') : fs' layout.config = fs layout.config :=
  h.frame (apart_append.mpr (by decide)) (apart_append.mpr (by decide))

/-- What is not in the directory of the configuration. -/
theorem KeysOnly.outside {q : Path} (h : KeysOnly layout fs fs') (hq : Apart layout.configDir q) :
    fs' q = fs q :=
  h.frame (hq.append_left _) (hq.append_left _)

/-- The two key files are replaced and noted, in an installation whose directories are there. -/
theorem installManualTls_obeys [Failing allowed may] (h : Restorable layout before [] none s.fs)
    (hplain : PlainKeys layout before) (hmay : SeesKeys layout may) :
    Obeys (protocolWhere writes allowed) s
      (installManualTls host layout certificate privateKey)
      (Settled layout before fun files s' => Restorable layout before files none s'.fs) := by
  have hsame : ∀ x, KeyName x → s.fs (layout.tlsDir ++ [x]) = before (layout.tlsDir ++ [x]) :=
    fun x hx => by simpa using h.keys x hx
  refine (installManualTls_noted hsame hplain hmay).imp ?_
  rintro r s' ⟨honly, hr⟩
  have hconfig : s'.fs layout.config = before layout.config := honly.config.trans h.config
  have hsite : ∀ z rest, s'.fs (layout.siteDir ++ z :: rest) =
      before (layout.siteDir ++ z :: rest) := fun z rest =>
    (honly.outside (config_apart_site.append_right _)).trans (h.aside z rest)
  cases r with
  | ok files =>
    have hnoted : Noted layout before files s'.fs := hr
    refine ⟨fun d hd => ?_, hconfig, hnoted.noted, hnoted.keys, hsite⟩
    refine honly.kept ?_ ?_ (h.ready d hd)
    · rw [Layout.tlsDir, Layout.configDir, Layout.path, append_assoc]
      exact not_under_managedDirs (by decide) hd
    · rw [Layout.backupsDir, Layout.configDir, Layout.path, append_assoc]
      exact not_under_managedDirs (by decide) hd
  | error e =>
    refine Or.imp_right (fun hkeys => ?_) hr
    rintro q (rfl | ⟨x, hx, rfl⟩ | ⟨z, rest, -, rfl⟩)
    · exact hconfig
    · exact hkeys x hx
    · exact hsite z rest

/-! ## The site -/

/-- What an operation in the directory of the new site does not concern. -/
def Outside (writes : Footprint) (d : Path) (op : Op) : Prop :=
  ∀ q, ¬ Under d (fun _ => True) q → op.touches writes q = false

variable {site : Option SiteRollback} {backup d destination staging : Path} {name y : Name}
  {recurse : Path → Path → Task Unit}

theorem outside_entry (hq : ¬ Under d (fun _ => True) q) : (q == d ++ [name]) = false := by
  rw [beq_eq_false_iff_ne]
  rintro rfl
  exact hq ⟨name, [], trivial, rfl⟩

theorem calls_copyEntry (h : ∀ source, (recurse source (d ++ [name])).Calls (Outside writes d)) :
    (copyEntry recurse source d name).Calls (Outside writes d) := by
  refine calls_bind (calls_metadata fun _ _ => rfl) fun node => ?_
  split
  · trivial
  · trivial
  · refine calls_bind (calls_sys fun q hq => outside_entry hq) fun _ => ?_
    exact calls_bind (calls_sys fun _ _ => rfl) fun _ => h _
  · refine calls_bind (calls_sys fun q hq => outside_entry hq) fun _ => ?_
    exact calls_sys fun _ _ => rfl

theorem calls_copyEntries (names : List Name)
    (h : ∀ source name, (recurse source (d ++ [name])).Calls (Outside writes d)) :
    (copyEntries recurse source d names).Calls (Outside writes d) := by
  induction names with
  | nil => trivial
  | cons name names ih =>
    exact calls_bind (calls_copyEntry fun source => h source name) fun _ => ih

/-- A tree is copied into the directory and to nowhere else. -/
theorem calls_copySiteTree (levels : Nat) (source d : Path) :
    (copySiteTree levels source d).Calls (Outside writes d) := by
  induction levels generalizing source d with
  | zero => trivial
  | succ levels ih =>
    refine calls_bind (calls_sys fun _ _ => rfl) fun names => ?_
    refine calls_copyEntries _ fun source name => (ih source (d ++ [name])).imp ?_
    rintro op hop q hq
    refine hop q fun hu => hq ?_
    obtain ⟨z, rest, -, rfl⟩ := hu
    exact ⟨name, z :: rest, trivial, by simp⟩

theorem stageSite_obeys :
    Obeys (protocolWhere writes allowed) s (stageSite source d) fun r s' =>
      (∀ q, ¬ d <+: q → s'.fs q = s.fs q) ∧ (r = .ok () → s'.fs d = s.fs d) := by
  refine obeys_attempt ((obeys_untouched (calls_copySiteTree 33 source d)).imp
    fun r s₁ h₁ => ?_)
  have hkeep₁ : ∀ q, ¬ d <+: q → s₁.fs q = s.fs q := fun q hq => h₁ q fun hu => hq hu.below
  cases r with
  | ok => exact ⟨hkeep₁, fun _ => h₁ d not_under_self⟩
  | error e =>
    have hcalls : (sys (.removeDirAll d) : Task Unit).Calls fun op => ∀ q, ¬ d <+: q →
        op.touches writes q = false := calls_sys fun q hq => isPrefixOf_eq_false.mpr hq
    refine (ignore_obeys (obeys_untouched hcalls)).bind (fun x s₂ h => by cases h.1) ?_
    rintro _ s₂ ⟨-, _, h₂⟩
    exact ⟨fun q hq => (h₂ q hq).trans (hkeep₁ q hq), fun hr => by cases hr⟩

theorem setAside_obeys [Failing allowed may] :
    Obeys (protocolWhere writes allowed) s (setAside destination backup) fun r s' =>
      match r with
      | .ok none => s'.fs = s.fs ∧
        (s.fs (s.fs.follow destination) = none ∨ may (.stat destination))
      | .ok (some b) => b = backup ∧ s'.fs = s.fs.move destination backup ∧
        s.fs.canRename destination backup = true
      | .error _ => s'.fs = s.fs := by
  refine obeys_query fun b s₁ hfs₁ _ hcase => ?_
  cases b with
  | false =>
    refine ⟨hfs₁, hcase.imp (fun hnone => ?_) fun h => h.2.1⟩
    simpa using hnone
  | true =>
    refine rename_obeys.bind ?_ ?_
    · rintro e s₂ (⟨he, -⟩ | ⟨-, hfs₂⟩)
      · cases he
      · exact hfs₂.trans hfs₁
    · rintro _ s₂ (⟨-, hcan, hfs₂, -⟩ | ⟨⟨e, he⟩, -⟩)
      · exact ⟨rfl, hfs₁ ▸ hfs₂, hfs₁ ▸ hcan⟩
      · cases he

/-- A new site that is in place has been renamed. -/
theorem putInPlace_ok {previous : Option Path} :
    Obeys (protocolWhere writes allowed) s (putInPlace staging destination previous)
      fun r s' => r = .ok () → s'.fs = s.fs.move staging destination := by
  refine obeys_attempt (rename_obeys.imp ?_)
  rintro r s₁ (⟨rfl, -, hfs, -⟩ | ⟨⟨e, rfl⟩, -⟩)
  · exact fun _ => hfs
  · have hcalls : (putBack destination previous).Calls fun _ => True := by
      cases previous with
      | none => trivial
      | some backup =>
        exact calls_bind (Prog.calls_attempt (calls_sys trivial)) fun _ => trivial
    refine Obeys.bind (obeys_of_calls (J := fun _ => True) (fun _ _ _ _ _ => trivial) hcalls
      trivial) (fun x s₂ _ h => by cases h) fun _ s₂ _ h => by cases h

/-- The old site is still there: a directory does not take its name. -/
theorem putInPlace_none (hdir : s.fs destination = some .dir) :
    Obeys (oneFailure writes may) s (putInPlace staging destination none) fun r s' =>
      (∃ e, r = .error e) ∧ s'.fs = s.fs := by
  refine obeys_attempt (rename_obeys.imp ?_)
  rintro r s₁ (⟨rfl, hcan, -⟩ | ⟨⟨e, rfl⟩, hfs⟩)
  · simp [Fs.canRename, hdir] at hcan
  · exact ⟨⟨e, rfl⟩, hfs⟩

/-- The name is free: the new site gets it, or the rename is the one failure and the old site gets
it back. -/
theorem putInPlace_some (hstaging : s.fs staging = some .dir) (hbackup : s.fs backup = some .dir)
    (hfree : s.fs destination = none) (hout : ¬ staging <+: destination)
    (hout' : ¬ backup <+: destination) :
    Obeys (oneFailure writes may) s (putInPlace staging destination (some backup)) fun r s' =>
      match r with
      | .ok _ => s'.fs = s.fs.move staging destination
      | .error _ => s'.fs = s.fs.move backup destination := by
  have hcan : ∀ {src}, s.fs src = some .dir → ¬ src <+: destination →
      s.fs.canRename src destination = true := by
    intro src hsrc hpre
    simp [Fs.canRename, hsrc, hfree, isPrefixOf_eq_false.mpr hpre]
  refine obeys_attempt ((obeys_sys_spec fun o => pass_rename (hcan hstaging hout)).imp ?_)
  rintro r s₁ (⟨rfl, hp⟩ | ⟨⟨e, rfl⟩, -, hb⟩)
  · exact hp.fs
  · have hfs : s₁.fs = s.fs := hb.fs_eq rfl
    have hcan₁ : s₁.fs.canRename backup destination = true := hfs ▸ hcan hbackup hout'
    refine (ignore_obeys (obeys_sys_second (Nat.zero_lt_of_lt hb.lt) fun o =>
      pass_rename hcan₁)).bind (fun x s₂ h => by cases h.1) ?_
    rintro _ s₂ ⟨-, _, -, hp⟩
    exact hp.fs.trans (by rw [hfs])

/-- The site is changed, and nothing else but names of sites in the manager's directory. -/
theorem Restorable.site_write (h : Restorable layout before files none fs)
    (hkeep : ∀ q, ¬ layout.siteDir <+: q → ¬ Under layout.managerDir (fun _ => True) q →
      fs' q = fs q)
    (hdir : fs' layout.siteDir = some .dir)
    (haside : match site with
      | some site => site.Sound layout before fs'
      | none => ∀ z rest,
        fs' (layout.siteDir ++ z :: rest) = before (layout.siteDir ++ z :: rest)) :
    Restorable layout before files site fs' := by
  have hconfig : ∀ q, layout.configDir <+: q → fs' q = fs q := fun q hq =>
    hkeep q (config_apart_site.not_below hq) fun hu =>
      config_apart_manager.not_below hq hu.below
  refine ⟨fun d hd => ?_, ?_, fun file hfile => ?_, fun x hx => ?_, haside⟩
  · by_cases hd' : layout.siteDir <+: d
    · have heq : d = layout.siteDir := by
        have hnot : ¬ Under layout.siteDir (fun _ => True) d := by
          rw [Layout.siteDir, Layout.stateDir, Layout.path, append_assoc]
          exact not_under_managedDirs (by decide) hd
        obtain ⟨rest, rfl⟩ := hd'
        cases rest with
        | nil => simp
        | cons z rest => exact absurd ⟨z, rest, trivial, rfl⟩ hnot
      rw [heq, hdir]
    · rw [hkeep d hd' (not_under_managedDirs (by decide) hd), h.ready d hd]
  · exact (hconfig layout.config (prefix_append ..)).trans h.config
  · exact (h.noted file hfile).of_config hconfig
  · exact (h.keys x hx).imp_left
      (hconfig _ ((prefix_append ..).trans (prefix_append ..))).trans

/-! ### Two renames

The site goes to the name `y` of the manager's directory, and a staged site `x` takes its place. -/

theorem staging_ne_backup (hx : ascii "site-new." <+: x) (hy : ascii "site-backup-" <+: y) :
    x ≠ y := by
  rintro rfl
  have hapart : Apart (ascii "site-new.") (ascii "site-backup-") := by decide
  exact hapart.not_below hx hy

theorem site_apart_entry (z : Name) : Apart layout.siteDir (layout.managerDir ++ [z]) :=
  site_apart_manager.append_right [z]

theorem aside_frame (hq : ¬ layout.siteDir <+: q)
    (hq' : ¬ Under layout.managerDir (fun _ => True) q) :
    fs.move layout.siteDir (layout.managerDir ++ [y]) q = fs q :=
  move_elsewhere hq fun hle => hq' (under_of_below trivial hle)

theorem placed_frame (hq : ¬ layout.siteDir <+: q)
    (hq' : ¬ Under layout.managerDir (fun _ => True) q) :
    fs.move (layout.managerDir ++ [x]) layout.siteDir q = fs q :=
  move_elsewhere (fun hle => hq' (under_of_below trivial hle)) hq

/-- The staged site stays where it is while the old one goes. -/
theorem aside_staging (hxy : x ≠ y) :
    fs.move layout.siteDir (layout.managerDir ++ [y]) (layout.managerDir ++ [x]) =
      fs (layout.managerDir ++ [x]) :=
  move_elsewhere (site_apart_entry x).1 (entries_apart hxy).2

/-- And the old one stays in its backup while the new one comes. -/
theorem placed_backup (hxy : x ≠ y) (rest : Path) :
    fs.move (layout.managerDir ++ [x]) layout.siteDir (layout.managerDir ++ [y] ++ rest) =
      fs (layout.managerDir ++ [y] ++ rest) :=
  move_elsewhere ((entries_apart hxy).append_right rest).1
    ((site_apart_entry y).append_right rest).1

/-- The renames of `install_site`, from a staged site `x` and the backup name `y`. -/
theorem exchangeSite_obeys (h : Restorable layout before files none s.fs)
    (hx : ascii "site-new." <+: x) (hy : ascii "site-backup-" <+: y)
    (hstaging : s.fs (layout.managerDir ++ [x]) = some .dir) :
    Obeys (oneFailure writes may) s
      (do
        let previous ← setAside layout.siteDir (layout.managerDir ++ [y])
        putInPlace (layout.managerDir ++ [x]) layout.siteDir previous
        pure ⟨layout.siteDir, previous⟩ : Task SiteRollback)
      (Compensable layout before files none fun site s' =>
        Restorable layout before files (some site) s'.fs) := by
  have hxy : x ≠ y := staging_ne_backup hx hy
  refine setAside_obeys.bind (fun e s₁ hfs => ?_) ?_
  · show Restorable layout before files none s₁.fs
    exact hfs ▸ h
  rintro previous s₁ hprevious
  cases previous with
  | none =>
    have h₁ : Restorable layout before files none s₁.fs := by
      have hfs : s₁.fs = s.fs := hprevious.1
      exact hfs ▸ h
    refine (putInPlace_none h₁.ready.site).bind ?_ ?_
    · rintro e s₂ ⟨-, hfs₂⟩
      show Restorable layout before files none s₂.fs
      exact hfs₂ ▸ h₁
    · rintro _ s₂ ⟨⟨e, he⟩, -⟩
      cases he
  | some b =>
    obtain ⟨rfl, hfs₁, -⟩ := hprevious
    have hfree : s₁.fs layout.siteDir = none := by
      rw [hfs₁, Fs.move, isPrefixOf_eq_false.mpr (site_apart_entry y).2, isPrefixOf_self]
      rfl
    have hold : ∀ rest, s₁.fs (layout.managerDir ++ [y] ++ rest) = s.fs (layout.siteDir ++ rest) :=
      fun rest => by rw [hfs₁, move_below]
    have hbackup₁ : s₁.fs (layout.managerDir ++ [y]) = some .dir := by
      have := hold []
      rw [append_nil, append_nil] at this
      rw [this, h.ready.site]
    have hstaging₁ : s₁.fs (layout.managerDir ++ [x]) = some .dir := by
      rw [hfs₁, aside_staging hxy, hstaging]
    have hkeep₂ : ∀ z, ∀ q, ¬ layout.siteDir <+: q → ¬ Under layout.managerDir (fun _ => True) q →
        s₁.fs.move (layout.managerDir ++ [z]) layout.siteDir q = s.fs q := by
      intro z q hq hq'
      rw [placed_frame hq hq', hfs₁, aside_frame hq hq']
    refine (putInPlace_some hstaging₁ hbackup₁ hfree (site_apart_entry x).2
      (site_apart_entry y).2).bind ?_ ?_
    · intro e s₂ hfs₂
      have hfs₂ : s₂.fs = s₁.fs.move (layout.managerDir ++ [y]) layout.siteDir := hfs₂
      show Restorable layout before files none s₂.fs
      rw [hfs₂]
      refine h.site_write (hkeep₂ y) (by rw [move_at, hbackup₁]) fun z rest => ?_
      rw [move_below, hold]
      exact h.aside z rest
    · intro _ s₂ hfs₂
      have hfs₂ : s₂.fs = s₁.fs.move (layout.managerDir ++ [x]) layout.siteDir := hfs₂
      show Restorable layout before files (some ⟨layout.siteDir, _⟩) s₂.fs
      rw [hfs₂]
      refine h.site_write (hkeep₂ x) (by rw [move_at, hstaging₁]) ⟨rfl, y, hy, rfl, ?_⟩
      intro z rest
      rw [placed_backup hxy, hold]
      exact h.aside z rest

/-- The site is replaced and noted, or it is as it was. -/
theorem installSite_obeys (h : Restorable layout before files none s.fs) :
    Obeys (oneFailure writes may) s (installSite host layout source)
      (Compensable layout before files none fun site s' =>
        Restorable layout before files (some site) s'.fs) := by
  have hname : ascii "site-new" ++ ascii "." = ascii "site-new." := by decide
  refine (uniqueDirectory_obeys (ascii "site-new")).bind (fun e s₁ hm => ?_) fun staging s₁ hm => ?_
  · exact h.manager_write (hname ▸ hm.frame)
  have h₁ : Restorable layout before files none s₁.fs := h.manager_write (hname ▸ hm.frame)
  obtain ⟨x, hx, rfl, hdir₁, -⟩ := hm.ok _ rfl
  rw [hname] at hx
  have hout : ∀ {q}, ¬ Under layout.managerDir (ascii "site-new." <+: ·) q →
      ¬ layout.managerDir ++ [x] <+: q := fun hq hle => hq (under_of_below hx hle)
  refine stageSite_obeys.bind (fun e s₂ hst => ?_) fun _ s₂ hst => ?_
  · exact h₁.manager_write fun q hq => hst.1 q (hout hq)
  have h₂ : Restorable layout before files none s₂.fs :=
    h₁.manager_write fun q hq => hst.1 q (hout hq)
  refine obeys_sys_look (fun _ => rfl) (fun e s₃ hfs₃ => ?_) fun _ stamp s₃ _ hfs₃ => ?_
  · show Restorable layout before files none s₃.fs
    exact hfs₃ ▸ h₂
  refine exchangeSite_obeys (hfs₃ ▸ h₂) hx (prefix_append ..) ?_
  rw [hfs₃, hst.2 rfl, hdir₁]

end

end Xhttp.Manage
