import RustXhttp.Manage.Resources

/-!
# Installation (`src/management.rs`, `install`)

`install` makes the directories, selects a configuration, replaces the key files and the site that
go with it, and validates the configuration under a temporary name. Up to there an error is
compensated (`prepareInstall`). The rest (`commitInstall`) renames the configuration into place,
installs the binaries and the unit and starts the service; its errors are returned as they are.

* `prepareInstall_obeys`: an error leaves the managed files as they were.
* `config_changes_revert`: the same for `edit_config` and `install`, with the errors that leave a
  change behind.
-/

namespace Xhttp.Manage

open Os List
open Prog (Obeys ObeysVia calls_bind)

/-! ## The operations -/

structure InstallOptions where
  serverBinary : Path
  ctlBinary : Path
  configSource : Option Path
  layout : Layout
  assumeYes : Bool
  noStart : Bool

/-- A configuration from the dialogue, without what is only printed. -/
structure GeneratedConfig where
  source : Bytes
  manualTls : Option (Path × Path)
  distSource : Option Path

/-- What `install` does not decide: who runs it, the text of the unit, the check of a configuration
text, and the dialogue with the user, which reads files only. -/
structure Setup extends Tools where
  isRoot : Bool
  systemdUnit : Bytes
  validateConfigSource : Bytes → Except Failure Unit
  confirmReuse : Except Failure Bool
  interactiveConfig : Task GeneratedConfig
  interactive_looks : interactiveConfig.Calls Op.looks

/-- `status().is_ok_and(success)`. -/
def succeeds (command : List Bytes) : Task Bool := do
  let r ← Prog.perform (.run command)
  pure r.isOk

/-- The home directory and the shell of an account that the installer has made. -/
def managedAccount (record : Bytes) : Bool :=
  let fields := (trim record).splitOn 58
  fields[5]? == some (ascii "/var/lib/rust-xhttp") &&
    fields[6]?.any fun shell =>
      (ascii "/nologin").isSuffixOf shell || (ascii "/false").isSuffixOf shell

def checkAccount : Task Unit := do
  let stdout ← runOutput [ascii "getent", ascii "passwd", ascii "rust-xhttp"]
  let record ← Prog.ofExcept (fromUtf8 stdout)
  if managedAccount record then pure ()
  else .fail (.message (ascii <| "an unmanaged rust-xhttp account already exists; " ++
    "choose a clean host account name"))

/-- The first of the paths that exists. -/
def firstShell : List Path → Task Path
  | [] => pure [ascii "bin", ascii "false"]
  | path :: paths => do
    if ← pathExists path then pure path
    else firstShell paths

def addAccount : Task Unit := do
  let shell ← firstShell [[ascii "usr", ascii "sbin", ascii "nologin"],
    [ascii "sbin", ascii "nologin"], [ascii "bin", ascii "false"]]
  runChecked [ascii "useradd", ascii "--system", ascii "--user-group", ascii "--home-dir",
    ascii "/var/lib/rust-xhttp", ascii "--no-create-home", ascii "--shell", display shell,
    ascii "rust-xhttp"]

def ensureSystemUser : Task Unit := do
  let userExists ← succeeds [ascii "id", ascii "-u", ascii "rust-xhttp"]
  let groupExists ← succeeds [ascii "getent", ascii "group", ascii "rust-xhttp"]
  if userExists then
    if !groupExists then
      .fail (.message (ascii <| "existing rust-xhttp user has no matching group; " ++
        "refusing to repurpose it"))
    else checkAccount
  else if groupExists then
    .fail (.message (ascii <| "an unmanaged rust-xhttp group already exists; " ++
      "refusing to repurpose it"))
  else addAccount

def createDirs : List (Path × Nat) → Task Unit
  | [] => pure ()
  | (p, mode) :: dirs => do
    createDir p mode
    createDirs dirs

/-- The directories of an installation, with their modes. -/
def Layout.directories (layout : Layout) : List (Path × Nat) :=
  [(layout.configDir, 0o750), (layout.backupsDir, 0o700), (layout.tlsDir, 0o750),
    (layout.stateDir, 0o750), (layout.stateDir ++ [ascii "acme"], 0o700), (layout.siteDir, 0o750),
    (layout.managerDir, 0o700), (layout.unitDir, 0o755), (layout.binDir, 0o755)]

def prepareDirectories (layout : Layout) : Task Unit := createDirs layout.directories

def whenSystem (layout : Layout) (task : Task Unit) : Task Unit :=
  if layout.isSystem then task else pure ()

section

variable (host : Host) (setup : Setup) (options : InstallOptions)

def requireRoot : Except Failure Unit :=
  if setup.isRoot then .ok ()
  else .error (.message (ascii "this operation requires root; run it with sudo"))

def readConfig (source : Path) : Task Bytes := do
  let content ← sys (.read source)
  Prog.ofExcept (fromUtf8 content)

/-- `fs::read_to_string` of the file that an option names. -/
def readSource (source : Path) : Task Bytes := do
  match ← (readConfig source).attempt with
  | .ok text => pure text
  | .error error =>
    .fail (.because (ascii "cannot read config " ++ display source ++ ascii ": ") error)

/-- Whether the installed configuration is used again. -/
def reuseConfig : Task Bool := do
  if ← isFile options.layout.config then
    if options.assumeYes then pure true
    else Prog.ofExcept setup.confirmReuse
  else pure false

def selectConfig : Task (Bytes × Option GeneratedConfig) := do
  match options.configSource with
  | some source =>
    let text ← readSource source
    Prog.ofExcept (setup.validateConfigSource text)
    pure (text, none)
  | none =>
    if ← reuseConfig setup options then
      let text ← readConfig options.layout.config
      pure (text, none)
    else
      let generated ← setup.interactiveConfig
      pure (generated.source, some generated)

/-- `install` up to the first change of a managed file. -/
def beginInstall : Task (Bytes × Option GeneratedConfig) := do
  Prog.ofExcept (ensureSupportedPlatform host)
  whenSystem options.layout (Prog.ofExcept (requireRoot setup))
  verifyBinary options.serverBinary (ascii "rust-xhttp")
  verifyBinary options.ctlBinary (ascii "rust-xhttpctl")
  requireMatchingVersions options.serverBinary options.ctlBinary none
  whenSystem options.layout ensureSystemUser
  prepareDirectories options.layout
  let (configSource, generated) ← selectConfig setup options
  Prog.ofExcept (setup.validateConfigSource configSource)
  pure (configSource, generated)

def installKeys : Option (Path × Path) → Task (List FileRollback)
  | some (certificate, privateKey) => installManualTls host options.layout certificate privateKey
  | none => pure []

def installDist (files : List FileRollback) : Option Path → Task (Option SiteRollback)
  | some source => do
    let site ← orRestore host files none (installSite host options.layout source)
    pure (some site)
  | none => pure none

/-- The key files and the site of a generated configuration. -/
def installResources :
    Option GeneratedConfig → Task (List FileRollback × Option SiteRollback)
  | some details => do
    let files ← installKeys host options details.manualTls
    let site ← installDist host options files details.distSource
    pure (files, site)
  | none => pure ([], none)

def checkCandidate (candidate : Path) : Task Unit := do
  match ← (setup.validateFile candidate).attempt with
  | .ok () => pure ()
  | .error error =>
    ignore (sys (.removeFile candidate))
    .fail error

/-- What `install` has done when the configuration is valid. -/
structure Prepared where
  candidate : Path
  files : List FileRollback
  site : Option SiteRollback

def prepareInstall : Task Prepared := do
  let (configSource, generated) ← beginInstall host setup options
  let (files, site) ← installResources host options generated
  let candidate ← uniquePath host.pid options.layout.configDir (ascii ".config.candidate")
  orRestore host files site (atomicWrite host.pid candidate configSource 0o640)
  orRestore host files site (checkCandidate setup candidate)
  pure ⟨candidate, files, site⟩

def backupIfPresent : Task Unit := do
  if ← pathExists options.layout.config then
    let _ ← backupConfig host options.layout options.layout.config
    pure ()
  else pure ()

def startService : Task Unit := do
  if options.noStart then pure ()
  else
    runChecked [ascii "systemctl", ascii "enable", ascii "rust-xhttp"]
    runChecked restartCommand
    runChecked isActiveCommand

def finishInstall : Task Unit := do
  if options.layout.isSystem then
    applyOwnership options.layout
    setup.validateFile options.layout.config
    runChecked [ascii "systemctl", ascii "daemon-reload"]
    startService options
  else setup.validateFile options.layout.config

/-- `install` from the rename of the configuration on. -/
def installFiles (candidate : Path) : Task Unit := do
  sys (.rename candidate options.layout.config)
  syncDirectory options.layout.configDir
  copyAtomic host.pid options.serverBinary options.layout.serverBinary 0o755
  copyAtomic host.pid options.ctlBinary options.layout.ctlBinary 0o755
  atomicWrite host.pid options.layout.unit setup.systemdUnit 0o644
  finishInstall setup options

def commitInstall (prepared : Prepared) : Task Unit := do
  backupIfPresent host options
  installFiles host setup options prepared.candidate

def install : Task Unit := do
  let prepared ← prepareInstall host setup options
  commitInstall host setup options prepared

end

/-! ## Up to the first change -/

section

variable {writes : Footprint} {may : Op → Prop} {layout : Layout} {host : Host}
  {setup : Setup} {options : InstallOptions} {before : Fs} {s : Sys} {A : Op → Prop}

variable {q : Path} {α : Type} {p : Task α} {dirs : List (Path × Nat)}

theorem ManagedFile.managed (hq : ManagedFile layout q) : Managed layout q := by
  rcases hq with rfl | ⟨x, -, rfl⟩ | hq
  · exact managed_config
  · exact .inr (.inl (under_of_below (.inr (.inl rfl)) (prefix_append ..)))
  · exact .inr (.inr (.inl hq.below))

/-- A part that touches no managed file. -/
theorem settled_calls
    (hp : p.Calls fun op => ∀ q, ManagedFile layout q → op.touches writes q = false)
    (h : Unchanged layout before s.fs) :
    Obeys (oneFailure writes may) s p
      (Settled layout before fun _ s' => Unchanged layout before s'.fs) := by
  refine (obeys_untouched hp).imp fun r s' h' => ?_
  have hsame : Unchanged layout before s'.fs := fun q hq => (h' q hq).trans (h q hq)
  cases r with
  | ok => exact hsame
  | error e => exact .inr hsame

/-- A part that only reads. -/
theorem settled_looks (hp : p.Calls Op.looks) (h : Restorable layout before [] none s.fs) :
    Obeys (oneFailure writes may) s p
      (Settled layout before fun _ s' => Restorable layout before [] none s'.fs) := by
  have hcalls : p.Calls fun op => ∀ q, True → op.touches writes q = false :=
    hp.imp fun op hop q _ => hop writes q
  refine (obeys_untouched hcalls).imp fun r s' h' => ?_
  have hr : Restorable layout before [] none s'.fs := h.kept fun q _ => h' q trivial
  cases r with
  | ok => exact hr
  | error e => exact .inr hr.unchanged

theorem calls_whenSystem {task : Task Unit} (h : task.Calls A) :
    (whenSystem layout task).Calls A := by
  unfold whenSystem
  split
  · exact h
  · trivial

theorem calls_query {p : Path} {test : Node → Bool} (h : A (.stat p)) : (query p test).Calls A :=
  calls_bind (calls_metadata h) fun _ => trivial

theorem calls_firstShell (hstat : ∀ p, A (.stat p)) (paths : List Path) :
    (firstShell paths).Calls A := by
  induction paths with
  | nil => trivial
  | cons path paths ih =>
    refine calls_bind (calls_query (hstat path)) fun b => ?_
    cases b with
    | true => trivial
    | false => exact ih

theorem calls_succeeds {command : List Bytes} (h : A (.run command)) : (succeeds command).Calls A :=
  ⟨h, fun _ => trivial⟩

theorem calls_ensureSystemUser (hrun : ∀ command, A (.run command)) (hstat : ∀ p, A (.stat p)) :
    ensureSystemUser.Calls A := by
  refine calls_bind (calls_succeeds (hrun _)) fun userExists => ?_
  refine calls_bind (calls_succeeds (hrun _)) fun groupExists => ?_
  cases userExists with
  | true =>
    cases groupExists with
    | false => trivial
    | true =>
      refine calls_bind (calls_runOutput (hrun _)) fun stdout => ?_
      refine calls_bind (calls_ofExcept _) fun record => ?_
      cases managedAccount record with
      | true => trivial
      | false => trivial
  | false =>
    cases groupExists with
    | true => trivial
    | false =>
      exact calls_bind (calls_firstShell hstat _) fun _ => calls_runChecked (hrun _)

theorem calls_createDirs (hmake : ∀ d ∈ dirs, A (.createDirAll d.1))
    (hmode : ∀ p mode, A (.setPermissions p mode)) : (createDirs dirs).Calls A := by
  induction dirs with
  | nil => trivial
  | cons d dirs ih =>
    have hd : (createDir d.1 d.2).Calls A :=
      calls_bind (calls_sys (hmake d mem_cons_self)) fun _ => calls_sys (hmode ..)
    exact calls_bind hd fun _ => ih fun d' h => hmake d' (mem_cons_of_mem _ h)

/-- The directories are there afterwards. -/
theorem createDirs_obeys :
    Obeys (oneFailure writes may) s (createDirs dirs) fun r s' =>
      (∀ q node, s.fs q = some node → s'.fs q = some node) ∧
        (r = .ok () → ∀ d ∈ dirs, s'.fs d.1 = some .dir) := by
  induction dirs generalizing s with
  | nil => exact ⟨fun _ _ h => h, fun _ d hd => by cases hd⟩
  | cons d dirs ih =>
    refine createDir_obeys.bind (fun e s₁ h => ⟨h.kept, fun hr => by cases hr⟩) fun _ s₁ h₁ => ?_
    refine ih.imp fun r s' h => ⟨fun q node hq => h.1 q node (h₁.kept q node hq), ?_⟩
    intro hr d' hd'
    rcases mem_cons.mp hd' with rfl | hd'
    · exact h.1 _ _ (h₁.ok rfl)
    · exact h.2 hr d' hd'

/-- The places of the directories that are made, below the root. -/
def installDirs : List Path :=
  dirNames ++ [[ascii "var", ascii "lib", ascii "rust-xhttp", ascii "acme"],
    [ascii "etc", ascii "systemd", ascii "system"], [ascii "usr", ascii "local", ascii "bin"]]

theorem mem_installDirs {d : Path × Nat} (hd : d ∈ layout.directories) :
    ∃ a ∈ installDirs, d.1 = layout.path a := by
  simp only [Layout.directories, mem_cons, not_mem_nil, or_false] at hd
  rcases hd with rfl | rfl | rfl | rfl | rfl | rfl | rfl | rfl | rfl <;>
    simp [installDirs, dirNames, Layout.path, Layout.configDir, Layout.backupsDir, Layout.tlsDir,
      Layout.stateDir, Layout.siteDir, Layout.managerDir, Layout.unitDir, Layout.binDir]

theorem mem_directories {d : Path} (hd : d ∈ layout.managedDirs) :
    ∃ mode, (d, mode) ∈ layout.directories := by
  simp only [Layout.managedDirs, mem_cons, not_mem_nil, or_false] at hd
  rcases hd with rfl | rfl | rfl | rfl | rfl | rfl
  · exact ⟨0o750, by simp [Layout.directories]⟩
  · exact ⟨0o700, by simp [Layout.directories]⟩
  · exact ⟨0o750, by simp [Layout.directories]⟩
  · exact ⟨0o750, by simp [Layout.directories]⟩
  · exact ⟨0o750, by simp [Layout.directories]⟩
  · exact ⟨0o700, by simp [Layout.directories]⟩

/-- A managed file is no such directory and not above one. -/
theorem ManagedFile.not_below {a : Path} (hq : ManagedFile layout q) (ha : a ∈ installDirs) :
    ¬ q <+: layout.path a := by
  intro hle
  rcases hq with rfl | ⟨x, hx, rfl⟩ | ⟨z, rest, -, rfl⟩
  · have hnot : ∀ a ∈ installDirs,
        ¬ [ascii "etc", ascii "rust-xhttp"] ++ [ascii "config.json"] <+: a := by decide
    rw [Layout.config, Layout.configDir, Layout.path, append_assoc] at hle
    exact hnot a ha ((prefix_append_right_inj _).mp hle)
  · have hnot : ∀ a ∈ installDirs, ∀ x ∈ [ascii "fullchain.pem", ascii "privkey.pem"],
        ¬ [ascii "etc", ascii "rust-xhttp"] ++ ([ascii "tls"] ++ [x]) <+: a := by decide
    rw [Layout.tlsDir, Layout.configDir, Layout.path, append_assoc, append_assoc] at hle
    refine hnot a ha x ?_ ((prefix_append_right_inj _).mp hle)
    simpa [KeyName] using hx
  · have hsite : ∀ a ∈ installDirs,
        [ascii "var", ascii "lib", ascii "rust-xhttp"] ++ [ascii "site"] <+: a →
        a = [ascii "var", ascii "lib", ascii "rust-xhttp", ascii "site"] := by decide
    have hle' : layout.siteDir <+: layout.path a := (prefix_append ..).trans hle
    rw [Layout.siteDir, Layout.stateDir, Layout.path, append_assoc] at hle'
    have heq := hsite a ha ((prefix_append_right_inj _).mp hle')
    have hlen := hle.length_le
    simp only [heq, Layout.siteDir, Layout.stateDir, Layout.path, length_append,
      length_cons, length_nil] at hlen
    omega

theorem prepareDirectories_obeys (h : Unchanged layout before s.fs) :
    Obeys (oneFailure writes may) s (prepareDirectories layout)
      (Settled layout before fun _ s' => Restorable layout before [] none s'.fs) := by
  have hcalls : (prepareDirectories layout).Calls fun op => ∀ q, ManagedFile layout q →
      op.touches writes q = false := by
    refine calls_createDirs (fun d hd q hq => isPrefixOf_eq_false.mpr ?_) fun _ _ _ _ => rfl
    obtain ⟨a, ha, he⟩ := mem_installDirs hd
    rw [he]
    exact hq.not_below ha
  refine ((settled_calls hcalls h).and createDirs_obeys).imp fun r s' h' => ?_
  cases r with
  | error e => exact h'.1
  | ok =>
    refine .of_unchanged (fun d hd => ?_) h'.1
    obtain ⟨mode, hmem⟩ := mem_directories hd
    exact h'.2.2 rfl _ hmem

theorem calls_readConfig {p : Path} (h : A (.read p)) : (readConfig p).Calls A :=
  calls_bind (calls_sys h) fun _ => calls_ofExcept _

/-- The choice of a configuration changes no file. -/
theorem calls_selectConfig : (selectConfig setup options).Calls Op.looks := by
  unfold selectConfig
  split
  · refine calls_bind ?_ fun text => calls_bind (calls_ofExcept _) fun _ => trivial
    refine calls_bind (Prog.calls_attempt (calls_readConfig fun _ _ => rfl)) fun r => ?_
    cases r with
    | ok => trivial
    | error => trivial
  · refine calls_bind ?_ fun reuse => ?_
    · refine calls_bind (calls_query fun _ _ => rfl) fun there => ?_
      cases there with
      | false => trivial
      | true =>
        cases options.assumeYes with
        | true => trivial
        | false => exact calls_ofExcept _
    · cases reuse with
      | true => exact calls_bind (calls_readConfig fun _ _ => rfl) fun _ => trivial
      | false => exact calls_bind setup.interactive_looks fun _ => trivial

theorem beginInstall_obeys (hw : Respects options.layout writes)
    (h : Unchanged options.layout before s.fs) :
    Obeys (oneFailure writes may) s (beginInstall host setup options)
      (Settled options.layout before fun _ s' =>
        Restorable options.layout before [] none s'.fs) := by
  have hrun : ∀ command q, ManagedFile options.layout q →
      (Op.run command).touches writes q = false := fun command q hq => hw command q hq.managed
  refine settled_bind (settled_calls (calls_ofExcept _) h) fun _ s₁ h₁ => ?_
  refine settled_bind (settled_calls (calls_whenSystem (calls_ofExcept _)) h₁) fun _ s₂ h₂ => ?_
  refine settled_bind (settled_calls (calls_verifyBinary (fun _ _ => rfl) (hrun _)) h₂)
    fun _ s₃ h₃ => ?_
  refine settled_bind (settled_calls (calls_verifyBinary (fun _ _ => rfl) (hrun _)) h₃)
    fun _ s₄ h₄ => ?_
  have hversions : (requireMatchingVersions options.serverBinary options.ctlBinary none).Calls
      fun op => ∀ q, ManagedFile options.layout q → op.touches writes q = false :=
    calls_bind (calls_binaryVersion (hrun _)) fun _ =>
      calls_bind (calls_binaryVersion (hrun _)) fun _ => calls_ofExcept _
  refine settled_bind (settled_calls hversions h₄) fun _ s₅ h₅ => ?_
  refine settled_bind (settled_calls
    (calls_whenSystem (calls_ensureSystemUser hrun fun _ _ _ => rfl)) h₅) fun _ s₆ h₆ => ?_
  refine settled_bind (prepareDirectories_obeys h₆) fun _ s₇ h₇ => ?_
  refine settled_bind (settled_looks calls_selectConfig h₇) fun _ s₈ h₈ => ?_
  refine settled_bind (settled_looks (calls_ofExcept _) h₈) fun _ s₉ h₉ => ?_
  exact h₉

/-! ## Up to a valid configuration -/

theorem installResources_obeys {generated : Option GeneratedConfig}
    (h : Restorable options.layout before [] none s.fs) (hplain : PlainKeys options.layout before)
    (hmay : SeesKeys options.layout may) :
    Obeys (oneFailure writes may) s (installResources host options generated)
      (Settled options.layout before fun resources s' =>
        Restorable options.layout before resources.1 resources.2 s'.fs) := by
  cases generated with
  | none => exact h
  | some details =>
    have hkeys : Obeys (oneFailure writes may) s (installKeys host options details.manualTls)
        (Settled options.layout before fun files s' =>
          Restorable options.layout before files none s'.fs) := by
      cases details.manualTls with
      | none => exact h
      | some paths => exact installManualTls_obeys h hplain hmay
    refine settled_bind hkeys fun files s₁ h₁ => ?_
    have hdist : Obeys (oneFailure writes may) s₁
        (installDist host options files details.distSource)
        (Settled options.layout before fun site s' =>
          Restorable options.layout before files site s'.fs) := by
      cases details.distSource with
      | none => exact h₁
      | some source =>
        exact settled_bind (orRestore_obeys (installSite_obeys h₁)) fun site s₂ h₂ => h₂
    exact settled_bind hdist fun site s₂ h₂ => h₂

theorem calls_checkCandidate {candidate : Path} (hlook : ∀ op, Op.looks op → A op)
    (hremove : A (.removeFile candidate)) : (checkCandidate setup candidate).Calls A := by
  refine calls_bind (Prog.calls_attempt (calls_validateFile _ hlook)) fun r => ?_
  cases r with
  | ok => trivial
  | error e => exact calls_bind (calls_ignore (calls_sys hremove)) fun _ => trivial

/-- An error up to here leaves everything as before. -/
theorem prepareInstall_obeys (hw : Respects options.layout writes)
    (hplain : PlainKeys options.layout s.fs) (hmay : SeesKeys options.layout may) :
    Obeys (oneFailure writes may) s (prepareInstall host setup options)
      (Settled options.layout s.fs fun prepared s' =>
        Restorable options.layout s.fs prepared.files prepared.site s'.fs) := by
  refine settled_bind (beginInstall_obeys hw fun _ _ => rfl) ?_
  rintro ⟨configSource, generated⟩ s₁ h₁
  refine settled_bind (installResources_obeys h₁ hplain hmay) ?_
  rintro ⟨files, site⟩ s₂ h₂
  refine obeys_uniquePath fun draw s₃ hfresh hfs₃ _ => ?_
  have h₃ : Restorable options.layout s.fs files site s₃.fs := hfs₃ ▸ h₂
  have hfree : s₃.fs (options.layout.configDir ++
      [uniqueName host.pid (ascii ".config.candidate") draw]) = none := by
    rw [hfs₃]
    exact hfresh options.layout.configDir _ []
  have hname : ascii ".config.candidate" <+:
      uniqueName host.pid (ascii ".config.candidate") draw := by
    simp only [uniqueName, append_assoc]
    exact prefix_append ..
  generalize uniqueName host.pid (ascii ".config.candidate") draw = x at hfree hname ⊢
  have hscratch : ¬ Scratch x := by
    have hapart : Apart (ascii ".config.candidate") (ascii ".rust-xhttpctl-") := by decide
    exact hapart.not_below hname
  have hwrite : Obeys (oneFailure writes may) s₃
      (orRestore host files site
        (atomicWrite host.pid (options.layout.configDir ++ [x]) configSource 0o640))
      (Settled options.layout s.fs fun _ s' =>
        Restorable options.layout s.fs files site s'.fs) := by
    refine orRestore_obeys ((atomicWrite_obeys h₃.ready.config hscratch (by simp [hfree])).imp
      fun r s' h' => ?_)
    have hr : Restorable options.layout s.fs files site s'.fs :=
      h₃.config_write fun q hq => h'.frame q fun hu =>
        hq (hu.mono fun z => Or.imp_left fun hz => hz ▸ hname)
    cases r with
    | ok => exact hr
    | error e => exact hr
  refine settled_bind hwrite fun _ s₄ h₄ => ?_
  have hcheck : Obeys (oneFailure writes may) s₄
      (orRestore host files site (checkCandidate setup (options.layout.configDir ++ [x])))
      (Settled options.layout s.fs fun _ s' =>
        Restorable options.layout s.fs files site s'.fs) := by
    have hcalls : (checkCandidate setup (options.layout.configDir ++ [x])).Calls fun op => ∀ q,
        ¬ Under options.layout.configDir (· = x) q → op.touches writes q = false :=
      calls_checkCandidate (fun op hop q _ => hop writes q) fun q hq => temporary_ne hq
    refine orRestore_obeys ((obeys_untouched hcalls).imp fun r s' h' => ?_)
    have hr : Restorable options.layout s.fs files site s'.fs :=
      h₄.config_write fun q hq => h' q fun hu => hq (hu.mono fun z hz => .inl (hz ▸ hname))
    cases r with
    | ok => exact hr
    | error e => exact hr
  exact settled_bind hcheck fun _ s₅ h₅ => h₅

/-! ## The rest -/

theorem ManagedFile.offBackups (hq : ManagedFile layout q) : OffBackups layout q := by
  rcases hq with rfl | ⟨x, -, rfl⟩ | hq
  · exact offBackups_entry (by decide)
  · exact .inr (tls_apart_backups.append_left [x])
  · obtain ⟨rest, rfl⟩ := hq.below
    exact .inr ((config_apart_site.append_left _).append_right rest).symm

/-- Without key files and a site, only the rename of the configuration is not taken back. -/
theorem commitInstall_obeys {prepared : Prepared}
    (h : Restorable options.layout before [] none s.fs) :
    Obeys (oneFailure writes may) s (commitInstall host setup options prepared) fun r s' =>
      ∀ e, r = .error e → Unchanged options.layout before s'.fs ∨
        ⟨.rename prepared.candidate options.layout.config, true⟩ ∈ s'.trace := by
  have hbackup : Obeys (oneFailure writes may) s (backupIfPresent host options) fun _ s' =>
      Unchanged options.layout before s'.fs := by
    refine obeys_query fun b s₁ hfs₁ _ _ => ?_
    have h₁ : Restorable options.layout before [] none s₁.fs := hfs₁ ▸ h
    cases b with
    | false => exact h₁.unchanged
    | true =>
      have hkeep : ∀ {s₂ : Sys}, (∀ q, OffBackups options.layout q → s₂.fs q = s₁.fs q) →
          Unchanged options.layout before s₂.fs := fun h₂ q hq =>
        (h₂ q hq.offBackups).trans (h₁.unchanged q hq)
      refine (backupConfig_obeys h₁.ready.config (offBackups_entry (by decide))).bind ?_ ?_
      · exact fun e s₂ h₂ => hkeep h₂.1
      · exact fun _ s₂ h₂ => hkeep h₂.1
  refine hbackup.bind (fun e s₁ h₁ _ _ => .inl h₁) fun _ s₁ h₁ => ?_
  refine rename_obeys.bind ?_ ?_
  · rintro e s₂ (⟨he, -⟩ | ⟨-, hfs₂⟩) _ _
    · cases he
    · exact .inl (hfs₂ ▸ h₁)
  · rintro _ s₂ (⟨-, -, -, htrace⟩ | ⟨⟨e, he⟩, -⟩)
    · exact (obeys_mono _).imp fun r s' h' _ _ => .inr (h'.2.subset htrace)
    · cases he

/-- An error of `install` leaves the files as before, or a restoration failed, or it came after the
configuration was found valid and something had been replaced. -/
def InstallEnds (layout : Layout) (before : Fs) (ready : Except Failure Prepared)
    (r : Except Failure Unit) (s' : Sys) : Prop :=
  ∀ e, r = .error e → Unchanged layout before s'.fs ∨ (∃ e', e = .restoration e') ∨
    ∃ prepared, ready = .ok prepared ∧
      (prepared.files ≠ [] ∨ prepared.site ≠ none ∨
        ⟨.rename prepared.candidate layout.config, true⟩ ∈ s'.trace)

theorem install_obeys (hw : Respects options.layout writes)
    (hplain : PlainKeys options.layout s.fs) (hmay : SeesKeys options.layout may) :
    ObeysVia (oneFailure writes may) s (install host setup options)
      (prepareInstall host setup options) (commitInstall host setup options)
      fun ready _ => InstallEnds options.layout s.fs ready := by
  refine (prepareInstall_obeys hw hplain hmay).via rfl ?_ ?_
  · rintro e s₁ h₁ e' he
    cases he
    exact h₁.elim (fun h => .inr (.inl h)) .inl
  rintro prepared s₁ h₁
  by_cases hnone : prepared.files = [] ∧ prepared.site = none
  · have h₁' : Restorable options.layout s.fs [] none s₁.fs := by
      have h₁ : Restorable options.layout s.fs prepared.files prepared.site s₁.fs := h₁
      rwa [hnone.1, hnone.2] at h₁
    refine (commitInstall_obeys h₁').imp fun r s' h e he => ?_
    rcases h e he with hsame | htrace
    · exact .inl hsame
    · exact .inr (.inr ⟨prepared, rfl, .inr (.inr htrace)⟩)
  · refine (obeys_mono _).imp fun r s' _ e _ => .inr (.inr ⟨prepared, rfl, ?_⟩)
    rcases Classical.not_and_iff_not_or_not.mp hnone with hfiles | hsite
    · exact .inl hfiles
    · exact .inr (.inl hsite)

end

section

variable {writes : Footprint} (host : Host) (setup : Setup)
  (options : InstallOptions)

/-- After one failure an error of `edit_config` leaves the configuration as it was, unless the
failure was between the rename and the restart; and an error of `install` leaves the configuration,
the key files and the site, unless a restoration failed or the error came after the configuration
was found valid, with something replaced by then. -/
theorem config_changes_revert (hw : Respects options.layout writes) (fs : Fs) :
    (∀ old, fs options.layout.configDir = some .dir →
      fs options.layout.config = some (.file old) →
      Obeys (oneFailure writes fun _ => True) (.start fs)
        (editConfig host setup.toTools options.layout) fun r s' => ∀ e, r = .error e →
          s'.fs options.layout.config = some (.file old) ∨
            Interrupted options.layout s'.trace) ∧
    (PlainKeys options.layout fs →
      ObeysVia
        (oneFailure writes fun op => ∀ x, KeyName x → op ≠ .stat (options.layout.tlsDir ++ [x]))
        (.start fs) (install host setup options) (prepareInstall host setup options)
        (commitInstall host setup options) fun ready _ => InstallEnds options.layout fs ready) := by
  refine ⟨fun old hdir hold => ?_, fun hplain => ?_⟩
  · exact editConfig_obeys hw (Nat.zero_le 1) hdir hold
  · exact install_obeys hw hplain fun x hx h => h x hx rfl

end

/-! ### An installation with a certificate and a site -/

namespace Reinstall

def layout : Layout := ⟨[]⟩

def host : Host := ⟨ascii "1", ascii "linux", ascii "x86_64", fun _ => []⟩

/-- The user edits with `vi`, and answers the questions of the installation with new files. -/
def setup : Setup where
  editor := ascii "vi"
  validateFile _ := pure ()
  validate_looks _ := trivial
  isRoot := true
  systemdUnit := []
  validateConfigSource _ := .ok ()
  confirmReuse := .ok false
  interactiveConfig := pure ⟨[2], some ([ascii "cert"], [ascii "key"]), some [ascii "dist"]⟩
  interactive_looks := trivial

def options : InstallOptions := ⟨[ascii "server"], [ascii "ctl"], none, layout, false, false⟩

/-- Every managed file has the content `[1]`, and the files of the user have `[2]`. -/
def fs : Fs := fun q =>
  if q ∈ layout.managedDirs ∨ q = [ascii "dist"] ∨ q = layout.unitDir ∨ q = layout.binDir then
    some .dir
  else if q = layout.config ∨ q = layout.fullchain ∨ q = layout.privkey ∨
      q = layout.siteDir ++ [ascii "index.html"] then some (.file [1])
  else if q = [ascii "cert"] ∨ q = [ascii "key"] ∨ q = [ascii "server"] ∨ q = [ascii "ctl"] ∨
      q = [ascii "dist", ascii "index.html"] then some (.file [2])
  else none

/-- The editor writes the copy that it is given. -/
def writes (command : List Bytes) (q : Path) : Bool :=
  command.head? == some (ascii "vi") &&
    q == layout.configDir ++ [ascii ".config.edit.1." ++ drawn 0]

/-- A run of `edit_config` in which the first `chown` fails. -/
def failedChown : List Outcome :=
  drawing <| passes 4 ++ [{ edit := fun _ => some (.file [2]) }] ++ passes 15 ++ [{ ok := false }]

/-- A run of `install` in which `systemctl restart` fails. -/
def failedRestart : List Outcome :=
  drawing <| [{}, prints "rust-xhttp 2", {}, prints "rust-xhttpctl 2", prints "rust-xhttp 2",
    prints "rust-xhttpctl 2", {}, {},
    prints "rust-xhttp:x:9:9::/var/lib/rust-xhttp:/usr/sbin/nologin"] ++ passes 63 ++
  [{ names := [ascii "index.html"] }] ++ passes 61 ++ [{ ok := false, created := true }]

theorem respects : Respects layout writes := by
  intro command q hq
  have hne : q ≠ layout.configDir ++ [ascii ".config.edit.1." ++ drawn 0] := by
    rintro rfl
    rcases hq with hq | hq | hq | hq
    · exact absurd hq (by decide)
    · exact absurd (under_append.mp hq) (by decide)
    · exact absurd hq (by decide)
    · exact absurd hq (by decide)
  rw [writes, beq_eq_false_iff_ne.mpr hne, Bool.and_false]

theorem plainKeys : PlainKeys layout fs := by
  rintro x (rfl | rfl)
  · exact .inr ⟨[1], by decide +kernel⟩
  · exact .inr ⟨[1], by decide +kernel⟩

end Reinstall

open Reinstall

theorem config_changes_revert_reinstall :
    Obeys (oneFailure writes fun _ => True) (.start fs) (editConfig host setup.toTools layout)
      (fun r s' => ∀ e, r = .error e →
        s'.fs layout.config = some (.file [1]) ∨ Interrupted layout s'.trace) ∧
    ObeysVia (oneFailure writes fun op => ∀ x, KeyName x → op ≠ .stat (layout.tlsDir ++ [x]))
      (.start fs) (install host setup options) (prepareInstall host setup options)
      (commitInstall host setup options) fun ready _ => InstallEnds layout fs ready :=
  have h := config_changes_revert host setup options respects fs
  ⟨h.1 [1] (by decide +kernel) (by decide +kernel), h.2 plainKeys⟩

/-- Each command returns an error after one failure and leaves a change: a failed `chown` in
`edit_config` leaves the new configuration, and a failed restart in `install` the new
configuration, key files and site. -/
theorem failure_leaves_new_config :
    let edited := run writes (.start fs) failedChown (editConfig host setup.toTools layout)
    let installed := run writes (.start fs) failedRestart (install host setup options)
    (failedChown.countP (!·.ok) = 1 ∧ edited.1.isOk = false ∧
      fs layout.config = some (.file [1]) ∧ edited.2.1.fs layout.config = some (.file [2])) ∧
    failedRestart.countP (!·.ok) = 1 ∧ installed.1.isOk = false ∧
      (∀ q ∈ [layout.config, layout.fullchain, layout.privkey,
        layout.siteDir ++ [ascii "index.html"]],
        fs q = some (.file [1]) ∧ installed.2.1.fs q = some (.file [2])) := by
  decide +kernel

end Xhttp.Manage
