import RustXhttp.Manage.Release

/-!
# Changes of the configuration (`src/management.rs`, `edit_config`)

The installed configuration is copied to a temporary file and edited there; the result is validated
and renamed over the installed one, of which a copy is kept in the directory of backups. When the
service does not restart with it, the copy is put back.

* `editConfig`: `stageEdit` up to the copy for the backup, then `commitEdit`.
* `Respects`: no command changes the files that are managed here.
* `editConfig_obeys`: after an error the configuration is the one before, unless the one failure
  was between the rename and the restart (`Window`).
-/

namespace Xhttp.Manage

open Os
open Prog (Obeys calls_bind)

/-- Code of the daemon and of the user: the editor, and the check of a configuration file with the
resources that it names, which reads files only. -/
structure Tools where
  editor : Bytes
  validateFile : Path → Task Unit
  validate_looks : ∀ p, (validateFile p).Calls Op.looks

/-! ## The operations -/

def chownCommand (owner : Bytes) (p : Path) : List Bytes :=
  [ascii "chown", ascii "-R", owner, display p]

def applyOwnership (layout : Layout) : Task Unit := do
  runChecked (chownCommand (ascii "root:rust-xhttp") layout.configDir)
  runChecked (chownCommand (ascii "rust-xhttp:rust-xhttp") layout.stateDir)
  runChecked (chownCommand (ascii "root:root") layout.managerDir)

section

variable (host : Host) (tools : Tools) (layout : Layout)

/-- The name of a backup: with a random part if the one with the time is taken. -/
def backupPath (stamp : Nat) : Task Path := do
  let destination := layout.backupsDir ++ [ascii "config-" ++ decimal stamp ++ ascii ".json"]
  if ← pathExists destination then
    let draw ← random
    pure (layout.backupsDir ++
      [ascii "config-" ++ decimal stamp ++ ascii "-" ++ draw ++ ascii ".json"])
  else pure destination

def backupConfig (source : Path) : Task Path := do
  createDir layout.backupsDir 0o700
  let stamp ← sys .clock
  let destination ← backupPath layout stamp
  copyAtomic host.pid source destination 0o600
  pure destination

/-- The editor; its exit status is not part of the model's message. -/
def runEditor (temporary : Path) : Task Unit :=
  .call (.run [tools.editor, display temporary]) fun r => match r with
    | .ok _ => .done ()
    | .error .notFound => .fail (.io .notFound)
    | .error .failed => do
      ignore (sys (.removeFile temporary))
      .fail (.quoted (ascii "editor ") tools.editor (ascii " exited with "))

def checkEdited (temporary : Path) : Task Unit := do
  match ← (tools.validateFile temporary).attempt with
  | .ok () => pure ()
  | .error error =>
    ignore (sys (.removeFile temporary))
    .fail (.because (ascii "edited config is invalid; installed config was not changed: ") error)

/-- `edit_config` up to the backup; returns the edited file and the backup. -/
def stageEdit : Task (Path × Path) := do
  tools.validateFile layout.config
  let temporary ← uniquePath host.pid layout.configDir (ascii ".config.edit")
  sys (.copy layout.config temporary)
  sys (.setPermissions temporary 0o600)
  runEditor tools temporary
  checkEdited tools temporary
  let backup ← backupConfig host layout layout.config
  pure (temporary, backup)

/-- The restart, with the compensation of its failure. -/
def restartOrRestore (backup : Path) : Task Unit := do
  match ← (runChecked restartCommand).attempt with
  | .ok () => pure ()
  | .error error =>
    copyAtomic host.pid backup layout.config 0o640
    applyOwnership layout
    ignore (runChecked restartCommand)
    .fail (.because (ascii "restart failed; restored " ++ display backup ++ ascii ": ") error)

def commitEdit (temporary backup : Path) : Task Unit := do
  sys (.rename temporary layout.config)
  sys (.setPermissions layout.config 0o640)
  syncDirectory layout.configDir
  applyOwnership layout
  restartOrRestore host layout backup

def editConfig : Task Unit := do
  let (temporary, backup) ← stageEdit host tools layout
  commitEdit host layout temporary backup

end

/-! ## What commands leave alone -/

/-- The configuration with the managed keys and backups, the managed site and the manager's
directory. -/
def Managed (layout : Layout) (q : Path) : Prop :=
  q = layout.configDir ∨
    Under layout.configDir
      (fun x => x = ascii "config.json" ∨ x = ascii "tls" ∨ x = ascii "backups") q ∨
    layout.siteDir <+: q ∨ layout.managerDir <+: q

/-- No command changes what is managed; an editor may change other files next to the
configuration. -/
def Respects (layout : Layout) (writes : Footprint) : Prop :=
  ∀ command q, Managed layout q → writes command q = false

section

variable {writes : Footprint} {may : Op → Prop} {layout : Layout} {host : Host}
  {tools : Tools} {s : Sys}

theorem managed_config : Managed layout layout.config := .inr (.inl ⟨_, [], .inl rfl, rfl⟩)

theorem managed_backup {q : Path} (hq : layout.backupsDir <+: q) : Managed layout q :=
  .inr (.inl (under_of_below (.inr (.inr rfl)) hq))

theorem backupPath_obeys {stamp : Nat} :
    Obeys (oneFailure writes may) s (backupPath layout stamp) fun r s' =>
      s'.fs = s.fs ∧ ∃ x, r = .ok (layout.backupsDir ++ [x]) ∧ ¬ Scratch x := by
  have hname : ∀ rest, ¬ Scratch (ascii "config-" ++ rest) := by
    rintro rest ⟨rest', he⟩
    cases he
  refine obeys_query fun b s₁ hfs₁ _ _ => ?_
  cases b with
  | false => exact ⟨hfs₁, _, rfl, by simpa [List.append_assoc] using hname _⟩
  | true =>
    refine obeys_random fun draw s₂ _ hfs₂ _ => ?_
    exact ⟨hfs₂.trans hfs₁, _, rfl, by simpa [List.append_assoc] using hname _⟩

/-- The paths that a backup does not concern. -/
def OffBackups (layout : Layout) (q : Path) : Prop :=
  q = layout.configDir ∨ ¬ q <+: layout.backupsDir ∧ ¬ layout.backupsDir <+: q

variable {x y : Name} {A : Op → Prop} {temporary : Path} {old : Bytes}

theorem offBackups_entry (hx : x ≠ ascii "backups") : OffBackups layout (layout.configDir ++ [x]) :=
  .inr (entries_apart hx)

/-- A copy of the source is in the directory of backups, and nothing else is changed. -/
theorem backupConfig_obeys {source : Path} (hdir : s.fs layout.configDir = some .dir)
    (hsource : OffBackups layout source) :
    Obeys (oneFailure writes may) s (backupConfig host layout source)
      (Keeping (OffBackups layout) s.fs fun backup s' => ∃ x content,
        backup = layout.backupsDir ++ [x] ∧ s.fs source = some (.file content) ∧
          s'.fs backup = some (.file content)) := by
  have hout : ∀ {N : Name → Prop} {q : Path}, OffBackups layout q →
      ¬ Under layout.backupsDir N q := by
    rintro N q (rfl | ⟨-, hq⟩) hu
    · exact entry_not_above hu.below
    · exact hq hu.below
  have hmade : ∀ {r : Except Failure Unit} {s₁ : Sys}, MadeDir layout.backupsDir s r s₁ →
      ∀ q, OffBackups layout q → s₁.fs q = s.fs q := by
    rintro r s₁ h q (rfl | ⟨hq, -⟩)
    · exact (h.kept _ _ hdir).trans hdir.symm
    · exact h.frame q hq
  refine createDir_obeys.bind ?_ fun _ s₁ h₁ => ?_
  · exact fun x s₁ h => ⟨hmade h, fun a ha => by cases ha⟩
  have hkeep₁ := hmade h₁
  refine obeys_sys_look (fun _ => rfl) ?_ fun _ stamp s₂ _ hfs₂ => ?_
  · exact fun x s₂ h => ⟨fun q hq => (congrFun h q).trans (hkeep₁ q hq), fun a ha => by cases ha⟩
  refine backupPath_obeys.bind ?_ ?_
  · rintro x s₃ ⟨-, y, hy, -⟩
    cases hy
  rintro destination s₃ ⟨hfs₃, x, hx, hscratch⟩
  cases hx
  have hfs : s₃.fs = s₁.fs := hfs₃.trans hfs₂
  have hdir₃ : s₃.fs layout.backupsDir = some .dir := hfs ▸ h₁.ok rfl
  refine (copyAtomic_placed hdir₃ hscratch).bind ?_ fun _ s₄ h₄ => ?_
  · refine fun e s₄ h => ⟨fun q hq => ?_, fun a ha => by cases ha⟩
    rw [h.frame q (hout hq), hfs, hkeep₁ q hq]
  · refine ⟨fun q hq => ?_, fun backup hb => ?_⟩
    · rw [h₄.frame q (hout hq), hfs, hkeep₁ q hq]
    · cases hb
      obtain ⟨content, hsrc, hdst⟩ := h₄.ok rfl
      rw [hfs, hkeep₁ source hsource] at hsrc
      exact ⟨x, content, rfl, hsrc, hdst⟩

/-! ## Staging -/

theorem calls_validateFile (p : Path) (h : ∀ op, Op.looks op → A op) :
    (tools.validateFile p).Calls A :=
  (tools.validate_looks p).imp h

theorem calls_ignore {α : Type} {task : Task α} (h : task.Calls A) : (ignore task).Calls A :=
  calls_bind (Prog.calls_attempt h) fun _ => trivial

theorem calls_runEditor (hrun : A (.run [tools.editor, display temporary]))
    (hremove : A (.removeFile temporary)) : (runEditor tools temporary).Calls A := by
  refine ⟨hrun, fun r => ?_⟩
  dsimp only
  split
  · trivial
  · trivial
  · exact calls_bind (calls_ignore (calls_sys hremove)) fun _ => trivial

theorem calls_checkEdited (hlook : ∀ op, Op.looks op → A op) (hremove : A (.removeFile temporary)) :
    (checkEdited tools temporary).Calls A := by
  refine calls_bind (Prog.calls_attempt (calls_validateFile _ hlook)) fun r => ?_
  split
  · trivial
  · exact calls_bind (calls_ignore (calls_sys hremove)) fun _ => trivial

/-- Before the rename only the temporary file and the backups are written. -/
theorem stageEdit_obeys (hw : Respects layout writes) (hdir : s.fs layout.configDir = some .dir)
    (hold : s.fs layout.config = some (.file old)) :
    Obeys (oneFailure writes may) s (stageEdit host tools layout)
      (Keeping (fun q => q = layout.configDir ∨ q = layout.config) s.fs fun staged s' => ∃ x y,
        staged = (layout.configDir ++ [x], layout.backupsDir ++ [y]) ∧ x ≠ ascii "backups" ∧
          s'.fs (layout.backupsDir ++ [y]) = some (.file old)) := by
  have hconfig : OffBackups layout layout.config := offBackups_entry (by decide)
  have hlook : ∀ op, Op.looks op → ∀ q, q = layout.configDir ∨ q = layout.config →
      op.touches writes q = false := fun op h q _ => h writes q
  refine obeys_skip (calls_validateFile _ hlook) (fun _ _ => rfl) fun _ s₁ h₁ => ?_
  refine obeys_uniquePath fun draw s₂ _ hfs₂ _ => ?_
  have h₂ : ∀ q, q = layout.configDir ∨ q = layout.config → s₂.fs q = s.fs q := fun q hq =>
    (congrFun hfs₂ q).trans (h₁ q hq)
  obtain ⟨hne, hne'⟩ : uniqueName host.pid (ascii ".config.edit") draw ≠ ascii "config.json" ∧
      uniqueName host.pid (ascii ".config.edit") draw ≠ ascii "backups" := by
    constructor <;> intro he <;> cases he
  generalize uniqueName host.pid (ascii ".config.edit") draw = x at hne hne' ⊢
  have htmp : ∀ q, q = layout.configDir ∨ q = layout.config →
      (q == layout.configDir ++ [x]) = false := by
    rintro q (rfl | rfl)
    · exact temporary_ne not_under_self
    · exact temporary_ne (mt under_append.mp (Ne.symm hne))
  refine obeys_skip (calls_sys htmp) h₂ fun _ s₃ h₃ => ?_
  refine obeys_skip (calls_sys fun _ _ => rfl) h₃ fun _ s₄ h₄ => ?_
  have hmanaged : ∀ q, q = layout.configDir ∨ q = layout.config → Managed layout q := by
    rintro q (rfl | rfl)
    · exact .inl rfl
    · exact managed_config
  refine obeys_skip (calls_runEditor (fun q hq => hw _ q (hmanaged q hq)) htmp) h₄
    fun _ s₅ h₅ => ?_
  refine obeys_skip (calls_checkEdited hlook htmp) h₅ fun _ s₆ h₆ => ?_
  have hoff : ∀ q, q = layout.configDir ∨ q = layout.config → OffBackups layout q := by
    rintro q (rfl | rfl)
    · exact .inl rfl
    · exact hconfig
  refine (backupConfig_obeys ((h₆ _ (.inl rfl)).trans hdir) hconfig).bind ?_ fun _ s₇ h₇ => ?_
  · exact fun e s₇ h => ⟨fun q hq => (h.1 q (hoff q hq)).trans (h₆ q hq), fun a ha => by cases ha⟩
  refine ⟨fun q hq => (h₇.1 q (hoff q hq)).trans (h₆ q hq), fun staged hs => ?_⟩
  cases hs
  obtain ⟨y, content, rfl, hsrc, hdst⟩ := h₇.2 _ rfl
  cases hsrc.symm.trans ((h₆ _ (.inr rfl)).trans hold)
  exact ⟨x, y, rfl, hne', hdst⟩

/-! ## Commit and compensation -/

/-- The operations between the rename and the restart. -/
def Window (layout : Layout) (op : Op) : Prop :=
  op = .setPermissions layout.config 0o640 ∨ op = .sync layout.configDir ∨
    ∃ owner p, op = .run (chownCommand owner p)

/-- One of them failed. -/
def Interrupted (layout : Layout) (trace : List Event) : Prop :=
  ∃ op, Window layout op ∧ ⟨op, false⟩ ∈ trace

theorem Interrupted.of_failed {op : Op} {s' : Sys} (hop : Window layout op)
    (h : Failed writes s op s') : Interrupted layout s'.trace :=
  ⟨op, hop, by simp [h.trace]⟩

/-- A command that fails is in the trace. -/
theorem runOutput_trace (command : List Bytes) :
    Obeys (oneFailure writes may) s (runOutput command) fun r s' =>
      ∀ x, r = .error x → ⟨.run command, false⟩ ∈ s'.trace := by
  refine ⟨trivial, fun r s' hn => ?_⟩
  rcases oneFailure_next hn with ⟨o, ho, -, hr⟩ | ⟨⟨e, rfl⟩, -, hb⟩
  · simp only [Sys.answer, answer, ho] at hr
    cases hr
    rintro x ⟨⟩
  · intro x _
    simp [hb.trace]

theorem runChecked_trace (command : List Bytes) :
    Obeys (oneFailure writes may) s (runChecked command) fun r s' =>
      ∀ x, r = .error x → ⟨.run command, false⟩ ∈ s'.trace := by
  refine (runOutput_trace command).bind (fun x s' h _ _ => h x rfl) ?_
  rintro _ s' - x ⟨⟩

variable (hw : Respects layout writes)

include hw

theorem chown_obeys (owner : Bytes) (p : Path) :
    Obeys (oneFailure writes may) s (runChecked (chownCommand owner p)) fun r s' =>
      Calm (Managed layout) s r s' ∧ ∀ x, r = .error x → Interrupted layout s'.trace := by
  refine ((runChecked_obeys _).and (runChecked_trace _)).imp fun r s' h => ⟨?_, fun x hx => ?_⟩
  · exact h.1.weaken fun q hq => hw _ q hq
  · exact ⟨_, .inr (.inr ⟨owner, p, rfl⟩), h.2 x hx⟩

theorem applyOwnership_obeys :
    Obeys (oneFailure writes may) s (applyOwnership layout) fun r s' =>
      Calm (Managed layout) s r s' ∧ ∀ x, r = .error x → Interrupted layout s'.trace := by
  have hcalm : Obeys (oneFailure writes may) s (applyOwnership layout)
      (Calm (Managed layout) s) := by
    refine obeys_calm_bind ((chown_obeys hw _ _).imp fun _ _ h => h.1) fun _ s₁ => ?_
    refine obeys_calm_bind ((chown_obeys hw _ _).imp fun _ _ h => h.1) fun _ s₂ => ?_
    exact (chown_obeys hw _ _).imp fun _ _ h => h.1
  refine hcalm.and ?_
  refine (chown_obeys hw _ _).bind (fun x s₁ h _ _ => h.2 x rfl) fun _ s₁ _ => ?_
  refine (chown_obeys hw _ _).bind (fun x s₂ h _ _ => h.2 x rfl) fun _ s₂ _ => ?_
  exact (chown_obeys hw _ _).imp fun _ _ h => h.2

/-- When the restart fails, the backup is put back. -/
theorem restartOrRestore_obeys (hle : s.failures ≤ 1)
    (hdir : s.fs layout.configDir = some .dir) (hconfig : s.fs layout.config ≠ some .dir)
    (hbackup : s.fs (layout.backupsDir ++ [y]) = some (.file old)) :
    Obeys (oneFailure writes may) s
      (restartOrRestore host layout (layout.backupsDir ++ [y])) fun r s' =>
        ∀ e, r = .error e → s'.fs layout.config = some (.file old) := by
  refine Prog.obeys_attempt (((runChecked_obeys _).and (obeys_at_most_one _ hle)).imp
    fun r s₁ h₁ => ?_)
  obtain ⟨h₁, hle₁⟩ := h₁
  have hkeep₁ : ∀ q, Managed layout q → s₁.fs q = s.fs q := fun q hq => h₁.frame q (hw _ q hq)
  cases r with
  | ok =>
    rintro e ⟨⟩
  | error e =>
    -- this is the one failure, so the compensation succeeds
    have hlt := h₁.error e rfl
    have hscratch : ¬ Scratch (ascii "config.json") := by unfold Scratch; decide
    have hbackup₁ := (hkeep₁ _ (managed_backup (List.prefix_append ..))).trans hbackup
    have hdir₁ := (hkeep₁ _ (.inl rfl)).trans hdir
    have hconfig₁ : s₁.fs layout.config ≠ some .dir := by rwa [hkeep₁ _ managed_config]
    refine ((copyAtomic_obeys hbackup₁ hdir₁ hscratch hconfig₁).and
      (obeys_at_most_one _ hle₁)).bind ?_ fun _ s₂ h₂ => ?_
    · rintro x s₂ ⟨h, hle₂⟩
      have := (h.error x rfl).1
      omega
    obtain ⟨h₂, hle₂⟩ := h₂
    refine ((applyOwnership_obeys hw).and (obeys_at_most_one _ hle₂)).bind ?_ fun _ s₃ h₃ => ?_
    · rintro x s₃ ⟨h, hle₃⟩
      have := h.1.error x rfl
      have := h₂.mono
      omega
    refine (ignore_obeys (runChecked_obeys _)).bind (fun x s₄ h => by cases h.1) ?_
    rintro _ s₄ ⟨-, _, h₄⟩ _ _
    rw [h₄.frame _ (hw _ _ managed_config), h₃.1.1.frame _ managed_config]
    exact h₂.ok rfl

/-- From the rename on: a failed restart is compensated, a failure before it is not. -/
theorem commitEdit_obeys (hle : s.failures ≤ 1)
    (hdir : s.fs layout.configDir = some .dir) (hold : s.fs layout.config = some (.file old))
    (hx : x ≠ ascii "backups") (hbackup : s.fs (layout.backupsDir ++ [y]) = some (.file old)) :
    Obeys (oneFailure writes may) s
      (commitEdit host layout (layout.configDir ++ [x]) (layout.backupsDir ++ [y])) fun r s' =>
        ∀ e, r = .error e →
          s'.fs layout.config = some (.file old) ∨ Interrupted layout s'.trace := by
  refine ((rename_obeys).and (obeys_at_most_one _ hle)).bind ?_ ?_
  · rintro e s₁ ⟨⟨he, -⟩ | ⟨-, hfs⟩, -⟩ _ _
    · cases he
    · exact .inl ((congrFun hfs _).trans hold)
  rintro _ s₁ ⟨⟨-, hcan, hfs₁, -⟩ | ⟨⟨e, he⟩, -⟩, hle₁⟩
  case inr => cases he
  -- the edited file, which is no directory, is the configuration now
  have hconfig₁ : s₁.fs layout.config = s.fs (layout.configDir ++ [x]) := by rw [hfs₁, move_at]
  obtain ⟨hsome, hnot⟩ : (s₁.fs layout.config).isSome = true ∧ s₁.fs layout.config ≠ some .dir := by
    simp only [Fs.canRename, hold, Bool.and_eq_true, Bool.or_eq_true] at hcan
    rw [hconfig₁]
    exact ⟨hcan.1.1, by simpa using hcan.2⟩
  have hdir₁ : s₁.fs layout.configDir = some .dir := by
    rw [hfs₁]
    exact (move_elsewhere entry_not_above entry_not_above).trans hdir
  have hbackup₁ : s₁.fs (layout.backupsDir ++ [y]) = some (.file old) := by
    have hout : ∀ z : Name, z ≠ ascii "backups" →
        ¬ layout.configDir ++ [z] <+: layout.backupsDir ++ [y] := fun z hz =>
      ((entries_apart hz).append_right [y]).1
    rw [hfs₁]
    exact (move_elsewhere (hout x hx) (hout (ascii "config.json") (by decide))).trans hbackup
  refine obeys_sys_pass (fun o => pass_setPermissions hsome) ?_ fun s₂ hp₂ => ?_
  · exact fun e s₂ _ hb _ _ => .inr (.of_failed (.inl rfl) hb)
  have hdir₂ : (s₂.fs layout.configDir).isSome = true := by
    rw [hp₂.fs, hdir₁]
    rfl
  refine obeys_sys_pass (fun o => pass_sync hdir₂) ?_ fun s₃ hp₃ => ?_
  · exact fun e s₃ _ hb _ _ => .inr (.of_failed (.inr (.inl rfl)) hb)
  have hfs₃ : s₃.fs = s₁.fs := hp₃.fs.trans hp₂.fs
  have hle₃ : s₃.failures ≤ 1 := by
    rw [hp₃.failures, hp₂.failures]
    exact hle₁
  refine ((applyOwnership_obeys hw).and (obeys_at_most_one _ hle₃)).bind ?_ fun _ s₄ h₄ => ?_
  · exact fun e s₄ h _ _ => .inr (h.1.2 e rfl)
  obtain ⟨⟨h₄, -⟩, hle₄⟩ := h₄
  have hkeep₄ : ∀ q, Managed layout q → s₄.fs q = s₁.fs q := fun q hq =>
    (h₄.frame q hq).trans (congrFun hfs₃ q)
  refine (restartOrRestore_obeys hw hle₄ ?_ ?_ ?_).imp fun r s' h e he => .inl (h e he)
  · exact (hkeep₄ _ (.inl rfl)).trans hdir₁
  · rwa [hkeep₄ _ managed_config]
  · exact (hkeep₄ _ (managed_backup (List.prefix_append ..))).trans hbackup₁

/-- An error of `edit_config` leaves the configuration, unless the failure was between the rename
and the restart. -/
theorem editConfig_obeys (hle : s.failures ≤ 1)
    (hdir : s.fs layout.configDir = some .dir) (hold : s.fs layout.config = some (.file old)) :
    Obeys (oneFailure writes may) s (editConfig host tools layout) fun r s' =>
      ∀ e, r = .error e →
        s'.fs layout.config = some (.file old) ∨ Interrupted layout s'.trace := by
  refine ((stageEdit_obeys hw hdir hold).and (obeys_at_most_one _ hle)).bind ?_ ?_
  · exact fun e s₁ h _ _ => .inl ((h.1.1 _ (.inr rfl)).trans hold)
  rintro staged s₁ ⟨⟨hkeep₁, hstaged⟩, hle₁⟩
  obtain ⟨x, y, rfl, hx, hbackup⟩ := hstaged _ rfl
  exact commitEdit_obeys hw hle₁ ((hkeep₁ _ (.inl rfl)).trans hdir)
    ((hkeep₁ _ (.inr rfl)).trans hold) hx hbackup

end

end Xhttp.Manage
