import RustXhttp.Manage.Install

/-!
# The way back from an installation (`src/management.rs`)

The notes of `install_manual_tls` and `install_site` are enough to bring everything back, whatever
was there and whichever operations failed on the way: the key files may be absent, and so may the
site and the directories.

* `Noted`: the notes of the key files, at every moment (`installManualTls_noted`);
  `SiteRollback.Restores`: the note of a site that is in place (`installSite_restores`).
* `restoreResources_total`: from there a restoration whose operations do not fail succeeds, and
  everything is as it was.

All this rests on the queries. `is_file` takes an error for absence, and a key file that is taken to
be absent is removed by the restoration (`unseen_key_removed`).
-/

namespace Xhttp.Manage

open Os List
open Prog (Obeys)

/-- The site is a directory, or there is nothing. -/
def SiteTree (layout : Layout) (fs : Fs) : Prop :=
  fs layout.siteDir = some .dir ∨ ∀ rest, fs (layout.siteDir ++ rest) = none

/-- What the note promises of a site that is in place: there was none, or the old one is under
another name. -/
structure SiteRollback.Restores (layout : Layout) (before fs : Fs) (site : SiteRollback) :
    Prop where
  target : site.target = layout.siteDir
  present : fs layout.siteDir = some .dir
  aside : (site.backup = none ∧ ∀ rest, before (layout.siteDir ++ rest) = none) ∨
    ∃ y, site.backup = some (layout.managerDir ++ [y]) ∧ before layout.siteDir ≠ none ∧
      ∀ rest, fs (layout.managerDir ++ [y] ++ rest) = before (layout.siteDir ++ rest)

/-! ## A restoration without failures -/

section

variable {writes : Footprint} {layout : Layout} {host : Host} {before : Fs} {s : Sys}

variable {p : Path} {files : List FileRollback} {site : SiteRollback}

theorem removeFileIfPresent_total (hp : s.fs p ≠ some .dir) :
    Obeys (noFailure writes) s (removeFileIfPresent p) fun r _ => r = .ok () := by
  refine obeys_call fun o ho => ?_
  have hok : o.ok = true := ho.1.resolve_right id
  cases hnode : s.fs p with
  | none => simp [Sys.answer, answer, hok, hnode, Obeys]
  | some node =>
    have hdir : node ≠ .dir := fun h => hp (h ▸ hnode)
    simp [Sys.answer, answer, guarded, hok, hnode, hdir, Obeys]

theorem restoreFile_total {file : FileRollback} {x : Name} (hs : file.Sound layout before s.fs)
    (hx : KeyName x) (htarget : file.target = layout.tlsDir ++ [x])
    (htls : s.fs layout.tlsDir = some .dir) (hplain : s.fs (layout.tlsDir ++ [x]) ≠ some .dir) :
    Obeys (noFailure writes) s (restoreFile host file) fun r _ => r = .ok () := by
  obtain ⟨-, -, -, ⟨hbackup, -⟩ | ⟨y, content, hbackup, -, -, hcopy⟩⟩ := hs
  · rw [restoreFile, hbackup, htarget]
    exact removeFileIfPresent_total hplain
  · rw [restoreFile, hbackup, htarget]
    refine ((copyAtomic_obeys hcopy htls hx.not_scratch hplain).and (obeys_no_failure _)).imp ?_
    rintro r s' ⟨hwrote, hsame⟩
    cases r with
    | ok => rfl
    | error e => exact absurd hsame (Nat.ne_of_gt (hwrote.error e rfl).1)

/-- Every note of a key file is used up. -/
theorem restoreFiles_total (hs : ∀ file ∈ files, file.Sound layout before s.fs)
    (htls : s.fs layout.tlsDir = some .dir)
    (hplain : ∀ x, KeyName x → s.fs (layout.tlsDir ++ [x]) ≠ some .dir) :
    Obeys (noFailure writes) s (restoreFiles host files) fun r _ => r = .ok () := by
  induction files generalizing s with
  | nil => rfl
  | cons file files ih =>
    have hsound := hs file mem_cons_self
    obtain ⟨x, hx, htarget, hcase⟩ := id hsound
    refine ((restoreFile_total hsound hx htarget htls (hplain x hx)).and
      (restoreFile_obeys hsound hx htarget htls)).bind (fun e s₁ h => h.1) ?_
    rintro _ s₁ ⟨-, hframe, hback⟩
    refine ih (fun file' hfile' => (hs file' (mem_cons_of_mem _ hfile')).of_tls hframe)
      ((hframe _ not_under_self).trans htls) fun x' hx' => ?_
    by_cases he : x' = x
    · -- it is as before: absent or a file
      rw [he, hback rfl, ← htarget]
      rcases hcase with ⟨-, hnone⟩ | ⟨-, content, -, -, hfile, -⟩
      · simp [hnone]
      · simp [hfile]
    · rw [hframe _ fun hu => (under_append.mp hu).elim he hx'.not_scratch]
      exact hplain x' hx'

/-- A directory that is reached by its path is found and removed. -/
theorem removeIfExists_total (hfollow : s.fs.follow p = p) (hdir : s.fs p = some .dir) :
    Obeys (noFailure writes) s (removeIfExists p) fun r s' =>
      r = .ok () ∧ s'.fs = s.fs.erase p.isPrefixOf := by
  refine obeys_query fun b s₁ hfs₁ _ hcase => ?_
  have hcase := hcase.resolve_right fun h => h.2.1
  rw [hfollow, hdir] at hcase
  cases hcase
  rw [← hfs₁] at hdir ⊢
  exact obeys_sys_total fun o => pass_removeDirAll hdir

theorem restoreSite_total (h : site.Restores layout before s.fs)
    (hstate : ∀ target, s.fs layout.stateDir ≠ some (.symlink target)) :
    Obeys (noFailure writes) s (restoreSite site) fun r s' => r = .ok () ∧
      (∀ q, ¬ layout.siteDir <+: q → ¬ layout.managerDir <+: q → s'.fs q = s.fs q) ∧
      ∀ rest, s'.fs (layout.siteDir ++ rest) = before (layout.siteDir ++ rest) := by
  have hfollow : s.fs.follow layout.siteDir = layout.siteDir := follow_plain hstate
  rw [restoreSite, h.target]
  refine (removeIfExists_total hfollow h.present).bind
    (fun e s₁ he => by cases he.1) ?_
  rintro _ s₁ ⟨-, hfs₁⟩
  rcases h.aside with ⟨hbackup, hnone⟩ | ⟨y, hbackup, hsome, hcontent⟩
  · rw [hbackup]
    refine ⟨rfl, fun q hq _ => ?_, fun rest => ?_⟩
    · rw [hfs₁, erase_elsewhere hq]
    · rw [hfs₁, erase_below, hnone]
  · rw [hbackup]
    have hold : ∀ rest, s₁.fs (layout.managerDir ++ [y] ++ rest) =
        before (layout.siteDir ++ rest) := by
      intro rest
      rw [hfs₁, erase_elsewhere ((site_apart_entry y).append_right rest).1, hcontent]
    have hcan : s₁.fs.canRename (layout.managerDir ++ [y]) layout.siteDir = true := by
      have hsrc := hold []
      rw [append_nil, append_nil] at hsrc
      have hdst : s₁.fs layout.siteDir = none := by rw [hfs₁, erase_at]
      have hout : ¬ layout.managerDir ++ [y] <+: layout.siteDir := (site_apart_entry y).2
      have hthere : (before layout.siteDir).isSome = true := Option.isSome_iff_ne_none.mpr hsome
      simp [Fs.canRename, hsrc, hdst, isPrefixOf_eq_false.mpr hout, hthere]
    refine (obeys_sys_total fun o => pass_rename hcan).imp ?_
    rintro r s₂ ⟨rfl, hfs₂⟩
    refine ⟨rfl, fun q hq hq' => ?_, fun rest => ?_⟩
    · rw [hfs₂, placed_frame hq fun hu => hq' hu.below, hfs₁, erase_elsewhere hq]
    · rw [hfs₂, move_below, hold]

/-- A restoration whose operations do not fail succeeds, and everything is as it was. -/
theorem restoreResources_total (hkeys : Noted layout before files s.fs)
    (hsite : site.Restores layout before s.fs)
    (hstate : ∀ target, s.fs layout.stateDir ≠ some (.symlink target)) :
    Obeys (noFailure writes) s (restoreResources host files (some site)) fun r s' =>
      r = .ok () ∧
      (∀ x, KeyName x → s'.fs (layout.tlsDir ++ [x]) = before (layout.tlsDir ++ [x])) ∧
      ∀ rest, s'.fs (layout.siteDir ++ rest) = before (layout.siteDir ++ rest) := by
  refine Prog.obeys_mapError ((restoreSite_total hsite hstate).bind
    (fun e s₁ he => by cases he.1) ?_)
  rintro _ s₁ ⟨-, hframe₁, hsite₁⟩
  have hconfig : ∀ q, layout.configDir <+: q → s₁.fs q = s.fs q := fun q hq =>
    hframe₁ q (config_apart_site.not_below hq) (config_apart_manager.not_below hq)
  have h₁ : Noted layout before files s₁.fs := hkeys.of_config hconfig
  have hsound : ∀ file ∈ files.reverse, file.Sound layout before s₁.fs := fun file hfile =>
    h₁.noted file (mem_reverse.mp hfile)
  refine ((restoreFiles_total hsound h₁.tls h₁.plain).and (restoreFiles_obeys hsound h₁.tls)).imp ?_
  rintro r s' ⟨rfl, hframe, hback⟩
  refine ⟨rfl, fun x hx => hback rfl x hx ((h₁.keys x hx).imp_right ?_), fun rest => ?_⟩
  · rintro ⟨file, hfile, htarget⟩
    exact ⟨file, mem_reverse.mpr hfile, htarget⟩
  · rw [hframe _ fun hu => ?_, hsite₁]
    exact config_apart_site.not_below (under_config hu).below (prefix_append ..)

end

/-! ## A site that is in place -/

section

variable {writes : Footprint} {may : Op → Prop} {layout : Layout} {host : Host}
  {before : Fs} {s : Sys} {allowed : Sys → Op → Outcome → Prop}

/-- The renames of `install_site`, from a staged site `x` and the backup name `y`. -/
theorem exchangeSite_restores [Failing allowed may] {x y : Name} (hx : ascii "site-new." <+: x)
    (hy : ascii "site-backup-" <+: y) (hstaging : s.fs (layout.managerDir ++ [x]) = some .dir)
    (hsame : ∀ rest, s.fs (layout.siteDir ++ rest) = before (layout.siteDir ++ rest))
    (hsite : SiteTree layout before)
    (hstate : ∀ target, s.fs layout.stateDir ≠ some (.symlink target))
    (hmay : ¬ may (.stat layout.siteDir)) :
    Obeys (protocolWhere writes allowed) s
      (do
        let previous ← setAside layout.siteDir (layout.managerDir ++ [y])
        putInPlace (layout.managerDir ++ [x]) layout.siteDir previous
        pure ⟨layout.siteDir, previous⟩ : Task SiteRollback) fun r s' => ∀ site, r = .ok site →
          (∀ q, ¬ layout.siteDir <+: q → ¬ Under layout.managerDir (fun _ => True) q →
            s'.fs q = s.fs q) ∧
          site.Restores layout before s'.fs := by
  have hxy : x ≠ y := staging_ne_backup hx hy
  refine setAside_obeys.bind (fun e s₁ _ site hr => by cases hr) ?_
  rintro previous s₁ hprevious
  refine putInPlace_ok.bind (fun e s₂ _ site hr => by cases hr) ?_
  rintro _ s₂ hplaced site hr
  cases hr
  have hfs₂ := hplaced rfl
  cases previous with
  | none =>
    obtain ⟨hfs₁, habsent⟩ := hprevious
    have hnone : before layout.siteDir = none := by
      have := habsent.resolve_right hmay
      rw [show s.fs.follow layout.siteDir = layout.siteDir from follow_plain hstate] at this
      rw [← this, ← append_nil layout.siteDir, hsame]
    refine ⟨fun q hq hq' => ?_, rfl, ?_, .inl ⟨rfl, ?_⟩⟩
    · rw [hfs₂, placed_frame hq hq', hfs₁]
    · rw [hfs₂, move_at, hfs₁, hstaging]
    · exact hsite.resolve_left fun hdir => by cases hnone.symm.trans hdir
  | some b =>
    obtain ⟨rfl, hfs₁, hcan⟩ := hprevious
    refine ⟨fun q hq hq' => ?_, rfl, ?_, .inr ⟨y, rfl, ?_, fun rest => ?_⟩⟩
    · rw [hfs₂, placed_frame hq hq', hfs₁, aside_frame hq hq']
    · rw [hfs₂, move_at, hfs₁, aside_staging hxy, hstaging]
    · intro hnone
      have := hsame []
      rw [append_nil, hnone] at this
      simp [Fs.canRename, this] at hcan
    · rw [hfs₂, placed_backup hxy, hfs₁, move_below, hsame]

/-- A new site that is in place has a note that restores the old one. -/
theorem installSite_restores [Failing allowed may] {source : Path}
    (hsame : ∀ rest, s.fs (layout.siteDir ++ rest) = before (layout.siteDir ++ rest))
    (hsite : SiteTree layout before)
    (hstate : ∀ target, s.fs layout.stateDir ≠ some (.symlink target))
    (hmay : ¬ may (.stat layout.siteDir)) :
    Obeys (protocolWhere writes allowed) s (installSite host layout source) fun r s' =>
      ∀ site, r = .ok site →
        (∀ q, ¬ layout.siteDir <+: q → ¬ layout.managerDir <+: q → s'.fs q = s.fs q) ∧
        site.Restores layout before s'.fs := by
  have hname : ascii "site-new" ++ ascii "." = ascii "site-new." := by decide
  refine (uniqueDirectory_obeys (ascii "site-new")).bind (fun e s₁ _ site hr => by cases hr) ?_
  intro staging s₁ hm
  obtain ⟨x, hx, rfl, hdir₁, -⟩ := hm.ok _ rfl
  refine stageSite_obeys.bind (fun e s₂ _ site hr => by cases hr) fun _ s₂ hst => ?_
  refine obeys_sys_look (fun _ => rfl) (fun e s₃ _ site hr => by cases hr) ?_
  intro _ stamp s₃ _ hfs₃
  -- so far only the staged site has changed
  have hframe : ∀ q, ¬ layout.managerDir <+: q → s₃.fs q = s.fs q := by
    intro q hq
    rw [hfs₃, hst.1 q fun hle => hq ((prefix_append ..).trans hle),
      hm.frame q fun hu => hq hu.below]
  have hsame₃ : ∀ rest, s₃.fs (layout.siteDir ++ rest) = before (layout.siteDir ++ rest) := by
    intro rest
    rw [hframe _ fun hle => site_apart_manager.not_below (prefix_append ..) hle, hsame]
  have hstate₃ : s₃.fs layout.stateDir = s.fs layout.stateDir :=
    hframe _ fun hle => site_apart_manager.2 (hle.trans (prefix_append ..))
  have hstaging : s₃.fs (layout.managerDir ++ [x]) = some .dir := by rw [hfs₃, hst.2 rfl, hdir₁]
  refine (exchangeSite_restores (hname ▸ hx) (prefix_append ..) hstaging hsame₃ hsite
    (hstate₃ ▸ hstate) hmay).imp fun r s' h site hr => ?_
  obtain ⟨hkeep, hrestores⟩ := h site hr
  exact ⟨fun q hq hq' => (hkeep q hq fun hu => hq' hu.below).trans (hframe q hq'), hrestores⟩

end

/-! ## The result -/

/-- The queries for the key files and the site. -/
def Layout.queries (layout : Layout) : List Op :=
  [.stat layout.fullchain, .stat layout.privkey, .stat layout.siteDir]

/-- **The installer's resources can be restored.** The key files are files or absent, the site is a
tree or absent, and any operations fail but the queries for them. An error of `install_manual_tls`
leaves both key files as they were, unless it is the error of a restoration. If it succeeds and
`install_site` does too, then `restore_resources` with their notes, when its operations do not fail,
succeeds and brings the key files and the site back. -/
theorem installer_resources_restorable (host : Host) (layout : Layout) (writes : Footprint)
    (certificate privateKey dist : Path) (fs : Fs) (hkeys : PlainKeys layout fs)
    (hsite : SiteTree layout fs) (hstate : ∀ target, fs layout.stateDir ≠ some (.symlink target)) :
    let P := anyFailure writes fun op => op ∉ layout.queries
    Obeys P (.start fs) (installManualTls host layout certificate privateKey) (fun r s =>
      ∀ e, r = .error e → (∃ e', e = .restoration e') ∨
        (s.fs layout.fullchain = fs layout.fullchain ∧ s.fs layout.privkey = fs layout.privkey)) ∧
    Obeys P (.start fs)
      (do
        let files ← installManualTls host layout certificate privateKey
        let site ← installSite host layout dist
        pure (files, site)) fun r s => ∀ files site, r = .ok (files, site) →
      Obeys (noFailure writes) s (restoreResources host files (some site)) fun r' s' =>
        r' = .ok () ∧ s'.fs layout.fullchain = fs layout.fullchain ∧
        s'.fs layout.privkey = fs layout.privkey ∧
        ∀ rest, s'.fs (layout.siteDir ++ rest) = fs (layout.siteDir ++ rest) := by
  intro P
  have hchain : KeyName (ascii "fullchain.pem") := .inl rfl
  have hkey : KeyName (ascii "privkey.pem") := .inr rfl
  have hmay : SeesKeys layout fun op => op ∉ layout.queries := by
    rintro x (rfl | rfl)
    · exact fun h => h (by simp [Layout.queries, Layout.fullchain])
    · exact fun h => h (by simp [Layout.queries, Layout.privkey])
  have htls : Obeys P (.start fs) (installManualTls host layout certificate privateKey)
      (KeysSettled layout fs fs fun files s => Noted layout fs files s.fs) :=
    installManualTls_noted (fun _ _ => rfl) hkeys hmay
  refine ⟨htls.imp ?_, htls.bind ?_ ?_⟩
  · rintro r s ⟨-, hr⟩ e rfl
    exact hr.imp_right fun hsame => ⟨hsame _ hchain, hsame _ hkey⟩
  · exact fun e s _ files site hr => by cases hr
  rintro files s₁ ⟨honly, hnoted⟩
  have hnoted : Noted layout fs files s₁.fs := hnoted
  have hstate₁ : s₁.fs layout.stateDir = fs layout.stateDir := honly.outside config_apart_state
  have hsame₁ : ∀ rest, s₁.fs (layout.siteDir ++ rest) = fs (layout.siteDir ++ rest) := fun rest =>
    honly.outside (config_apart_site.append_right rest)
  refine (installSite_restores hsame₁ hsite (hstate₁ ▸ hstate) ?_).bind ?_ ?_
  · exact fun h => h (by simp [Layout.queries])
  · exact fun e s₂ _ files site hr => by cases hr
  rintro site s₂ h₂ _ _ ⟨⟩
  obtain ⟨hframe₂, hrestores⟩ := h₂ site rfl
  have hnoted₂ : Noted layout fs files s₂.fs := hnoted.of_config fun q hq =>
    hframe₂ q (config_apart_site.not_below hq) (config_apart_manager.not_below hq)
  have hstate₂ : s₂.fs layout.stateDir = fs layout.stateDir := by
    rw [hframe₂ _ entry_not_above fun hle => ?_, hstate₁]
    exact site_apart_manager.2 (hle.trans (prefix_append ..))
  refine (restoreResources_total hnoted₂ hrestores (hstate₂ ▸ hstate)).imp ?_
  rintro r s' ⟨hr, hback, hsite'⟩
  exact ⟨hr, hback _ hchain, hback _ hkey, hsite'⟩

open Reinstall

theorem installer_resources_restorable_reinstall :
    let P := anyFailure writes fun op => op ∉ layout.queries
    Obeys P (.start fs) (installManualTls host layout [ascii "cert"] [ascii "key"])
      (fun r s => ∀ e, r = .error e → (∃ e', e = .restoration e') ∨
        (s.fs layout.fullchain = some (.file [1]) ∧ s.fs layout.privkey = some (.file [1]))) ∧
    Obeys P (.start fs)
      (do
        let files ← installManualTls host layout [ascii "cert"] [ascii "key"]
        let site ← installSite host layout [ascii "dist"]
        pure (files, site)) fun r s => ∀ files site, r = .ok (files, site) →
      Obeys (noFailure writes) s (restoreResources host files (some site)) fun r' s' =>
        r' = .ok () ∧ s'.fs layout.fullchain = some (.file [1]) ∧
        s'.fs layout.privkey = some (.file [1]) ∧
        ∀ rest, s'.fs (layout.siteDir ++ rest) = fs (layout.siteDir ++ rest) := by
  have hchain : fs layout.fullchain = some (.file [1]) := by decide +kernel
  have hkey : fs layout.privkey = some (.file [1]) := by decide +kernel
  have hstate : fs layout.stateDir = some .dir := by decide +kernel
  have h := installer_resources_restorable host layout writes [ascii "cert"] [ascii "key"]
    [ascii "dist"] fs plainKeys (.inl (by decide +kernel)) (by simp [hstate])
  rwa [hchain, hkey] at h

/-- The query for the certificate chain fails, and everything else passes. -/
def unseenKey : List Outcome := passes 2 ++ [{ ok := false }]

/-- A certificate chain that the query does not see is gone after a failed copy, and after a
restoration in which nothing fails. -/
theorem unseen_key_removed :
    let failed := run (fun _ _ => false) (.start fs)
      (drawing (unseenKey ++ passes 3 ++ [{ ok := false }] ++ passes 40))
      (installManualTls host layout [ascii "cert"] [ascii "key"])
    let installed := run (fun _ _ => false) (.start fs) (drawing (unseenKey ++ passes 90)) (do
      let files ← installManualTls host layout [ascii "cert"] [ascii "key"]
      let site ← installSite host layout [ascii "dist"]
      pure (files, site))
    fs layout.fullchain = some (.file [1]) ∧
    (failed.1 = .error (.io .failed) ∧ failed.2.1.fs layout.fullchain = none) ∧
    ∃ files site, installed.1 = .ok (files, site) ∧
      let restored := run (fun _ _ => false) installed.2.1 installed.2.2
        (restoreResources host files (some site))
      restored.1 = .ok () ∧ restored.2.1.fs layout.fullchain = none := by
  refine ⟨by decide +kernel, ⟨rfl, ?_⟩, _, _, rfl, rfl, ?_⟩
  all_goals decide +kernel

end Xhttp.Manage
