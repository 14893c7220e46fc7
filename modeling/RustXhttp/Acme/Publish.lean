import RustXhttp.Lib.Os
import RustXhttp.Lib.Utf8

/-!
# Publication of a certificate (`src/acme.rs`, `publish_certificate_pair`)

The certificates are in a cache directory, one directory for each generation, and the symbolic
link `current` names the one to be served. A new pair is written to a temporary directory, checked
there, and renamed; then a new link takes the place of `current`. The directory is synced once more
after that, and a failure of this last sync is returned as a failure of the publication.

* `publishCertificatePair`: the operations, each of which may fail.
* `Before`, `Succeeds`: before the switch nothing that `current` resolves to has changed; after it
  `current` resolves to the new pair, which was checked, and the generation before is still there
  unless its link could not be read.
* `publish_watched`: one of the two holds at every point of a publication, and at its end.
-/

namespace Xhttp.Acme

open Os List
open Prog (Obeys calls_bind)

inductive AcmeError where
  | io (e : Os.IoError)
  | protocol
  | json
  | missingHttpChallenge (identifier : Bytes)
  | authorization (status : Bytes)
  | order (status : Bytes)
  | timeout
  | certificate (message : Bytes)
  | clock (message : Bytes)
  deriving DecidableEq

instance : OfIo AcmeError := ⟨.io⟩

abbrev Task := Prog Op Reply AcmeError

def current : Name := ascii "current"
def certificatePem : Name := ascii "certificate.pem"
def privateKeyPem : Name := ascii "private-key.pem"

/-- A certificate chain and its key, as they are in the files. -/
structure Pair where
  certificate : Bytes
  privateKey : Bytes
  deriving DecidableEq

/-! ## The operations -/

/-- `write_new_file`. -/
def writeNewFile (p : Path) (bytes : Bytes) : Task Unit := do
  sys (.createNew p)
  sys (.writeAll p bytes)
  sys (.sync p)

section

-- `CertifiedIdentity::from_config` on the contents of the two files: an error or nothing
variable (check : Pair → Except Bytes Unit)

/-- `Server::from_config`: the files are read, and the pair is checked. -/
def loadIdentity (cert key : Path) : Task Pair := do
  let certificate ← sys (.read cert)
  let privateKey ← sys (.read key)
  match check ⟨certificate, privateKey⟩ with
  | .ok () => pure ⟨certificate, privateKey⟩
  | .error message => .fail (.certificate message)

/-- The loop of `cleanup_generations`: errors are only logged. -/
def cleanupEntries (cacheDir : Path) (generation : Name) (previous : Option Name) :
    List Name → Task Unit
  | [] => pure ()
  | name :: rest =>
    if !validUtf8 name || !(ascii "generation-").isPrefixOf name || name == generation ||
        previous == some name then
      cleanupEntries cacheDir generation previous rest
    else
      .call (.stat (cacheDir ++ [name])) fun fileType =>
        if fileType.toOption.join == some .dir then
          .call (.removeDirAll (cacheDir ++ [name])) fun _ =>
            cleanupEntries cacheDir generation previous rest
        else cleanupEntries cacheDir generation previous rest

def cleanupGenerations (cacheDir : Path) (generation : Name) (previous : Option Name) : Task Unit :=
  .call (.readDir cacheDir) fun entries =>
    match entries with
    | .ok names => cleanupEntries cacheDir generation previous names
    | .error _ => pure ()

/-- The first part of the closure: the pair is written, checked and renamed. -/
def stageGeneration (cacheDir : Path) (generationName : Name) (temporary : Path) (pair : Pair) :
    Task Unit := do
  writeNewFile (temporary ++ [privateKeyPem]) pair.privateKey
  writeNewFile (temporary ++ [certificatePem]) pair.certificate
  let _ ← loadIdentity check (temporary ++ [certificatePem]) (temporary ++ [privateKeyPem])
  sys (.rename temporary (cacheDir ++ [generationName]))

/-- The second part: a link to the generation. Returns it with the generation that `current`
names. -/
def linkGeneration (cacheDir : Path) (generationName : Name) : Task (Path × Option Name) := do
  sys (.sync cacheDir)
  let previous ← Prog.perform (.readLink (cacheDir ++ [current]))
  -- the process id and a random number
  let suffix ← random
  let link := cacheDir ++ [ascii ".current-" ++ suffix]
  sys (.symlink generationName link)
  pure (link, previous.toOption)

/-- The rename that switches `current`. -/
def switchCurrent (cacheDir link : Path) : Task Unit :=
  .call (.rename link (cacheDir ++ [current])) fun r =>
    match r with
    | .ok () => pure ()
    | .error e => .call (.removeFile link) fun _ => .fail (.io e)

/-- `publish_certificate_pair`, with the names of the generation and of its temporary directory. -/
def publishGeneration (cacheDir : Path) (generationName temporaryName : Name) (pair : Pair) :
    Task Unit := do
  sys (.createDir (cacheDir ++ [temporaryName]))
  sys (.setPermissions (cacheDir ++ [temporaryName]) 0o700)
  let result ← Prog.attempt do
    stageGeneration check cacheDir generationName (cacheDir ++ [temporaryName]) pair
    let (link, previous) ← linkGeneration cacheDir generationName
    switchCurrent cacheDir link
    sys (.sync cacheDir)
    cleanupGenerations cacheDir generationName previous
  match result with
  | .ok () => pure ()
  | .error e => .call (.removeDirAll (cacheDir ++ [temporaryName])) fun _ => .fail e

def publishCertificatePair (cacheDir : Path) (pair : Pair) : Task Unit := do
  let number ← random
  let generationName := ascii "generation-" ++ number
  publishGeneration check cacheDir generationName (ascii "." ++ generationName ++ ascii ".tmp") pair

end

/-! ## The pair that `current` resolves to -/

/-- The pair that `current` resolves to. -/
def currentPair (cacheDir : Path) (fs : Fs) : Option Pair :=
  match fs (cacheDir ++ [current]) with
  | some (.symlink target) =>
    match fs (cacheDir ++ [target]), fs (cacheDir ++ [target, certificatePem]),
        fs (cacheDir ++ [target, privateKeyPem]) with
    | some .dir, some (.file certificate), some (.file privateKey) =>
      some ⟨certificate, privateKey⟩
    | _, _, _ => none
  | _ => none

section

variable {cacheDir : Path} {fs : Fs} {pair : Pair} {s : Sys} {trace : List Event} {e : Event}

theorem currentPair_eq_some :
    currentPair cacheDir fs = some pair ↔ ∃ target,
      fs (cacheDir ++ [current]) = some (.symlink target) ∧
      fs (cacheDir ++ [target]) = some .dir ∧
      fs (cacheDir ++ [target, certificatePem]) = some (.file pair.certificate) ∧
      fs (cacheDir ++ [target, privateKeyPem]) = some (.file pair.privateKey) := by
  unfold currentPair
  constructor
  · intro h
    split at h
    case h_1 target ht =>
      split at h
      case h_1 hdir hcert hkey => cases h; exact ⟨target, ht, hdir, hcert, hkey⟩
      case h_2 => cases h
    case h_2 => cases h
  · rintro ⟨target, ht, hdir, hcert, hkey⟩
    simp only [ht, hdir, hcert, hkey]

/-- The link `current` has been replaced. -/
def Switched (cacheDir : Path) (s : Sys) : Prop :=
  ∃ link, ⟨.rename link (cacheDir ++ [current]), true⟩ ∈ s.trace

/-- The operation, done, replaces the link `current`. -/
def Event.switches (cacheDir : Path) : Event → Bool
  | ⟨.rename _ dst, true⟩ => dst == cacheDir ++ [current]
  | _ => false

theorem any_switches_iff : s.trace.any (Event.switches cacheDir) = true ↔ Switched cacheDir s := by
  rw [any_eq_true]
  constructor
  · rintro ⟨e, he, hs⟩
    unfold Event.switches at hs
    split at hs
    case h_1 link dst => exact ⟨link, eq_of_beq hs ▸ he⟩
    case h_2 => cases hs
  · rintro ⟨link, he⟩
    exact ⟨_, he, beq_self_eq_true _⟩

instance {cacheDir : Path} {s : Sys} : Decidable (Switched cacheDir s) :=
  decidable_of_iff _ any_switches_iff

/-- The operation behind the one that has replaced the link `current`. -/
def behindSwitch (cacheDir : Path) : List Event → Option Event
  | [] => none
  | e :: trace => if Event.switches cacheDir e then trace.head? else behindSwitch cacheDir trace

theorem behindSwitch_append {more : List Event} (h : behindSwitch cacheDir trace = some e) :
    behindSwitch cacheDir (trace ++ more) = some e := by
  induction trace with
  | nil => cases h
  | cons e' trace ih =>
    simp only [behindSwitch, cons_append] at h ⊢
    split
    case isTrue hs =>
      rw [if_pos hs] at h
      rw [head?_append, h]
      rfl
    case isFalse hs =>
      rw [if_neg hs] at h
      exact ih h

theorem behindSwitch_switch {f : Event} (hno : trace.any (Event.switches cacheDir) = false)
    (he : Event.switches cacheDir e = true) :
    behindSwitch cacheDir (trace ++ [e] ++ [f]) = some f := by
  induction trace with
  | nil => exact if_pos he
  | cons e' trace ih =>
    rw [any_cons, Bool.or_eq_false_iff] at hno
    exact (if_neg (by rw [hno.1]; decide)).trans (ih hno.2)

theorem switched_of_behindSwitch (h : behindSwitch cacheDir s.trace = some e) :
    Switched cacheDir s := by
  rw [← any_switches_iff]
  generalize s.trace = trace at h
  induction trace with
  | nil => cases h
  | cons e' trace ih =>
    rw [any_cons, Bool.or_eq_true]
    unfold behindSwitch at h
    split at h
    case isTrue hs => exact .inl hs
    case isFalse => exact .inr (ih h)

/-- How the `sync_directory` behind the switch has ended. -/
def Synced (cacheDir : Path) (ok : Bool) (s : Sys) : Prop :=
  behindSwitch cacheDir s.trace = some ⟨.sync cacheDir, ok⟩

instance {cacheDir : Path} {ok : Bool} {s : Sys} : Decidable (Synced cacheDir ok s) :=
  inferInstanceAs (Decidable (_ = _))

/-- The paths that matter for the pair: the link, and what is in the directory that it names. -/
def Relevant (cacheDir : Path) (fs : Fs) (q : Path) : Prop :=
  q = cacheDir ++ [current] ∨ ∃ target, fs (cacheDir ++ [current]) = some (.symlink target) ∧
    fs (cacheDir ++ [target]) = some .dir ∧ ∃ rest, q = cacheDir ++ target :: rest

/-- Nothing that matters for the pair has changed. -/
def Kept (cacheDir : Path) (fs₀ fs : Fs) : Prop := ∀ q, Relevant cacheDir fs₀ q → fs q = fs₀ q

theorem Kept.currentPair {fs₀ : Fs} (h : Kept cacheDir fs₀ fs)
    (hp : currentPair cacheDir fs₀ = some pair) : Acme.currentPair cacheDir fs = some pair := by
  obtain ⟨target, ht, hdir, hcert, hkey⟩ := currentPair_eq_some.mp hp
  have hrel : ∀ rest, fs (cacheDir ++ target :: rest) = fs₀ (cacheDir ++ target :: rest) :=
    fun rest => h _ (.inr ⟨target, ht, hdir, rest, rfl⟩)
  exact currentPair_eq_some.mpr ⟨target, (h _ (.inl rfl)).trans ht, (hrel _).trans hdir,
    (hrel _).trans hcert, (hrel _).trans hkey⟩

end

section

variable {cacheDir : Path} {fs₀ fs : Fs} {x : Name} {q : Path}

/-- A neighbour of `current` that something relevant is under is the directory it names. -/
theorem relevant_under (hx : x ≠ current) (hk : Kept cacheDir fs₀ fs)
    (hq : Relevant cacheDir fs₀ q) (hp : (cacheDir ++ [x]).isPrefixOf q = true) :
    fs (cacheDir ++ [x]) = some .dir := by
  rw [ isPrefixOf_iff_prefix] at hp
  obtain ⟨tail, rfl⟩ := hp
  rw [append_assoc] at hq
  rcases hq with hcur | ⟨target, ht, hdir, rest, hrest⟩
  · have := append_cancel_left hcur
    simp only [cons_append, List.cons.injEq] at this
    exact absurd this.1 hx
  · have := append_cancel_left hrest
    simp only [cons_append, List.cons.injEq] at this
    rw [this.1, hk _ (.inr ⟨target, ht, hdir, [], rfl⟩)]
    exact hdir

/-! ## Before the switch -/

/-- `current` has not been switched since `fs₀`. -/
structure Before (cacheDir : Path) (fs₀ : Fs) (s : Sys) : Prop where
  kept : Kept cacheDir fs₀ s.fs
  notSwitched : ¬ Switched cacheDir s

variable {writes : Footprint} {s : Sys} {o : Outcome} {op : Op}

theorem switched_answer (hop : ∀ link, op ≠ .rename link (cacheDir ++ [current])) :
    Switched cacheDir (s.answer writes o op).2 ↔ Switched cacheDir s := by
  constructor
  · rintro ⟨link, hlink⟩
    rcases (Sys.mem_trace writes).mp hlink with h | h
    · exact ⟨link, h⟩
    · exact absurd (congrArg Event.op h).symm (hop link)
  · rintro ⟨link, hlink⟩
    exact ⟨link, (Sys.mem_trace writes).mpr (.inl hlink)⟩

theorem Before.answer (h : Before cacheDir fs₀ s)
    (hop : ∀ link, op ≠ .rename link (cacheDir ++ [current]))
    (hkeep : ∀ q, Relevant cacheDir fs₀ q → (Os.answer writes s.fs o op).2 q = s.fs q) :
    Before cacheDir fs₀ (s.answer writes o op).2 where
  kept := fun q hq => (hkeep q hq).trans (h.kept q hq)
  notSwitched := fun hs => h.notSwitched ((switched_answer hop).mp hs)

/-- An operation that reads, or works on paths that do not matter. -/
theorem Before.untouched (h : Before cacheDir fs₀ s)
    (hkeep : ∀ q, Relevant cacheDir fs₀ q → op.touches writes q = false) :
    Before cacheDir fs₀ (s.answer writes o op).2 := by
  refine h.answer ?_ fun q hq => answer_untouched writes (hkeep q hq)
  rintro link rfl
  have hcur := hkeep _ (.inl rfl)
  rw [Op.touches, isPrefixOf_self, Bool.or_true] at hcur
  cases hcur

/-- An operation that changes no file. -/
theorem Before.keeps_reads (hop : ∀ q, op.touches writes q = false) :
    Keeps writes (Before cacheDir fs₀) op :=
  fun _ _ hb => hb.untouched fun q _ => hop q

/-- A new neighbour of `current` is not where the link points. -/
theorem Before.creates (h : Before cacheDir fs₀ s) (hx : x ≠ current) (node : Node)
    (hop : ∀ link, op ≠ .rename link (cacheDir ++ [current]))
    (heffect : (Os.answer writes s.fs o op).2 = s.fs ∨ s.fs (cacheDir ++ [x]) = none ∧
      (Os.answer writes s.fs o op).2 = s.fs.set (cacheDir ++ [x]) (some node)) :
    Before cacheDir fs₀ (s.answer writes o op).2 := by
  refine h.answer hop fun q hq => ?_
  rcases heffect with he | ⟨hnone, he⟩
  · rw [he]
  · rw [he]
    by_cases hqx : q = cacheDir ++ [x]
    · have hdir := relevant_under hx h.kept hq (by rw [hqx]; exact isPrefixOf_self _)
      rw [hnone] at hdir
      cases hdir
    · exact set_ne (by simpa using hqx)

/-! ## Writing the pair -/

theorem calls_writeNewFile {A : Op → Prop} {p : Path} {bytes : Bytes} (hnew : A (.createNew p))
    (hwrite : A (.writeAll p bytes)) (hsync : A (.sync p)) : (writeNewFile p bytes).Calls A :=
  calls_bind (calls_sys hnew) fun _ =>
    calls_bind (calls_sys hwrite) fun _ => calls_sys hsync

/-- Nothing but the file changes, and a file that was written is complete. -/
theorem writeNewFile_obeys {limit : Option Nat} (p : Path) (bytes : Bytes) :
    Obeys (protocol writes limit) s (writeNewFile p bytes) fun r s' =>
      (∀ q, q ≠ p → s'.fs q = s.fs q) ∧ (r = .ok () → s'.fs p = some (.file bytes)) := by
  refine Obeys.and (obeys_untouched (K := fun q => q ≠ p) ?_) ?_
  · refine calls_writeNewFile ?_ ?_ ?_ <;> intro q hq
    · simpa [Op.touches] using hq
    · simpa [Op.touches] using hq
    · rfl
  · refine obeys_sys (fun _ _ _ _ h => by cases h) fun o _ _ _ =>
      obeys_sys (fun _ _ _ _ h => by cases h) fun o' _ _ hw => ?_
    have hfile : (Sys.answer writes (s.answer writes o (.createNew p)).2 o'
        (.writeAll p bytes)).2.fs p = some (.file bytes) := by
      simp only [Os.answer] at hw
      split at hw
      case isTrue hok => simp [Sys.answer, Os.answer, hok]
      case isFalse => cases hw
    refine obeys_call fun o'' _ => ?_
    have hsync : (Os.answer writes (Sys.answer writes (s.answer writes o (.createNew p)).2 o'
        (.writeAll p bytes)).2.fs o'' (.sync p)).2 p = some (.file bytes) :=
      (answer_untouched writes rfl).trans hfile
    split
    · exact fun _ => hsync
    · intro h
      cases h

/-- The directory `d` has the pair. -/
structure Holds (d : Path) (pair : Pair) (fs : Fs) : Prop where
  dir : fs d = some .dir
  certificate : fs (d ++ [certificatePem]) = some (.file pair.certificate)
  privateKey : fs (d ++ [privateKeyPem]) = some (.file pair.privateKey)

theorem Holds.congr {d d' : Path} {pair : Pair} {fs fs' : Fs} (h : Holds d pair fs)
    (hfs : ∀ rest, fs' (d' ++ rest) = fs (d ++ rest)) : Holds d' pair fs' where
  dir := by
    have := hfs []
    rw [append_nil, append_nil] at this
    exact this.trans h.dir
  certificate := (hfs _).trans h.certificate
  privateKey := (hfs _).trans h.privateKey

theorem Holds.untouched {d : Path} {pair : Pair} (h : Holds d pair s.fs)
    (hop : ∀ rest, op.touches writes (d ++ rest) = false) :
    Holds d pair (s.answer writes o op).2.fs :=
  h.congr fun rest => answer_untouched writes (hop rest)

theorem isPrefixOf_under (d : Path) {x y : Name} (h : x ≠ y) (rest : Path) :
    (d ++ [x]).isPrefixOf (d ++ [y] ++ rest) = false := by
  rw [append_assoc, singleton_append, isPrefixOf_neighbour]
  simpa using h

section

variable {limit : Option Nat} {pair : Pair} {t : Name}

theorem loadIdentity_calls (check : Pair → Except Bytes Unit) (cert key : Path) :
    (loadIdentity check cert key).Calls fun op => ∀ q, op.touches writes q = false := by
  refine calls_bind (calls_sys fun _ => rfl) fun certificate => ?_
  refine calls_bind (calls_sys fun _ => rfl) fun privateKey => ?_
  split <;> trivial

/-- The pair that is read is the one that is there, and an identity is loaded of a checked one. -/
theorem loadIdentity_obeys (check : Pair → Except Bytes Unit) {d : Path} (h : Holds d pair s.fs) :
    Obeys (protocol writes limit) s
      (loadIdentity check (d ++ [certificatePem]) (d ++ [privateKeyPem]))
      fun r s' => Holds d pair s'.fs ∧ ∀ v, r = .ok v → check pair = .ok () := by
  refine (obeys_of_calls (J := fun s' => Holds d pair s'.fs)
    (fun _ _ _ hop hs => hs.untouched fun _ => hop _) (loadIdentity_calls check _ _) h).and ?_
  refine obeys_sys nofun fun o₁ (certificate : Bytes) _ hread₁ => ?_
  have h₁ : Holds d pair (s.answer writes o₁ (.read (d ++ [certificatePem]))).2.fs :=
    h.untouched fun _ => rfl
  refine obeys_sys nofun fun o₂ (privateKey : Bytes) _ hread₂ => ?_
  have hcert := answer_read_ok writes hread₁
  have hkey := answer_read_ok writes hread₂
  rw [follow_dir h.dir, h.certificate] at hcert
  rw [follow_dir h₁.dir, h₁.privateKey] at hkey
  cases hcert
  cases hkey
  split
  case h_1 hcheck => exact fun _ _ => hcheck
  case h_2 => nofun

variable {g : Name}

/-- The generation is a new neighbour of `current`. -/
theorem Before.renames (h : Before cacheDir fs₀ s) (hg : g ≠ current)
    (htemp : ∀ q, Relevant cacheDir fs₀ q → (cacheDir ++ [t]).isPrefixOf q = false) :
    Before cacheDir fs₀ (s.answer writes o (.rename (cacheDir ++ [t]) (cacheDir ++ [g]))).2 := by
  refine h.answer (fun link he => ?_) fun q hq => ?_
  · exact neighbour_ne hg (Op.rename.inj he).2
  · simp only [Os.answer, guarded]
    split
    case isTrue hallowed =>
      have hgen : (cacheDir ++ [g]).isPrefixOf q = false := by
        by_contra hpre
        have hdir := relevant_under hg h.kept hq (by simpa using hpre)
        simp [Fs.canRename, hdir] at hallowed
      simp [Fs.move, hgen, htemp q hq]
    case isFalse => rfl

/-- A renamed directory keeps its files. -/
theorem Holds.renames (h : Holds (cacheDir ++ [t]) pair s.fs)
    (hok : (Os.answer writes s.fs o (.rename (cacheDir ++ [t]) (cacheDir ++ [g]))).1 = .ok ()) :
    Holds (cacheDir ++ [g]) pair
      (s.answer writes o (.rename (cacheDir ++ [t]) (cacheDir ++ [g]))).2.fs := by
  refine h.congr fun rest => ?_
  have heffect := (guarded_ok hok).2
  show (Os.answer writes s.fs o (.rename (cacheDir ++ [t]) (cacheDir ++ [g]))).2 _ = _
  rw [show (Os.answer writes s.fs o (.rename (cacheDir ++ [t]) (cacheDir ++ [g]))).2 =
    s.fs.move (cacheDir ++ [t]) (cacheDir ++ [g]) from heffect]
  have hpre : (cacheDir ++ [g]).isPrefixOf (cacheDir ++ [g] ++ rest) = true :=
    isPrefixOf_iff_prefix.mpr (prefix_append _ _)
  rw [Fs.move, if_pos hpre, drop_left]

/-- The pair is in the directory `d`, and `current` is the old one. -/
structure Staged (cacheDir d : Path) (pair : Pair) (fs₀ : Fs) (s : Sys) : Prop where
  before : Before cacheDir fs₀ s
  holds : Holds d pair s.fs

/-- An operation that changes no file. -/
theorem Staged.reads {d : Path} (h : Staged cacheDir d pair fs₀ s)
    (hop : ∀ q, op.touches writes q = false) (o : Outcome) :
    Staged cacheDir d pair fs₀ (s.answer writes o op).2 :=
  ⟨h.before.untouched fun q _ => hop q, h.holds.untouched fun _ => hop _⟩

/-- The link to the new generation is there as well. -/
structure Ready (cacheDir : Path) (g : Name) (pair : Pair) (fs₀ : Fs) (link : Path) (s : Sys) :
    Prop extends Staged cacheDir (cacheDir ++ [g]) pair fs₀ s where
  points : s.fs link = some (.symlink g)
  name : ∃ suffix, link = cacheDir ++ [ascii ".current-" ++ suffix]

theorem link_ne_current (suffix : Bytes) : ascii ".current-" ++ suffix ≠ current := by
  intro h
  cases (List.cons.inj h).1

theorem generation_ne_current (number : Bytes) : ascii "generation-" ++ number ≠ current := by
  intro h
  cases (List.cons.inj h).1

theorem link_ne_generation (suffix number : Bytes) :
    ascii ".current-" ++ suffix ≠ ascii "generation-" ++ number := by
  intro h
  cases (List.cons.inj h).1

/-- The operations of the first part leave alone what `current` resolves to. -/
theorem stageGeneration_calls (check : Pair → Except Bytes Unit) (hg : g ≠ current)
    (htemp : ∀ q, Relevant cacheDir fs₀ q → (cacheDir ++ [t]).isPrefixOf q = false) :
    (stageGeneration check cacheDir g (cacheDir ++ [t]) pair).Calls
      (Keeps writes (Before cacheDir fs₀)) := by
  have hfile : ∀ name bytes, (writeNewFile (cacheDir ++ [t] ++ [name]) bytes).Calls
      (Keeps writes (Before cacheDir fs₀)) := by
    intro name bytes
    have hne : ∀ q, Relevant cacheDir fs₀ q → (q == cacheDir ++ [t] ++ [name]) = false := by
      intro q hq
      rw [beq_eq_false_iff_ne]
      rintro rfl
      have hpre := htemp _ hq
      rw [ isPrefixOf_iff_prefix.mpr (prefix_append _ _)] at hpre
      cases hpre
    exact calls_writeNewFile (fun _ _ hb => hb.untouched hne) (fun _ _ hb => hb.untouched hne)
      (Before.keeps_reads fun _ => rfl)
  refine calls_bind (hfile _ _) fun _ => calls_bind (hfile _ _) fun _ => ?_
  refine calls_bind ((loadIdentity_calls check _ _).imp fun _ => Before.keeps_reads) ?_
  exact fun _ => calls_sys fun _ _ hb => hb.renames hg htemp

/-- If the first part succeeds, the new generation is there and was checked. -/
theorem stageGeneration_obeys (check : Pair → Except Bytes Unit)
    (hdir : s.fs (cacheDir ++ [t]) = some .dir) :
    Obeys (protocol writes limit) s
      (stageGeneration check cacheDir g (cacheDir ++ [t]) pair)
      fun r s' => r = .ok () → Holds (cacheDir ++ [g]) pair s'.fs ∧ check pair = .ok () := by
  have hne : ∀ name, cacheDir ++ [t] ≠ cacheDir ++ [t] ++ [name] := fun name => by simp
  refine Obeys.bind (writeNewFile_obeys _ _) nofun ?_
  rintro _ s₁ ⟨hkeep₁, hkey₁⟩
  refine Obeys.bind (writeNewFile_obeys _ _) nofun ?_
  rintro _ s₂ ⟨hkeep₂, hcert₂⟩
  have hold₂ : Holds (cacheDir ++ [t]) pair s₂.fs := by
    refine ⟨?_, hcert₂ rfl, ?_⟩
    · rw [hkeep₂ _ (hne _), hkeep₁ _ (hne _)]
      exact hdir
    · rw [hkeep₂ _ (neighbour_ne (by decide))]
      exact hkey₁ rfl
  refine Obeys.bind (loadIdentity_obeys check hold₂) nofun ?_
  rintro v s₃ ⟨hold₃, hchecked⟩
  exact obeys_sys_last nofun fun o _ _ hok _ => ⟨hold₃.renames hok, hchecked v rfl⟩

/-- The link `current` could not be read. -/
def LinkUnread (cacheDir : Path) (s : Sys) : Prop :=
  ⟨.readLink (cacheDir ++ [current]), false⟩ ∈ s.trace

theorem LinkUnread.answer (h : LinkUnread cacheDir s) :
    LinkUnread cacheDir (s.answer writes o op).2 :=
  (Sys.mem_trace writes).mpr (.inl h)

/-- The reply names what `current` names, unless it could not be read. -/
theorem readLink_cases (writes : Footprint) (cacheDir : Path) (s : Sys)
    (o : Outcome) : LinkUnread cacheDir (s.answer writes o (.readLink (cacheDir ++ [current]))).2 ∨
      ∀ target, s.fs (cacheDir ++ [current]) = some (.symlink target) →
        (s.answer writes o (.readLink (cacheDir ++ [current]))).1 = .ok target := by
  cases hr : (Os.answer writes s.fs o (.readLink (cacheDir ++ [current]))).1 with
  | error e =>
    refine .inl ((Sys.mem_trace writes).mpr (.inr ?_))
    rw [hr]
    rfl
  | ok name =>
    refine .inr fun target ht => ?_
    simp only [Os.answer, ht] at hr
    cases guarded_value hr
    show (Os.answer writes s.fs o _).1 = _
    simp only [Os.answer, ht]
    exact hr

theorem linkGeneration_calls (number : Bytes) :
    (linkGeneration cacheDir (ascii "generation-" ++ number)).Calls
      (Keeps writes (Before cacheDir fs₀)) := by
  refine calls_bind (calls_sys (Before.keeps_reads fun _ => rfl)) fun _ => ?_
  refine calls_bind ⟨Before.keeps_reads fun _ => rfl, fun _ => trivial⟩ fun previous => ?_
  refine calls_bind (calls_sys (Before.keeps_reads fun _ => rfl)) fun (suffix : Bytes) => ?_
  refine calls_bind (calls_sys fun _ _ hb => ?_) fun _ => trivial
  exact hb.creates (link_ne_current suffix) _ nofun (answer_symlink writes)

/-- The second part: if it succeeds, the link to the new generation is there, and the generation
that `current` names is known. -/
theorem linkGeneration_obeys {number : Bytes}
    (hst : Staged cacheDir (cacheDir ++ [ascii "generation-" ++ number]) pair fs₀ s) :
    Obeys (protocol writes limit) s (linkGeneration cacheDir (ascii "generation-" ++ number))
      fun r s' => ∀ v, r = .ok v → Ready cacheDir (ascii "generation-" ++ number) pair fs₀ v.1 s' ∧
        (LinkUnread cacheDir s' ∨
          ∀ target, fs₀ (cacheDir ++ [current]) = some (.symlink target) → v.2 = some target) := by
  refine obeys_sys_keep (hst.reads fun _ => rfl) (fun _ _ _ => nofun) fun _ s₁ h₁ => ?_
  refine obeys_call fun o₂ _ => ?_
  have h₂ : Staged cacheDir _ pair fs₀
      (s₁.answer writes o₂ (.readLink (cacheDir ++ [current]))).2 := h₁.reads (fun _ => rfl) o₂
  have hread := readLink_cases writes cacheDir s₁ o₂
  rw [h₁.before.kept _ (.inl rfl)] at hread
  generalize s₁.answer writes o₂ (.readLink (cacheDir ++ [current])) = reply at h₂ hread
  obtain ⟨previous, s₂⟩ := reply
  refine obeys_sys_keep
    (J := fun s' => Staged cacheDir _ pair fs₀ s' ∧ (LinkUnread cacheDir s' ∨ _))
    (fun o => ⟨h₂.reads (fun _ => rfl) o, hread.imp LinkUnread.answer id⟩) (fun _ _ _ => nofun)
    fun (suffix : Bytes) s₃ ⟨⟨hb₃, hold₃⟩, hread₃⟩ => ?_
  refine obeys_sys (fun _ _ _ _ => nofun) fun o _ _ hlink => ?_
  rintro _ ⟨⟩
  refine ⟨⟨⟨?_, hold₃.untouched fun rest => ?_⟩, ?_, suffix, rfl⟩, ?_⟩
  · exact hb₃.creates (link_ne_current suffix) _ nofun (answer_symlink writes)
  · show (_ == _) = false
    rw [beq_eq_false_iff_ne, append_assoc]
    intro he
    exact link_ne_generation suffix number (List.cons.inj (append_cancel_left he)).1.symm
  · show (Os.answer writes s₃.fs o _).2 _ = _
    rw [show (Os.answer writes s₃.fs o (.symlink (ascii "generation-" ++ number)
      (cacheDir ++ [ascii ".current-" ++ suffix]))).2 = _ from (guarded_ok hlink).2]
    exact set_self
  · refine hread₃.imp LinkUnread.answer fun hnamed target ht => ?_
    rw [hnamed target ht]
    rfl

/-! ## The switch and what follows it -/

/-- `current` names the new generation. -/
structure After (cacheDir : Path) (g : Name) (pair : Pair) (s : Sys) : Prop where
  switched : Switched cacheDir s
  link : s.fs (cacheDir ++ [current]) = some (.symlink g)
  holds : Holds (cacheDir ++ [g]) pair s.fs

theorem After.currentPair (h : After cacheDir g pair s) :
    currentPair cacheDir s.fs = some pair := by
  refine currentPair_eq_some.mpr ⟨g, h.link, h.holds.dir, ?_, ?_⟩
  · have := h.holds.certificate
    rwa [append_assoc] at this
  · have := h.holds.privateKey
    rwa [append_assoc] at this

/-- The operation does not touch what the new `current` resolves to. -/
def Spares (writes : Footprint) (cacheDir : Path) (g : Name) (op : Op) : Prop :=
  op.touches writes (cacheDir ++ [current]) = false ∧
    ∀ rest, op.touches writes (cacheDir ++ [g] ++ rest) = false

theorem After.spared (h : After cacheDir g pair s) (hop : Spares writes cacheDir g op)
    (o : Outcome) : After cacheDir g pair (s.answer writes o op).2 where
  switched := by
    obtain ⟨link, hlink⟩ := h.switched
    exact ⟨link, (Sys.mem_trace writes).mpr (.inl hlink)⟩
  link := (answer_untouched writes hop.1).trans h.link
  holds := h.holds.untouched hop.2

theorem spares_removeDirAll {x : Name} (hx : x ≠ current) (hg : x ≠ g) :
    Spares writes cacheDir g (.removeDirAll (cacheDir ++ [x])) := by
  refine ⟨?_, fun rest => isPrefixOf_under _ hg rest⟩
  have := isPrefixOf_under cacheDir hx []
  rwa [append_nil] at this

/-- The directory that `current` named in `fs₀` is as it was. -/
def FormerKept (cacheDir : Path) (fs₀ fs : Fs) : Prop :=
  ∀ target rest, fs₀ (cacheDir ++ [current]) = some (.symlink target) →
    fs₀ (cacheDir ++ [target]) = some .dir →
      fs (cacheDir ++ target :: rest) = fs₀ (cacheDir ++ target :: rest)

theorem Before.formerKept (h : Before cacheDir fs₀ s) : FormerKept cacheDir fs₀ s.fs :=
  fun target rest ht hdir => h.kept _ (.inr ⟨target, ht, hdir, rest, rfl⟩)

/-- `current` has been switched to a new generation, whose pair has passed the check. The one
before is as it was, unless its name could not be read. -/
structure Succeeds (check : Pair → Except Bytes Unit) (cacheDir : Path) (fs₀ : Fs) (number : Bytes)
    (pair : Pair) (s : Sys) : Prop extends
    After cacheDir (ascii "generation-" ++ number) pair s where
  checked : check pair = .ok ()
  former : LinkUnread cacheDir s ∨ FormerKept cacheDir fs₀ s.fs

/-- The rename of the link switches `current` and nothing else that was relevant. -/
theorem Ready.switches {number : Bytes} {link : Path}
    (h : Ready cacheDir (ascii "generation-" ++ number) pair fs₀ link s)
    (hok : (Os.answer writes s.fs o (.rename link (cacheDir ++ [current]))).1 = .ok ()) :
    After cacheDir (ascii "generation-" ++ number) pair
        (s.answer writes o (.rename link (cacheDir ++ [current]))).2 ∧
      FormerKept cacheDir fs₀ (s.answer writes o (.rename link (cacheDir ++ [current]))).2.fs := by
  obtain ⟨⟨hb, hold⟩, hpoints, suffix, rfl⟩ := h
  have heffect : (s.answer writes o (.rename (cacheDir ++ [ascii ".current-" ++ suffix])
      (cacheDir ++ [current]))).2.fs = s.fs.move _ _ := (guarded_ok hok).2
  have hother : ∀ {x} rest, x ≠ current → x ≠ ascii ".current-" ++ suffix →
      (s.answer writes o (.rename (cacheDir ++ [ascii ".current-" ++ suffix])
        (cacheDir ++ [current]))).2.fs (cacheDir ++ [x] ++ rest) =
        s.fs (cacheDir ++ [x] ++ rest) := by
    intro x rest hcur hlink
    rw [heffect, Fs.move, isPrefixOf_under _ hcur.symm, isPrefixOf_under _ hlink.symm]
    rfl
  refine ⟨⟨⟨_, Sys.trace_of_ok writes hok⟩, ?_, ?_⟩, ?_⟩
  · rw [heffect, Fs.move, if_pos (isPrefixOf_self _), drop_length, append_nil]
    exact hpoints
  · exact hold.congr fun rest => hother rest (generation_ne_current number)
      (link_ne_generation suffix number).symm
  · intro target rest ht hdir
    have hcur : target ≠ current := by
      rintro rfl
      rw [ht] at hdir
      cases hdir
    have hkept := hb.kept (cacheDir ++ [target]) (.inr ⟨target, ht, hdir, [], rfl⟩)
    have hlink : target ≠ ascii ".current-" ++ suffix := by
      rintro rfl
      rw [hpoints, hdir] at hkept
      cases hkept
    have hrest := hother rest hcur hlink
    rw [append_assoc] at hrest
    exact hrest.trans (hb.formerKept target rest ht hdir)

/-- After a rename that has failed, the link is removed. -/
theorem Ready.stays {link : Path} (h : Ready cacheDir g pair fs₀ link s) {e : Os.IoError}
    (herr : (Os.answer writes s.fs o (.rename link (cacheDir ++ [current]))).1 = .error e) :
    Before cacheDir fs₀ (s.answer writes o (.rename link (cacheDir ++ [current]))).2 ∧
      ∀ o', Before cacheDir fs₀ (((s.answer writes o
        (.rename link (cacheDir ++ [current]))).2.answer writes o' (.removeFile link)).2) := by
  obtain ⟨⟨hb, -⟩, hpoints, suffix, rfl⟩ := h
  have hfs : (s.answer writes o (.rename (cacheDir ++ [ascii ".current-" ++ suffix])
      (cacheDir ++ [current]))).2.fs = s.fs := guarded_error herr
  have hb' : Before cacheDir fs₀ (s.answer writes o (.rename
      (cacheDir ++ [ascii ".current-" ++ suffix]) (cacheDir ++ [current]))).2 := by
    refine ⟨by rw [hfs]; exact hb.kept, ?_⟩
    rintro ⟨link, hmem⟩
    rcases (Sys.mem_trace writes).mp hmem with hmem | hmem
    · exact hb.notSwitched ⟨link, hmem⟩
    · have hfailed := congrArg Event.ok hmem
      rw [show (Os.answer writes s.fs o _).1 = _ from herr] at hfailed
      cases hfailed
  refine ⟨hb', fun o' => hb'.untouched fun q hq => ?_⟩
  show (q == _) = false
  rw [beq_eq_false_iff_ne]
  rintro rfl
  -- the link is what it was: no directory
  have hdir := relevant_under (link_ne_current suffix) hb.kept hq (isPrefixOf_self _)
  rw [hpoints] at hdir
  cases hdir

/-! ## The removal of old generations -/

/-- The operation touches neither the new generation nor the one that is known as `previous`. -/
def Retains (writes : Footprint) (cacheDir : Path) (g : Name)
    (previous : Option Name) (op : Op) : Prop :=
  Spares writes cacheDir g op ∧
    ∀ x, previous = some x → ∀ rest, op.touches writes (cacheDir ++ [x] ++ rest) = false

theorem cleanupEntries_calls (previous : Option Name) (names : List Name) :
    (cleanupEntries cacheDir g previous names).Calls (Retains writes cacheDir g previous) := by
  induction names with
  | nil => trivial
  | cons name names ih =>
    unfold cleanupEntries
    split
    · exact ih
    case isFalse hname =>
      simp only [Bool.or_eq_true, Bool.not_eq_true', beq_iff_eq, not_or, Bool.not_eq_false] at hname
      obtain ⟨⟨⟨-, hprefix⟩, hgen⟩, hprevious⟩ := hname
      refine ⟨⟨⟨rfl, fun _ => rfl⟩, fun _ _ _ => rfl⟩, fun fileType => ?_⟩
      dsimp only
      split
      · refine ⟨⟨spares_removeDirAll ?_ hgen, ?_⟩, fun _ => ih⟩
        · rintro rfl
          exact absurd hprefix (by decide)
        · rintro x rfl rest
          exact isPrefixOf_under _ (fun h => hprevious (congrArg some h.symm)) rest
      · exact ih

theorem cleanupGenerations_calls (previous : Option Name) :
    (cleanupGenerations cacheDir g previous).Calls (Retains writes cacheDir g previous) := by
  refine ⟨⟨⟨rfl, fun _ => rfl⟩, fun _ _ _ => rfl⟩, fun entries => ?_⟩
  dsimp only
  split
  · exact cleanupEntries_calls previous _
  · trivial

/-- The removal of old generations returns no error. -/
theorem cleanupEntries_ok (previous : Option Name) (names : List Name) :
    Obeys (protocol writes limit) s (cleanupEntries cacheDir g previous names)
      fun r _ => r = .ok () := by
  induction names generalizing s with
  | nil => rfl
  | cons name names ih =>
    unfold cleanupEntries
    split
    · exact ih
    refine obeys_call fun o _ => ?_
    split
    · exact obeys_call fun o' _ => ih
    · exact ih

theorem cleanupGenerations_ok (previous : Option Name) :
    Obeys (protocol writes limit) s (cleanupGenerations cacheDir g previous)
      fun r _ => r = .ok () := by
  refine obeys_call fun o _ => ?_
  split
  · exact cleanupEntries_ok previous _
  · rfl

/-- The new generation is there, and the one before if its name is known. -/
structure Retained (cacheDir : Path) (g : Name) (pair : Pair) (fs₀ : Fs) (previous : Option Name)
    (s : Sys) : Prop where
  after : After cacheDir g pair s
  former : LinkUnread cacheDir s ∨ FormerKept cacheDir fs₀ s.fs ∧
    ∀ target, fs₀ (cacheDir ++ [current]) = some (.symlink target) → previous = some target

theorem Retained.answer {previous : Option Name} (h : Retained cacheDir g pair fs₀ previous s)
    (hop : Retains writes cacheDir g previous op) (o : Outcome) :
    Retained cacheDir g pair fs₀ previous (s.answer writes o op).2 := by
  refine ⟨h.after.spared hop.1 o, h.former.imp LinkUnread.answer ?_⟩
  rintro ⟨hkept, hnamed⟩
  refine ⟨fun target rest ht hdir => ?_, hnamed⟩
  have huntouched := hop.2 target (hnamed target ht) rest
  rw [append_assoc] at huntouched
  exact (answer_untouched writes huntouched).trans (hkept target rest ht hdir)

theorem temporary_ne_current (number : Bytes) :
    ascii "." ++ (ascii "generation-" ++ number) ++ ascii ".tmp" ≠ current := by
  intro h
  cases (List.cons.inj h).1

theorem temporary_ne_generation (number n : Bytes) :
    ascii "." ++ (ascii "generation-" ++ number) ++ ascii ".tmp" ≠ ascii "generation-" ++ n := by
  intro h
  cases (List.cons.inj h).1

/-! ## The publication -/

variable (check : Pair → Except Bytes Unit)

/-- Before the switch or after it. -/
def Consistent (cacheDir : Path) (fs₀ : Fs) (pair : Pair) (s : Sys) : Prop :=
  Before cacheDir fs₀ s ∨ ∃ number, Succeeds check cacheDir fs₀ number pair s

/-- The end of a publication: it has switched `current` and returns what the sync behind the switch
gave, or it fails. -/
def Ended (cacheDir : Path) (fs₀ : Fs) (pair : Pair) {α : Type} (r : Except AcmeError α)
    (s : Sys) : Prop :=
  (∃ number, Succeeds check cacheDir fs₀ number pair s ∧ Synced cacheDir r.isOk s) ∨
    ((∃ x, r = .error x) ∧ Before cacheDir fs₀ s)

variable {check}

variable {number : Bytes} {previous : Option Name} {link : Path}

theorem Retained.succeeds
    (h : Retained cacheDir (ascii "generation-" ++ number) pair fs₀ previous s)
    (hchecked : check pair = .ok ()) : Succeeds check cacheDir fs₀ number pair s :=
  ⟨h.after, hchecked, h.former.imp id And.left⟩

/-- What follows the switch returns what the sync gave. -/
theorem sync_watched {trace : List Event} (hchecked : check pair = .ok ())
    (h : Retained cacheDir (ascii "generation-" ++ number) pair fs₀ previous s)
    (htrace : s.trace = trace ++ [⟨.rename link (cacheDir ++ [current]), true⟩])
    (hno : trace.any (Event.switches cacheDir) = false) :
    Obeys ((protocol writes limit).watched (Consistent check cacheDir fs₀ pair)) s (do
      sys (.sync cacheDir)
      cleanupGenerations cacheDir (ascii "generation-" ++ number) previous)
      (Ended check cacheDir fs₀ pair) := by
  refine obeys_call_watched (.inr ⟨number, h.succeeds hchecked⟩) fun o _ => ?_
  have hretained : Retained cacheDir (ascii "generation-" ++ number) pair fs₀ previous
      (s.answer writes o (.sync cacheDir)).2 :=
    h.answer ⟨⟨rfl, fun _ => rfl⟩, fun _ _ _ => rfl⟩ o
  have hsynced : Synced cacheDir (Os.answer writes s.fs o (.sync cacheDir)).1.isOk
      (s.answer writes o (.sync cacheDir)).2 := by
    rw [Synced, Sys.answer, htrace]
    exact behindSwitch_switch hno (beq_self_eq_true _)
  cases hr : (Os.answer writes s.fs o (.sync cacheDir)).1 with
  | ok u =>
    rw [hr] at hsynced
    rw [show (s.answer writes o (.sync cacheDir)).1 = .ok u from hr]
    have hcalls : (cleanupGenerations cacheDir (ascii "generation-" ++ number) previous).Calls
        (Keeps writes fun s' => Retained cacheDir (ascii "generation-" ++ number) pair fs₀ previous
          s' ∧ Synced cacheDir true s') :=
      (cleanupGenerations_calls previous).imp fun op hop _ o h =>
        ⟨h.1.answer hop o, behindSwitch_append h.2⟩
    refine ((cleanupGenerations_ok previous).watched (obeys_of_keeps
      (fun s' h => .inr ⟨number, h.1.succeeds hchecked⟩) hcalls ⟨hretained, hsynced⟩)).imp ?_
    rintro _ s' ⟨rfl, h⟩
    exact .inl ⟨number, h.1.succeeds hchecked, h.2⟩
  -- a failure of the sync comes too late
  | error e =>
    rw [hr] at hsynced
    rw [show (s.answer writes o (.sync cacheDir)).1 = .error e from hr]
    exact .inl ⟨number, hretained.succeeds hchecked, hsynced⟩

/-- The switch, and what the sync and the removal of old generations keep. -/
theorem switch_watched (hchecked : check pair = .ok ())
    (h : Ready cacheDir (ascii "generation-" ++ number) pair fs₀ link s)
    (hread : LinkUnread cacheDir s ∨
      ∀ target, fs₀ (cacheDir ++ [current]) = some (.symlink target) → previous = some target) :
    Obeys ((protocol writes limit).watched (Consistent check cacheDir fs₀ pair)) s (do
      switchCurrent cacheDir link
      sys (.sync cacheDir)
      cleanupGenerations cacheDir (ascii "generation-" ++ number) previous)
      (Ended check cacheDir fs₀ pair) := by
  refine obeys_call_watched (.inl h.before) fun o _ => ?_
  cases hr : (Os.answer writes s.fs o (.rename link (cacheDir ++ [current]))).1 with
  | ok u =>
    obtain ⟨hafter, hformer⟩ := h.switches hr
    have hno : ¬ s.trace.any (Event.switches cacheDir) = true :=
      fun hs => h.before.notSwitched (any_switches_iff.mp hs)
    have htrace : (s.answer writes o (.rename link (cacheDir ++ [current]))).2.trace =
        s.trace ++ [⟨.rename link (cacheDir ++ [current]), true⟩] := by
      rw [Sys.answer, hr]
      rfl
    rw [show (s.answer writes o (.rename link (cacheDir ++ [current]))).1 = .ok u from hr]
    exact sync_watched hchecked
      ⟨hafter, hread.imp LinkUnread.answer fun hnamed => ⟨hformer, hnamed⟩⟩ htrace
      (Bool.eq_false_iff.mpr hno)
  | error e =>
    obtain ⟨hb, hremoved⟩ := h.stays hr
    rw [show (s.answer writes o (.rename link (cacheDir ++ [current]))).1 = .error e from hr]
    exact obeys_call_watched (.inl hb) fun o' _ => .inr ⟨⟨_, rfl⟩, hremoved o'⟩

/-- The closure of the publication. -/
theorem closure_watched (hb : Before cacheDir fs₀ s)
    (htemp : ∀ q, Relevant cacheDir fs₀ q → (cacheDir ++ [t]).isPrefixOf q = false)
    (hdir : s.fs (cacheDir ++ [t]) = some .dir) :
    Obeys ((protocol writes limit).watched (Consistent check cacheDir fs₀ pair)) s (do
      stageGeneration check cacheDir (ascii "generation-" ++ number) (cacheDir ++ [t]) pair
      let (link, previous) ← linkGeneration cacheDir (ascii "generation-" ++ number)
      switchCurrent cacheDir link
      sys (.sync cacheDir)
      cleanupGenerations cacheDir (ascii "generation-" ++ number) previous)
      (Ended check cacheDir fs₀ pair) := by
  refine Obeys.bind ((stageGeneration_obeys check hdir).watched (obeys_of_keeps (fun _ => .inl)
    (stageGeneration_calls check (generation_ne_current number) htemp) hb)) ?_ ?_
  · exact fun x s₁ h₁ => .inr ⟨⟨x, rfl⟩, h₁.2⟩
  rintro _ s₁ ⟨hstaged, hb₁⟩
  obtain ⟨hold₁, hchecked⟩ := hstaged rfl
  refine Obeys.bind ((linkGeneration_obeys ⟨hb₁, hold₁⟩).watched
    (obeys_of_keeps (fun _ => .inl) (linkGeneration_calls number) hb₁)) ?_ ?_
  · exact fun x s₂ h₂ => .inr ⟨⟨x, rfl⟩, h₂.2⟩
  rintro ⟨link, previous⟩ s₂ ⟨hlink, -⟩
  obtain ⟨hready, hread⟩ := hlink _ rfl
  exact switch_watched hchecked hready hread

/-- The temporary directory is none of the two generations. -/
theorem Succeeds.removes (h : Succeeds check cacheDir fs₀ number pair s) (hcur : t ≠ current)
    (hgen : t ≠ ascii "generation-" ++ number)
    (htemp : ∀ q, Relevant cacheDir fs₀ q → (cacheDir ++ [t]).isPrefixOf q = false) (o : Outcome) :
    Succeeds check cacheDir fs₀ number pair
      (s.answer writes o (.removeDirAll (cacheDir ++ [t]))).2 := by
  refine ⟨h.spared (spares_removeDirAll hcur hgen) o, h.checked, h.former.imp LinkUnread.answer ?_⟩
  intro hkept target rest ht hdir
  have huntouched : (Op.removeDirAll (cacheDir ++ [t])).touches writes
      (cacheDir ++ target :: rest) = false := htemp _ (.inr ⟨target, ht, hdir, rest, rfl⟩)
  exact (answer_untouched writes huntouched).trans (hkept target rest ht hdir)

/-- The temporary directory is new, so it is not where `current` points. -/
theorem createTemporary_obeys (hcur : t ≠ current) (hb : Before cacheDir fs₀ s) :
    Obeys (protocol writes limit) s (sys (.createDir (cacheDir ++ [t])) : Task Unit)
      fun r s' => r = .ok () → s'.fs (cacheDir ++ [t]) = some .dir ∧
        ∀ q, Relevant cacheDir fs₀ q → (cacheDir ++ [t]).isPrefixOf q = false := by
  refine obeys_sys_last nofun fun o _ _ hcreate _ => ?_
  obtain ⟨hallowed, heffect⟩ := guarded_ok hcreate
  refine ⟨?_, fun q hq => ?_⟩
  · rw [show (s.answer writes o (.createDir (cacheDir ++ [t]))).2.fs = _ from heffect]
    exact set_self
  · by_contra hpre
    have hdir := relevant_under hcur hb.kept hq (by simpa using hpre)
    rw [hdir, Bool.and_eq_true] at hallowed
    cases hallowed.2

theorem publishGeneration_watched (hcur : t ≠ current) (hgen : ∀ n, t ≠ ascii "generation-" ++ n)
    (hb : Before cacheDir fs₀ s) :
    Obeys ((protocol writes limit).watched (Consistent check cacheDir fs₀ pair)) s
      (publishGeneration check cacheDir (ascii "generation-" ++ number) t pair)
      (Ended check cacheDir fs₀ pair) := by
  have hcreate : (sys (.createDir (cacheDir ++ [t])) : Task Unit).Calls
      (Keeps writes (Before cacheDir fs₀)) :=
    calls_sys fun _ _ hb => hb.creates hcur _ nofun (answer_createDir writes)
  refine Obeys.bind ((createTemporary_obeys hcur hb).watched
    (obeys_of_keeps (fun _ => .inl) hcreate hb)) ?_ ?_
  · exact fun x s₁ h₁ => .inr ⟨⟨x, rfl⟩, h₁.2⟩
  rintro _ s₁ ⟨htemporary, hb₁⟩
  obtain ⟨hdir₁, htemp⟩ := htemporary rfl
  have hmode : (sys (.setPermissions (cacheDir ++ [t]) 0o700) : Task Unit).Calls (Keeps writes
      fun s' => Before cacheDir fs₀ s' ∧ s'.fs (cacheDir ++ [t]) = some .dir) :=
    calls_sys fun _ _ h => ⟨h.1.untouched fun _ _ => rfl, (answer_untouched writes rfl).trans h.2⟩
  refine Obeys.bind (obeys_of_keeps (fun _ h => .inl h.1) hmode ⟨hb₁, hdir₁⟩) ?_ ?_
  · exact fun x s₂ h₂ => .inr ⟨⟨x, rfl⟩, h₂.1⟩
  rintro _ s₂ ⟨hb₂, hdir₂⟩
  refine Prog.obeys_attempt ((closure_watched hb₂ htemp hdir₂).imp ?_)
  rintro (x | _) s₃ (⟨n, hsucceeds, hsynced⟩ | ⟨⟨y, hy⟩, hb₃⟩)
  · exact obeys_call_watched (.inr ⟨n, hsucceeds⟩) fun o _ =>
      .inl ⟨n, hsucceeds.removes hcur (hgen n) htemp o, behindSwitch_append hsynced⟩
  · exact obeys_call_watched (.inl hb₃) fun o _ => .inr ⟨⟨x, rfl⟩, hb₃.untouched htemp⟩
  · exact .inl ⟨n, hsucceeds, hsynced⟩
  · cases hy

/-- **Publication.** At every point of a publication, however its operations end, `current` has been
switched to the new pair, or it resolves to what it resolved to before; in the second case the
publication returns an error, and in the first one if the sync behind the switch has failed. -/
theorem publish_watched (pair : Pair) (hs : ¬ Switched cacheDir s) :
    Obeys ((protocol writes limit).watched (Consistent check cacheDir s.fs pair)) s
      (publishCertificatePair check cacheDir pair) (Ended check cacheDir s.fs pair) := by
  have hb : Before cacheDir s.fs s := ⟨fun _ _ => rfl, hs⟩
  have hrandom : (random : Task Bytes).Calls (Keeps writes (Before cacheDir s.fs)) :=
    calls_sys (Before.keeps_reads fun _ => rfl)
  refine Obeys.bind (obeys_of_keeps (fun _ => .inl) hrandom hb) ?_ ?_
  · exact fun x s₁ hb₁ => .inr ⟨⟨x, rfl⟩, hb₁⟩
  · exact fun number s₁ hb₁ => publishGeneration_watched (temporary_ne_current number)
      (temporary_ne_generation number) hb₁

theorem publish_obeys (check : Pair → Except Bytes Unit) (pair : Pair)
    (hs : ¬ Switched cacheDir s) :
    Obeys (protocol writes limit) s (publishCertificatePair check cacheDir pair) fun r s' =>
      (∃ g, After cacheDir g pair s' ∧ Synced cacheDir r.isOk s') ∨
        ((∃ x, r = .error x) ∧ Before cacheDir s.fs s') := by
  refine (publish_watched pair hs).unwatched.imp fun r s' h => h.imp ?_ id
  rintro ⟨number, hsucceeds, hsynced⟩
  exact ⟨_, hsucceeds.toAfter, hsynced⟩

end

end

end Xhttp.Acme
