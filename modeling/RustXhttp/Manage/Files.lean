import RustXhttp.Lib.OneFailure
import RustXhttp.Lib.Text

/-!
# File operations of the manager (`src/management.rs`)

The companion binary replaces files by a copy under a temporary name in the same directory and a
rename, and removes the temporary file when a step fails. `copyAtomic` and `atomicWrite` do so for
a source file and for given bytes.

* `Wrote`: what one of them leaves behind when operations fail. The destination has the new content,
  or there was a failure and it has the new or the old one; nothing else changes but temporary
  names.
* `copyAtomic_obeys`, `atomicWrite_obeys`, `uniqueDirectory_obeys`.
-/

namespace Xhttp.Manage

open Os
open Prog (Obeys)

/-- A boxed error. -/
inductive Failure where
  | io (e : Os.IoError)
  | utf8
  /-- `command failed`: it was not started, or its status is not success. -/
  | command (description : List Bytes)
  | message (text : Bytes)
  /-- A message with a value in its debug format. -/
  | quoted (before value after : Bytes)
  /-- A message that ends in the error it reports. -/
  | because (text : Bytes) (error : Failure)
  /-- The error of a compensation that failed, told from the error that it was to compensate. -/
  | restoration (error : Failure)
  deriving DecidableEq

instance : OfIo Failure := ⟨.io⟩

abbrev Task := Prog Op Reply Failure

/-- The text of an absolute path. -/
def display (p : Path) : Bytes := p.flatMap fun name => ascii "/" ++ name

/-! ## Queries: an error counts as absence -/

/-- `fs::symlink_metadata`, as far as it tells what is there. -/
def metadata (p : Path) : Task (Option Node) := do
  let node ← Prog.perform (.stat p)
  pure node.toOption.join

def query (p : Path) (test : Node → Bool) : Task Bool := do
  let node ← metadata p
  pure (node.any test)

/-- `Path::exists`. -/
def pathExists (p : Path) : Task Bool := query p fun _ => true

def isFile (p : Path) : Task Bool := query p fun node => node matches .file _

def isDir (p : Path) : Task Bool := query p fun node => node matches .dir

/-! ## Commands -/

def runOutput (command : List Bytes) : Task Bytes :=
  .call (.run command) fun r => match r with
    | .ok (stdout : Bytes) => .done stdout
    | .error _ => .fail (.command command)

def runChecked (command : List Bytes) : Task Unit := do
  let _ ← runOutput command
  pure ()

def restartCommand : List Bytes := [ascii "systemctl", ascii "restart", ascii "rust-xhttp"]

def isActiveCommand : List Bytes :=
  [ascii "systemctl", ascii "is-active", ascii "--quiet", ascii "rust-xhttp"]

/-- `let _ = ...`. -/
def ignore {α : Type} (task : Task α) : Task Unit := do
  let _ ← task.attempt
  pure ()

/-! ## Files -/

def createDir (p : Path) (mode : Nat) : Task Unit := do
  sys (.createDirAll p)
  sys (.setPermissions p mode)

def syncDirectory (p : Path) : Task Unit := sys (.sync p)

def removeIfExists (p : Path) : Task Unit := do
  if ← pathExists p then sys (.removeDirAll p)
  else pure ()

def removeFileIfPresent (p : Path) : Task Unit :=
  .call (.removeFile p) fun r => match r with
    | .ok _ => .done ()
    | .error .notFound => .done ()
    | .error .failed => .fail (.io .failed)

section

-- the process id, as it is printed
variable (pid : Bytes)

def uniqueName (base draw : Bytes) : Name := base ++ ascii "." ++ pid ++ ascii "." ++ draw

/-- The loop of `unique_path`, with the tries that are left. -/
def uniquePathFrom (parent : Path) (base : Bytes) : Nat → Task Path
  | 0 => .fail (.message (ascii "failed to allocate a unique temporary path"))
  | tries + 1 => do
    let draw ← random
    let candidate := parent ++ [uniqueName pid base draw]
    if !(← pathExists candidate) then pure candidate
    else uniquePathFrom parent base tries

def uniquePath (parent : Path) (base : Bytes) : Task Path := uniquePathFrom pid parent base 32

def uniqueDirectory (parent : Path) (base : Bytes) : Task Path := do
  let path ← uniquePath pid parent base
  sys (.createDir path)
  sys (.setPermissions path 0o700)
  pure path

def parentOf (p : Path) : Task Path :=
  if p = [] then .fail (.message (display p ++ ascii " has no parent")) else pure p.dropLast

/-- The parent of a file that is to be written. -/
def ensureParent (parent : Path) : Task Unit := do
  if !(← isDir parent) then createDir parent 0o755
  else pure ()

/-- The end of both functions: the temporary file of a closure that failed is removed. -/
def discardOnError (temporary : Path) (body : Task Unit) : Task Unit := do
  match ← body.attempt with
  | .ok () => pure ()
  | .error e =>
    ignore (sys (.removeFile temporary))
    .fail e

def copyAtomic (source destination : Path) (mode : Nat) : Task Unit := do
  let parent ← parentOf destination
  ensureParent parent
  let temporary ← uniquePath pid parent (ascii ".rust-xhttpctl-copy")
  discardOnError temporary do
    sys (.copy source temporary)
    sys (.setPermissions temporary mode)
    sys (.sync temporary)
    sys (.rename temporary destination)
    syncDirectory parent

def atomicWrite (destination : Path) (content : Bytes) (mode : Nat) : Task Unit := do
  let parent ← parentOf destination
  let temporary ← uniquePath pid parent (ascii ".rust-xhttpctl-write")
  discardOnError temporary do
    sys (.createNew temporary)
    sys (.writeAll temporary content)
    sys (.sync temporary)
    sys (.setPermissions temporary mode)
    sys (.rename temporary destination)
    syncDirectory parent

end

/-- Twelve hexadecimal digits, as `random_hex(6)` returns them, that differ for `i` below 1000. -/
def drawn (i : Nat) : Bytes :=
  ascii "5f0c31b7e" ++ [i / 100, i / 10 % 10, i % 10].map fun d => 48 + d.toUInt8

/-- The outcomes of a run in which every operation without an output draws a number of its own. -/
def drawing (outcomes : List Outcome) : List Outcome :=
  outcomes.mapIdx fun i o => if o.bytes = [] then { o with bytes := drawn i } else o

def prints (text : String) : Outcome := { bytes := ascii text }

def passes (n : Nat) : List Outcome := List.replicate n {}

/-! ## What they leave behind -/

section

variable {writes : Footprint} {may : Op → Prop} {s : Sys} {pid : Bytes}
  {allowed : Sys → Op → Outcome → Prop}

theorem runOutput_obeys [Failing allowed may] (command : List Bytes) :
    Obeys (protocolWhere writes allowed) s (runOutput command)
      (Calm (fun q => writes command q = false) s) := by
  refine ⟨trivial, fun r s' hn => ?_⟩
  rcases failing_next hn with ⟨o, ho, -, hr⟩ | ⟨⟨e, rfl⟩, -, hb, -⟩
  · simp only [Sys.answer, answer, ho] at hr
    cases hr
    exact ⟨fun q hq => if_neg (by rw [hq]; decide), Nat.le_refl _, fun x h => by cases h⟩
  · exact ⟨hb.frame, Nat.le_of_lt hb.lt, fun _ _ => hb.lt⟩

theorem runChecked_obeys [Failing allowed may] (command : List Bytes) :
    Obeys (protocolWhere writes allowed) s (runChecked command)
      (Calm (fun q => writes command q = false) s) := by
  refine (runOutput_obeys command).bind ?_ ?_
  · exact fun x s' h => ⟨h.frame, h.mono, fun _ _ => h.error x rfl⟩
  · exact fun a s' h => ⟨h.frame, h.mono, fun x hx => by cases hx⟩

theorem query_obeys [Failing allowed may] (p : Path) (test : Node → Bool) :
    Obeys (protocolWhere writes allowed) s (query p test) fun r s' => ∃ b, r = .ok b ∧
      s'.fs = s.fs ∧ s.failures ≤ s'.failures ∧ (b = (s.fs (s.fs.follow p)).any test ∨
        b = false ∧ may (.stat p) ∧ s.failures < s'.failures) := by
  refine ⟨trivial, fun r s' hn => ?_⟩
  rcases failing_next hn with ⟨o, ho, -, hr⟩ | ⟨⟨e, rfl⟩, hmay, hb, -⟩
  · have hpass : answer writes s.fs o (.stat p) = (.ok (s.fs (s.fs.follow p)), s.fs) := by
      simp [answer, guarded, ho]
    simp only [Sys.answer, hpass, ho] at hr
    cases hr
    exact ⟨_, rfl, rfl, Nat.le_refl _, .inl rfl⟩
  · have hfs : s'.fs = s.fs := funext fun q => hb.frame q rfl
    exact ⟨_, rfl, hfs, Nat.le_of_lt hb.lt, .inr ⟨rfl, hmay, hb.lt⟩⟩

variable {p : Path} {α : Type} {Q : Except Failure α → Sys → Prop} {mode : Nat}

/-- The rule for a query: it returns, with what the files say or with `false`. -/
theorem obeys_query [Failing allowed may] {test : Node → Bool} {k : Bool → Task α}
    (h : ∀ b s₁, s₁.fs = s.fs → s.failures ≤ s₁.failures →
      (b = (s.fs (s.fs.follow p)).any test ∨
        b = false ∧ may (.stat p) ∧ s.failures < s₁.failures) →
      Obeys (protocolWhere writes allowed) s₁ (k b) Q) :
    Obeys (protocolWhere writes allowed) s (query p test >>= k) Q := by
  refine (query_obeys p test).bind ?_ ?_
  · rintro e s₁ ⟨b, hb, -⟩
    cases hb
  · rintro b s₁ ⟨_, hb, hfs, hf, hcase⟩
    cases hb
    exact h b s₁ hfs hf hcase

/-- A rename is done and recorded, or nothing changes. -/
theorem rename_obeys {src dst : Path} :
    Obeys (protocolWhere writes allowed) s (sys (.rename src dst) : Task Unit) fun r s' =>
      (r = .ok () ∧ s.fs.canRename src dst = true ∧ s'.fs = s.fs.move src dst ∧
        ⟨.rename src dst, true⟩ ∈ s'.trace) ∨
      (∃ x, r = .error x) ∧ s'.fs = s.fs := by
  refine obeys_sys_last (fun o e _ he => .inr ⟨⟨_, rfl⟩, guarded_error he⟩) ?_
  intro o _ _ ha
  obtain ⟨hcan, hfs⟩ := guarded_ok ha
  exact .inl ⟨rfl, (Bool.and_eq_true_iff.mp hcan).2, hfs, Sys.trace_of_ok writes ha⟩

/-- What a directory that is made with its parents leaves alone. -/
structure MadeDir (p : Path) (s : Sys) (r : Except Failure Unit) (s' : Sys) : Prop where
  frame : ∀ q, ¬ q <+: p → s'.fs q = s.fs q
  kept : ∀ q node, s.fs q = some node → s'.fs q = some node
  ok : r = .ok () → s'.fs p = some .dir

theorem createDir_grown :
    Obeys (protocolWhere writes allowed) s (createDir p mode) fun r s' =>
      s.fs.Grown p s'.fs ∧ (s.fs p = some .dir → s'.fs = s.fs) ∧
        (r = .ok () → s'.fs p = some .dir) := by
  refine obeys_sys (fun o e _ _ => ?_) fun o _ _ hok => ?_
  · exact ⟨answer_createDirAll_grown writes, answer_createDirAll_existing writes,
      fun ha => by cases ha⟩
  have hcalls : (sys (.setPermissions p mode) : Task Unit).Calls fun op => ∀ q, True →
      op.touches writes q = false := calls_sys fun _ _ => rfl
  refine (obeys_untouched hcalls).imp fun r s' h => ?_
  have hfs : s'.fs = (answer writes s.fs o (.createDirAll p)).2 := funext fun q => h q trivial
  rw [hfs]
  exact ⟨answer_createDirAll_grown writes, answer_createDirAll_existing writes,
    fun _ => answer_createDirAll_ok writes hok⟩

theorem createDir_obeys : Obeys (protocolWhere writes allowed) s (createDir p mode) (MadeDir p s) :=
  createDir_grown.imp fun _ _ h => ⟨fun _ hq => h.1.frame hq, fun _ _ hq => h.1.kept hq, h.2.2⟩

theorem ignore_obeys {task : Task α} (h : Obeys (protocolWhere writes allowed) s task Q) :
    Obeys (protocolWhere writes allowed) s (ignore task)
      fun r s' => r = .ok () ∧ ∃ r₀, Q r₀ s' :=
  Prog.obeys_attempt (h.imp fun r₀ _ h₀ => ⟨rfl, r₀, h₀⟩)

/-- A path with a fresh name is found at the first try. -/
theorem uniquePath_obeys [Failing allowed may] (parent : Path) (base : Bytes) :
    Obeys (protocolWhere writes allowed) s (uniquePath pid parent base) fun r s' =>
      ∃ draw, r = .ok (parent ++ [uniqueName pid base draw]) ∧ Fresh s.fs draw ∧
        s'.fs = s.fs ∧ s.failures ≤ s'.failures := by
  refine obeys_random fun draw s₁ hfresh hfs₁ hf₁ => ?_
  refine obeys_query fun a s₂ hfs₂ hf₂ hcase => ?_
  have hfree : (s₁.fs (s₁.fs.follow (parent ++ [uniqueName pid base draw]))).any
      (fun _ => true) = false := by
    rw [hfs₁, uniqueName, follow_fresh hfresh]
    rfl
  have ha : a = false := by
    rcases hcase with h | ⟨h, -⟩
    · exact h.trans hfree
    · exact h
  subst ha
  exact ⟨draw, rfl, hfresh, hfs₂.trans hfs₁, hf₁ ▸ hf₂⟩

/-- The rule for a path with a fresh name. -/
theorem obeys_uniquePath [Failing allowed may] {parent : Path} {base : Bytes} {k : Path → Task α}
    (h : ∀ draw s₁, Fresh s.fs draw → s₁.fs = s.fs → s.failures ≤ s₁.failures →
      Obeys (protocolWhere writes allowed) s₁ (k (parent ++ [uniqueName pid base draw])) Q) :
    Obeys (protocolWhere writes allowed) s (uniquePath pid parent base >>= k) Q := by
  refine (uniquePath_obeys parent base).bind ?_ ?_
  · rintro e s₁ ⟨draw, he, -⟩
    cases he
  · rintro path s₁ ⟨draw, hpath, hfresh, hfs, hf⟩
    cases hpath
    exact h draw s₁ hfresh hfs hf

end

/-! ### Replacing a file -/

/-- The names of temporary files. -/
def Scratch (x : Name) : Prop := ascii ".rust-xhttpctl-" <+: x

/-- The file `name` of the directory `parent` is written; the names in `T` are temporary. -/
structure Wrote (parent : Path) (name : Name) (content : Bytes) (T : Name → Prop) (s : Sys)
    (r : Except Failure Unit) (s' : Sys) : Prop where
  frame : ∀ q, ¬ Under parent (fun x => x = name ∨ T x) q → s'.fs q = s.fs q
  mono : s.failures ≤ s'.failures
  ok : r = .ok () → s'.fs (parent ++ [name]) = some (.file content)
  error : ∀ x, r = .error x → s.failures < s'.failures ∧
    (s'.fs (parent ++ [name]) = s.fs (parent ++ [name]) ∨
      s'.fs (parent ++ [name]) = some (.file content))

section

variable {writes : Footprint} {may : Op → Prop} {pid : Bytes}
  {allowed : Sys → Op → Outcome → Prop} {parent : Path} {name t : Name} {content : Bytes}
  {s s₁ s' : Sys} {r : Except Failure Unit}

theorem Wrote.imp {T T' : Name → Prop} (h : Wrote parent name content T s r s')
    (hT : ∀ x, T x → T' x) : Wrote parent name content T' s r s' where
  frame q hq := h.frame q fun hu => hq (hu.mono fun x => Or.imp_right (hT x))
  mono := h.mono
  ok := h.ok
  error := h.error

/-- What was done to a temporary file before. -/
theorem Wrote.after (h : Wrote parent name content (· = t) s₁ r s') (hne : name ≠ t)
    (hfs : ∀ q, ¬ Under parent (· = t) q → s₁.fs q = s.fs q) (hf : s.failures ≤ s₁.failures) :
    Wrote parent name content (· = t) s r s' where
  frame q hq := (h.frame q hq).trans (hfs q fun hu => hq (hu.mono fun _ => .inr))
  mono := Nat.le_trans hf h.mono
  ok := h.ok
  error x hx := by
    have hdst : s₁.fs (parent ++ [name]) = s.fs (parent ++ [name]) :=
      hfs _ (mt under_append.mp hne)
    obtain ⟨hlt, hcase⟩ := h.error x hx
    exact ⟨Nat.lt_of_le_of_lt hf hlt, hcase.imp_left fun h => h.trans hdst⟩

variable {op : Op} {x : Failure} {a : Value op} {body : Task Unit} {source : Path} {mode : Nat}

/-- A failure at the temporary file. -/
theorem Wrote.of_broke (h : Failed writes s op s') (hne : name ≠ t)
    (hop : ∀ q, ¬ Under parent (· = t) q → op.touches writes q = false) :
    Wrote parent name content (· = t) s (.error x) s' where
  frame q hq := h.frame q (hop q fun hu => hq (hu.mono fun _ => .inr))
  mono := Nat.le_of_lt h.lt
  ok hx := by cases hx
  error _ _ := ⟨h.lt, .inl (h.frame _ (hop _ (mt under_append.mp hne)))⟩

/-- An operation on the temporary file is elsewhere than `q`. -/
theorem temporary_ne {q : Path} (hq : ¬ Under parent (· = t) q) : (q == parent ++ [t]) = false := by
  rw [beq_eq_false_iff_ne]
  rintro rfl
  exact hq ⟨t, [], rfl, rfl⟩

/-- The steps that only touch the temporary file's metadata. -/
theorem attribute_obeys [Failing allowed may] {f : Value op → Task Unit} (hne : name ≠ t)
    (hop : ∀ q, op.touches writes q = false)
    (hpass : ∀ o, o.ok = true → answer writes s.fs o op = (.ok a, s.fs))
    (hf : ∀ s₁, s₁.fs = s.fs → Obeys (protocolWhere writes allowed) s₁ (f a)
      (Wrote parent name content (· = t) s₁)) :
    Obeys (protocolWhere writes allowed) s (sys op >>= f)
      (Wrote parent name content (· = t) s) := by
  refine obeys_sys_pass hpass (fun x s' _ hb => .of_broke hb hne fun q _ => hop q) ?_
  intro s₁ hp
  refine (hf s₁ hp.fs).imp fun r s' h => ?_
  exact h.after hne (fun q _ => congrFun hp.fs q) (Nat.le_of_eq hp.failures.symm)

/-- The end of both closures: the temporary file takes the place of the destination. -/
theorem place_obeys [Failing allowed may] (hne : name ≠ t)
    (htmp : s.fs (parent ++ [t]) = some (.file content))
    (hdir : s.fs (parent ++ [name]) ≠ some .dir) (hparent : (s.fs parent).isSome = true) :
    Obeys (protocolWhere writes allowed) s
      (do sys (.rename (parent ++ [t]) (parent ++ [name])); syncDirectory parent : Task Unit)
      (Wrote parent name content (· = t) s) := by
  have hcan : s.fs.canRename (parent ++ [t]) (parent ++ [name]) = true := by
    have hpre : (parent ++ [t]).isPrefixOf (parent ++ [name]) = false := by
      rw [isPrefixOf_neighbour]
      simpa using fun h => hne h.symm
    simp [Fs.canRename, htmp, hpre, hdir]
  have hmove : ∀ q, ¬ Under parent (fun x => x = name ∨ x = t) q →
      Op.touches writes (.rename (parent ++ [t]) (parent ++ [name])) q = false := by
    intro q hq
    rw [Op.touches, Bool.or_eq_false_iff, isPrefixOf_eq_false, isPrefixOf_eq_false]
    exact ⟨mt (under_of_below (.inr rfl)) hq, mt (under_of_below (.inl rfl)) hq⟩
  refine obeys_sys_pass (fun o => pass_rename hcan) ?_ ?_
  · intro x s' _ hb
    have hfs : s'.fs = s.fs := hb.fs_eq rfl
    exact
      { frame := fun q _ => congrFun hfs q
        mono := Nat.le_of_lt hb.lt
        ok := fun h => by cases h
        error := fun _ _ => ⟨hb.lt, .inl (congrFun hfs _)⟩ }
  · intro s₁ hp
    have hdst : s₁.fs (parent ++ [name]) = some (.file content) := by
      simp [hp.fs, Fs.move, isPrefixOf_self, htmp]
    have hkeep : ∀ q, ¬ Under parent (fun x => x = name ∨ x = t) q → s₁.fs q = s.fs q := by
      intro q hq
      have := hmove q hq
      rw [Op.touches, Bool.or_eq_false_iff] at this
      simp [hp.fs, Fs.move, this.1, this.2]
    have hparent₁ : (s₁.fs parent).isSome = true := by
      rw [hkeep parent not_under_self]
      exact hparent
    refine (obeys_sys_spec fun o => pass_sync hparent₁).imp ?_
    rintro r s' (⟨rfl, hp'⟩ | ⟨⟨x, rfl⟩, -, hb⟩)
    · exact
        { frame := fun q hq => (congrFun hp'.fs q).trans (hkeep q hq)
          mono := Nat.le_of_eq (hp'.failures.trans hp.failures).symm
          ok := fun _ => (congrFun hp'.fs _).trans hdst
          error := fun x hx => by cases hx }
    · have hfs : s'.fs = s₁.fs := hb.fs_eq rfl
      have hlt : s.failures < s'.failures := hp.failures ▸ hb.lt
      exact
        { frame := fun q hq => (congrFun hfs q).trans (hkeep q hq)
          mono := Nat.le_of_lt hlt
          ok := fun h => by cases h
          error := fun _ _ => ⟨hlt, .inr ((congrFun hfs _).trans hdst)⟩ }

theorem discardOnError_obeys (hne : name ≠ t)
    (h : Obeys (protocolWhere writes allowed) s body (Wrote parent name content (· = t) s)) :
    Obeys (protocolWhere writes allowed) s (discardOnError (parent ++ [t]) body)
      (Wrote parent name content (· = t) s) := by
  refine Prog.obeys_attempt (h.imp fun r s₁ h₁ => ?_)
  cases r with
  | ok => exact h₁
  | error e =>
    -- the removal changes the temporary file only, whether it succeeds or not
    have hcalls : (sys (.removeFile (parent ++ [t])) : Task Unit).Calls fun op => ∀ q,
        ¬ Under parent (· = t) q → op.touches writes q = false :=
      calls_sys fun q hq => temporary_ne hq
    refine (ignore_obeys ((obeys_untouched hcalls).and (obeys_mono _))).bind ?_ ?_
    · rintro x s₂ ⟨hx, -⟩
      cases hx
    · rintro _ s₂ ⟨-, r₂, hfs, hf, -⟩
      have hdst : s₂.fs (parent ++ [name]) = s₁.fs (parent ++ [name]) :=
        hfs _ (mt under_append.mp hne)
      obtain ⟨hlt, hcase⟩ := h₁.error e rfl
      exact
        { frame := fun q hq => (hfs q fun hu => hq (hu.mono fun _ => .inr)).trans (h₁.frame q hq)
          mono := Nat.le_trans h₁.mono hf
          ok := fun hx => by cases hx
          error := fun _ _ => ⟨Nat.lt_of_lt_of_le hlt hf, by rwa [hdst]⟩ }

theorem ensureParent_obeys [Failing allowed may] (hparent : s.fs parent = some .dir) :
    Obeys (protocolWhere writes allowed) s (ensureParent parent) (Calm (fun _ => True) s) := by
  have hsome : ∀ {s₁ : Sys}, s₁.fs = s.fs → (s₁.fs parent).isSome = true := by
    intro s₁ h
    rw [h, hparent]
    rfl
  refine obeys_query fun b s₁ hfs₁ hf₁ _ => ?_
  cases b with
  | true => exact ⟨fun q _ => congrFun hfs₁ q, hf₁, fun x hx => by cases hx⟩
  | false =>
    have hdir₁ : s₁.fs parent = some .dir := hfs₁ ▸ hparent
    refine obeys_sys_pass (fun o => pass_createDirAll hdir₁) ?_ fun s₂ hp => ?_
    · intro x s₂ _ hb
      have hfs₂ : s₂.fs = s.fs := (hb.createDirAll hdir₁).trans hfs₁
      have hlt : s.failures < s₂.failures := Nat.lt_of_le_of_lt hf₁ hb.lt
      exact ⟨fun q _ => congrFun hfs₂ q, Nat.le_of_lt hlt, fun _ _ => hlt⟩
    · have hfs₂ : s₂.fs = s.fs := hp.fs.trans hfs₁
      have hf₂ : s.failures ≤ s₂.failures := hp.failures ▸ hf₁
      refine (obeys_sys_spec fun o => pass_setPermissions (hsome hfs₂)).imp ?_
      rintro r s₃ (⟨rfl, hp₃⟩ | ⟨-, -, hb⟩)
      · exact ⟨fun q _ => congrFun (hp₃.fs.trans hfs₂) q, hp₃.failures ▸ hf₂,
          fun x hx => by cases hx⟩
      · have hlt : s.failures < s₃.failures := Nat.lt_of_le_of_lt hf₂ hb.lt
        exact ⟨fun q _ => congrFun ((hb.fs_eq rfl).trans hfs₂) q, Nat.le_of_lt hlt, fun _ _ => hlt⟩

theorem scratch_uniqueName {base draw : Bytes} (h : Scratch base) :
    Scratch (uniqueName pid base draw) := by
  unfold uniqueName
  simp only [List.append_assoc]
  exact h.trans (List.prefix_append ..)

/-- The steps after a temporary file has its content. -/
theorem finish_obeys [Failing allowed may] {op' : Op} {a' : Value op'} (hne : name ≠ t)
    (hop : ∀ q, op.touches writes q = false) (hop' : ∀ q, op'.touches writes q = false)
    (hpass : ∀ {fs : Fs}, (fs (parent ++ [t])).isSome = true → ∀ o : Outcome, o.ok = true →
      answer writes fs o op = (.ok a, fs) ∧ answer writes fs o op' = (.ok a', fs))
    (htmp : s.fs (parent ++ [t]) = some (.file content))
    (hdir : s.fs (parent ++ [name]) ≠ some .dir) (hparent : s.fs parent = some .dir) :
    Obeys (protocolWhere writes allowed) s
      (do
        let _ ← sys op
        let _ ← sys op'
        sys (.rename (parent ++ [t]) (parent ++ [name]))
        syncDirectory parent : Task Unit)
      (Wrote parent name content (· = t) s) := by
  have hsome : ∀ {s₁ : Sys}, s₁.fs = s.fs → (s₁.fs (parent ++ [t])).isSome = true := by
    intro s₁ h
    rw [h, htmp]
    rfl
  refine attribute_obeys hne hop (fun o ho => (hpass (hsome rfl) o ho).1) fun s₁ h₁ => ?_
  refine attribute_obeys hne hop' (fun o ho => (hpass (hsome h₁) o ho).2) fun s₂ h₂ => ?_
  have hfs : s₂.fs = s.fs := h₂.trans h₁
  refine place_obeys hne (hfs ▸ htmp) (hfs ▸ hdir) ?_
  rw [hfs, hparent]
  rfl

/-- The closure of both functions, after a temporary name has been found. -/
theorem closure_obeys (hname : ¬ Scratch name) (ht : Scratch t) (hfs : s₁.fs = s.fs)
    (hf : s.failures ≤ s₁.failures)
    (h : name ≠ t → Obeys (protocolWhere writes allowed) s₁ body
      (Wrote parent name content (· = t) s₁)) :
    Obeys (protocolWhere writes allowed) s₁ (discardOnError (parent ++ [t]) body)
      (Wrote parent name content Scratch s) := by
  have hne : name ≠ t := fun he => hname (he ▸ ht)
  refine (discardOnError_obeys hne (h hne)).imp fun r s' hw => ?_
  exact (hw.after hne (fun q _ => congrFun hfs q) hf).imp fun x hx => hx ▸ ht

/-- A change of the temporary file leaves the directory and the destination alone. -/
theorem set_temporary (hne : name ≠ t) (fs : Fs) (node : Option Node) :
    fs.set (parent ++ [t]) node parent = fs parent ∧
      fs.set (parent ++ [t]) node (parent ++ [name]) = fs (parent ++ [name]) := by
  constructor
  · exact set_ne (temporary_ne not_under_self)
  · exact set_ne (temporary_ne (mt under_append.mp hne))

theorem copyBody_obeys [Failing allowed may] (hne : name ≠ t)
    (hsrc : s.fs source = some (.file content)) (hparent : s.fs parent = some .dir)
    (hdir : s.fs (parent ++ [name]) ≠ some .dir) :
    Obeys (protocolWhere writes allowed) s
      (do
        sys (.copy source (parent ++ [t]))
        sys (.setPermissions (parent ++ [t]) mode)
        sys (.sync (parent ++ [t]))
        sys (.rename (parent ++ [t]) (parent ++ [name]))
        syncDirectory parent : Task Unit)
      (Wrote parent name content (· = t) s) := by
  refine obeys_sys_pass (fun o => pass_copy hsrc) ?_ fun s₁ hp => ?_
  · exact fun x s₁ _ hb => .of_broke hb hne fun q hq => temporary_ne hq
  obtain ⟨hset, hset'⟩ := set_temporary hne s.fs (some (.file content))
  rw [← hp.fs] at hset hset'
  refine Obeys.imp (finish_obeys hne (fun _ => rfl) (fun _ => rfl)
      (fun h o ho => ⟨pass_setPermissions h ho, pass_sync h ho⟩) ?_ ?_ ?_)
    fun r s' hw => hw.after hne (fun q hq => ?_) (Nat.le_of_eq hp.failures.symm)
  · rw [hp.fs, set_self]
  · rwa [hset']
  · rwa [hset]
  · rw [hp.fs, set_ne (temporary_ne hq)]

theorem writeBody_obeys [Failing allowed may] (hne : name ≠ t)
    (hfree : s.fs (parent ++ [t]) = none) (hparent : s.fs parent = some .dir)
    (hdir : s.fs (parent ++ [name]) ≠ some .dir) :
    Obeys (protocolWhere writes allowed) s
      (do
        sys (.createNew (parent ++ [t]))
        sys (.writeAll (parent ++ [t]) content)
        sys (.sync (parent ++ [t]))
        sys (.setPermissions (parent ++ [t]) mode)
        sys (.rename (parent ++ [t]) (parent ++ [name]))
        syncDirectory parent : Task Unit)
      (Wrote parent name content (· = t) s) := by
  refine obeys_sys_pass (fun o => pass_createNew hfree) ?_ fun s₁ hp₁ => ?_
  · exact fun x s₁ _ hb => .of_broke hb hne fun q hq => temporary_ne hq
  refine obeys_sys_pass (fun o => pass_writeAll) ?_ fun s₂ hp₂ => ?_
  · intro x s₂ _ hb
    have hw : Wrote parent name content (· = t) s₁ (.error x) s₂ :=
      .of_broke hb hne fun q hq => temporary_ne hq
    refine hw.after hne (fun q hq => ?_) (Nat.le_of_eq hp₁.failures.symm)
    rw [hp₁.fs, set_ne (temporary_ne hq)]
  have hfs : ∀ q, ¬ Under parent (· = t) q → s₂.fs q = s.fs q := by
    intro q hq
    rw [hp₂.fs, set_ne (temporary_ne hq), hp₁.fs, set_ne (temporary_ne hq)]
  refine Obeys.imp (finish_obeys hne (fun _ => rfl) (fun _ => rfl)
      (fun h o ho => ⟨pass_sync h ho, pass_setPermissions h ho⟩) ?_ ?_ ?_)
    fun r s' hw => hw.after hne hfs (Nat.le_of_eq (hp₂.failures.trans hp₁.failures).symm)
  · rw [hp₂.fs, set_self]
  · rwa [hfs _ (mt under_append.mp hne)]
  · rwa [hfs _ not_under_self]

theorem copyAtomic_obeys [Failing allowed may] (hsrc : s.fs source = some (.file content))
    (hparent : s.fs parent = some .dir) (hname : ¬ Scratch name)
    (hdir : s.fs (parent ++ [name]) ≠ some .dir) :
    Obeys (protocolWhere writes allowed) s (copyAtomic pid source (parent ++ [name]) mode)
      (Wrote parent name content Scratch s) := by
  have hpar : parentOf (parent ++ [name]) = .done parent := by simp [parentOf, pure]
  unfold copyAtomic
  rw [hpar]
  refine (ensureParent_obeys hparent).bind ?_ ?_
  · intro x s₁ h
    exact
      { frame := fun q _ => h.frame q trivial
        mono := h.mono
        ok := fun hx => by cases hx
        error := fun _ _ => ⟨h.error x rfl, .inl (h.frame _ trivial)⟩ }
  intro _ s₁ h₁
  refine obeys_uniquePath fun draw s₂ hfresh hfs₂ hf₂ => ?_
  have hfs : s₂.fs = s.fs := hfs₂.trans (funext fun q => h₁.frame q trivial)
  refine closure_obeys hname (scratch_uniqueName ⟨ascii "copy", rfl⟩) hfs
    (Nat.le_trans h₁.mono hf₂) fun hne => ?_
  exact copyBody_obeys hne (hfs ▸ hsrc) (hfs ▸ hparent) (hfs ▸ hdir)

theorem atomicWrite_obeys [Failing allowed may] (hparent : s.fs parent = some .dir)
    (hname : ¬ Scratch name) (hdir : s.fs (parent ++ [name]) ≠ some .dir) :
    Obeys (protocolWhere writes allowed) s (atomicWrite pid (parent ++ [name]) content mode)
      (Wrote parent name content Scratch s) := by
  have hpar : parentOf (parent ++ [name]) = .done parent := by simp [parentOf, pure]
  unfold atomicWrite
  rw [hpar]
  refine obeys_uniquePath fun draw s₁ hfresh hfs hf => ?_
  refine closure_obeys hname (scratch_uniqueName ⟨ascii "write", rfl⟩) hfs hf fun hne => ?_
  refine writeBody_obeys hne ?_ (hfs ▸ hparent) (hfs ▸ hdir)
  rw [hfs]
  exact hfresh parent _ []

/-! ### Copies of which nothing is known before -/

/-- A copy to the file `name` of `parent`, whatever the source and the destination are. -/
structure Placed (source parent : Path) (name : Name) (T : Name → Prop) (s : Sys)
    (r : Except Failure Unit) (s' : Sys) : Prop where
  frame : ∀ q, ¬ Under parent (fun x => x = name ∨ T x) q → s'.fs q = s.fs q
  target : s'.fs (parent ++ [name]) = s.fs (parent ++ [name]) ∨
    ∃ content, s'.fs (parent ++ [name]) = some (.file content)
  ok : r = .ok () → ∃ content, s.fs source = some (.file content) ∧
    s'.fs (parent ++ [name]) = some (.file content)

theorem Placed.of_error (hne : name ≠ t) (hfs : ∀ q, ¬ Under parent (· = t) q → s'.fs q = s.fs q) :
    Placed source parent name (· = t) s (.error x) s' where
  frame q hq := hfs q fun hu => hq (hu.mono fun _ => .inr)
  target := .inl (hfs _ (mt under_append.mp hne))
  ok hx := by cases hx

theorem copyBody_placed (hne : name ≠ t) :
    Obeys (protocolWhere writes allowed) s
      (do
        sys (.copy source (parent ++ [t]))
        sys (.setPermissions (parent ++ [t]) mode)
        sys (.sync (parent ++ [t]))
        sys (.rename (parent ++ [t]) (parent ++ [name]))
        syncDirectory parent : Task Unit)
      (Placed source parent name (· = t) s) := by
  refine obeys_sys ?_ ?_
  · exact fun o e _ _ => .of_error hne fun q hq => answer_untouched writes (temporary_ne hq)
  intro o _ _ hok
  obtain ⟨content, hsrc, hset⟩ := answer_copy_ok writes hok
  generalize hs₁ : (s.answer writes o (.copy source (parent ++ [t]))).2 = s₁
  have hfs₁ : s₁.fs = s.fs.set (parent ++ [t]) (some (.file content)) := hs₁ ▸ hset
  have hkeep : ∀ {s₂ : Sys}, s₂.fs = s₁.fs → ∀ q, ¬ Under parent (· = t) q → s₂.fs q = s.fs q := by
    intro s₂ h q hq
    rw [h, hfs₁, set_ne (temporary_ne hq)]
  refine obeys_sys_look (fun _ => rfl) (fun x s₂ h => .of_error hne (hkeep h)) ?_
  intro _ _ s₂ _ h₂
  refine obeys_sys_look (fun _ => rfl) (fun x s₃ h => .of_error hne (hkeep (h.trans h₂))) ?_
  intro _ _ s₃ _ h₃
  have hfs₃ : s₃.fs = s₁.fs := h₃.trans h₂
  refine rename_obeys.bind ?_ ?_
  · rintro x s₄ (⟨hx, -⟩ | ⟨-, h₄⟩)
    · cases hx
    · exact .of_error hne (hkeep (h₄.trans hfs₃))
  rintro _ s₄ (⟨-, -, hfs₄, -⟩ | ⟨⟨x, hx⟩, -⟩)
  · have hcalls : (syncDirectory parent).Calls fun op => ∀ q, True → op.touches writes q = false :=
      calls_sys fun _ _ => rfl
    have hdst : s₄.fs (parent ++ [name]) = some (.file content) := by
      rw [hfs₄, move_at, hfs₃, hfs₁, set_self]
    refine (obeys_untouched hcalls).imp fun r s₅ h₅ => ⟨fun q hq => ?_, ?_, fun _ => ?_⟩
    · have hsrc' : ¬ parent ++ [t] <+: q := fun h => hq (under_of_below (.inr rfl) h)
      have hdst' : ¬ parent ++ [name] <+: q := fun h => hq (under_of_below (.inl rfl) h)
      rw [h₅ q trivial, hfs₄, move_elsewhere hsrc' hdst']
      exact hkeep hfs₃ q fun hu => hq (hu.mono fun _ => .inr)
    · exact .inr ⟨content, (h₅ _ trivial).trans hdst⟩
    · exact ⟨content, hsrc, (h₅ _ trivial).trans hdst⟩
  · cases hx

/-- The directory of a file that is to be written is there, or it is made. -/
theorem ensureParent_grown [Failing allowed may] :
    Obeys (protocolWhere writes allowed) s (ensureParent parent) fun _ s' =>
      s.fs.Grown parent s'.fs ∧ (s.fs parent = some .dir → s'.fs = s.fs) := by
  refine obeys_query fun b s₁ hfs₁ _ _ => ?_
  cases b with
  | true => exact ⟨fun q => .inl (congrFun hfs₁ q), fun _ => hfs₁⟩
  | false =>
    refine createDir_grown.imp fun r s₂ h => ?_
    rw [hfs₁] at h
    exact ⟨h.1, h.2.1⟩

/-- A copy under a temporary name, which then takes the place of the destination. -/
theorem replaceFile_placed [Failing allowed may] (hname : ¬ Scratch name) :
    Obeys (protocolWhere writes allowed) s
      (do
        let temporary ← uniquePath pid parent (ascii ".rust-xhttpctl-copy")
        discardOnError temporary do
          sys (.copy source temporary)
          sys (.setPermissions temporary mode)
          sys (.sync temporary)
          sys (.rename temporary (parent ++ [name]))
          syncDirectory parent)
      (Placed source parent name Scratch s) := by
  refine obeys_uniquePath fun draw s₁ _ hfs _ => ?_
  have ht : Scratch (uniqueName pid (ascii ".rust-xhttpctl-copy") draw) :=
    scratch_uniqueName ⟨ascii "copy", rfl⟩
  generalize uniqueName pid (ascii ".rust-xhttpctl-copy") draw = t at ht ⊢
  have hne : name ≠ t := fun he => hname (he ▸ ht)
  refine Prog.obeys_attempt ((copyBody_placed hne).imp fun r s₃ h₃ => ?_)
  have hframe : ∀ q, ¬ Under parent (fun x => x = name ∨ Scratch x) q → s₃.fs q = s.fs q := by
    intro q hq
    rw [h₃.frame q fun hu => hq (hu.mono fun x => Or.imp_right fun hx => hx ▸ ht), hfs]
  cases r with
  | ok => exact ⟨hframe, hfs ▸ h₃.target, fun _ => hfs ▸ h₃.ok rfl⟩
  | error e =>
    have hcalls : (sys (.removeFile (parent ++ [t])) : Task Unit).Calls fun op => ∀ q,
        ¬ Under parent (· = t) q → op.touches writes q = false :=
      calls_sys fun q hq => temporary_ne hq
    refine (ignore_obeys (obeys_untouched hcalls)).bind (fun x s₄ h => by cases h.1) ?_
    rintro _ s₄ ⟨-, _, h₄⟩
    refine ⟨fun q hq => ?_, ?_, fun hx => by cases hx⟩
    · rw [h₄ q fun hu => hq (hu.mono fun x hx => .inr (hx ▸ ht)), hframe q hq]
    · rw [h₄ _ (mt under_append.mp hne), ← hfs]
      exact h₃.target

/-- A copy to a directory that may be missing. -/
theorem copyAtomic_grown [Failing allowed may] (hname : ¬ Scratch name) :
    Obeys (protocolWhere writes allowed) s (copyAtomic pid source (parent ++ [name]) mode)
      fun r s' => ∃ s₁ : Sys, s.fs.Grown parent s₁.fs ∧
        (s.fs parent = some .dir → s₁.fs = s.fs) ∧ Placed source parent name Scratch s₁ r s' := by
  have hpar : parentOf (parent ++ [name]) = .done parent := by simp [parentOf, pure]
  unfold copyAtomic
  rw [hpar]
  refine ensureParent_grown.bind ?_ fun _ s₁ h₁ => ?_
  · exact fun x s₁ h => ⟨s₁, h.1, h.2, fun _ _ => rfl, .inl rfl, fun hx => by cases hx⟩
  · exact (replaceFile_placed hname).imp fun r s' h => ⟨s₁, h₁.1, h₁.2, h⟩

/-- The destination of a copy is as before, or a file. -/
theorem copyAtomic_placed [Failing allowed may] (hparent : s.fs parent = some .dir)
    (hname : ¬ Scratch name) :
    Obeys (protocolWhere writes allowed) s (copyAtomic pid source (parent ++ [name]) mode)
      (Placed source parent name Scratch s) := by
  refine (copyAtomic_grown hname).imp ?_
  rintro r s' ⟨s₁, -, hsame, hframe, htarget, hok⟩
  rw [hsame hparent] at hframe htarget hok
  exact ⟨hframe, htarget, hok⟩

/-- A directory is made whose name begins with `base` and a dot; it is empty. -/
structure Made (parent : Path) (base : Bytes) (s : Sys) (r : Except Failure Path) (s' : Sys) :
    Prop where
  frame : ∀ q, ¬ Under parent (base ++ ascii "." <+: ·) q → s'.fs q = s.fs q
  mono : s.failures ≤ s'.failures
  error : ∀ x, r = .error x → s.failures < s'.failures
  ok : ∀ path, r = .ok path → ∃ x, base ++ ascii "." <+: x ∧ path = parent ++ [x] ∧
    s'.fs path = some .dir ∧ ∀ y rest, s'.fs (path ++ y :: rest) = none

theorem uniqueDirectory_obeys [Failing allowed may] (base : Bytes) :
    Obeys (protocolWhere writes allowed) s (uniqueDirectory pid parent base)
      (Made parent base s) := by
  refine obeys_uniquePath fun draw s₁ hfresh hfs₁ hf₁ => ?_
  have hbase : base ++ ascii "." <+: uniqueName pid base draw := by
    simp only [uniqueName, List.append_assoc]
    rw [← List.append_assoc]
    exact List.prefix_append ..
  have hfree : ∀ rest, s₁.fs (parent ++ uniqueName pid base draw :: rest) = none := by
    intro rest
    rw [hfs₁]
    exact hfresh parent _ rest
  generalize uniqueName pid base draw = x at hbase hfree ⊢
  refine obeys_sys_pass (fun o => pass_createDir (hfree [])) ?_ fun s₂ hp => ?_
  · intro e s₂ _ hb
    have hlt : s.failures < s₂.failures := Nat.lt_of_le_of_lt hf₁ hb.lt
    exact
      { frame := fun q _ => congrFun ((hb.fs_eq rfl).trans hfs₁) q
        mono := Nat.le_of_lt hlt
        error := fun _ _ => hlt
        ok := fun _ h => by cases h }
  have hdir : s₂.fs (parent ++ [x]) = some .dir := by rw [hp.fs, set_self]
  have hkeep : ∀ q, q ≠ parent ++ [x] → s₂.fs q = s.fs q := by
    intro q hq
    rw [hp.fs, set_ne (beq_eq_false_iff_ne.mpr hq), hfs₁]
  have hframe : ∀ q, ¬ Under parent (base ++ ascii "." <+: ·) q → s₂.fs q = s.fs q := by
    intro q hq
    refine hkeep q ?_
    rintro rfl
    exact hq ⟨x, [], hbase, rfl⟩
  have hf₂ : s.failures ≤ s₂.failures := hp.failures ▸ hf₁
  refine obeys_sys_pass (fun o => pass_setPermissions (by rw [hdir]; rfl)) ?_ fun s₃ hp₃ => ?_
  · intro e s₃ _ hb
    have hlt : s.failures < s₃.failures := Nat.lt_of_le_of_lt hf₂ hb.lt
    exact
      { frame := fun q hq => (congrFun (hb.fs_eq rfl) q).trans (hframe q hq)
        mono := Nat.le_of_lt hlt
        error := fun _ _ => hlt
        ok := fun _ h => by cases h }
  · refine
      { frame := fun q hq => (congrFun hp₃.fs q).trans (hframe q hq)
        mono := hp₃.failures ▸ hf₂
        error := fun _ h => by cases h
        ok := fun path h => ?_ }
    cases h
    refine ⟨x, hbase, rfl, (congrFun hp₃.fs _).trans hdir, fun y rest => ?_⟩
    have hsplit : parent ++ [x] ++ y :: rest = parent ++ x :: y :: rest := by simp
    rw [hp₃.fs, hkeep, ← hfs₁, hsplit]
    · exact hfree (y :: rest)
    · simp

end

end Xhttp.Manage
