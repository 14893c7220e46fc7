import RustXhttp.Lib.Bytes
import RustXhttp.Lib.Program
import Mathlib.Logic.Function.Basic

/-!
# System calls that may fail

A program that works on files is a `Prog` whose requests are operations of the operating system.
The files are a map from paths; how each operation ends is told by an `Outcome`, so a run is a list
of outcomes and a proof over every failure is a proof over every list.

* `answer`: what an operation replies and does. An operation that is let through fails all the
  same when the files do not allow it. One that fails has no effect, except that a write may be
  cut off and a recursive removal may stop anywhere.
* `Op.touches`, `answer_untouched`: the paths that an operation can change.
* `protocol limit`: every outcome is possible, with at most `limit` injected failures
  (`protocolWhere` takes the condition as a parameter). `Prog.Obeys (protocol limit)` speaks about
  all runs of a program; `run` is the run of one list of outcomes, and `obeys_run` connects the two.
* `obeys_of_calls`: a fact that every request of a program keeps holds at its end
  (`obeys_of_keeps`: at every point).
-/

namespace Xhttp.Os

open List
open Prog (Obeys)

abbrev Name := Bytes

abbrev Path := List Name

/-- The directories that a path goes through, and the path itself. -/
def Path.parents (p : Path) : List Path := (List.range (p.length + 1)).map fun n => p.take n

inductive Node where
  | file (content : Bytes)
  | dir
  | symlink (target : Name)
  deriving DecidableEq

abbrev Fs := Path → Option Node

namespace Fs

variable (fs : Fs)

def set (p : Path) (n : Option Node) : Fs := Function.update fs p n

/-- The paths that `gone` names are removed. -/
def erase (gone : Path → Bool) : Fs := fun q => if gone q then none else fs q

/-- What is at and below `src` is moved to `dst`. -/
def move (src dst : Path) : Fs := fun q =>
  if dst.isPrefixOf q then fs (src ++ q.drop dst.length)
  else if src.isPrefixOf q then none
  else fs q

/-- The missing directories above `p`, and `p` itself, as far as `made` names them. -/
def makeDirs (p : Path) (made : Path → Bool) : Fs := fun q =>
  if q.isPrefixOf p && (fs q).isNone && made q then some .dir else fs q

/-- The path with a symbolic link to a neighbour followed in its directory. -/
def follow (p : Path) : Path :=
  match fs p.dropLast, p.getLast? with
  | some (.symlink target), some name => p.dropLast.dropLast ++ [target, name]
  | _, _ => p

/-- `rename` replaces no directory and puts none in the place of a file. -/
def canRename (src dst : Path) : Bool :=
  (fs src).isSome && !src.isPrefixOf dst &&
    ((fs dst).isNone || (fs src != some .dir && fs dst != some .dir))

/-- Nothing has changed but that there are new directories at or above `p`. -/
def Grown (p : Path) (fs' : Fs) : Prop :=
  ∀ q, fs' q = fs q ∨ (q <+: p ∧ fs q = none ∧ fs' q = some .dir)

variable {fs} {fs' : Fs} {p q : Path}

theorem Grown.frame (h : fs.Grown p fs') (hq : ¬ q <+: p) : fs' q = fs q :=
  (h q).resolve_right fun hnew => hq hnew.1

theorem Grown.kept (h : fs.Grown p fs') {node : Node} (hq : fs q = some node) :
    fs' q = some node := by
  rcases h q with hsame | ⟨-, hnone, -⟩
  · exact hsame.trans hq
  · cases hnone.symm.trans hq

end Fs

/-! ### Paths -/

theorem isPrefixOf_self (p : Path) : p.isPrefixOf p = true :=
  isPrefixOf_iff_prefix.mpr (prefix_refl p)

/-- What is under an entry of a directory is not under another one. -/
theorem isPrefixOf_neighbour (d : Path) (x y : Name) (rest : Path) :
    (d ++ [x]).isPrefixOf (d ++ y :: rest) = (x == y) := by
  induction d with
  | nil => simp [List.isPrefixOf]
  | cons a d ih => simpa [List.isPrefixOf] using ih

section

variable {d : Path} {fs : Fs} {name : Name}

theorem neighbour_ne {x y : Name} (h : x ≠ y) : d ++ [x] ≠ d ++ [y] := by
  intro he
  exact h (List.cons.inj (append_cancel_left he)).1

/-- A path through a symbolic link. -/
theorem follow_link {link target : Name} (h : fs (d ++ [link]) = some (.symlink target)) :
    fs.follow (d ++ [link, name]) = d ++ [target, name] := by
  have hsplit : d ++ [link, name] = d ++ [link] ++ [name] := by simp
  rw [Fs.follow, hsplit, dropLast_concat, getLast?_concat, h, dropLast_concat]

/-- A path in a directory that is no symbolic link. -/
theorem follow_plain (h : ∀ target, fs d ≠ some (.symlink target)) :
    fs.follow (d ++ [name]) = d ++ [name] := by
  rw [Fs.follow, dropLast_concat]
  split
  case h_1 target _ hlink _ => exact absurd hlink (h target)
  case h_2 => rfl

theorem follow_dir (h : fs d = some .dir) : fs.follow (d ++ [name]) = d ++ [name] :=
  follow_plain fun target hlink => by cases h.symm.trans hlink

end

/-! ## Operations -/

inductive IoError where
  | failed
  /-- The file to be removed, or the program to be run, is not there. -/
  | notFound
  deriving DecidableEq, Repr

inductive Op where
  | createDir (p : Path)
  | createDirAll (p : Path)
  | setPermissions (p : Path) (mode : Nat)
  /-- `open` of a file that does not exist. -/
  | createNew (p : Path)
  /-- `write_all` to the file that `createNew` has opened. -/
  | writeAll (p : Path) (bytes : Bytes)
  /-- `open` and `sync_all`. -/
  | sync (p : Path)
  | read (p : Path)
  | copy (src dst : Path)
  | rename (src dst : Path)
  | removeFile (p : Path)
  | removeDirAll (p : Path)
  | symlink (target : Name) (link : Path)
  | readLink (p : Path)
  | readDir (p : Path)
  | stat (p : Path)
  | canonicalize (p : Path)
  /-- The time, in seconds. -/
  | clock
  /-- A command that is run to its end. -/
  | run (command : List Bytes)
  /-- A number of the random generator, as it is printed. -/
  | random
  deriving DecidableEq

def Value : Op → Type
  | .read _ | .run _ | .random => Bytes
  | .readLink _ => Name
  | .readDir _ => List Name
  | .stat _ => Option Node
  | .canonicalize _ => Path
  | .clock => Nat
  | _ => Unit

abbrev Reply (op : Op) : Type := Except IoError (Value op)

/-- How an operation ends, as far as the files do not decide it: whether it is let through, whether
a copy or a command that fails has begun, how much of a write is done, what a removal leaves and
which directories are not made when it fails, and what a listing, a command, the clock or the random
generator give. -/
structure Outcome where
  ok : Bool := true
  created : Bool := false
  size : Nat := 0
  keep : Path → Bool := fun _ => true
  names : List Name := []
  bytes : Bytes := []
  edit : Fs := fun _ => none

/-- The paths that an external command may change. -/
abbrev Footprint := List Bytes → Path → Bool

section

variable (writes : Footprint)

def Op.touches : Op → Path → Bool
  | .createDir p, q | .createNew p, q | .writeAll p _, q | .removeFile p, q => q == p
  | .createDirAll p, q => q.isPrefixOf p
  | .copy _ dst, q => q == dst
  | .symlink _ link, q => q == link
  | .rename src dst, q => src.isPrefixOf q || dst.isPrefixOf q
  | .removeDirAll p, q => p.isPrefixOf q
  | .run command, q => writes command q
  | .setPermissions _ _, _ | .sync _, _ | .read _, _ | .readLink _, _ | .readDir _, _
  | .stat _, _ | .canonicalize _, _ | .clock, _ | .random, _ => false

/-- An operation with the effect `effect`, if `allowed`. -/
def guarded {α : Type} (fs : Fs) (allowed : Bool) (a : α) (effect : Fs) : Except IoError α × Fs :=
  if allowed then (.ok a, effect) else (.error .failed, fs)

def answer (fs : Fs) (o : Outcome) : (op : Op) → Reply op × Fs
  | .createDir p => guarded fs (o.ok && (fs p).isNone) () (fs.set p (some .dir))
  | .createDirAll p =>
    if fs p == some .dir then guarded fs o.ok () fs
    else if o.ok && (Path.parents p).all (fun q => fs q == none || fs q == some .dir) then
      (.ok (), fs.makeDirs p fun _ => true)
    else (.error .failed, fs.makeDirs p fun q => !o.keep q)
  | .setPermissions p _ => guarded fs (o.ok && (fs p).isSome) () fs
  | .createNew p => guarded fs (o.ok && (fs p).isNone) () (fs.set p (some (.file [])))
  | .writeAll p bytes =>
    if o.ok then (.ok (), fs.set p (some (.file bytes)))
    else (.error .failed, fs.set p (some (.file (bytes.take o.size))))
  | .sync p => guarded fs (o.ok && (fs p).isSome) () fs
  | .read p =>
    match fs (fs.follow p) with
    | some (.file content) => guarded fs o.ok content fs
    | _ => (.error .failed, fs)
  | .copy src dst =>
    match fs src with
    | some (.file content) =>
      if o.ok then (.ok (), fs.set dst (some (.file content)))
      else if o.created then (.error .failed, fs.set dst (some (.file (content.take o.size))))
      else (.error .failed, fs)
    | _ => (.error .failed, fs)
  | .rename src dst => guarded fs (o.ok && fs.canRename src dst) () (fs.move src dst)
  | .removeFile p =>
    if o.ok && (fs p).isNone then (.error .notFound, fs)
    else guarded fs (o.ok && fs p != some .dir) () (fs.set p none)
  | .removeDirAll p =>
    if o.ok && fs p == some .dir then (.ok (), fs.erase p.isPrefixOf)
    else (.error .failed, fs.erase fun q => p.isPrefixOf q && !o.keep q)
  | .symlink target link =>
    guarded fs (o.ok && (fs link).isNone) () (fs.set link (some (.symlink target)))
  | .readLink p =>
    match fs p with
    | some (.symlink target) => guarded fs o.ok target fs
    | _ => (.error .failed, fs)
  | .readDir p => guarded fs (o.ok && fs p == some .dir) o.names fs
  | .stat p => guarded fs o.ok (fs (fs.follow p)) fs
  | .canonicalize p => guarded fs (o.ok && (fs (fs.follow p)).isSome) (fs.follow p) fs
  | .clock => guarded fs o.ok o.size fs
  | .run command =>
    (if o.ok then .ok o.bytes else .error (if o.created then .failed else .notFound),
      fun q => if writes command q then o.edit q else fs q)
  | .random => (.ok o.bytes, fs)

variable {α : Type} {effect fs : Fs} {allowed : Bool} {a a' : α} {p q : Path} {n : Option Node}
  {o : Outcome}

theorem guarded_snd (h : effect q = fs q) : (guarded fs allowed a effect).2 q = fs q := by
  unfold guarded
  split
  · exact h
  · rfl

theorem guarded_ok (h : (guarded fs allowed a effect).1 = .ok a') :
    allowed = true ∧ (guarded fs allowed a effect).2 = effect := by
  unfold guarded at h ⊢
  split at h
  case isTrue ha => exact ⟨ha, by rw [if_pos ha]⟩
  case isFalse => cases h

theorem guarded_value (h : (guarded fs allowed a effect).1 = .ok a') : a' = a := by
  unfold guarded at h
  split at h
  · cases h
    rfl
  · cases h

theorem guarded_error {e : IoError} (h : (guarded fs allowed a effect).1 = .error e) :
    (guarded fs allowed a effect).2 = fs := by
  unfold guarded at h ⊢
  split at h
  · cases h
  case isFalse ha => rw [if_neg ha]

@[simp] theorem set_self : fs.set p n p = n :=
  Function.update_self ..

theorem set_ne (h : (q == p) = false) : fs.set p n q = fs q :=
  Function.update_of_ne (by simpa using h) _ _

/-- An operation changes nothing else. -/
theorem answer_untouched {op : Op} (h : op.touches writes q = false) :
    (answer writes fs o op).2 q = fs q := by
  cases op with
  | createDir p | createNew p | symlink target link => exact guarded_snd (set_ne h)
  | createDirAll p =>
    have h : q.isPrefixOf p = false := h
    simp only [answer]
    split
    · exact guarded_snd rfl
    · split
      · simp [Fs.makeDirs, h]
      · simp [Fs.makeDirs, h]
  | setPermissions p mode | sync p | readDir p | stat p | canonicalize p | clock =>
    exact guarded_snd rfl
  | writeAll p bytes =>
    simp only [answer]
    split
    · exact set_ne h
    · exact set_ne h
  | read p | readLink p =>
    simp only [answer]
    split
    · exact guarded_snd rfl
    · rfl
  | copy src dst =>
    simp only [answer]
    split
    · split
      · exact set_ne h
      · split
        · exact set_ne h
        · rfl
    · rfl
  | rename src dst =>
    simp only [Op.touches, Bool.or_eq_false_iff] at h
    exact guarded_snd (by simp [Fs.move, h.1, h.2])
  | removeFile p =>
    simp only [answer]
    split
    · rfl
    · exact guarded_snd (set_ne h)
  | removeDirAll p =>
    have h : p.isPrefixOf q = false := h
    simp only [answer]
    split
    · simp [Fs.erase, h]
    · simp [Fs.erase, h]
  | run command =>
    have h : writes command q = false := h
    simp [answer, h]
  | random => rfl

theorem guarded_effect :
    (guarded fs allowed a effect).2 = fs ∨
      allowed = true ∧ (guarded fs allowed a effect).2 = effect := by
  unfold guarded
  cases allowed
  · exact .inl rfl
  · exact .inr ⟨rfl, rfl⟩

/-- A new entry was not there. -/
theorem answer_createDir :
    (answer writes fs o (.createDir p)).2 = fs ∨
      fs p = none ∧ (answer writes fs o (.createDir p)).2 = fs.set p (some .dir) := by
  refine guarded_effect.imp id fun h => ⟨?_, h.2⟩
  simpa using (Bool.and_eq_true_iff.mp h.1).2

theorem answer_symlink {target : Name} :
    (answer writes fs o (.symlink target p)).2 = fs ∨ fs p = none ∧
      (answer writes fs o (.symlink target p)).2 = fs.set p (some (.symlink target)) := by
  refine guarded_effect.imp id fun h => ⟨?_, h.2⟩
  simpa using (Bool.and_eq_true_iff.mp h.1).2

/-- New directories are made where nothing was, and at or above `p` only. -/
theorem answer_createDirAll_grown : fs.Grown p (answer writes fs o (.createDirAll p)).2 := by
  have hmake : ∀ made, fs.Grown p (fs.makeDirs p made) := by
    intro made q
    unfold Fs.makeDirs
    split
    case isTrue h =>
      simp only [Bool.and_eq_true, isPrefixOf_iff_prefix, Option.isNone_iff_eq_none] at h
      exact .inr ⟨h.1.1, h.1.2, rfl⟩
    case isFalse => exact .inl rfl
  simp only [answer]
  split
  · exact fun q => .inl (guarded_snd rfl)
  · split
    · exact hmake fun _ => true
    · exact hmake fun q => !o.keep q

theorem answer_createDirAll_existing (h : fs p = some .dir) :
    (answer writes fs o (.createDirAll p)).2 = fs := by
  simp only [answer, h, beq_self_eq_true, if_true]
  exact guarded_effect.elim id And.right

/-- The directory is there afterwards. -/
theorem answer_createDirAll_ok (h : (answer writes fs o (.createDirAll p)).1 = .ok ()) :
    (answer writes fs o (.createDirAll p)).2 p = some .dir := by
  simp only [answer] at h ⊢
  split
  case isTrue hdir =>
    rw [if_pos hdir] at h
    rw [(guarded_ok h).2]
    simpa using hdir
  case isFalse hdir =>
    rw [if_neg hdir] at h
    split at h
    case isTrue hall =>
      have hp : p ∈ Path.parents p := mem_map.mpr ⟨p.length, by simp, by simp⟩
      have hnone : fs p = none := by
        have := all_eq_true.mp (Bool.and_eq_true_iff.mp hall).2 p hp
        simpa [hdir] using this
      rw [if_pos hall]
      simp [Fs.makeDirs, hnone, isPrefixOf_self]
    case isFalse => cases h

theorem answer_copy_ok {src dst : Path} (h : (answer writes fs o (.copy src dst)).1 = .ok ()) :
    ∃ content,
      fs src = some (.file content) ∧
        (answer writes fs o (.copy src dst)).2 = fs.set dst (some (.file content)) := by
  simp only [answer] at h ⊢
  split at h
  case h_1 content hsrc =>
    split at h
    case isTrue ho => exact ⟨content, hsrc, by rw [if_pos ho]⟩
    case isFalse =>
      split at h
      · cases h
      · cases h
  case h_2 => cases h

theorem answer_read_ok {content : Bytes} (h : (answer writes fs o (.read p)).1 = .ok content) :
    fs (fs.follow p) = some (.file content) := by
  simp only [answer] at h
  split at h
  case h_1 c hc =>
    unfold guarded at h
    split at h
    · cases h
      exact hc
    · cases h
  case h_2 => cases h

/-! ## Runs -/

structure Event where
  op : Op
  ok : Bool
  deriving DecidableEq

/-- The files, the number of failures injected so far, and the operations done so far. -/
structure Sys where
  fs : Fs
  failures : Nat
  trace : List Event

def Sys.start (fs : Fs) : Sys := ⟨fs, 0, []⟩

def Sys.answer (s : Sys) (o : Outcome) (op : Op) : Reply op × Sys :=
  let r := Os.answer writes s.fs o op
  (r.1, ⟨r.2, s.failures + (if o.ok then 0 else 1), s.trace ++ [⟨op, r.1.isOk⟩]⟩)

/-- A step adds one operation, with its result, to the trace. -/
theorem Sys.mem_trace {s : Sys} {o : Outcome} {op : Op} {e : Event} :
    e ∈ (s.answer writes o op).2.trace ↔
      e ∈ s.trace ∨ e = ⟨op, (Os.answer writes s.fs o op).1.isOk⟩ := by
  rw [Sys.answer, mem_append, mem_singleton]

theorem Sys.trace_of_ok {s : Sys} {o : Outcome} {op : Op} {a : Value op}
    (h : (Os.answer writes s.fs o op).1 = .ok a) : ⟨op, true⟩ ∈ (s.answer writes o op).2.trace := by
  refine (Sys.mem_trace writes).mpr (.inr ?_)
  rw [h]
  rfl

/-- The outcome is possible after `failures` failures. -/
def Allowed (limit : Option Nat) (failures : Nat) (o : Outcome) : Prop :=
  o.ok = true ∨ ∀ l, limit = some l → failures < l

/-- Every outcome is possible that `allowed` does not exclude. -/
def protocolWhere (allowed : Sys → Op → Outcome → Prop) : Prog.Protocol Op Reply Sys where
  guard _ _ := True
  next s op r s' := ∃ o, allowed s op o ∧ s.answer writes o op = (r, s')

def protocol (limit : Option Nat) : Prog.Protocol Op Reply Sys :=
  protocolWhere writes fun s _ o => Allowed limit s.failures o

/-- The run of a list of outcomes; the operations after them are let through. -/
def run {ε α : Type} : Sys → List Outcome → Prog Op Reply ε α → Except ε α × Sys × List Outcome
  | s, os, .done a => (.ok a, s, os)
  | s, os, .fail x => (.error x, s, os)
  | s, os, .call op k =>
    let r := s.answer writes (os.headD {}) op
    run r.2 os.tail (k r.1)

variable {writes} {ε α β : Type} {limit : Option Nat} {s : Sys} {Q : Except ε α → Sys → Prop}
  {allowed : Sys → Op → Outcome → Prop}

/-- What holds of all runs holds of the run of one list. -/
theorem obeys_run {p : Prog Op Reply ε α} (h : Obeys (protocol writes limit) s p Q)
    (os : List Outcome) (hos : ∀ l, limit = some l → s.failures + os.countP (fun o => !o.ok) ≤ l) :
    Q (run writes s os p).1 (run writes s os p).2.1 := by
  induction p generalizing s os with
  | done a => exact h
  | fail x => exact h
  | call op k ih =>
    obtain ⟨_, h⟩ := h
    cases os with
    | nil => exact ih _ (h _ _ ⟨_, .inl rfl, rfl⟩) [] hos
    | cons o os =>
      refine ih _ (h _ _ ⟨o, ?_, rfl⟩) os ?_
      · cases ho : o.ok with
        | true => exact .inl ho
        | false =>
          refine .inr fun l hl => ?_
          have := hos l hl
          rw [countP_cons_of_pos (by rw [ho]; rfl)] at this
          omega
      · intro l hl
        have := hos l hl
        show s.failures + (if o.ok then 0 else 1) + os.countP _ ≤ l
        cases ho : o.ok with
        | true =>
          rw [countP_cons_of_neg (by rw [ho]; decide)] at this
          exact this
        | false =>
          rw [countP_cons_of_pos (by rw [ho]; rfl)] at this
          rw [if_neg (by decide)]
          omega

/-- A request of any kind. -/
theorem obeys_call {op : Op} {k : Reply op → Prog Op Reply ε α}
    (h : ∀ o, allowed s op o → Obeys (protocolWhere writes allowed)
      (s.answer writes o op).2 (k (s.answer writes o op).1) Q) :
    Obeys (protocolWhere writes allowed) s (.call op k) Q := by
  refine ⟨trivial, fun r s' ⟨o, ho, hr⟩ => ?_⟩
  have := h o ho
  rw [hr] at this
  exact this

end

/-! ## Programs -/

/-- `From<io::Error>`. -/
class OfIo (ε : Type) where
  io : IoError → ε

/-- An operation with a question mark. -/
def sys {ε : Type} [OfIo ε] (op : Op) : Prog Op Reply ε (Value op) :=
  .call op fun r => match r with
    | .ok a => .done a
    | .error e => .fail (OfIo.io e)

/-- A draw of the random generator. -/
def random {ε : Type} [OfIo ε] : Prog Op Reply ε Bytes := sys .random

section

variable {writes : Footprint} {ε α β : Type} [OfIo ε]
  {allowed : Sys → Op → Outcome → Prop} {s : Sys}

variable {op : Op} {Q : Except ε β → Sys → Prop} {f : Value op → Prog Op Reply ε β}

/-- An operation with a question mark. -/
theorem obeys_sys_last {Q : Except ε (Value op) → Sys → Prop}
    (herr : ∀ o e, allowed s op o → (answer writes s.fs o op).1 = .error e →
      Q (.error (OfIo.io e)) (s.answer writes o op).2)
    (hok : ∀ o a, allowed s op o → (answer writes s.fs o op).1 = .ok a →
      Q (.ok a) (s.answer writes o op).2) :
    Obeys (protocolWhere writes allowed) s (sys op) Q := by
  refine obeys_call fun o ho => ?_
  have herr := herr o
  have hok := hok o
  show Obeys _ _ (match (answer writes s.fs o op).1 with
    | .ok a => .done a
    | .error e => .fail (OfIo.io e)) Q
  cases hr : (answer writes s.fs o op).1 with
  | error e => exact herr e ho hr
  | ok a => exact hok a ho hr

/-- An operation with a question mark and what follows it. -/
theorem obeys_sys
    (herr : ∀ o e, allowed s op o → (answer writes s.fs o op).1 = .error e →
      Q (.error (OfIo.io e)) (s.answer writes o op).2)
    (hok : ∀ o a, allowed s op o → (answer writes s.fs o op).1 = .ok a →
      Obeys (protocolWhere writes allowed) (s.answer writes o op).2 (f a) Q) :
    Obeys (protocolWhere writes allowed) s (sys op >>= f) Q :=
  Prog.obeys_bind (obeys_sys_last herr hok)

/-- An operation that keeps `J`, whatever its outcome is. -/
theorem obeys_sys_keep {J : Sys → Prop} (hJ : ∀ o, J (s.answer writes o op).2)
    (herr : ∀ e s', J s' → Q (.error (OfIo.io e)) s')
    (hok : ∀ a s', J s' → Obeys (protocolWhere writes allowed) s' (f a) Q) :
    Obeys (protocolWhere writes allowed) s (sys op >>= f) Q :=
  obeys_sys (fun o e _ _ => herr e _ (hJ o)) fun o a _ _ => hok a _ (hJ o)

theorem calls_sys {A : Op → Prop} (h : A op) : (sys op : Prog Op Reply ε _).Calls A :=
  ⟨h, fun r => by cases r <;> trivial⟩

end

section

variable {writes : Footprint} {ε α : Type}
  {allowed : Sys → Op → Outcome → Prop} {s : Sys}

variable {I J : Sys → Prop} {p : Prog Op Reply ε α}

/-- A fact that every operation of a program keeps, whatever its outcome is. -/
theorem obeys_of_calls {A : Op → Prop} (hstep : ∀ s o op, A op → J s → J (s.answer writes o op).2)
    (hp : p.Calls A) (hs : J s) : Obeys (protocolWhere writes allowed) s p fun _ s' => J s' := by
  refine Prog.obeys_of_calls (fun _ _ _ _ => trivial) ?_ hp hs
  rintro s op r s' hop hs ⟨o, _, hr⟩
  have := hstep s o op hop hs
  rwa [hr] at this

/-- The operation keeps `J`, whatever its outcome is. -/
def Keeps (writes : Footprint) (J : Sys → Prop) (op : Op) : Prop :=
  ∀ s o, J s → J (s.answer writes o op).2

/-- A fact that every operation of a program keeps holds at every point. -/
theorem obeys_of_keeps (hI : ∀ s, J s → I s) (hp : p.Calls (Keeps writes J)) (hs : J s) :
    Obeys ((protocolWhere writes allowed).watched I) s p fun _ s' => J s' := by
  refine Prog.obeys_of_calls ?_ ?_ hp hs
  · exact fun s _ _ hs => ⟨trivial, hI s hs⟩
  rintro s op r s' hop hs ⟨o, _, hr⟩
  have := hop s o hs
  rwa [hr] at this

/-- A request that is watched. -/
theorem obeys_call_watched {op : Op} {k : Reply op → Prog Op Reply ε α}
    {Q : Except ε α → Sys → Prop} (hI : I s)
    (h : ∀ o, allowed s op o → Obeys ((protocolWhere writes allowed).watched I)
      (s.answer writes o op).2 (k (s.answer writes o op).1) Q) :
    Obeys ((protocolWhere writes allowed).watched I) s (.call op k) Q := by
  refine ⟨⟨trivial, hI⟩, fun r s' ⟨o, ho, hr⟩ => ?_⟩
  have := h o ho
  rw [hr] at this
  exact this

/-- The run of a list of outcomes is one of the runs. -/
theorem visits_run (p : Prog Op Reply ε α) (os : List Outcome) :
    Prog.Visits (protocol writes none) s p (run writes s os p).2.1 := by
  induction p generalizing s os with
  | done a => rfl
  | fail x => rfl
  | call op k ih =>
    refine .inr ⟨_, _, ⟨os.headD {}, .inr ?_, rfl⟩, ih _ _⟩
    intro l hl
    cases hl

/-- What the operations of a program do not touch stays as it was. -/
theorem obeys_untouched {K : Path → Prop}
    (hp : p.Calls fun op => ∀ q, K q → op.touches writes q = false) :
    Obeys (protocolWhere writes allowed) s p fun _ s' => ∀ q, K q → s'.fs q = s.fs q := by
  refine obeys_of_calls (A := fun op => ∀ q, K q → op.touches writes q = false)
    (J := fun s' => ∀ q, K q → s'.fs q = s.fs q) ?_ hp fun _ _ => rfl
  intro s' o op hop hs q hq
  exact (answer_untouched writes (hop q hq)).trans (hs q hq)

end

end Xhttp.Os
