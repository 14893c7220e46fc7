import RustXhttp.Lib.Os

/-!
# Runs with at most one failure

A program with hand-written compensation is judged by what it leaves behind when one of its
operations fails. In `oneFailure` at most one operation fails by itself, and it is one that `may`
fail; the others do what the files allow. A drawn number is in no name on the disk.

In `anyFailure` there may be any number of such failures, and in `noFailure` there is none;
`Failing` has what they have in common.

* `obeys_sys_spec`: an operation that the files allow has its effect, or it fails by itself and
  changes nothing but what it touches.
* `Calm`: a part of a program that keeps some paths and fails only when one of its operations does.
* `Under`: the entries of a directory with certain names, and what is below them.
-/

namespace Xhttp.Os

open List
open Prog (Obeys)

/-! ## Entries of a directory -/

/-- At or below an entry of `d` with a name in `N`. -/
def Under (d : Path) (N : Name → Prop) (q : Path) : Prop := ∃ x rest, N x ∧ q = d ++ x :: rest

section

variable {d q : Path} {N M : Name → Prop}

variable {x : Name} {α : Type} {a b : List α}

theorem under_append {rest : Path} : Under d N (d ++ x :: rest) ↔ N x := by
  refine ⟨?_, fun h => ⟨x, rest, h, rfl⟩⟩
  rintro ⟨y, rest', hy, he⟩
  cases append_cancel_left he
  exact hy

theorem Under.below (h : Under d N q) : d <+: q := by
  obtain ⟨x, rest, -, rfl⟩ := h
  exact prefix_append ..

theorem not_under_self : ¬ Under d N d := by
  rintro ⟨x, rest, -, he⟩
  cases append_cancel_left ((append_nil d).trans he)

/-- An entry of a directory is not above it. -/
theorem entry_not_above : ¬ d ++ [x] <+: d := by
  intro h
  have hle := h.length_le
  rw [length_append, length_singleton] at hle
  omega

theorem Under.mono (h : Under d N q) (hNM : ∀ x, N x → M x) : Under d M q := by
  obtain ⟨x, rest, hx, he⟩ := h
  exact ⟨x, rest, hNM x hx, he⟩

theorem under_of_below (hx : N x) (h : d ++ [x] <+: q) : Under d N q := by
  obtain ⟨rest, rfl⟩ := h
  exact ⟨x, rest, hx, by simp⟩

/-- Entries with other names are elsewhere. -/
theorem Under.disjoint (h : Under d N q) (hNM : ∀ x, N x → ¬ M x) : ¬ Under d M q := by
  obtain ⟨x, rest, hx, rfl⟩ := h
  exact fun hM => hNM x hx (under_append.mp hM)

/-- Two paths, or names, of which neither begins with the other. -/
def Apart {α : Type} (a b : List α) : Prop := ¬ a <+: b ∧ ¬ b <+: a

instance {α : Type} [DecidableEq α] (a b : List α) : Decidable (Apart a b) :=
  inferInstanceAs (Decidable (_ ∧ _))

theorem Apart.not_below {q : List α} (h : Apart a b) (ha : a <+: q) : ¬ b <+: q := by
  intro hb
  rcases prefix_or_prefix_of_prefix ha hb with hab | hba
  · exact h.1 hab
  · exact h.2 hba

theorem Apart.symm (h : Apart a b) : Apart b a := And.symm h

/-- What is below two paths that are apart is apart. -/
theorem Apart.append_right (h : Apart a b) (c : List α) : Apart a (b ++ c) :=
  ⟨fun hle => h.not_below hle (prefix_append b c),
    fun hle => h.2 ((prefix_append b c).trans hle)⟩

theorem Apart.append_left (h : Apart a b) (c : List α) : Apart (a ++ c) b :=
  (h.symm.append_right c).symm

/-- Whether two paths are apart is decided below a common directory. -/
theorem apart_append {root : List α} : Apart (root ++ a) (root ++ b) ↔ Apart a b := by
  rw [Apart, prefix_append_right_inj, prefix_append_right_inj, Apart]

/-- Two entries of a directory. -/
theorem entries_apart {y : Name} (h : x ≠ y) : Apart (d ++ [x]) (d ++ [y]) := by
  rw [apart_append]
  exact ⟨by simpa using h, by simpa using h.symm⟩

end

theorem isPrefixOf_eq_false {a b : Path} : a.isPrefixOf b = false ↔ ¬ a <+: b := by
  rw [← Bool.not_eq_true, isPrefixOf_iff_prefix]

section

variable {fs : Fs} {dst p q src : Path}

theorem move_below (rest : Path) : fs.move src dst (dst ++ rest) = fs (src ++ rest) := by
  have hpre : dst.isPrefixOf (dst ++ rest) = true :=
    isPrefixOf_iff_prefix.mpr (prefix_append ..)
  simp [Fs.move, hpre]

theorem move_at : fs.move src dst dst = fs src := by
  have h : fs.move src dst (dst ++ []) = fs (src ++ []) := move_below []
  simpa using h

theorem move_elsewhere (hsrc : ¬ src <+: q) (hdst : ¬ dst <+: q) : fs.move src dst q = fs q := by
  simp [Fs.move, isPrefixOf_eq_false.mpr hsrc, isPrefixOf_eq_false.mpr hdst]

theorem erase_below (rest : Path) : fs.erase p.isPrefixOf (p ++ rest) = none := by
  rw [Fs.erase, if_pos ( isPrefixOf_iff_prefix.mpr (prefix_append ..))]

theorem erase_at : fs.erase p.isPrefixOf p = none := by
  have h : fs.erase p.isPrefixOf (p ++ []) = none := erase_below []
  rwa [append_nil] at h

theorem erase_elsewhere (hq : ¬ p <+: q) : fs.erase p.isPrefixOf q = fs q := by
  rw [Fs.erase, isPrefixOf_eq_false.mpr hq, if_neg (by decide)]

end

/-! ## Operations that the files allow -/

section

variable {writes : Footprint} {fs : Fs} {p src dst : Path} {o : Outcome}

theorem pass_createDir (h : fs p = none) (ho : o.ok = true) :
    answer writes fs o (.createDir p) = (.ok (), fs.set p (some .dir)) := by
  simp [answer, guarded, ho, h]

theorem pass_createDirAll (h : fs p = some .dir) (ho : o.ok = true) :
    answer writes fs o (.createDirAll p) = (.ok (), fs) := by
  simp [answer, guarded, ho, h]

theorem pass_setPermissions {mode : Nat} (h : (fs p).isSome = true) (ho : o.ok = true) :
    answer writes fs o (.setPermissions p mode) = (.ok (), fs) := by
  simp [answer, guarded, ho, h]

theorem pass_sync (h : (fs p).isSome = true) (ho : o.ok = true) :
    answer writes fs o (.sync p) = (.ok (), fs) := by
  simp [answer, guarded, ho, h]

theorem pass_createNew (h : fs p = none) (ho : o.ok = true) :
    answer writes fs o (.createNew p) = (.ok (), fs.set p (some (.file []))) := by
  simp [answer, guarded, ho, h]

theorem pass_writeAll {bytes : Bytes} (ho : o.ok = true) :
    answer writes fs o (.writeAll p bytes) = (.ok (), fs.set p (some (.file bytes))) := by
  simp [answer, ho]

theorem pass_copy {content : Bytes} (h : fs src = some (.file content)) (ho : o.ok = true) :
    answer writes fs o (.copy src dst) = (.ok (), fs.set dst (some (.file content))) := by
  simp [answer, ho, h]

theorem pass_removeDirAll (h : fs p = some .dir) (ho : o.ok = true) :
    answer writes fs o (.removeDirAll p) = (.ok (), fs.erase p.isPrefixOf) := by
  simp [answer, ho, h]

theorem pass_rename (h : fs.canRename src dst = true) (ho : o.ok = true) :
    answer writes fs o (.rename src dst) = (.ok (), fs.move src dst) := by
  simp [answer, guarded, ho, h]

end

/-! ## The protocol -/

/-- No name on the disk ends in the bytes. -/
def Fresh (fs : Fs) (bytes : Bytes) : Prop := ∀ p x rest, fs (p ++ (x ++ bytes) :: rest) = none

/-- The outcomes with at most one failure, of an operation that `may` fail. -/
def Single (may : Op → Prop) (s : Sys) (op : Op) (o : Outcome) : Prop :=
  (o.ok = true ∨ may op ∧ s.failures = 0) ∧ (op = .random → o.ok = true ∧ Fresh s.fs o.bytes)

/-- The runs in which at most one operation fails by itself. -/
def oneFailure (writes : Footprint) (may : Op → Prop) : Prog.Protocol Op Reply Sys :=
  protocolWhere writes (Single may)

/-- The outcomes with any number of failures, of operations that `may` fail. -/
def Several (may : Op → Prop) (s : Sys) (op : Op) (o : Outcome) : Prop :=
  (o.ok = true ∨ may op) ∧ (op = .random → o.ok = true ∧ Fresh s.fs o.bytes)

/-- The runs in which any operations that `may` fail do so. -/
def anyFailure (writes : Footprint) (may : Op → Prop) : Prog.Protocol Op Reply Sys :=
  protocolWhere writes (Several may)

/-- The runs in which no operation fails by itself. -/
def noFailure (writes : Footprint) : Prog.Protocol Op Reply Sys :=
  anyFailure writes fun _ => False

/-- Only operations that `may` fail do so by themselves, and a drawn number is in no name. -/
class Failing (allowed : Sys → Op → Outcome → Prop) (may : outParam (Op → Prop)) : Prop where
  may_fail : ∀ {s op o}, allowed s op o → o.ok = true ∨ may op
  fresh : ∀ {s o}, allowed s .random o → o.ok = true ∧ Fresh s.fs o.bytes

instance (may : Op → Prop) : Failing (Single may) may where
  may_fail h := h.1.imp_right And.left
  fresh h := h.2 rfl

instance (may : Op → Prop) : Failing (Several may) may where
  may_fail h := h.1
  fresh h := h.2 rfl

/-- The operations that change nothing when they fail. -/
def Op.atomic : Op → Bool
  | .createDirAll _ | .writeAll _ _ | .copy _ _ | .removeDirAll _ | .run _ => false
  | _ => true

theorem answer_atomic {writes : Footprint} {fs : Fs} {o : Outcome} {op : Op}
    (hop : op.atomic = true) (ho : o.ok = false) : (answer writes fs o op).2 = fs := by
  cases op with
  | createDirAll | writeAll | copy | removeDirAll | run => cases hop
  | read p | readLink p =>
    simp only [answer, guarded, ho]
    split <;> rfl
  | _ => simp [answer, guarded, ho]

/-- The operations that change no file, whatever commands do. -/
def Op.looks (op : Op) : Prop :=
  ∀ (writes : Footprint) (q : Path), op.touches writes q = false

/-- What an operation leaves that fails by itself. -/
structure Failed (writes : Footprint) (s : Sys) (op : Op) (s' : Sys) : Prop where
  failures : s'.failures = s.failures + 1
  outcome : ∃ o, o.ok = false ∧ s'.fs = (answer writes s.fs o op).2
  trace : s'.trace = s.trace ++ [⟨op, false⟩]

/-- What an operation leaves that is the one failure. -/
structure Broke (writes : Footprint) (s : Sys) (op : Op) (s' : Sys) : Prop where
  may_fail : s.failures = 0
  failures : s'.failures = 1
  outcome : ∃ o, o.ok = false ∧ s'.fs = (answer writes s.fs o op).2
  trace : s'.trace = s.trace ++ [⟨op, false⟩]

section

variable {writes : Footprint} {s s' : Sys} {op : Op}

theorem Failed.lt (h : Failed writes s op s') : s.failures < s'.failures := by
  rw [h.failures]
  exact Nat.lt_succ_self _

theorem Failed.frame (h : Failed writes s op s') (q : Path) (hq : op.touches writes q = false) :
    s'.fs q = s.fs q := by
  obtain ⟨o, -, hfs⟩ := h.outcome
  rw [hfs, answer_untouched writes hq]

theorem Failed.fs_eq (h : Failed writes s op s') (hop : op.atomic = true) : s'.fs = s.fs := by
  obtain ⟨o, ho, hfs⟩ := h.outcome
  rw [hfs, answer_atomic hop ho]

/-- A directory that is there is not made again. -/
theorem Failed.createDirAll {p : Path} (h : Failed writes s (.createDirAll p) s')
    (hp : s.fs p = some .dir) : s'.fs = s.fs := by
  obtain ⟨o, -, hfs⟩ := h.outcome
  rw [hfs, answer_createDirAll_existing writes hp]

end

/-- What an operation leaves that has the effect `effect`. -/
structure Passed (s : Sys) (op : Op) (effect : Fs) (s' : Sys) : Prop where
  failures : s'.failures = s.failures
  fs : s'.fs = effect
  trace : s'.trace = s.trace ++ [⟨op, true⟩]

/-- A failure is reported. -/
theorem answer_not_ok {writes : Footprint} {fs : Fs} {o : Outcome} {op : Op}
    (ho : o.ok = false) (hop : op ≠ .random) : ∃ e, (answer writes fs o op).1 = .error e := by
  cases op with
  | random => exact absurd rfl hop
  | read p | readLink p | createDirAll p =>
    simp only [answer, guarded, ho]
    split <;> exact ⟨_, rfl⟩
  | copy src dst =>
    simp only [answer, ho]
    split
    · rw [if_neg (by decide)]
      split <;> exact ⟨_, rfl⟩
    · exact ⟨_, rfl⟩
  | _ => simp [answer, guarded, ho]

section

variable {writes : Footprint} {may : Op → Prop} {ε α β : Type} {s : Sys}
  {allowed : Sys → Op → Outcome → Prop}

variable {op : Op} {r : Reply op} {s' : Sys} {a : Value op} {effect fs : Fs}
  {f : α → Prog Op Reply ε β} {Q : Except ε β → Sys → Prop} {p : Prog Op Reply ε α}
  {K : Path → Prop}

/-- A step of a run: the operation is let through, or it fails by itself. -/
theorem failing_next [Failing allowed may] (h : (protocolWhere writes allowed).next s op r s') :
    (∃ o, o.ok = true ∧ (op = .random → Fresh s.fs o.bytes) ∧ s.answer writes o op = (r, s')) ∨
      (∃ e, r = .error e) ∧ may op ∧ Failed writes s op s' ∧
        ∃ o, o.ok = false ∧ allowed s op o := by
  obtain ⟨o, ho, hr⟩ := h
  cases hok : o.ok with
  | true =>
    refine .inl ⟨o, hok, ?_, hr⟩
    rintro rfl
    exact (Failing.fresh ho).2
  | false =>
    have hmay : may op := (Failing.may_fail ho).resolve_left (by rw [hok]; decide)
    have hop : op ≠ .random := by
      rintro rfl
      have := (Failing.fresh ho).1
      rw [hok] at this
      cases this
    obtain ⟨e, he⟩ : ∃ e, (answer writes s.fs o op).1 = .error e := answer_not_ok hok hop
    cases hr
    refine .inr ⟨⟨e, he⟩, hmay, ⟨?_, ⟨o, hok, rfl⟩, ?_⟩, o, hok, ho⟩
    · simp [hok]
    · simp [he, Except.isOk, Except.toBool]

/-- With at most one failure, there was none before the operation that fails. -/
theorem oneFailure_next (h : (oneFailure writes may).next s op r s') :
    (∃ o, o.ok = true ∧ (op = .random → Fresh s.fs o.bytes) ∧ s.answer writes o op = (r, s')) ∨
      (∃ e, r = .error e) ∧ may op ∧ Broke writes s op s' := by
  refine (failing_next h).imp_right ?_
  rintro ⟨he, hmay, hfailed, o, hok, ho, -⟩
  obtain ⟨-, hfirst⟩ := ho.resolve_left (by rw [hok]; decide)
  exact ⟨he, hmay, hfirst, by rw [hfailed.failures, hfirst], hfailed.outcome, hfailed.trace⟩

/-- An operation that the files allow has its effect, or it fails by itself. -/
theorem obeys_sys_spec [OfIo ε] [Failing allowed may]
    (hpass : ∀ o, o.ok = true → answer writes s.fs o op = (.ok a, effect)) :
    Obeys (protocolWhere writes allowed) s (sys op : Prog Op Reply ε _) fun r s' =>
      (r = .ok a ∧ Passed s op effect s') ∨ ((∃ x, r = .error x) ∧ may op ∧ Failed writes s op s')
    := by
  refine ⟨trivial, fun r s' hn => ?_⟩
  rcases failing_next hn with ⟨o, ho, -, hr⟩ | ⟨⟨e, rfl⟩, hmay, hb, -⟩
  · cases hr
    have hans := hpass o ho
    rw [hans]
    refine .inl ⟨rfl, ?_, rfl, rfl⟩
    simp [ho]
  · exact .inr ⟨⟨_, rfl⟩, hmay, hb⟩

/-- After the one failure, an operation that the files allow has its effect. -/
theorem obeys_sys_second [OfIo ε] (hs : 0 < s.failures)
    (hpass : ∀ o, o.ok = true → answer writes s.fs o op = (.ok a, effect)) :
    Obeys (oneFailure writes may) s (sys op : Prog Op Reply ε _) fun r s' =>
      r = .ok a ∧ Passed s op effect s' := by
  refine ⟨trivial, fun r s' hn => ?_⟩
  rcases oneFailure_next hn with ⟨o, ho, -, hr⟩ | ⟨-, -, hb⟩
  · cases hr
    rw [hpass o ho]
    refine ⟨rfl, ?_, rfl, rfl⟩
    simp [ho]
  · rw [hb.may_fail] at hs
    cases hs

/-- An operation that the files allow, and what follows it. -/
theorem obeys_sys_pass [OfIo ε] [Failing allowed may] {f : Value op → Prog Op Reply ε β}
    (hpass : ∀ o, o.ok = true → answer writes s.fs o op = (.ok a, effect))
    (herr : ∀ x s', may op → Failed writes s op s' → Q (.error x) s')
    (hok : ∀ s', Passed s op effect s' → Obeys (protocolWhere writes allowed) s' (f a) Q) :
    Obeys (protocolWhere writes allowed) s (sys op >>= f) Q := by
  refine Obeys.bind (obeys_sys_spec hpass) ?_ ?_
  · rintro x s' (⟨h, -⟩ | ⟨-, hmay, hb⟩)
    · cases h
    · exact herr x s' hmay hb
  · rintro b s' (⟨h, hp⟩ | ⟨⟨x, h⟩, -⟩)
    · cases h
      exact hok s' hp
    · cases h

/-- A drawn number is in no name. -/
theorem obeys_random [OfIo ε] [Failing allowed may] {f : Bytes → Prog Op Reply ε β}
    (h : ∀ draw s', Fresh s.fs draw → s'.fs = s.fs → s'.failures = s.failures →
      Obeys (protocolWhere writes allowed) s' (f draw) Q) :
    Obeys (protocolWhere writes allowed) s (random >>= f) Q := by
  refine ⟨trivial, ?_⟩
  rintro r s' ⟨o, hallowed, hr⟩
  obtain ⟨ho, hfresh⟩ := Failing.fresh hallowed
  cases hr
  refine h o.bytes _ hfresh rfl ?_
  simp [ho]

/-- A fresh name is not found, whatever links there are. -/
theorem follow_fresh {draw : Bytes} (h : Fresh fs draw) (p : Path) (base : Bytes) :
    fs (fs.follow (p ++ [base ++ draw])) = none := by
  unfold Fs.follow
  split
  case h_1 target name _ hname =>
    have hname : name = base ++ draw := by simpa using hname.symm
    have := h (p.dropLast ++ [target]) base []
    simpa [hname] using this
  case h_2 => exact h p base []

/-- An operation that changes no file, and what follows it. -/
theorem obeys_sys_look [OfIo ε] {f : Value op → Prog Op Reply ε β}
    (hop : ∀ q, op.touches writes q = false) (herr : ∀ x s', s'.fs = s.fs → Q (.error x) s')
    (hok : ∀ o a s', (answer writes s.fs o op).1 = .ok a → s'.fs = s.fs →
      Obeys (protocolWhere writes allowed) s' (f a) Q) :
    Obeys (protocolWhere writes allowed) s (sys op >>= f) Q := by
  have hfs : ∀ o, (s.answer writes o op).2.fs = s.fs := fun o =>
    funext fun q => answer_untouched writes (hop q)
  exact obeys_sys (fun o e _ _ => herr _ _ (hfs o)) fun o a _ ha => hok o a _ ha (hfs o)

/-- `K` is as in `fs`, and a success means `R`. -/
def Keeping (K : Path → Prop) (fs : Fs) (R : α → Sys → Prop) (r : Except ε α) (s' : Sys) : Prop :=
  (∀ q, K q → s'.fs q = fs q) ∧ ∀ a, r = .ok a → R a s'

/-- A part of which only the frame is of interest, and what follows it. -/
theorem obeys_skip {R : β → Sys → Prop}
    (hp : p.Calls fun op => ∀ q, K q → op.touches writes q = false)
    (hs : ∀ q, K q → s.fs q = fs q)
    (hf : ∀ a s', (∀ q, K q → s'.fs q = fs q) →
      Obeys (protocolWhere writes allowed) s' (f a) (Keeping K fs R)) :
    Obeys (protocolWhere writes allowed) s (p >>= f) (Keeping K fs R) := by
  refine Obeys.bind (obeys_untouched hp) ?_ ?_
  · exact fun x s' h => ⟨fun q hq => (h q hq).trans (hs q hq), fun b hb => by cases hb⟩
  · exact fun a s' h => hf a s' fun q hq => (h q hq).trans (hs q hq)

/-- The number of failures does not fall, and the trace only grows. -/
theorem obeys_mono (p : Prog Op Reply ε α) :
    Obeys (protocolWhere writes allowed) s p fun _ s' =>
      s.failures ≤ s'.failures ∧ s.trace <+: s'.trace := by
  have hp : p.Calls fun _ => True := by
    induction p with
    | done a => trivial
    | fail x => trivial
    | call e k ih => exact ⟨trivial, ih⟩
  refine obeys_of_calls (J := fun s' => s.failures ≤ s'.failures ∧ s.trace <+: s'.trace) ?_ hp
    ⟨Nat.le_refl _, prefix_refl _⟩
  rintro s' o op - ⟨hf, ht⟩
  exact ⟨Nat.le_add_right_of_le hf, ht.trans (prefix_append ..)⟩

/-! ## Parts that fail only with a failure of an operation -/

/-- The paths in `K` are kept, and an error is that of an operation. -/
structure Calm (K : Path → Prop) (s : Sys) (r : Except ε α) (s' : Sys) : Prop where
  frame : ∀ q, K q → s'.fs q = s.fs q
  mono : s.failures ≤ s'.failures
  error : ∀ x, r = .error x → s.failures < s'.failures

theorem Calm.weaken {K' : Path → Prop} {r : Except ε α} (h : Calm K s r s') (hK : ∀ q, K' q → K q) :
    Calm K' s r s' :=
  ⟨fun q hq => h.frame q (hK q hq), h.mono, h.error⟩

/-- A sequence of such parts. -/
theorem obeys_calm_bind (hp : Obeys (protocolWhere writes allowed) s p (Calm K s))
    (hf : ∀ a s', Obeys (protocolWhere writes allowed) s' (f a) (Calm K s')) :
    Obeys (protocolWhere writes allowed) s (p >>= f) (Calm K s) := by
  refine hp.bind ?_ ?_
  · exact fun x s₁ h => ⟨h.frame, h.mono, fun _ _ => h.error x rfl⟩
  · intro a s₁ h₁
    refine (hf a s₁).imp fun r s' h => ?_
    exact ⟨fun q hq => (h.frame q hq).trans (h₁.frame q hq), Nat.le_trans h₁.mono h.mono,
      fun x hx => Nat.lt_of_le_of_lt h₁.mono (h.error x hx)⟩

/-- Without failures, an operation that the files allow has its effect. -/
theorem obeys_sys_total [OfIo ε]
    (hpass : ∀ o, o.ok = true → answer writes s.fs o op = (.ok a, effect)) :
    Obeys (noFailure writes) s (sys op : Prog Op Reply ε _) fun r s' =>
      r = .ok a ∧ s'.fs = effect := by
  refine (obeys_sys_spec hpass).imp ?_
  rintro r s' (⟨hr, hp⟩ | ⟨-, hmay, -⟩)
  · exact ⟨hr, hp.fs⟩
  · exact hmay.elim

/-- There is no failure. -/
theorem obeys_no_failure (p : Prog Op Reply ε α) :
    Obeys (noFailure writes) s p fun _ s' => s'.failures = s.failures := by
  induction p generalizing s with
  | done a => rfl
  | fail x => rfl
  | call op k ih =>
    refine ⟨trivial, fun r s' hn => (ih r).imp fun _ s'' h => h.trans ?_⟩
    rcases failing_next hn with ⟨o, ho, -, hr⟩ | ⟨-, hmay, -⟩
    · cases hr
      simp [ho]
    · exact hmay.elim

/-- There is at most one failure. -/
theorem obeys_at_most_one (p : Prog Op Reply ε α) (hs : s.failures ≤ 1) :
    Obeys (oneFailure writes may) s p fun _ s' => s'.failures ≤ 1 := by
  induction p generalizing s with
  | done a => exact hs
  | fail x => exact hs
  | call op k ih =>
    refine ⟨trivial, fun r s' hn => ih r ?_⟩
    rcases oneFailure_next hn with ⟨o, ho, -, hr⟩ | ⟨-, -, hb⟩
    · cases hr
      simpa [Sys.answer, ho] using hs
    · exact Nat.le_of_eq hb.failures

end

end Xhttp.Os
