import RustXhttp.Acme.Publish

/-!
# Publications that are cut off (`src/acme.rs`, `publish_certificate_pair`)

Publications follow each other in one cache directory. Each of them may have any of its operations
fail, and may be cut off after any of them; the next one starts with the files as they were left.

* `Reached`: the files after some calls, at every point of the last one.
* `Sound`: `current` resolves to the pair of the last call that has switched it. A call that was cut
  off before its switch has left nothing but files that the link does not name (`Sound.call`).
* The generation that `current` named before a call is there during the whole call, if the call
  could read the link. A link that cannot be read counts as none, and the generation is removed
  (`former_generation_removed`).
-/

namespace Xhttp.Acme

open Os

/-- A call of `publish_certificate_pair`, and whether it has switched `current`. -/
structure Call where
  pair : Pair
  switched : Bool
  deriving DecidableEq

/-- The pairs that were published, in their order. -/
def published (calls : List Call) : List Pair := (calls.filter Call.switched).map Call.pair

section

variable (check : Pair → Except Bytes Unit) (writes : Footprint) (cacheDir : Path)
  (fs₀ : Fs)

/-- The files after the calls, each of which has come to its end or was cut off. -/
inductive Reached : List Call → Fs → Prop
  | start : Reached [] fs₀
  | call {calls : List Call} {fs : Fs} {pair : Pair} {s : Sys} : Reached calls fs →
      Prog.Visits (protocol writes none) (.start fs)
        (publishCertificatePair check cacheDir pair) s →
      Reached (calls ++ [⟨pair, decide (Switched cacheDir s)⟩]) s.fs

/-- `current` resolves to the pair, in a directory with the name `target`. -/
structure Resolves (target : Name) (pair : Pair) (fs : Fs) : Prop where
  link : fs (cacheDir ++ [current]) = some (.symlink target)
  holds : Holds (cacheDir ++ [target]) pair fs

/-- The pair is the last one that was published, and in the directory of a generation; or nothing
was published, and it is the one at the start. -/
def Newest (calls : List Call) (target : Name) (pair : Pair) : Prop :=
  ((published calls).getLast? = some pair ∧ ascii "generation-" <+: target) ∨
    (published calls = [] ∧ Resolves cacheDir target pair fs₀)

/-- There is no link and nothing was published, or it resolves to the newest pair. -/
def Sound (calls : List Call) (fs : Fs) : Prop :=
  (fs (cacheDir ++ [current]) = none ∧ fs₀ (cacheDir ++ [current]) = none ∧
      published calls = []) ∨
    ∃ target pair, Resolves cacheDir target pair fs ∧ check pair = .ok () ∧
      Newest cacheDir fs₀ calls target pair

end

section

variable {check : Pair → Except Bytes Unit} {writes : Footprint} {cacheDir : Path}
  {fs₀ fs : Fs} {calls : List Call} {pair : Pair} {s : Sys}

theorem published_concat (calls : List Call) (c : Call) :
    published (calls ++ [c]) = published calls ++ if c.switched then [c.pair] else [] := by
  unfold published
  cases h : c.switched <;> simp [h]

theorem resolves_of_currentPair (h : currentPair cacheDir fs = some pair) :
    ∃ target, Resolves cacheDir target pair fs := by
  obtain ⟨target, hlink, hdir, hcert, hkey⟩ := currentPair_eq_some.mp h
  refine ⟨target, hlink, hdir, ?_, ?_⟩
  · rw [List.append_assoc]
    exact hcert
  · rw [List.append_assoc]
    exact hkey

theorem Resolves.kept {target : Name} (h : Resolves cacheDir target pair fs) {fs' : Fs}
    (hkept : Kept cacheDir fs fs') : Resolves cacheDir target pair fs' where
  link := (hkept _ (.inl rfl)).trans h.link
  holds := by
    refine h.holds.congr fun rest => hkept _ (.inr ⟨target, h.link, h.holds.dir, rest, ?_⟩)
    rw [List.append_assoc]
    rfl

/-- At every point of a call, `current` has been switched or not. -/
theorem visits_consistent (hv : Prog.Visits (protocol writes none) (.start fs)
    (publishCertificatePair check cacheDir pair) s) : Consistent check cacheDir fs pair s := by
  have hstart : ¬ Switched cacheDir (.start fs) := by
    rintro ⟨link, hmem⟩
    cases hmem
  refine (publish_watched pair hstart).visits (fun r s' h => ?_) hv
  rcases h with ⟨number, hsucceeds, -⟩ | ⟨-, hb⟩
  · exact .inr ⟨number, hsucceeds⟩
  · exact .inl hb

/-- A call, at any of its points. -/
theorem Sound.call (h : Sound check cacheDir fs₀ calls fs)
    (hv : Prog.Visits (protocol writes none) (.start fs)
      (publishCertificatePair check cacheDir pair) s) :
    Sound check cacheDir fs₀ (calls ++ [⟨pair, decide (Switched cacheDir s)⟩]) s.fs := by
  rcases visits_consistent hv with hb | ⟨number, hsucceeds⟩
  · have hsame : published (calls ++ [⟨pair, decide (Switched cacheDir s)⟩]) = published calls := by
      rw [published_concat, decide_eq_false hb.notSwitched]
      simp
    rcases h with ⟨hnone, hnone₀, hnothing⟩ | ⟨target, p, hresolves, hchecked, hnewest⟩
    · exact .inl ⟨(hb.kept _ (.inl rfl)).trans hnone, hnone₀, hsame.trans hnothing⟩
    · refine .inr ⟨target, p, hresolves.kept hb.kept, hchecked, ?_⟩
      unfold Newest
      rw [hsame]
      exact hnewest
  · have hlast : (published (calls ++ [⟨pair, decide (Switched cacheDir s)⟩])).getLast? =
        some pair := by
      rw [published_concat, decide_eq_true hsucceeds.switched, if_pos rfl, List.getLast?_concat]
    exact .inr ⟨_, pair, ⟨hsucceeds.link, hsucceeds.holds⟩, hsucceeds.checked,
      .inl ⟨hlast, List.prefix_append _ _⟩⟩

theorem Reached.sound (hinit : fs₀ (cacheDir ++ [current]) = none ∨
      ∃ pair, currentPair cacheDir fs₀ = some pair ∧ check pair = .ok ())
    (h : Reached check writes cacheDir fs₀ calls fs) : Sound check cacheDir fs₀ calls fs := by
  induction h with
  | start =>
    rcases hinit with hnone | ⟨pair, hpair, hchecked⟩
    · exact .inl ⟨hnone, hnone, rfl⟩
    · obtain ⟨target, hresolves⟩ := resolves_of_currentPair hpair
      exact .inr ⟨target, pair, hresolves, hchecked, .inr ⟨rfl, hresolves⟩⟩
  | call _ hv ih => exact ih.call hv

end

/-- **Publication is crash consistent.** After any number of calls, each of which may have any
operation fail and may be cut off anywhere, `current` is absent exactly if it was at the start and
nothing was published, and otherwise it resolves to both files of the last call that has switched
it, which have passed the check. During one more call the directory that `current` names at its
start is as it was, if the call could read the link. -/
theorem publication_crash_consistent (check : Pair → Except Bytes Unit)
    (writes : Footprint) (cacheDir : Path) (fs₀ : Fs)
    (hinit : fs₀ (cacheDir ++ [current]) = none ∨
      ∃ pair, currentPair cacheDir fs₀ = some pair ∧ check pair = .ok ())
    (calls : List Call) (fs : Fs) (h : Reached check writes cacheDir fs₀ calls fs) :
    (fs (cacheDir ++ [current]) = none ↔
      fs₀ (cacheDir ++ [current]) = none ∧ published calls = []) ∧
    (fs (cacheDir ++ [current]) ≠ none → ∃ target pair, Resolves cacheDir target pair fs ∧
      check pair = .ok () ∧ Newest cacheDir fs₀ calls target pair) ∧
    ∀ pair s, Prog.Visits (protocol writes none) (.start fs)
        (publishCertificatePair check cacheDir pair) s → ¬ LinkUnread cacheDir s →
      ∀ target rest, fs (cacheDir ++ [current]) = some (.symlink target) →
        s.fs (cacheDir ++ target :: rest) = fs (cacheDir ++ target :: rest) := by
  have hsound := h.sound hinit
  refine ⟨⟨fun hnone => ?_, ?_⟩, fun hsome => ?_, ?_⟩
  · rcases hsound with ⟨-, hnothing⟩ | ⟨target, p, hresolves, -⟩
    · exact hnothing
    · rw [hresolves.link] at hnone
      cases hnone
  · rintro ⟨hnone₀, hnothing⟩
    rcases hsound with ⟨hnone, -⟩ | ⟨target, p, -, -, ⟨hlast, -⟩ | ⟨-, hresolves⟩⟩
    · exact hnone
    · rw [hnothing] at hlast
      cases hlast
    · rw [hresolves.link] at hnone₀
      cases hnone₀
  · rcases hsound with ⟨hnone, -⟩ | hresolves
    · exact absurd hnone hsome
    · exact hresolves
  · intro pair s hv hread target rest ht
    have hdir : fs (cacheDir ++ [target]) = some .dir := by
      rcases hsound with ⟨hnone, -⟩ | ⟨target', p, hresolves, -⟩
      · rw [hnone] at ht
        cases ht
      · have hlink := hresolves.link
        rw [ht] at hlink
        cases hlink
        exact hresolves.holds.dir
    rcases visits_consistent hv with hb | ⟨number, hsucceeds⟩
    · exact hb.formerKept target rest ht hdir
    · exact hsucceeds.former.resolve_left hread target rest ht hdir

/-! ## Two runs -/

def sampleDir : Path := [ascii "cache"]

/-- A cache directory with nothing in it. -/
def emptyCache : Fs := fun p => if p = sampleDir then some .dir else none

/-- A cache directory with one generation. -/
def filledCache : Fs := fun p =>
  if p = sampleDir ∨ p = sampleDir ++ [ascii "generation-1"] then some .dir
  else if p = sampleDir ++ [current] then some (.symlink (ascii "generation-1"))
  else if p = sampleDir ++ [ascii "generation-1", certificatePem] then some (.file [1])
  else if p = sampleDir ++ [ascii "generation-1", privateKeyPem] then some (.file [2])
  else none

/-- A publication that nothing stops. -/
def firstRun : Sys :=
  (run (fun _ _ => false) (.start emptyCache) []
    (publishCertificatePair (fun _ => .ok ()) sampleDir ⟨[1], [2]⟩)).2.1

theorem publication_crash_consistent_first :
    Reached (fun _ => .ok ()) (fun _ _ => false) sampleDir emptyCache [⟨⟨[1], [2]⟩, true⟩]
      firstRun.fs ∧
    ∃ target, Resolves sampleDir target ⟨[1], [2]⟩ firstRun.fs := by
  have hswitched : Switched sampleDir firstRun := by decide +kernel
  have hreached : Reached (fun _ => .ok ()) (fun _ _ => false) sampleDir emptyCache
      ([] ++ [⟨⟨[1], [2]⟩, decide (Switched sampleDir firstRun)⟩]) firstRun.fs :=
    .call .start (visits_run _ [])
  rw [decide_eq_true hswitched] at hreached
  have hthere : firstRun.fs (sampleDir ++ [current]) ≠ none := by decide +kernel
  obtain ⟨target, pair, hresolves, -, ⟨hlast, -⟩ | ⟨hnothing, -⟩⟩ :=
    (publication_crash_consistent _ _ sampleDir emptyCache (.inl rfl) _ _ hreached).2.1 hthere
  · cases hlast
    exact ⟨hreached, target, hresolves⟩
  · cases hnothing

/-- The outcomes of the operations of a publication whose `read_link` fails. The directory has two
generations when it is listed. -/
def unreadLink : List Outcome :=
  let passes : Outcome := { ok := true }
  { bytes := ascii "2" } :: List.replicate 12 passes ++
    [{ ok := false }, passes, passes, passes, passes,
      { names := [ascii "generation-1", ascii "generation-2"] }]

/-- A call that could not read `current` removes the generation that `current` named. -/
theorem former_generation_removed : ∃ s,
    currentPair sampleDir filledCache = some ⟨[1], [2]⟩ ∧
    Prog.Visits (protocol (fun _ _ => false) none) (.start filledCache)
      (publishCertificatePair (fun _ => .ok ()) sampleDir ⟨[3], [4]⟩) s ∧
    filledCache (sampleDir ++ [current]) = some (.symlink (ascii "generation-1")) ∧
    filledCache (sampleDir ++ [ascii "generation-1"]) = some .dir ∧
    currentPair sampleDir s.fs = some ⟨[3], [4]⟩ ∧
    s.fs (sampleDir ++ [ascii "generation-1"]) = none := by
  refine ⟨_, by decide, visits_run _ unreadLink, by decide, by decide, ?_, ?_⟩
  all_goals decide +kernel

end Xhttp.Acme
