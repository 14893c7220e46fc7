import RustXhttp.Tls.Synthesis

/-!
# The scan for the key share (`find_server_keyshare` of `src/tls/tls13/messages.rs`)

The loop goes to the announced end of the extensions, and it indexes the header of each extension
without a check. A template that is cut off inside of its extensions can make it panic.

- **The positions of the loop**: `Skips` is how it comes from one header to another, `Stops` how it
  ends at one. `scanExtensions_iff`: with enough rounds the loop is this relation, so that it ends
  and never uses up its rounds.
- **The template** (`validateServerHelloTemplate`): of a message with the right length, only the
  scan decides (`validate_serverHello`).
- `server_keyshare_scan`: where the scan panics, what it finds, and which of the cut templates are
  rejected; `cut_template_panics` is one that is not.
-/

namespace Xhttp.Tls

open Exec Option

/-! ## Positions -/

/-- Where the extensions begin, and where they end by their announced length. -/
def extensionBlock (serverHello : Bytes) : Option (Nat × Nat) :=
  (afterSessionId serverHello).bind fun pos =>
    (u16At serverHello (pos + 3)).map fun extTotal => (pos + 5, pos + 5 + extTotal.toNat)

/-- The scan comes from `pos` to `q`: the headers on the way are there, and none is the one of the
key share. -/
inductive Skips (bytes : Bytes) (extEnd : Nat) : Nat → Nat → Prop
  | here {pos : Nat} : Skips bytes extEnd pos pos
  | next {pos q : Nat} {extType extLen : UInt16} (hend : pos + 4 ≤ extEnd)
      (htype : u16At bytes pos = some extType) (hlen : u16At bytes (pos + 2) = some extLen)
      (hkey : extType ≠ extKeyShare) (hrest : Skips bytes extEnd (pos + 4 + extLen.toNat) q) :
      Skips bytes extEnd pos q

/-- How the scan ends at a position: at the announced end, at a key share, or with a panic at a
header that is announced and not there. -/
inductive Stops (bytes : Bytes) (extEnd q : Nat) : Option (Option (UInt16 × Nat × Nat)) → Prop
  | block (h : extEnd < q + 4) : Stops bytes extEnd q (some none)
  | keyShare (hend : q + 4 ≤ extEnd) (hthere : q + 4 ≤ bytes.length)
      (htype : u16At bytes q = some extKeyShare) :
      Stops bytes extEnd q (some (keyshareAt bytes (q + 4)))
  | overrun (hend : q + 4 ≤ extEnd) (hcut : bytes.length < q + 4) : Stops bytes extEnd q none

section Loop

variable {bytes : Bytes} {extEnd pos q fuel : Nat} {r : Option (Option (UInt16 × Nat × Nat))}

theorem u16At_eq_none : u16At bytes pos = none ↔ bytes.length < pos + 2 := by
  by_cases h : pos + 2 ≤ bytes.length
  · rw [u16At, List.getElem?_eq_getElem (by omega), List.getElem?_eq_getElem (by omega)]
    simp only [reduceCtorEq, false_iff]
    omega
  · have hnone : bytes[pos + 1]? = none := List.getElem?_eq_none (by omega)
    have hcut : u16At bytes pos = none := by
      rw [u16At, hnone]
      cases bytes[pos]? <;> rfl
    exact ⟨fun _ => by omega, fun _ => hcut⟩

theorem u16At_there {v : UInt16} (h : u16At bytes pos = some v) : pos + 2 ≤ bytes.length := by
  by_cases hcut : bytes.length < pos + 2
  · rw [u16At_eq_none.mpr hcut] at h
    cases h
  · omega

/-- Every round goes four bytes on, so the loop ends. -/
theorem scanExtensions_stops (h : extEnd < pos + fuel) :
    ∃ q, Skips bytes extEnd pos q ∧
      Stops bytes extEnd q (scanExtensions bytes extEnd fuel pos) := by
  induction fuel generalizing pos with
  | zero => exact ⟨pos, .here, .block (by omega)⟩
  | succ fuel ih =>
    unfold scanExtensions
    by_cases hend : pos + 4 ≤ extEnd
    case neg =>
      rw [if_neg hend]
      exact ⟨pos, .here, .block (by omega)⟩
    rw [if_pos hend]
    cases htype : u16At bytes pos with
    | none =>
      have := u16At_eq_none.mp htype
      exact ⟨pos, .here, .overrun hend (by omega)⟩
    | some extType =>
      cases hlen : u16At bytes (pos + 2) with
      | none =>
        have := u16At_eq_none.mp hlen
        exact ⟨pos, .here, .overrun hend (by omega)⟩
      | some extLen =>
        simp only [bind_some]
        by_cases hkey : extType = extKeyShare
        · rw [if_pos hkey]
          have := u16At_there hlen
          exact ⟨pos, .here, .keyShare hend (by omega) (hkey ▸ htype)⟩
        · rw [if_neg hkey]
          have hmore : extEnd < pos + 4 + extLen.toNat + fuel := by omega
          obtain ⟨q, hskips, hstops⟩ := ih hmore
          exact ⟨q, .next hend htype hlen hkey hskips, hstops⟩

theorem Stops.scanExtensions (h : Stops bytes extEnd q r) (hfuel : extEnd < q + fuel) :
    scanExtensions bytes extEnd fuel q = r := by
  cases h with
  | block h =>
    cases fuel with
    | zero => rfl
    | succ fuel => rw [Tls.scanExtensions, if_neg (by omega)]
  | keyShare hend hthere htype =>
    obtain ⟨extLen, hlen⟩ : ∃ extLen, u16At bytes (q + 2) = some extLen := by
      refine ne_none_iff_exists'.mp fun hnone => ?_
      have := u16At_eq_none.mp hnone
      omega
    obtain ⟨fuel, rfl⟩ : ∃ n, fuel = n + 1 := ⟨fuel - 1, by omega⟩
    rw [Tls.scanExtensions, if_pos hend, htype, hlen, bind_some, bind_some, if_pos rfl]
  | overrun hend hcut =>
    obtain ⟨fuel, rfl⟩ : ∃ n, fuel = n + 1 := ⟨fuel - 1, by omega⟩
    have hnone : u16At bytes (q + 2) = none := u16At_eq_none.mpr (by omega)
    rw [Tls.scanExtensions, if_pos hend, hnone]
    cases u16At bytes q <;> rfl

theorem Skips.scanExtensions (h : Skips bytes extEnd pos q) (hstops : Stops bytes extEnd q r)
    (hfuel : extEnd < pos + fuel) : scanExtensions bytes extEnd fuel pos = r := by
  induction h generalizing fuel with
  | here => exact hstops.scanExtensions hfuel
  | next hend htype hlen hkey _ ih =>
    obtain ⟨fuel, rfl⟩ : ∃ n, fuel = n + 1 := ⟨fuel - 1, by omega⟩
    rw [Tls.scanExtensions, if_pos hend, htype, hlen, bind_some, bind_some, if_neg hkey]
    exact ih hstops (by omega)

/-- The loop is the relation, whatever the number of rounds that it is given, if it is enough. -/
theorem scanExtensions_iff (hfuel : extEnd < pos + fuel) :
    scanExtensions bytes extEnd fuel pos = r ↔
      ∃ q, Skips bytes extEnd pos q ∧ Stops bytes extEnd q r := by
  constructor
  · rintro rfl
    exact scanExtensions_stops hfuel
  · rintro ⟨q, hskips, hstops⟩
    exact hskips.scanExtensions hstops hfuel

end Loop

/-! ## The whole scan -/

/-- The scan comes to the header of an extension that is announced and not there. -/
def Overruns (bytes : Bytes) : Prop :=
  ∃ start extEnd q, extensionBlock bytes = some (start, extEnd) ∧ Skips bytes extEnd start q ∧
    q + 4 ≤ extEnd ∧ bytes.length < q + 4

/-- The scan comes to a key share that is there. -/
def HoldsKeyshare (bytes : Bytes) (share : UInt16 × Nat × Nat) : Prop :=
  ∃ start extEnd q, extensionBlock bytes = some (start, extEnd) ∧ Skips bytes extEnd start q ∧
    q + 4 ≤ extEnd ∧ u16At bytes q = some extKeyShare ∧ keyshareAt bytes (q + 4) = some share

section Find

variable {bytes : Bytes} {start extEnd : Nat}

theorem findServerKeyshare_no_block (h : extensionBlock bytes = none) :
    findServerKeyshare bytes = some none := by
  unfold extensionBlock at h
  unfold findServerKeyshare
  cases hpos : afterSessionId bytes with
  | none => rfl
  | some pos =>
    rw [hpos, bind_some, map_eq_none_iff] at h
    simp only [h]

theorem findServerKeyshare_block (h : extensionBlock bytes = some (start, extEnd)) {rounds : Nat}
    (hrounds : extEnd < start + rounds) :
    scanExtensions bytes extEnd rounds start = findServerKeyshare bytes := by
  obtain ⟨pos, hpos, h⟩ := bind_eq_some_iff.mp h
  obtain ⟨extTotal, htotal, h⟩ := map_eq_some_iff.mp h
  cases h
  unfold findServerKeyshare
  rw [hpos]
  simp only [htotal]
  rw [scanExtensions_iff hrounds, ← scanExtensions_iff]
  omega

theorem findServerKeyshare_iff (h : extensionBlock bytes = some (start, extEnd))
    {r : Option (Option (UInt16 × Nat × Nat))} :
    findServerKeyshare bytes = r ↔ ∃ q, Skips bytes extEnd start q ∧ Stops bytes extEnd q r := by
  have hrounds : extEnd < start + (extEnd + 1) := by omega
  rw [← findServerKeyshare_block h hrounds, scanExtensions_iff hrounds]

/-- A panic and a key share come from the extensions. -/
theorem findServerKeyshare_stops {r : Option (Option (UInt16 × Nat × Nat))}
    (h : findServerKeyshare bytes = r) (hr : r ≠ some none) :
    ∃ start extEnd q, extensionBlock bytes = some (start, extEnd) ∧ Skips bytes extEnd start q ∧
      Stops bytes extEnd q r := by
  cases hblock : extensionBlock bytes with
  | none =>
    rw [findServerKeyshare_no_block hblock] at h
    exact absurd h.symm hr
  | some block =>
    obtain ⟨q, hskips, hstops⟩ := (findServerKeyshare_iff hblock).mp h
    exact ⟨block.1, block.2, q, rfl, hskips, hstops⟩

theorem findServerKeyshare_panics : findServerKeyshare bytes = none ↔ Overruns bytes := by
  constructor
  · intro h
    obtain ⟨start, extEnd, q, hblock, hskips, hstops⟩ :=
      findServerKeyshare_stops h fun hr => by cases hr
    cases hstops with
    | overrun hend hcut => exact ⟨start, extEnd, q, hblock, hskips, hend, hcut⟩
  · rintro ⟨start, extEnd, q, hblock, hskips, hend, hcut⟩
    exact (findServerKeyshare_iff hblock).mpr ⟨q, hskips, .overrun hend hcut⟩

theorem findServerKeyshare_finds {share : UInt16 × Nat × Nat} :
    findServerKeyshare bytes = some (some share) ↔ HoldsKeyshare bytes share := by
  constructor
  · intro h
    obtain ⟨start, extEnd, q, hblock, hskips, hstops⟩ :=
      findServerKeyshare_stops h fun hr => by cases hr
    generalize hr : some (some share) = r at hstops
    cases hstops with
    | block => cases hr
    | overrun => cases hr
    | keyShare hend _ htype =>
      exact ⟨start, extEnd, q, hblock, hskips, hend, htype, (Option.some.inj hr).symm⟩
  · rintro ⟨start, extEnd, q, hblock, hskips, hend, htype, hshare⟩
    have hthere : q + 4 ≤ bytes.length := by
      obtain ⟨group, offset, len⟩ := share
      have := keyshareAt_bounds hshare
      omega
    exact (findServerKeyshare_iff hblock).mpr
      ⟨q, hskips, hshare ▸ .keyShare hend hthere htype⟩

end Find

/-! ## Templates -/

/-- A ServerHello message whose length is the announced one. -/
def IsServerHello (template : Bytes) : Prop :=
  ∃ body : Bytes, body.length < 16777216 ∧ template = handshakeMessage hsServerHello body

/-- The extensions are shorter than their announced length. -/
def Cut (template : Bytes) : Prop :=
  ∃ start extEnd, extensionBlock template = some (start, extEnd) ∧ template.length < extEnd

section Template

variable {template : Bytes}

theorem validate_not_serverHello (h : ¬ IsServerHello template) :
    (validateServerHelloTemplate template).run = some (.error .malformedServerHello) := by
  unfold validateServerHelloTemplate serverHelloBodyLen
  split
  case h_2 => rfl
  case h_1 t a b c body =>
    by_cases ht : t = hsServerHello
    case neg =>
      rw [if_pos ht]
      rfl
    rw [if_neg fun hne => hne ht]
    have hlen : ofBe24 a b c ≠ (t :: a :: b :: c :: body).length - 4 := by
      intro hlen
      have hbody : ofBe24 a b c = body.length := hlen
      refine h ⟨body, ?_, ?_⟩
      · have ha := a.toNat_lt
        have hb := b.toNat_lt
        have hc := c.toNat_lt
        rw [← hbody, ofBe24]
        omega
      · rw [handshakeMessage, ← hbody, be24_ofBe24, ht]
        rfl
    rw [pure_bind, failIf_pos hlen]
    rfl

/-- A template with a key share has a cipher suite, which stands before the extensions. -/
theorem HoldsKeyshare.cipherSuite {share : UInt16 × Nat × Nat} (h : HoldsKeyshare template share) :
    ∃ suite, serverHelloCipherSuite template = some suite := by
  obtain ⟨start, extEnd, -, hblock, -⟩ := h
  obtain ⟨pos, hpos, hblock⟩ := bind_eq_some_iff.mp hblock
  obtain ⟨extTotal, htotal, -⟩ := map_eq_some_iff.mp hblock
  have hthere := u16At_there htotal
  rw [serverHelloCipherSuite, hpos, bind_some]
  refine ne_none_iff_exists'.mp fun hnone => ?_
  have := u16At_eq_none.mp hnone
  omega

/-- Of a message with the right length, only the scan decides. -/
theorem validate_serverHello (h : IsServerHello template) :
    (validateServerHelloTemplate template).run = (findServerKeyshare template).map fun found =>
      if found.isSome then .ok () else .error .malformedServerHello := by
  obtain ⟨body, hlt, htemplate⟩ := h
  have hbody : serverHelloBodyLen template = pure body.length := by
    rw [htemplate, handshakeMessage, be24]
    simp only [serverHelloBodyLen, List.cons_append, List.nil_append, ne_eq, not_true_eq_false,
      if_false, ofBe24_ofNat hlt]
  have hlen : ¬ body.length ≠ template.length - 4 := by
    rw [htemplate, handshakeMessage]
    simp
  unfold validateServerHelloTemplate
  rw [hbody, pure_bind, failIf_neg hlen, pure_bind]
  rcases hfound : findServerKeyshare template with _ | _ | share
  · rfl
  · rfl
  · obtain ⟨suite, hsuite⟩ := (findServerKeyshare_finds.mp hfound).cipherSuite
    rw [hsuite]
    rfl

theorem validate_panics :
    (validateServerHelloTemplate template).run = none ↔
      IsServerHello template ∧ Overruns template := by
  by_cases hhello : IsServerHello template
  · rw [validate_serverHello hhello, map_eq_none_iff, findServerKeyshare_panics]
    exact ⟨fun h => ⟨hhello, h⟩, And.right⟩
  · rw [validate_not_serverHello hhello]
    exact ⟨fun h => (by cases h), fun h => absurd h.1 hhello⟩

theorem validate_malformed :
    (validateServerHelloTemplate template).run = some (.error .malformedServerHello) ↔
      ¬ IsServerHello template ∨ ¬ Overruns template ∧ ∀ share, ¬ HoldsKeyshare template share := by
  by_cases hhello : IsServerHello template
  case neg => exact ⟨fun _ => .inl hhello, fun _ => validate_not_serverHello hhello⟩
  rw [validate_serverHello hhello, or_iff_right (not_not_intro hhello), ← findServerKeyshare_panics]
  simp only [← findServerKeyshare_finds]
  rcases findServerKeyshare template with _ | _ | share
  · simp
  · simp
  · simp

end Template

/-- **The scan for the key share.** It ends, whatever the bytes are. It indexes past the end exactly
when it comes to a header that is announced and not there, which does not happen when the announced
extensions are there. A key share that it finds is within the bytes. A template, cut or not, is
malformed exactly if it is no message of the announced length, or if the scan neither panics nor
finds a key share. -/
theorem server_keyshare_scan (serverHello : Bytes) :
    (∀ start extEnd, extensionBlock serverHello = some (start, extEnd) → ∀ rounds,
      extEnd < start + rounds →
      scanExtensions serverHello extEnd rounds start = findServerKeyshare serverHello) ∧
    (findServerKeyshare serverHello ≠ none ↔ ¬ Overruns serverHello) ∧
    (¬ Cut serverHello → findServerKeyshare serverHello ≠ none) ∧
    (∀ group offset len, findServerKeyshare serverHello = some (some (group, offset, len)) →
      offset + len ≤ serverHello.length) ∧
    ((validateServerHelloTemplate serverHello).run = none ↔
      IsServerHello serverHello ∧ Overruns serverHello) ∧
    ((validateServerHelloTemplate serverHello).run = some (.error .malformedServerHello) ↔
      ¬ IsServerHello serverHello ∨
        ¬ Overruns serverHello ∧ ∀ share, ¬ HoldsKeyshare serverHello share) := by
  have hpanics : findServerKeyshare serverHello ≠ none ↔ ¬ Overruns serverHello :=
    not_congr findServerKeyshare_panics
  refine ⟨?_, hpanics, ?_, ?_, validate_panics, validate_malformed⟩
  · exact fun start extEnd hblock rounds => findServerKeyshare_block hblock
  · intro hwhole
    refine hpanics.mpr ?_
    rintro ⟨start, extEnd, q, hblock, -, hend, hcut⟩
    exact hwhole ⟨start, extEnd, hblock, by omega⟩
  · intro group offset len hfound
    obtain ⟨-, -, q, -, -, -, -, hshare⟩ := findServerKeyshare_finds.mp hfound
    exact (keyshareAt_bounds hshare).2

/-- A ServerHello message without a session id that announces `extTotal` bytes of extensions. -/
def cutTemplate (extTotal : Nat) (extensions : Bytes) : Bytes :=
  handshakeMessage hsServerHello
    ([3, 3] ++ List.replicate 32 0 ++ [0, 0x13, 0x01, 0] ++ be16 extTotal ++ extensions)

/-- The templates end in the extensions that they announce. The first has none of the four bytes of
a header, and the scan panics; the second has a key share, and is accepted. -/
theorem cut_template_panics :
    (Cut (cutTemplate 4 []) ∧ findServerKeyshare (cutTemplate 4 []) = none ∧
      (validateServerHelloTemplate (cutTemplate 4 [])).run = none) ∧
    Cut (cutTemplate 100 [0, 51, 0, 5, 0, 29, 0, 1, 9]) ∧
      (validateServerHelloTemplate (cutTemplate 100 [0, 51, 0, 5, 0, 29, 0, 1, 9])).run =
        some (.ok ()) := by
  have hpanics : findServerKeyshare (cutTemplate 4 []) = none := by decide
  have hfinds : findServerKeyshare (cutTemplate 100 [0, 51, 0, 5, 0, 29, 0, 1, 9]) =
      some (some (29, 52, 1)) := by decide
  have hhello : IsServerHello (cutTemplate 4 []) := ⟨_, by decide, rfl⟩
  have hhello' : IsServerHello (cutTemplate 100 [0, 51, 0, 5, 0, 29, 0, 1, 9]) :=
    ⟨_, by decide, rfl⟩
  refine ⟨⟨⟨44, 48, by decide, by decide⟩, hpanics, ?_⟩, ⟨44, 144, by decide, by decide⟩, ?_⟩
  · rw [validate_serverHello hhello, hpanics]
    rfl
  · rw [validate_serverHello hhello', hfinds]
    rfl

end Xhttp.Tls
