import RustXhttp.Tls.Flight

/-!
# The ServerHello and its template

What `synthesize_server_hello_with_rng` changes in the template (`server_hello_frame`).

- **The scans are relative**: what they find after the session id does not depend on what is before
  it (`findServerKeyshare_append`, `serverHelloCipherSuite_append`), so that the splice of another
  session id only shifts the key share.
- **The scan stops at the key share**: other bytes in the key share are found at the same place
  (`findAfterSessionId_overwrite`).
-/

namespace Xhttp.Tls

open Exec List Option

/-! ## Scanning behind a prefix -/

section Append

variable (front tail : Bytes)

theorem u16At_append (i : Nat) : u16At (front ++ tail) (front.length + i) = u16At tail i := by
  rw [u16At, u16At, getElem?_append_right (by omega), getElem?_append_right (by omega),
    Nat.add_assoc, Nat.add_sub_cancel_left, Nat.add_sub_cancel_left]

/-- A key share that was found `d` bytes further on. -/
def shifted (d : Nat) (found : UInt16 × Nat × Nat) : UInt16 × Nat × Nat :=
  (found.1, d + found.2.1, found.2.2)

theorem keyshareAt_append (i : Nat) :
    keyshareAt (front ++ tail) (front.length + i) =
      (keyshareAt tail i).map (shifted front.length) := by
  unfold keyshareAt
  rw [u16At_append, Nat.add_assoc front.length i 2, u16At_append]
  rcases u16At tail i with _ | group
  · rfl
  rcases u16At tail (i + 2) with _ | kxLen
  · rfl
  simp only [bind_some, length_append]
  by_cases h : i + 4 + kxLen.toNat ≤ tail.length
  · rw [if_pos h, if_pos (by omega), map_some, shifted, Nat.add_assoc]
  · rw [if_neg h, if_neg (by omega), map_none]

theorem scanExtensions_append (extEnd fuel pos : Nat) :
    scanExtensions (front ++ tail) (front.length + extEnd) fuel (front.length + pos) =
      (scanExtensions tail extEnd fuel pos).map (Option.map (shifted front.length)) := by
  induction fuel generalizing pos with
  | zero => rfl
  | succ fuel ih =>
    unfold scanExtensions
    by_cases hpos : pos + 4 ≤ extEnd
    · rw [if_pos hpos, if_pos (by omega), u16At_append, Nat.add_assoc front.length pos 2,
        u16At_append]
      rcases u16At tail pos with _ | extType
      · rfl
      rcases u16At tail (pos + 2) with _ | extLen
      · rfl
      simp only [bind_some]
      by_cases htype : extType = extKeyShare
      · rw [if_pos htype, if_pos htype, Nat.add_assoc, keyshareAt_append, map_some]
      · rw [if_neg htype, if_neg htype, ← ih, Nat.add_assoc, Nat.add_assoc, Nat.add_assoc]
    · rw [if_neg hpos, if_neg (by omega)]
      rfl

/-- `find_server_keyshare` on the bytes after the session id. -/
def findAfterSessionId (tail : Bytes) : Option (Option (UInt16 × Nat × Nat)) :=
  match u16At tail 3 with
  | none => some none
  | some extTotal => scanExtensions tail (5 + extTotal.toNat) (extTotal.toNat + 1) 5

variable {front tail}

theorem findServerKeyshare_append (h : afterSessionId (front ++ tail) = some front.length) :
    findServerKeyshare (front ++ tail) =
      (findAfterSessionId tail).map (Option.map (shifted front.length)) := by
  unfold findServerKeyshare findAfterSessionId
  rw [h]
  simp only [u16At_append]
  rcases u16At tail 3 with _ | extTotal
  · rfl
  · have hend : front.length + 3 + 2 + extTotal.toNat = front.length + (5 + extTotal.toNat) := by
      omega
    simp only [hend]
    exact scanExtensions_append front tail (5 + extTotal.toNat) (extTotal.toNat + 1) 5

theorem serverHelloCipherSuite_append (h : afterSessionId (front ++ tail) = some front.length) :
    serverHelloCipherSuite (front ++ tail) = u16At tail 0 := by
  rw [serverHelloCipherSuite, h, bind_some]
  exact u16At_append front tail 0

end Append

/-! ## Overwriting the key share -/

section Overwrite

variable {bytes bytes' : Bytes}

variable {extEnd fuel len offset pos : Nat} {group : UInt16}

theorem u16At_congr {stop : Nat} (h : ∀ i, i < stop → bytes'[i]? = bytes[i]?)
    (hpos : pos + 2 ≤ stop) : u16At bytes' pos = u16At bytes pos := by
  rw [u16At, u16At, h pos (by omega), h (pos + 1) (by omega)]

/-- A key share that was found is behind its two numbers and within the bytes. -/
theorem keyshareAt_bounds (h : keyshareAt bytes pos = some (group, offset, len)) :
    offset = pos + 4 ∧ offset + len ≤ bytes.length := by
  unfold keyshareAt at h
  obtain ⟨g, -, h⟩ := bind_eq_some_iff.mp h
  obtain ⟨kxLen, -, h⟩ := bind_eq_some_iff.mp h
  split at h
  case isTrue hle =>
    cases h
    exact ⟨rfl, hle⟩
  case isFalse => cases h

theorem scanExtensions_bounds
    (h : scanExtensions bytes extEnd fuel pos = some (some (group, offset, len))) :
    pos + 8 ≤ offset ∧ offset + len ≤ bytes.length := by
  induction fuel generalizing pos with
  | zero => cases h
  | succ fuel ih =>
    unfold scanExtensions at h
    split at h
    · obtain ⟨extType, -, h⟩ := bind_eq_some_iff.mp h
      obtain ⟨extLen, -, h⟩ := bind_eq_some_iff.mp h
      split at h
      · obtain ⟨hoffset, hlen⟩ := keyshareAt_bounds (Option.some.inj h)
        omega
      · have := ih h
        omega
    · cases h

/-- The scan does not read the key share. -/
theorem scanExtensions_congr (h : ∀ i, i < offset → bytes'[i]? = bytes[i]?)
    (hlen : bytes'.length = bytes.length)
    (hscan : scanExtensions bytes extEnd fuel pos = some (some (group, offset, len))) :
    scanExtensions bytes' extEnd fuel pos = some (some (group, offset, len)) := by
  induction fuel generalizing pos with
  | zero => cases hscan
  | succ fuel ih =>
    obtain ⟨hpos, -⟩ := scanExtensions_bounds hscan
    unfold scanExtensions at hscan ⊢
    split at hscan
    case isFalse => cases hscan
    case isTrue hend =>
      rw [if_pos hend, u16At_congr h (by omega), u16At_congr h (by omega)]
      obtain ⟨extType, htype, hscan⟩ := bind_eq_some_iff.mp hscan
      obtain ⟨extLen, hext, hscan⟩ := bind_eq_some_iff.mp hscan
      rw [htype, hext, bind_some, bind_some]
      split at hscan
      case isTrue hkey =>
        rw [if_pos hkey, ← hscan, keyshareAt, keyshareAt, u16At_congr h (by omega),
          u16At_congr h (by omega), hlen]
      case isFalse hkey =>
        rw [if_neg hkey]
        exact ih hscan

variable {tail share : Bytes} {offset : Nat} {group : UInt16}

theorem findAfterSessionId_bounds {len : Nat}
    (h : findAfterSessionId tail = some (some (group, offset, len))) :
    13 ≤ offset ∧ offset + len ≤ tail.length := by
  unfold findAfterSessionId at h
  split at h
  · cases h
  · exact scanExtensions_bounds h

/-- The bytes around a key share of the length of the new one. -/
theorem overwrite_split (hle : offset + share.length ≤ tail.length) :
    ∃ before oldShare after, tail = before ++ oldShare ++ after ∧
      overwrite tail offset share = before ++ share ++ after ∧
      before.length = offset ∧ oldShare.length = share.length := by
  refine ⟨tail.take offset, (tail.drop offset).take share.length,
    tail.drop (offset + share.length), ?_, rfl, ?_, ?_⟩
  · rw [append_assoc, ← drop_drop, take_append_drop, take_append_drop]
  · rw [length_take]
    omega
  · rw [length_take, length_drop]
    omega

/-- Another key share is found where the old one was. -/
theorem findAfterSessionId_overwrite
    (h : findAfterSessionId tail = some (some (group, offset, share.length))) :
    findAfterSessionId (overwrite tail offset share) = some (some (group, offset, share.length)) ∧
      u16At (overwrite tail offset share) 0 = u16At tail 0 := by
  obtain ⟨h13, hle⟩ := findAfterSessionId_bounds h
  obtain ⟨before, oldShare, after, htail, hover, hbefore, hold⟩ := overwrite_split hle
  have hkeep : ∀ i, i < offset → (overwrite tail offset share)[i]? = tail[i]? := by
    intro i hi
    rw [hover, htail, append_assoc, append_assoc,
      getElem?_append_left (by omega), getElem?_append_left (by omega)]
  have hlen : (overwrite tail offset share).length = tail.length := by
    rw [hover, htail]
    simp only [length_append, hold]
  refine ⟨?_, u16At_congr hkeep (by omega)⟩
  unfold findAfterSessionId at h ⊢
  rw [u16At_congr hkeep (by omega)]
  split at h
  · cases h
  case h_2 extTotal htotal => exact scanExtensions_congr hkeep hlen h

end Overwrite

/-! ## The session id -/

/-- A ServerHello up to its session id. -/
def helloFront (len version random sessionId : Bytes) : Bytes :=
  hsServerHello :: (len ++ version ++ random ++ UInt8.ofNat sessionId.length :: sessionId)

section Front

variable {len version random sessionId : Bytes}

theorem length_helloFront (hlen : len.length = 3) (hversion : version.length = 2)
    (hrandom : random.length = 32) :
    (helloFront len version random sessionId).length = 39 + sessionId.length := by
  simp only [helloFront, length_cons, length_append, hlen, hversion, hrandom]
  omega

/-- The scans find the end of the session id. -/
theorem afterSessionId_helloFront (hlen : len.length = 3) (hversion : version.length = 2)
    (hrandom : random.length = 32) (hsid : sessionId.length ≤ 255) (tail : Bytes) :
    afterSessionId (helloFront len version random sessionId ++ tail) =
      some (helloFront len version random sessionId).length := by
  have hpre : (hsServerHello :: (len ++ version ++ random)).length = 38 := by
    simp only [length_cons, length_append, hlen, hversion, hrandom]
  have hnat : (UInt8.ofNat sessionId.length).toNat = sessionId.length := by
    rw [UInt8.toNat_ofNat']
    omega
  have hbyte : (helloFront len version random sessionId ++ tail)[38]? =
      some (UInt8.ofNat sessionId.length) := by
    have hsplit : helloFront len version random sessionId ++ tail =
        (hsServerHello :: (len ++ version ++ random)) ++
          (UInt8.ofNat sessionId.length :: (sessionId ++ tail)) := by
      simp [helloFront]
    rw [hsplit, getElem?_append_right (by omega), hpre]
    rfl
  rw [afterSessionId, hbyte, map_some, hnat, length_helloFront hlen hversion hrandom]

end Front

section

variable {keyshare len template : Bytes} {bodyLen : Nat} {random : ByteArr 32}
  {client : ClientHello} {r : SynthesizedServerHello}

theorem serverHelloBodyLen_ok (h : Returns (serverHelloBodyLen template) bodyLen) :
    ∃ a b c rest, template = hsServerHello :: a :: b :: c :: rest ∧ bodyLen = ofBe24 a b c := by
  unfold serverHelloBodyLen at h
  split at h
  case h_1 t a b c rest =>
    split at h
    · exact absurd h not_returns_throw
    case isFalse ht =>
      obtain rfl := returns_pure.mp h
      exact ⟨a, b, c, rest, by rw [Decidable.not_not.mp ht], rfl⟩
  case h_2 => exact absurd h not_returns_throw

/-- A template that reaches beyond its session id. -/
theorem template_split {oldSidLen : UInt8} (hbody : Returns (serverHelloBodyLen template) bodyLen)
    (hold : template[38]? = some oldSidLen) (hle : 38 + (1 + oldSidLen.toNat) ≤ template.length) :
    ∃ len version random sessionId tail : Bytes, len.length = 3 ∧ version.length = 2 ∧
      random.length = 32 ∧ sessionId.length = oldSidLen.toNat ∧
      template = helloFront len version random sessionId ++ tail := by
  obtain ⟨a, b, c, rest, rfl, -⟩ := serverHelloBodyLen_ok hbody
  simp only [length_cons] at hle
  have hlt : 34 < rest.length := by omega
  have hbyte : rest[34] = oldSidLen := by
    have hget : rest[34]? = some oldSidLen := hold
    rw [getElem?_eq_getElem hlt] at hget
    exact Option.some.inj hget
  have hsid : ((rest.drop 35).take oldSidLen.toNat).length = oldSidLen.toNat := by
    rw [length_take, length_drop]
    omega
  have hrest : rest = rest.take 2 ++ ((rest.drop 2).take 32 ++
      (oldSidLen :: ((rest.drop 35).take oldSidLen.toNat ++
        (rest.drop 35).drop oldSidLen.toNat))) := by
    have hcons : rest.drop 34 = oldSidLen :: rest.drop 35 := by
      rw [drop_eq_getElem_cons hlt, hbyte]
    rw [take_append_drop, ← hcons, show 34 = 2 + 32 from rfl, ← drop_drop,
      take_append_drop, take_append_drop]
  refine ⟨[a, b, c], rest.take 2, (rest.drop 2).take 32, (rest.drop 35).take oldSidLen.toNat,
    (rest.drop 35).drop oldSidLen.toNat, rfl, ?_, ?_, hsid, ?_⟩
  · rw [length_take]
    omega
  · rw [length_take, length_drop]
    omega
  · rw [helloFront, hsid, UInt8.ofNat_toNat]
    simp only [cons_append, nil_append, append_assoc]
    rw [← hrest]

theorem spliceSessionId_helloFront {version oldRandom oldSid : Bytes} (hlen : len.length = 3)
    (hversion : version.length = 2) (hrandom : oldRandom.length = 32) (tail sessionId : Bytes)
    (random : ByteArr 32) :
    spliceSessionId (helloFront len version oldRandom oldSid ++ tail) sessionId random
      (39 + oldSid.length) = helloFront len version random.val sessionId ++ tail := by
  have hfront : (helloFront len version oldRandom oldSid).length = 39 + oldSid.length :=
    length_helloFront hlen hversion hrandom
  have htake : (helloFront len version oldRandom oldSid ++ tail).take 6 =
      hsServerHello :: (len ++ version) := by
    have hsplit : helloFront len version oldRandom oldSid ++ tail =
        (hsServerHello :: (len ++ version)) ++
          (oldRandom ++ UInt8.ofNat oldSid.length :: oldSid ++ tail) := by
      simp [helloFront]
    rw [hsplit, take_left']
    simp only [length_cons, length_append, hlen, hversion]
  rw [spliceSessionId, htake, drop_left' hfront]
  simp [helloFront]

/-- Setting the length keeps everything else. -/
theorem overwrite_helloFront (hlen : len.length = 3) (version random sessionId tail : Bytes)
    (n : Nat) :
    overwrite (helloFront len version random sessionId ++ tail) 1 (be24 n) =
      helloFront (be24 n) version random sessionId ++ tail := by
  have hsplit : helloFront len version random sessionId ++ tail = (hsServerHello :: len) ++
      (version ++ random ++ UInt8.ofNat sessionId.length :: sessionId ++ tail) := by
    simp [helloFront]
  have hdrop : (helloFront len version random sessionId ++ tail).drop (1 + 3) =
      version ++ random ++ UInt8.ofNat sessionId.length :: sessionId ++ tail := by
    rw [hsplit, drop_left']
    rw [length_cons, hlen]
  rw [overwrite, length_be24, hdrop]
  simp [helloFront]

/-- The new ServerHello has the new random and session id, and what followed the old one. -/
theorem rewriteRandomAndSessionId_ok {sessionId message : Bytes}
    (h : Returns (rewriteRandomAndSessionId template sessionId random) message) :
    ∃ len version oldRandom oldSid tail : Bytes, len.length = 3 ∧ version.length = 2 ∧
      oldRandom.length = 32 ∧ oldSid.length ≤ 255 ∧
      template = helloFront len version oldRandom oldSid ++ tail ∧
      message = helloFront (be24 (message.length - 4)) version random.val sessionId ++ tail := by
  unfold rewriteRandomAndSessionId at h
  obtain ⟨bodyLen, hbody, h⟩ := returns_bind.mp h
  obtain ⟨oldSidLen, hold, h⟩ := returns_bind.mp h
  obtain ⟨_, hle, h⟩ := returns_bind.mp h
  have hmessage := returns_pure.mp h
  have hlt := oldSidLen.toNat_lt
  obtain ⟨len, version, oldRandom, oldSid, tail, hlen, hversion, hrandom, hsid, rfl⟩ :=
    template_split hbody (Option.some.inj (returns_okOr.mp hold))
      (Nat.le_of_not_lt (returns_failIf.mp hle))
  have hend : 38 + (1 + oldSidLen.toNat) = 39 + oldSid.length := by omega
  rw [hend, spliceSessionId_helloFront hlen hversion hrandom, overwrite_helloFront hlen] at hmessage
  have hsame : (helloFront len version random.val sessionId ++ tail).length = message.length := by
    rw [← hmessage, length_append, length_append, length_helloFront hlen hversion random.length_val,
      length_helloFront (length_be24 _) hversion random.length_val]
  rw [hsame] at hmessage
  exact ⟨len, version, oldRandom, oldSid, tail, hlen, hversion, hrandom, by omega, rfl,
    hmessage.symm⟩

/-! ## The synthesis -/

/-- What the synthesis checked when it returns. -/
structure Synthesized (template keyshare : Bytes) (client : ClientHello) (random : ByteArr 32)
    (r : SynthesizedServerHello) : Prop where
  offersTls13 : client.offersTls13 = true
  sessionId_le : client.sessionId.length ≤ 32
  suite : ∃ id, serverHelloCipherSuite template = some id ∧
    CipherSuite.fromU16 id = some r.suite ∧ client.cipherOffered id = true
  group : client.keyshareGroupOffered r.keyShareGroup = true
  message : ∃ offset message offset' len group,
    findServerKeyshare template = some (some (r.keyShareGroup, offset, keyshare.length)) ∧
    Returns (rewriteRandomAndSessionId template client.sessionId random) message ∧
    findServerKeyshare message = some (some (group, offset', len)) ∧
    copyInto message offset' len keyshare = some r.message

theorem synthesizeServerHello_ok
    (h : Returns (synthesizeServerHello template client keyshare random) r) :
    Synthesized template keyshare client random r := by
  unfold synthesizeServerHello at h
  obtain ⟨_, -, h⟩ := returns_bind.mp h
  obtain ⟨_, htls13, h⟩ := returns_bind.mp h
  obtain ⟨_, hsid, h⟩ := returns_bind.mp h
  obtain ⟨id, hid, h⟩ := returns_bind.mp h
  obtain ⟨suite, hsuite, h⟩ := returns_bind.mp h
  obtain ⟨_, hoffered, h⟩ := returns_bind.mp h
  obtain ⟨⟨group, offset, len⟩, hfound, h⟩ := returns_bind.mp h
  obtain ⟨_, hgroup, h⟩ := returns_bind.mp h
  obtain ⟨_, hlen, h⟩ := returns_bind.mp h
  obtain ⟨message, hmessage, h⟩ := returns_bind.mp h
  obtain ⟨⟨group', offset', len'⟩, hfound', h⟩ := returns_bind.mp h
  obtain ⟨message', hcopy, h⟩ := returns_bind.mp h
  obtain rfl := returns_pure.mp h
  obtain rfl : len = keyshare.length := Decidable.not_not.mp (returns_failIf.mp hlen)
  exact {
    offersTls13 := Bool.of_not_eq_false (returns_failIf.mp htls13)
    sessionId_le := Nat.le_of_not_lt (returns_failIf.mp hsid)
    suite := ⟨id, Option.some.inj (returns_okOr.mp hid), Option.some.inj (returns_okOr.mp hsuite),
      Bool.of_not_eq_false (returns_failIf.mp hoffered)⟩
    group := Bool.of_not_eq_false (returns_failIf.mp hgroup)
    message := ⟨offset, message, offset', len', group', returns_okOr.mp hfound, hmessage,
      returns_okOr.mp hfound', returns_option.mp hcopy⟩ }

theorem overwrite_append (front tail new : Bytes) (offset : Nat) :
    overwrite (front ++ tail) (front.length + offset) new = front ++ overwrite tail offset new := by
  rw [overwrite, take_length_add_append, Nat.add_assoc, drop_length_add_append, overwrite]
  simp only [append_assoc]

theorem map_shifted_eq_some {d offset len : Nat} {group : UInt16}
    {found : Option (Option (UInt16 × Nat × Nat))}
    (h : found.map (Option.map (shifted d)) = some (some (group, offset, len))) :
    ∃ o, found = some (some (group, o, len)) ∧ offset = d + o := by
  rcases found with _ | _ | ⟨g, o, l⟩
  · cases h
  · cases h
  · cases h
    exact ⟨o, rfl, rfl⟩

theorem CipherSuite.toU16_of_fromU16 {id : UInt16} {suite : CipherSuite}
    (h : CipherSuite.fromU16 id = some suite) : suite.toU16 = id := by
  unfold CipherSuite.fromU16 at h
  split at h
  · cases h
    exact Eq.symm ‹_›
  split at h
  · cases h
    exact Eq.symm ‹_›
  split at h
  · cases h
    exact Eq.symm ‹_›
  · cases h

/-- The template around its random, session id and key share, and the new ServerHello. -/
theorem Synthesized.frame (h : Synthesized template keyshare client random r) :
    ∃ len version oldRandom oldSid before oldShare after : Bytes,
      len.length = 3 ∧ version.length = 2 ∧ oldRandom.length = 32 ∧ oldSid.length ≤ 255 ∧
      oldShare.length = keyshare.length ∧
      template = helloFront len version oldRandom oldSid ++ (before ++ oldShare ++ after) ∧
      r.message = helloFront (be24 (r.message.length - 4)) version random.val client.sessionId ++
        (before ++ keyshare ++ after) ∧
      findServerKeyshare template =
        some (some (r.keyShareGroup, 39 + oldSid.length + before.length, keyshare.length)) ∧
      findServerKeyshare r.message = some (some
        (r.keyShareGroup, 39 + client.sessionId.length + before.length, keyshare.length)) ∧
      serverHelloCipherSuite template = some r.suite.toU16 ∧
      serverHelloCipherSuite r.message = some r.suite.toU16 := by
  obtain ⟨id, hid, hsuite, -⟩ := h.suite
  obtain ⟨offset, message, offset', len', group', hfound, hmessage, hfound', hcopy⟩ := h.message
  obtain ⟨len, version, oldRandom, oldSid, tail, hlen, hversion, hrandom, hold, rfl, hm⟩ :=
    rewriteRandomAndSessionId_ok hmessage
  obtain ⟨n, hn⟩ : ∃ n, n = message.length - 4 := ⟨_, rfl⟩
  rw [← hn] at hm
  subst hm
  have hsid := h.sessionId_le
  have hafter := afterSessionId_helloFront hlen hversion hrandom hold tail
  have hafter' : ∀ tail', afterSessionId (helloFront (be24 n) version random.val
      client.sessionId ++ tail') = _ :=
    afterSessionId_helloFront (length_be24 _) hversion random.length_val (by omega)
  -- both scans find the key share at one place after the session id
  rw [findServerKeyshare_append hafter] at hfound
  obtain ⟨o, ho, rfl⟩ := map_shifted_eq_some hfound
  rw [findServerKeyshare_append (hafter' tail)] at hfound'
  obtain ⟨o', ho', rfl⟩ := map_shifted_eq_some hfound'
  obtain ⟨rfl, rfl, rfl⟩ : group' = r.keyShareGroup ∧ o' = o ∧ len' = keyshare.length := by
    rw [ho] at ho'
    cases ho'
    exact ⟨rfl, rfl, rfl⟩
  rw [copyInto, if_pos rfl, overwrite_append] at hcopy
  have hmessage := Option.some.inj hcopy
  obtain ⟨hover, hsame⟩ := findAfterSessionId_overwrite ho
  obtain ⟨before, oldShare, after, htail, hsplit, hbefore, hshare⟩ :=
    overwrite_split (findAfterSessionId_bounds ho).2
  have hsize : r.message.length - 4 = n := by
    rw [hn, ← hmessage, hsplit, htail]
    simp only [length_append, hshare]
  have hsuite' : u16At tail 0 = some r.suite.toU16 := by
    rw [← serverHelloCipherSuite_append hafter, hid, CipherSuite.toU16_of_fromU16 hsuite]
  refine ⟨len, version, oldRandom, oldSid, before, oldShare, after, hlen, hversion, hrandom, hold,
    hshare, ?_⟩
  rw [hsize, ← htail, ← hsplit, hbefore, ← hmessage, ← length_helloFront hlen hversion hrandom,
    ← length_helloFront (length_be24 n) hversion random.length_val]
  refine ⟨rfl, rfl, ?_, ?_, ?_, ?_⟩
  · rw [findServerKeyshare_append hafter, ho]
    rfl
  · rw [findServerKeyshare_append (hafter' _), hover]
    rfl
  · rw [serverHelloCipherSuite_append hafter, hsuite']
  · rw [serverHelloCipherSuite_append (hafter' _), hsame, hsuite']

end

/-- **The synthesis rewrites only what it must.** The new ServerHello is the template with its
length, the random that was drawn, the session id of the client and the key share. The suite is
that of the template, and the key share is found with the group of the template, shifted by the
difference of the session ids. -/
theorem server_hello_frame (template keyshare : Bytes) (client : ClientHello)
    (random : ByteArr 32) (r : SynthesizedServerHello) (htemplate : template.length ≤ 65535)
    (h : Returns (synthesizeServerHello template client keyshare random) r) :
    ∃ len version oldRandom oldSid before oldShare after : Bytes,
      len.length = 3 ∧ version.length = 2 ∧ oldRandom.length = 32 ∧ oldSid.length ≤ 255 ∧
      oldShare.length = keyshare.length ∧
      template = helloFront len version oldRandom oldSid ++ (before ++ oldShare ++ after) ∧
      r.message = helloFront (be24 (r.message.length - 4)) version random.val client.sessionId ++
        (before ++ keyshare ++ after) ∧
      r.message.length - 4 < 16777216 ∧
      findServerKeyshare template =
        some (some (r.keyShareGroup, 39 + oldSid.length + before.length, keyshare.length)) ∧
      findServerKeyshare r.message = some (some
        (r.keyShareGroup, 39 + client.sessionId.length + before.length, keyshare.length)) ∧
      serverHelloCipherSuite template = some r.suite.toU16 ∧
      serverHelloCipherSuite r.message = some r.suite.toU16 := by
  have hs := synthesizeServerHello_ok h
  have hsid := hs.sessionId_le
  obtain ⟨len, version, oldRandom, oldSid, before, oldShare, after, hlen, hversion, hrandom, hold,
    hshare, ht, hm, hrest⟩ := hs.frame
  have hsize : r.message.length - 4 < 16777216 := by
    have htl := congrArg List.length ht
    have hml := congrArg List.length hm
    rw [length_append, length_helloFront hlen hversion hrandom, length_append, length_append] at htl
    rw [length_append, length_helloFront (length_be24 _) hversion random.length_val,
      length_append, length_append] at hml
    omega
  exact ⟨len, version, oldRandom, oldSid, before, oldShare, after, hlen, hversion, hrandom, hold,
    hshare, ht, hm, hsize, hrest⟩

/-- A template with a session id, another extension before the key share and one after it. -/
def sampleTemplate : Bytes :=
  handshakeMessage hsServerHello
    (be16 0x0303 ++ (zeros 32).val ++ [1, 9] ++ be16 0x1301 ++ [0] ++ be16 24 ++
      (be16 0x002b ++ be16 2 ++ be16 0x0304) ++ (be16 0x0033 ++ be16 6 ++ be16 0x001d ++ be16 2 ++
        [0xaa, 0xbb]) ++ (be16 0x0a0a ++ be16 4 ++ [1, 2, 3, 4]))

def sampleClient : ClientHello where
  serverName := none
  random := zeros 32
  sessionId := [5, 6, 7]
  cipherSuites := [0x1301]
  keyShares := [⟨0x001d, [1, 2]⟩]
  signatureSchemes := []
  offersTls13 := true
  alpn := []
  rawMessage := []

theorem server_hello_frame_sample :
    ∃ r, Returns (synthesizeServerHello sampleTemplate sampleClient [0xcc, 0xdd] (zeros 32)) r ∧
      r.message.length - 4 < 16777216 ∧
      ∃ front before after : Bytes, r.message = front ++ (before ++ [0xcc, 0xdd] ++ after) := by
  obtain ⟨r, hr⟩ := isSome_iff_exists.mp (show (synthesizeServerHello sampleTemplate
    sampleClient [0xcc, 0xdd] (zeros 32)).value?.isSome = true by decide +kernel)
  have hreturns := returns_of_value? hr
  obtain ⟨_, _, _, _, before, _, after, -, -, -, -, -, -, hm, hsize, -⟩ := server_hello_frame
    sampleTemplate [0xcc, 0xdd] sampleClient (zeros 32) r (by decide) hreturns
  exact ⟨r, hreturns, hsize, _, before, after, hm⟩

end Xhttp.Tls
