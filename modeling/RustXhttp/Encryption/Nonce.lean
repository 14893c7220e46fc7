import RustXhttp.Encryption.Agreement

/-!
# A sender never repeats a nonce

The state that a handshake leaves for the server's records has already sealed the ticket and the
padding of the hello. It counts on from there, and the record sealed after the all-ones nonce (with
nonce zero) derives the next key.

* `nonceVal`: the number that a nonce counts; `nonceVal_increment`, `nonceVal_increment_max`.
* `Sealed`: one encryption, with its key and nonce; `Sealed.Made`: the AEAD was called with them.
* `NonceInv`: the nonces used under the current key are between one and the counter. The record
  that wraps uses nonce zero, which is outside, and ends the use of its key (`NonceInv.seal`).
* `nonces_unique`: in every run of the handshake and after it, no two encryptions use one key and
  one nonce.
-/

namespace Xhttp.Encryption

open List
open Prog (Obeys)

/-! ## The counter -/

/-- The number that bytes stand for, the lowest byte first. -/
def leNat : Bytes → Nat
  | [] => 0
  | b :: bs => b.toNat + 256 * leNat bs

/-- The number that a nonce counts. -/
def nonceVal (nonce : ByteArr 12) : Nat := leNat nonce.val.reverse

/-- The counter goes up by one, unless every byte is `0xff`. -/
theorem leNat_incrementRev (bs : Bytes) :
    leNat (incrementRev bs) = leNat bs + 1 ∨ bs = List.replicate bs.length 0xff := by
  induction bs with
  | nil => exact .inr rfl
  | cons b bs ih =>
    have hb := b.toNat_lt
    by_cases hne : b + 1 ≠ 0
    · have hval : (b + 1).toNat = b.toNat + 1 := by
        have hlt : b.toNat + 1 < 256 := by
          refine Nat.lt_of_le_of_ne hb fun he => hne ?_
          apply UInt8.toNat_inj.mp
          rw [UInt8.toNat_add, UInt8.toNat_one, he]
          rfl
        rw [UInt8.toNat_add, UInt8.toNat_one, Nat.mod_eq_of_lt hlt]
      rw [incrementRev, if_pos hne, leNat, leNat, hval]
      exact .inl (by omega)
    · have hzero : b + 1 = 0 := Classical.not_not.mp hne
      have hff : b = 0xff := by
        rw [← UInt8.add_sub_cancel b 1, hzero]
        rfl
      rw [incrementRev, if_neg hne, leNat, leNat, hzero, hff]
      rcases ih with ih | ih
      · rw [ih]
        exact .inl (by
          show 0 + 256 * (leNat bs + 1) = 255 + 256 * leNat bs + 1
          omega)
      · refine .inr ?_
        rw [length_cons, replicate_succ, ← ih]

theorem nonceVal_increment {nonce : ByteArr 12} (h : nonce ≠ maxNonce) :
    nonceVal (incrementNonce nonce) = nonceVal nonce + 1 := by
  unfold nonceVal incrementNonce
  dsimp only
  rw [reverse_reverse]
  refine (leNat_incrementRev nonce.val.reverse).resolve_right fun hff => h ?_
  apply Subtype.ext
  rw [length_reverse, nonce.property] at hff
  rw [← reverse_reverse nonce.val, hff, reverse_replicate]
  rfl

theorem nonceVal_increment_max : nonceVal (incrementNonce maxNonce) = 0 := by decide

/-! ## Which keys and nonces are used -/

/-- The key and the nonce of an encryption. -/
abbrev Use := ByteArr 32 × ByteArr 12

/-- An encryption: the key and the nonce, the plaintext, and the ciphertext behind its header. -/
structure Sealed where
  key : ByteArr 32
  nonce : ByteArr 12
  plaintext : Bytes
  record : Bytes
  deriving DecidableEq

def Sealed.use (s : Sealed) : Use := (s.key, s.nonce)

/-- The AEAD was called with this key and nonce, and gave what was written. -/
def Sealed.Made (C : Crypto) (kind : CipherKind) (s : Sealed) : Prop :=
  ∃ header ct, s.record = header ++ ct ∧
    C.encrypt kind s.key s.nonce s.plaintext header = some ct

/-- What a state logs when it seals `m`: an encryption, if it succeeded. -/
def AeadState.log (s : AeadState) (m : Bytes) : Except RecordError Bytes → List Sealed
  | .ok record => [⟨s.key, incrementNonce s.nonce, m, record⟩]
  | .error _ => []

section

variable (C : Crypto)

/-- Messages sealed one after the other, as in the handshake. -/
def AeadState.sealAll (s : AeadState) : List Bytes → Except RecordError (AeadState × List Sealed)
  | [] => .ok (s, [])
  | m :: ms => do
    let r := s.sealRaw C m [] none
    let ct ← r.2
    let rest ← sealAll r.1 ms
    return (rest.1, s.log m (.ok ct) ++ rest.2)

/-- The encryptions of a sequence of calls of `RecordCipher::seal`. -/
def RecordCipher.sealed (c : RecordCipher) : List Bytes → List Sealed
  | [] => []
  | m :: ms =>
    let r := c.seal C m
    c.state.log m r.2 ++ sealed r.1 ms

/-- The state after a sequence of calls of `RecordCipher::seal`. -/
def RecordCipher.after (c : RecordCipher) : List Bytes → RecordCipher
  | [] => c
  | m :: ms => after (c.seal C m).1 ms

/-- The keys that `derive_key` returns in a sequence of calls of `RecordCipher::seal`. -/
def RecordCipher.newKeys (c : RecordCipher) : List Bytes → List (ByteArr 32)
  | [] => []
  | m :: ms =>
    let r := c.seal C m
    let new := match r.2 with
      | .ok record => if c.state.nonce = maxNonce then [deriveKey record c.state.unitedKey] else []
      | .error _ => []
    new ++ newKeys r.1 ms

end

section

variable {C : Crypto}

theorem sealRaw_fst (s : AeadState) (m aad : Bytes) (nonce : Option (ByteArr 12)) :
    (s.sealRaw C m aad nonce).1 = (s.next nonce).2 := by
  simp only [AeadState.sealRaw]
  split <;> rfl

/-- A raw seal that succeeds is a call of the AEAD with the next nonce. -/
theorem sealRaw_encrypts {s s' : AeadState} {m aad ct : Bytes}
    (h : s.sealRaw C m aad none = (s', .ok ct)) :
    C.encrypt s.kind s.key (incrementNonce s.nonce) m aad = some ct := by
  simp only [AeadState.sealRaw, AeadState.next] at h
  split at h
  case h_1 ct' henc =>
    cases h
    exact henc
  case h_2 => cases h

/-- What `RecordCipher::seal` logs was made, and it keeps the cipher. -/
theorem RecordCipher.seal_made (c : RecordCipher) (m : Bytes) :
    (c.seal C m).1.state.kind = c.state.kind ∧
      ∀ s ∈ c.state.log m (c.seal C m).2, s.Made C c.state.kind := by
  unfold RecordCipher.seal
  split
  · exact ⟨rfl, nofun⟩
  split
  · exact ⟨rfl, nofun⟩
  case h_2 header hheader =>
    have hfst := sealRaw_fst (C := C) c.state m header none
    dsimp only
    split
    case h_1 s e hseal =>
      rw [hseal] at hfst
      cases hfst
      exact ⟨rfl, nofun⟩
    case h_2 s ct hseal =>
      rw [hseal] at hfst
      cases hfst
      refine ⟨by unfold AeadState.rekeyed; split <;> rfl, ?_⟩
      intro s hs
      rw [mem_singleton.mp hs]
      exact ⟨header, ct, rfl, sealRaw_encrypts hseal⟩

theorem RecordCipher.sealed_made (c : RecordCipher) (ms : List Bytes) :
    ∀ s ∈ c.sealed C ms, s.Made C c.state.kind := by
  induction ms generalizing c with
  | nil => exact nofun
  | cons m ms ih =>
    obtain ⟨hkind, hmade⟩ := c.seal_made (C := C) m
    intro s hs
    rcases mem_append.mp hs with hs | hs
    · exact hmade s hs
    · rw [← hkind]
      exact ih _ s hs

/-- A seal either fails before it touches the state, or uses the next nonce; the AEAD does not fail
for messages of the size of a record. -/
theorem RecordCipher.seal_cases (hC : C.Lawful) (c : RecordCipher) (m : Bytes) :
    (∃ e, c.seal C m = (c, .error e)) ∨ ∃ record, c.seal C m =
      (⟨(c.state.next none).2.rekeyed (decide (c.state.nonce = maxNonce)) record⟩, .ok record) := by
  by_cases hlong : m.length > 8192
  · rw [RecordCipher.seal, if_pos hlong]
    exact .inl ⟨_, rfl⟩
  cases hheader : encodeHeader (m.length + tagLen) with
  | error e =>
    rw [RecordCipher.seal, if_neg hlong, hheader]
    exact .inl ⟨e, rfl⟩
  | ok header =>
    have hlen : header.length = 5 := by
      unfold encodeHeader at hheader
      split at hheader
      · cases hheader
      · cases hheader
        rfl
    obtain ⟨ct, hct⟩ := sealRaw_ok hC c.state m header none (by omega) (by omega)
    rw [RecordCipher.seal, if_neg hlong, hheader]
    exact .inr ⟨header ++ ct, by simp only [hct]⟩

/-! ## The invariant -/

/-- `used` are the encryptions made so far and `keys` the keys they used, the current one included;
those under the current key have nonces from one up to the counter. -/
structure NonceInv (s : AeadState) (used : List Use) (keys : List (ByteArr 32)) : Prop where
  current : s.key ∈ keys
  known : ∀ u ∈ used, u.1 ∈ keys
  counted : ∀ u ∈ used, u.1 = s.key → 1 ≤ nonceVal u.2 ∧ nonceVal u.2 ≤ nonceVal s.nonce
  once : used.Nodup

theorem NonceInv.new (context unitedKey : Bytes) (kind : CipherKind) :
    NonceInv (.new context unitedKey kind) [] [(AeadState.new context unitedKey kind).key] :=
  ⟨by simp, by simp, by simp, nodup_nil⟩

variable {s : AeadState} {used : List Use} {keys : List (ByteArr 32)}

/-- The next nonce is not used under the current key: it is above the counter, or it is zero. -/
theorem NonceInv.next_unused (h : NonceInv s used keys) :
    (s.key, incrementNonce s.nonce) ∉ used := by
  intro hmem
  obtain ⟨hpos, hle⟩ := h.counted _ hmem rfl
  dsimp only at hpos hle
  by_cases hmax : s.nonce = maxNonce
  · rw [hmax, nonceVal_increment_max] at hpos
    omega
  · rw [nonceVal_increment hmax] at hle
    omega

theorem NonceInv.nodup_snoc (h : NonceInv s used keys) :
    (used ++ [(s.key, incrementNonce s.nonce)]).Nodup := by
  rw [nodup_append]
  refine ⟨h.once, by simp, ?_⟩
  rintro u hu _ hv rfl
  rw [mem_singleton.mp hv] at hu
  exact h.next_unused hu

theorem NonceInv.known_snoc (h : NonceInv s used keys) :
    ∀ u ∈ used ++ [(s.key, incrementNonce s.nonce)], u.1 ∈ keys := by
  intro u hu
  rcases mem_append.mp hu with hu | hu
  · exact h.known u hu
  · rw [mem_singleton.mp hu]
    exact h.current

/-- An encryption that does not wrap the counter. -/
theorem NonceInv.advance (h : NonceInv s used keys) (hmax : s.nonce ≠ maxNonce) :
    NonceInv { s with nonce := incrementNonce s.nonce }
      (used ++ [(s.key, incrementNonce s.nonce)]) keys := by
  have hval := nonceVal_increment hmax
  refine ⟨h.current, h.known_snoc, ?_, h.nodup_snoc⟩
  intro u hu hkey
  rcases mem_append.mp hu with hu | hu
  · obtain ⟨hpos, hle⟩ := h.counted u hu hkey
    exact ⟨hpos, by dsimp only; omega⟩
  · rw [mem_singleton.mp hu]
    exact ⟨by dsimp only; omega, Nat.le_refl _⟩

/-- The encryption that wraps the counter is the last one under its key. -/
theorem NonceInv.rekey (h : NonceInv s used keys) {key : ByteArr 32} (hnew : key ∉ keys) :
    NonceInv { s with nonce := incrementNonce s.nonce, key := key }
      (used ++ [(s.key, incrementNonce s.nonce)]) (keys ++ [key]) := by
  refine ⟨by simp, fun u hu => mem_append_left _ (h.known_snoc u hu), ?_, h.nodup_snoc⟩
  intro u hu hkey
  dsimp only at hkey
  exact absurd (hkey ▸ h.known_snoc u hu) hnew

variable {ms : List Bytes} {s' : AeadState} {log : List Sealed}

/-- One call of `RecordCipher::seal`, and the rest of the calls. -/
theorem NonceInv.after (hC : C.Lawful) {c : RecordCipher} (h : NonceInv c.state used keys)
    (hkeys : (keys ++ c.newKeys C ms).Nodup) :
    NonceInv (c.after C ms).state (used ++ (c.sealed C ms).map Sealed.use)
      (keys ++ c.newKeys C ms) := by
  induction ms generalizing c used keys with
  | nil =>
    simp only [RecordCipher.sealed, RecordCipher.newKeys, append_nil, RecordCipher.after, map_nil]
    exact h
  | cons m ms ih =>
    simp only [RecordCipher.newKeys, RecordCipher.sealed, RecordCipher.after, map_append]
      at hkeys ⊢
    obtain ⟨e, hs⟩ | ⟨record, hs⟩ := c.seal_cases hC m
    · simp only [hs, AeadState.log, map_nil, nil_append] at hkeys ⊢
      exact ih h hkeys
    · rw [hs] at hkeys ⊢
      simp only [AeadState.log, map_singleton, Sealed.use] at hkeys ⊢
      rw [← append_assoc] at hkeys ⊢
      rw [← append_assoc]
      by_cases hmax : c.state.nonce = maxNonce
      · rw [if_pos hmax] at hkeys ⊢
        have hnew : deriveKey record c.state.unitedKey ∉ keys := by
          have hdisjoint := (nodup_append.mp (nodup_append.mp hkeys).1).2.2
          exact fun hmem => hdisjoint _ hmem _ (mem_singleton.mpr rfl) rfl
        refine ih ?_ hkeys
        rw [decide_eq_true hmax]
        exact h.rekey hnew
      · rw [if_neg hmax, append_nil] at hkeys ⊢
        refine ih ?_ hkeys
        rw [decide_eq_false hmax]
        exact h.advance hmax

/-- The first of several messages. -/
theorem sealAll_cons {m : Bytes} (h : s.sealAll C (m :: ms) = .ok (s', log)) :
    ∃ ct rest, C.encrypt s.kind s.key (incrementNonce s.nonce) m [] = some ct ∧
      ({ s with nonce := incrementNonce s.nonce } : AeadState).sealAll C ms = .ok (s', rest) ∧
      log = ⟨s.key, incrementNonce s.nonce, m, ct⟩ :: rest := by
  have hfst := sealRaw_fst (C := C) s m [] none
  rw [AeadState.sealAll] at h
  rcases hr : s.sealRaw C m [] none with ⟨s₁, _ | ct⟩
  · rw [hr] at h
    cases h
  rw [hr] at h hfst
  obtain rfl : s₁ = { s with nonce := incrementNonce s.nonce } := hfst
  cases hrest : ({ s with nonce := incrementNonce s.nonce } : AeadState).sealAll C ms with
  | error e =>
    simp only [hrest, bind, Except.bind] at h
    cases h
  | ok rest =>
    simp only [hrest, bind, Except.bind] at h
    cases h
    exact ⟨ct, rest.2, sealRaw_encrypts hr, rfl, rfl⟩

/-- The messages of a handshake, which are far from the end of the counter. -/
theorem NonceInv.messages (h : NonceInv s used keys) (hseal : s.sealAll C ms = .ok (s', log))
    (hroom : nonceVal s.nonce + ms.length ≤ nonceVal maxNonce) :
    NonceInv s' (used ++ log.map Sealed.use) keys ∧ s'.kind = s.kind ∧
      ∀ e ∈ log, e.Made C s.kind := by
  induction ms generalizing s used log with
  | nil =>
    cases hseal
    rw [map_nil, append_nil]
    exact ⟨h, rfl, nofun⟩
  | cons m ms ih =>
    obtain ⟨ct, rest, henc, hrest, rfl⟩ := sealAll_cons hseal
    rw [length_cons] at hroom
    have hmax : s.nonce ≠ maxNonce := by
      intro he
      rw [he] at hroom
      omega
    have hval := nonceVal_increment hmax
    obtain ⟨hinv, hkind, hmade⟩ := ih (h.advance hmax) hrest (by dsimp only; omega)
    refine ⟨?_, hkind, forall_mem_cons.mpr ⟨⟨[], ct, rfl, henc⟩, hmade⟩⟩
    rw [append_assoc] at hinv
    exact hinv

end

/-! ## The seals of the handshake -/

/-- The hello is sealed message by message. -/
theorem sealHello_eq (C : Crypto) (s : AeadState) (ticket : ByteArr 16) :
    sealHello C s ticket = (s.sealAll C [ticket.val, be16 93, List.replicate 77 0]).map
      fun r => (r.1, (r.2.map Sealed.record).flatten) := by
  simp only [sealHello, AeadState.sealAll, show helloPaddingLen - 18 = 93 from rfl,
    show helloPaddingLen - 34 = 77 from rfl, bind, Except.bind, pure, Except.pure]
  split
  · rfl
  split
  · rfl
  split
  · rfl
  · simp [Except.map, AeadState.log]

/-- What a handshake that returned `result` after the writes `sent` sealed with the state that it
leaves for the records: from a new state `start`, the messages of the hello after a key exchange,
whose ciphertexts end the one write; nothing with a ticket. -/
structure HandshakeSeals (C : Crypto) (sent : List Bytes) (result : HandshakeResult)
    (start : AeadState) (log : List Sealed) : Prop where
  fresh : ∃ context unitedKey, start = .new context unitedKey start.kind
  hello : result.zeroRtt = false → ∃ ticket response,
    start.sealAll C [ticket, be16 93, List.replicate 77 0] = .ok (result.encrypt.state, log) ∧
      sent = [response ++ (log.map Sealed.record).flatten]
  none : result.zeroRtt = true → log = [] ∧ start = result.encrypt.state

/-- The writes of a handshake. -/
def sendLog : Prog.Protocol Effect Effect.Reply (List Bytes) where
  guard _ _ := True
  next sent e :=
    match e with
    | .send bytes => fun _ s' => s' = sent ++ [bytes]
    | _ => fun _ s' => s' = sent

/-- A handshake that returns has sealed what `HandshakeSeals` says. -/
def SealsHello (C : Crypto) (r : Except HandshakeError HandshakeResult) (sent : List Bytes) :
    Prop :=
  ∀ result, r = .ok result → ∃ start log, HandshakeSeals C sent result start log

section

variable (C : Crypto) (K : KeyExchange) (server : Server) (draws : Draws)

section

variable {C} {sent : List Bytes}

theorem sealsHello_read {n : Nat} {stage : String} {f : ByteArr n → Handshake HandshakeResult}
    (h : ∀ bytes, Obeys sendLog sent (f bytes) (SealsHello C)) :
    Obeys sendLog sent (readExactStage n stage >>= f) (SealsHello C) :=
  obeys_read trivial (fun _ _ hn => hn) (fun _ => nofun) h

theorem sealsHello_send {bytes : Bytes} {f : Unit → Handshake HandshakeResult}
    (h : Obeys sendLog (sent ++ [bytes]) (f ()) (SealsHello C)) :
    Obeys sendLog sent (sendBytes bytes >>= f) (SealsHello C) :=
  obeys_send trivial (fun _ _ hn => hn) (fun _ => nofun) h

theorem sealsHello_ofExcept {α : Type} {r : Except HandshakeError α}
    {f : α → Handshake HandshakeResult}
    (h : ∀ a, r = .ok a → Obeys sendLog sent (f a) (SealsHello C)) :
    Obeys sendLog sent (Prog.ofExcept r >>= f) (SealsHello C) :=
  Prog.obeys_ofExcept (fun _ _ => nofun) h

end

theorem sealsHello_zeroRtt (iv : ByteArr 16) (nfsKey : ByteArr 32) (nfsAead : AeadState)
    (kind : CipherKind) :
    Obeys sendLog [] (server.handshakeZeroRtt C draws iv nfsKey nfsAead kind)
      (SealsHello C) := by
  unfold Server.handshakeZeroRtt
  split
  · nofun
  refine sealsHello_read fun encryptedTicket => ?_
  refine sealsHello_ofExcept fun ticketPlain _ => ?_
  split
  case isFalse => nofun
  refine Prog.obeys_bind (Prog.obeys_perform trivial ?_)
  rintro now _ rfl
  refine ⟨trivial, ?_⟩
  rintro _ _ rfl
  refine Prog.obeys_perform trivial ?_
  rintro pfsKey _ rfl
  split
  · exact sealsHello_send nofun
  · nofun
  · refine sealsHello_send ?_
    rintro result ⟨⟩
    exact ⟨_, [], ⟨⟨_, _, rfl⟩, nofun, fun _ => ⟨rfl, rfl⟩⟩⟩

theorem obeys_createTicket {α : Type} {config : EncryptionConfig} {pfsKey : ByteArr 64}
    {sent : List Bytes} {f : ByteArr 16 × Nat → Handshake α}
    {Q : Except HandshakeError α → List Bytes → Prop} (h : ∀ r, Obeys sendLog sent (f r) Q) :
    Obeys sendLog sent (createTicket config draws pfsKey >>= f) Q := by
  refine Prog.obeys_bind ?_
  simp only [createTicket]
  split
  · refine Prog.obeys_perform trivial ?_
    rintro _ _ rfl
    exact h _
  · exact h _

theorem ok_of_mapError {ε ε' α : Type} {f : ε → ε'} {r : Except ε α} {a : α}
    (h : r.mapError f = .ok a) : r = .ok a := by
  cases r with
  | ok b => cases h; rfl
  | error e => cases h

theorem ok_of_map {ε α β : Type} {f : α → β} {r : Except ε α} {b : β}
    (h : r.map f = .ok b) : ∃ a, r = .ok a ∧ f a = b := by
  cases r with
  | ok a => cases h; exact ⟨a, rfl, rfl⟩
  | error e => cases h

theorem sealsHello_oneRtt (iv : ByteArr 16) (nfsKey : ByteArr 32) (nfsAead : AeadState)
    (kind : CipherKind) (length : Nat) :
    Obeys sendLog [] (server.handshakeOneRtt C K draws iv nfsKey nfsAead kind length)
      (SealsHello C) := by
  unfold Server.handshakeOneRtt
  refine sealsHello_read fun encryptedPfs => ?_
  refine sealsHello_ofExcept fun pfsPlain _ => ?_
  split
  · nofun
  refine sealsHello_ofExcept fun response _ => ?_
  refine sealsHello_ofExcept fun sealedResponse _ => ?_
  refine obeys_createTicket draws fun ticket => ?_
  refine sealsHello_ofExcept fun hello hhello => ?_
  obtain ⟨sealed, hseal, rfl⟩ := ok_of_map (sealHello_eq C _ _ ▸ ok_of_mapError hhello)
  refine sealsHello_send ?_
  refine sealsHello_read fun paddingLength => ?_
  refine sealsHello_ofExcept fun lengthBytes _ => ?_
  split
  · nofun
  refine sealsHello_read fun padding => ?_
  refine sealsHello_ofExcept fun _ _ => ?_
  rintro result ⟨⟩
  exact ⟨_, _, ⟨⟨_, _, rfl⟩, fun _ => ⟨_, _, hseal, rfl⟩, nofun⟩⟩

theorem sealsHello_handshake : Obeys sendLog [] (server.handshake C K draws) (SealsHello C) := by
  unfold Server.handshake
  refine sealsHello_read fun ivAndRelays => ?_
  refine sealsHello_ofExcept fun nfsKey _ => ?_
  refine sealsHello_read fun encryptedLength => ?_
  refine sealsHello_ofExcept ?_
  rintro ⟨nfsAead, kind, lengthBytes⟩ _
  dsimp only
  split
  · exact sealsHello_zeroRtt C server draws _ _ _ _
  · split
    · nofun
    · exact sealsHello_oneRtt C K server draws _ _ _ _ _

end

/-- **No nonce is used twice under one key.** Whatever a handshake reads and whatever its requests
are answered: if it returns, the encryptions that it made with the state of the server's records
(`HandshakeSeals`), followed by those of any sequence of records, sealed or refused, are pairwise
different in key or nonce, if no key that is derived on the way was used before. The keys and nonces
are those that the AEAD was called with for the ciphertexts. -/
theorem nonces_unique (C : Crypto) (K : KeyExchange) (hC : C.Lawful) (server : Server)
    (draws : Draws) :
    Obeys sendLog [] (server.handshake C K draws) fun r sent => ∀ result, r = .ok result →
      ∃ start log, HandshakeSeals C sent result start log ∧
        ∀ records, (start.key :: result.encrypt.newKeys C records).Nodup →
          ((log ++ result.encrypt.sealed C records).map Sealed.use).Nodup ∧
          ∀ s ∈ log ++ result.encrypt.sealed C records, s.Made C start.kind := by
  refine (sealsHello_handshake C K server draws).imp fun r sent h result hr => ?_
  obtain ⟨start, log, hseals⟩ := h result hr
  refine ⟨start, log, hseals, fun records hkeys => ?_⟩
  obtain ⟨context, unitedKey, hfresh⟩ := hseals.fresh
  have hnew : NonceInv start [] [start.key] := by
    rw [hfresh]
    exact .new context unitedKey start.kind
  obtain ⟨hinv, hkind, hmade⟩ : NonceInv result.encrypt.state (log.map Sealed.use) [start.key] ∧
      result.encrypt.state.kind = start.kind ∧ ∀ s ∈ log, s.Made C start.kind := by
    cases hz : result.zeroRtt with
    | false =>
      obtain ⟨ticket, response, hseal, _⟩ := hseals.hello hz
      refine hnew.messages hseal ?_
      rw [hfresh]
      show nonceVal (zeros 12) + 3 ≤ nonceVal maxNonce
      decide
    | true =>
      obtain ⟨rfl, rfl⟩ := hseals.none hz
      exact ⟨hnew, rfl, nofun⟩
  constructor
  · rw [map_append]
    exact (hinv.after hC hkeys).once
  · intro s hs
    rcases mem_append.mp hs with hs | hs
    · exact hmade s hs
    · rw [← hkind]
      exact result.encrypt.sealed_made records s hs

/-- The writes of a connection are the protocol's. -/
theorem sendLog_serve (c : Connection) (e : Effect) :
    sendLog.next c.sent e (c.serve e).1 (c.serve e).2.sent := by
  cases e with
  | read n stage =>
    simp only [Connection.serve]
    split <;> rfl
  | send bytes | now | insertTicket ticket pfsKey lifetime | retainTickets now
  | lookupTicket ticket nfsKey => rfl

theorem nonces_unique_zeroClient : ∃ flight result c start log,
    Prog.exec Connection.serve ⟨flight, [], 0, fun _ => none⟩
        ((Server.new .zero (zeroConfig .native)).handshake .tagged .zero .zero) = (.ok result, c) ∧
      HandshakeSeals .tagged c.sent result start log ∧
      ((log ++ result.encrypt.sealed .tagged []).map Sealed.use).Nodup := by
  obtain ⟨flight, hello, unitedKey, state, tickets, _, hexec, _, _⟩ := server_answers
    (zeroClient .aes256Gcm) (zeros 32) Crypto.tagged_lawful
    KeyExchange.zero_lawful (show (zeroConfig .native).keys = [_] from rfl) (by decide)
    (zeroClient_kindIsTold _) .zero ⟨[], [], 0, fun _ => none⟩ []
  rw [append_nil] at hexec
  have hrun := Obeys.exec Connection.sent sendLog_serve
    (c := ⟨flight, [], 0, fun _ => none⟩)
    (nonces_unique .tagged .zero Crypto.tagged_lawful (Server.new .zero (zeroConfig .native)) .zero)
  rw [hexec] at hrun
  obtain ⟨start, log, hseals, huses⟩ := hrun _ rfl
  exact ⟨flight, _, _, start, log, hexec, hseals, (huses [] (by simp [RecordCipher.newKeys])).1⟩

end Xhttp.Encryption
