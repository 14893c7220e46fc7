import RustXhttp.Encryption.Handshake

/-!
# The relay chain

The client exchanges a key with every key of the server in turn. Its halves of the exchanges stand
one after the other, with the masked hash of the next public key between them, and the keystream
that masks a hash goes on over the first bytes of the next half. `Hop` is one exchange of the
client, `relayChain` the bytes that it sends, and `processRelays` has to take them apart again.

* `KeyExchange.Lawful`: what the key-exchange crates document.
* `relayPlain_relay`: the server takes both keystreams off a half.
* `processRelays_last`, `processRelays_hop`: one hop of the server's loop.
* `relays_decoded`: the result for chains of every length.
-/

namespace Xhttp.Encryption

open List

/-- Both sides of an exchange compute one secret, which a secret of the other side contributes to;
an encoded X25519 key has its high bit clear. -/
structure KeyExchange.Lawful (K : KeyExchange) : Prop where
  diffieHellman_comm : ∀ a b,
    K.diffieHellman a (K.x25519Public b) = K.diffieHellman b (K.x25519Public a)
  contributory : ∀ a b, K.wasContributory (K.diffieHellman a (K.x25519Public b)) = true
  high_bit : ∀ a, (K.x25519Public a).val.getD 31 0 ≤ 127
  decapsulate_encapsulate : ∀ secret random, ∃ ciphertext shared,
    K.encapsulate (K.mlkemPublic secret) random = some (ciphertext, shared) ∧
      K.decapsulate secret ciphertext = some shared

theorem KeyExchange.zero_lawful : KeyExchange.zero.Lawful where
  diffieHellman_comm _ _ := rfl
  contributory _ _ := rfl
  high_bit _ := by
    show (0 : UInt8) ≤ 127
    decide
  decapsulate_encapsulate _ _ := ⟨_, _, rfl, rfl⟩

/-! ## The client's side -/

/-- The client's half of an exchange with a public key, and the shared key. -/
def ServerKey.encapsulate (K : KeyExchange) (key : ServerKey) (random : ByteArr 32) :
    Option (Bytes × ByteArr 32) :=
  match key with
  | .x25519 _ pk => some ((K.x25519Public random).val, K.diffieHellman random pk)
  | .mlKem768 _ pk => (K.encapsulate pk random).map fun r => (r.1.val, r.2)

/-- The exchange with one key of the server. -/
structure Hop (K : KeyExchange) where
  seed : KeySeed
  random : ByteArr 32
  bytes : Bytes
  shared : ByteArr 32
  encapsulated : (ServerKey.ofSeed K seed).encapsulate K random = some (bytes, shared)

section Client

variable (C : Crypto) {K : KeyExchange} (mode : EncryptionMode) (iv : ByteArr 16)

def Hop.key (hop : Hop K) : ServerKey := .ofSeed K hop.seed

/-- The half of a hop as it is sent: under the keystream of the public key unless the mode is
native, and its first 32 bytes under the keystream of the previous hop. -/
def Hop.relay (hop : Hop K) (previous : Option Ctr) : Bytes :=
  let relay := if mode ≠ .native then ((newCtr hop.key.publicKey iv).applyKeystream C hop.bytes).2
    else hop.bytes
  match previous with
  | none => relay
  | some ctr => (ctr.applyKeystream C (relay.take 32)).2 ++ relay.drop 32

/-- The hash of the next public key, under the keystream of the shared key. -/
def Hop.hashSlot (hop next : Hop K) : Ctr × Bytes :=
  (newCtr hop.shared.val iv).applyKeystream C (K.hash next.key.publicKey).val

/-- The relay bytes of the client. -/
def relayChain : List (Hop K) → Option Ctr → Bytes
  | [], _ => []
  | [hop], previous => hop.relay C mode iv previous
  | hop :: next :: hops, previous =>
    let slot := hop.hashSlot C iv next
    hop.relay C mode iv previous ++ (slot.2 ++ relayChain (next :: hops) (some slot.1))

end Client

/-! ## Lengths -/

theorem ServerKey.relayLen_ge (key : ServerKey) : 32 ≤ key.relayLen := by
  cases key with
  | x25519 secret pk => exact Nat.le_refl 32
  | mlKem768 secret pk => exact (by decide : 32 ≤ 1088)

theorem relayLen_singleton (key : ServerKey) : relayLen [key] = key.relayLen := rfl

theorem relayLen_cons_cons (key next : ServerKey) (keys : List ServerKey) :
    relayLen (key :: next :: keys) = key.relayLen + 32 + relayLen (next :: keys) := by
  simp only [relayLen, foldr_cons]
  omega

section Lengths

variable (C : Crypto) {K : KeyExchange} (mode : EncryptionMode) (iv : ByteArr 16)

@[simp] theorem Ctr.length_applyKeystream (ctr : Ctr) (bytes : Bytes) :
    (ctr.applyKeystream C bytes).2.length = bytes.length :=
  length_xorStream _ _ _

theorem Hop.length_bytes (hop : Hop K) : hop.bytes.length = hop.key.relayLen := by
  obtain ⟨seed, random, bytes, shared, encapsulated⟩ := hop
  cases seed with
  | x25519 seed =>
    obtain ⟨rfl, rfl⟩ := Prod.mk.inj (Option.some.inj encapsulated)
    exact ByteArr.length_val _
  | mlKem768 seed =>
    obtain ⟨r, -, h⟩ := Option.map_eq_some_iff.mp encapsulated
    obtain ⟨rfl, rfl⟩ := Prod.mk.inj h
    exact ByteArr.length_val _

/-- Before the keystream of the previous hop, a half is the one of a first hop. -/
theorem Hop.relay_some (hop : Hop K) (ctr : Ctr) :
    hop.relay C mode iv (some ctr) =
      (ctr.applyKeystream C ((hop.relay C mode iv none).take 32)).2 ++
        (hop.relay C mode iv none).drop 32 := rfl

theorem Hop.length_relay (hop : Hop K) (previous : Option Ctr) :
    (hop.relay C mode iv previous).length = hop.key.relayLen := by
  have hfirst : (hop.relay C mode iv none).length = hop.key.relayLen := by
    simp only [Hop.relay]
    split
    · rw [Ctr.length_applyKeystream, hop.length_bytes]
    · exact hop.length_bytes
  cases previous with
  | none => exact hfirst
  | some ctr =>
    simp only [Hop.relay_some, length_append, Ctr.length_applyKeystream, length_take,
      length_drop, hfirst]
    omega

@[simp] theorem Hop.length_hashSlot (hop next : Hop K) :
    (hop.hashSlot C iv next).2.length = 32 := by
  rw [Hop.hashSlot, Ctr.length_applyKeystream, ByteArr.length_val]

theorem length_relayChain (hops : List (Hop K)) (previous : Option Ctr) :
    (relayChain C mode iv hops previous).length = relayLen (hops.map Hop.key) := by
  induction hops generalizing previous with
  | nil => rfl
  | cons hop hops ih =>
    cases hops with
    | nil => exact hop.length_relay C mode iv previous
    | cons next hops =>
      simp only [relayChain, length_append, hop.length_relay, Hop.length_hashSlot, ih,
        map_cons, relayLen_cons_cons]
      omega

end Lengths

/-! ## One hop of the server -/

section Server

variable {C : Crypto} {K : KeyExchange} {mode : EncryptionMode} {iv : ByteArr 16}

/-- The server decapsulates what the client encapsulated. -/
theorem Hop.decapsulate (hK : K.Lawful) (hop : Hop K) :
    hop.key.decapsulate K hop.bytes = .ok hop.shared := by
  obtain ⟨seed, random, bytes, shared, encapsulated⟩ := hop
  cases seed with
  | x25519 seed =>
    obtain ⟨rfl, rfl⟩ := Prod.mk.inj (Option.some.inj encapsulated)
    have hhigh := UInt8.not_lt.mpr (hK.high_bit random)
    simp only [Hop.key, ServerKey.ofSeed, ServerKey.decapsulate,
      dif_pos (K.x25519Public random).property, if_neg hhigh, hK.contributory, if_true]
    rw [hK.diffieHellman_comm]
  | mlKem768 seed =>
    obtain ⟨ciphertext, shared', henc, hdec⟩ := hK.decapsulate_encapsulate seed random
    obtain ⟨r, hr, h⟩ := Option.map_eq_some_iff.mp encapsulated
    obtain rfl := Option.some.inj (henc.symm.trans hr)
    obtain ⟨rfl, rfl⟩ := Prod.mk.inj h
    simp only [Hop.key, ServerKey.ofSeed, ServerKey.decapsulate, dif_pos ciphertext.property, hdec]

/-- The keystream of a key is its own inverse. -/
theorem unmask_relay (hop : Hop K) :
    (if mode ≠ .native then
        ((newCtr hop.key.publicKey iv).applyKeystream C (hop.relay C mode iv none)).2
      else hop.relay C mode iv none) = hop.bytes := by
  simp only [Hop.relay]
  by_cases hm : mode ≠ .native
  · simp only [if_pos hm]
    exact xorStream_xorStream _ _ _
  · simp only [if_neg hm]

/-- The server takes both keystreams off a half. -/
theorem relayPlain_relay (hop : Hop K) (previous : Option Ctr) :
    relayPlain C mode iv hop.key previous (hop.relay C mode iv previous) = hop.bytes := by
  have hlen := hop.length_relay C mode iv none
  have hge := hop.key.relayLen_ge
  cases previous with
  | none => exact unmask_relay hop
  | some ctr =>
    have hfirst : (ctr.applyKeystream C ((hop.relay C mode iv none).take 32)).2.length = 32 := by
      rw [Ctr.length_applyKeystream, length_take]
      omega
    have hplain :
        (ctr.applyKeystream C (ctr.applyKeystream C ((hop.relay C mode iv none).take 32)).2).2 =
          (hop.relay C mode iv none).take 32 := xorStream_xorStream _ _ _
    simp only [relayPlain, Hop.relay_some]
    rw [take_left' hfirst, drop_left' hfirst, hplain, take_append_drop]
    exact unmask_relay hop

variable (hK : K.Lawful) (hop : Hop K) (previous : Option Ctr) (nfsKey : ByteArr 32)

theorem processRelays_short {key : ServerKey} {keys : List ServerKey} {relays : Bytes}
    (h : relays.length < key.relayLen) :
    processRelays C K mode iv (key :: keys) previous nfsKey relays = .error .relay := by
  rw [processRelays.eq_def]
  exact if_pos h

include hK

theorem processRelays_last (rest : Bytes) :
    processRelays C K mode iv [hop.key] previous nfsKey
      (hop.relay C mode iv previous ++ rest) = .ok hop.shared := by
  have hlen := hop.length_relay C mode iv previous
  rw [processRelays, if_neg (by rw [length_append]; omega), take_left' hlen,
    relayPlain_relay, hop.decapsulate hK]

/-- A hop that is not the last one, up to the bytes of the hash. -/
theorem processRelays_cons (next : ServerKey) (keys : List ServerKey) (relays : Bytes) :
    processRelays C K mode iv (hop.key :: next :: keys) previous nfsKey
        (hop.relay C mode iv previous ++ relays) =
      if relays.length < 32 then .error .relay
      else if ((newCtr hop.shared.val iv).applyKeystream C (relays.take 32)).2 ≠
          (K.hash next.publicKey).val then .error .relayHash
      else processRelays C K mode iv (next :: keys)
        (some ((newCtr hop.shared.val iv).applyKeystream C (relays.take 32)).1) hop.shared
        (relays.drop 32) := by
  have hlen := hop.length_relay C mode iv previous
  rw [processRelays, if_neg (by rw [length_append]; omega), take_left' hlen,
    drop_left' hlen, relayPlain_relay, hop.decapsulate hK]

/-- The hash of the client is the one that the server expects. -/
theorem processRelays_hop (next : Hop K) (keys : List ServerKey) (relays : Bytes) :
    processRelays C K mode iv (hop.key :: next.key :: keys) previous nfsKey
        (hop.relay C mode iv previous ++ ((hop.hashSlot C iv next).2 ++ relays)) =
      processRelays C K mode iv (next.key :: keys) (some (hop.hashSlot C iv next).1) hop.shared
        relays := by
  have hlen := hop.length_hashSlot C iv next
  have hplain : ((newCtr hop.shared.val iv).applyKeystream C (hop.hashSlot C iv next).2).2 =
      (K.hash next.key.publicKey).val := xorStream_xorStream _ _ _
  have hctr : ((newCtr hop.shared.val iv).applyKeystream C (hop.hashSlot C iv next).2).1 =
      (hop.hashSlot C iv next).1 := by
    simp only [Hop.hashSlot, Ctr.applyKeystream, length_xorStream]
  rw [processRelays_cons hK, if_neg (by rw [length_append]; omega), take_left' hlen,
    drop_left' hlen, if_neg (not_not_intro hplain), hctr]

/-- Other bytes in the place of the hash. -/
theorem processRelays_badHash (next : Hop K) (keys : List ServerKey) {slot : Bytes}
    (hslot : slot.length = 32) (hne : slot ≠ (hop.hashSlot C iv next).2) (relays : Bytes) :
    processRelays C K mode iv (hop.key :: next.key :: keys) previous nfsKey
        (hop.relay C mode iv previous ++ (slot ++ relays)) = .error .relayHash := by
  rw [processRelays_cons hK, if_neg (by rw [length_append]; omega), take_left' hslot, if_pos]
  intro heq
  apply hne
  rw [Hop.hashSlot, ← heq]
  exact (xorStream_xorStream _ _ _).symm

end Server

/-! ## The chain -/

section Chain

variable {C : Crypto} {K : KeyExchange} {mode : EncryptionMode} {iv : ByteArr 16}

/-- The loop does not run out of bytes. -/
theorem processRelays_ne_relay (keys : List ServerKey) (previous : Option Ctr)
    (nfsKey : ByteArr 32) {relays : Bytes} (h : relayLen keys ≤ relays.length) :
    processRelays C K mode iv keys previous nfsKey relays ≠ .error .relay := by
  induction keys generalizing previous nfsKey relays with
  | nil =>
    intro hc
    cases hc
  | cons key keys ih =>
    cases keys with
    | nil =>
      rw [relayLen_singleton] at h
      rw [processRelays, if_neg (Nat.not_lt.mpr h)]
      split <;> (intro hc; cases hc)
    | cons next keys =>
      rw [relayLen_cons_cons] at h
      rw [processRelays, if_neg (by omega)]
      split
      · intro hc
        cases hc
      · dsimp only
        rw [if_neg (by rw [length_drop]; omega)]
        split
        · intro hc
          cases hc
        · exact ih _ _ (by rw [length_drop, length_drop]; omega)

section Lawful

variable (hK : K.Lawful)

include hK

theorem processRelays_chain (hop : Hop K) (hops : List (Hop K)) (previous : Option Ctr)
    (nfsKey : ByteArr 32) (rest : Bytes) :
    processRelays C K mode iv ((hop :: hops).map Hop.key) previous nfsKey
        (relayChain C mode iv (hop :: hops) previous ++ rest) =
      .ok ((hop :: hops).getLast (cons_ne_nil _ _)).shared := by
  induction hops generalizing hop previous nfsKey with
  | nil => exact processRelays_last hK hop previous nfsKey rest
  | cons next hops ih =>
    simp only [relayChain, append_assoc, map_cons]
    rw [processRelays_hop hK]
    exact ih next _ hop.shared

/-- Every byte of the chain is needed. -/
theorem processRelays_take (hop : Hop K) (hops : List (Hop K)) (previous : Option Ctr)
    (nfsKey : ByteArr 32) {n : Nat} (h : n < relayLen ((hop :: hops).map Hop.key)) :
    processRelays C K mode iv ((hop :: hops).map Hop.key) previous nfsKey
      ((relayChain C mode iv (hop :: hops) previous).take n) = .error .relay := by
  induction hops generalizing hop previous nfsKey n with
  | nil =>
    refine processRelays_short previous nfsKey ?_
    rw [length_take]
    exact Nat.lt_of_le_of_lt (Nat.min_le_left _ _) h
  | cons next hops ih =>
    have hlen := hop.length_relay C mode iv previous
    have hslot := hop.length_hashSlot C iv next
    simp only [map_cons, relayLen_cons_cons] at h
    by_cases hn : n < hop.key.relayLen
    · refine processRelays_short previous nfsKey ?_
      rw [length_take]
      omega
    · -- the half of this hop is there
      simp only [relayChain, map_cons, take_append, hlen, hslot]
      rw [take_of_length_le (by omega)]
      by_cases hn' : n - hop.key.relayLen < 32
      · rw [processRelays_cons hK, if_pos]
        rw [length_append, length_take, length_take, hslot]
        omega
      · rw [take_of_length_le (by omega), processRelays_hop hK]
        exact ih next _ hop.shared (by simp only [map_cons]; omega)

/-- The hash after hop `i` is checked before anything behind it is read. -/
theorem processRelays_slot (hop : Hop K) (hops : List (Hop K)) (previous : Option Ctr)
    (nfsKey : ByteArr 32) {i : Nat} (hi : i < hops.length) {slot : Bytes}
    (hslot : slot.length = 32) (rest : Bytes) :
    let chain := relayChain C mode iv (hop :: hops) previous
    let start := relayLen (((hop :: hops).take (i + 1)).map Hop.key)
    slot ≠ (chain.drop start).take 32 →
    processRelays C K mode iv ((hop :: hops).map Hop.key) previous nfsKey
      (chain.take start ++ (slot ++ rest)) = .error .relayHash := by
  induction hops generalizing hop previous nfsKey i with
  | nil => cases hi
  | cons next hops ih =>
    have hlen := hop.length_relay C mode iv previous
    have hhash := hop.length_hashSlot C iv next
    intro chain start hne
    have hchain : chain = hop.relay C mode iv previous ++ ((hop.hashSlot C iv next).2 ++
      relayChain C mode iv (next :: hops) (some (hop.hashSlot C iv next).1)) := rfl
    cases i with
    | zero =>
      have hstart : start = (hop.relay C mode iv previous).length := hlen.symm
      rw [hchain, hstart, drop_left, take_left' hhash] at hne
      rw [hchain, hstart, take_left]
      exact processRelays_badHash hK hop previous nfsKey next _ hslot hne rest
    | succ i =>
      have hstart : start = hop.key.relayLen + (32 +
          relayLen (((next :: hops).take (i + 1)).map Hop.key)) := by
        simp only [start, take_succ_cons, map_cons, relayLen_cons_cons]
        omega
      rw [hchain, hstart, ← drop_drop, drop_left' hlen, ← drop_drop, drop_left' hhash] at hne
      rw [hchain, hstart, take_add, take_left' hlen, drop_left' hlen, take_add,
        take_left' hhash, drop_left' hhash, append_assoc, append_assoc]
      simp only [map_cons]
      rw [processRelays_hop hK]
      exact ih next _ hop.shared (Nat.lt_of_succ_lt_succ hi) hne

end Lawful

end Chain

/-- **The relay chain.** For every list of server keys and every mode, the bytes of the client have
the length that the server reads. The server gets the last shared key from them; it needs all of
them and does not look at what follows. No bytes of that length give the error `Relay`, and other
bytes in the place of a hash give `RelayHash`. -/
theorem relays_decoded (C : Crypto) (K : KeyExchange) (hK : K.Lawful) (config : EncryptionConfig)
    (iv : ByteArr 16) (hops : List (Hop K)) (hne : hops ≠ [])
    (hkeys : config.keys = hops.map Hop.seed) :
    let keys := (Server.new K config).keys
    let process := processRelays C K config.mode iv keys none (zeros 32)
    let chain := relayChain C config.mode iv hops none
    chain.length = relayLen keys ∧
    (∀ rest, process (chain ++ rest) = .ok (hops.getLast hne).shared) ∧
    (∀ n < relayLen keys, process (chain.take n) = .error .relay) ∧
    (∀ relays, relays.length = relayLen keys → process relays ≠ .error .relay) ∧
    (∀ i slot, i + 1 < hops.length → slot.length = 32 →
      let start := relayLen (keys.take (i + 1))
      slot ≠ (chain.drop start).take 32 →
      process (chain.take start ++ (slot ++ chain.drop (start + 32))) = .error .relayHash) := by
  have hmap : (Server.new K config).keys = hops.map Hop.key := by
    simp only [Server.new, hkeys, map_map]
    rfl
  simp only [hmap]
  obtain ⟨hop, hops, rfl⟩ := exists_cons_of_ne_nil hne
  refine ⟨length_relayChain C _ iv _ none, processRelays_chain hK hop hops none _, ?_, ?_, ?_⟩
  · intro n hn
    exact processRelays_take hK hop hops none _ hn
  · intro relays hlen
    exact processRelays_ne_relay _ _ _ (Nat.le_of_eq hlen.symm)
  · intro i slot hi hslot
    rw [← map_take]
    exact processRelays_slot hK hop hops none _ (Nat.lt_of_succ_lt_succ hi) hslot _

/-- An X25519 key and then an ML-KEM key. -/
theorem relays_decoded_zero :
    let config : EncryptionConfig := ⟨.random, 0, 60, [.x25519 (zeros 32), .mlKem768 (zeros 64)]⟩
    ∃ chain : Bytes, chain.length = 1152 ∧
      processRelays .tagged .zero config.mode (zeros 16) (Server.new .zero config).keys none
        (zeros 32) chain = .ok (zeros 32) := by
  intro config
  let hops : List (Hop .zero) := [⟨.x25519 (zeros 32), zeros 32, _, zeros 32, rfl⟩,
    ⟨.mlKem768 (zeros 64), zeros 32, _, zeros 32, rfl⟩]
  obtain ⟨hlen, hok, -⟩ := relays_decoded .tagged .zero KeyExchange.zero_lawful config (zeros 16)
    hops (cons_ne_nil _ _) rfl
  exact ⟨_, hlen, (congrArg _ (append_nil _).symm).trans (hok [])⟩

end Xhttp.Encryption
