import RustXhttp.Encryption.Agreement
import RustXhttp.Encryption.Tickets

/-!
# Resumption without a round trip

A client that keeps the ticket and the key of a handshake sends a new relay chain, the length that
announces a ticket, and the ticket. The server answers from its tickets alone.

* `Resumption`: the client, for relay chains of every length.
* `Connection.answer`: what the server does with a ticket: `exec_resumption`.
* `resumption_agrees`: the server accepts exactly a live ticket with a key of the relay chain that
  is new to it, and the ends then have equal record ciphers.
* `lookup_exact`: which tickets and keys these are, after any handshakes on the server.
-/

namespace Xhttp.Encryption

open List Option

/-! ## The client -/

/-- The exchanges of a new relay chain, and the ticket and the key of an earlier handshake. -/
structure Resumption (K : KeyExchange) where
  iv : ByteArr 16
  hops : List (Hop K)
  nonempty : hops ≠ []
  kind : CipherKind
  ticket : ByteArr 16
  pfsKey : ByteArr 64

namespace Resumption

variable (C : Crypto) {K : KeyExchange} (r : Resumption K)

def nfsKey : ByteArr 32 := (r.hops.getLast r.nonempty).shared

def nfsAead : AeadState := .new r.iv.val r.nfsKey.val r.kind

def unitedKey : Bytes := r.pfsKey.val ++ r.nfsKey.val

/-- The length that announces a ticket, and the ticket. -/
def messages : Option (Bytes × Bytes) := do
  let r₁ := r.nfsAead.sealRaw C (be16 32) [] none
  let encryptedLength ← r₁.2.toOption
  let encryptedTicket ← (r₁.1.sealRaw C r.ticket.val [] none).2.toOption
  return (encryptedLength, encryptedTicket)

/-- The bytes of the client. -/
def flight (mode : EncryptionMode) : Option Bytes := do
  let (encryptedLength, encryptedTicket) ← r.messages C
  return (r.iv.val ++ relayChain C mode r.iv r.hops none) ++ (encryptedLength ++ encryptedTicket)

/-- AES-256-GCM does not accept the first length of a client that uses the other cipher. -/
def KindIsTold : Prop :=
  r.kind = .chaCha20Poly1305 → ∀ s ct, r.nfsAead.sealRaw C (be16 32) [] none = (s, .ok ct) →
    ((AeadState.new r.iv.val r.nfsKey.val .aes256Gcm).openRaw C ct [] none).2 =
      .error .authentication

end Resumption

/-! ## What the server does with a ticket -/

/-- The ciphers of a handshake without a round trip. -/
def zeroRttResult (mode : EncryptionMode) (draws : Draws) (iv : ByteArr 16)
    (encryptedTicket unitedKey : Bytes) (kind : CipherKind) : HandshakeResult :=
  let xors := mode.headerXors unitedKey iv draws.serverRandom
  ⟨.new encryptedTicket unitedKey kind, .new draws.serverRandom.val unitedKey kind, xors.1, xors.2,
    true⟩

/-- The answer to the client `r`, whose encrypted ticket is given, and the connection after it. -/
def Connection.answer (c : Connection) (mode : EncryptionMode) (draws : Draws) {K : KeyExchange}
    (r : Resumption K) (encryptedTicket : Bytes) :
    Except HandshakeError HandshakeResult × Connection :=
  match (c.tickets.retain c.clock).lookup r.ticket r.nfsKey with
  | (none, tickets) =>
    (.error .expiredTicket,
      { c with tickets, sent := c.sent ++ [(draws.decoy (draws.genRange 1279 2279)).val] })
  | (some (.error e), tickets) => (.error e, { c with tickets })
  | (some (.ok pfsKey), tickets) =>
    (.ok (zeroRttResult mode draws r.iv encryptedTicket (pfsKey.val ++ r.nfsKey.val) r.kind),
      { c with tickets, sent := c.sent ++ [draws.serverRandom.val] })

/-- The answer is one of three: from a live ticket with a new key, to a replay, and to a ticket that
the server does not have or that has expired. -/
theorem Connection.answer_cases (c : Connection) (mode : EncryptionMode) (draws : Draws)
    {K : KeyExchange} (r : Resumption K) (encryptedTicket : Bytes) :
    (∃ session, (c.tickets r.ticket = some session ∧ c.clock < session.expires ∧
        r.nfsKey ∉ session.replayKeys) ∧
      c.answer mode draws r encryptedTicket =
        (.ok (zeroRttResult mode draws r.iv encryptedTicket (session.pfsKey.val ++ r.nfsKey.val)
          r.kind),
          { c with
            sent := c.sent ++ [draws.serverRandom.val]
            tickets := Function.update (c.tickets.retain c.clock) r.ticket
              (some { session with replayKeys := r.nfsKey :: session.replayKeys }) })) ∨
    (∀ session, ¬ (c.tickets r.ticket = some session ∧ c.clock < session.expires ∧
        r.nfsKey ∉ session.replayKeys)) ∧
      (c.answer mode draws r encryptedTicket =
          (.error .replay, { c with tickets := c.tickets.retain c.clock }) ∨
        c.answer mode draws r encryptedTicket = (.error .expiredTicket,
          { c with
            tickets := c.tickets.retain c.clock
            sent := c.sent ++ [(draws.decoy (draws.genRange 1279 2279)).val] })) := by
  have hlive : ∀ session, c.tickets.retain c.clock r.ticket = some session ↔
      c.tickets r.ticket = some session ∧ c.clock < session.expires := fun _ =>
    filter_eq_some_iff.trans (and_congr_right fun _ => decide_eq_true_iff)
  unfold Connection.answer Tickets.lookup
  cases h : c.tickets.retain c.clock r.ticket with
  | none =>
    refine .inr ⟨fun session hs => ?_, .inr rfl⟩
    cases h.symm.trans ((hlive session).mpr ⟨hs.1, hs.2.1⟩)
  | some session =>
    obtain ⟨hs, hexp⟩ := (hlive session).mp h
    by_cases hk : r.nfsKey ∈ session.replayKeys
    · simp only [if_pos hk]
      refine .inr ⟨fun session' hs' => ?_, .inl trivial⟩
      cases hs.symm.trans hs'.1
      exact hs'.2.2 hk
    · simp only [if_neg hk]
      exact .inl ⟨session, ⟨hs, hexp, hk⟩, rfl⟩

section

variable {C : Crypto} {K : KeyExchange}

/-- The lookup of a ticket among those that a cleanup left. -/
theorem exec_lookup {α : Type} {c : Connection} {ticket : ByteArr 16} {nfsKey : ByteArr 32}
    {f : Option (Except HandshakeError (ByteArr 64)) → Handshake α} :
    Prog.exec Connection.serve c (cleanupTickets >>= fun _ =>
        request (.lookupTicket ticket nfsKey) >>= f) =
      Prog.exec Connection.serve
        { c with tickets := ((c.tickets.retain c.clock).lookup ticket nfsKey).2 }
        (f ((c.tickets.retain c.clock).lookup ticket nfsKey).1) :=
  rfl

/-- The branch of the handshake that reads a ticket. -/
theorem exec_handshakeZeroRtt {server : Server}
    (hon : ¬ (server.config.lifetimeFrom = 0 ∧ server.config.lifetimeTo = 0)) (draws : Draws)
    (r : Resumption K) {s s' : AeadState} {ct rest : Bytes}
    (hopen : s.openRaw C ct [] none = (s', .ok r.ticket.val)) (hlen : ct.length = 32)
    {c : Connection} (hc : c.input = ct ++ rest) :
    Prog.exec Connection.serve c
        (server.handshakeZeroRtt C draws r.iv r.nfsKey s r.kind) =
      Connection.answer { c with input := rest } server.config.mode draws r ct := by
  unfold Server.handshakeZeroRtt
  rw [if_neg hon, exec_read hc hlen, exec_ofRecord (by rw [hopen]), dif_pos r.ticket.property,
    exec_lookup]
  have heta : ∀ h, (⟨r.ticket.val, h⟩ : ByteArr 16) = r.ticket := fun _ => rfl
  simp only [heta]
  rcases hl : (c.tickets.retain c.clock).lookup r.ticket r.nfsKey with ⟨_ | e | pfsKey, tickets⟩
  all_goals
    simp only [Connection.answer, hl]
    rfl

/-! ## The flight -/

theorem Resumption.processRelays_eq (hK : K.Lawful) (mode : EncryptionMode) (r : Resumption K)
    (nfsKey : ByteArr 32) :
    processRelays C K mode r.iv (r.hops.map Hop.key) none nfsKey
      (relayChain C mode r.iv r.hops none) = .ok r.nfsKey := by
  obtain ⟨iv, hops, hne, kind, ticket, pfsKey⟩ := r
  cases hops with
  | nil => exact absurd rfl hne
  | cons hop hops =>
    show processRelays C K mode iv ((hop :: hops).map Hop.key) none nfsKey
      (relayChain C mode iv (hop :: hops) none) = _
    rw [← append_nil (relayChain C mode iv (hop :: hops) none)]
    exact processRelays_chain hK hop hops none nfsKey []

/-- The two messages, each sealed with the state after the one before. -/
theorem Resumption.messages_spec (hC : C.Lawful) (r : Resumption K) :
    ∃ s s' ct₁ ct₂, r.messages C = some (ct₁, ct₂) ∧
      r.nfsAead.sealRaw C (be16 32) [] none = (s, .ok ct₁) ∧
      s.openRaw C ct₂ [] none = (s', .ok r.ticket.val) ∧ ct₂.length = 32 := by
  have hticket := r.ticket.property
  obtain ⟨ct₁, hseal₁, _, _⟩ := sealRaw_openRaw hC r.nfsAead (be16 32) none (by simp)
  obtain ⟨ct₂, hseal₂, hopen₂, hlen₂⟩ := sealRaw_openRaw hC (r.nfsAead.next none).2 r.ticket.val
    none (by omega)
  refine ⟨_, _, ct₁, ct₂, ?_, hseal₁, hopen₂, by omega⟩
  simp only [Resumption.messages, hseal₁, hseal₂, Except.toOption, Option.pure_def,
    bind_eq_bind, bind_some]

/-- The server keys of the configuration are those of the chain. -/
theorem Server.keys_of_hops {config : EncryptionConfig} {hops : List (Hop K)}
    (hkeys : config.keys = hops.map Hop.seed) : (Server.new K config).keys = hops.map Hop.key := by
  rw [Server.new, hkeys, List.map_map]
  rfl

/-- **The server's answer.** It reads exactly the flight, and answers from its tickets. -/
theorem exec_resumption (hC : C.Lawful) (hK : K.Lawful) {config : EncryptionConfig}
    (hon : ¬ (config.lifetimeFrom = 0 ∧ config.lifetimeTo = 0)) (r : Resumption K)
    (hkeys : config.keys = r.hops.map Hop.seed) (htold : r.KindIsTold C) :
    ∃ flight encryptedTicket, r.flight C config.mode = some flight ∧
      (∃ encryptedLength, r.messages C = some (encryptedLength, encryptedTicket)) ∧
      ∀ (draws : Draws) (c : Connection) (rest : Bytes),
        Prog.exec Connection.serve { c with input := flight ++ rest }
            ((Server.new K config).handshake C K draws) =
          Connection.answer { c with input := rest } config.mode draws r encryptedTicket := by
  obtain ⟨s, s', ct₁, ct₂, hmessages, hseal₁, hopen₂, hlen₂⟩ := r.messages_spec hC
  have hct₁ : ct₁.length = 18 := (openRaw_sealRaw hC hseal₁).2
  let first := r.iv.val ++ relayChain C config.mode r.iv r.hops none
  refine ⟨first ++ (ct₁ ++ ct₂), ct₂, ?_, ⟨ct₁, hmessages⟩, fun draws c rest => ?_⟩
  · simp only [Resumption.flight, hmessages, bind_eq_bind, bind_some, Option.pure_def]
    rfl
  have hserver := Server.keys_of_hops hkeys
  have hfirst : first.length = 16 + relayLen (Server.new K config).keys := by
    rw [length_append, r.iv.property, length_relayChain, hserver]
  have hiv : ∀ h, (⟨first.take 16, h⟩ : ByteArr 16) = r.iv :=
    fun _ => Subtype.ext (take_left' r.iv.property)
  have hdrop : first.drop 16 = relayChain C config.mode r.iv r.hops none :=
    drop_left' r.iv.property
  have hlength : ofBe16 ((be16 32).getD 0 0) ((be16 32).getD 1 0) = 32 := ofBe16_ofNat (by decide)
  have hinput : first ++ (ct₁ ++ ct₂) ++ rest = first ++ (ct₁ ++ (ct₂ ++ rest)) := by
    simp only [append_assoc]
  unfold Server.handshake
  rw [exec_read hinput hfirst]
  simp only [hiv, hdrop, hserver, show (Server.new K config).config = config from rfl]
  rw [exec_ofExcept (r.processRelays_eq hK config.mode _), exec_read rfl hct₁,
    exec_ofExcept (openFirstLength_told hC hseal₁ fun hk => htold hk s ct₁ hseal₁)]
  simp only [hlength, if_true]
  exact exec_handshakeZeroRtt hon draws r hopen₂ hlen₂ rfl

/-! ## Agreement -/

/-- The ends agree: the ciphers of the server in each direction are those that the client makes of
its key, its encrypted ticket and the bytes it was sent; in the random mode, each header transform
is the mirror of the client's. -/
structure Resumption.Agrees (r : Resumption K) (mode : EncryptionMode) (encryptedTicket : Bytes)
    (serverRandom : ByteArr 16) (result : HandshakeResult) : Prop where
  zeroRtt : result.zeroRtt = true
  decrypt : result.decrypt = .new encryptedTicket r.unitedKey r.kind
  encrypt : result.encrypt = .new serverRandom.val r.unitedKey r.kind
  xors : mode = .random →
    result.inboundXor = some (HeaderXor.outbound r.unitedKey r.iv 0).mirror ∧
    result.outboundXor.map HeaderXor.mirror = some (.inbound r.unitedKey serverRandom 0)

theorem Resumption.agrees_zeroRttResult (r : Resumption K) (mode : EncryptionMode) (draws : Draws)
    (encryptedTicket : Bytes) :
    r.Agrees mode encryptedTicket draws.serverRandom
      (zeroRttResult mode draws r.iv encryptedTicket r.unitedKey r.kind) := by
  refine ⟨rfl, rfl, rfl, fun hmode => ?_⟩
  simp only [zeroRttResult, EncryptionMode.headerXors, if_pos hmode]
  exact ⟨rfl, rfl⟩

end

/-- **Resumption agrees.** For every relay chain, cipher and mode, and whatever tickets the server
holds: the server reads exactly the flight of a resuming client and sends at most one answer. It
accepts exactly if it has the ticket, the ticket has not expired and its replay set does not hold
the key of the relay chain, which it then does; if the ticket's key is the client's, the ends have
equal ciphers in each direction. A replay gets no answer, and every other refusal a decoy. -/
theorem resumption_agrees (C : Crypto) (K : KeyExchange) (hC : C.Lawful) (hK : K.Lawful)
    (config : EncryptionConfig) (hon : ¬ (config.lifetimeFrom = 0 ∧ config.lifetimeTo = 0))
    (r : Resumption K) (hkeys : config.keys = r.hops.map Hop.seed) (htold : r.KindIsTold C) :
    ∃ flight encryptedTicket, r.flight C config.mode = some flight ∧
      (∃ encryptedLength, r.messages C = some (encryptedLength, encryptedTicket)) ∧
      ∀ (draws : Draws) (c : Connection) (rest : Bytes),
        let out := Prog.exec Connection.serve { c with input := flight ++ rest }
          ((Server.new K config).handshake C K draws)
        out.2.input = rest ∧ out.2.clock = c.clock ∧
        ((∃ result, out.1 = .ok result) ↔ ∃ session, c.tickets r.ticket = some session ∧
          c.clock < session.expires ∧ r.nfsKey ∉ session.replayKeys) ∧
        (∀ result, out.1 = .ok result → out.2.sent = c.sent ++ [draws.serverRandom.val] ∧
          (∃ session, out.2.tickets r.ticket = some session ∧ r.nfsKey ∈ session.replayKeys) ∧
          ((c.tickets r.ticket).map TicketSession.pfsKey = some r.pfsKey →
            r.Agrees config.mode encryptedTicket draws.serverRandom result)) ∧
        ∀ e, out.1 = .error e → (e = .replay ∧ out.2.sent = c.sent) ∨
          (e = .expiredTicket ∧
            out.2.sent = c.sent ++ [(draws.decoy (draws.genRange 1279 2279)).val]) := by
  obtain ⟨flight, encryptedTicket, hflight, hmessages, hexec⟩ :=
    exec_resumption hC hK hon r hkeys htold
  refine ⟨flight, encryptedTicket, hflight, hmessages, fun draws c rest => ?_⟩
  intro out
  have hout : out = Connection.answer { c with input := rest } config.mode draws r
      encryptedTicket := hexec draws c rest
  rcases Connection.answer_cases { c with input := rest } config.mode draws r encryptedTicket with
    ⟨session, hlive, hans⟩ | ⟨hno, hans⟩
  · rw [hout, hans]
    refine ⟨rfl, rfl, ⟨fun _ => ⟨session, hlive⟩, fun _ => ⟨_, rfl⟩⟩, ?_, by rintro _ ⟨⟩⟩
    rintro result ⟨⟩
    refine ⟨rfl, ⟨_, Function.update_self .., mem_cons_self⟩, fun hp => ?_⟩
    have hs : c.tickets r.ticket = some session := hlive.1
    rw [hs] at hp
    rw [Option.some.inj hp]
    exact r.agrees_zeroRttResult config.mode draws encryptedTicket
  · have hrefused : ¬ ∃ session, c.tickets r.ticket = some session ∧ c.clock < session.expires ∧
        r.nfsKey ∉ session.replayKeys := fun ⟨session, hs⟩ => hno session hs
    rcases hans with hans | hans
    all_goals
      rw [hout, hans]
      refine ⟨rfl, rfl, ⟨by rintro ⟨_, ⟨⟩⟩, fun h => absurd h hrefused⟩, by rintro _ ⟨⟩, ?_⟩
      rintro _ ⟨⟩
    · exact .inl ⟨rfl, rfl⟩
    · exact .inr ⟨rfl, rfl⟩

/-- A client that resumes with zero keys through one exchange. -/
def zeroResumption : Resumption .zero where
  iv := zeros 16
  hops := [⟨.x25519 (zeros 32), zeros 32, (zeros 32).val, zeros 32, rfl⟩]
  nonempty := cons_ne_nil _ _
  kind := .chaCha20Poly1305
  ticket := zeros 16
  pfsKey := zeros 64

theorem zeroResumption_kindIsTold : zeroResumption.KindIsTold .tagged := by
  rintro - s ct h
  cases h
  rfl

/-- A ticket that expires at 7 is refused at 9, also to a client whose key is new. -/
theorem resumption_agrees_late : ∃ flight,
    zeroResumption.flight .tagged .random = some flight ∧
      ¬ ∃ result, (Prog.exec Connection.serve
        ⟨flight ++ [5], [], 9, fun _ => some ⟨zeros 64, [], 7⟩⟩
        ((Server.new .zero (zeroConfig .random)).handshake .tagged .zero .zero)).1 =
          .ok result := by
  obtain ⟨flight, _, hflight, _, h⟩ := resumption_agrees .tagged .zero Crypto.tagged_lawful
    KeyExchange.zero_lawful (zeroConfig .random) (by decide)
    zeroResumption rfl zeroResumption_kindIsTold
  refine ⟨flight, hflight, fun hok => ?_⟩
  obtain ⟨session, hs, hexp, _⟩ :=
    (h .zero ⟨[], [], 9, fun _ => some ⟨zeros 64, [], 7⟩⟩ [5]).2.2.1.mp hok
  cases hs
  exact absurd hexp (by decide)

/-! ## Under every schedule -/

/-- The store says what happened: an issued ticket is there until it expires, and a key in its
replay set was accepted with it. -/
structure TicketServer.Recorded (s : TicketServer) : Prop where
  live : ∀ x ∈ s.issued, s.clock < x.expires →
    ∃ session, s.tickets x.ticket = some session ∧ session.expires = x.expires
  spent : ∀ ticket session, s.tickets ticket = some session → ∀ key ∈ session.replayKeys,
    ∃ a ∈ s.accepted, a.ticket = ticket ∧ a.nfsKey = key

section

variable {config : EncryptionConfig} {s s' : TicketServer}

theorem TicketServer.Recorded.quiet (h : s.Recorded) (ht : s'.tickets = s.tickets)
    (hi : s'.issued = s.issued) (ha : s'.accepted = s.accepted) (hc : s.clock ≤ s'.clock) :
    s'.Recorded := by
  refine ⟨?_, by rw [ht, ha]; exact h.spent⟩
  rw [ht, hi]
  exact fun x hx hlt => h.live x hx (Nat.lt_of_le_of_lt hc hlt)

/-- The section of a lookup that accepts a key. -/
theorem TicketServer.Recorded.accept (h : s.Recorded) {ticket : ByteArr 16}
    {session : TicketSession} (hs : s.tickets ticket = some session) (nfsKey : ByteArr 32)
    (cleanup : Option Nat) :
    TicketServer.Recorded { s with
      tickets := Function.update s.tickets ticket
        (some { session with replayKeys := nfsKey :: session.replayKeys })
      accepted := s.accepted ++ [⟨ticket, nfsKey, cleanup⟩] } := by
  refine ⟨fun x hx hlt => ?_, fun t ses hses key hkey => ?_⟩
  · obtain ⟨old, hold, he⟩ := h.live x hx hlt
    by_cases hx : x.ticket = ticket
    · subst hx
      cases hs.symm.trans hold
      exact ⟨_, Function.update_self .., he⟩
    · exact ⟨old, (Function.update_of_ne hx ..).trans hold, he⟩
  · have hbefore : ∀ old, s.tickets t = some old → key ∈ old.replayKeys →
        ∃ a ∈ s.accepted ++ [⟨ticket, nfsKey, cleanup⟩], a.ticket = t ∧ a.nfsKey = key :=
      fun old hold hmem =>
        have ⟨a, ha, heq⟩ := h.spent t old hold key hmem
        ⟨a, mem_append_left _ ha, heq⟩
    by_cases ht : t = ticket
    · subst ht
      cases (Function.update_self ..).symm.trans hses
      rcases mem_cons.mp hkey with rfl | hkey
      · exact ⟨_, mem_append_right _ (mem_singleton.mpr rfl), rfl, rfl⟩
      · exact hbefore session hs hkey
    · exact hbefore ses ((Function.update_of_ne ht ..).symm.trans hses) hkey

theorem TicketServer.Recorded.runTask (h : s.Recorded) (hinv : TicketInv config s) {i : Nat}
    {task : HandshakeTask} (ht : s.tasks[i]? = some task) (hfresh : s.Fresh (.run i))
    (hs : s.runTask i task = some s') : s'.Recorded := by
  obtain ⟨prog, cleanup⟩ := task
  unfold TicketServer.runTask at hs
  split at hs
  case h_1 =>
    cases hs
    exact h.quiet rfl rfl rfl (Nat.le_refl _)
  case h_2 ticket pfsKey lifetime k hprog =>
    cases hs
    cases hprog
    simp only [TicketServer.Fresh, ht] at hfresh
    refine ⟨fun x hx hlt => ?_, fun t session hsession key hkey => ?_⟩
    · rcases mem_append.mp hx with hx | hx
      · obtain ⟨session, hsession, he⟩ := h.live x hx hlt
        exact ⟨session, (Function.update_of_ne (hfresh x hx) ..).trans hsession, he⟩
      · cases mem_singleton.mp hx
        exact ⟨_, Function.update_self .., rfl⟩
    · by_cases hne : t = ticket
      · subst hne
        cases (Function.update_self ..).symm.trans hsession
        cases hkey
      · exact h.spent t session ((Function.update_of_ne hne ..).symm.trans hsession) key hkey
  case h_3 now k hprog =>
    -- the reading of the cleanup is not after the present
    cases hs
    cases hprog
    obtain ⟨latest, hle, hsafe⟩ := (hinv.tasks i _ ht).safe
    have hnow : now ≤ latest := hsafe.1
    refine ⟨fun x hx hlt => ?_, fun t session hsession => h.spent t session
      (Tickets.retain_some hsession).1⟩
    obtain ⟨session, hsession, he⟩ := h.live x hx hlt
    refine ⟨session, filter_eq_some_iff.mpr ⟨hsession, decide_eq_true ?_⟩, he⟩
    have hlt : s.clock < x.expires := hlt
    omega
  case h_4 ticket nfsKey k hprog =>
    cases hs
    rcases s.tickets.lookup_cases ticket nfsKey with ⟨hno, hsame⟩ | ⟨session, hsession, -, hl⟩
    · dsimp only
      rw [hsame]
      split
      case h_1 key hr => exact absurd hr (hno key)
      case h_2 => exact h.quiet rfl rfl rfl (Nat.le_refl _)
    · rw [hl]
      exact (h.accept hsession nfsKey cleanup).quiet rfl rfl rfl (Nat.le_refl _)
  case h_5 => cases hs

variable {C : Crypto} {K : KeyExchange} {server : Server}

theorem TicketServer.Recorded.step (h : s.Recorded) (hinv : TicketInv server.config s)
    {a : ServerAction} (hfresh : s.Fresh a) (hs : s.step C K server a = some s') : s'.Recorded := by
  cases a with
  | connect draws =>
    cases hs
    exact h.quiet rfl rfl rfl (Nat.le_refl _)
  | tick elapsed =>
    cases hs
    exact h.quiet rfl rfl rfl (Nat.le_add_right ..)
  | arrive i r =>
    obtain ⟨⟨prog, cleanup⟩, ht, hs⟩ := bind_eq_some_iff.mp hs
    unfold TicketServer.arriveTask at hs
    repeat' split at hs
    all_goals cases hs
    all_goals exact h.quiet rfl rfl rfl (Nat.le_refl _)
  | written i r =>
    obtain ⟨⟨prog, cleanup⟩, ht, hs⟩ := bind_eq_some_iff.mp hs
    unfold TicketServer.writtenTask at hs
    split at hs
    all_goals cases hs
    exact h.quiet rfl rfl rfl (Nat.le_refl _)
  | run i =>
    obtain ⟨task, ht, hs⟩ := bind_eq_some_iff.mp hs
    exact h.runTask hinv ht hfresh hs

end

/-- **The store is exact.** Whenever a handshake is about to look a ticket up, under every schedule
and passage of time, in which no stored ticket was issued before: it has cleaned up. It is accepted
only if the ticket was issued and expires after the clock reading of that cleanup, and no handshake
was accepted with this ticket and key. It is accepted for sure if the ticket has not even expired at
the lookup. -/
theorem lookup_exact (C : Crypto) (K : KeyExchange) (server : Server) (as : List ServerAction)
    (s : TicketServer)
    (hfresh : (ticketServer C K server).Along TicketServer.Fresh (ticketServer C K server).init as)
    (hs : (ticketServer C K server).run as = some s) (i : Nat) (ticket : ByteArr 16)
    (nfsKey : ByteArr 32) (k : Effect.Reply (.lookupTicket ticket nfsKey) →
      Handshake HandshakeResult) (cleanup : Option Nat)
    (hi : s.tasks[i]? = some ⟨.call (.lookupTicket ticket nfsKey) k, cleanup⟩) :
    let accepts := ∃ pfsKey, (s.tickets.lookup ticket nfsKey).1 = some (.ok pfsKey)
    let unspent := ∀ a ∈ s.accepted, a.ticket = ticket → a.nfsKey ≠ nfsKey
    ∃ c ≤ s.clock, cleanup = some c ∧
      (accepts → (∃ x ∈ s.issued, x.ticket = ticket ∧ c < x.expires) ∧ unspent) ∧
      ((∃ x ∈ s.issued, x.ticket = ticket ∧ s.clock < x.expires) ∧ unspent → accepts) := by
  have hboth : TicketInv server.config s ∧ s.Recorded := by
    refine Machine.run_inv (I := fun u => TicketInv server.config u ∧ u.Recorded)
      ⟨.init, fun x hx => (by cases hx), fun _ _ h => (by cases h)⟩ ?_ hfresh hs
    exact fun u a u' hG hu hstep => ⟨hu.1.step hG hstep, hu.2.step hu.1 hG hstep⟩
  obtain ⟨hinv, hrec⟩ := hboth
  have hok := hinv.tasks i _ hi
  obtain ⟨_, _, ⟨⟨hclean, _⟩, _⟩⟩ := hok.safe
  obtain ⟨c, rfl⟩ := isSome_iff_exists.mp hclean
  obtain ⟨hle, hexp⟩ := hok.cleaned c rfl
  refine ⟨c, hle, rfl, ?_, ?_⟩
  · rintro ⟨pfsKey, haccepts⟩
    rcases s.tickets.lookup_cases ticket nfsKey with ⟨hno, -⟩ | ⟨session, hsession, hnew, -⟩
    · exact absurd haccepts (hno pfsKey)
    · obtain ⟨x, hx, heq, -, he⟩ := hinv.stored ticket session hsession
      refine ⟨⟨x, hx, heq, he ▸ hexp ticket session hsession⟩, ?_⟩
      rintro a ha rfl rfl
      exact hnew (hinv.replay a ha session hsession)
  · rintro ⟨⟨x, hx, rfl, hlt⟩, hnew⟩
    obtain ⟨session, hsession, -⟩ := hrec.live x hx hlt
    have hkey : nfsKey ∉ session.replayKeys := by
      intro hk
      obtain ⟨a, ha, hticket, hkey⟩ := hrec.spent _ _ hsession _ hk
      exact hnew a ha hticket hkey
    exact ⟨session.pfsKey, by simp only [Tickets.lookup, hsession, if_neg hkey]⟩

/-- The handshake `i` is about to look up a ticket that has not expired, the first of all. -/
def TicketServer.firstUse (s : TicketServer) (i : Nat) : Bool :=
  match s.tasks[i]? with
  | some ⟨.call (.lookupTicket ticket _) _, _⟩ =>
    s.accepted.isEmpty && s.issued.any fun x => x.ticket == ticket && s.clock < x.expires
  | _ => false

/-- The first use of a ticket. -/
theorem lookup_exact_first_use : ∃ s ticket nfsKey k cleanup,
    (ticketServer .tagged .zero (.new .zero (zeroConfig .native))).run
      (issueTicket ++ (presentTicket 1).dropLast) = some s ∧
    s.tasks[1]? = some ⟨.call (.lookupTicket ticket nfsKey) k, cleanup⟩ ∧
    ∃ pfsKey, (s.tickets.lookup ticket nfsKey).1 = some (.ok pfsKey) := by
  have hrun : ((ticketServer .tagged .zero (.new .zero (zeroConfig .native))).run
      (issueTicket ++ (presentTicket 1).dropLast)).any (·.firstUse 1) = true := by
    decide +kernel
  obtain ⟨s, hs, huse⟩ := (Option.any_eq_true _ _).mp hrun
  unfold TicketServer.firstUse at huse
  split at huse
  case h_2 => cases huse
  case h_1 ticket nfsKey k cleanup hi =>
    rw [Bool.and_eq_true, List.isEmpty_iff, List.any_eq_true] at huse
    obtain ⟨hnone, x, hx, hlive⟩ := huse
    simp only [Bool.and_eq_true, beq_iff_eq, decide_eq_true_eq] at hlive
    obtain ⟨_, _, _, _, haccepts⟩ := lookup_exact .tagged .zero _ _ s (by decide +kernel) hs 1
      ticket nfsKey k cleanup hi
    refine ⟨s, ticket, nfsKey, k, cleanup, hs, hi, haccepts ⟨⟨x, hx, hlive⟩, ?_⟩⟩
    rw [hnone]
    exact nofun

end Xhttp.Encryption
