import RustXhttp.Encryption.Handshake
import RustXhttp.Lib.Machine

/-!
# Tickets under every schedule

Many handshakes of one server share its tickets. Each request of a handshake to the clock or to
the tickets is one step, so `cleanup_tickets` reads the clock in one step and drops the expired
tickets in a later one, and other handshakes run between any two.

* `ticketProtocol`: what a handshake does with the tickets, whatever it reads and whatever the
  replies are (`handshake_obeys`): a ticket that it stores has a lifetime, it looks a ticket up
  only after a cleanup with a clock reading of its own, and never if both lifetimes are zero.
* `TicketInv`: a pair that was accepted is in the replay set of its ticket as long as the ticket is
  stored, and what is stored expires after every cleanup reading.
* `accepted_once`: no pair of a ticket and a key is accepted twice.
-/

namespace Xhttp.Encryption

open List Option

/-! ## The machine -/

/-- A handshake, and the clock reading of its last `cleanup_tickets`. -/
structure HandshakeTask where
  prog : Handshake HandshakeResult
  cleanup : Option Nat

/-- A ticket that `create_ticket` stored. -/
structure Issue where
  ticket : ByteArr 16
  lifetime : Nat
  expires : Nat

/-- A lookup that returned a key, and the reading of the cleanup before it. -/
structure Acceptance where
  ticket : ByteArr 16
  nfsKey : ByteArr 32
  cleanup : Option Nat

structure TicketServer where
  tickets : Tickets
  clock : Nat
  tasks : List HandshakeTask
  issued : List Issue
  accepted : List Acceptance

/-- `connect`: a client connects and its handshake draws `draws`. `tick`: time passes. `arrive`: the
bytes that the handshake `i` waits for, or an I/O error. `written`: its write ends. `run`: it reads
the clock or runs its section of the tickets. A handshake that is dropped takes no more steps. -/
inductive ServerAction where
  | connect (draws : Draws)
  | tick (elapsed : Nat)
  | arrive (i : Nat) (r : Except String Bytes)
  | written (i : Nat) (r : Except HandshakeError Unit)
  | run (i : Nat)

namespace TicketServer

variable (s : TicketServer)

def setTask (i : Nat) (prog : Handshake HandshakeResult) (cleanup : Option Nat) : TicketServer :=
  { s with tasks := s.tasks.set i ⟨prog, cleanup⟩ }

/-- The clock and the sections of the tickets. -/
def runTask (i : Nat) (task : HandshakeTask) : Option TicketServer :=
  match task.prog with
  | .call .now k => some (s.setTask i (k s.clock) task.cleanup)
  | .call (.insertTicket ticket pfsKey lifetime) k =>
    let issue : Issue := ⟨ticket, lifetime, s.clock + lifetime * 1000000000⟩
    some ({ s with
      tickets := s.tickets.insert s.clock ticket pfsKey lifetime
      issued := s.issued ++ [issue] }.setTask i (k ()) task.cleanup)
  | .call (.retainTickets now) k =>
    some ({ s with tickets := s.tickets.retain now }.setTask i (k ()) (some now))
  | .call (.lookupTicket ticket nfsKey) k =>
    let r := s.tickets.lookup ticket nfsKey
    let accepted := match r.1 with
      | some (.ok _) => s.accepted ++ [⟨ticket, nfsKey, task.cleanup⟩]
      | _ => s.accepted
    some ({ s with tickets := r.2, accepted := accepted }.setTask i (k r.1) task.cleanup)
  | _ => none

def arriveTask (i : Nat) (task : HandshakeTask) (r : Except String Bytes) : Option TicketServer :=
  match task.prog with
  | .call (.read n _) k =>
    match r with
    | .error e => some (s.setTask i (k (.error e)) task.cleanup)
    | .ok bytes =>
      if h : bytes.length = n then some (s.setTask i (k (.ok ⟨bytes, h⟩)) task.cleanup) else none
  | _ => none

def writtenTask (i : Nat) (task : HandshakeTask) (r : Except HandshakeError Unit) :
    Option TicketServer :=
  match task.prog with
  | .call (.send _) k => some (s.setTask i (k r) task.cleanup)
  | _ => none

end TicketServer

section

variable (C : Crypto) (K : KeyExchange) (server : Server)

def TicketServer.step (s : TicketServer) : ServerAction → Option TicketServer
  | .connect draws => some { s with tasks := s.tasks ++ [⟨server.handshake C K draws, none⟩] }
  | .tick elapsed => some { s with clock := s.clock + elapsed }
  | .arrive i r => (s.tasks[i]?).bind fun task => s.arriveTask i task r
  | .written i r => (s.tasks[i]?).bind fun task => s.writtenTask i task r
  | .run i => (s.tasks[i]?).bind fun task => s.runTask i task

/-- A server with its tickets, under every schedule. -/
def ticketServer : Machine TicketServer ServerAction where
  init := ⟨fun _ => none, 0, [], [], []⟩
  step := TicketServer.step C K server

end

/-! ## What a handshake does with the tickets -/

/-- The latest clock reading of a handshake, and the reading of its last cleanup. -/
structure Readings where
  latest : Nat
  cleanup : Option Nat

def ticketProtocol (config : EncryptionConfig) : Prog.Protocol Effect Effect.Reply Readings where
  guard s e :=
    match e with
    | .insertTicket _ _ lifetime => lifetime ≠ 0
    | .retainTickets now => now ≤ s.latest
    | .lookupTicket _ _ =>
      s.cleanup.isSome = true ∧ ¬ (config.lifetimeFrom = 0 ∧ config.lifetimeTo = 0)
    | _ => True
  next s e :=
    match e with
    | .now => fun now s' => s.latest ≤ now ∧ s' = { s with latest := now }
    | .retainTickets now => fun _ s' => s' = { s with cleanup := some now }
    | _ => fun _ s' => s' = s

section

variable {config : EncryptionConfig} {s : Readings}

/-- Every run from `s` follows the protocol. -/
abbrev TicketSafe {α : Type} (config : EncryptionConfig) (s : Readings) (p : Handshake α) : Prop :=
  Prog.Obeys (ticketProtocol config) s p fun _ _ => True

variable {α : Type} {f : Unit → Handshake α}

theorem ticketSafe_read {n : Nat} {stage : String} {f : ByteArr n → Handshake α}
    (h : ∀ bytes, TicketSafe config s (f bytes)) :
    TicketSafe config s (readExactStage n stage >>= f) :=
  obeys_read trivial (fun _ _ hn => hn) (fun _ => trivial) h

theorem ticketSafe_send {bytes : Bytes} (h : TicketSafe config s (f ())) :
    TicketSafe config s (sendBytes bytes >>= f) :=
  obeys_send trivial (fun _ _ hn => hn) (fun _ => trivial) h

theorem ticketSafe_ofExcept {β : Type} {r : Except HandshakeError α} {f : α → Handshake β}
    (h : ∀ a, TicketSafe config s (f a)) : TicketSafe config s (Prog.ofExcept r >>= f) :=
  Prog.obeys_ofExcept (fun _ _ => trivial) fun a _ => h a

theorem ticketSafe_createTicket {draws : Draws} {pfsKey : ByteArr 64}
    {f : ByteArr 16 × Nat → Handshake α} (h : ∀ r, TicketSafe config s (f r)) :
    TicketSafe config s (createTicket config draws pfsKey >>= f) := by
  refine Prog.obeys_bind ?_
  simp only [createTicket]
  split
  case isTrue hl =>
    refine Prog.obeys_perform hl ?_
    rintro _ _ rfl
    exact h _
  case isFalse => exact h _

/-- After a cleanup, its reading is that of the handshake's last cleanup. -/
theorem ticketSafe_cleanup (h : ∀ now, s.latest ≤ now → TicketSafe config ⟨now, some now⟩ (f ())) :
    TicketSafe config s (cleanupTickets >>= f) := by
  refine Prog.obeys_bind (Prog.obeys_perform trivial ?_)
  rintro now _ ⟨hle, rfl⟩
  refine ⟨Nat.le_refl now, ?_⟩
  rintro _ _ rfl
  exact h now hle

variable (C : Crypto) (K : KeyExchange) (server : Server) (draws : Draws)

theorem ticketSafe_zeroRtt (s : Readings) (iv : ByteArr 16) (nfsKey : ByteArr 32)
    (nfsAead : AeadState) (kind : CipherKind) :
    TicketSafe server.config s (server.handshakeZeroRtt C draws iv nfsKey nfsAead kind) := by
  unfold Server.handshakeZeroRtt
  split
  · trivial
  case isFalse henabled =>
    refine ticketSafe_read fun encryptedTicket => ticketSafe_ofExcept fun ticketPlain => ?_
    split
    case isFalse => trivial
    case isTrue h16 =>
      refine ticketSafe_cleanup fun now _ => Prog.obeys_perform ⟨rfl, henabled⟩ ?_
      rintro pfsKey _ rfl
      split
      · exact ticketSafe_send trivial
      · trivial
      · exact ticketSafe_send trivial

theorem ticketSafe_oneRtt (s : Readings) (iv : ByteArr 16) (nfsKey : ByteArr 32)
    (nfsAead : AeadState) (kind : CipherKind) (length : Nat) :
    TicketSafe server.config s
      (server.handshakeOneRtt C K draws iv nfsKey nfsAead kind length) := by
  unfold Server.handshakeOneRtt
  refine ticketSafe_read fun encryptedPfs => ticketSafe_ofExcept fun pfsPlain => ?_
  split
  · trivial
  refine ticketSafe_ofExcept fun response => ticketSafe_ofExcept fun sealedResponse => ?_
  refine ticketSafe_createTicket fun ticket => ticketSafe_ofExcept fun hello => ticketSafe_send ?_
  refine ticketSafe_read fun paddingLength => ticketSafe_ofExcept fun lengthBytes => ?_
  split
  · trivial
  exact ticketSafe_read fun padding => ticketSafe_ofExcept fun _ => trivial

theorem handshake_obeys (s : Readings) :
    TicketSafe server.config s (server.handshake C K draws) := by
  unfold Server.handshake
  refine ticketSafe_read fun ivAndRelays => ticketSafe_ofExcept fun nfsKey => ?_
  refine ticketSafe_read fun encryptedLength => ticketSafe_ofExcept ?_
  rintro ⟨nfsAead, kind, lengthBytes⟩
  dsimp only
  split
  · exact ticketSafe_zeroRtt C server draws s _ _ _ _
  · split
    · trivial
    · exact ticketSafe_oneRtt C K server draws s _ _ _ _ _

end

/-! ## The invariant -/

/-- What is stored expires after the clock reading `c`. -/
def TicketServer.ExpiresAfter (s : TicketServer) (c : Nat) : Prop :=
  ∀ ticket session, s.tickets ticket = some session → c < session.expires

structure HandshakeTask.Ok (config : EncryptionConfig) (s : TicketServer) (task : HandshakeTask) :
    Prop where
  safe : ∃ latest ≤ s.clock, TicketSafe config ⟨latest, task.cleanup⟩ task.prog
  cleaned : ∀ c, task.cleanup = some c → c ≤ s.clock ∧ s.ExpiresAfter c

/-- The ticket was issued, and it expires after the reading `c`. -/
def TicketServer.IssuedUntil (s : TicketServer) (ticket : ByteArr 16) (c : Nat) : Prop :=
  ∃ x ∈ s.issued, x.ticket = ticket ∧ x.lifetime ≠ 0 ∧ c < x.expires

structure TicketInv (config : EncryptionConfig) (s : TicketServer) : Prop where
  tasks : ∀ (i : Nat) task, s.tasks[i]? = some task → HandshakeTask.Ok config s task
  stored : ∀ ticket session, s.tickets ticket = some session →
    ∃ x ∈ s.issued, x.ticket = ticket ∧ x.lifetime ≠ 0 ∧ x.expires = session.expires
  replay : ∀ a ∈ s.accepted, ∀ session, s.tickets a.ticket = some session →
    a.nfsKey ∈ session.replayKeys
  accepted : ∀ a ∈ s.accepted, ∃ c, a.cleanup = some c ∧ s.IssuedUntil a.ticket c
  once : (s.accepted.map fun a => (a.ticket, a.nfsKey)).Nodup
  enabled : s.accepted ≠ [] → ¬ (config.lifetimeFrom = 0 ∧ config.lifetimeTo = 0)

section

variable {config : EncryptionConfig} {s s' : TicketServer}

variable {task : HandshakeTask} {i lifetime : Nat} {cleanup : Option Nat} {tickets : Tickets}
  {ticket : ByteArr 16} {session : TicketSession}

/-- The other handshakes' facts survive: time goes on, and what is new in the tickets expires after
the time before the step. -/
theorem HandshakeTask.Ok.frame (h : task.Ok config s) (hclock : s.clock ≤ s'.clock)
    (hnew : ∀ ticket session, s'.tickets ticket = some session →
      (∃ old, s.tickets ticket = some old ∧ old.expires = session.expires) ∨
        s.clock < session.expires) : task.Ok config s' := by
  obtain ⟨latest, hle, hf⟩ := h.safe
  refine ⟨⟨latest, Nat.le_trans hle hclock, hf⟩, fun c hc => ?_⟩
  obtain ⟨hcle, hexp⟩ := h.cleaned c hc
  refine ⟨Nat.le_trans hcle hclock, fun ticket session hs => ?_⟩
  rcases hnew ticket session hs with ⟨old, hold, he⟩ | hlt
  · rw [← he]
    exact hexp ticket old hold
  · omega

/-- A step that leaves the tickets and the records alone. -/
theorem TicketInv.quiet (h : TicketInv config s) (ht : s'.tickets = s.tickets)
    (hi : s'.issued = s.issued) (ha : s'.accepted = s.accepted)
    (htasks : ∀ (i : Nat) task, s'.tasks[i]? = some task → HandshakeTask.Ok config s' task) :
    TicketInv config s' := by
  refine ⟨htasks, ?_, ?_, ?_, ?_, ?_⟩
  · rw [ht, hi]; exact h.stored
  · rw [ha, ht]; exact h.replay
  · unfold TicketServer.IssuedUntil
    rw [ha, hi]
    exact h.accepted
  · rw [ha]; exact h.once
  · rw [ha]; exact h.enabled

/-- The handshake `i` goes on with a reply that does not change what it knows. -/
theorem TicketInv.move (h : TicketInv config s) {prog : Handshake HandshakeResult}
    (hok : HandshakeTask.Ok config s ⟨prog, cleanup⟩) :
    TicketInv config (s.setTask i prog cleanup) := by
  have hframe : ∀ task : HandshakeTask, task.Ok config s →
      task.Ok config (s.setTask i prog cleanup) :=
    fun task ht => ht.frame (Nat.le_refl _) fun _ session hs => .inl ⟨session, hs, rfl⟩
  exact h.quiet rfl rfl rfl
    (forall_set (fun j task _ ht => hframe task (h.tasks j task ht)) (hframe _ hok))

theorem Tickets.insert_some {clock : Nat} {t : ByteArr 16} {pfsKey : ByteArr 64}
    (h : tickets.insert clock ticket pfsKey lifetime t = some session) :
    (t = ticket ∧ session.expires = clock + lifetime * 1000000000) ∨
      (t ≠ ticket ∧ tickets t = some session) := by
  unfold Tickets.insert at h
  by_cases hne : t = ticket
  · subst hne
    rw [Function.update_self] at h
    cases h
    exact .inl ⟨rfl, rfl⟩
  · rw [Function.update_of_ne hne] at h
    exact .inr ⟨hne, h⟩

/-- `create_ticket` stores a ticket that was never issued before. -/
theorem TicketInv.insert (h : TicketInv config s) (pfsKey : ByteArr 64)
    (hfresh : ∀ x ∈ s.issued, x.ticket ≠ ticket) (hl : lifetime ≠ 0) :
    TicketInv config { s with
      tickets := s.tickets.insert s.clock ticket pfsKey lifetime
      issued := s.issued ++ [⟨ticket, lifetime, s.clock + lifetime * 1000000000⟩] } := by
  refine ⟨?_, ?_, ?_, ?_, h.once, h.enabled⟩
  · intro i task ht
    refine (h.tasks i task ht).frame (Nat.le_refl _) fun t session hs => ?_
    rcases Tickets.insert_some hs with ⟨_, he⟩ | ⟨_, hs⟩
    · exact .inr (by omega)
    · exact .inl ⟨session, hs, rfl⟩
  · intro t session hs
    rcases Tickets.insert_some hs with ⟨rfl, he⟩ | ⟨_, hs⟩
    · exact ⟨_, mem_append_right _ (mem_singleton.mpr rfl), rfl, hl, he.symm⟩
    · obtain ⟨x, hx, hrest⟩ := h.stored t session hs
      exact ⟨x, mem_append_left _ hx, hrest⟩
  · intro a ha session hs
    have hne : a.ticket ≠ ticket := by
      obtain ⟨_, _, x, hx, hxt, _⟩ := h.accepted a ha
      rw [← hxt]
      exact hfresh x hx
    rcases Tickets.insert_some hs with ⟨ht, _⟩ | ⟨_, hs⟩
    · exact absurd ht hne
    · exact h.replay a ha session hs
  · intro a ha
    obtain ⟨c, hc, x, hx, hrest⟩ := h.accepted a ha
    exact ⟨c, hc, x, mem_append_left _ hx, hrest⟩

theorem Tickets.retain_some {now : Nat} (h : tickets.retain now ticket = some session) :
    tickets ticket = some session ∧ now < session.expires := by
  obtain ⟨hs, hexp⟩ := filter_eq_some_iff.mp h
  exact ⟨hs, of_decide_eq_true hexp⟩

/-- `cleanup_tickets` drops what has expired. -/
theorem TicketInv.retain (h : TicketInv config s) (now : Nat) :
    TicketInv config { s with tickets := s.tickets.retain now } := by
  refine ⟨?_, ?_, ?_, h.accepted, h.once, h.enabled⟩
  · intro i task ht
    exact (h.tasks i task ht).frame (Nat.le_refl _) fun t session hs =>
      .inl ⟨session, (Tickets.retain_some hs).1, rfl⟩
  · intro t session hs
    exact h.stored t session (Tickets.retain_some hs).1
  · intro a ha session hs
    exact h.replay a ha session (Tickets.retain_some hs).1

theorem Tickets.lookup_cases (tickets : Tickets) (ticket : ByteArr 16) (nfsKey : ByteArr 32) :
    ((∀ pfsKey, (tickets.lookup ticket nfsKey).1 ≠ some (.ok pfsKey)) ∧
      (tickets.lookup ticket nfsKey).2 = tickets) ∨
    ∃ session, tickets ticket = some session ∧ nfsKey ∉ session.replayKeys ∧
      tickets.lookup ticket nfsKey = (some (.ok session.pfsKey), Function.update tickets ticket
        (some { session with replayKeys := nfsKey :: session.replayKeys })) := by
  unfold Tickets.lookup
  cases h : tickets ticket with
  | none => exact .inl ⟨nofun, rfl⟩
  | some session =>
    by_cases hmem : nfsKey ∈ session.replayKeys
    · simp only [if_pos hmem]
      exact .inl ⟨nofun, trivial⟩
    · exact .inr ⟨session, rfl, hmem, by simp only [if_neg hmem]⟩

/-- A lookup that succeeds, after a cleanup with the reading `c`. -/
theorem TicketInv.accept (h : TicketInv config s) {nfsKey : ByteArr 32} {c : Nat}
    (hs : s.tickets ticket = some session) (hnew : nfsKey ∉ session.replayKeys)
    (hexp : c < session.expires) (henabled : ¬ (config.lifetimeFrom = 0 ∧ config.lifetimeTo = 0)) :
    TicketInv config { s with
      tickets := Function.update s.tickets ticket
        (some { session with replayKeys := nfsKey :: session.replayKeys })
      accepted := s.accepted ++ [⟨ticket, nfsKey, some c⟩] } := by
  have hupd : ∀ t ses, Function.update s.tickets ticket
      (some { session with replayKeys := nfsKey :: session.replayKeys }) t = some ses →
      ∃ old, s.tickets t = some old ∧ old.expires = ses.expires ∧
        (∀ k ∈ old.replayKeys, k ∈ ses.replayKeys) ∧ (t = ticket → nfsKey ∈ ses.replayKeys) := by
    intro t ses ht
    by_cases hne : t = ticket
    · subst hne
      rw [Function.update_self] at ht
      cases ht
      exact ⟨session, hs, rfl, fun k hk => mem_cons_of_mem _ hk,
        fun _ => mem_cons_self⟩
    · rw [Function.update_of_ne hne] at ht
      exact ⟨ses, ht, rfl, fun k hk => hk, fun e => absurd e hne⟩
  refine ⟨?_, ?_, ?_, ?_, ?_, fun _ => henabled⟩
  · intro i task ht
    refine (h.tasks i task ht).frame (Nat.le_refl _) fun t ses hses => .inl ?_
    obtain ⟨old, hold, he, _⟩ := hupd t ses hses
    exact ⟨old, hold, he⟩
  · intro t ses hses
    obtain ⟨old, hold, he, _⟩ := hupd t ses hses
    obtain ⟨x, hx, hxt, hxl, hxe⟩ := h.stored t old hold
    exact ⟨x, hx, hxt, hxl, hxe.trans he⟩
  · intro a ha ses hses
    obtain ⟨old, hold, _, hsub, hself⟩ := hupd a.ticket ses hses
    rcases mem_append.mp ha with ha | ha
    · exact hsub _ (h.replay a ha old hold)
    · cases mem_singleton.mp ha
      exact hself rfl
  · intro a ha
    rcases mem_append.mp ha with ha | ha
    · exact h.accepted a ha
    · cases mem_singleton.mp ha
      obtain ⟨x, hx, hxt, hxl, hxe⟩ := h.stored ticket session hs
      exact ⟨c, rfl, x, hx, hxt, hxl, by omega⟩
  · rw [map_append, map_singleton, nodup_append]
    refine ⟨h.once, by simp, ?_⟩
    rintro p hp q hq rfl
    obtain ⟨a, ha, hap⟩ := mem_map.mp hp
    rw [mem_singleton.mp hq] at hap
    -- the pair was accepted before, so its key is in the replay set
    obtain ⟨hat, hak⟩ : a.ticket = ticket ∧ a.nfsKey = nfsKey := Prod.mk.inj hap
    refine hnew ?_
    rw [← hak]
    exact h.replay a ha session (by rw [hat]; exact hs)

/-- What a handshake knows after a request that is not a cleanup. -/
theorem HandshakeTask.Ok.reply {e : Effect} {k : e.Reply → Handshake HandshakeResult}
    (h : HandshakeTask.Ok config s ⟨.call e k, cleanup⟩) {r : e.Reply}
    (hr : ∀ latest ≤ s.clock, ∃ latest' ≤ s.clock,
      (ticketProtocol config).next ⟨latest, cleanup⟩ e r ⟨latest', cleanup⟩) :
    HandshakeTask.Ok config s ⟨k r, cleanup⟩ := by
  obtain ⟨latest, hle, hf⟩ := h.safe
  obtain ⟨latest', hle', hnext⟩ := hr latest hle
  exact ⟨⟨latest', hle', hf.2 r _ hnext⟩, h.cleaned⟩

/-- The ticket that a step stores was not issued before. -/
def TicketServer.Fresh (s : TicketServer) (a : ServerAction) : Prop :=
  match a with
  | .run i =>
    match s.tasks[i]? with
    | some ⟨.call (.insertTicket ticket _ _) _, _⟩ => ∀ x ∈ s.issued, x.ticket ≠ ticket
    | _ => True
  | _ => True

instance (s : TicketServer) (a : ServerAction) : Decidable (s.Fresh a) := by
  unfold TicketServer.Fresh
  split
  · split <;> infer_instance
  · infer_instance

theorem TicketInv.runTask (h : TicketInv config s) (ht : s.tasks[i]? = some task)
    (hfresh : s.Fresh (.run i)) (hs : s.runTask i task = some s') : TicketInv config s' := by
  obtain ⟨prog, cleanup⟩ := task
  have hok := h.tasks i _ ht
  unfold TicketServer.runTask at hs
  split at hs
  case h_1 k hp =>
    cases hs
    cases hp
    refine h.move (hok.reply fun latest hle => ⟨s.clock, Nat.le_refl _, hle, rfl⟩)
  case h_2 ticket pfsKey lifetime k hp =>
    cases hs
    cases hp
    obtain ⟨latest, hle, hf⟩ := hok.safe
    simp only [TicketServer.Fresh, ht] at hfresh
    have hinv := h.insert pfsKey hfresh hf.1
    exact hinv.move ((hinv.tasks i _ ht).reply fun latest hle => ⟨latest, hle, rfl⟩)
  case h_3 now k hp =>
    cases hs
    cases hp
    obtain ⟨latest, hle, hf⟩ := hok.safe
    refine (h.retain now).move ⟨⟨latest, hle, hf.2 () _ rfl⟩, ?_⟩
    rintro _ ⟨⟩
    exact ⟨Nat.le_trans hf.1 hle, fun t session hs => (Tickets.retain_some hs).2⟩
  case h_4 ticket nfsKey k hp =>
    cases hs
    cases hp
    obtain ⟨latest, hle, hf⟩ := hok.safe
    obtain ⟨⟨hclean, henabled⟩, _⟩ := hf
    obtain ⟨c, rfl⟩ := isSome_iff_exists.mp hclean
    rcases s.tickets.lookup_cases ticket nfsKey with ⟨hno, hsame⟩ | ⟨session, hsome, hnew, hl⟩
    · dsimp only
      rw [hsame]
      split
      case h_1 pfsKey hr => exact absurd hr (hno pfsKey)
      case h_2 => exact h.move (hok.reply fun latest hle => ⟨latest, hle, rfl⟩)
    · have hinv := h.accept hsome hnew ((hok.cleaned c rfl).2 ticket session hsome) henabled
      rw [hl]
      exact hinv.move ((hinv.tasks i _ ht).reply fun latest hle => ⟨latest, hle, rfl⟩)
  case h_5 => cases hs

variable {C : Crypto} {K : KeyExchange} {server : Server}

theorem TicketInv.step (h : TicketInv server.config s) {a : ServerAction} (hfresh : s.Fresh a)
    (hs : s.step C K server a = some s') : TicketInv server.config s' := by
  cases a with
  | connect draws =>
    cases hs
    refine h.quiet rfl rfl rfl (forall_snoc ?_ ?_)
    · intro i task ht
      exact (h.tasks i task ht).frame (Nat.le_refl _) fun _ ses hs => .inl ⟨ses, hs, rfl⟩
    · exact ⟨⟨0, Nat.zero_le _, handshake_obeys C K server draws _⟩, nofun⟩
  | tick elapsed =>
    cases hs
    refine h.quiet rfl rfl rfl fun i task ht => ?_
    exact (h.tasks i task ht).frame (Nat.le_add_right _ _) fun _ ses hs => .inl ⟨ses, hs, rfl⟩
  | arrive i r =>
    obtain ⟨⟨prog, cleanup⟩, ht, hs⟩ := bind_eq_some_iff.mp hs
    have hok := h.tasks i _ ht
    unfold TicketServer.arriveTask at hs
    split at hs
    case h_1 n stage k hp =>
      cases hp
      split at hs
      · cases hs
        exact h.move (hok.reply fun latest hle => ⟨latest, hle, rfl⟩)
      · split at hs
        · cases hs
          exact h.move (hok.reply fun latest hle => ⟨latest, hle, rfl⟩)
        · cases hs
    case h_2 => cases hs
  | written i r =>
    obtain ⟨⟨prog, cleanup⟩, ht, hs⟩ := bind_eq_some_iff.mp hs
    have hok := h.tasks i _ ht
    unfold TicketServer.writtenTask at hs
    split at hs
    case h_1 bytes k hp =>
      cases hp
      cases hs
      exact h.move (hok.reply fun latest hle => ⟨latest, hle, rfl⟩)
    case h_2 => cases hs
  | run i =>
    obtain ⟨task, ht, hs⟩ := bind_eq_some_iff.mp hs
    exact h.runTask ht hfresh hs

theorem TicketInv.init : TicketInv server.config (ticketServer C K server).init where
  tasks _ _ h := by cases h
  stored _ _ h := by cases h
  replay _ h := by cases h
  accepted _ h := by cases h
  once := nodup_nil
  enabled h := absurd rfl h

end

/-- **Replay protection.** In every run of handshakes on one server, under every schedule and
passage of time, in which no stored ticket was issued before: no pair of a ticket and a key is
accepted twice; a ticket is accepted only after a cleanup of the same handshake, if it was issued
with a lifetime and expires after the clock reading of that cleanup; and none is accepted if both
lifetimes of the configuration are zero. -/
theorem accepted_once (C : Crypto) (K : KeyExchange) (server : Server) (as : List ServerAction)
    (s : TicketServer)
    (hfresh : (ticketServer C K server).Along TicketServer.Fresh (ticketServer C K server).init as)
    (h : (ticketServer C K server).run as = some s) :
    (s.accepted.map fun a => (a.ticket, a.nfsKey)).Nodup ∧
    (∀ a ∈ s.accepted, ∃ c, a.cleanup = some c ∧
      ∃ x ∈ s.issued, x.ticket = a.ticket ∧ x.lifetime ≠ 0 ∧ c < x.expires) ∧
    (server.config.lifetimeFrom = 0 ∧ server.config.lifetimeTo = 0 → s.accepted = []) := by
  have hinv : TicketInv server.config s := Machine.run_inv TicketInv.init
    (fun _ _ _ hG hi hs => hi.step hG hs) hfresh h
  refine ⟨hinv.once, hinv.accepted, fun hzero => ?_⟩
  refine Classical.byContradiction fun hne => ?_
  exact hinv.enabled hne hzero

/-- A message of the handshake under `Crypto.tagged`, the `n`-th of its state. -/
def taggedMessage (n : UInt8) (msg : Bytes) : Bytes :=
  msg ++ CipherKind.aes256Gcm.tag ⟨List.replicate 11 0 ++ [n], rfl⟩

/-- The handshake `i` reads a client that presents the ticket of lifetime `60`, and looks it up. -/
def presentTicket (i : Nat) : List ServerAction :=
  [.connect .zero, .arrive i (.ok (List.replicate 48 0)),
    .arrive i (.ok (taggedMessage 1 (be16 32))),
    .arrive i (.ok (taggedMessage 2 (be16 60 ++ List.replicate 14 0))), .run i, .tick 1, .run i,
    .run i]

/-- The handshake `0` issues a ticket. -/
def issueTicket : List ServerAction :=
  [.connect .zero, .arrive 0 (.ok (List.replicate 48 0)),
    .arrive 0 (.ok (taggedMessage 1 (be16 1232))),
    .arrive 0 (.ok (taggedMessage 2 (List.replicate 1216 0))), .run 0, .tick 5]

/-- A handshake issues a ticket; a later one uses it, and a third one tries it again. -/
def replayedTicket : List ServerAction := issueTicket ++ presentTicket 1 ++ presentTicket 2

theorem accepted_once_replayed : ∃ s,
    (ticketServer .tagged .zero (.new .zero (zeroConfig .native))).run replayedTicket = some s ∧
      s.accepted.map (·.cleanup) = [some 5] ∧
      (s.accepted.map fun a => (a.ticket, a.nfsKey)).Nodup :=
  ⟨_, eq_some_of_isSome (by decide +kernel), by decide +kernel,
    (accepted_once .tagged .zero (.new .zero (zeroConfig .native)) replayedTicket _
      (by decide +kernel) (eq_some_of_isSome (by decide +kernel))).1⟩

end Xhttp.Encryption
