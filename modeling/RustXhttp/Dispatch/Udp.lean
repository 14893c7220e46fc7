import RustXhttp.Dispatch.Writer
import RustXhttp.Lib.Machine
import RustXhttp.Lib.Word

/-!
# Plain UDP (`src/dispatcher.rs`, `serve_udp`; `src/xudp.rs`)

A VLESS UDP connection carries datagrams with a two-byte length in front. Each round of the loop
of `serve_udp` races the read of the next datagram of the client against a datagram of the target
in a `select!`; the branch that does not finish is dropped. The read takes its bytes out of the
client's stream as they arrive, so a dropped read takes them with it.

* `serveUdp wire`: the loop over a client stream `wire`, under every arrival of its bytes and
  every choice of the `select!`.
* `accounted`: the bytes of `wire` that are in a datagram sent, in the current read, or still to
  be read. Exactly a reply that interrupts a started read loses some of them (`accounted_step`).
* `datagrams_kept_iff`: the datagrams sent are a prefix of the client's, and all of them at the
  end, when no started read is interrupted, and only then.
* `interrupted_read_misframes`: a reply between the length and the payload of a datagram makes the
  loop read a length out of the payload.
-/

namespace Xhttp.Dispatch

open List

/-! ## Reading and writing a datagram -/

/-- The errors of `XudpError` that the plain datagrams have. -/
inductive XudpError where
  | io
  | payloadLength (n : Nat)
  deriving DecidableEq, Repr

/-- The two-byte length and the payload. -/
def plainFrame (payload : Bytes) : Bytes := be16 payload.length ++ payload

def encodePlainDatagram (payload : Bytes) : Except XudpError Bytes :=
  if payload.length > 65535 then .error (.payloadLength payload.length)
  else .ok (plainFrame payload)

/-- A suspended `read_plain_datagram`: in `read_u16`, or in the `read_exact` of the payload. What
it waits for is not complete. -/
inductive ReadPlain where
  | length (got : Bytes) (short : got.length < 2)
  | payload (len : Nat) (got : Bytes) (u16 : len < 65536) (short : got.length < len)
  deriving DecidableEq

/-- The result of polling `read_plain_datagram`: it waits, or it returns a datagram and leaves the
rest of the bytes unread. -/
inductive ReadPoll where
  | pending (r : ReadPlain)
  | ready (datagram rest : Bytes)
  deriving DecidableEq

namespace ReadPlain

def start : ReadPlain := .length [] (by decide)

/-- The bytes that the read has taken out of the stream. -/
def taken : ReadPlain → Bytes
  | .length got _ => got
  | .payload len got _ _ => be16 len ++ got

/-- `read_exact` of the payload, with `got` of it read and `src` to be read. -/
def pollPayload (len : Nat) (u16 : len < 65536) (got src : Bytes) : ReadPoll :=
  if short : (got ++ src).length < len then .pending (.payload len (got ++ src) u16 short)
  else .ready ((got ++ src).take len) ((got ++ src).drop len)

/-- A poll of the read when the bytes `src` are there. -/
def poll (r : ReadPlain) (src : Bytes) : ReadPoll :=
  match r with
  | .length got _ =>
    match got ++ src with
    | [] => .pending start
    | [a] => .pending (.length [a] (by simp))
    | a :: b :: rest => pollPayload (ofBe16 a b) (ofBe16_lt a b) [] rest
  | .payload len got u16 _ => pollPayload len u16 got src

/-- What a poll does to the bytes: a pending read has taken all of them, and a datagram that is
returned was there with its length in front. -/
def PollSpec (src : Bytes) : ReadPoll → Prop
  | .pending r => r.taken = src
  | .ready d rest => d.length < 65536 ∧ plainFrame d ++ rest = src

theorem pollPayload_spec (len : Nat) (u16 : len < 65536) (got src : Bytes) :
    PollSpec (be16 len ++ got ++ src) (pollPayload len u16 got src) := by
  unfold pollPayload
  split
  · exact (append_assoc _ _ _).symm
  case isFalse hlong =>
    have hlen : ((got ++ src).take len).length = len := by
      rw [length_take]
      omega
    refine ⟨by rw [hlen]; exact u16, ?_⟩
    rw [plainFrame, hlen, append_assoc, take_append_drop, append_assoc]

theorem poll_spec (r : ReadPlain) (src : Bytes) : PollSpec (r.taken ++ src) (r.poll src) := by
  cases r with
  | payload len got u16 short => exact pollPayload_spec len u16 got src
  | length got short =>
    simp only [poll, taken]
    split
    case h_1 h => rw [h]; rfl
    case h_2 a h => rw [h]; rfl
    case h_3 a b rest h =>
      rw [h]
      have := pollPayload_spec (ofBe16 a b) (ofBe16_lt a b) [] rest
      rwa [be16_ofBe16] at this

end ReadPlain

/-! ## The loop -/

/-- The errors of `DispatchError` with which the loop of `serve_udp` ends. -/
inductive ServeUdpError where
  | xudp (e : XudpError)
  | io
  | send (e : SendError)
  | udpIdle
  deriving DecidableEq, Repr

/-- Where the operation of the current round is: in the `select!` with its read of the client, or
in the arm that it chose. -/
inductive UdpPhase where
  | select (read : ReadPlain)
  | sending (datagram : Bytes)
  | replying (frame : Bytes)
  deriving DecidableEq

/-- The errors that the operation can meet in a phase; the timeout is around all of them. -/
def UdpPhase.mayFail : UdpPhase → ServeUdpError → Bool
  | _, .udpIdle => true
  | .select _, .xudp .io => true
  | .select _, .io => true
  | .sending _, .io => true
  | .replying _, .send _ => true
  | _, _ => false

structure UdpServer where
  /-- What the client has sent and the reader does not have yet. -/
  toCome : Bytes
  unread : Bytes
  eof : Bool
  phase : UdpPhase
  /-- The datagrams sent to the target. -/
  sent : List Bytes
  /-- The frames written to the client. -/
  replies : List Bytes
  downloadBytes : Nat
  result : Option ServeUdpError
  deriving DecidableEq

/-- `arrive n`: the next `n` bytes of the client reach the reader, and `hangUp`: its stream ends
there. `poll`: the `select!` polls the read. `recv d`: the target's datagram `d` is there when the
`select!` polls the socket. `sent` and `replied`: the arm of the round ends. `fail e`: it ends with
the error `e`, or the timer of the round fires. -/
inductive UdpAction where
  | arrive (n : Nat)
  | hangUp
  | poll
  | recv (datagram : Bytes)
  | sent
  | replied
  | fail (e : ServeUdpError)
  deriving DecidableEq

namespace UdpServer

variable (s : UdpServer)

def round : UdpServer := { s with phase := .select .start }

def count (d : Bytes) : UdpServer :=
  { s with downloadBytes := wrappingAdd s.downloadBytes d.length }

def step (a : UdpAction) : Option UdpServer :=
  if s.result ≠ none then none
  else
    match a, s.phase with
    | .arrive n, _ =>
      if s.eof then none
      else some { s with toCome := s.toCome.drop n, unread := s.unread ++ s.toCome.take n }
    | .hangUp, _ => some { s with eof := true }
    | .poll, .select r =>
      match r.poll s.unread with
      | .ready d rest => some { s with phase := .sending d, unread := rest }
      | .pending r =>
        let result := if s.eof then some (.xudp .io) else none
        some { s with phase := .select r, unread := [], result := result }
    | .recv d, .select _ =>
      -- the receive buffer has 65535 bytes; the read of the round is dropped
      match encodePlainDatagram (d.take 65535) with
      | .error e =>
        some { s.count (d.take 65535) with phase := .replying [], result := some (.xudp e) }
      | .ok frame => some { s.count (d.take 65535) with phase := .replying frame }
    | .sent, .sending d => some { s with sent := s.sent ++ [d] }.round
    | .replied, .replying frame => some { s with replies := s.replies ++ [frame] }.round
    | .fail e, ph => if ph.mayFail e then some { s with result := some e } else none
    | _, _ => none

end UdpServer

/-- The loop of `serve_udp` for a client that sends `wire`. -/
def serveUdp (wire : Bytes) : Machine UdpServer UdpAction where
  init := ⟨wire, [], false, .select .start, [], [], 0, none⟩
  step := UdpServer.step

/-! ## Where the bytes of the client are -/

/-- The bytes of the client that the current round holds. -/
def UdpPhase.held : UdpPhase → Bytes
  | .select r => r.taken
  | .sending d => plainFrame d
  | .replying _ => []

namespace UdpServer

def accounted (s : UdpServer) : Bytes :=
  s.sent.flatMap plainFrame ++ s.phase.held ++ s.unread ++ s.toCome

/-- A datagram of the target does not interrupt a read that has taken bytes. -/
def KeepsRead (s : UdpServer) (a : UdpAction) : Prop :=
  ∀ d r, a = .recv d → s.phase = .select r → r.taken = []

/-- The lengths of the datagrams fit the length field. -/
structure Sized (s : UdpServer) : Prop where
  sent : ∀ d ∈ s.sent, d.length < 65536
  sending : ∀ d, s.phase = .sending d → d.length < 65536

section

variable {s s' : UdpServer} {a : UdpAction}

/-- A step keeps the bytes, except that a reply drops what the read of the round has taken. -/
theorem accounted_step (hz : s.Sized) (h : s.step a = some s') :
    s'.Sized ∧ ((∀ d, a ≠ .recv d) ∧ s'.accounted = s.accounted ∨
      ∃ d r x y, a = .recv d ∧ s.phase = .select r ∧
        s.accounted = x ++ r.taken ++ y ∧ s'.accounted = x ++ y) := by
  unfold step at h
  split at h
  · cases h
  split at h
  case h_1 n _ =>
    split at h
    · cases h
    · cases h
      refine ⟨⟨hz.sent, hz.sending⟩, .inl ⟨nofun, ?_⟩⟩
      simp [accounted]
  case h_2 => cases h; exact ⟨⟨hz.sent, hz.sending⟩, .inl ⟨nofun, rfl⟩⟩
  case h_3 r hph =>
    have hpoll := r.poll_spec s.unread
    split at h
    case h_1 d rest hr =>
      cases h
      rw [hr] at hpoll
      refine ⟨⟨hz.sent, by rintro _ ⟨⟩; exact hpoll.1⟩, .inl ⟨nofun, ?_⟩⟩
      simp only [accounted, hph, UdpPhase.held, append_assoc]
      rw [← append_assoc (plainFrame d), hpoll.2, append_assoc]
    case h_2 r' hr =>
      rw [hr] at hpoll
      cases h
      refine ⟨⟨hz.sent, by rintro _ ⟨⟩⟩, .inl ⟨nofun, ?_⟩⟩
      simp only [accounted, hph, UdpPhase.held, append_nil, append_assoc]
      rw [show r'.taken = _ from hpoll, append_assoc]
  case h_4 d r hph =>
    refine ⟨?_, .inr ⟨d, r, s.sent.flatMap plainFrame, s.unread ++ s.toCome, rfl, hph, ?_, ?_⟩⟩
    · split at h <;> cases h <;> exact ⟨hz.sent, by rintro _ ⟨⟩⟩
    · simp only [accounted, hph, UdpPhase.held, append_assoc]
    · split at h <;> cases h <;>
        simp only [accounted, count, UdpPhase.held, append_nil, append_assoc]
  case h_5 d hph =>
    cases h
    refine ⟨⟨?_, by rintro _ ⟨⟩⟩, .inl ⟨nofun, ?_⟩⟩
    · intro d' hd
      rcases mem_append.mp hd with hd | hd
      · exact hz.sent d' hd
      · rw [mem_singleton.mp hd]
        exact hz.sending d hph
    · simp [accounted, round, hph, UdpPhase.held, ReadPlain.start, ReadPlain.taken]
  case h_6 frame hph =>
    cases h
    refine ⟨⟨hz.sent, by rintro _ ⟨⟩⟩, .inl ⟨nofun, ?_⟩⟩
    simp [accounted, round, hph, UdpPhase.held, ReadPlain.start, ReadPlain.taken]
  case h_7 =>
    split at h
    · cases h; exact ⟨⟨hz.sent, hz.sending⟩, .inl ⟨nofun, rfl⟩⟩
    · cases h
  case h_8 => cases h

theorem accounted_of_keeps (hz : s.Sized) (hk : s.KeepsRead a) (h : s.step a = some s') :
    s'.accounted = s.accounted := by
  obtain ⟨_, ⟨_, heq⟩ | ⟨d, r, x, y, ha, hph, hs, hs'⟩⟩ := accounted_step hz h
  · exact heq
  · rw [hs, hs', hk d r ha hph, append_nil]

theorem accounted_of_not_keeps (hz : s.Sized) (hk : ¬ s.KeepsRead a) (h : s.step a = some s') :
    s'.accounted.length < s.accounted.length := by
  simp only [KeepsRead, Classical.not_forall] at hk
  obtain ⟨d, r, rfl, hph, htaken⟩ := hk
  obtain ⟨_, ⟨hne, _⟩ | ⟨_, r', x, y, _, hph', hs, hs'⟩⟩ := accounted_step hz h
  · exact absurd rfl (hne d)
  · rw [hph] at hph'
    cases hph'
    have hpos := length_pos_iff.mpr htaken
    simp only [hs, hs', length_append]
    omega

end

end UdpServer

/-! ## The datagrams that reach the target -/

theorem plainFrame_prefixFree : PrefixFree (fun d : Bytes => d.length < 65536) plainFrame where
  ne_nil d _ := by simp [plainFrame, be16]
  cancel a b x y ha hb he := by
    simp only [plainFrame, append_assoc] at he
    obtain ⟨hlen, he⟩ := append_inj he rfl
    exact append_inj he (be16_inj ha hb hlen)

theorem encodePlainDatagram_ok {d f : Bytes} (h : encodePlainDatagram d = .ok f) :
    d.length < 65536 ∧ f = plainFrame d := by
  unfold encodePlainDatagram at h
  split at h
  · cases h
  · cases h
    exact ⟨by omega, rfl⟩

/-- The outputs of `encode_plain_datagram`. -/
theorem encodePlainDatagram_map {ds frames : List Bytes}
    (h : ds.map encodePlainDatagram = frames.map .ok) :
    frames.flatten = ds.flatMap plainFrame ∧ ∀ d ∈ ds, d.length < 65536 := by
  induction ds generalizing frames with
  | nil =>
    rw [map_eq_nil_iff.mp h.symm]
    exact ⟨rfl, by simp⟩
  | cons d ds ih =>
    cases frames with
    | nil => cases h
    | cons f frames =>
      rw [map_cons, map_cons, List.cons.injEq] at h
      obtain ⟨hd, rfl⟩ := encodePlainDatagram_ok h.1
      obtain ⟨hflat, hsized⟩ := ih h.2
      exact ⟨by rw [flatten_cons, hflat, flatMap_cons],
        forall_mem_cons.mpr ⟨hd, hsized⟩⟩

/-- A pending read does not hold a whole datagram. -/
theorem ReadPlain.taken_ne_frame (r : ReadPlain) {d rest : Bytes} (hd : d.length < 65536) :
    r.taken ≠ plainFrame d ++ rest := by
  intro he
  cases r with
  | length got short =>
    have := congrArg List.length he
    simp only [taken, plainFrame, length_append, length_be16] at this
    omega
  | payload len got u16 short =>
    simp only [taken, plainFrame, append_assoc] at he
    obtain ⟨hlen, he⟩ := append_inj he rfl
    have hl := be16_inj u16 hd hlen
    have := congrArg List.length he
    simp only [length_append] at this
    omega

/-- Every byte of the client has arrived and has been taken by the loop, which is at its
`select!`. -/
def UdpServer.AllConsumed (s : UdpServer) : Prop :=
  s.toCome = [] ∧ s.unread = [] ∧ ∃ r, s.phase = .select r

theorem UdpServer.sized_init (wire : Bytes) : (serveUdp wire).init.Sized :=
  ⟨by simp [serveUdp], by simp [serveUdp]⟩

theorem UdpServer.accounted_init (wire : Bytes) : (serveUdp wire).init.accounted = wire := by
  simp [serveUdp, accounted, UdpPhase.held, ReadPlain.start, ReadPlain.taken]

section

variable {ds : List Bytes} {t : UdpServer}

/-- Without losses, the datagrams sent are the first ones of the client. -/
theorem sent_prefix (hds : ∀ d ∈ ds, d.length < 65536) (hz : t.Sized)
    (ha : t.accounted = ds.flatMap plainFrame) :
    ∃ cs, ds = t.sent ++ cs ∧ t.phase.held ++ t.unread ++ t.toCome = cs.flatMap plainFrame := by
  simp only [UdpServer.accounted, append_assoc] at ha
  obtain ⟨cs, hcs, hrest⟩ := plainFrame_prefixFree.flatMap_cancel hz.sent hds ha
  exact ⟨cs, hcs, by rw [append_assoc, hrest]⟩

theorem sent_eq_of_consumed (hds : ∀ d ∈ ds, d.length < 65536) (hz : t.Sized)
    (ha : t.accounted = ds.flatMap plainFrame) (hc : t.AllConsumed) : t.sent = ds := by
  obtain ⟨cs, rfl, hrest⟩ := sent_prefix hds hz ha
  obtain ⟨htoCome, hunread, r, hph⟩ := hc
  rw [htoCome, hunread, hph, append_nil, append_nil] at hrest
  cases cs with
  | nil => rw [append_nil]
  | cons d cs => exact absurd hrest (r.taken_ne_frame (hds d (by simp)))

/-- When every datagram of the client was sent, no byte is missing. -/
theorem accounted_of_sent_eq (he : t.sent = ds) :
    (ds.flatMap plainFrame).length ≤ t.accounted.length := by
  subst he
  simp only [UdpServer.accounted, length_append]
  omega

end

/-- **Framing of the uplink.** For every client stream made of encoded datagrams, every arrival of
its bytes and every interleaving with datagrams of the target: as long as no reply interrupts a
started read, the datagrams sent to the target are a prefix of the client's; and when the whole
stream has been consumed, they are all of them exactly if no reply did. -/
theorem datagrams_kept_iff (ds frames : List Bytes) (as : List UdpAction) (t : UdpServer)
    (hds : ds.map encodePlainDatagram = frames.map .ok)
    (h : (serveUdp frames.flatten).run as = some t) :
    ((serveUdp frames.flatten).Along UdpServer.KeepsRead (serveUdp frames.flatten).init as →
      t.sent <+: ds) ∧
    (t.AllConsumed → (t.sent = ds ↔
      (serveUdp frames.flatten).Along UdpServer.KeepsRead (serveUdp frames.flatten).init as)) := by
  obtain ⟨hflat, hsized⟩ := encodePlainDatagram_map hds
  rw [hflat] at h ⊢
  have hinit := UdpServer.accounted_init (ds.flatMap plainFrame)
  have hz : t.Sized := Machine.run_inv_all (UdpServer.sized_init _)
    (fun _ _ _ hz hs => (UdpServer.accounted_step hz hs).1) h
  obtain ⟨hle, hiff⟩ := Machine.along_iff_conserved
    (M := serveUdp (ds.flatMap plainFrame)) (μ := fun s => s.accounted.length)
    (fun _ _ _ hz hs => (UdpServer.accounted_step hz hs).1)
    (fun _ _ _ hk hz hs => congrArg List.length (UdpServer.accounted_of_keeps hz hk hs))
    (fun _ _ _ hk hz hs => UdpServer.accounted_of_not_keeps hz hk hs)
    (UdpServer.sized_init _) h
  rw [hinit] at hle hiff
  have hacc : (serveUdp (ds.flatMap plainFrame)).Along UdpServer.KeepsRead
      (serveUdp (ds.flatMap plainFrame)).init as → t.accounted = ds.flatMap plainFrame := by
    intro hk
    have hinv := Machine.run_inv (I := fun s => s.Sized ∧ s.accounted = ds.flatMap plainFrame)
      ⟨UdpServer.sized_init _, hinit⟩
      (fun s a s' hG hi hs => ⟨(UdpServer.accounted_step hi.1 hs).1,
        (UdpServer.accounted_of_keeps hi.1 hG hs).trans hi.2⟩) hk h
    exact hinv.2
  refine ⟨fun hk => ?_, fun hc => ⟨fun he => ?_, fun hk => ?_⟩⟩
  · obtain ⟨cs, hcs, _⟩ := sent_prefix hsized hz (hacc hk)
    exact ⟨cs, hcs.symm⟩
  · exact hiff.mp (Nat.le_antisymm hle (accounted_of_sent_eq he))
  · exact sent_eq_of_consumed hsized hz (hacc hk) hc

/-- Two datagrams that arrive in pieces, with a reply between them. -/
def repliedBetween : List UdpAction :=
  [.arrive 1, .poll, .arrive 1, .poll, .arrive 1, .poll, .sent, .recv [5], .replied, .arrive 3,
    .poll, .arrive 1, .poll, .sent]

theorem datagrams_kept_replied_between : ∃ t,
    (serveUdp [0, 1, 7, 0, 2, 8, 9]).run repliedBetween = some t ∧ t.sent = [[7], [8, 9]] ∧
      (serveUdp [0, 1, 7, 0, 2, 8, 9]).Along UdpServer.KeepsRead
        (serveUdp [0, 1, 7, 0, 2, 8, 9]).init repliedBetween := by
  have hkept := datagrams_kept_iff [[7], [8, 9]] [[0, 1, 7], [0, 2, 8, 9]] repliedBetween _ rfl rfl
  exact ⟨_, rfl, rfl, (hkept.2 ⟨rfl, rfl, _, rfl⟩).mp rfl⟩

/-- A reply of the target comes between the length and the payload of the client's datagram. -/
def repliedWithin : List UdpAction :=
  [.arrive 2, .poll, .recv [5], .replied, .arrive 3, .poll, .sent]

/-- The client sends the one datagram `00 01 09`; the target gets the datagram `09`. -/
theorem interrupted_read_misframes : ∃ t,
    [[0, 1, 9]].map encodePlainDatagram = [[0, 3, 0, 1, 9]].map .ok ∧
      (serveUdp [0, 3, 0, 1, 9]).run repliedWithin = some t ∧ t.result = none ∧ t.AllConsumed ∧
      t.sent = [[9]] ∧ ¬ t.sent <+: [[0, 1, 9]] :=
  ⟨_, rfl, rfl, rfl, ⟨rfl, rfl, _, rfl⟩, rfl, by decide⟩

end Xhttp.Dispatch
