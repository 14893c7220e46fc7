import RustXhttp.Tls.Record
import RustXhttp.Lib.Machine
import RustXhttp.Lib.Source

/-!
# The writing half of `TlsStream` (`src/tls/nginx_backend.rs`)

A call of `poll_write` seals one record. The record that the transport has not taken yet waits in
`write_buf`, and every call first goes on with it. `poll_shutdown` seals the `close_notify`.

The transport answers each poll of a call as it likes (`Answer`); when the answers of a call are
used up, it is pending. The writer keeps the history that the results are about: the records that
were sealed (`records`), the bytes that the transport took (`accepted`) and the bytes that
`poll_write` reported as written (`written`).

* `TlsWriter.Inv`: what every call keeps. `Inv.step` is about one call, `Inv.run` about any.
-/

namespace Xhttp.Tls

open List

def maxAppPlaintext : Nat := 16 * 1024

/-- What the transport answers to a poll: a write takes at most `n` bytes, a flush or a shutdown
is ready. -/
inductive Answer where
  | pending
  | accept (n : Nat)
  | fail (e : IoError)
  deriving DecidableEq, Repr

/-- `io::Error` of a write. -/
inductive WriteError where
  | writeZero (message : String)
  | inner (e : IoError)
  deriving DecidableEq, Repr

/-- A record that was sealed, with what was sealed in it. -/
structure Sealed where
  contentType : UInt8
  plaintext : Bytes
  record : Bytes
  deriving DecidableEq, Repr

/-- The fields of `TlsStream` that the writing calls use, and the history. -/
structure TlsWriter where
  writeKeys : RecordKeys
  writeBuf : Bytes
  writePos : Nat
  closeSent : Bool
  records : List Sealed
  accepted : Bytes
  written : Bytes

/-- A call, with the answers of the transport to its polls. -/
inductive Call where
  | write (buf : Bytes) (answers : List Answer)
  | flush (answers : List Answer)
  | shutdown (answers : List Answer)
  deriving DecidableEq, Repr

def Call.isWrite : Call → Bool
  | .write _ _ => true
  | _ => false

def Call.isShutdown : Call → Bool
  | .shutdown _ => true
  | _ => false

/-- A poll of the transport that takes no bytes. -/
def pollInner : List Answer → List Answer × Poll (Except WriteError Unit)
  | [] => ([], .pending)
  | .pending :: answers => (answers, .pending)
  | .fail e :: answers => (answers, .ready (.error (.inner e)))
  | .accept _ :: answers => (answers, .ready (.ok ()))

/-- `poll_flush` and then `poll_shutdown` of the transport. -/
def shutdownInner (answers : List Answer) : Poll (Except WriteError Unit) :=
  match pollInner answers with
  | (answers, .ready (.ok ())) => (pollInner answers).2
  | (_, r) => r

namespace TlsWriter

def new (writeKeys : RecordKeys) : TlsWriter where
  writeKeys := writeKeys
  writeBuf := []
  writePos := 0
  closeSent := false
  records := []
  accepted := []
  written := []

/-- The transport has taken the next `n` bytes of `write_buf`. -/
def advance (w : TlsWriter) (n : Nat) : TlsWriter :=
  { w with
    accepted := w.accepted ++ (w.writeBuf.drop w.writePos).take n
    writePos := w.writePos + n }

/-- The result comes with the answers that are left for the rest of the call. -/
def pollFlushPending (w : TlsWriter) (answers : List Answer) :
    TlsWriter × List Answer × Poll (Except WriteError Unit) :=
  if w.writePos < w.writeBuf.length then
    match answers with
    | [] => (w, [], .pending)
    | .pending :: answers => (w, answers, .pending)
    | .fail e :: answers => (w, answers, .ready (.error (.inner e)))
    | .accept n :: answers =>
      let n := min n (w.writeBuf.length - w.writePos)
      if n = 0 then (w, answers, .ready (.error (.writeZero "TLS socket write returned zero")))
      else (w.advance n).pollFlushPending answers
  else ({ w with writeBuf := [], writePos := 0 }, answers, .ready (.ok ()))

section

variable (A : Aead)

/-- A record is sealed into `write_buf`. -/
def put (w : TlsWriter) (contentType : UInt8) (plaintext : Bytes) : Option TlsWriter :=
  (w.writeKeys.seal A contentType plaintext).map fun r =>
    { w with
      writeKeys := r.1
      writeBuf := r.2
      writePos := 0
      records := w.records ++ [⟨contentType, plaintext, r.2⟩] }

def pollWrite (w : TlsWriter) (buf : Bytes) (answers : List Answer) :
    Option (TlsWriter × Poll (Except WriteError Nat)) :=
  match w.pollFlushPending answers with
  | (w, _, .pending) => some (w, .pending)
  | (w, _, .ready (.error e)) => some (w, .ready (.error e))
  | (w, answers, .ready (.ok ())) =>
    if buf = [] then some (w, .ready (.ok 0))
    else
      let n := min buf.length maxAppPlaintext
      -- the result of the second flush is ignored
      (w.put A recordApplicationData (buf.take n)).map fun w =>
        ((w.pollFlushPending answers).1, .ready (.ok n))

def pollFlush (w : TlsWriter) (answers : List Answer) : TlsWriter × Poll (Except WriteError Unit) :=
  match w.pollFlushPending answers with
  | (w, answers, .ready (.ok ())) => (w, (pollInner answers).2)
  | (w, _, r) => (w, r)

/-- The `close_notify` is sealed and sent. -/
def sendClose (w : TlsWriter) (answers : List Answer) :
    Option (TlsWriter × Poll (Except WriteError Unit)) :=
  (w.put A recordAlert [1, 0]).map fun w =>
    match { w with closeSent := true }.pollFlushPending answers with
    | (w, answers, .ready (.ok ())) => (w, shutdownInner answers)
    | (w, _, r) => (w, r)

def pollShutdown (w : TlsWriter) (answers : List Answer) :
    Option (TlsWriter × Poll (Except WriteError Unit)) :=
  match w.pollFlushPending answers with
  | (w, answers, .ready (.ok ())) =>
    if w.closeSent then some (w, shutdownInner answers) else w.sendClose A answers
  | (w, _, r) => some (w, r)

/-- The caller counts the bytes that `poll_write` reports. -/
def report (w : TlsWriter) (buf : Bytes) : Poll (Except WriteError Nat) → TlsWriter
  | .ready (.ok n) => { w with written := w.written ++ buf.take n }
  | _ => w

def step (w : TlsWriter) : Call → Option TlsWriter
  | .write buf answers => (w.pollWrite A buf answers).map fun r => r.1.report buf r.2
  | .flush answers => some (w.pollFlush answers).1
  | .shutdown answers => (w.pollShutdown A answers).map Prod.fst

end

/-- The bytes of the records that were sealed. -/
def wire (w : TlsWriter) : Bytes := (w.records.map Sealed.record).flatten

end TlsWriter

/-- A `TlsStream` under any calls, over a transport that answers as it likes. `none` is a panic. -/
def tlsWriter (A : Aead) (keys : RecordKeys) : Machine TlsWriter Call where
  init := .new keys
  step := TlsWriter.step A

/-! ## Flushing -/

namespace TlsWriter

/-- What `write_buf` still holds. -/
def unsent (w : TlsWriter) : Bytes := w.writeBuf.drop w.writePos

/-- `w'` is `w` after the transport took some of what was unsent. -/
structure Flushed (w w' : TlsWriter) : Prop where
  keys : w'.writeKeys = w.writeKeys
  closeSent : w'.closeSent = w.closeSent
  records : w'.records = w.records
  written : w'.written = w.written
  sent : w'.accepted ++ w'.unsent = w.accepted ++ w.unsent

theorem Flushed.refl (w : TlsWriter) : Flushed w w := ⟨rfl, rfl, rfl, rfl, rfl⟩

theorem Flushed.trans {w w' w'' : TlsWriter} (h : Flushed w w') (h' : Flushed w' w'') :
    Flushed w w'' :=
  ⟨h'.keys.trans h.keys, h'.closeSent.trans h.closeSent, h'.records.trans h.records,
    h'.written.trans h.written, h'.sent.trans h.sent⟩

theorem flushed_advance (w : TlsWriter) (n : Nat) : Flushed w (w.advance n) where
  keys := rfl
  closeSent := rfl
  records := rfl
  written := rfl
  sent := by
    have hdrop : (w.advance n).unsent = w.unsent.drop n := (drop_drop).symm
    have hacc : (w.advance n).accepted = w.accepted ++ w.unsent.take n := rfl
    rw [hdrop, hacc, append_assoc, take_append_drop]

/-- The transport takes bytes in order, and a flush that succeeds leaves nothing. -/
theorem flushed_pollFlushPending (w : TlsWriter) (answers : List Answer) :
    Flushed w (w.pollFlushPending answers).1 ∧
      ((w.pollFlushPending answers).2.2 = .ready (.ok ()) →
        (w.pollFlushPending answers).1.unsent = []) := by
  induction answers generalizing w with
  | nil =>
    unfold pollFlushPending
    split
    · exact ⟨.refl w, nofun⟩
    case isFalse hpos =>
      have hnil : w.unsent = [] := drop_of_length_le (Nat.le_of_not_lt hpos)
      exact ⟨⟨rfl, rfl, rfl, rfl, by rw [hnil]; rfl⟩, fun _ => rfl⟩
  | cons a answers ih =>
    unfold pollFlushPending
    split
    case isTrue =>
      cases a with
      | pending | fail e => exact ⟨.refl w, nofun⟩
      | accept n =>
        simp only
        split
        · exact ⟨.refl w, nofun⟩
        · obtain ⟨hflushed, hnil⟩ := ih (w.advance (min n (w.writeBuf.length - w.writePos)))
          exact ⟨(w.flushed_advance _).trans hflushed, hnil⟩
    case isFalse hpos =>
      have hnil : w.unsent = [] := drop_of_length_le (Nat.le_of_not_lt hpos)
      exact ⟨⟨rfl, rfl, rfl, rfl, by rw [hnil]; rfl⟩, fun _ => rfl⟩

/-- A `poll_flush` that succeeds leaves nothing unsent. -/
theorem flushed_pollFlush (w : TlsWriter) (answers : List Answer) :
    Flushed w (w.pollFlush answers).1 ∧
      ((w.pollFlush answers).2 = .ready (.ok ()) → (w.pollFlush answers).1.unsent = []) := by
  obtain ⟨hflushed, hnil⟩ := w.flushed_pollFlushPending answers
  unfold pollFlush
  split
  case h_1 w' answers' heq =>
    rw [heq] at hflushed hnil
    exact ⟨hflushed, fun _ => hnil rfl⟩
  case h_2 w' answers' r hne heq =>
    rw [heq] at hflushed
    exact ⟨hflushed, fun hr => absurd hr hne⟩

end TlsWriter

/-! ## The invariant -/

/-- The records that sealing one after the other from the keys `k` gives, and the keys after. -/
inductive Chain (A : Aead) : RecordKeys → List Sealed → RecordKeys → Prop where
  | nil (k : RecordKeys) : Chain A k [] k
  | cons {k k' k'' : RecordKeys} {r : Sealed} {rs : List Sealed}
      (h : k.seal A r.contentType r.plaintext = some (k', r.record)) (hrs : Chain A k' rs k'') :
      Chain A k (r :: rs) k''

theorem Chain.append {A : Aead} {k k' k'' : RecordKeys} {rs rs' : List Sealed}
    (h : Chain A k rs k') (h' : Chain A k' rs' k'') : Chain A k (rs ++ rs') k'' := by
  induction h with
  | nil k => exact h'
  | cons hr _ ih => exact .cons hr (ih h')

/-- A record of application data, as `poll_write` seals it. -/
def Sealed.IsData (r : Sealed) : Prop :=
  r.contentType = recordApplicationData ∧ r.plaintext.length ≤ maxAppPlaintext

/-- A `close_notify`. -/
def Sealed.IsClose (r : Sealed) : Prop := r.contentType = recordAlert ∧ r.plaintext = [1, 0]

/-- The records are the data `written`, and a `close_notify` if one was sent. -/
structure Shape (records : List Sealed) (written : Bytes) (closeSent : Bool) : Prop where
  split : ∃ data close, records = data ++ close ∧ (∀ r ∈ data, r.IsData) ∧
    data.flatMap Sealed.plaintext = written ∧
    (closeSent = false → close = []) ∧ (closeSent = true → ∃ r, close = [r] ∧ r.IsClose)

theorem Shape.snoc_data {records : List Sealed} {written : Bytes} (h : Shape records written false)
    {r : Sealed} (hr : r.IsData) : Shape (records ++ [r]) (written ++ r.plaintext) false := by
  obtain ⟨data, close, rfl, hdata, rfl, hopen, -⟩ := h.split
  obtain rfl := hopen rfl
  refine ⟨data ++ [r], [], by simp, ?_, by simp, fun _ => rfl, nofun⟩
  intro r' hr'
  obtain h' | h' := mem_append.mp hr'
  · exact hdata r' h'
  · exact mem_singleton.mp h' ▸ hr

theorem Shape.snoc_close {records : List Sealed} {written : Bytes}
    (h : Shape records written false) {r : Sealed} (hr : r.IsClose) :
    Shape (records ++ [r]) written true := by
  obtain ⟨data, close, rfl, hdata, rfl, hopen, -⟩ := h.split
  obtain rfl := hopen rfl
  exact ⟨data, [r], by simp, hdata, rfl, nofun, fun _ => ⟨r, rfl, hr⟩⟩

namespace TlsWriter

/-- What every call keeps: the transport has taken the records up to what is unsent, and the
records are the data that was reported as `written`. -/
structure Inv (A : Aead) (keys : RecordKeys) (written : Bytes) (w : TlsWriter) : Prop where
  sent : w.wire = w.accepted ++ w.unsent
  chain : Chain A keys w.records w.writeKeys
  shape : Shape w.records written w.closeSent

variable {A : Aead} {keys : RecordKeys} {written : Bytes} {w w' : TlsWriter}

theorem inv_new (A : Aead) (keys : RecordKeys) : Inv A keys [] (new keys) :=
  ⟨rfl, .nil keys, ⟨[], [], rfl, nofun, rfl, fun _ => rfl, nofun⟩⟩

theorem Inv.flushed (h : Inv A keys written w) (hf : Flushed w w') : Inv A keys written w' where
  sent := by rw [wire, hf.records, hf.sent, ← h.sent, wire]
  chain := by rw [hf.records, hf.keys]; exact h.chain
  shape := by rw [hf.records, hf.closeSent]; exact h.shape

/-- A record is sealed when nothing is left of the one before. -/
theorem Inv.put (h : Inv A keys written w) (hA : A.Lawful) (hnil : w.unsent = [])
    (contentType : UInt8) (plaintext : Bytes) (ht : contentType ≠ 0)
    (hl : plaintext.length ≤ maxAppPlaintext) :
    ∃ w' r, w.put A contentType plaintext = some w' ∧ w'.wire = w'.accepted ++ w'.unsent ∧
      Chain A keys w'.records w'.writeKeys ∧ w'.records = w.records ++ [r] ∧
      r.contentType = contentType ∧ r.plaintext = plaintext ∧ w'.closeSent = w.closeSent ∧
      w'.written = w.written := by
  have hfit : plaintext.length + 0 + 17 ≤ 65535 := by
    unfold maxAppPlaintext at hl
    omega
  obtain ⟨record, hseal, -⟩ := unseal_sealInto hA w.writeKeys ht plaintext 0 hfit
  have hput : w.put A contentType plaintext = some
      { w with
        writeKeys := w.writeKeys.next, writeBuf := record, writePos := 0,
        records := w.records ++ [⟨contentType, plaintext, record⟩] } := by
    simp only [TlsWriter.put, RecordKeys.seal, RecordKeys.sealWithPadding, hseal, Option.map_some]
  refine ⟨_, _, hput, ?_, ?_, rfl, rfl, rfl, rfl, rfl⟩
  · have hsent : w.wire = w.accepted := by rw [h.sent, hnil, append_nil]
    simp only [wire, map_append, flatten_append, map_cons, map_nil,
      flatten_cons, flatten_nil, append_nil, unsent, drop_zero]
    rw [← hsent]
    rfl
  · exact h.chain.append (.cons hseal (.nil _))

/-- `poll_write`: the bytes that it reports are in one more record. -/
theorem Inv.write (h : Inv A keys w.written w) (hA : A.Lawful) (hopen : w.closeSent = false)
    (buf : Bytes) (answers : List Answer) :
    ∃ w', w.step A (.write buf answers) = some w' ∧ Inv A keys w'.written w' ∧
      w'.closeSent = false := by
  obtain ⟨hflushed, hnil⟩ := w.flushed_pollFlushPending answers
  simp only [step, pollWrite]
  rcases hf : w.pollFlushPending answers with ⟨w₁, answers₁, _ | e | ⟨⟩⟩
  all_goals
    rw [hf] at hflushed hnil
    have h₁ : Inv A keys w₁.written w₁ := hflushed.written ▸ h.flushed hflushed
    have hopen₁ : w₁.closeSent = false := hflushed.closeSent.trans hopen
  · exact ⟨w₁, rfl, h₁, hopen₁⟩
  · exact ⟨w₁, rfl, h₁, hopen₁⟩
  · by_cases hbuf : buf = []
    · refine ⟨w₁.report buf (.ready (.ok 0)), by simp [hbuf], ?_, hopen₁⟩
      have hsame : w₁.report buf (.ready (.ok 0)) = w₁ := by simp [report]
      rw [hsame]
      exact h₁
    · have hl : (buf.take (min buf.length maxAppPlaintext)).length ≤ maxAppPlaintext := by
        rw [length_take]
        omega
      obtain ⟨w₂, r, hput, hsent, hchain, hrecords, ht, hp, hclose, hwritten⟩ :=
        h₁.put hA (hnil rfl) recordApplicationData _ (by decide) hl
      simp only [if_neg hbuf, hput, Option.map_some]
      refine ⟨_, rfl, ?_, ?_⟩
      · have hshape : Shape w₂.records (w₁.written ++ r.plaintext) w₂.closeSent := by
          rw [hrecords, hclose, hopen₁]
          exact (hopen₁ ▸ h₁.shape).snoc_data ⟨ht, hp ▸ hl⟩
        have hflushed₂ := (w₂.flushed_pollFlushPending answers₁).1
        have h₂ := (Inv.mk hsent hchain hshape).flushed hflushed₂
        rw [hp, ← hwritten, ← hflushed₂.written] at h₂
        exact ⟨h₂.sent, h₂.chain, h₂.shape⟩
      · rw [← hopen₁, ← hclose]
        exact (w₂.flushed_pollFlushPending answers₁).1.closeSent

theorem sendClose_fst (hput : w.put A recordAlert [1, 0] = some w') (answers : List Answer) :
    (w.sendClose A answers).map Prod.fst =
      some ({ w' with closeSent := true }.pollFlushPending answers).1 := by
  simp only [sendClose, hput, Option.map_some]
  split <;> simp_all

/-- `poll_shutdown`: the `close_notify` is the last record. -/
theorem Inv.shutdown (h : Inv A keys w.written w) (hA : A.Lawful) (answers : List Answer) :
    ∃ w', w.step A (.shutdown answers) = some w' ∧ Inv A keys w'.written w' := by
  obtain ⟨hflushed, hnil⟩ := w.flushed_pollFlushPending answers
  simp only [step, pollShutdown]
  rcases hf : w.pollFlushPending answers with ⟨w₁, answers₁, _ | e | ⟨⟩⟩
  all_goals
    rw [hf] at hflushed hnil
    have h₁ : Inv A keys w₁.written w₁ := hflushed.written ▸ h.flushed hflushed
  · exact ⟨w₁, rfl, h₁⟩
  · exact ⟨w₁, rfl, h₁⟩
  · simp only
    by_cases hclosed : w₁.closeSent = true
    · rw [if_pos hclosed]
      exact ⟨w₁, rfl, h₁⟩
    · rw [if_neg hclosed]
      have hopen : w₁.closeSent = false := Bool.eq_false_iff.mpr hclosed
      obtain ⟨w₂, r, hput, hsent, hchain, hrecords, ht, hp, -, hwritten⟩ :=
        h₁.put hA (hnil rfl) recordAlert [1, 0] (by decide) (by decide)
      have hshape : Shape w₂.records w₁.written true := by
        rw [hrecords]
        exact (hopen ▸ h₁.shape).snoc_close ⟨ht, hp⟩
      have hflushed₂ := ({ w₂ with closeSent := true }.flushed_pollFlushPending answers₁).1
      have hinv : Inv A keys w₁.written { w₂ with closeSent := true } := ⟨hsent, hchain, hshape⟩
      refine ⟨_, sendClose_fst hput answers₁, ?_⟩
      rw [show _ = w₁.written from hflushed₂.written.trans hwritten]
      exact hinv.flushed hflushed₂

/-- **Every call keeps the invariant**, and none panics. Only a write must not come after the
`close_notify`. -/
theorem Inv.step (h : Inv A keys w.written w) (hA : A.Lawful) (c : Call)
    (hc : w.closeSent = true → c.isWrite = false) :
    ∃ w', w.step A c = some w' ∧ Inv A keys w'.written w' ∧
      (w'.closeSent = true → w.closeSent = true ∨ c.isShutdown = true) := by
  cases c with
  | write buf answers =>
    have hopen : w.closeSent = false := by
      cases hclose : w.closeSent with
      | false => rfl
      | true => cases hc hclose
    obtain ⟨w', hs, hinv, hclose⟩ := h.write hA hopen buf answers
    exact ⟨w', hs, hinv, fun ht => by rw [hclose] at ht; cases ht⟩
  | flush answers =>
    obtain ⟨hflushed, -⟩ := w.flushed_pollFlush answers
    refine ⟨_, rfl, ?_, fun ht => .inl (hflushed.closeSent ▸ ht)⟩
    rw [hflushed.written]
    exact h.flushed hflushed
  | shutdown answers =>
    obtain ⟨w', hs, hinv⟩ := h.shutdown hA answers
    exact ⟨w', hs, hinv, fun _ => .inr rfl⟩

/-- **Any calls keep the invariant** in which no `poll_write` follows a `poll_shutdown`. -/
theorem Inv.run (h : Inv A keys w.written w) (hA : A.Lawful) {calls : List Call}
    (hw : w.closeSent = true → ∀ c ∈ calls, c.isWrite = false)
    (horder : calls.Pairwise fun c d => c.isShutdown = true → d.isWrite = false) :
    ∃ w', (tlsWriter A keys).runFrom w calls = some w' ∧ Inv A keys w'.written w' := by
  induction calls generalizing w with
  | nil => exact ⟨w, rfl, h⟩
  | cons c calls ih =>
    obtain ⟨hfirst, hrest⟩ := pairwise_cons.mp horder
    obtain ⟨w', hs, hinv, hclose⟩ := h.step hA c fun ht => hw ht c (by simp)
    have hw' : w'.closeSent = true → ∀ d ∈ calls, d.isWrite = false := by
      intro ht d hd
      obtain ht | ht := hclose ht
      · exact hw ht d (by simp [hd])
      · exact hfirst d hd ht
    obtain ⟨w'', hrun, hinv'⟩ := ih hinv hw' hrest
    refine ⟨w'', ?_, hinv'⟩
    rw [Machine.runFrom, show (tlsWriter A keys).step w c = some w' from hs]
    exact hrun

end TlsWriter

end Xhttp.Tls
