import RustXhttp.Dispatch.Mux
import Mathlib.Data.List.Induction

/-!
# Isolation of the associations of a mux

What the client asks for is a function of its frames alone: `route` says which association each
id names after the frames read so far, and which messages each association is to get.

* `Mux.Inv`: the map of the loop is the one of `route`, and an association whose task lives has
  got its messages, up to the one that the loop is about to send. It holds in every state.
* `xudp_isolated_iff`: the loop ends only for the reasons that isolation allows, and the
  associations keep getting their messages, exactly if every message that the loop sends finds
  the task of its association alive.
* `ended_association_ends_mux`: a KEEP frame for an association whose task has ended ends the loop
  for all of them.
-/

namespace Xhttp.Xudp

open List Option

/-! ## What the frames ask for -/

/-- The number of associations opened, the association that each id names, and the messages of
each association. -/
structure Routing where
  opened : Nat
  current : UInt16 → Option Nat
  messages : Nat → List AssociationMessage

namespace Routing

def empty : Routing := ⟨0, fun _ => none, fun _ => []⟩

variable (r : Routing)

/-- The message of `f`, if it has one, goes to the association `k`. -/
def deliver (f : Frame) (k : Nat) : Routing :=
  match f.hasData, f.target with
  | true, some target =>
    { r with messages := fun j =>
        r.messages j ++ if j = k then [⟨target, f.payload⟩] else [] }
  | _, _ => r

/-- The id names a new association. -/
def openNew (id : UInt16) : Routing where
  opened := r.opened + 1
  current := Function.update r.current id (some r.opened)
  messages := r.messages

theorem messages_openNew (id : UInt16) : (r.openNew id).messages = r.messages := rfl

theorem current_openNew (id id' : UInt16) :
    (r.openNew id).current id' = if id' = id then some r.opened else r.current id' :=
  Function.update_apply ..

def next (f : Frame) : Routing :=
  if f.status = statusNew then (r.openNew f.sessionId).deliver f r.opened
  else if f.status = statusKeep then
    match r.current f.sessionId with
    | some k => r.deliver f k
    | none => r
  else if f.status = statusEnd then
    { r with current := Function.update r.current f.sessionId none }
  else r

@[simp] theorem opened_deliver (f : Frame) (k : Nat) : (r.deliver f k).opened = r.opened := by
  unfold deliver
  split <;> rfl

@[simp] theorem current_deliver (f : Frame) (k : Nat) : (r.deliver f k).current = r.current := by
  unfold deliver
  split <;> rfl

theorem messages_deliver {f : Frame} (k j : Nat) : (r.deliver f k).messages j =
    r.messages j ++ if f.hasData ∧ j = k then f.target.toList.map (⟨·, f.payload⟩) else [] := by
  unfold deliver
  split
  case h_1 hd ht => simp [hd, ht]
  case h_2 hn =>
    cases hd : f.hasData
    · simp
    · cases ht : f.target with
      | none => simp
      | some target => exact absurd ht (hn target hd)

end Routing

def route (frames : List Frame) : Routing := frames.foldl Routing.next .empty

theorem route_snoc (frames : List Frame) (f : Frame) :
    route (frames ++ [f]) = (route frames).next f := by
  rw [route, foldl_append]
  rfl

/-- Only associations that were opened are named, and get messages. -/
structure Routing.Bounded (r : Routing) : Prop where
  current : ∀ id k, r.current id = some k → k < r.opened
  messages : ∀ k, r.opened ≤ k → r.messages k = []

theorem Routing.Bounded.next {r : Routing} (h : r.Bounded) (f : Frame) : (r.next f).Bounded := by
  unfold Routing.next
  split_ifs with hnew hkeep hend
  · constructor
    · intro id k hk
      rw [current_deliver, current_openNew] at hk
      rw [opened_deliver]
      split at hk
      · cases hk
        exact Nat.lt_succ_self _
      · exact Nat.lt_succ_of_lt (h.current id k hk)
    · intro k hk
      rw [opened_deliver] at hk
      have hk : r.opened + 1 ≤ k := hk
      rw [messages_deliver, if_neg (by omega), append_nil]
      exact h.messages k (by omega)
  · split
    case h_1 k hcur =>
      constructor
      · intro id j hj
        rw [current_deliver] at hj
        rw [opened_deliver]
        exact h.current id j hj
      · intro j hj
        rw [opened_deliver] at hj
        have hk := h.current _ k hcur
        rw [messages_deliver, if_neg (by omega), append_nil]
        exact h.messages j hj
    case h_2 => exact h
  · refine ⟨fun id k hk => ?_, h.messages⟩
    simp only [Function.update_apply] at hk
    split at hk
    · cases hk
    · exact h.current id k hk
  · exact h

theorem route_bounded (frames : List Frame) : (route frames).Bounded := by
  induction frames using List.reverseRecOn with
  | nil => exact ⟨nofun, fun _ _ => rfl⟩
  | append_singleton frames f ih =>
    rw [route_snoc]
    exact ih.next f

/-- The id was never opened, or the client has ended it since it was opened last. -/
def ClosedByClient (frames : List Frame) (id : UInt16) : Prop :=
  ∀ pre f post, frames = pre ++ f :: post → f.status = statusNew → f.sessionId = id →
    ∃ g ∈ post, g.status = statusEnd ∧ g.sessionId = id

theorem closedByClient_snoc (frames : List Frame) (f : Frame) (id : UInt16) :
    ClosedByClient (frames ++ [f]) id ↔
      ¬ (f.status = statusNew ∧ f.sessionId = id) ∧
        (ClosedByClient frames id ∨ f.status = statusEnd ∧ f.sessionId = id) := by
  constructor
  · intro h
    refine ⟨fun ⟨hn, hid⟩ => ?_, ?_⟩
    · obtain ⟨g, hg, _⟩ := h frames f [] rfl hn hid
      cases hg
    · by_cases hend : f.status = statusEnd ∧ f.sessionId = id
      · exact .inr hend
      · refine .inl fun pre g post hsplit hn hid => ?_
        obtain ⟨e, he, hes, heid⟩ := h pre g (post ++ [f]) (by simp [hsplit]) hn hid
        rcases mem_append.mp he with he | he
        · exact ⟨e, he, hes, heid⟩
        · rw [mem_singleton.mp he] at hes heid
          exact absurd ⟨hes, heid⟩ hend
  · rintro ⟨hnew, h⟩ pre g post hsplit hn hid
    -- the last of the frames is `f` itself or the last of `post`
    rcases eq_nil_or_concat post with rfl | ⟨post, f', rfl⟩
    · obtain ⟨rfl, hf⟩ := append_inj' hsplit rfl
      cases hf
      exact absurd ⟨hn, hid⟩ hnew
    · rw [concat_eq_append, ← cons_append, ← append_assoc] at hsplit
      obtain ⟨rfl, hf⟩ := append_inj' hsplit rfl
      cases hf
      rcases h with h | h
      · obtain ⟨e, he, hes⟩ := h pre g post rfl hn hid
        exact ⟨e, by simp [he], hes⟩
      · exact ⟨f, by simp, h⟩

/-- An id that names no association was never opened or is closed. -/
theorem closedByClient_of_current {frames : List Frame} {id : UInt16}
    (h : (route frames).current id = none) : ClosedByClient frames id := by
  induction frames using List.reverseRecOn with
  | nil =>
    intro pre f post hsplit
    simp at hsplit
  | append_singleton frames f ih =>
    rw [route_snoc] at h
    rw [closedByClient_snoc]
    unfold Routing.next at h
    split_ifs at h with hnew hkeep hend
    · rw [Routing.current_deliver, Routing.current_openNew] at h
      split at h
      · cases h
      case isFalse hid => exact ⟨fun hn => hid hn.2.symm, .inl (ih h)⟩
    · have h : (route frames).current id = none := by
        split at h
        · rwa [Routing.current_deliver] at h
        · exact h
      exact ⟨fun hn => hnew hn.1, .inl (ih h)⟩
    · simp only [Function.update_apply] at h
      refine ⟨fun hn => hnew hn.1, ?_⟩
      split at h
      case isTrue hid => exact .inr ⟨hend, hid.symm⟩
      · exact .inl (ih h)
    · exact ⟨fun hn => hnew hn.1, .inl (ih h)⟩

/-! ## The loop follows the frames -/

/-- Why the loop may end: `read_frame` fails or is idle for too long; a KEEP frame with data for
an id that is not open; a frame without the target that it needs; or a NEW association that cannot
be opened. -/
def Justified (frames : List Frame) : MuxError → Prop
  | .xudp _ | .udpIdle => True
  | .unknownAssociation id => ∃ pre f, frames = pre ++ [f] ∧ f.status = statusKeep ∧ f.hasData ∧
      f.sessionId = id ∧ ClosedByClient pre id
  | .missingAddress => ∃ pre f, frames = pre ++ [f] ∧
      (f.status = statusNew ∨ f.status = statusKeep ∧ f.hasData ∧ f.target = none)
  | .io | .shuttingDown => ∃ pre f, frames = pre ++ [f] ∧ f.status = statusNew
  | .associationClosed | .unsupportedXudpStatus _ | .send _ => False

namespace Mux

/-- The message of the association `k` that the loop is about to send. -/
def owed (s : Mux) (k : Nat) : List AssociationMessage :=
  match s.loop with
  | .opening f target k' => if f.hasData ∧ k = k' then [⟨target, f.payload⟩] else []
  | .sending k' m => if k = k' then [m] else []
  | _ => []

/-- The loop ends only for a reason that isolation allows, and every association whose task lives
has got its messages. -/
structure Isolated (s : Mux) : Prop where
  ends : ∀ e, s.loop = .ended e → Justified s.frames e
  receives : ∀ (k : Nat) a, s.tasks[k]? = some a → a.alive →
    a.received ++ s.owed k = (route s.frames).messages k

/-- The map and the associations are those that the frames ask for. -/
structure Tracks (s : Mux) (r : Routing) : Prop where
  map : ∀ id, s.associations.lookup id = r.current id
  tasks : s.tasks.length = r.opened

/-- What the frames have to do with where the loop is. -/
def AtFrame (s : Mux) : Prop :=
  match s.loop with
  | .reading | .sending _ _ => s.Tracks (route s.frames)
  | .acquiring f target => ∃ pre, s.frames = pre ++ [f] ∧ f.status = statusNew ∧
      f.target = some target ∧ s.Tracks (route pre)
  | .opening f _ _ => s.Tracks (route s.frames) ∧ ∃ pre, s.frames = pre ++ [f] ∧
      f.status = statusNew
  | .ended _ => True

structure Inv (s : Mux) : Prop extends s.Isolated where
  atFrame : s.AtFrame

/-- The message that the loop sends finds the task of its association alive. -/
def SendsAlive (s : Mux) (act : MuxAction) : Prop :=
  match act, s.loop with
  | .send, .sending k _ => s.alive k = true
  | _, _ => True

instance (s : Mux) (act : MuxAction) : Decidable (s.SendsAlive act) := by
  unfold SendsAlive
  split <;> infer_instance

variable {s : Mux}

/-- Every association whose task lives has got all of its messages. -/
def Settled (s : Mux) (r : Routing) : Prop :=
  ∀ (k : Nat) a, s.tasks[k]? = some a → a.alive → a.received = r.messages k

section

variable {r : Routing} {e : MuxError} {s' : Mux} {k : Nat} {a a' : Association} {f : Frame}
  {target : Target} {act : MuxAction}

/-- A loop that holds no message. -/
theorem Inv.of_settled (hs : s.Settled r) (hroute : route s.frames = r)
    (howed : ∀ k, s.owed k = []) (hends : ∀ e, s.loop = .ended e → Justified s.frames e)
    (hat : s.AtFrame) : s.Inv where
  ends := hends
  receives := by
    intro k a ha hal
    rw [howed k, append_nil, hroute]
    exact hs k a ha hal
  atFrame := hat

theorem Settled.finish (hs : s.Settled r) (he : Justified s.frames e)
    (hroute : route s.frames = r) : (s.finish e).Inv := by
  refine .of_settled hs hroute (fun _ => rfl) ?_ trivial
  rintro _ ⟨⟩
  exact he

theorem Inv.settled (h : s.Inv) (howed : ∀ k, s.alive k → s.owed k = []) :
    s.Settled (route s.frames) := by
  intro k a ha hal
  have hk : s.alive k := by
    rw [Mux.alive, ha]
    exact hal
  have hrec := h.receives k a ha hal
  rwa [howed k hk, append_nil] at hrec

/-- Where the loop is does not depend on where the tasks are. -/
theorem AtFrame.congr (h : s.AtFrame) (hloop : s'.loop = s.loop) (hframes : s'.frames = s.frames)
    (hmap : s'.associations = s.associations) (hlen : s'.tasks.length = s.tasks.length) :
    s'.AtFrame := by
  have htracks : ∀ r, s.Tracks r → s'.Tracks r := fun r hr =>
    ⟨fun id => by rw [hmap]; exact hr.map id, hlen.trans hr.tasks⟩
  unfold AtFrame at h ⊢
  rw [hloop, hframes]
  split at h
  · exact htracks _ h
  · exact htracks _ h
  · obtain ⟨pre, hpre, hnew, htarget, hr⟩ := h
    exact ⟨pre, hpre, hnew, htarget, htracks _ hr⟩
  · exact ⟨htracks _ h.1, h.2⟩
  · trivial

/-- A task that moves keeps its messages, as long as it lives. -/
theorem Inv.setTask (h : s.Inv) (hk : s.tasks[k]? = some a)
    (hmove : a'.alive → a.alive ∧ a'.received = a.received) : (s.setTask k a').Inv where
  ends := h.ends
  receives := by
    refine forall_set (fun j x _ => h.receives j x) fun hal => ?_
    obtain ⟨hal, hrec⟩ := hmove hal
    rw [hrec]
    exact h.receives k a hk hal
  atFrame := h.atFrame.congr rfl rfl rfl (length_set ..)

theorem Inv.dispatch_new (ht : s.Tracks (route s.frames)) (hs : s.Settled (route s.frames))
    (hnew : f.status = statusNew) (htarget : f.target = some target) :
    Inv { s with frames := s.frames ++ [f], loop := .acquiring f target } where
  ends := nofun
  receives := by
    intro k a ha hal
    have hk : k < (route s.frames).opened := by
      rw [← ht.tasks]
      exact (List.getElem?_eq_some_iff.mp ha).1
    rw [route_snoc, Routing.next, if_pos hnew, Routing.messages_deliver, if_neg (by omega)]
    exact congrArg (· ++ []) (hs k a ha hal)
  atFrame := ⟨s.frames, rfl, hnew, htarget, ht.map, ht.tasks⟩

theorem Inv.dispatch_data (ht : s.Tracks (route s.frames)) (hs : s.Settled (route s.frames))
    (hkeep : f.status = statusKeep) (hdata : f.hasData)
    (hk : s.associations.lookup f.sessionId = some k) (htarget : f.target = some target) :
    Inv { s with frames := s.frames ++ [f], loop := .sending k ⟨target, f.payload⟩ } := by
  have hroute : route (s.frames ++ [f]) = (route s.frames).deliver f k := by
    rw [route_snoc, Routing.next, if_neg (by rw [hkeep]; decide), if_pos hkeep, ← ht.map, hk]
  refine ⟨⟨nofun, fun j a ha hal => ?_⟩, ?_⟩
  · rw [hroute, Routing.messages_deliver, ← hs j a ha hal, htarget]
    simp only [owed, hdata, true_and]
    rfl
  · show Tracks _ (route (s.frames ++ [f]))
    rw [hroute]
    exact ⟨fun id => by rw [Routing.current_deliver]; exact ht.map id,
      by rw [Routing.opened_deliver]; exact ht.tasks⟩

/-- A frame that opens nothing and has no message for an association. -/
theorem Inv.dispatch_other (ht : s.Tracks (route s.frames)) (hs : s.Settled (route s.frames))
    {m : AList fun _ : UInt16 => Nat} (hloop : s.loop = .reading)
    (hmessages : ((route s.frames).next f).messages = (route s.frames).messages)
    (hopened : ((route s.frames).next f).opened = (route s.frames).opened)
    (hmap : ∀ id, m.lookup id = ((route s.frames).next f).current id) :
    Inv { s with frames := s.frames ++ [f], associations := m } := by
  refine .of_settled (r := (route s.frames).next f) ?_ (route_snoc _ _) ?_ ?_ ?_
  · intro k a ha hal
    rw [hmessages]
    exact hs k a ha hal
  · intro k
    simp only [owed, hloop]
  · intro e he
    cases hloop.symm.trans he
  · simp only [AtFrame, hloop, route_snoc]
    exact ⟨hmap, ht.tasks.trans hopened.symm⟩

theorem Inv.onFrame (h : s.Inv) (hloop : s.loop = .reading) (f : WireFrame) :
    (s.onFrame f.val).Inv := by
  obtain ⟨f, hf⟩ := f
  have ht : s.Tracks (route s.frames) := by
    have := h.atFrame
    simpa only [AtFrame, hloop] using this
  have hs : s.Settled (route s.frames) := h.settled fun k _ => by simp only [owed, hloop]
  have hkeepNext : f.status = statusKeep → (f.hasData = false ∨ f.target = none ∨
      (route s.frames).current f.sessionId = none) → (route s.frames).next f = route s.frames := by
    intro hkeep hno
    rw [Routing.next, if_neg (by rw [hkeep]; decide), if_pos hkeep]
    split
    case h_2 => rfl
    case h_1 k hk =>
      unfold Routing.deliver
      split
      case h_1 hd hta => simp [hd, hta, hk] at hno
      case h_2 => rfl
  unfold Mux.onFrame dispatch
  split_ifs with hnew hkeep hdata hend halive
  · cases htarget : f.target with
    | none => exact absurd (hf.targetNew hnew) (by simp [htarget])
    | some target => exact .dispatch_new ht hs hnew htarget
  · have hnext := hkeepNext hkeep (.inl hdata)
    exact .dispatch_other ht hs hloop (by rw [hnext]) (by rw [hnext])
      (by rw [hnext]; exact ht.map)
  · have hdata : f.hasData := by simpa using hdata
    split
    case h_1 hnone =>
      have hcur := (ht.map f.sessionId).symm.trans hnone
      have hj : Justified (s.frames ++ [f]) (.unknownAssociation f.sessionId) :=
        ⟨s.frames, f, rfl, hkeep, hdata, rfl, closedByClient_of_current hcur⟩
      refine Settled.finish (s := { s with frames := s.frames ++ [f] }) hs hj ?_
      rw [route_snoc]
      exact hkeepNext hkeep (.inr (.inr hcur))
    case h_2 k hk =>
      split
      case h_1 htarget =>
        have hj : Justified (s.frames ++ [f]) .missingAddress :=
          ⟨s.frames, f, rfl, .inr ⟨hkeep, hdata, htarget⟩⟩
        refine Settled.finish (s := { s with frames := s.frames ++ [f] }) hs hj ?_
        rw [route_snoc]
        exact hkeepNext hkeep (.inr (.inl htarget))
      case h_2 target htarget => exact .dispatch_data ht hs hkeep hdata hk htarget
  · have hnext : (route s.frames).next f = { route s.frames with
        current := Function.update (route s.frames).current f.sessionId none } := by
      rw [Routing.next, if_neg hnew, if_neg hkeep, if_pos hend]
    refine .dispatch_other ht hs hloop (by rw [hnext]) (by rw [hnext]) fun id => ?_
    rw [hnext]
    simp only [Function.update_apply]
    split
    case isTrue hid => rw [hid, AList.lookup_erase]
    case isFalse hid => rw [AList.lookup_erase_ne hid]; exact ht.map id
  · have hnext : (route s.frames).next f = route s.frames := by
      rw [Routing.next, if_neg hnew, if_neg hkeep, if_neg hend]
    exact .dispatch_other ht hs hloop (by rw [hnext]) (by rw [hnext])
      (by rw [hnext]; exact ht.map)
  · have := hf.status
    simp [hnew, hkeep, hend, halive] at this

theorem Inv.insert (h : s.Inv) (hloop : s.loop = .acquiring f target) :
    (s.insert f target).Inv := by
  obtain ⟨pre, hpre, hnew, htarget, ht⟩ : ∃ pre, s.frames = pre ++ [f] ∧ f.status = statusNew ∧
      f.target = some target ∧ s.Tracks (route pre) := by
    have := h.atFrame
    simpa only [AtFrame, hloop] using this
  have hroute : route s.frames =
      ((route pre).openNew f.sessionId).deliver f (route pre).opened := by
    rw [hpre, route_snoc, Routing.next, if_pos hnew]
  refine ⟨⟨nofun, forall_snoc ?_ ?_⟩, ⟨?_, ?_⟩, pre, hpre, hnew⟩
  · intro k a ha hal
    have hk : k ≠ s.tasks.length := Nat.ne_of_lt (List.getElem?_eq_some_iff.mp ha).1
    have hrec := h.receives k a ha hal
    simp only [owed, hloop] at hrec
    rw [show (s.insert f target).owed k = [] from if_neg fun hd => hk hd.2]
    exact hrec
  · intro _
    -- an association that is new has got no message before
    have hfresh := (route_bounded pre).messages (route pre).opened (Nat.le_refl _)
    show [] ++ (if f.hasData ∧ s.tasks.length = s.tasks.length then _ else _) =
      (route s.frames).messages s.tasks.length
    rw [hroute, Routing.messages_deliver, Routing.messages_openNew, ht.tasks, hfresh, htarget]
    rfl
  · intro id
    show (s.associations.insert f.sessionId s.tasks.length).lookup id =
      (route s.frames).current id
    rw [hroute, Routing.current_deliver, Routing.current_openNew, ht.tasks]
    split
    case isTrue hid => rw [hid, AList.lookup_insert]
    case isFalse hid => rw [AList.lookup_insert_ne hid]; exact ht.map id
  · show (s.tasks ++ [_]).length = (route s.frames).opened
    rw [hroute, Routing.opened_deliver, length_append, ht.tasks]
    rfl

/-- A move of one task that neither loses a message nor revives the task. -/
theorem Inv.moveTask (h : s.Inv) {f : Association → Option Association}
    (hf : ∀ a a', f a = some a' → a'.alive → a.alive ∧ a'.received = a.received)
    (hs : s.moveTask k f = some s') : s'.Inv ∧ s'.loop = s.loop := by
  obtain ⟨a, ha, hs⟩ := bind_eq_some_iff.mp hs
  obtain ⟨a', ha', rfl⟩ := map_eq_some_iff.mp hs
  exact ⟨h.setTask ha (hf a a' ha'), rfl⟩

theorem Inv.opened (h : s.Inv) (hloop : s.loop = .opening f target k) :
    Inv { s with loop := if f.hasData then .sending k ⟨target, f.payload⟩ else .reading } := by
  obtain ⟨ht, _⟩ : s.Tracks (route s.frames) ∧ _ := by
    have := h.atFrame
    simpa only [AtFrame, hloop] using this
  have hrec := h.receives
  simp only [owed, hloop] at hrec
  split
  case isTrue hdata =>
    simp only [hdata, true_and] at hrec
    exact ⟨⟨nofun, hrec⟩, ht.map, ht.tasks⟩
  case isFalse hdata =>
    simp only [hdata] at hrec
    exact ⟨⟨nofun, hrec⟩, ht.map, ht.tasks⟩

theorem Inv.openFails (h : s.Inv) (hloop : s.loop = .opening f target k)
    (he : e = .io ∨ e = .missingAddress) (ha : s.tasks[k]? = some a) :
    ((s.setTask k (a.finish e)).finish e).Inv := by
  have h' : (s.setTask k (a.finish e)).Inv := h.setTask ha nofun
  obtain ⟨_, pre, hpre, hnew⟩ : s.Tracks (route s.frames) ∧ ∃ pre, s.frames = pre ++ [f] ∧
      f.status = statusNew := by
    have := h.atFrame
    simpa only [AtFrame, hloop] using this
  refine (h'.settled fun j hj => ?_).finish ?_ rfl
  · have hne : j ≠ k := by
      rintro rfl
      simp only [Mux.alive, Mux.setTask, getElem?_set_self'] at hj
      rw [ha] at hj
      cases hj
    simp only [owed, Mux.setTask, hloop, hne, and_false]
    rfl
  · rcases he with rfl | rfl
    · exact ⟨pre, f, hpre, hnew⟩
    · exact ⟨pre, f, hpre, .inl hnew⟩

/-- A message goes into the channel. -/
theorem Inv.push (h : s.Inv) {m : AssociationMessage} (hloop : s.loop = .sending k m)
    (ha : s.tasks[k]? = some a) :
    Inv { s.setTask k { a with queue := a.queue ++ [m] } with loop := .reading } := by
  have ht : s.Tracks (route s.frames) := by
    have := h.atFrame
    simpa only [AtFrame, hloop] using this
  have hrec := h.receives
  simp only [owed, hloop] at hrec
  refine ⟨⟨nofun, forall_set ?_ ?_⟩, ht.map, (length_set ..).trans ht.tasks⟩
  · intro j x hj hx hal
    have := hrec j x hx hal
    rw [if_neg hj] at this
    exact this
  · intro hal
    have := hrec k a ha hal
    rw [if_pos rfl] at this
    show (a.sent ++ a.task.held ++ (a.queue ++ [m])) ++ [] = _
    rw [append_nil, ← append_assoc]
    exact this

/-! ### The moves of a task -/

theorem received_recv (h : a.recv = some a') (_ : a'.alive) :
    a.alive ∧ a'.received = a.received := by
  unfold Association.recv at h
  split at h
  case h_1 m rest htask hqueue =>
    cases h
    simp [Association.alive, Association.received, htask, hqueue, AssociationTask.alive,
      AssociationTask.held]
  case h_2 => cases h

theorem received_sentOne (h : a.sentOne = some a') (_ : a'.alive) :
    a.alive ∧ a'.received = a.received := by
  unfold Association.sentOne at h
  split at h
  case h_1 m htask =>
    cases h
    simp [Association.alive, Association.received, htask, AssociationTask.alive,
      AssociationTask.held]
  case h_2 => cases h

/-- A task that lives before and after and holds no message in between. -/
theorem received_of_task {task : AssociationTask} (halive : a.task.alive)
    (hheld : a.task.held = []) (hheld' : task.held = []) :
    a.alive ∧ Association.received { a with task := task } = a.received := by
  refine ⟨halive, ?_⟩
  simp only [Association.received, hheld, hheld']

theorem received_spawn (h : a.spawn = some a') (_ : a'.alive) :
    a.alive ∧ a'.received = a.received := by
  unfold Association.spawn at h
  split at h
  case h_1 htask => cases h; exact received_of_task (by rw [htask]; rfl) (by rw [htask]; rfl) rfl
  case h_2 => cases h

theorem received_recvFrom {source : Target} {payload : Bytes}
    (h : a.recvFrom source payload = some a') (_ : a'.alive) :
    a.alive ∧ a'.received = a.received := by
  unfold Association.recvFrom at h
  split at h
  case h_1 htask => cases h; exact received_of_task (by rw [htask]; rfl) (by rw [htask]; rfl) rfl
  case h_2 => cases h

theorem received_replied (h : a.replied = some (a', f)) (_ : a'.alive) :
    a.alive ∧ a'.received = a.received := by
  unfold Association.replied at h
  split at h
  case h_1 htask => cases h; exact received_of_task (by rw [htask]; rfl) (by rw [htask]; rfl) rfl
  case h_2 => cases h

/-! ### Whole runs -/

theorem inv_init : mux.init.Inv :=
  .of_settled (r := route []) nofun rfl (fun _ => rfl) nofun ⟨fun _ => rfl, rfl⟩

theorem Inv.step (h : s.Inv) (halive : s.SendsAlive act) (hs : s.step act = some s') : s'.Inv := by
  unfold Mux.step at hs
  split at hs
  case h_1 f hloop => cases hs; exact h.onFrame hloop f
  case h_2 e hloop =>
    cases hs
    exact (h.settled fun k _ => by simp only [owed, hloop]).finish trivial rfl
  case h_3 hloop =>
    cases hs
    exact (h.settled fun k _ => by simp only [owed, hloop]).finish trivial rfl
  case h_4 f target hloop => cases hs; exact h.insert hloop
  case h_5 f target hloop =>
    cases hs
    obtain ⟨pre, hpre, hnew, _⟩ : ∃ pre, s.frames = pre ++ [f] ∧ f.status = statusNew ∧ _ := by
      have := h.atFrame
      simpa only [AtFrame, hloop] using this
    exact (h.settled fun k _ => by simp only [owed, hloop]).finish ⟨pre, f, hpre, hnew⟩ rfl
  case h_6 f target k hloop =>
    obtain ⟨s₁, hs₁, rfl⟩ := map_eq_some_iff.mp hs
    obtain ⟨h₁, hloop₁⟩ := h.moveTask (fun _ _ => received_spawn) hs₁
    exact h₁.opened (hloop₁.trans hloop)
  case h_7 e f target k hloop =>
    split at hs
    case isTrue he =>
      obtain ⟨a, ha, rfl⟩ := map_eq_some_iff.mp hs
      exact h.openFails hloop he ha
    case isFalse => cases hs
  case h_8 k m hloop =>
    have hk : s.alive k = true := by simpa only [SendsAlive, hloop] using halive
    unfold pollSend at hs
    split at hs
    · cases hs
    case h_2 a ha =>
      rw [Mux.alive, ha, any_some] at hk
      rw [if_neg (by rw [hk]; decide)] at hs
      split at hs
      · cases hs; exact h.push hloop ha
      · cases hs
  case h_9 k => exact (h.moveTask (fun _ _ => received_recv) hs).1
  case h_10 k => exact (h.moveTask (fun _ _ => received_sentOne) hs).1
  case h_11 k source payload => exact (h.moveTask (fun _ _ => received_recvFrom) hs).1
  case h_12 k =>
    obtain ⟨a, ha, hs⟩ := bind_eq_some_iff.mp hs
    obtain ⟨⟨a', f⟩, hrep, rfl⟩ := map_eq_some_iff.mp hs
    have h' : (s.setTask k a').Inv := h.setTask ha (received_replied hrep)
    exact ⟨⟨h'.ends, h'.receives⟩, h'.atFrame.congr rfl rfl rfl rfl⟩
  case h_13 k e =>
    refine (h.moveTask (fun a a' ha hal => ?_) hs).1
    split at ha
    · cases ha; cases hal
    · cases ha
  case h_14 => cases hs

/-- A message for an association whose task has ended ends the loop. -/
theorem step_of_not_sendsAlive (halive : ¬ s.SendsAlive act) (hs : s.step act = some s') :
    s'.loop = .ended .associationClosed := by
  unfold SendsAlive at halive
  split at halive
  case h_2 => exact absurd trivial halive
  case h_1 k m hloop =>
    simp only [Mux.step, hloop, pollSend] at hs
    split at hs
    · cases hs
    case h_2 a ha =>
      rw [Mux.alive, ha, any_some, Bool.not_eq_true] at halive
      rw [if_pos halive] at hs
      cases hs
      rfl

end

end Mux

/-- **Isolation of the associations.** For every sequence of frames and every schedule of the
tasks, timers and failures: the loop ends only for a reason that isolation allows and every
association whose task lives has got its messages, in every state, exactly if every message that
the loop sends finds the task of its association alive. -/
theorem xudp_isolated_iff (acts : List MuxAction) (t : Mux) (h : mux.run acts = some t) :
    mux.Always Mux.Isolated mux.init acts ↔ mux.Along Mux.SendsAlive mux.init acts := by
  refine Machine.always_iff_along (fun _ hinv => hinv.toIsolated) ?_ ?_ Mux.inv_init h
  · intro s act s' halive hinv hs
    exact hinv.step halive hs
  · intro s act s' halive _ hs hiso
    exact hiso.ends _ (Mux.step_of_not_sendsAlive halive hs)

def resolver : Target := ⟨.ipv4 ⟨[127, 0, 0, 1], rfl⟩, 53⟩

/-- Two associations are opened, and the task of the first one is idle for too long. -/
def twoAssociations : List MuxAction :=
  [.frame ⟨⟨1, statusNew, 0, some resolver, none, []⟩, by decide⟩, .acquired, .opened,
    .frame ⟨⟨2, statusNew, 0, some resolver, none, []⟩, by decide⟩, .acquired, .opened,
    .taskEnds 0 .udpIdle]

/-- The client goes on with the second association. -/
def secondGoesOn : List MuxAction :=
  twoAssociations ++ [.frame ⟨⟨2, statusKeep, optionData, some resolver, none, [7]⟩, by decide⟩,
    .send, .recv 1, .sent 1]

theorem xudp_isolated_iff_other : ∃ t, mux.run secondGoesOn = some t ∧
    (t.tasks[1]?).map Association.sent = some [⟨resolver, [7]⟩] ∧
    mux.Always Mux.Isolated mux.init secondGoesOn := by
  refine ⟨_, rfl, ?_, (xudp_isolated_iff secondGoesOn _ rfl).mpr ?_⟩
  · decide
  · decide

/-- The client goes on with the first association. -/
def firstGoesOn : List MuxAction :=
  twoAssociations ++ [.frame ⟨⟨1, statusKeep, optionData, some resolver, none, [7]⟩, by decide⟩,
    .send]

/-- The loop ends, and with it the second association, whose task lives. -/
theorem ended_association_ends_mux : ∃ t, mux.run firstGoesOn = some t ∧
    t.loop = .ended .associationClosed ∧ t.alive 1 ∧ ¬ t.Isolated := by
  refine ⟨_, rfl, rfl, by decide, fun h => ?_⟩
  exact h.ends .associationClosed rfl

end Xhttp.Xudp
