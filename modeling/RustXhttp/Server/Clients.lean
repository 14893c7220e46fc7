import RustXhttp.Server.Config
import RustXhttp.Vless.Header

/-!
# The clients of a configuration (`serve` of `src/runtime.rs`, `src/vless/validator.rs`)

The table of users is filled from the clients of the configuration, each under its id with the bytes
6 and 7 zeroed. A later client takes the place of an earlier one with the same key, and the checks
of a configuration do not compare ids.

- `Loaded`: the table after any number of reloads, with the last list.
- `getShared_loaded`: a lookup finds the last client whose id is the same outside of its route.
- `clients_authenticate_iff`: when every client is found as itself; `shared_key_impersonates` is a
  configuration that is accepted where one is not.
-/

namespace Xhttp.Server

open List
open Vless (User Validator processUuid xrv)

/-! ## Ids and routes -/

/-- The id with a route in its bytes 6 and 7. -/
def withRoute (id : ByteArr 16) (a b : UInt8) : ByteArr 16 :=
  ⟨(id.val.set 6 a).set 7 b, by simp [id.property]⟩

/-- The ids differ in their routes only. -/
def SameClient (x y : ByteArr 16) : Prop := ∀ i, i ≠ 6 → i ≠ 7 → x.val[i]? = y.val[i]?

section Ids

variable {x y : ByteArr 16} {i : Nat}

theorem getElem?_processUuid (h6 : i ≠ 6) (h7 : i ≠ 7) : (processUuid x).val[i]? = x.val[i]? := by
  rw [processUuid, getElem?_set_ne (Ne.symm h7), getElem?_set_ne (Ne.symm h6)]

theorem getElem?_processUuid_route (h : i = 6 ∨ i = 7) : (processUuid x).val[i]? = some 0 := by
  have hlen := x.property
  rcases h with rfl | rfl
  · rw [processUuid, getElem?_set_ne (by decide), getElem?_set_self (by omega)]
  · rw [processUuid, getElem?_set_self (by simp [hlen])]

/-- The keys are the same if the ids are, but for their routes. -/
theorem processUuid_eq_iff : processUuid x = processUuid y ↔ SameClient x y := by
  constructor
  · intro h i h6 h7
    rw [← getElem?_processUuid h6 h7, h, getElem?_processUuid h6 h7]
  · intro h
    refine Subtype.ext (ext_getElem? fun i => ?_)
    by_cases hroute : i = 6 ∨ i = 7
    · rw [getElem?_processUuid_route hroute, getElem?_processUuid_route hroute]
    · rw [not_or] at hroute
      rw [getElem?_processUuid hroute.1 hroute.2, getElem?_processUuid hroute.1 hroute.2,
        h i hroute.1 hroute.2]

theorem sameClient_withRoute (a b : UInt8) : SameClient (withRoute x a b) x := by
  intro i h6 h7
  rw [withRoute, getElem?_set_ne (Ne.symm h7), getElem?_set_ne (Ne.symm h6)]

theorem SameClient.symm (h : SameClient x y) : SameClient y x := fun i h6 h7 => (h i h6 h7).symm

end Ids

/-! ## The table -/

/-- The table after `new` and any number of calls of `replace`, and the list of the last call. -/
inductive Loaded : Validator → List User → Prop
  | new (users : List User) : Loaded (.new users) users
  | replace {v : Validator} {users : List User} (h : Loaded v users) (users' : List User) :
      Loaded (v.replace users') users'

/-- What `serve` makes of a client. -/
def UserConfig.user (client : UserConfig) : User := ⟨client.id, client.email, client.flow⟩

/-- Whatever the route is, the client is found, with its own email and flow. -/
def AuthenticatesAs (v : Validator) (client : UserConfig) : Prop :=
  ∀ a b, ∃ user, v.getShared (withRoute client.id a b) = some user ∧
    user.email = client.email ∧ user.flow = client.flow

section Table

variable {v : Validator} {users : List User} {clients : List UserConfig}

/-- Nothing of an earlier list is left. -/
theorem Loaded.eq_new (h : Loaded v users) : v = .new users := by
  cases h with
  | new => rfl
  | replace => rfl

/-- The last of the clients with the id is the one that counts. -/
theorem getShared_loaded (h : Loaded v (clients.map UserConfig.user)) (id : ByteArr 16) :
    v.getShared id = (clients.reverse.find? (processUuid ·.id = processUuid id)).map fun client =>
      ⟨processUuid id, client.email, client.flow⟩ := by
  rw [h.eq_new, Validator.getShared_eq, Validator.byId_new, ← map_reverse, find?_map,
    Option.map_map]
  rfl

theorem getShared_eq_none (h : Loaded v (clients.map UserConfig.user)) {id : ByteArr 16}
    (hid : ∀ client ∈ clients, ¬ SameClient client.id id) : v.getShared id = none := by
  rw [getShared_loaded h, find?_eq_none.mpr, Option.map_none]
  intro client hclient heq
  exact hid client (mem_reverse.mp hclient) (processUuid_eq_iff.mp (of_decide_eq_true heq))

/-- A client is found as itself, or as another one with the same id. -/
theorem getShared_client (h : Loaded v (clients.map UserConfig.user)) {client : UserConfig}
    (hclient : client ∈ clients) {id : ByteArr 16} (hid : SameClient client.id id) :
    ∃ found ∈ clients, SameClient found.id client.id ∧
      v.getShared id = some ⟨processUuid id, found.email, found.flow⟩ := by
  have hkey : decide (processUuid client.id = processUuid id) = true :=
    decide_eq_true (processUuid_eq_iff.mpr hid)
  obtain ⟨found, hfound⟩ : ∃ found,
      clients.reverse.find? (processUuid ·.id = processUuid id) = some found :=
    Option.isSome_iff_exists.mp
      (find?_isSome.mpr ⟨client, mem_reverse.mpr hclient, hkey⟩)
  have hsame : processUuid found.id = processUuid id := by simpa using find?_some hfound
  refine ⟨found, mem_reverse.mp (mem_of_find?_eq_some hfound), ?_, ?_⟩
  · rw [← processUuid_eq_iff, hsame, processUuid_eq_iff.mpr hid]
  · rw [getShared_loaded h, hfound, Option.map_some]

/-- Every client is found as itself if clients with the same id do not differ. -/
theorem authenticate_iff (h : Loaded v (clients.map UserConfig.user)) :
    (∀ client ∈ clients, AuthenticatesAs v client) ↔
      ∀ client ∈ clients, ∀ other ∈ clients, SameClient client.id other.id →
        client.email = other.email ∧ client.flow = other.flow := by
  constructor
  · intro hall client hclient other hother hsame
    -- the same lookup finds both
    have hkeys : processUuid (withRoute client.id 0 0) = processUuid (withRoute other.id 0 0) := by
      rw [processUuid_eq_iff.mpr (sameClient_withRoute 0 0), processUuid_eq_iff.mpr hsame,
        processUuid_eq_iff.mpr (sameClient_withRoute 0 0)]
    obtain ⟨user, huser, hemail, hflow⟩ := hall client hclient 0 0
    obtain ⟨user', huser', hemail', hflow'⟩ := hall other hother 0 0
    rw [Validator.getShared_eq] at huser huser'
    rw [hkeys, huser'] at huser
    cases huser
    exact ⟨hemail.symm.trans hemail', hflow.symm.trans hflow'⟩
  · intro hdistinct client hclient a b
    obtain ⟨found, hfound, hsame, huser⟩ :=
      getShared_client h hclient (sameClient_withRoute a b).symm
    obtain ⟨hemail, hflow⟩ := hdistinct found hfound client hclient hsame
    exact ⟨_, huser, hemail, hflow⟩

end Table

/-- **Clients and their ids.** Of a configuration that is accepted, every client is found as itself,
whatever its route, exactly if no two clients with the same id outside of the route differ in their
email or flow. An id that no client has outside of its route is not found. -/
theorem clients_authenticate_iff (deserialize : Bytes → Except Bytes JsonConfig) (source : Bytes)
    (cfg : Config) (haccepted : Config.fromJsonStr deserialize source = .ok cfg) (v : Validator)
    (hloaded : Loaded v (cfg.vless.users.map UserConfig.user)) :
    ∃ raw inbound, deserialize source = .ok raw ∧ raw.inbounds = [inbound] ∧
      ((∀ client ∈ inbound.settings.clients, AuthenticatesAs v client) ↔
        ∀ client ∈ inbound.settings.clients, ∀ other ∈ inbound.settings.clients,
          SameClient client.id other.id →
            client.email = other.email ∧ client.flow = other.flow) ∧
      ∀ id, (∀ client ∈ inbound.settings.clients, ¬ SameClient client.id id) →
        v.getShared id = none := by
  unfold Config.fromJsonStr at haccepted
  split at haccepted
  case h_1 => cases haccepted
  case h_2 raw hraw =>
    obtain ⟨-, inbound, hinbound, hvless⟩ := tryFrom_ok haccepted
    rw [hvless] at hloaded
    exact ⟨raw, inbound, hraw, hinbound, authenticate_iff hloaded,
      fun id hid => getShared_eq_none hloaded hid⟩

/-! ## Two clients -/

def firstClient : UserConfig where
  id := ⟨[1, 2, 3, 4, 5, 6, 0x4A, 0xBC, 9, 10, 11, 12, 13, 14, 15, 17], rfl⟩
  email := ⟨ascii "first@example.com", by decide⟩
  flow := Vless.sampleUser.flow

/-- The id differs from that of `firstClient` in its byte 6. -/
def secondClient : UserConfig where
  id := withRoute firstClient.id 0x1A 0xBC
  email := ⟨ascii "second@example.com", by decide⟩
  flow := Vless.sampleUser.flow

/-- The id of `otherClient` differs from both in its first byte. -/
def otherClient : UserConfig where
  id := ⟨2 :: List.replicate 15 0, rfl⟩
  email := ⟨ascii "other@example.com", by decide⟩
  flow := Vless.sampleUser.flow

/-- A reload to two clients, of which the second was there before. -/
def reloaded : Validator :=
  (Validator.new [otherClient.user]).replace [firstClient.user, otherClient.user]

theorem clients_authenticate_iff_reloaded :
    (∀ client ∈ [firstClient, otherClient], AuthenticatesAs reloaded client) ∧
      reloaded.getShared (zeros 16) = none := by
  obtain ⟨raw, inbound, ⟨⟩, ⟨⟩, hself, hnone⟩ := clients_authenticate_iff
    (fun _ => .ok (.minimal 443 (ascii "path") [firstClient, otherClient])) [] _ rfl reloaded
    (.replace (.new _) _)
  refine ⟨hself.mpr ?_, hnone _ ?_⟩
  · intro client hclient other hother hsame
    have hfirst : client.id.val[0]? = other.id.val[0]? := hsame 0 (by decide) (by decide)
    rcases mem_pair.mp hclient with rfl | rfl <;> rcases mem_pair.mp hother with rfl | rfl
    · exact ⟨rfl, rfl⟩
    · cases hfirst
    · cases hfirst
    · exact ⟨rfl, rfl⟩
  · intro client hclient hsame
    have hfirst : client.id.val[0]? = some 0 := hsame 0 (by decide) (by decide)
    rcases mem_pair.mp hclient with rfl | rfl <;> cases hfirst

/-- Both clients are accepted, and the first one is found as the second. -/
theorem shared_key_impersonates :
    (∃ cfg, Config.tryFrom (.minimal 443 (ascii "path") [firstClient, secondClient]) = .ok cfg ∧
      cfg.vless.users = [firstClient, secondClient]) ∧
    firstClient.id ≠ secondClient.id ∧ firstClient.email ≠ secondClient.email ∧
    (Validator.new ([firstClient, secondClient].map UserConfig.user)).getShared firstClient.id =
      some ⟨processUuid firstClient.id, secondClient.email, secondClient.flow⟩ :=
  ⟨⟨_, rfl, rfl⟩, by decide, by decide, by decide⟩

end Xhttp.Server
