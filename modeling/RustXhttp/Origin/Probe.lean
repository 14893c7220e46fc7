import RustXhttp.Origin.Handle

/-!
# What a probe sees

A probe is a request without valid padding. To hide the transport, the answer to it must not
depend on the configured path and host.

* `handle_probe`: the handler asks nothing of the session table, and answers with the website,
  except for a preflight (`Preflight`): an OPTIONS request on the configured path and host is
  answered before its padding is looked at, and the answer is padded.
* `probe_sees_site_iff`: a probe sees the website exactly if it is no preflight, and two servers
  with different paths or hosts answer it alike exactly if it is a preflight for both or for
  none of them.
* `options_reveals_path`: an OPTIONS request tells two such servers apart.
-/

namespace Xhttp.Http

open List

namespace HeaderMap

variable {headers : HeaderMap} {name other value : Bytes}

theorem get_eq_none : headers.get name = none ↔ ∀ h ∈ headers, h.1 ≠ lowercase name := by
  rw [get, lookup_eq_none_iff]
  refine forall_congr' fun h => forall_congr' fun _ => ?_
  rw [bne_iff_ne, ne_comm]

theorem get_insert_none (h : headers.get other = none) (hne : name ≠ lowercase other) :
    (headers.insert name value).get other = none := by
  rw [get_eq_none] at h ⊢
  intro x hx
  rcases mem_append.mp hx with hx | hx
  · exact h x (mem_filter.mp hx).1
  · rw [mem_singleton.mp hx]
    exact hne

theorem get_insert_self (hname : lowercase name = name) :
    (headers.insert name value).get name = some value := by
  have hnone : (headers.filter (·.1 != name)).lookup name = none := by
    rw [lookup_eq_none_iff]
    intro h hh
    have hne : h.1 ≠ name := by simpa using (mem_filter.mp hh).2
    rw [bne_iff_ne]
    exact hne.symm
  rw [get, insert, hname, lookup_append, hnone, Option.none_or]
  simp

end HeaderMap

def xPadding : Bytes := ascii "x-padding"

theorem get_insertAll_none (r : Response) (headers : List (String × Bytes)) {name : Bytes}
    (h : r.headers.get name = none) (hne : ∀ x ∈ headers, ascii x.1 ≠ lowercase name) :
    (r.insertAll headers).headers.get name = none := by
  induction headers generalizing r with
  | nil => exact h
  | cons x headers ih =>
    have hx : (r.insert x.1 x.2).headers.get name = none :=
      HeaderMap.get_insert_none h (hne x (by simp))
    exact ih (r.insert x.1 x.2) hx fun y hy => hne y (by simp [hy])

/-- The website has no padding. -/
theorem respond_no_padding (site : StaticSite) (method : Method) (path : Bytes)
    (ifNoneMatch : Option Bytes) :
    (site.respond method path ifNoneMatch).headers.get xPadding = none := by
  have hnames : ∀ name ∈ ["content-type", "content-length", "cache-control", "etag",
      "last-modified", "x-content-type-options", "referrer-policy", "allow"],
      ascii name ≠ lowercase xPadding := by decide
  refine get_insertAll_none _ _ (HeaderMap.get_eq_none.mpr ?_) fun x hx => hnames x.1 ?_
  · simp only [response]
    decide
  · simp only [mem_append, mem_cons, mem_map, not_mem_nil, or_false] at hx
    rcases hx with ((rfl | hx) | rfl | rfl | rfl | rfl | rfl) | ⟨_, _, rfl⟩
    case inl.inl.inr => split at hx <;> simp_all
    all_goals simp

section

variable (decode : Bytes → Option Bytes) (o : Origin) (r : Request)

/-- A request without valid padding, within the limit, and not for the operational endpoints. -/
structure Probe : Prop where
  size : requestHeaderBytes r ≤ o.xhttp.maxHeaderBytes
  notHealthz : r.uri.path ≠ ascii "/healthz"
  notReadyz : r.uri.path ≠ ascii "/readyz"
  padding : ∀ len, extractPaddingLen r.headers r.uri = some len →
    ¬ (o.xhttp.paddingFrom ≤ len ∧ len ≤ o.xhttp.paddingTo)

/-- An OPTIONS request on the configured path and host. -/
def Preflight : Prop :=
  r.method = .options ∧ pathMatches o.xhttp.path r.uri = true ∧
    hostMatches o.xhttp.host r.headers r.uri = true

instance : Decidable (Preflight o r) := inferInstanceAs (Decidable (_ ∧ _))

/-- The server with another path and host. -/
def Origin.withPathHost (path host : Bytes) : Origin :=
  { o with xhttp := { o.xhttp with path := path, host := host } }

theorem siteResponse_withPathHost (path host : Bytes) :
    (o.withPathHost path host).siteResponse r = o.siteResponse r := rfl

variable {o r}

theorem padding_invalid (h : Probe o r) :
    isPaddingLenValid (extractPaddingLen r.headers r.uri) o.xhttp.paddingFrom o.xhttp.paddingTo =
      false := by
  have hp := h.padding
  unfold isPaddingLenValid
  cases hlen : extractPaddingLen r.headers r.uri with
  | none => rfl
  | some len =>
    have := hp len hlen
    simp only [Option.any_some, Bool.and_eq_false_iff, decide_eq_false_iff_not]
    by_cases hfrom : o.xhttp.paddingFrom ≤ len
    · exact .inr fun hto => this ⟨hfrom, hto⟩
    · exact .inl (.inr hfrom)

/-- What the handler does with a probe. -/
theorem handle_probe (h : Probe o r) : o.handle decode r =
    if Preflight o r then o.addXhttpResponsePadding (emptyResponse 200)
    else pure (o.siteResponse r) := by
  unfold Origin.handle
  rw [if_neg (Nat.not_lt.mpr h.size), if_neg h.notHealthz, if_neg h.notReadyz]
  by_cases hmatch : pathMatches o.xhttp.path r.uri = true ∧
      hostMatches o.xhttp.host r.headers r.uri = true
  · rw [if_neg (by simp [hmatch])]
    by_cases hopt : r.method = .options
    · rw [if_pos hopt, if_pos ⟨hopt, hmatch⟩]
    · have hpre : ¬ Preflight o r := fun hpre => hopt hpre.1
      rw [if_neg hopt, if_neg hpre, if_pos (by rw [padding_invalid h]; rfl)]
  · rw [if_pos (by simpa [imp_iff_not_or] using hmatch), if_neg fun hpre => hmatch hpre.2]

/-- A padded answer is not the website's. -/
theorem padded_ne_site (a : Response) (site : StaticSite) (method : Method) (path : Bytes)
    (ifNoneMatch : Option Bytes) :
    o.addXhttpResponsePadding a ≠ pure (site.respond method path ifNoneMatch) := by
  unfold Origin.addXhttpResponsePadding randomLength
  split
  · intro he
    have he : a.insert "x-padding" (List.replicate o.xhttp.paddingFrom 88) =
        site.respond method path ifNoneMatch := Prog.done.inj he
    have hnone := respond_no_padding site method path ifNoneMatch
    rw [← he, Response.insert, xPadding, HeaderMap.get_insert_self (by decide)] at hnone
    cases hnone
  · intro he
    cases he

/-- The padding draws a length and asks nothing else. -/
theorem exec_padded {σ : Type} (run : σ → (e : Effect) → Reply e × σ) (s : σ)
    (hrandom : ∀ s lo hi, (run s (.randomLength lo hi)).2 = s) (a : Response) :
    (Prog.exec run s (o.addXhttpResponsePadding a)).2 = s := by
  unfold Origin.addXhttpResponsePadding randomLength
  split
  · rfl
  · exact hrandom s _ _

end

/-- **Probes.** For every request that is within the limit, not for an operational endpoint, and
without valid padding: the state of the session table does not change; the answer is the one of
the website, which has no padding and depends on the method, the path and If-None-Match only,
exactly if the request is no preflight; and a server with another path and host answers alike
exactly if the request is a preflight for both servers or for none. -/
theorem probe_sees_site_iff (decode : Bytes → Option Bytes) (o : Origin) (r : Request)
    (h : Probe o r) :
    (∀ (σ : Type) (run : σ → (e : Effect) → Reply e × σ) (s : σ),
      (∀ s lo hi, (run s (.randomLength lo hi)).2 = s) →
        (Prog.exec run s (o.handle decode r)).2 = s) ∧
    (o.handle decode r = pure (o.site.respond r.method r.uri.path
        (r.headers.get (ascii "if-none-match"))) ↔ ¬ Preflight o r) ∧
    (o.siteResponse r).headers.get (ascii "x-padding") = none ∧
    ∀ path host, (o.withPathHost path host).handle decode r = o.handle decode r ↔
      (Preflight (o.withPathHost path host) r ↔ Preflight o r) := by
  refine ⟨fun σ run s hrandom => ?_, ?_, respond_no_padding .., fun path host => ?_⟩
  · rw [handle_probe decode h]
    split
    · exact exec_padded run s hrandom _
    · rfl
  · rw [handle_probe decode h]
    by_cases hpre : Preflight o r
    · rw [if_pos hpre]
      exact iff_of_false (padded_ne_site _ _ _ _ _) (not_not_intro hpre)
    · rw [if_neg hpre]
      exact iff_of_true rfl hpre
  · have h' : Probe (o.withPathHost path host) r := ⟨h.size, h.notHealthz, h.notReadyz, h.padding⟩
    rw [handle_probe decode h, handle_probe decode h']
    by_cases hpre : Preflight o r <;> by_cases hpre' : Preflight (o.withPathHost path host) r
    · rw [if_pos hpre, if_pos hpre']
      exact iff_of_true rfl (iff_of_true hpre' hpre)
    · rw [if_pos hpre, if_neg hpre']
      refine iff_of_false (fun he => ?_) fun hiff => hpre' (hiff.mpr hpre)
      exact padded_ne_site _ _ _ _ _ he.symm
    · rw [if_neg hpre, if_pos hpre']
      refine iff_of_false (fun he => ?_) fun hiff => hpre (hiff.mp hpre')
      exact padded_ne_site _ _ _ _ _ he
    · rw [if_neg hpre, if_neg hpre']
      exact iff_of_true rfl (iff_of_false hpre' hpre)

/-- A server with the transport under `/xhttp/`. -/
def sampleOrigin : Origin where
  xhttp :=
    { path := ascii "/xhttp/", host := ascii "example.com", maxEachPostBytes := 1024
      sseHeader := true, maxHeaderBytes := 512, paddingFrom := 2, paddingTo := 2
      uplinkDataPlacement := .body, uplinkDataKey := [] }
  site :=
    let page := fun text => ⟨ascii "text/html", ascii text, ascii "no-store", ascii "e", ascii "d"⟩
    ⟨∅, page "not found", page "not allowed"⟩

def sampleRequest (method : Method) : Request :=
  ⟨method, ⟨none, some ⟨ascii "/xhttp/", none⟩⟩, [(ascii "host", ascii "example.com")], none, []⟩

theorem sampleRequest_get : Probe sampleOrigin (sampleRequest .get) :=
  ⟨by decide, by decide, by decide, nofun⟩

theorem sampleRequest_options : Probe sampleOrigin (sampleRequest .options) :=
  ⟨by decide, by decide, by decide, nofun⟩

/-- A GET of the configured path sees the website. -/
theorem probe_sees_site_iff_get :
    sampleOrigin.handle (fun _ => none) (sampleRequest .get) =
      pure (sampleOrigin.siteResponse (sampleRequest .get)) :=
  (probe_sees_site_iff (fun _ => none) sampleOrigin (sampleRequest .get)
    sampleRequest_get).2.1.mpr (by decide)

/-- An OPTIONS request of the configured path, without padding: the answer is padded and not the
website's, and a server with another path answers with the website. -/
theorem options_reveals_path :
    Probe sampleOrigin (sampleRequest .options) ∧
    sampleOrigin.handle (fun _ => none) (sampleRequest .options) =
      pure ((emptyResponse 200).insert "x-padding" (ascii "XX")) ∧
    (sampleOrigin.withPathHost (ascii "/other/") (ascii "example.com")).handle (fun _ => none)
      (sampleRequest .options) = pure (sampleOrigin.siteResponse (sampleRequest .options)) ∧
    (sampleOrigin.siteResponse (sampleRequest .options)).status = 405 := by
  refine ⟨sampleRequest_options, ?_, ?_, by decide⟩
  · rw [handle_probe _ sampleRequest_options, if_pos (by decide)]
    rfl
  · have hprobe : Probe (sampleOrigin.withPathHost (ascii "/other/") (ascii "example.com"))
        (sampleRequest .options) := ⟨by decide, by decide, by decide, nofun⟩
    rw [handle_probe _ hprobe, if_neg (by decide), siteResponse_withPathHost]

end Xhttp.Http
