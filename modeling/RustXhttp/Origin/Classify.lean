import RustXhttp.Origin.Xhttp

/-!
# The paths of packets (`src/xhttp/mod.rs`)

Below the base, a packet has the session id and the sequence number as the two segments of its
path. What is behind them is ignored.

* `Segments rest sid second`: the first two segments of `rest`. They are what
  `extract_meta_from_path_borrowed` finds.
* `PacketPath rest sid seq`: the grammar, with a number as Go's `ParseUint` reads it.
* `classify_exact_iff`: the classification is that of the grammar exactly if the second segment is
  no number with a plus sign.
* `signed_number_accepted`: a path with the number `+5`.
-/

namespace Xhttp.Http

open List

/-! ## Segments -/

/-- The first two segments; the second one is empty if there is none. -/
inductive Segments : Bytes → Bytes → Bytes → Prop where
  | one {sid : Bytes} (h : 47 ∉ sid) : Segments sid sid []
  | two {sid second : Bytes} (h : 47 ∉ sid) (h' : 47 ∉ second) :
    Segments (sid ++ 47 :: second) sid second
  | more {sid second : Bytes} (h : 47 ∉ sid) (h' : 47 ∉ second) (rest : Bytes) :
    Segments (sid ++ 47 :: (second ++ 47 :: rest)) sid second

theorem segments_exist (s : Bytes) : ∃ sid second, Segments s sid second := by
  by_cases h : 47 ∈ s
  · obtain ⟨sid, rest, rfl, hsid⟩ := eq_append_cons_of_mem h
    by_cases h' : 47 ∈ rest
    · obtain ⟨second, rest, rfl, hsecond⟩ := eq_append_cons_of_mem h'
      exact ⟨sid, second, .more hsid hsecond rest⟩
    · exact ⟨sid, rest, .two hsid h'⟩
  · exact ⟨s, [], .one h⟩

/-- The segments are what the code finds. -/
theorem Segments.extractMeta {base rest sid second : Bytes} {uri : Uri}
    (h : Segments rest sid second) (hpath : uri.path = base ++ rest) :
    extractMetaFromPath base uri = ⟨sid, second⟩ := by
  rw [extractMetaFromPath, hpath, stripPrefix_append, Option.getD_some]
  cases h with
  | one h =>
    rw [splitOn_eq_singleton h]
    rfl
  | two h h' =>
    rw [splitOn_append_cons_self_of_not_mem h, splitOn_eq_singleton h']
    rfl
  | more h h' rest =>
    rw [splitOn_append_cons_self_of_not_mem h, splitOn_append_cons_self_of_not_mem h']
    rfl

theorem Segments.unique {s sid second sid' second' : Bytes} (h : Segments s sid second)
    (h' : Segments s sid' second') : sid = sid' ∧ second = second' := by
  have hpath : (⟨none, some ⟨s, none⟩⟩ : Uri).path = [] ++ s := rfl
  have := (h.extractMeta hpath).symm.trans (h'.extractMeta hpath)
  exact Meta.mk.inj this

/-! ## The grammar -/

/-- A session id, a slash and a number, and nothing behind it or a slash and anything. -/
def PacketPath (rest sid : Bytes) (seq : Nat) : Prop :=
  sid ≠ [] ∧ 47 ∉ sid ∧ ∃ digits tail, IsNumber digits seq ∧
    rest = sid ++ 47 :: (digits ++ tail) ∧ (tail = [] ∨ ∃ more, tail = 47 :: more)

theorem slash_not_mem {digits : Bytes} {n : Nat} (h : IsNumber digits n) : 47 ∉ digits := by
  intro hmem
  exact absurd (h.digits 47 hmem).1 (by decide)

theorem packetPath_iff {rest sid second sid' : Bytes} {seq : Nat} (h : Segments rest sid second) :
    PacketPath rest sid' seq ↔ sid = sid' ∧ sid ≠ [] ∧ IsNumber second seq := by
  constructor
  · rintro ⟨hne, hsid, digits, tail, hnum, rfl, htail⟩
    have hseg : Segments (sid' ++ 47 :: (digits ++ tail)) sid' digits := by
      rcases htail with rfl | ⟨more, rfl⟩
      · rw [append_nil]
        exact .two hsid (slash_not_mem hnum)
      · exact .more hsid (slash_not_mem hnum) more
    obtain ⟨rfl, rfl⟩ := h.unique hseg
    exact ⟨rfl, hne, hnum⟩
  · rintro ⟨rfl, hne, hnum⟩
    cases h with
    | one => exact absurd rfl hnum.nonempty
    | two hsid _ => exact ⟨hne, hsid, second, [], hnum, by rw [append_nil], .inl rfl⟩
    | more hsid _ more => exact ⟨hne, hsid, second, 47 :: more, hnum, rfl, .inr ⟨more, rfl⟩⟩

/-! ## The classification -/

section

variable {method : Method} {sid second : Bytes}

theorem classify_segments (hm : method ≠ .options) (hsid : sid ≠ []) (hsecond : second ≠ []) :
    classify method ⟨sid, second⟩ = (parseU64 second).elim .unsupported (.packetUpload sid) := by
  rw [classify, if_neg hm]
  cases hp : parseU64 second <;> simp [hsid, hsecond]

theorem classify_session (hm : method ≠ .options) (hsid : sid ≠ []) :
    classify method ⟨sid, []⟩ = if method = .get then .streamDownload sid else .streamUp sid := by
  rw [classify, if_neg hm]
  by_cases hget : method = .get <;> simp [hsid, hget]

theorem classify_noSession (hm : method ≠ .options) :
    classify method ⟨[], second⟩ = .streamOne := by
  rw [classify, if_neg hm]
  simp

theorem classify_packet_iff (hm : method ≠ .options) {sid' : Bytes} {seq : Nat} :
    classify method ⟨sid, second⟩ = .packetUpload sid' seq ↔
      sid = sid' ∧ sid ≠ [] ∧ parseU64 second = some seq := by
  by_cases hsid : sid = []
  · rw [hsid, classify_noSession hm]
    exact ⟨nofun, fun h => absurd rfl h.2.1⟩
  by_cases hsecond : second = []
  · rw [hsecond, classify_session hm hsid]
    refine ⟨fun h => ?_, fun h => nomatch h.2.2⟩
    split at h <;> cases h
  · rw [classify_segments hm hsid hsecond]
    cases hp : parseU64 second with
    | none => exact ⟨nofun, fun h => nomatch h.2.2⟩
    | some n =>
      constructor
      · rintro ⟨⟩
        exact ⟨rfl, hsid, rfl⟩
      · rintro ⟨rfl, _, ⟨⟩⟩
        rfl

end

/-- The second segment is a number with a plus sign. -/
def SignedPath (rest : Bytes) : Prop :=
  ∃ sid digits seq, sid ≠ [] ∧ Segments rest sid (43 :: digits) ∧ IsNumber digits seq

/-- **Classification.** For a request below the base that is no OPTIONS: the packets are exactly
those of the grammar, and a second segment that is no number is refused, exactly if the second
segment is no number with a plus sign. A GET with a session id only is a download. -/
theorem classify_exact_iff (base rest : Bytes) (method : Method) (uri : Uri)
    (hm : method ≠ .options) (hpath : uri.path = base ++ rest) :
    (((∀ sid seq, classify method (extractMetaFromPath base uri) = .packetUpload sid seq ↔
          PacketPath rest sid seq) ∧
        ∀ sid second, Segments rest sid second → sid ≠ [] → second ≠ [] →
          (¬ ∃ seq, IsNumber second seq) →
          classify method (extractMetaFromPath base uri) = .unsupported) ↔ ¬ SignedPath rest) ∧
    ∀ sid, Segments rest sid [] → sid ≠ [] → method = .get →
      classify method (extractMetaFromPath base uri) = .streamDownload sid := by
  obtain ⟨sid, second, hseg⟩ := segments_exist rest
  have hsigned : SignedPath rest ↔
      sid ≠ [] ∧ ∃ digits seq, second = 43 :: digits ∧ IsNumber digits seq := by
    constructor
    · rintro ⟨sid', digits, seq, hne, hseg', hnum⟩
      obtain ⟨rfl, rfl⟩ := hseg.unique hseg'
      exact ⟨hne, digits, seq, rfl, hnum⟩
    · rintro ⟨hne, digits, seq, rfl, hnum⟩
      exact ⟨sid, digits, seq, hne, hseg, hnum⟩
  rw [hseg.extractMeta hpath, hsigned]
  refine ⟨⟨?_, fun hplain => ⟨fun sid' seq => ?_, ?_⟩⟩, ?_⟩
  · rintro ⟨hpackets, _⟩ ⟨hne, digits, seq, rfl, hnum⟩
    have hparse : parseU64 (43 :: digits) = some seq := parseU64_eq_some.mpr (.inr ⟨_, rfl, hnum⟩)
    have hpacket := (hpackets sid seq).mp ((classify_packet_iff hm).mpr ⟨rfl, hne, hparse⟩)
    exact not_isNumber_plus ((packetPath_iff hseg).mp hpacket).2.2
  · rw [classify_packet_iff hm, packetPath_iff hseg, parseU64_eq_some]
    refine ⟨fun ⟨heq, hne, h⟩ => ⟨heq, hne, h.resolve_right ?_⟩,
      fun ⟨heq, hne, h⟩ => ⟨heq, hne, .inl h⟩⟩
    rintro ⟨digits, hplus, hnum⟩
    exact hplain ⟨hne, digits, seq, hplus, hnum⟩
  · intro sid' second' hseg' hsid hsecond hnum
    obtain ⟨rfl, rfl⟩ := hseg.unique hseg'
    rw [classify_segments hm hsid hsecond]
    cases hp : parseU64 second with
    | none => rfl
    | some seq =>
      rcases parseU64_eq_some.mp hp with h | ⟨digits, hplus, h⟩
      · exact absurd ⟨seq, h⟩ hnum
      · exact absurd ⟨hsid, digits, seq, hplus, h⟩ hplain
  · intro sid' hseg' hsid hget
    obtain ⟨rfl, rfl⟩ := hseg.unique hseg'
    rw [classify_session hm hsid, if_pos hget]

/-- A path below `/x/`. -/
def underBase (rest : String) : Uri := ⟨none, some ⟨ascii "/x/" ++ ascii rest, none⟩⟩

theorem isNumber_seven : IsNumber (ascii "007") 7 :=
  ⟨by decide, by decide +kernel, by decide, by decide⟩

theorem classify_exact_iff_plain :
    classify .post (extractMetaFromPath (ascii "/x/") (underBase "s/007/more")) =
      .packetUpload (ascii "s") 7 := by
  have hsid : 47 ∉ ascii "s" := by decide
  have hseg : Segments (ascii "s/007/more") (ascii "s") (ascii "007") :=
    .more hsid (slash_not_mem isNumber_seven) (ascii "more")
  have hexact := (classify_exact_iff (ascii "/x/") (ascii "s/007/more") .post
    (underBase "s/007/more") (by decide) rfl).1
  have hplain : ¬ SignedPath (ascii "s/007/more") := by
    rintro ⟨sid, digits, seq, _, hseg', _⟩
    exact absurd (hseg.unique hseg').2 (by simp [ascii])
  exact ((hexact.mpr hplain).1 _ _).mpr
    ((packetPath_iff hseg).mpr ⟨rfl, by decide, isNumber_seven⟩)

/-- The number has a plus sign, and the request is a packet. -/
theorem signed_number_accepted :
    classify .post (extractMetaFromPath (ascii "/x/") (underBase "s/+5")) =
      .packetUpload (ascii "s") 5 ∧
    ¬ PacketPath (ascii "s/+5") (ascii "s") 5 := by
  have hsid : 47 ∉ ascii "s" := by decide
  have hsecond : 47 ∉ ascii "+5" := by decide
  have hseg : Segments (ascii "s/+5") (ascii "s") (ascii "+5") := .two hsid hsecond
  exact ⟨by decide, fun h => not_isNumber_plus ((packetPath_iff hseg).mp h).2.2⟩

end Xhttp.Http
