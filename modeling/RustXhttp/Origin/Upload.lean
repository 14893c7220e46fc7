import Mathlib.Data.List.Flatten
import Mathlib.Data.List.TakeDrop
import RustXhttp.Lib.Base64
import RustXhttp.Lib.Exec
import RustXhttp.Origin.Handle

/-!
# The payload of an upload (`src/origin.rs`)

A client puts parts of a payload into headers `KEY-0`, `KEY-1`, .., into cookies `KEY_0`, `KEY_1`,
.. and into the body. The parts in headers and cookies are base64 texts that are cut anywhere.

* `HeaderChunks`, `CookieChunks`, `Delivers`: where the parts of a payload are.
* `decodeHeaderPayload_chunks`, `decodeCookiePayload_chunks`, `readBodyPayload_delivers`: each of
  the three readers yields its part, or refuses it because it alone is too long.
* `upload_assembles`: the upload pushes the concatenation of the parts, or answers 413 and pushes
  nothing, if the cookies in the ASCII headers alone are chunks of their part. A payload that fits
  is pushed only then.
* `foreign_cookie_hides_chunk`: a Cookie header with another byte is skipped, with the chunk in it.
-/

namespace Xhttp.Http

open List Option
open Base64 (encode isLetter)
open Reorder (PushResult)

/-! ## Chunks -/

section

variable {get : Nat → Option (Except UploadPayloadError Bytes)} {fuel i limit : Nat}
  {chunks : List Bytes} {acc part text : Bytes} {decode : Bytes → Option Bytes}

/-- The reader of chunks yields their concatenation, unless it is too long. -/
theorem collectChunks_eq (hget : ∀ j ≤ chunks.length, get (i + j) = chunks[j]?.map .ok)
    (hfuel : chunks.length ≤ fuel) (hacc : acc.length ≤ encodedLenLimit limit) :
    collectChunks get limit fuel i acc =
      if (acc ++ chunks.flatten).length > encodedLenLimit limit then .error .tooLarge
      else .ok (acc ++ chunks.flatten) := by
  induction chunks generalizing fuel i acc with
  | nil =>
    have hnone : get i = none := hget 0 (Nat.le_refl 0)
    rw [flatten_nil, append_nil, if_neg (Nat.not_lt.mpr hacc)]
    cases fuel with
    | zero => rfl
    | succ fuel => rw [collectChunks, hnone]
  | cons chunk chunks ih =>
    obtain ⟨fuel, rfl⟩ : ∃ k, fuel = k + 1 := ⟨fuel - 1, by rw [length_cons] at hfuel; omega⟩
    have hsome : get i = some (.ok chunk) := hget 0 (Nat.zero_le _)
    have hnext : ∀ j ≤ chunks.length, get (i + 1 + j) = chunks[j]?.map .ok := by
      intro j hj
      rw [Nat.add_right_comm]
      exact hget (j + 1) (Nat.succ_le_succ hj)
    rw [collectChunks, hsome, flatten_cons, ← append_assoc]
    by_cases hlong : (acc ++ chunk).length > encodedLenLimit limit
    · have htotal : (acc ++ chunk ++ chunks.flatten).length > encodedLenLimit limit := by
        rw [length_append]
        omega
      simp only [if_pos hlong, if_pos htotal]
    · simp only [if_neg hlong]
      exact ih hnext (Nat.le_of_succ_le_succ hfuel) (Nat.le_of_not_lt hlong)

/-- A text that the reader yields is the concatenation of the chunks up to the first number that is
missing, or of as many as it may read. -/
theorem collectChunks_found {get : Nat → Option Bytes}
    (h : collectChunks (fun i => (get i).map .ok) limit fuel i acc = .ok text) :
    ∃ seen : List Bytes, text = acc ++ seen.flatten ∧ (∀ j < seen.length, get (i + j) = seen[j]?) ∧
      (get (i + seen.length) = none ∨ seen.length = fuel) := by
  induction fuel generalizing i acc with
  | zero =>
    cases h
    exact ⟨[], (append_nil _).symm, nofun, .inr rfl⟩
  | succ fuel ih =>
    rw [collectChunks] at h
    cases hget : get i with
    | none =>
      rw [hget] at h
      cases h
      exact ⟨[], (append_nil _).symm, nofun, .inl hget⟩
    | some chunk =>
      simp only [hget, map_some] at h
      split at h
      · cases h
      · obtain ⟨seen, htext, hfound, hend⟩ := ih h
        refine ⟨chunk :: seen, by rw [htext, flatten_cons, append_assoc], ?_, ?_⟩
        · intro j hj
          cases j with
          | zero => exact hget
          | succ j =>
            rw [getElem?_cons_succ, ← hfound j (Nat.lt_of_succ_lt_succ hj),
              Nat.add_right_comm, Nat.add_assoc]
        · rw [length_cons, ← Nat.add_assoc, Nat.add_right_comm]
          exact hend.imp_right (congrArg Nat.succ)

theorem encodedLenLimit_eq (h : limit < 2 ^ 60) :
    encodedLenLimit limit = (4 * limit + 2) / 3 + 4 := by
  have hmul : saturatingMul limit 4 = limit * 4 := Nat.min_eq_left (by rw [u64Max]; omega)
  have hadd : saturatingAdd (limit * 4) 2 = limit * 4 + 2 :=
    Nat.min_eq_left (by rw [u64Max]; omega)
  rw [encodedLenLimit, hmul, hadd, Nat.mul_comm]

/-- What a reader yields for a part that alone may be too long. -/
def partResult (limit : Nat) (part : Bytes) : Except UploadPayloadError Bytes :=
  if part.length > limit then .error .tooLarge else .ok part

/-- The chunks of a part are decoded to it. The bound of the text refuses no part that fits. -/
theorem decode_chunks_eq (hlimit : limit < 2 ^ 60) (hdecode : decode (encode part) = some part)
    (htext : chunks.flatten = encode part)
    (hget : ∀ i ≤ chunks.length, get i = chunks[i]?.map .ok) (hfuel : chunks.length ≤ fuel) :
    (collectChunks get limit fuel 0 [] >>= fun encoded =>
      decodePayloadChunks decode encoded limit) = partResult limit part := by
  have hget : ∀ j ≤ chunks.length, get (0 + j) = chunks[j]?.map .ok := by
    intro j hj
    rw [Nat.zero_add]
    exact hget j hj
  rw [collectChunks_eq hget hfuel (Nat.zero_le _), nil_append, htext, partResult,
    encodedLenLimit_eq hlimit, Base64.length_encode]
  by_cases hlong : (4 * part.length + 2) / 3 > (4 * limit + 2) / 3 + 4
  · rw [if_pos hlong, if_pos (by omega)]
    rfl
  · rw [if_neg hlong]
    show decodePayloadChunks decode (encode part) limit = _
    unfold decodePayloadChunks
    by_cases hnil : part = []
    · subst hnil
      rfl
    · rw [if_neg fun h => hnil (Base64.encode_eq_nil.mp h), hdecode]

/-- A payload that is read is not too long, and it is empty or decoded. -/
theorem decodePayloadChunks_ok (h : decodePayloadChunks decode text limit = .ok part) :
    part.length ≤ limit ∧ (text = [] ∧ part = [] ∨ decode text = some part) := by
  unfold decodePayloadChunks at h
  split at h
  case isTrue hnil =>
    cases h
    exact ⟨Nat.zero_le _, .inl ⟨hnil, rfl⟩⟩
  case isFalse =>
    split at h
    case h_1 => cases h
    case h_2 decoded hsome =>
      split at h
      · cases h
      case isFalse hshort =>
        cases h
        exact ⟨Nat.le_of_not_lt hshort, .inr hsome⟩

/-! ## Headers -/

def headerKey (key : Bytes) (i : Nat) : Bytes := key ++ ascii "-" ++ decimal i

def cookieKey (key : Bytes) (i : Nat) : Bytes := key ++ ascii "_" ++ decimal i

/-- The headers `KEY-0`, `KEY-1`, .. are the chunks of the base64 text of `part`, and there is no
header with the next number. -/
structure HeaderChunks (key : Bytes) (headers : HeaderMap) (part : Bytes) (chunks : List Bytes) :
    Prop where
  text : chunks.flatten = encode part
  found : ∀ i ≤ chunks.length, headers.get (headerKey key i) = chunks[i]?

theorem headerKey_injective {key : Bytes} {j : Nat}
    (h : lowercase (headerKey key i) = lowercase (headerKey key j)) : i = j := by
  simp only [headerKey, lowercase_append, lowercase_decimal] at h
  exact decimal_injective (append_cancel_left h)

end

/-- Different names that are all found in a list are no more than it has entries. -/
theorem length_le_of_names {names : Nat → Bytes} (hinj : ∀ i j, names i = names j → i = j)
    {n : Nat} {found : List Bytes} (h : ∀ i < n, names i ∈ found) : n ≤ found.length := by
  have hnodup : ((List.range n).map names).Nodup := List.Nodup.map hinj nodup_range
  have hsub : (List.range n).map names ⊆ found := by
    intro name hmem
    obtain ⟨i, hi, rfl⟩ := mem_map.mp hmem
    exact h i (mem_range.mp hi)
  have := hnodup.length_le_of_subset hsub
  rwa [length_map, length_range] at this

section

variable {key part : Bytes} {headers : HeaderMap} {chunks : List Bytes}

theorem HeaderChunks.length_le (h : HeaderChunks key headers part chunks) :
    chunks.length ≤ headers.length := by
  have hnames : ∀ i < chunks.length, lowercase (headerKey key i) ∈ headers.map (·.1) := by
    intro i hi
    have hget := h.found i (Nat.le_of_lt hi)
    rw [getElem?_eq_getElem hi] at hget
    obtain ⟨before, after, heq, _⟩ := lookup_eq_some_iff.mp hget
    rw [heq]
    simp
  have := length_le_of_names (fun _ _ => headerKey_injective) hnames
  rwa [length_map] at this

/-- A letter of base64 is printable and no blank. -/
theorem isLetter_visible {b : UInt8} (h : isLetter b = true) :
    ((32 ≤ b && b < 127) || b == 9) = true ∧ (b == 32 || b == 9) = false := by
  have hall : ∀ n : Fin 256, isLetter (UInt8.ofNat n.val) = true →
      ((32 ≤ UInt8.ofNat n.val && UInt8.ofNat n.val < 127) || UInt8.ofNat n.val == 9) = true ∧
        (UInt8.ofNat n.val == 32 || UInt8.ofNat n.val == 9) = false := by
    decide +kernel
  have hb := hall ⟨b.toNat, b.toNat_lt⟩
  simp only [UInt8.ofNat_toNat] at hb
  exact hb h

theorem isLetter_of_mem_chunk {chunk : Bytes} (htext : chunks.flatten = encode part)
    (hchunk : chunk ∈ chunks) {b : UInt8} (hb : b ∈ chunk) : isLetter b = true := by
  have hmem : b ∈ encode part := by
    rw [← htext]
    exact mem_flatten.mpr ⟨chunk, hchunk, hb⟩
  exact Base64.isLetter_of_mem_encode hmem

theorem toStr_chunk {chunk : Bytes} (htext : chunks.flatten = encode part)
    (hchunk : chunk ∈ chunks) : toStr chunk = some chunk := by
  refine if_pos (all_eq_true.mpr fun b hb => ?_)
  exact (isLetter_visible (isLetter_of_mem_chunk htext hchunk hb)).1

variable {decode : Bytes → Option Bytes} {o : Origin}

/-- The part in the headers. -/
theorem decodeHeaderPayload_chunks (hlimit : o.xhttp.maxEachPostBytes < 2 ^ 60)
    (h : HeaderChunks o.xhttp.uplinkDataKey headers part chunks)
    (hdecode : decode (encode part) = some part) :
    o.decodeHeaderPayload decode headers = partResult o.xhttp.maxEachPostBytes
      (if o.xhttp.uplinkDataPlacement = .header ∨ o.xhttp.uplinkDataPlacement = .auto then part
        else []) := by
  unfold Origin.decodeHeaderPayload
  split
  case isFalse => rfl
  case isTrue =>
    refine decode_chunks_eq hlimit hdecode h.text (fun i hi => ?_) ?_
    · have hget := h.found i hi
      simp only [headerKey] at hget
      rw [hget]
      cases hchunk : chunks[i]? with
      | none => rfl
      | some chunk =>
        simp only [map_some, toStr_chunk h.text (mem_of_getElem? hchunk)]
    · have := h.length_le
      omega

end

/-! ## Cookies -/

structure Cookie where
  name : Bytes
  value : Bytes
  deriving DecidableEq

namespace Cookie

/-- The name has no separators and no blanks, and the value does not end the cookie. -/
structure WellFormed (c : Cookie) : Prop where
  name : ∀ b ∈ c.name, b ≠ 59 ∧ b ≠ 61 ∧ b ≠ 32 ∧ b ≠ 9
  value : 59 ∉ c.value

theorem wellFormed_of_all {c : Cookie}
    (hname : c.name.all (fun b => b != 59 && b != 61 && b != 32 && b != 9) = true)
    (hvalue : c.value.all (· != 59) = true) : c.WellFormed where
  name b hb := by simpa [and_assoc] using all_eq_true.mp hname b hb
  value hmem := by simpa using all_eq_true.mp hvalue 59 hmem

def render (c : Cookie) : Bytes := c.name ++ 61 :: c.value

end Cookie

/-- The value of a Cookie header. -/
def cookieString : List Cookie → Bytes
  | [] => []
  | [c] => c.render
  | c :: cs => c.render ++ 59 :: 32 :: cookieString cs

/-- The inner loop of `cookie_value`. -/
def cookieIn (key part : Bytes) : Option Bytes :=
  (splitOnce 61 (trimBlank part)).bind fun (name, value) =>
    if name = key then some value else none

def trimEnd (s : Bytes) : Bytes :=
  (s.reverse.dropWhile fun b => b == 32 || b == 9).reverse

theorem splitOnce_append {sep : UInt8} {s t : Bytes} (h : sep ∉ s) :
    splitOnce sep (s ++ sep :: t) = some (s, t) := by
  have hne : ∀ b ∈ s, (b != sep) = true := by
    intro b hb
    exact bne_iff_ne.mpr fun heq => h (heq ▸ hb)
  have hspan : (s ++ sep :: t).span (· != sep) = (s, sep :: t) := by
    rw [span_eq_takeWhile_dropWhile, takeWhile_append_of_pos hne, dropWhile_append_of_pos hne]
    simp
  rw [splitOnce, hspan]

theorem trimBlank_blank (s : Bytes) : trimBlank (32 :: s) = trimBlank s := rfl

section

variable {c : Cookie} {key : Bytes} {headers : HeaderMap} {jars : List (List Cookie)}
  {chunks : List Bytes}

theorem trimBlank_render (h : c.WellFormed) :
    trimBlank c.render = c.name ++ 61 :: trimEnd c.value := by
  have hfront : c.render.dropWhile (fun b => b == 32 || b == 9) = c.render := by
    unfold Cookie.render
    cases hn : c.name with
    | nil => rfl
    | cons b name =>
      have hb := h.name b (by rw [hn]; exact mem_cons_self ..)
      rw [cons_append, dropWhile_cons_of_neg (by simp [hb])]
  have hback : ∀ s : Bytes, (s ++ 61 :: c.name.reverse).dropWhile (fun b => b == 32 || b == 9) =
      s.dropWhile (fun b => b == 32 || b == 9) ++ 61 :: c.name.reverse := by
    intro s
    rw [dropWhile_append]
    split
    case isTrue hs =>
      rw [List.isEmpty_iff.mp hs]
      rfl
    case isFalse => rfl
  simp only [trimBlank, hfront]
  rw [Cookie.render, reverse_append, reverse_cons, append_assoc, singleton_append, hback]
  simp [trimEnd]

theorem cookieIn_render (h : c.WellFormed) (key : Bytes) :
    cookieIn key c.render = if c.name = key then some (trimEnd c.value) else none := by
  have hname : 61 ∉ c.name := fun hmem => (h.name 61 hmem).2.1 rfl
  rw [cookieIn, trimBlank_render h, splitOnce_append hname]
  rfl

/-- A blank after the semicolon makes no difference. -/
theorem findSome_blank (key s : Bytes) :
    ((32 :: s).splitOn 59).findSome? (cookieIn key) = (s.splitOn 59).findSome? (cookieIn key) := by
  rw [splitOn_cons_eq_if_modifyHead, if_neg (by decide)]
  cases s.splitOn 59 with
  | nil => rfl
  | cons part parts =>
    rw [modifyHead_cons, findSome?_cons, findSome?_cons, cookieIn, trimBlank_blank]
    rfl

theorem semicolon_not_mem (h : c.WellFormed) : 59 ∉ c.render := by
  intro hmem
  rcases mem_append.mp hmem with hmem | hmem
  · exact (h.name 59 hmem).1 rfl
  · rcases mem_cons.mp hmem with hmem | hmem
    · exact absurd hmem (by decide)
    · exact h.value hmem

/-- The cookies are read back from the header. -/
theorem findSome_cookieString {jar : List Cookie} (h : ∀ c ∈ jar, c.WellFormed) (key : Bytes) :
    ((cookieString jar).splitOn 59).findSome? (cookieIn key) =
      (jar.find? (·.name = key)).map fun c => trimEnd c.value := by
  induction jar with
  | nil => rfl
  | cons c cs ih =>
    have hc := h c (mem_cons_self ..)
    have hfirst := cookieIn_render hc key
    have hsplit : ((cookieString (c :: cs)).splitOn 59).findSome? (cookieIn key) =
        (cookieIn key c.render).or
          ((cs.find? (·.name = key)).map fun c => trimEnd c.value) := by
      cases cs with
      | nil =>
        rw [cookieString, splitOn_eq_singleton (semicolon_not_mem hc), findSome?_cons]
        cases cookieIn key c.render <;> rfl
      | cons d ds =>
        have hrest := ih fun c hm => h c (mem_cons_of_mem _ hm)
        rw [cookieString, splitOn_append_cons_self_of_not_mem (semicolon_not_mem hc),
          findSome?_cons, findSome_blank, hrest]
        · cases cookieIn key c.render <;> rfl
        · exact nofun
    rw [hsplit, hfirst, find?_cons]
    by_cases hname : c.name = key
    · simp [hname]
    · simp [hname]

/-- The Cookie headers that `to_str` accepts. -/
def visible (jars : List (List Cookie)) : List (List Cookie) :=
  jars.filter fun jar => (toStr (cookieString jar)).isSome

/-- The value of the first cookie with a name, without the blanks in front of the semicolon. -/
def firstValue (jars : List (List Cookie)) (name : Bytes) : Option Bytes :=
  (jars.flatten.find? (·.name = name)).map fun c => trimEnd c.value

/-- `cookie_value` reads the headers that are visible. -/
theorem cookieValue_eq (hjars : headers.getAll (ascii "cookie") = jars.map cookieString)
    (hwf : ∀ jar ∈ jars, ∀ c ∈ jar, c.WellFormed) (key : Bytes) :
    cookieValue headers key = firstValue (visible jars) key := by
  show (headers.getAll (ascii "cookie")).findSome? (fun value => (toStr value).bind fun raw =>
    (raw.splitOn 59).findSome? (cookieIn key)) = _
  rw [hjars]
  clear hjars
  induction jars with
  | nil => rfl
  | cons jar jars ih =>
    have hrest := ih fun j hj => hwf j (mem_cons_of_mem _ hj)
    have hjar := findSome_cookieString (hwf jar (mem_cons_self ..)) key
    rw [map_cons, findSome?_cons, hrest]
    simp only [visible, filter_cons]
    cases hstr : toStr (cookieString jar) with
    | some raw =>
      have hraw : raw = cookieString jar := by
        unfold toStr at hstr
        split at hstr
        · exact (Option.some.inj hstr).symm
        · cases hstr
      rw [bind_some, hraw, hjar, isSome_some, if_pos rfl, firstValue, firstValue,
        flatten_cons, find?_append]
      cases jar.find? (·.name = key) <;> rfl
    | none => rfl

/-- The cookies `KEY_0`, `KEY_1`, .. in `jars` are the chunks of the base64 text of `part`, and
there is no cookie with the next number. -/
structure CookiesSpell (key : Bytes) (jars : List (List Cookie)) (part : Bytes)
    (chunks : List Bytes) : Prop where
  text : chunks.flatten = encode part
  found : ∀ i ≤ chunks.length, firstValue jars (cookieKey key i) = chunks[i]?

/-- The Cookie headers are `jars`, with the chunks of `part`. -/
structure CookieChunks (key : Bytes) (headers : HeaderMap) (jars : List (List Cookie))
    (part : Bytes) (chunks : List Bytes) : Prop where
  headers : headers.getAll (ascii "cookie") = jars.map cookieString
  wellFormed : ∀ jar ∈ jars, ∀ c ∈ jar, c.WellFormed
  spells : CookiesSpell key jars part chunks

/-- Where a placement reads the cookies, those in the headers that are visible spell the part. -/
def SeenIfRead (placement : UplinkDataPlacement) (key : Bytes) (jars : List (List Cookie))
    (part : Bytes) : Prop :=
  placement = .cookie ∨ placement = .auto → ∃ seen, CookiesSpell key (visible jars) part seen

theorem cookieKey_injective {i j : Nat} (h : cookieKey key i = cookieKey key j) : i = j :=
  decimal_injective (append_cancel_left h)

theorem length_cookieString (jar : List Cookie) : jar.length ≤ (cookieString jar).length := by
  fun_induction cookieString jar with
  | case1 => exact Nat.le_refl 0
  | case2 c => simp [Cookie.render]; omega
  | case3 c cs _ ih =>
    simp only [Cookie.render, length_append, length_cons]
    omega

/-- The turns that the loop over the cookies may make are enough for all cookies. -/
theorem length_jars (h : headers.getAll (ascii "cookie") = jars.map cookieString) (a : Nat) :
    jars.flatten.length + a ≤ (headers.map fun h => h.2.length + 1).foldl (· + ·) a := by
  induction headers generalizing jars a with
  | nil =>
    have hnil : jars = [] := map_eq_nil_iff.mp h.symm
    rw [hnil]
    exact Nat.le_of_eq (Nat.zero_add a)
  | cons header headers ih =>
    rw [map_cons, foldl_cons]
    unfold HeaderMap.getAll at h ih
    by_cases hname : (header.1 == lowercase (ascii "cookie")) = true
    · rw [filter_cons, if_pos hname, map_cons] at h
      cases jars with
      | nil => cases h
      | cons jar jars =>
        obtain ⟨hvalue, hrest⟩ := List.cons.inj h
        have hjar := length_cookieString jar
        have := ih hrest (a + (header.2.length + 1))
        rw [hvalue] at this ⊢
        rw [flatten_cons, length_append]
        omega
    · rw [filter_cons, if_neg hname] at h
      have := ih h (a + (header.2.length + 1))
      omega

/-- Cookies with different numbers are no more than there are cookies that are visible. -/
theorem length_le_visible
    (h : ∀ i < chunks.length, firstValue (visible jars) (cookieKey key i) = chunks[i]?) :
    chunks.length ≤ jars.flatten.length := by
  have hnames : ∀ i < chunks.length, cookieKey key i ∈ (visible jars).flatten.map (·.name) := by
    intro i hi
    have hfound := h i hi
    rw [getElem?_eq_getElem hi] at hfound
    obtain ⟨c, hc, _⟩ := map_eq_some_iff.mp hfound
    have hname : c.name = cookieKey key i := by simpa using find?_some hc
    exact mem_map.mpr ⟨c, mem_of_find?_eq_some hc, hname⟩
  have hle := length_le_of_names (fun _ _ => cookieKey_injective) hnames
  rw [length_map] at hle
  exact Nat.le_trans hle filter_sublist.flatten.length_le

end

section

variable {key part : Bytes} {headers : HeaderMap} {jars : List (List Cookie)}
  {decode : Bytes → Option Bytes} {o : Origin}

/-- The part in the cookies. -/
theorem decodeCookiePayload_seen (hlimit : o.xhttp.maxEachPostBytes < 2 ^ 60)
    (hjars : headers.getAll (ascii "cookie") = jars.map cookieString)
    (hwf : ∀ jar ∈ jars, ∀ c ∈ jar, c.WellFormed)
    (hseen : SeenIfRead o.xhttp.uplinkDataPlacement o.xhttp.uplinkDataKey jars part)
    (hdecode : decode (encode part) = some part) :
    o.decodeCookiePayload decode headers = partResult o.xhttp.maxEachPostBytes
      (if o.xhttp.uplinkDataPlacement = .cookie ∨ o.xhttp.uplinkDataPlacement = .auto then part
        else []) := by
  unfold Origin.decodeCookiePayload
  split
  case isFalse => rfl
  case isTrue hread =>
    obtain ⟨seen, htext, hfound⟩ := hseen hread
    have hlen := length_le_visible fun i hi => hfound i (Nat.le_of_lt hi)
    have hfuel := length_jars hjars 1
    refine decode_chunks_eq hlimit hdecode htext (fun i hi => ?_) (by omega)
    exact congrArg (Option.map Except.ok) ((cookieValue_eq hjars hwf _).trans (hfound i hi))

theorem decodeCookiePayload_length {bytes : Bytes}
    (h : o.decodeCookiePayload decode headers = .ok bytes) :
    bytes.length ≤ o.xhttp.maxEachPostBytes := by
  unfold Origin.decodeCookiePayload at h
  split at h
  · obtain ⟨text, _, hbytes⟩ := except_bind_ok.mp h
    exact (decodePayloadChunks_ok hbytes).1
  · cases h
    exact Nat.zero_le _

/-- Only cookies that spell the part are read as it. -/
theorem seen_of_decodeCookiePayload
    (hjars : headers.getAll (ascii "cookie") = jars.map cookieString)
    (hwf : ∀ jar ∈ jars, ∀ c ∈ jar, c.WellFormed)
    (hdecode : ∀ text, decode text = some part → text = encode part)
    (h : o.decodeCookiePayload decode headers = .ok part) :
    SeenIfRead o.xhttp.uplinkDataPlacement o.xhttp.uplinkDataKey jars part := by
  intro hread
  have hget : ∀ i, cookieValue headers (o.xhttp.uplinkDataKey ++ ascii "_" ++ decimal i) =
      firstValue (visible jars) (cookieKey o.xhttp.uplinkDataKey i) :=
    fun i => cookieValue_eq hjars hwf _
  simp only [Origin.decodeCookiePayload, if_pos hread, hget] at h
  obtain ⟨text, hcollect, hpart⟩ := except_bind_ok.mp h
  obtain ⟨seen, htext, hfound, hend⟩ := collectChunks_found hcollect
  simp only [Nat.zero_add, nil_append] at htext hfound hend
  have hcount := length_le_visible hfound
  have hfuel := length_jars hjars 1
  have hnone := hend.resolve_right (by omega)
  refine ⟨seen, ?_, fun i hi => ?_⟩
  · rcases (decodePayloadChunks_ok hpart).2 with ⟨hnil, rfl⟩ | hsome
    · exact htext.symm.trans hnil
    · exact htext.symm.trans (hdecode text hsome)
  · rcases Nat.lt_or_eq_of_le hi with hlt | rfl
    · exact hfound i hlt
    · rw [hnone, getElem?_eq_none (Nat.le_refl _)]

end

/-! ## The body -/

/-- The data of a body. -/
def bodyData : List BodyFrame → Bytes
  | [] => []
  | .data bytes :: rest => bytes ++ bodyData rest
  | .trailers :: rest | .failed :: rest => bodyData rest

/-- The body arrives as a whole. The size hint of hyper is the length, if it is known. -/
structure Delivers (body : Body) (b : Bytes) : Prop where
  complete : .failed ∉ body.frames
  data : bodyData body.frames = b
  hint : body.upper = none ∨ body.upper = some b.length

theorem readFrames_eq {limit : Nat} (hlimit : limit < 2 ^ 60) {frames : List BodyFrame}
    (hcomplete : .failed ∉ frames) {first combined : Option Bytes} {total : Nat}
    (htotal : total = (combined.getD (first.getD [])).length) (hle : total ≤ limit) :
    readFrames limit frames first combined total =
      partResult limit (combined.getD (first.getD []) ++ bodyData frames) := by
  induction frames generalizing first combined total with
  | nil =>
    rw [readFrames, bodyData, append_nil, partResult, if_neg (by omega)]
  | cons frame frames ih =>
    have hrest : .failed ∉ frames := fun hm => hcomplete (mem_cons_of_mem _ hm)
    cases frame with
    | failed => exact absurd (mem_cons_self ..) hcomplete
    | trailers => exact ih hrest htotal hle
    | data bytes =>
      cases bytes with
      | nil => exact ih hrest htotal hle
      | cons x bytes =>
        by_cases hlong : total + (x :: bytes).length > limit
        · have hall : (combined.getD (first.getD []) ++
              bodyData (.data (x :: bytes) :: frames)).length > limit := by
            simp only [bodyData, length_append]
            omega
          rw [partResult, if_pos hall, readFrames.eq_def]
          dsimp only
          rw [if_pos (.inr hlong)]
        · have hshort : ¬ (total + (x :: bytes).length > u64Max ∨
              total + (x :: bytes).length > limit) := by
            rw [u64Max]
            omega
          rw [readFrames.eq_def, bodyData, ← append_assoc]
          dsimp only
          rw [if_neg hshort]
          cases combined with
          | some payload =>
            refine ih hrest ?_ (Nat.le_of_not_lt hlong)
            rw [getD_some, length_append, htotal, getD_some]
          | none =>
            cases first with
            | some initial =>
              refine ih hrest ?_ (Nat.le_of_not_lt hlong)
              rw [getD_some, length_append, htotal, getD_none, getD_some]
            | none =>
              refine ih hrest ?_ (Nat.le_of_not_lt hlong)
              rw [htotal]
              exact Nat.zero_add _

/-! ## The upload -/

/-- The parts that a placement asks for. -/
def assembled (placement : UplinkDataPlacement) (h c b : Bytes) : Bytes :=
  (if placement = .header ∨ placement = .auto then h else []) ++
    (if placement = .cookie ∨ placement = .auto then c else []) ++
    (if placement = .body ∨ placement = .auto then b else [])

def NoPush (e : Effect) : Prop := ∀ s n x, e ≠ .pushUplink s n x

/-- The handler counts the bytes and pushes the payload, and there is no other push. -/
def Pushes (p : Handler Response) (sessionId : Bytes) (seq : Nat) (payload : Bytes) : Prop :=
  ∃ answer : Option PushResult → Handler Response, (∀ r, (answer r).Calls NoPush) ∧
    p = .call (.count .uploadBytes payload.length) fun _ =>
      .call (.pushUplink sessionId seq payload) answer

/-- The handler answers 413 and pushes nothing. -/
def Refuses (p : Handler Response) : Prop :=
  p = .call (.count .requestBodyRejections 1) fun _ => .done (emptyResponse 413)

section

variable {o : Origin} {sessionId : Bytes} {seq : Nat}

variable {payload x y : Bytes} {p : Handler Response}

theorem finishUpload_pushes (h : payload.length ≤ o.xhttp.maxEachPostBytes) :
    Pushes (o.finishUpload sessionId seq payload) sessionId seq payload := by
  have haccepted : (if o.xhttp.uplinkDataPlacement = .body then pure (emptyResponse 200)
      else pure ((emptyResponse 200).insert "cache-control" (ascii "no-store")) :
      Handler Response).Calls NoPush := by
    split <;> trivial
  rw [Origin.finishUpload, if_neg (Nat.not_lt.mpr h)]
  refine ⟨_, fun r => ?_, rfl⟩
  match r with
  | some .accepted | some .duplicate => exact haccepted
  | some .tooManyPending | some .tooManyPendingBytes => exact ⟨nofun, fun _ => trivial⟩
  | some .closed => trivial
  | some .globalBufferExceeded | none => exact ⟨nofun, fun _ => trivial⟩

theorem Refuses.not_pushes (h : Refuses p) : ¬ Pushes p sessionId seq payload := by
  rintro ⟨answer, _, heq⟩
  cases h.symm.trans heq

/-- There is one push, so it is of one payload. -/
theorem Pushes.unique (hx : Pushes p sessionId seq x) (hy : Pushes p sessionId seq y) : x = y := by
  obtain ⟨_, _, hx⟩ := hx
  obtain ⟨_, _, hy⟩ := hy
  have heq := hx.symm.trans hy
  injection heq with _ hcont
  injection congrFun hcont () with hcall
  cases hcall
  rfl

theorem finishUpload_long (h : payload.length > o.xhttp.maxEachPostBytes) :
    o.finishUpload sessionId seq payload = Origin.rejectUploadTooLarge := if_pos h

theorem finishUpload_payload (h : Pushes (o.finishUpload sessionId seq x) sessionId seq y) :
    x = y := by
  by_cases hlong : x.length > o.xhttp.maxEachPostBytes
  · exact absurd h (Refuses.not_pushes (finishUpload_long hlong))
  · exact (finishUpload_pushes (Nat.le_of_not_lt hlong)).unique h

theorem withPayload_part {limit : Nat} {part : Bytes} {f : Bytes → Handler Response} :
    Origin.withPayload (partResult limit part) f =
      if part.length > limit then Origin.rejectUploadTooLarge else f part := by
  unfold partResult
  split <;> rfl

variable {decode : Bytes → Option Bytes} {headers : HeaderMap} {body : Body}

/-- An upload whose parts are read finishes with their concatenation: a part that is too long alone
is too long together with the others. -/
theorem upload_eq {x y b : Bytes}
    (hheader : o.decodeHeaderPayload decode headers = partResult o.xhttp.maxEachPostBytes x)
    (hcookie : o.decodeCookiePayload decode headers = partResult o.xhttp.maxEachPostBytes y)
    (hbody : o.readBodyPayload body = partResult o.xhttp.maxEachPostBytes b)
    (hhint : body.upper = none ∨ body.upper = some b.length) :
    o.upload decode headers body sessionId seq = o.finishUpload sessionId seq
      (x ++ y ++ if o.xhttp.uplinkDataPlacement = .body ∨ o.xhttp.uplinkDataPlacement = .auto
        then b else []) := by
  rw [Origin.upload, hheader, hcookie, withPayload_part, withPayload_part]
  by_cases hx : x.length > o.xhttp.maxEachPostBytes
  · rw [if_pos hx, finishUpload_long]
    simp only [length_append]
    omega
  rw [if_neg hx]
  by_cases hy : y.length > o.xhttp.maxEachPostBytes
  · rw [if_pos hy, finishUpload_long]
    simp only [length_append]
    omega
  rw [if_neg hy]
  by_cases hreads : o.xhttp.uplinkDataPlacement = .body ∨ o.xhttp.uplinkDataPlacement = .auto
  · simp only [if_pos hreads]
    rw [hbody, withPayload_part]
    by_cases hb : b.length > o.xhttp.maxEachPostBytes
    · rw [if_pos hb, ite_self, finishUpload_long]
      simp only [length_append]
      omega
    · have hfits : ¬ body.upper.any (· > o.xhttp.maxEachPostBytes) = true := by
        rcases hhint with h | h <;> simp [h]
        omega
      rw [if_neg hfits, if_neg hb]
      split
      case isTrue hnil => rw [hnil, nil_append]
      case isFalse => rfl
  · simp only [if_neg hreads, append_nil]

/-- An upload that pushes the payload has read the part of the cookies as it is. -/
theorem seen_of_pushes {x c b : Bytes} {jars : List (List Cookie)}
    (hheader : o.decodeHeaderPayload decode headers = partResult o.xhttp.maxEachPostBytes x)
    (hbody : o.readBodyPayload body = partResult o.xhttp.maxEachPostBytes b)
    (hhint : body.upper = none ∨ body.upper = some b.length)
    (hjars : headers.getAll (ascii "cookie") = jars.map cookieString)
    (hwf : ∀ jar ∈ jars, ∀ c ∈ jar, c.WellFormed)
    (hdecode : ∀ text, decode text = some c → text = encode c)
    (hpush : Pushes (o.upload decode headers body sessionId seq) sessionId seq
      (x ++ (if o.xhttp.uplinkDataPlacement = .cookie ∨ o.xhttp.uplinkDataPlacement = .auto
          then c else []) ++
        if o.xhttp.uplinkDataPlacement = .body ∨ o.xhttp.uplinkDataPlacement = .auto
          then b else [])) :
    SeenIfRead o.xhttp.uplinkDataPlacement o.xhttp.uplinkDataKey jars c := by
  cases hcookie : o.decodeCookiePayload decode headers with
  | error e =>
    exfalso
    rw [Origin.upload, hheader, hcookie, withPayload_part] at hpush
    obtain ⟨_, _, heq⟩ := hpush
    by_cases hlong : x.length > o.xhttp.maxEachPostBytes
    · rw [if_pos hlong] at heq
      cases heq
    · rw [if_neg hlong] at heq
      cases e <;> cases heq
  | ok bytes =>
    have hlen := decodeCookiePayload_length hcookie
    rw [upload_eq hheader (hcookie.trans (if_neg (Nat.not_lt.mpr hlen)).symm) hbody hhint] at hpush
    have hbytes := finishUpload_payload hpush
    intro hread
    rw [if_pos hread] at hbytes
    have := append_cancel_left (append_cancel_right hbytes)
    exact seen_of_decodeCookiePayload hjars hwf hdecode (this ▸ hcookie) hread

end

/-- **Assembly.** However the parts of a payload are cut into chunks and frames, and whatever other
headers and cookies there are: the upload pushes exactly the concatenation of the parts that the
placement asks for, or refuses it if it is too long, provided that the cookies in the ASCII headers
alone spell their part, where the placement reads cookies. A payload that fits is pushed only
then. -/
theorem upload_assembles (decode : Bytes → Option Bytes) (o : Origin)
    (hlimit : o.xhttp.maxEachPostBytes < 2 ^ 60) (headers : HeaderMap) (body : Body)
    (sessionId : Bytes) (seq : Nat) (h c b : Bytes) (hchunks cchunks : List Bytes)
    (jars : List (List Cookie)) (hh : HeaderChunks o.xhttp.uplinkDataKey headers h hchunks)
    (hc : CookieChunks o.xhttp.uplinkDataKey headers jars c cchunks)
    (hdh : decode (encode h) = some h) (hdc : ∀ text, decode text = some c ↔ text = encode c)
    (hb : Delivers body b) :
    let payload := assembled o.xhttp.uplinkDataPlacement h c b
    let seen := SeenIfRead o.xhttp.uplinkDataPlacement o.xhttp.uplinkDataKey jars c
    (payload.length ≤ o.xhttp.maxEachPostBytes →
      (Pushes (o.upload decode headers body sessionId seq) sessionId seq payload ↔ seen)) ∧
    (o.xhttp.maxEachPostBytes < payload.length → seen →
      Refuses (o.upload decode headers body sessionId seq)) := by
  have hbody : o.readBodyPayload body = partResult o.xhttp.maxEachPostBytes b := by
    rw [← hb.data]
    exact readFrames_eq hlimit hb.complete rfl (Nat.zero_le _)
  have hheader := decodeHeaderPayload_chunks hlimit hh hdh
  intro payload seen
  have hupload : seen → o.upload decode headers body sessionId seq =
      o.finishUpload sessionId seq payload := fun hseen =>
    upload_eq hheader (decodeCookiePayload_seen hlimit hc.headers hc.wellFormed hseen
      ((hdc _).mpr rfl)) hbody hb.hint
  refine ⟨fun hfits => ⟨fun hpush => ?_, fun hseen => ?_⟩, fun hlong hseen => ?_⟩
  · exact seen_of_pushes hheader hbody hb.hint hc.headers hc.wellFormed
      (fun text => (hdc text).mp) hpush
  · rw [hupload hseen]
    exact finishUpload_pushes hfits
  · rw [hupload hseen]
    exact finishUpload_long hlong

/-- An origin with the key `k` and at most four bytes. -/
def smallOrigin (placement : UplinkDataPlacement) : Origin where
  xhttp :=
    { path := ascii "/xhttp/", host := [], maxEachPostBytes := 4, sseHeader := true
      maxHeaderBytes := 512, paddingFrom := 2, paddingTo := 2
      uplinkDataPlacement := placement, uplinkDataKey := ascii "k" }
  site :=
    let page := fun text => ⟨ascii "text/html", ascii text, ascii "no-store", ascii "e", ascii "d"⟩
    ⟨∅, page "not found", page "not allowed"⟩

/-- `AB` in two headers, `C` in a cookie, and another cookie. -/
def splitHeaders : HeaderMap :=
  [(ascii "k-0", ascii "Q"), (ascii "cookie", ascii "n=1; k_0=Qw"), (ascii "k-1", ascii "UI")]

def splitJars : List (List Cookie) := [[⟨ascii "n", ascii "1"⟩, ⟨ascii "k_0", ascii "Qw"⟩]]

def splitBody : Body := ⟨none, [.data (ascii "D"), .trailers]⟩

def decodeSample (text : Bytes) : Option Bytes :=
  if text = ascii "QUI" then some (ascii "AB")
  else if text = ascii "Qw" then some (ascii "C")
  else none

theorem upload_assembles_split :
    Pushes ((smallOrigin .auto).upload decodeSample splitHeaders splitBody (ascii "s") 0)
      (ascii "s") 0 (ascii "ABCD") := by
  have hh : HeaderChunks (ascii "k") splitHeaders (ascii "AB") [ascii "Q", ascii "UI"] :=
    ⟨by decide, by decide +kernel⟩
  have hwf : ∀ jar ∈ splitJars, ∀ c ∈ jar, c.WellFormed := by
    simp only [splitJars, forall_mem_singleton, forall_mem_cons]
    exact ⟨Cookie.wellFormed_of_all rfl rfl, Cookie.wellFormed_of_all rfl rfl⟩
  have hc : CookieChunks (ascii "k") splitHeaders splitJars (ascii "C") [ascii "Qw"] :=
    ⟨by decide +kernel, hwf, by decide, by decide +kernel⟩
  have hseen : SeenIfRead .auto (ascii "k") splitJars (ascii "C") := fun _ =>
    ⟨[ascii "Qw"], by decide, by decide +kernel⟩
  have hdecode : ∀ text, decodeSample text = some (ascii "C") ↔ text = encode (ascii "C") := by
    intro text
    constructor
    · intro h
      unfold decodeSample at h
      split at h
      · cases h
      · split at h
        case isTrue htext => exact htext
        case isFalse => cases h
    · rintro rfl
      decide
  have hb : Delivers splitBody (ascii "D") := ⟨by decide, by decide, .inl rfl⟩
  exact (upload_assembles decodeSample (smallOrigin .auto) (by decide) splitHeaders splitBody
    (ascii "s") 0 (ascii "AB") (ascii "C") (ascii "D") _ _ splitJars hh hc (by decide)
    hdecode hb).1 (by decide) |>.mpr hseen

/-- `C` in a cookie, and another cookie in UTF-8. -/
def foreignJar : List Cookie := [⟨ascii "n", [0xC3, 0xA9]⟩, ⟨ascii "k_0", ascii "Qw"⟩]

def foreignHeaders : HeaderMap := [(ascii "cookie", cookieString foreignJar)]

def noBody : Body := ⟨none, []⟩

/-- The Cookie header is no `str`, so it is skipped, and the upload pushes nothing of the part. -/
theorem foreign_cookie_hides_chunk :
    HeaderChunks (ascii "k") foreignHeaders [] [] ∧
    CookieChunks (ascii "k") foreignHeaders [foreignJar] (ascii "C") [ascii "Qw"] ∧
    Delivers noBody [] ∧ assembled .cookie [] (ascii "C") [] = ascii "C" ∧
    Pushes ((smallOrigin .cookie).upload decodeSample foreignHeaders noBody (ascii "s") 0)
      (ascii "s") 0 [] ∧
    ¬ Pushes ((smallOrigin .cookie).upload decodeSample foreignHeaders noBody (ascii "s") 0)
      (ascii "s") 0 (ascii "C") := by
  have hdelivers : Delivers noBody [] := ⟨by decide, rfl, .inl rfl⟩
  have hheader : (smallOrigin .cookie).decodeHeaderPayload decodeSample foreignHeaders =
      partResult 4 [] := rfl
  have hcookie : (smallOrigin .cookie).decodeCookiePayload decodeSample foreignHeaders =
      partResult 4 [] := by
    decide +kernel
  have hupload : (smallOrigin .cookie).upload decodeSample foreignHeaders noBody (ascii "s") 0 =
      (smallOrigin .cookie).finishUpload (ascii "s") 0 [] :=
    upload_eq hheader hcookie rfl hdelivers.hint
  have hpushes : Pushes ((smallOrigin .cookie).finishUpload (ascii "s") 0 []) (ascii "s") 0 [] :=
    finishUpload_pushes (by decide)
  have hwf : ∀ jar ∈ [foreignJar], ∀ c ∈ jar, c.WellFormed := by
    simp only [foreignJar, forall_mem_singleton, forall_mem_cons]
    exact ⟨Cookie.wellFormed_of_all rfl rfl, Cookie.wellFormed_of_all rfl rfl⟩
  rw [hupload]
  refine ⟨⟨by decide, by decide +kernel⟩, ⟨by decide +kernel, hwf, by decide, by decide +kernel⟩,
    hdelivers, by decide, hpushes, ?_⟩
  exact fun hpush => absurd (hpushes.unique hpush) (by decide)

end Xhttp.Http
