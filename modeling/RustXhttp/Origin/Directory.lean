import RustXhttp.Origin.Site
import RustXhttp.Lib.Percent
import RustXhttp.Lib.Exec
import Mathlib.Data.List.Sort

/-!
# A site from a directory (`StaticSite::from_directory` of `src/site.rs`)

Every regular file below the directory is loaded under its path, and an index file also under the
path of its directory. A path is the list of its components.

A directory is a tree of names (`Node`). Each of the calls that read it may fail (`Disk.fails`).
The hash of `blake3` and the date of `httpdate` are parameters (`AssetFormat`).

- `mem_collectNode`: the files that are collected are the regular files of the tree.
- `keys_unique`: no key belongs to two files.
- `loadFiles_lookup`: what the site holds under each key.
-/

namespace Xhttp.Http

open List

/-! ## Directory trees -/

mutual
/-- What a name in a directory stands for. -/
inductive Node where
  | file (content : Bytes) (modified : Option Nat)
  | dir (entries : Entries)
  | symlink
  | other
/-- The entries of a directory, in the order in which they are read. -/
inductive Entries where
  | nil
  | cons (name : Bytes) (node : Node) (rest : Entries)
end

abbrev PathBuf := List Bytes

def slash : UInt8 := 47

/-- A name in a directory. -/
def IsName (name : Bytes) : Prop :=
  name ≠ [] ∧ slash ∉ name ∧ name ≠ [46] ∧ name ≠ [46, 46]

def Entries.find? (name : Bytes) : Entries → Option Node
  | .nil => none
  | .cons n node rest => if n = name then some node else rest.find? name

def Node.isDir : Node → Bool
  | .dir _ => true
  | _ => false

/-- What is at a path below a node. -/
def Node.get? : Node → PathBuf → Option Node
  | node, [] => some node
  | .dir entries, name :: path => (entries.find? name).bind fun node => node.get? path
  | _, _ :: _ => none

mutual
/-- The names of each directory are names, and no two are the same. -/
def Node.WellFormed : Node → Prop
  | .dir entries => entries.WellFormed
  | _ => True
def Entries.WellFormed : Entries → Prop
  | .nil => True
  | .cons name node rest =>
    IsName name ∧ rest.find? name = none ∧ node.WellFormed ∧ rest.WellFormed
end

/-- The calls that read a directory. -/
inductive FsOp where
  | readDir | entry | symlinkMetadata | metadata | read
  deriving DecidableEq, Repr

/-- The directories that there are, and the calls that fail. -/
structure Disk where
  canonicalize : PathBuf → Option (PathBuf × Node)
  fails : FsOp → PathBuf → Bool
  wellFormed : ∀ {path root node}, canonicalize path = some (root, node) → node.WellFormed

inductive SiteError where
  | missingDirectory
  | notDirectory (path : PathBuf)
  | empty (path : PathBuf)
  | read (path : PathBuf)
  | symlink (path : PathBuf)
  | escapesRoot (path : PathBuf)
  | invalidPath (path : PathBuf)
  | fileTooLarge (path : PathBuf) (length limit : Nat)
  | siteTooLarge (length limit : Nat)
  | missingIndex (index : Bytes)
  | missingNotFound (key : Bytes)
  deriving DecidableEq, Repr

/-! ## Collecting the files -/

section Collect

variable (disk : Disk) (root : PathBuf)

mutual
/-- `collect_files` at a path with its metadata. -/
def collectNode (path : PathBuf) : Node → Except SiteError (List PathBuf)
  | .symlink => .error (.symlink path)
  | .dir entries => do
    rejectIf (disk.fails .readDir path) (.read path)
    collectEntries path entries
  | .file _ _ => do
    rejectIf (root.isPrefixOf path = false) (.escapesRoot path)
    return [path]
  | .other => .ok []
/-- The loop of `collect_files` over the entries of a directory. -/
def collectEntries (directory : PathBuf) : Entries → Except SiteError (List PathBuf)
  | .nil => .ok []
  | .cons name node rest => do
    rejectIf (disk.fails .entry directory) (.read directory)
    let path := directory ++ [name]
    rejectIf (disk.fails .symlinkMetadata path) (.read path)
    let files ← collectNode path node
    let more ← collectEntries directory rest
    return files ++ more
end

end Collect

/-- The order of texts. -/
def bytesLt : Bytes → Bytes → Bool
  | _, [] => false
  | [], _ :: _ => true
  | a :: as, b :: bs => if a < b then true else if b < a then false else bytesLt as bs

/-- The order of `PathBuf`: component by component. -/
def pathLt : PathBuf → PathBuf → Bool
  | _, [] => false
  | [], _ :: _ => true
  | a :: as, b :: bs =>
    if bytesLt a b then true else if bytesLt b a then false else pathLt as bs

/-- `files.sort()`. -/
def sortFiles (files : List PathBuf) : List PathBuf :=
  files.insertionSort fun a b => pathLt b a = false

/-! ## URLs -/

/-- The bytes that `percent_encode` leaves as they are. -/
def unreserved (b : UInt8) : Bool :=
  (48 ≤ b && b ≤ 57) || (65 ≤ b && b ≤ 90) || (97 ≤ b && b ≤ 122) ||
    b = 45 || b = 46 || b = 95 || b = 126

def percentEncode (bytes : Bytes) : Bytes := Percent.encode unreserved bytes

/-- The loop of `url_path` over the components. -/
def urlPathFrom (relative : PathBuf) (first : Bool) (output : Bytes) :
    List Bytes → Except SiteError Bytes
  | [] => .ok output
  | component :: components =>
    -- anything but `Component::Normal`
    if component = [46] ∨ component = [46, 46] then .error (.invalidPath relative)
    else
      urlPathFrom relative false
        ((if first then output else output ++ [slash]) ++ percentEncode component) components

def urlPath (relative : PathBuf) : Except SiteError Bytes :=
  urlPathFrom relative true [slash] relative

/-- The key of an index file for its directory. -/
def indexAlias (parent : PathBuf) : Except SiteError Bytes := do
  let url ← urlPath parent
  return if url ≠ [slash] then url ++ [slash] else url

/-! ## Assets -/

/-- The parts of `blake3` and `httpdate` that an asset needs. -/
structure AssetFormat where
  hash : Bytes → ByteArr 32
  fmtHttpDate : Nat → Bytes

def cacheHtml : Bytes := ascii "public, max-age=300"
def cacheAsset : Bytes := ascii "public, max-age=86400, immutable"

/-- `rsplit_once('.')` and the lower case of what is after it. -/
def extensionOf (path : Bytes) : Option Bytes :=
  if path.contains 46 then some (lowercase (path.reverse.takeWhile (· ≠ 46)).reverse) else none

def contentTypes : List (List String × String) :=
  [(["html", "htm"], "text/html; charset=utf-8"),
    (["css"], "text/css; charset=utf-8"),
    (["js", "mjs"], "text/javascript; charset=utf-8"),
    (["json", "map"], "application/json; charset=utf-8"),
    (["txt"], "text/plain; charset=utf-8"),
    (["xml"], "application/xml; charset=utf-8"),
    (["svg"], "image/svg+xml"),
    (["png"], "image/png"),
    (["jpg", "jpeg"], "image/jpeg"),
    (["gif"], "image/gif"),
    (["webp"], "image/webp"),
    (["avif"], "image/avif"),
    (["ico"], "image/x-icon"),
    (["woff"], "font/woff"),
    (["woff2"], "font/woff2"),
    (["pdf"], "application/pdf"),
    (["wasm"], "application/wasm")]

def contentType (path : Bytes) : Bytes :=
  let known := (extensionOf path).bind fun extension =>
    contentTypes.find? fun entry => entry.1.any fun name => ascii name = extension
  match known with
  | some entry => ascii entry.2
  | none => ascii "application/octet-stream"

/-- `to_hex`. -/
def toHex (bytes : Bytes) : Bytes :=
  lowercase (bytes.flatMap fun b =>
    [Percent.hexDigit (b.toNat / 16), Percent.hexDigit (b.toNat % 16)])

section Load

variable (F : AssetFormat)

def buildAsset (contentType body cacheControl : Bytes) (modified : Nat) : Asset where
  contentType := contentType
  body := body
  cacheControl := cacheControl
  etag := 34 :: (toHex (F.hash body).val).take 24 ++ [34]
  lastModified := F.fmtHttpDate modified

def asset (path body : Bytes) (modified : Nat) : Asset :=
  let contentType := contentType path
  let cacheControl :=
    if (ascii "text/html").isPrefixOf contentType then cacheHtml else cacheAsset
  buildAsset F contentType body cacheControl modified

def textAsset (contentType body cacheControl : Bytes) : Asset :=
  buildAsset F contentType body cacheControl 0

def defaultNotFound (title description : Bytes) : Bytes :=
  ascii "<!doctype html><html lang=\"en\"><head><meta charset=\"utf-8\"><meta name=\"viewport\" " ++
    ascii "content=\"width=device-width,initial-scale=1\"><title>" ++ title ++
    ascii "</title></head><body><main><h1>" ++ title ++ ascii "</h1><p>" ++ description ++
    ascii "</p><p><a href=\"/\">Home</a></p></main></body></html>"

/-! ## Loading -/

/-- The fields of `FallbackConfig` that a directory needs. -/
structure DirectoryConfig where
  dist : Option PathBuf
  index : Bytes
  notFound : Option Bytes
  maxFileBytes : Nat
  maxTotalBytes : Nat

/-- The content of a regular file below the root, and when it was modified. -/
def fileAt (tree : Node) (relative : PathBuf) : Option (Bytes × Option Nat) :=
  match tree.get? relative with
  | some (.file content modified) => some (content, modified)
  | _ => none

variable (disk : Disk) (config : DirectoryConfig) (root : PathBuf) (tree : Node)

/-- One round of the loop over the files: the assets and their total size so far. -/
def loadFile (loaded : (AList fun _ : Bytes => Asset) × Nat) (file : PathBuf) :
    Except SiteError ((AList fun _ : Bytes => Asset) × Nat) := do
  rejectIf (disk.fails .metadata file) (.read file)
  let relative := file.drop root.length
  let (content, modified) ← (fileAt tree relative).elim (.error (.read file)) .ok
  let length := content.length
  rejectIf (length > config.maxFileBytes) (.fileTooLarge file length config.maxFileBytes)
  rejectIf (loaded.2 + length > u64Max) (.siteTooLarge u64Max config.maxTotalBytes)
  let total := loaded.2 + length
  rejectIf (total > config.maxTotalBytes) (.siteTooLarge total config.maxTotalBytes)
  rejectIf (disk.fails .read file) (.read file)
  let url ← urlPath relative
  let asset := asset F url content (modified.getD 0)
  let assets := loaded.1.insert url asset
  if relative.getLast? = some config.index then do
    let key ← indexAlias relative.dropLast
    return (assets.insert key asset, total)
  else return (assets, total)

def loadFiles (loaded : (AList fun _ : Bytes => Asset) × Nat) :
    List PathBuf → Except SiteError ((AList fun _ : Bytes => Asset) × Nat)
  | [] => .ok loaded
  | file :: files => do
    let loaded ← loadFile F disk config root tree loaded file
    loadFiles loaded files

/-- The asset for paths that are not found. -/
def notFoundAsset (assets : AList fun _ : Bytes => Asset) : Except SiteError Asset :=
  match config.notFound with
  | some path =>
    let key := if path.head? = some slash then path else slash :: path
    (assets.lookup key).elim (.error (.missingNotFound key)) .ok
  | none => .ok (textAsset F (ascii "text/html; charset=utf-8")
      (defaultNotFound (ascii "Page not found") (ascii "Return to the home page")) cacheHtml)

end Load

/-- `StaticSite::from_directory`. -/
def fromDirectory (F : AssetFormat) (disk : Disk) (config : DirectoryConfig) :
    Except SiteError StaticSite := do
  let dist ← config.dist.elim (.error .missingDirectory) .ok
  let (root, tree) ← (disk.canonicalize dist).elim (.error (.read dist)) .ok
  rejectIf (tree.isDir = false) (.notDirectory root)
  let files ← collectNode disk root root tree
  rejectIf (files = []) (.empty root)
  let (assets, _) ← loadFiles F disk config root tree (∅, 0) (sortFiles files)
  rejectIf ((assets.lookup [slash]).isNone) (.missingIndex config.index)
  let notFound ← notFoundAsset F config assets
  let methodNotAllowed := textAsset F (ascii "text/html; charset=utf-8")
    (defaultNotFound (ascii "Method not allowed")
      (ascii "This site accepts GET and HEAD requests")) (ascii "no-store")
  return ⟨assets, notFound, methodNotAllowed⟩

/-! ## The spellings of a path (RFC 3986) -/

/-- The bytes that may stand for themselves in a segment of a path. -/
def pchar (b : UInt8) : Bool :=
  unreserved b || b = 33 || b = 36 || b = 38 || b = 39 || b = 40 || b = 41 || b = 42 || b = 43 ||
    b = 44 || b = 59 || b = 61 || b = 58 || b = 64

/-- The segments of the path `p` decode to `components`. -/
abbrev Spells (p : Bytes) (components : PathBuf) : Prop := Percent.Spells pchar slash p components

section

variable {index p : Bytes} {relative xs ys : PathBuf} {node : Node}

theorem Spells.eq (h : Spells p xs) (h' : Spells p ys) : xs = ys :=
  Percent.Spells.unique (by decide) (by decide) (by decide) h h'

/-- The key of a path. -/
def urlKey (components : PathBuf) : Bytes := Percent.joinPath slash (components.map percentEncode)

theorem spells_urlKey (components : PathBuf) : Spells (urlKey components) components := by
  refine Percent.spells_encode (by decide) ?_ components
  intro b hb
  simp [pchar, hb]

theorem urlKey_inj (h : urlKey xs = urlKey ys) : xs = ys :=
  Spells.eq (spells_urlKey xs) (h ▸ spells_urlKey ys)

theorem urlPathFrom_ok {components : List Bytes} (h : ∀ c ∈ components, IsName c) (output : Bytes) :
    urlPathFrom relative false output components = .ok (output ++ urlKey components) := by
  induction components generalizing output with
  | nil => simp [urlPathFrom, urlKey, Percent.joinPath]
  | cons c components ih =>
    obtain ⟨-, -, hdot, hdots⟩ := h c (by simp)
    rw [urlPathFrom, if_neg (by simp [hdot, hdots]), ih fun d hd => h d (by simp [hd])]
    simp [urlKey, Percent.joinPath]

theorem urlPath_ok (hne : relative ≠ []) (h : ∀ c ∈ relative, IsName c) :
    urlPath relative = .ok (urlKey relative) := by
  cases relative with
  | nil => exact absurd rfl hne
  | cons c components =>
    obtain ⟨-, -, hdot, hdots⟩ := h c (by simp)
    rw [urlPath, urlPathFrom, if_neg (by simp [hdot, hdots]),
      urlPathFrom_ok fun d hd => h d (by simp [hd])]
    simp [urlKey, Percent.joinPath]

/-- The key for a directory has an empty segment at its end. -/
theorem indexAlias_ok {parent : PathBuf} (h : ∀ c ∈ parent, IsName c) :
    indexAlias parent = .ok (urlKey (parent ++ [[]])) := by
  cases parent with
  | nil => rfl
  | cons c parent =>
    have hne : urlKey (c :: parent) ≠ [slash] := by
      intro hslash
      have hnil : c :: parent = [[]] := urlKey_inj (hslash.trans rfl)
      obtain ⟨hc, -⟩ := h c (by simp)
      exact hc (List.cons.inj hnil).1
    unfold indexAlias
    rw [urlPath_ok (cons_ne_nil _ _) h]
    show Except.ok _ = _
    rw [if_pos hne]
    simp [urlKey, Percent.joinPath, percentEncode, Percent.encode]

/-! ## The keys of a file -/

/-- The keys under which a file is loaded. -/
def keysOf (index : Bytes) (relative : PathBuf) : List Bytes :=
  if relative.getLast? = some index then [urlKey relative, urlKey (relative.dropLast ++ [[]])]
  else [urlKey relative]

theorem mem_keysOf :
    p ∈ keysOf index relative ↔ p = urlKey relative ∨
      relative.getLast? = some index ∧ p = urlKey (relative.dropLast ++ [[]]) := by
  unfold keysOf
  split <;> simp [*]

/-- A file is not a directory: its last component is not empty. -/
theorem ne_snoc_nil (h : ∀ c ∈ relative, IsName c) (dir : PathBuf) : relative ≠ dir ++ [[]] := by
  rintro rfl
  exact (h [] (by simp)).1 rfl

/-- **No key belongs to two files.** -/
theorem keys_unique (hx : ∀ c ∈ xs, IsName c) (hy : ∀ c ∈ ys, IsName c) (h : p ∈ keysOf index xs)
    (h' : p ∈ keysOf index ys) : xs = ys := by
  rw [mem_keysOf] at h h'
  obtain rfl | ⟨hlast, rfl⟩ := h
  · obtain heq | ⟨-, heq⟩ := h'
    · exact urlKey_inj heq
    · exact absurd (urlKey_inj heq) (ne_snoc_nil hx _)
  · obtain heq | ⟨hlast', heq⟩ := h'
    · exact absurd (urlKey_inj heq).symm (ne_snoc_nil hy _)
    · have hdir := append_cancel_right (urlKey_inj heq)
      have hxs := dropLast_append_getLast? index hlast
      have hys := dropLast_append_getLast? index hlast'
      rw [← hxs, ← hys, hdir]

/-! ## The files of a tree -/

theorem Node.get?_nil (node : Node) : node.get? [] = some node := by
  cases node <;> rfl

theorem Node.get?_dir (entries : Entries) (name : Bytes) (path : PathBuf) :
    (Node.dir entries).get? (name :: path) =
      (entries.find? name).bind fun node => node.get? path := rfl

theorem Entries.wellFormed_of_find? {name : Bytes} (entries : Entries) (hwf : entries.WellFormed)
    (h : entries.find? name = some node) : IsName name ∧ node.WellFormed := by
  cases entries with
  | nil => cases h
  | cons n first rest =>
    obtain ⟨hname, -, hfirst, hrest⟩ := hwf
    rw [Entries.find?] at h
    by_cases hn : n = name
    · subst hn
      rw [if_pos rfl] at h
      cases h
      exact ⟨hname, hfirst⟩
    · rw [if_neg hn] at h
      exact wellFormed_of_find? rest hrest h

/-- The components of a path in a tree are names. -/
theorem Node.isName_of_get? {found : Node} {path : PathBuf} (hwf : node.WellFormed)
    (h : node.get? path = some found) : ∀ c ∈ path, IsName c := by
  induction path generalizing node with
  | nil => simp
  | cons name path ih =>
    cases node with
    | dir entries =>
      rw [Node.get?_dir] at h
      obtain ⟨child, hchild, h⟩ := Option.bind_eq_some_iff.mp h
      obtain ⟨hname, hwf⟩ := entries.wellFormed_of_find? hwf hchild
      exact forall_mem_cons.mpr ⟨hname, ih hwf h⟩
    | _ => cases h

end

section Collect

variable {disk : Disk} {root : PathBuf}

mutual
/-- The files that are collected are the regular files below the node. -/
theorem mem_collectNode {path : PathBuf} {files : List PathBuf} (node : Node)
    (hwf : node.WellFormed) (h : collectNode disk root path node = .ok files) (f : PathBuf) :
    f ∈ files ↔ ∃ relative content modified, f = path ++ relative ∧
      node.get? relative = some (.file content modified) := by
  cases node with
  | symlink => cases h
  | dir entries =>
    unfold collectNode at h
    obtain ⟨_, -, h⟩ := except_bind_ok.mp h
    rw [mem_collectEntries entries hwf h f]
    constructor
    · rintro ⟨name, relative, content, modified, rfl, hfile⟩
      exact ⟨name :: relative, content, modified, rfl, hfile⟩
    · rintro ⟨relative, content, modified, rfl, hfile⟩
      cases relative with
      | nil => cases hfile
      | cons name relative => exact ⟨name, relative, content, modified, rfl, hfile⟩
  | file content modified =>
    unfold collectNode at h
    obtain ⟨_, -, h⟩ := except_bind_ok.mp h
    cases h
    constructor
    · intro hf
      exact ⟨[], content, modified, by rw [mem_singleton.mp hf, append_nil], rfl⟩
    · rintro ⟨relative, content', modified', rfl, hfile⟩
      cases relative with
      | nil => rw [append_nil]; exact mem_singleton_self _
      | cons name relative => cases hfile
  | other =>
    cases h
    constructor
    · intro hf
      cases hf
    · rintro ⟨relative, content, modified, rfl, hfile⟩
      cases relative with
      | nil => cases hfile
      | cons name relative => cases hfile

theorem mem_collectEntries {path : PathBuf} {files : List PathBuf} (entries : Entries)
    (hwf : entries.WellFormed) (h : collectEntries disk root path entries = .ok files)
    (f : PathBuf) :
    f ∈ files ↔ ∃ name relative content modified, f = path ++ name :: relative ∧
      ((entries.find? name).bind fun node => node.get? relative) =
        some (.file content modified) := by
  cases entries with
  | nil =>
    cases h
    constructor
    · intro hf
      cases hf
    · rintro ⟨_, _, _, _, -, hfile⟩
      cases hfile
  | cons name node rest =>
    obtain ⟨-, hother, hnode, hrest⟩ := hwf
    unfold collectEntries at h
    obtain ⟨_, -, h⟩ := except_bind_ok.mp h
    obtain ⟨_, -, h⟩ := except_bind_ok.mp h
    obtain ⟨here, hhere, h⟩ := except_bind_ok.mp h
    obtain ⟨more, hmore, h⟩ := except_bind_ok.mp h
    cases h
    rw [mem_append, mem_collectNode node hnode hhere f, mem_collectEntries rest hrest hmore f]
    constructor
    · rintro (⟨relative, content, modified, rfl, hfile⟩ |
        ⟨name', relative, content, modified, rfl, hfile⟩)
      · refine ⟨name, relative, content, modified, by simp, ?_⟩
        rw [Entries.find?, if_pos rfl]
        exact hfile
      · -- another entry has another name
        have hne : name ≠ name' := by
          rintro rfl
          rw [hother] at hfile
          cases hfile
        refine ⟨name', relative, content, modified, rfl, ?_⟩
        rw [Entries.find?, if_neg hne]
        exact hfile
    · rintro ⟨name', relative, content, modified, rfl, hfile⟩
      rw [Entries.find?] at hfile
      by_cases hname : name = name'
      · subst hname
        rw [if_pos rfl] at hfile
        exact .inl ⟨relative, content, modified, by simp, hfile⟩
      · rw [if_neg hname] at hfile
        exact .inr ⟨name', relative, content, modified, rfl, hfile⟩
end

end Collect

/-! ## Loading -/

section Load

variable {F : AssetFormat} {disk : Disk} {config : DirectoryConfig} {root : PathBuf} {tree : Node}

/-- The asset of a file. -/
def assetOf (F : AssetFormat) (relative : PathBuf) (content : Bytes) (modified : Option Nat) :
    Asset :=
  asset F (urlKey relative) content (modified.getD 0)

variable {relative : PathBuf} {content : Bytes} {modified : Option Nat}
  {loaded loaded' : (AList fun _ : Bytes => Asset) × Nat} {files : List PathBuf}

theorem fileAt_eq_some :
    fileAt tree relative = some (content, modified) ↔
      tree.get? relative = some (.file content modified) := by
  unfold fileAt
  split
  case h_1 c m h => simp [h]
  case h_2 h =>
    constructor
    · intro hnone
      cases hnone
    · intro hfile
      exact absurd hfile (h content modified)

/-- What loading a file changes: its asset is under its keys. -/
theorem loadFile_ok (hwf : tree.WellFormed)
    (hfile : tree.get? relative = some (.file content modified)) (hne : relative ≠ [])
    (h : loadFile F disk config root tree loaded (root ++ relative) = .ok loaded') (p : Bytes) :
    loaded'.1.lookup p =
      if p ∈ keysOf config.index relative then some (assetOf F relative content modified)
      else loaded.1.lookup p := by
  have hnames := Node.isName_of_get? hwf hfile
  have hparent : ∀ c ∈ relative.dropLast, IsName c :=
    fun c hc => hnames c (dropLast_subset relative hc)
  unfold loadFile at h
  rw [drop_left] at h
  obtain ⟨_, -, h⟩ := except_bind_ok.mp h
  obtain ⟨⟨content', modified'⟩, hcontent, h⟩ := except_bind_ok.mp h
  rw [fileAt_eq_some.mpr hfile] at hcontent
  cases hcontent
  obtain ⟨_, -, h⟩ := except_bind_ok.mp h
  obtain ⟨_, -, h⟩ := except_bind_ok.mp h
  obtain ⟨_, -, h⟩ := except_bind_ok.mp h
  obtain ⟨_, -, h⟩ := except_bind_ok.mp h
  obtain ⟨url, hurl, h⟩ := except_bind_ok.mp h
  rw [urlPath_ok hne hnames] at hurl
  cases hurl
  split at h
  case isTrue hlast =>
    obtain ⟨key, hkey, h⟩ := except_bind_ok.mp h
    rw [indexAlias_ok hparent] at hkey
    cases hkey
    cases h
    rw [keysOf, if_pos hlast]
    by_cases hp : p = urlKey (relative.dropLast ++ [[]])
    · subst hp
      rw [AList.lookup_insert, if_pos (by simp)]
      rfl
    · rw [AList.lookup_insert_ne hp]
      by_cases hp' : p = urlKey relative
      · subst hp'
        rw [AList.lookup_insert, if_pos (by simp)]
        rfl
      · rw [AList.lookup_insert_ne hp', if_neg (by simp [hp, hp'])]
  case isFalse hlast =>
    cases h
    rw [keysOf, if_neg hlast]
    by_cases hp : p = urlKey relative
    · subst hp
      rw [AList.lookup_insert, if_pos (by simp)]
      rfl
    · rw [AList.lookup_insert_ne hp, if_neg (by simp [hp])]

/-- What the site holds under each key: the files that have it, and what was there before. -/
theorem loadFiles_ok (hwf : tree.WellFormed)
    (hfiles : ∀ f ∈ files, ∃ relative content modified, f = root ++ relative ∧ relative ≠ [] ∧
      tree.get? relative = some (.file content modified))
    (h : loadFiles F disk config root tree loaded files = .ok loaded') (p : Bytes) :
    (∀ relative content modified, root ++ relative ∈ files →
      tree.get? relative = some (.file content modified) → p ∈ keysOf config.index relative →
        loaded'.1.lookup p = some (assetOf F relative content modified)) ∧
      ((∀ relative, root ++ relative ∈ files → p ∉ keysOf config.index relative) →
        loaded'.1.lookup p = loaded.1.lookup p) := by
  induction files generalizing loaded with
  | nil =>
    cases h
    refine ⟨?_, fun _ => rfl⟩
    intro _ _ _ hmem
    cases hmem
  | cons file files ih =>
    obtain ⟨relative, content, modified, rfl, hne, hfile⟩ := hfiles file (by simp)
    unfold loadFiles at h
    obtain ⟨next, hnext, h⟩ := except_bind_ok.mp h
    have hlookup := loadFile_ok hwf hfile hne hnext p
    obtain ⟨hin, hout⟩ := ih (fun f hf => hfiles f (by simp [hf])) h
    constructor
    · intro relative' content' modified' hmem hfile' hp
      -- a later file with the same key would be the same file
      by_cases hlater : ∃ r, root ++ r ∈ files ∧ p ∈ keysOf config.index r
      · obtain ⟨r, hr, hpr⟩ := hlater
        obtain ⟨r', c, m, hr', -, hfr⟩ := hfiles (root ++ r) (by simp [hr])
        obtain rfl := append_cancel_left hr'
        obtain rfl := keys_unique (Node.isName_of_get? hwf hfile') (Node.isName_of_get? hwf hfr)
          hp hpr
        exact hin _ _ _ hr hfile' hp
      · have hnone : ∀ r, root ++ r ∈ files → p ∉ keysOf config.index r :=
          fun r hr hpr => hlater ⟨r, hr, hpr⟩
        rw [hout hnone, hlookup]
        obtain heq | hmem := mem_cons.mp hmem
        · obtain rfl := append_cancel_left heq
          rw [hfile] at hfile'
          cases hfile'
          rw [if_pos hp]
        · exact absurd hp (hnone _ hmem)
    · intro hnone
      rw [hout fun r hr => hnone r (by simp [hr]), hlookup, if_neg (hnone relative (by simp))]

theorem elim_error_ok {α : Type} {x : Option α} {e : SiteError} {a : α}
    (h : x.elim (.error e) Except.ok = .ok a) : x = some a := by
  cases x with
  | none => cases h
  | some b =>
    cases h
    rfl

theorem mem_sortFiles {f : PathBuf} : f ∈ sortFiles files ↔ f ∈ files :=
  (perm_insertionSort _ files).mem_iff

/-- The assets of a site: those of the regular files, under their keys. -/
theorem fromDirectory_lookup {site : StaticSite} (h : fromDirectory F disk config = .ok site) :
    ∃ dist root tree, config.dist = some dist ∧ disk.canonicalize dist = some (root, tree) ∧
      tree.isDir = true ∧ ∀ p a, site.assets.lookup p = some a ↔ ∃ relative content modified,
        tree.get? relative = some (.file content modified) ∧ p ∈ keysOf config.index relative ∧
        a = assetOf F relative content modified := by
  unfold fromDirectory at h
  obtain ⟨dist, hdist, h⟩ := except_bind_ok.mp h
  obtain ⟨⟨root, tree⟩, htree, h⟩ := except_bind_ok.mp h
  obtain ⟨_, hdir, h⟩ := except_bind_ok.mp h
  obtain ⟨files, hcollect, h⟩ := except_bind_ok.mp h
  obtain ⟨_, -, h⟩ := except_bind_ok.mp h
  obtain ⟨⟨assets, total⟩, hload, h⟩ := except_bind_ok.mp h
  obtain ⟨_, -, h⟩ := except_bind_ok.mp h
  obtain ⟨notFound, -, h⟩ := except_bind_ok.mp h
  cases h
  have hdist := elim_error_ok hdist
  have htree := elim_error_ok htree
  have hwf := disk.wellFormed htree
  have hmem := mem_collectNode tree hwf hcollect
  -- the root itself is not a file
  have hroot : ∀ {relative content modified},
      tree.get? relative = some (.file content modified) → relative ≠ [] := by
    rintro relative content modified hfile rfl
    rw [Node.get?_nil] at hfile
    cases hfile
    cases hdir
  have hisDir : tree.isDir = true := Bool.of_not_eq_false (rejectIf_ok.mp hdir)
  refine ⟨dist, root, tree, hdist, htree, hisDir, ?_⟩
  have hfiles : ∀ f ∈ sortFiles files, ∃ relative content modified, f = root ++ relative ∧
      relative ≠ [] ∧ tree.get? relative = some (.file content modified) := by
    intro f hf
    obtain ⟨relative, content, modified, rfl, hfile⟩ := (hmem f).mp (mem_sortFiles.mp hf)
    exact ⟨relative, content, modified, rfl, hroot hfile, hfile⟩
  intro p a
  obtain ⟨hin, hout⟩ := loadFiles_ok hwf hfiles hload p
  constructor
  · intro ha
    by_cases hkey : ∃ relative, root ++ relative ∈ sortFiles files ∧
        p ∈ keysOf config.index relative
    · obtain ⟨relative, hrel, hp⟩ := hkey
      obtain ⟨relative', content, modified, heq, -, hfile⟩ := hfiles _ hrel
      obtain rfl := append_cancel_left heq
      have hasset := hin relative content modified hrel hfile hp
      rw [ha] at hasset
      exact ⟨relative, content, modified, hfile, hp, Option.some.inj hasset⟩
    · rw [hout fun r hr hp => hkey ⟨r, hr, hp⟩, AList.lookup_empty] at ha
      cases ha
  · rintro ⟨relative, content, modified, hfile, hp, rfl⟩
    exact hin relative content modified
      (mem_sortFiles.mpr ((hmem _).mpr ⟨relative, content, modified, rfl, hfile⟩)) hfile hp

end Load

/-! ## Requests -/

/-- There is a regular file at a path of the tree. -/
def Node.IsFile (tree : Node) (relative : PathBuf) : Prop :=
  ∃ content modified, tree.get? relative = some (.file content modified)

theorem Node.IsFile.ne_nil {tree : Node} {relative : PathBuf} (hdir : tree.isDir = true)
    (h : tree.IsFile relative) : relative ≠ [] := by
  rintro rfl
  obtain ⟨content, modified, hfile⟩ := h
  rw [Node.get?_nil] at hfile
  cases hfile
  cases hdir

theorem StaticSite.resolve_get (site : StaticSite) (p : Bytes) :
    (site.assets.lookup p = none ∧ (site.resolve .get p).status = 404) ∨
      ∃ a, site.assets.lookup p = some a ∧ (site.resolve .get p).status = 200 ∧
        (site.resolve .get p).body = a.body := by
  unfold StaticSite.resolve
  rw [if_neg (by simp)]
  rcases site.assets.lookup p with _ | a
  · exact .inl ⟨rfl, rfl⟩
  · exact .inr ⟨a, rfl, rfl, rfl⟩

theorem getLast?_urlKey_snoc_nil (dir : PathBuf) :
    (urlKey (dir ++ [[]])).getLast? = some slash := by
  have hkey : urlKey (dir ++ [[]]) = urlKey dir ++ [slash] := by
    simp [urlKey, Percent.joinPath, percentEncode, Percent.encode]
  rw [hkey, getLast?_concat]

/-! ## A site with an exclamation mark in a name -/

def sampleFormat : AssetFormat := ⟨fun _ => zeros 32, fun _ => []⟩

/-- The files `index.html` and `a!b`. -/
def sampleTree : Node :=
  .dir (.cons (ascii "a!b") (.file [1] none) (.cons (ascii "index.html") (.file [2] none) .nil))

theorem sampleTree_wellFormed : sampleTree.WellFormed := by
  refine ⟨?_, by decide, trivial, ?_, by decide, trivial, trivial⟩
  all_goals exact ⟨by decide, by decide, by decide, by decide⟩

def sampleDisk : Disk where
  canonicalize path := if path = [ascii "dist"] then some ([ascii "dist"], sampleTree) else none
  fails _ _ := false
  wellFormed := by
    intro path root node h
    obtain ⟨-, ⟨⟩⟩ := Option.ite_none_right_eq_some.mp h
    exact sampleTree_wellFormed

def sampleConfig : DirectoryConfig where
  dist := some [ascii "dist"]
  index := ascii "index.html"
  notFound := none
  maxFileBytes := 10
  maxTotalBytes := 20

theorem sampleSite : ∃ site, fromDirectory sampleFormat sampleDisk sampleConfig = .ok site ∧
    (site.resolve .get (ascii "/a%21b")).status = 200 ∧
    (site.resolve .get (ascii "/a!b")).status = 404 := by
  have hanswer : (fromDirectory sampleFormat sampleDisk sampleConfig).toOption.map (fun site =>
      ((site.resolve .get (ascii "/a%21b")).status, (site.resolve .get (ascii "/a!b")).status)) =
      some (200, 404) := by
    decide +kernel
  rcases hsite : fromDirectory sampleFormat sampleDisk sampleConfig with e | site
  · rw [hsite] at hanswer
    cases hanswer
  · rw [hsite] at hanswer
    obtain ⟨hfound, hmissing⟩ := Prod.mk.inj (Option.some.inj hanswer)
    exact ⟨site, rfl, hfound, hmissing⟩

/-! ## Results -/

/-- **A site never serves the wrong file.** A path that is answered with 200 decodes to a regular
file, whose content the body is, or it ends in a slash and decodes to a directory, and the body is
its index file. No two files, nor a file and a directory, nor two directories, have one key. -/
theorem site_serves_right_file (F : AssetFormat) (disk : Disk) (config : DirectoryConfig)
    (site : StaticSite) (h : fromDirectory F disk config = .ok site) :
    ∃ dist root tree, config.dist = some dist ∧ disk.canonicalize dist = some (root, tree) ∧
      (∀ p, (site.resolve .get p).status = 200 →
        (∃ relative content modified, tree.get? relative = some (.file content modified) ∧
          Spells p relative ∧ (∀ other, Spells p other → other = relative) ∧
          (site.resolve .get p).body = content) ∨
        ∃ dir content modified,
          tree.get? (dir ++ [config.index]) = some (.file content modified) ∧
          p.getLast? = some slash ∧ Spells p (dir ++ [[]]) ∧
          (site.resolve .get p).body = content) ∧
      (∀ f f', tree.IsFile f → tree.IsFile f' → urlPath f = urlPath f' → f = f') ∧
      (∀ f dir, tree.IsFile f → tree.IsFile (dir ++ [config.index]) →
        urlPath f ≠ indexAlias dir) ∧
      ∀ dir dir', tree.IsFile (dir ++ [config.index]) → tree.IsFile (dir' ++ [config.index]) →
        indexAlias dir = indexAlias dir' → dir = dir' := by
  obtain ⟨dist, root, tree, hdist, htree, hdir, hlookup⟩ := fromDirectory_lookup h
  have hwf := disk.wellFormed htree
  have hurl : ∀ {f}, tree.IsFile f → urlPath f = .ok (urlKey f) ∧ ∀ c ∈ f, IsName c := by
    intro f hf
    have hne := hf.ne_nil hdir
    obtain ⟨content, modified, hfile⟩ := hf
    have hnames := Node.isName_of_get? hwf hfile
    exact ⟨urlPath_ok hne hnames, hnames⟩
  have halias : ∀ {dir}, tree.IsFile (dir ++ [config.index]) →
      indexAlias dir = .ok (urlKey (dir ++ [[]])) := by
    intro dir hf
    exact indexAlias_ok fun c hc => (hurl hf).2 c (by simp [hc])
  refine ⟨dist, root, tree, hdist, htree, ?_, ?_, ?_, ?_⟩
  · intro p hp
    obtain ⟨-, hstatus⟩ | ⟨a, ha, -, hbody⟩ := site.resolve_get p
    · rw [hstatus] at hp
      cases hp
    obtain ⟨relative, content, modified, hfile, hkey, rfl⟩ := (hlookup p a).mp ha
    obtain rfl | ⟨hlast, rfl⟩ := mem_keysOf.mp hkey
    · have hspells := spells_urlKey relative
      exact .inl ⟨relative, content, modified, hfile, hspells, fun other ho => ho.eq hspells, hbody⟩
    · have hrelative := dropLast_append_getLast? config.index hlast
      refine .inr ⟨relative.dropLast, content, modified, ?_, getLast?_urlKey_snoc_nil _,
        spells_urlKey _, hbody⟩
      rw [hrelative]
      exact hfile
  · intro f f' hf hf' heq
    rw [(hurl hf).1, (hurl hf').1] at heq
    exact urlKey_inj (Except.ok.inj heq)
  · intro f dir hf hindex heq
    rw [(hurl hf).1, halias hindex] at heq
    exact ne_snoc_nil (hurl hf).2 dir (urlKey_inj (Except.ok.inj heq))
  · intro dir dir' hindex hindex' heq
    rw [halias hindex, halias hindex'] at heq
    exact append_cancel_right (urlKey_inj (Except.ok.inj heq))

theorem site_serves_right_file_sample : ∃ site relative content modified,
    fromDirectory sampleFormat sampleDisk sampleConfig = .ok site ∧
    (site.resolve .get (ascii "/a%21b")).status = 200 ∧
    sampleTree.get? relative = some (.file content modified) ∧
    Spells (ascii "/a%21b") relative ∧
    (site.resolve .get (ascii "/a%21b")).body = content := by
  obtain ⟨site, hsite, hstatus, -⟩ := sampleSite
  obtain ⟨dist, root, tree, ⟨⟩, ⟨⟩, hserved, -⟩ := site_serves_right_file _ _ _ site hsite
  obtain ⟨relative, content, modified, hfile, hspells, -, hbody⟩ | ⟨_, _, _, -, hlast, -⟩ :=
    hserved _ hstatus
  · exact ⟨site, relative, content, modified, hsite, hstatus, hfile, hspells, hbody⟩
  · exact absurd hlast (by decide)

/-- **One spelling of each file is served.** A request for a file, however its path is spelled, is
answered with the file exactly when it is spelled as the server spells it: every unreserved
character as itself and every other byte as an escape with capital letters. -/
theorem file_served_iff (F : AssetFormat) (disk : Disk) (config : DirectoryConfig)
    (site : StaticSite) (h : fromDirectory F disk config = .ok site) :
    ∃ dist root tree, config.dist = some dist ∧ disk.canonicalize dist = some (root, tree) ∧
      ∀ relative content modified p, tree.get? relative = some (.file content modified) →
        Spells p relative →
          ((site.resolve .get p).status = 200 ∧ (site.resolve .get p).body = content ↔
            p = urlKey relative) := by
  obtain ⟨dist, root, tree, hdist, htree, hdir, hlookup⟩ := fromDirectory_lookup h
  have hwf := disk.wellFormed htree
  refine ⟨dist, root, tree, hdist, htree, ?_⟩
  intro relative content modified p hfile hspells
  constructor
  · rintro ⟨hstatus, -⟩
    obtain ⟨-, hnone⟩ | ⟨a, ha, -, -⟩ := site.resolve_get p
    · rw [hnone] at hstatus
      cases hstatus
    obtain ⟨relative', content', modified', hfile', hkey, -⟩ := (hlookup p a).mp ha
    obtain rfl | ⟨-, rfl⟩ := mem_keysOf.mp hkey
    · rw [hspells.eq (spells_urlKey relative')]
    · exact absurd (hspells.eq (spells_urlKey _))
        (ne_snoc_nil (Node.isName_of_get? hwf hfile) _)
  · rintro rfl
    have hasset := (hlookup (urlKey relative) (assetOf F relative content modified)).mpr
      ⟨relative, content, modified, hfile, mem_keysOf.mpr (.inl rfl), rfl⟩
    obtain ⟨hnone, -⟩ | ⟨a, ha, hstatus, hbody⟩ := site.resolve_get (urlKey relative)
    · rw [hnone] at hasset
      cases hasset
    · rw [ha] at hasset
      cases hasset
      exact ⟨hstatus, hbody⟩

theorem file_served_iff_sample : ∃ site,
    fromDirectory sampleFormat sampleDisk sampleConfig = .ok site ∧
    urlKey [ascii "a!b"] = ascii "/a%21b" ∧
    (site.resolve .get (ascii "/a%21b")).body = [1] := by
  obtain ⟨site, hsite, -⟩ := sampleSite
  obtain ⟨dist, root, tree, ⟨⟩, ⟨⟩, hserved⟩ := file_served_iff _ _ _ site hsite
  have hkey : urlKey [ascii "a!b"] = ascii "/a%21b" := by decide
  have hfile : sampleTree.get? [ascii "a!b"] = some (.file [1] none) := by rfl
  have hreply := (hserved _ _ _ _ hfile (spells_urlKey _)).mpr rfl
  rw [hkey] at hreply
  exact ⟨site, hsite, hkey, hreply.2⟩

/-- The file `a!b`, asked for under its name: RFC 3986 allows the exclamation mark in a segment,
the table of the site has it as `%21` only. -/
theorem spelled_file_not_found : ∃ site,
    fromDirectory sampleFormat sampleDisk sampleConfig = .ok site ∧
    sampleTree.get? [ascii "a!b"] = some (.file [1] none) ∧
    Spells (ascii "/a!b") [ascii "a!b"] ∧
    (site.resolve .get (ascii "/a!b")).status = 404 := by
  obtain ⟨site, hsite, -, hstatus⟩ := sampleSite
  refine ⟨site, hsite, rfl, ?_, hstatus⟩
  exact ⟨[ascii "a!b"], by decide, .cons (by decide) .nil⟩

end Xhttp.Http
