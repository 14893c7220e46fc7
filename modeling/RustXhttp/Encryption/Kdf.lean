import RustXhttp.Lib.Bytes

/-!
# BLAKE3 `derive_key` (`src/vless/encryption/kdf.rs`)

The KDF of the record layer and of the handshake: BLAKE3 in derive-key mode with an arbitrary byte
string as context. `hashMode` is the incremental tree hash with its stack of subtree chaining
values; an `unwrap` of an empty stack is `none`.
-/

namespace Xhttp.Encryption

namespace Blake3

/-- Eight words: a chaining value or a key. -/
abbrev Words8 := Vector UInt32 8

/-- Sixteen words: a message block or the state of the compression function. -/
abbrev Words16 := Vector UInt32 16

def iv : Words8 := #v[0x6A09E667, 0xBB67AE85, 0x3C6EF372, 0xA54FF53A,
  0x510E527F, 0x9B05688C, 0x1F83D9AB, 0x5BE0CD19]

def chunkStart : UInt32 := 1
def chunkEnd : UInt32 := 2
def parentFlag : UInt32 := 4
def root : UInt32 := 8
def deriveKeyContext : UInt32 := 32
def deriveKeyMaterial : UInt32 := 64

def blockLen : Nat := 64
def chunkLen : Nat := 1024

/-- The message permutation of the seven rounds. -/
def schedule : List (List (Fin 16)) :=
  [[0, 1, 2, 3, 4, 5, 6, 7, 8, 9, 10, 11, 12, 13, 14, 15],
   [2, 6, 3, 10, 7, 0, 4, 13, 1, 11, 12, 5, 9, 14, 15, 8],
   [3, 4, 10, 12, 13, 2, 7, 14, 6, 5, 9, 0, 11, 15, 8, 1],
   [10, 7, 12, 9, 14, 3, 13, 15, 4, 0, 11, 2, 5, 8, 1, 6],
   [12, 13, 9, 11, 15, 10, 14, 8, 7, 2, 5, 3, 0, 1, 6, 4],
   [9, 14, 11, 5, 8, 12, 15, 1, 13, 3, 0, 10, 2, 6, 4, 7],
   [11, 15, 5, 0, 1, 9, 8, 6, 14, 10, 2, 12, 3, 4, 7, 13]]

/-- `u32::rotate_right`. -/
def rotateRight (w : UInt32) (n : UInt32) : UInt32 := (w >>> n) ||| (w <<< (32 - n))

/-- The quarter round. -/
def g (s : Words16) (a b c d : Fin 16) (mx my : UInt32) : Words16 :=
  let s := s.set a (s[a] + s[b] + mx)
  let s := s.set d (rotateRight (s[d] ^^^ s[a]) 16)
  let s := s.set c (s[c] + s[d])
  let s := s.set b (rotateRight (s[b] ^^^ s[c]) 12)
  let s := s.set a (s[a] + s[b] + my)
  let s := s.set d (rotateRight (s[d] ^^^ s[a]) 8)
  let s := s.set c (s[c] + s[d])
  s.set b (rotateRight (s[b] ^^^ s[c]) 7)

def round (s : Words16) (msg : Words16) (p : List (Fin 16)) : Words16 :=
  let s := g s 0 4 8 12 msg[p.getD 0 0] msg[p.getD 1 0]
  let s := g s 1 5 9 13 msg[p.getD 2 0] msg[p.getD 3 0]
  let s := g s 2 6 10 14 msg[p.getD 4 0] msg[p.getD 5 0]
  let s := g s 3 7 11 15 msg[p.getD 6 0] msg[p.getD 7 0]
  let s := g s 0 5 10 15 msg[p.getD 8 0] msg[p.getD 9 0]
  let s := g s 1 6 11 12 msg[p.getD 10 0] msg[p.getD 11 0]
  let s := g s 2 7 8 13 msg[p.getD 12 0] msg[p.getD 13 0]
  g s 3 4 9 14 msg[p.getD 14 0] msg[p.getD 15 0]

def compress (cv : Words8) (block : Words16) (counter : UInt64) (len flags : UInt32) : Words16 :=
  let s : Words16 := cv ++ #v[iv[0], iv[1], iv[2], iv[3],
    counter.toUInt32, (counter >>> 32).toUInt32, len, flags]
  let s := schedule.foldl (fun s p => round s block p) s
  Vector.ofFn fun i : Fin 16 =>
    if h : i.val < 8 then s[i.val] ^^^ s[i.val + 8] else s[i.val] ^^^ cv[i.val - 8]

/-- `Output`: the last compression of a chunk or of a parent node, not yet carried out. -/
structure Output where
  cv : Words8
  block : Words16
  counter : UInt64
  len : UInt32
  flags : UInt32

def Output.chainingValue (o : Output) : Words8 :=
  (compress o.cv o.block o.counter o.len o.flags).take 8

/-- `u32::to_le_bytes`. -/
def le32 (w : UInt32) : Bytes :=
  [w.toUInt8, (w >>> 8).toUInt8, (w >>> 16).toUInt8, (w >>> 24).toUInt8]

/-- `u32::from_le_bytes` of the four bytes at `i`; a byte beyond the end is `0`. -/
def wordAt (bs : Bytes) (i : Nat) : UInt32 :=
  (bs.getD i 0).toUInt32 ||| (bs.getD (i + 1) 0).toUInt32 <<< 8 |||
    (bs.getD (i + 2) 0).toUInt32 <<< 16 ||| (bs.getD (i + 3) 0).toUInt32 <<< 24

/-- The words of a block, filled up with zeros. -/
def bytesToWords (n : Nat) (bs : Bytes) : Vector UInt32 n := Vector.ofFn fun i => wordAt bs (4 * i)

/-- `words_to_bytes` of eight words. -/
def wordsToBytes (ws : Words8) : ByteArr 32 :=
  ⟨ws.toList.flatMap le32, by simp [List.length_flatMap, le32, List.map_const']⟩

def Output.rootHash (o : Output) : ByteArr 32 :=
  wordsToBytes ((compress o.cv o.block 0 o.len (o.flags ||| root)).take 8)

/-- The blocks of a chunk from block `index` on; `blocks` is what is left of the chunk. -/
def chunkLoop (counter : UInt64) (flags : UInt32) : Nat → Words8 → List Bytes → Option Output
  -- a chunk has at least one block: `unreachable!()`
  | _, _, [] => none
  | index, cv, [block] =>
    let flags := if index = 0 then flags ||| chunkStart else flags
    some ⟨cv, bytesToWords 16 block, counter, UInt32.ofNat block.length, flags ||| chunkEnd⟩
  | index, cv, block :: blocks =>
    let flags' := if index = 0 then flags ||| chunkStart else flags
    let cv := (compress cv (bytesToWords 16 block) counter (UInt32.ofNat blockLen) flags').take 8
    chunkLoop counter flags (index + 1) cv blocks

/-- `chunks(n)` of the input, and one empty piece for an empty input. -/
def pieces (n : Nat) (input : Bytes) : List Bytes := if input = [] then [[]] else chunks n input

def chunkOutput (chunk : Bytes) (counter : UInt64) (key : Words8) (flags : UInt32) :
    Option Output :=
  chunkLoop counter flags 0 key (pieces blockLen chunk)

def parentOutput (left right : Words8) (key : Words8) (flags : UInt32) : Output :=
  ⟨key, left ++ right, 0, UInt32.ofNat blockLen, flags ||| parentFlag⟩

/-- Completed subtrees are merged while the number of chunks is even, then the chaining value is
pushed. The head of the list is the top of the stack. -/
def pushCv (key : Words8) (flags : UInt32) : List Words8 → Words8 → Nat → Option (List Words8)
  | [], cv, total => if total % 2 = 0 then none else some [cv]
  | left :: stack, cv, total =>
    if total % 2 = 0 then
      pushCv key flags stack (parentOutput left cv key flags).chainingValue (total / 2)
    else some (cv :: left :: stack)

/-- The loop over the chunks from chunk `index` on. -/
def chunksLoop (key : Words8) (flags : UInt32) :
    Nat → List Words8 → List Bytes → Option (Output × List Words8)
  | _, _, [] => none
  | index, stack, [chunk] =>
    (chunkOutput chunk (UInt64.ofNat index) key flags).map fun o => (o, stack)
  | index, stack, chunk :: rest => do
    let o ← chunkOutput chunk (UInt64.ofNat index) key flags
    let stack ← pushCv key flags stack o.chainingValue (index + 1)
    chunksLoop key flags (index + 1) stack rest

def hashMode (input : Bytes) (key : Words8) (flags : UInt32) : Option (ByteArr 32) := do
  let (o, stack) ← chunksLoop key flags 0 [] (pieces chunkLen input)
  return (stack.foldl (fun o left => parentOutput left o.chainingValue key flags) o).rootHash

end Blake3

/-- `derive_key`; `none` is a panic. -/
def deriveKey? (context material : Bytes) : Option (ByteArr 32) := do
  let contextKey ← Blake3.hashMode context Blake3.iv Blake3.deriveKeyContext
  Blake3.hashMode material (Blake3.bytesToWords 8 contextKey.val) Blake3.deriveKeyMaterial

/-- `derive_key`. -/
@[irreducible] def deriveKey (context material : Bytes) : ByteArr 32 :=
  (deriveKey? context material).getD (zeros 32)

end Xhttp.Encryption
