/-!
# BLAKE3

The BLAKE3 hash with its default output of 256 bits. The input is cut into chunks of 1024 bytes, and a
chunk into blocks of 64 bytes. Chunks are the leaves of a binary tree that is built level by level: two
neighbours have one parent, and an odd last node moves up as it is. Only the root is compressed with the
root flag, so a node is kept as the compression that is still to be done.
-/

namespace BicepMigration.Blake3

/-- Sixteen words: a message block, or the state of a compression. -/
abbrev Block := Vector UInt32 16

/-- Eight words that stand for all input below a node. -/
abbrev Chain := Vector UInt32 8

/-- The initial chaining value. -/
def initial : Chain := #v[0x6A09E667, 0xBB67AE85, 0x3C6EF372, 0xA54FF53A, 0x510E527F, 0x9B05688C, 0x1F83D9AB, 0x5BE0CD19]

/-- Marks the first block of a chunk. -/
def chunkStart : UInt32 := 1

/-- Marks the last block of a chunk. -/
def chunkEnd : UInt32 := 2

/-- Marks an inner node of the tree. -/
def parent : UInt32 := 4

/-- Marks the root of the tree. -/
def root : UInt32 := 8

/-- Rotation to the right. -/
def rotateRight (x : UInt32) (n : UInt32) : UInt32 := (x >>> n) ||| (x <<< (32 - n))

/-- Mixes two message words into four words of the state. -/
def mix (s : Block) (a b c d : Fin 16) (x y : UInt32) : Block :=
  let s := s.set a (s[a] + s[b] + x)
  let s := s.set d (rotateRight (s[d] ^^^ s[a]) 16)
  let s := s.set c (s[c] + s[d])
  let s := s.set b (rotateRight (s[b] ^^^ s[c]) 12)
  let s := s.set a (s[a] + s[b] + y)
  let s := s.set d (rotateRight (s[d] ^^^ s[a]) 8)
  let s := s.set c (s[c] + s[d])
  s.set b (rotateRight (s[b] ^^^ s[c]) 7)

/-- One round: the columns of the state, then its diagonals. -/
def round (s : Block) (m : Block) : Block :=
  let s := mix s 0 4 8 12 m[0] m[1]
  let s := mix s 1 5 9 13 m[2] m[3]
  let s := mix s 2 6 10 14 m[4] m[5]
  let s := mix s 3 7 11 15 m[6] m[7]
  let s := mix s 0 5 10 15 m[8] m[9]
  let s := mix s 1 6 11 12 m[10] m[11]
  let s := mix s 2 7 8 13 m[12] m[13]
  mix s 3 4 9 14 m[14] m[15]

/-- The order of the message words in the next round. -/
def permute (m : Block) : Block :=
  #v[m[2], m[6], m[3], m[10], m[7], m[0], m[4], m[13], m[1], m[11], m[12], m[5], m[9], m[14], m[15], m[8]]

/-- So many rounds, each with the message permuted once more. -/
def rounds : Nat → Block → Block → Block
  | 0, s, _ => s
  | n + 1, s, m => rounds n (round s m) (permute m)

/-- A compression that is still to be done. -/
structure Node where
  /-- The chaining value before the block. -/
  chain : Chain
  /-- The block. -/
  block : Block
  /-- The number of the chunk; zero for an inner node. -/
  counter : UInt64
  /-- Bytes of input in the block. -/
  length : UInt32
  /-- What the block is. -/
  flags : UInt32

/-- The first half of the result of a compression. -/
def Node.compress (node : Node) (flags : UInt32) : Chain :=
  let h := node.chain
  let s : Block := #v[h[0], h[1], h[2], h[3], h[4], h[5], h[6], h[7],
    initial[0], initial[1], initial[2], initial[3],
    node.counter.toUInt32, (node.counter >>> 32).toUInt32, node.length, node.flags ||| flags]
  let s := rounds 7 s node.block
  Vector.ofFn fun (i : Fin 8) => s[i.val] ^^^ s[i.val + 8]

/-- The chaining value of a node that is not the root. -/
def Node.chainingValue (node : Node) : Chain := node.compress 0

/-- A word from bytes, the lowest first. -/
def wordOfBytes (bytes : List UInt8) : UInt32 :=
  bytes.foldr (fun byte word => (word <<< 8) ||| byte.toUInt32) 0

/-- A block from at most 64 bytes, filled up with zeros. -/
def blockOfBytes (bytes : List UInt8) : Block :=
  Vector.ofFn fun (i : Fin 16) => wordOfBytes ((bytes.drop (4 * i.val)).take 4)

/-- Pieces of a length, the last one shorter or of the same length. There is at least one piece. -/
def pieces (size : Nat) (bytes : List UInt8) : List (List UInt8) :=
  if _h : 0 < size ∧ size < bytes.length then bytes.take size :: pieces size (bytes.drop size)
  else [bytes]
termination_by bytes.length
decreasing_by
  simp only [List.length_drop]
  omega

/-- The node of a chunk: all of its blocks but the last are compressed. -/
def chunkNode (counter : UInt64) : Chain → UInt32 → List (List UInt8) → Node
  | chain, flags, [] => ⟨chain, blockOfBytes [], counter, 0, flags ||| chunkEnd⟩
  | chain, flags, [bytes] => ⟨chain, blockOfBytes bytes, counter, bytes.length.toUInt32, flags ||| chunkEnd⟩
  | chain, flags, bytes :: rest =>
    chunkNode counter
      (Node.chainingValue ⟨chain, blockOfBytes bytes, counter, bytes.length.toUInt32, flags⟩) 0 rest

/-- The parent of two nodes. -/
def parentNode (left right : Node) : Node :=
  ⟨initial, (left.chainingValue ++ right.chainingValue).cast rfl, 0, 64, parent⟩

/-- The next level of the tree. -/
def level : List Node → List Node
  | left :: right :: rest => parentNode left right :: level rest
  | nodes => nodes

/-- A level has at most as many nodes as the one below it. -/
theorem length_level_le (nodes : List Node) : (level nodes).length ≤ nodes.length := by
  fun_induction level nodes with
  | case1 left right rest ih =>
    simp only [List.length_cons]
    omega
  | case2 nodes => exact Nat.le_refl _

/-- The root of the tree over a list that starts with a node. -/
def rootNode (first : Node) (others : List Node) : Node :=
  match others with
  | [] => first
  | second :: rest => rootNode (parentNode first second) (level rest)
termination_by others.length
decreasing_by
  have := length_level_le rest
  simp only [List.length_cons]
  omega

/-- The hash of bytes, as eight words. -/
def hashWords (bytes : List UInt8) : Chain :=
  let nodes := (pieces 1024 bytes).zipIdx.map fun (chunk, i) =>
    chunkNode i.toUInt64 initial chunkStart (pieces 64 chunk)
  match nodes with
  | [] => initial
  | first :: others => (rootNode first others).compress root

/-- A byte as two hexadecimal digits. -/
def hexByte (byte : UInt8) : List Char :=
  [Nat.digitChar (byte.toNat / 16), Nat.digitChar (byte.toNat % 16)]

/-- The bytes of a word, the lowest first. -/
def bytesOfWord (word : UInt32) : List UInt8 :=
  [word.toUInt8, (word >>> 8).toUInt8, (word >>> 16).toUInt8, (word >>> 24).toUInt8]

/-- The hash of bytes in hexadecimal digits. -/
def hashHex (bytes : List UInt8) : String :=
  String.ofList ((hashWords bytes).toList.flatMap fun word => (bytesOfWord word).flatMap hexByte)

end BicepMigration.Blake3
