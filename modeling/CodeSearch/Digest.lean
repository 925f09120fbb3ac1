/-!
# BLAKE3 digests

The digest of a byte string is read off a binary tree. The leaves are stretches of 1024 bytes, each a
chain of 64-byte blocks; an inner node compresses the values of its two subtrees; the left subtree of
`n` leaves holds the greatest power of two of them that is less than `n`. The root is compressed once
more under a flag of its own, and its first eight words are the digest.

A node is kept as the *inputs* of its last compression (`Node`), since only its parent, or the lack of
one, decides the flags under which that compression runs.
-/

namespace CodeSearch.Digest

/-- Eight words: what one node hands to the next. -/
abbrev Chain := Vector UInt32 8

/-- Sixteen words: a block of a message, or the state of a compression. -/
abbrev Block := Vector UInt32 16

/-- The words that every chain starts from. -/
def initial : Chain :=
  #v[0x6A09E667, 0xBB67AE85, 0x3C6EF372, 0xA54FF53A, 0x510E527F, 0x9B05688C, 0x1F83D9AB, 0x5BE0CD19]

/-- The flag of the first block of a leaf. -/
def leafStart : UInt32 := 1
/-- The flag of the last block of a leaf. -/
def leafEnd : UInt32 := 2
/-- The flag of an inner node. -/
def inner : UInt32 := 4
/-- The flag of the root. -/
def root : UInt32 := 8

/-- The word turned right by `n` bits, `0 < n < 32`. -/
def rotateRight (w n : UInt32) : UInt32 := (w >>> n) ||| (w <<< (32 - n))

/-- Mixes two words of the message into four words of the state. -/
def mix (s : Block) (a b c d : Fin 16) (x y : UInt32) : Block :=
  let s := s.set a (s[a] + s[b] + x)
  let s := s.set d (rotateRight (s[d] ^^^ s[a]) 16)
  let s := s.set c (s[c] + s[d])
  let s := s.set b (rotateRight (s[b] ^^^ s[c]) 12)
  let s := s.set a (s[a] + s[b] + y)
  let s := s.set d (rotateRight (s[d] ^^^ s[a]) 8)
  let s := s.set c (s[c] + s[d])
  s.set b (rotateRight (s[b] ^^^ s[c]) 7)

/-- One round: the columns of the state, then its diagonals. -/
def round (s m : Block) : Block :=
  let s := mix s 0 4 8 12 m[0] m[1]
  let s := mix s 1 5 9 13 m[2] m[3]
  let s := mix s 2 6 10 14 m[4] m[5]
  let s := mix s 3 7 11 15 m[6] m[7]
  let s := mix s 0 5 10 15 m[8] m[9]
  let s := mix s 1 6 11 12 m[10] m[11]
  let s := mix s 2 7 8 13 m[12] m[13]
  mix s 3 4 9 14 m[14] m[15]

/-- The order in which the next round takes the words of the message. -/
def permute (m : Block) : Block :=
  #v[m[2], m[6], m[3], m[10], m[7], m[0], m[4], m[13], m[1], m[11], m[12], m[5], m[9], m[14], m[15],
    m[8]]

/-- `n` rounds, the message permuted between two of them. -/
def rounds : Nat → Block → Block → Block
  | 0, s, _ => s
  | n + 1, s, m => rounds n (round s m) (permute m)

/-- The inputs of a compression. -/
structure Node where
  /-- What came before. -/
  chain : Chain
  /-- The words of the block. -/
  block : Block
  /-- The number of the leaf, 0 for an inner node. -/
  counter : UInt64
  /-- How many bytes of the block are part of the message. -/
  length : UInt32
  /-- Where the block stands in the tree. -/
  flags : UInt32

/-- The first eight words of a compression. -/
def Node.compress (n : Node) : Chain :=
  let before := n.chain
  let s : Block :=
    #v[before[0], before[1], before[2], before[3], before[4], before[5], before[6], before[7],
      initial[0], initial[1], initial[2], initial[3], n.counter.toUInt32,
      (n.counter >>> 32).toUInt32, n.length, n.flags]
  let s := rounds 7 s n.block
  Vector.ofFn fun i : Fin 8 => s.get ⟨i.val, by omega⟩ ^^^ s.get ⟨i.val + 8, by omega⟩

/-- Four bytes as a word, the least significant first; missing bytes are 0. -/
def wordAt (bytes : ByteArray) (i : Nat) : UInt32 :=
  let byte (j : Nat) : UInt32 := if h : j < bytes.size then bytes[j].toUInt32 else 0
  byte i ||| (byte (i + 1) <<< 8) ||| (byte (i + 2) <<< 16) ||| (byte (i + 3) <<< 24)

/-- The block of up to 64 bytes from an offset on. -/
def blockAt (bytes : ByteArray) (offset : Nat) : Block :=
  Vector.ofFn fun i : Fin 16 => wordAt bytes (offset + 4 * i.val)

/-- The node of a leaf, from the block at an offset on; `blocks` counts the blocks after it. -/
def leafFrom (bytes : ByteArray) (counter : UInt64) (stop : Nat) :
    (blocks : Nat) → (offset : Nat) → (chain : Chain) → (flags : UInt32) → Node
  | 0, offset, chain, flags =>
    { chain, block := blockAt bytes offset, counter, length := (stop - offset).toUInt32,
      flags := flags ||| leafEnd }
  | n + 1, offset, chain, flags =>
    let node : Node := { chain, block := blockAt bytes offset, counter, length := 64, flags }
    leafFrom bytes counter stop n (offset + 64) node.compress 0

/-- The node of the leaf with a given number. -/
def leaf (bytes : ByteArray) (number : Nat) : Node :=
  let start := number * 1024
  let part := bytes.extract start (start + 1024)
  leafFrom part number.toUInt64 part.size ((part.size - 1) / 64) 0 initial leafStart

/-- The node above two subtrees. -/
def parent (left right : Node) : Node :=
  { chain := initial, block := (left.compress ++ right.compress : Vector UInt32 (8 + 8)), counter := 0,
    length := 64, flags := inner }

/-- The root of the tree over a leaf and those after it. -/
def tree (first : Node) (rest : List Node) : Node :=
  if h : rest = [] then first
  else
    -- the left subtree takes the greatest power of two that leaves a leaf for the right one
    let k := Nat.pow 2 (Nat.log2 rest.length)
    have hlen : rest.length ≠ 0 := by simpa using h
    have hk : k ≤ rest.length := Nat.log2_self_le hlen
    have hpos : 0 < k := Nat.two_pow_pos _
    match hr : rest.drop (k - 1) with
    | [] => first
    | middle :: after =>
      have : (rest.drop (k - 1)).length = after.length + 1 := by rw [hr]; rfl
      have : rest.length - (k - 1) = after.length + 1 := by rwa [List.length_drop] at this
      parent (tree first (rest.take (k - 1))) (tree middle after)
termination_by rest.length
decreasing_by
  · simp only [List.length_take]; omega
  · omega

/-- The digest of a byte string: eight words. -/
def ofBytes (bytes : ByteArray) : Chain :=
  let leaves := (bytes.size - 1) / 1024
  let node := tree (leaf bytes 0) ((List.range leaves).map fun i => leaf bytes (i + 1))
  { node with flags := node.flags ||| root }.compress

/-- The bytes of a digest, those of a word from the least significant on. -/
def bytes (d : Chain) : List UInt8 :=
  d.toList.flatMap fun (w : UInt32) => [w.toUInt8, (w >>> 8).toUInt8, (w >>> 16).toUInt8, (w >>> 24).toUInt8]

/-- The first two words of a digest as one number, the first one counting less. -/
def leadingNumber (d : Chain) : Nat := d[0].toNat + 0x100000000 * d[1].toNat

/-- Whether the word after them is even. -/
def thirdIsEven (d : Chain) : Bool := d[2].toNat % 2 == 0

/-- A byte as two digits of base 16. -/
def hexByte (b : UInt8) : List Char :=
  [Nat.digitChar (b.toNat / 16), Nat.digitChar (b.toNat % 16)]

/-- The digest of a text, written in base 16. -/
def ofText (s : String) : String :=
  String.ofList ((bytes (ofBytes s.toUTF8)).flatMap hexByte)

end CodeSearch.Digest
