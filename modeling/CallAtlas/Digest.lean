/-!
# The BLAKE3 digest

The digest of a byte string, over plain lists. The input is cut into chunks of
1024 bytes and each chunk into blocks of 64; a binary tree of chaining values
joins the chunks, with the left side of every node as large as a power of two
allows. Recursion follows the length of the input.
-/

namespace CallAtlas.Digest

/-- The chaining value handed from block to block. -/
abbrev Chain := Vector UInt32 8

/-- Sixteen words: a message block or a working state. -/
abbrev Block := Vector UInt32 16

def initialChain : Chain :=
  #v[0x6A09E667, 0xBB67AE85, 0x3C6EF372, 0xA54FF53A,
     0x510E527F, 0x9B05688C, 0x1F83D9AB, 0x5BE0CD19]

def permutation : Vector (Fin 16) 16 :=
  #v[2, 6, 3, 10, 7, 0, 4, 13, 1, 11, 12, 5, 9, 14, 15, 8]

def rotateRight (word : UInt32) (count : UInt32) : UInt32 :=
  (word >>> count) ||| (word <<< (32 - count))

/-! ## Compression -/

def quarter (s : Block) (a b c d : Fin 16) (x y : UInt32) : Block :=
  let va := s[a] + s[b] + x
  let vd := rotateRight (s[d] ^^^ va) 16
  let vc := s[c] + vd
  let vb := rotateRight (s[b] ^^^ vc) 12
  let va := va + vb + y
  let vd := rotateRight (vd ^^^ va) 8
  let vc := vc + vd
  let vb := rotateRight (vb ^^^ vc) 7
  (((s.set a va).set b vb).set c vc).set d vd

/-- Columns, then diagonals. -/
def round (s m : Block) : Block :=
  let s := quarter s 0 4 8 12 m[0] m[1]
  let s := quarter s 1 5 9 13 m[2] m[3]
  let s := quarter s 2 6 10 14 m[4] m[5]
  let s := quarter s 3 7 11 15 m[6] m[7]
  let s := quarter s 0 5 10 15 m[8] m[9]
  let s := quarter s 1 6 11 12 m[10] m[11]
  let s := quarter s 2 7 8 13 m[12] m[13]
  quarter s 3 4 9 14 m[14] m[15]

/-- `count` rounds, the message permuted before each but the first. -/
def rounds : Nat → Block → Block → Block
  | 0, s, _ => s
  | count + 1, s, m => rounds count (round s m) (permutation.map fun i => m[i])

structure Setting where
  counter : UInt64
  length : UInt32
  flags : UInt32

def compress (chain : Chain) (m : Block) (setting : Setting) : Chain :=
  let start : Block := chain ++
    #v[0x6A09E667, 0xBB67AE85, 0x3C6EF372, 0xA54FF53A,
       setting.counter.toUInt32, (setting.counter >>> 32).toUInt32,
       setting.length, setting.flags]
  let s := rounds 7 start m
  #v[s[0] ^^^ s[8], s[1] ^^^ s[9], s[2] ^^^ s[10], s[3] ^^^ s[11],
     s[4] ^^^ s[12], s[5] ^^^ s[13], s[6] ^^^ s[14], s[7] ^^^ s[15]]

/-! ## Chunks and their tree -/

def chunkStart : UInt32 := 1

def chunkEnd : UInt32 := 2

def parentFlag : UInt32 := 4

def rootFlag : UInt32 := 8

/-- Four bytes as a word, least significant first; missing bytes are zero. -/
def word (bytes : List UInt8) : UInt32 :=
  (bytes.take 4).foldr (fun byte acc => (acc <<< 8) ||| byte.toUInt32) 0

def blockOf (bytes : List UInt8) : Block :=
  Vector.ofFn fun i => word (bytes.drop (4 * i.val))

/-- The last compression of a chunk or of a parent, held back because it is
done differently at the root. -/
structure Node where
  chain : Chain
  block : Block
  setting : Setting

def Node.chainingValue (n : Node) : Chain :=
  compress n.chain n.block n.setting

def Node.rootBytes (n : Node) : List UInt8 :=
  let out := compress n.chain n.block
    { n.setting with counter := 0, flags := n.setting.flags ||| rootFlag }
  out.toList.flatMap fun (w : UInt32) =>
    [w.toUInt8, (w >>> 8).toUInt8, (w >>> 16).toUInt8, (w >>> 24).toUInt8]

/-- The blocks of one chunk; `first` marks its first block. -/
def chunkFrom (counter : UInt64) (chain : Chain) (first : Bool) (bytes : List UInt8) : Node :=
  let flags := if first then chunkStart else 0
  if bytes.length ≤ 64 then
    ⟨chain, blockOf bytes, counter, bytes.length.toUInt32, flags ||| chunkEnd⟩
  else
    chunkFrom counter (compress chain (blockOf (bytes.take 64)) ⟨counter, 64, flags⟩) false
      (bytes.drop 64)
termination_by bytes.length
decreasing_by simp only [List.length_drop]; omega

/-- How many bytes go to the left of a node over `size` bytes: the largest
1024 · 2ⁿ that leaves at least one byte for the right. -/
def leftSize (size : Nat) : Nat :=
  1024 * Nat.pow 2 ((size - 1) / 1024).log2

theorem leftSize_pos (size : Nat) : 0 < leftSize size :=
  Nat.mul_pos (by decide) (Nat.two_pow_pos _)

theorem leftSize_lt {size : Nat} (h : 1024 < size) : leftSize size < size := by
  have hne : (size - 1) / 1024 ≠ 0 := by omega
  have : Nat.pow 2 ((size - 1) / 1024).log2 ≤ (size - 1) / 1024 := Nat.log2_self_le hne
  have := Nat.div_mul_le_self (size - 1) 1024
  unfold leftSize
  omega

/-- The tree over the chunks from number `chunk` on. -/
def tree (chunk : Nat) (bytes : List UInt8) : Node :=
  if h : bytes.length ≤ 1024 then chunkFrom chunk.toUInt64 initialChain true bytes
  else
    let left := leftSize bytes.length
    have := leftSize_pos bytes.length
    have := leftSize_lt (Nat.lt_of_not_le h)
    let l := (tree chunk (bytes.take left)).chainingValue
    let r := (tree (chunk + left / 1024) (bytes.drop left)).chainingValue
    ⟨initialChain, l ++ r, 0, 64, parentFlag⟩
termination_by bytes.length
decreasing_by
  · simp only [List.length_take]; omega
  · simp only [List.length_drop]; omega

def hash (bytes : List UInt8) : List UInt8 :=
  (tree 0 bytes).rootBytes

end CallAtlas.Digest
