/-!
# BLAKE3

The plain hash of a byte string.  The bytes are cut into chunks of 1024 bytes,
the chunks are the leaves of a binary tree whose left subtrees are full, and
every leaf and parent is compressed to eight words.  The root is compressed once
more with a flag of its own, and its first eight words are the hash.
-/

namespace Stencil.Blake3

abbrev ChainingValue := Vector UInt32 8

abbrev Block := Vector UInt32 16

/-! ## Constants -/

def iv : ChainingValue :=
  #v[0x6A09E667, 0xBB67AE85, 0x3C6EF372, 0xA54FF53A,
    0x510E527F, 0x9B05688C, 0x1F83D9AB, 0x5BE0CD19]

/-- The words of a block in the order in which the next round reads them. -/
def permutation : Vector (Fin 16) 16 := #v[2, 6, 3, 10, 7, 0, 4, 13, 1, 11, 12, 5, 9, 14, 15, 8]

def chunkLength : Nat := 1024

def blockLength : Nat := 64

def chunkStart : UInt32 := 1

def chunkEnd : UInt32 := 2

def parent : UInt32 := 4

def root : UInt32 := 8

/-! ## Compression -/

def rotateRight (word amount : UInt32) : UInt32 :=
  (word >>> amount) ||| (word <<< (32 - amount))

def mix (s : Block) (a b c d : Fin 16) (x y : UInt32) : Block :=
  let wa := s[a] + s[b] + x
  let wd := rotateRight (s[d] ^^^ wa) 16
  let wc := s[c] + wd
  let wb := rotateRight (s[b] ^^^ wc) 12
  let wa := wa + wb + y
  let wd := rotateRight (wd ^^^ wa) 8
  let wc := wc + wd
  let wb := rotateRight (wb ^^^ wc) 7
  (((s.set a wa).set b wb).set c wc).set d wd

def mixAll (s m : Block) : Block :=
  let s := mix s 0 4 8 12 m[0] m[1]
  let s := mix s 1 5 9 13 m[2] m[3]
  let s := mix s 2 6 10 14 m[4] m[5]
  let s := mix s 3 7 11 15 m[6] m[7]
  let s := mix s 0 5 10 15 m[8] m[9]
  let s := mix s 1 6 11 12 m[10] m[11]
  let s := mix s 2 7 8 13 m[12] m[13]
  mix s 3 4 9 14 m[14] m[15]

def permute (m : Block) : Block := permutation.map fun i => m[i]

def mixRounds : (rounds : Nat) → (s m : Block) → Block
  | 0, s, _ => s
  | rounds + 1, s, m => mixRounds rounds (mixAll s m) (permute m)

structure Output where
  chaining : ChainingValue
  block : Block
  counter : UInt64
  length : UInt32
  flags : UInt32

namespace Output

def state (o : Output) : Block :=
  (o.chaining ++ #v[iv[0], iv[1], iv[2], iv[3],
    o.counter.toUInt32, (o.counter >>> 32).toUInt32, o.length, o.flags]).cast (by decide)

def compress (o : Output) : ChainingValue :=
  let s := mixRounds 7 o.state o.block
  Vector.ofFn fun i : Fin 8 => s[i.val] ^^^ s[i.val + 8]

end Output

/-! ## Words and bytes -/

def word (bytes : List UInt8) (i : Nat) : UInt32 :=
  let byte (k : Nat) : UInt32 := (bytes[4 * i + k]?.getD 0).toUInt32
  byte 0 ||| byte 1 <<< 8 ||| byte 2 <<< 16 ||| byte 3 <<< 24

def blockOf (bytes : List UInt8) : Block := Vector.ofFn fun i : Fin 16 => word bytes i.val

def bytesOf (w : UInt32) : List UInt8 :=
  [w.toUInt8, (w >>> 8).toUInt8, (w >>> 16).toUInt8, (w >>> 24).toUInt8]

/-! ## The tree -/

/-- The blocks of a chunk are chained; the last one is left to compress. -/
def chunkBlocks (counter : UInt64) (start : UInt32) (chaining : ChainingValue)
    (bytes : List UInt8) : Output :=
  if bytes.length ≤ blockLength then
    ⟨chaining, blockOf bytes, counter, bytes.length.toUInt32, start ||| chunkEnd⟩
  else
    let first : Output := ⟨chaining, blockOf bytes, counter, blockLength.toUInt32, start⟩
    chunkBlocks counter 0 first.compress (bytes.drop blockLength)
termination_by bytes.length
decreasing_by
  simp only [List.length_drop, blockLength] at *
  omega

def chunk (counter : Nat) (bytes : List UInt8) : Output :=
  chunkBlocks counter.toUInt64 chunkStart iv bytes

/-- The length of a left subtree: the most chunks that are a power of two and not all. -/
def leftLength (length : Nat) : Nat :=
  chunkLength * Nat.pow 2 ((length - 1) / chunkLength).log2

theorem leftLength_pos (length : Nat) : 0 < leftLength length :=
  Nat.mul_pos (by decide) (Nat.two_pow_pos _)

theorem leftLength_lt {length : Nat} (h : chunkLength < length) : leftLength length < length := by
  have hpos : (length - 1) / chunkLength ≠ 0 := by
    have : chunkLength ≤ length - 1 := by omega
    exact Nat.ne_of_gt (Nat.div_pos this (by decide))
  have hlog := Nat.log2_self_le hpos
  have := Nat.mul_le_mul_left chunkLength hlog
  have := Nat.mul_div_le (length - 1) chunkLength
  rw [leftLength, Nat.pow_eq]
  omega

/-- The compression that bytes come to; `counter` is the number of the first chunk. -/
def tree (counter : Nat) (bytes : List UInt8) : Output :=
  if h : bytes.length ≤ chunkLength then chunk counter bytes
  else
    let left := leftLength bytes.length
    have : left < bytes.length := leftLength_lt (by omega)
    have : 0 < left := leftLength_pos bytes.length
    let children := (tree counter (bytes.take left)).compress ++
      (tree (counter + left / chunkLength) (bytes.drop left)).compress
    ⟨iv, children, 0, blockLength.toUInt32, parent⟩
termination_by bytes.length
decreasing_by
  · simp only [List.length_take]
    omega
  · simp only [List.length_drop]
    omega

def hash (bytes : List UInt8) : List UInt8 :=
  let top := tree 0 bytes
  let final : Output := { top with counter := 0, flags := top.flags ||| root }
  final.compress.toList.flatMap bytesOf

theorem length_hash (bytes : List UInt8) : (hash bytes).length = 32 := by
  simp only [hash]
  generalize Output.compress _ = cv
  have : ∀ words : List UInt32, (words.flatMap bytesOf).length = 4 * words.length := by
    intro words
    induction words with
    | nil => rfl
    | cons w words ih =>
      simp only [List.flatMap_cons, List.length_append, ih, List.length_cons, bytesOf,
        List.length_nil]
      omega
  simp [this]

end Stencil.Blake3
