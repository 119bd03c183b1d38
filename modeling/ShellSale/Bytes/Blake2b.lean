import ShellSale.Bytes.Hex

/-!
# BLAKE2b

The 64-byte digest of a byte list, without key, salt or personalisation. The input is cut into
blocks of 128 bytes; every block is mixed into a state of eight words by twelve rounds over
sixteen working words.
-/

namespace ShellSale.Bytes.Blake2b

/-- The words that a computation starts from. -/
def iv : Vector UInt64 8 :=
  #v[0x6a09e667f3bcc908, 0xbb67ae8584caa73b, 0x3c6ef372fe94f82b, 0xa54ff53a5f1d36f1,
     0x510e527fade682d1, 0x9b05688c2b3e6c1f, 0x1f83d9abfb41bd6b, 0x5be0cd19137e2179]

/-- The order in which each of the twelve rounds takes the words of a block. -/
def schedule : List (Vector (Fin 16) 16) :=
  let rows : List (Vector (Fin 16) 16) :=
    [#v[0, 1, 2, 3, 4, 5, 6, 7, 8, 9, 10, 11, 12, 13, 14, 15],
     #v[14, 10, 4, 8, 9, 15, 13, 6, 1, 12, 0, 2, 11, 7, 5, 3],
     #v[11, 8, 12, 0, 5, 2, 15, 13, 10, 14, 3, 6, 7, 1, 9, 4],
     #v[7, 9, 3, 1, 13, 12, 11, 14, 2, 6, 5, 10, 4, 0, 15, 8],
     #v[9, 0, 5, 7, 2, 4, 10, 15, 14, 1, 11, 12, 6, 8, 3, 13],
     #v[2, 12, 6, 10, 0, 11, 8, 3, 4, 13, 7, 5, 15, 14, 1, 9],
     #v[12, 5, 1, 15, 14, 13, 4, 10, 0, 7, 6, 3, 9, 2, 8, 11],
     #v[13, 11, 7, 14, 12, 1, 3, 9, 5, 0, 15, 4, 8, 6, 2, 10],
     #v[6, 15, 14, 9, 11, 3, 0, 8, 12, 2, 13, 7, 1, 4, 10, 5],
     #v[10, 2, 8, 4, 7, 6, 1, 5, 15, 11, 9, 14, 3, 12, 13, 0]]
  rows ++ rows.take 2

/-- A word turned right by `n` bits, `0 < n < 64`. -/
def rotateRight (x : UInt64) (n : UInt64) : UInt64 :=
  (x >>> n) ||| (x <<< (64 - n))

/-- Mixes two words of the block into four working words. -/
def mix (v : Vector UInt64 16) (a b c d : Fin 16) (x y : UInt64) : Vector UInt64 16 :=
  let va := v.get a + v.get b + x
  let vd := rotateRight (v.get d ^^^ va) 32
  let vc := v.get c + vd
  let vb := rotateRight (v.get b ^^^ vc) 24
  let va := va + vb + y
  let vd := rotateRight (vd ^^^ va) 16
  let vc := vc + vd
  let vb := rotateRight (vb ^^^ vc) 63
  (((v.set a va).set b vb).set c vc).set d vd

/-- One round: the columns of the working words, then their diagonals. -/
def round (m : Vector UInt64 16) (v : Vector UInt64 16) (s : Vector (Fin 16) 16) :
    Vector UInt64 16 :=
  let w (i : Fin 16) : UInt64 := m.get (s.get i)
  let v := mix v 0 4 8 12 (w 0) (w 1)
  let v := mix v 1 5 9 13 (w 2) (w 3)
  let v := mix v 2 6 10 14 (w 4) (w 5)
  let v := mix v 3 7 11 15 (w 6) (w 7)
  let v := mix v 0 5 10 15 (w 8) (w 9)
  let v := mix v 1 6 11 12 (w 10) (w 11)
  let v := mix v 2 7 8 13 (w 12) (w 13)
  mix v 3 4 9 14 (w 14) (w 15)

/-- The word at position `i` of a block, bytes beyond its end counting as zero. -/
def word (block : List UInt8) (i : Nat) : UInt64 :=
  UInt64.ofNat (ofLittleEndian ((block.drop (8 * i)).take 8))

/-- Mixes one block into the state; `count` bytes have been taken with it. -/
def compress (h : Vector UInt64 8) (block : List UInt8) (count : Nat) (last : Bool) :
    Vector UInt64 8 :=
  let m : Vector UInt64 16 := Vector.ofFn fun i => word block i.val
  let start : Vector UInt64 16 := h ++ iv
  let start := start.set 12 (start.get 12 ^^^ UInt64.ofNat count)
  let start := start.set 13 (start.get 13 ^^^ UInt64.ofNat (count / UInt64.size))
  let start := if last then start.set 14 (start.get 14 ^^^ 0xffffffffffffffff) else start
  let v := schedule.foldl (round m) start
  Vector.ofFn fun i => h.get i ^^^ v.get (i.castLE (by decide)) ^^^ v.get (i.natAdd 8)

/-- Takes all blocks of `bytes`, `count` bytes having been taken before. -/
def absorb (h : Vector UInt64 8) (bytes : List UInt8) (count : Nat) : Vector UInt64 8 :=
  if bytes.length ≤ 128 then compress h bytes (count + bytes.length) true
  else absorb (compress h (bytes.take 128) (count + 128) false) (bytes.drop 128) (count + 128)
termination_by bytes.length
decreasing_by simp only [List.length_drop]; omega

/-- The 64-byte digest. -/
def digest (bytes : List UInt8) : List UInt8 :=
  let start := iv.set 0 (iv.get 0 ^^^ 0x01010040)
  (absorb start bytes 0).toList.flatMap fun w => littleEndian 8 w.toNat

end ShellSale.Bytes.Blake2b
