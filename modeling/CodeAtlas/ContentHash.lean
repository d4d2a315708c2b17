/-!
# Content hashes

Units are recognised by the 64-bit hash of their bytes: XXH3 with seed 0 and the standard secret.
The function is defined by cases on the length. Up to sixteen bytes the two ends of the input
overlap and are mixed once; up to 240 bytes sixteen-byte pieces are mixed and added up; anything
longer runs through eight accumulators in stripes of 64 bytes, which are scrambled after every
sixteenth stripe.

All arithmetic is on 64-bit words and wraps. Reading beyond the end gives zero bytes; no case
below reads there.
-/

set_option autoImplicit false

namespace CodeAtlas

/-- The hash of a unit's bytes. -/
structure ContentHash where
  word : UInt64
deriving DecidableEq, Inhabited

namespace ContentHash

/-! ## Words -/

def prime32x1 : UInt64 := 0x9E3779B1
def prime32x2 : UInt64 := 0x85EBCA77
def prime32x3 : UInt64 := 0xC2B2AE3D
def prime64x1 : UInt64 := 0x9E3779B185EBCA87
def prime64x2 : UInt64 := 0xC2B2AE3D27D4EB4F
def prime64x3 : UInt64 := 0x165667B19E3779F9
def prime64x4 : UInt64 := 0x85EBCA77C2B2AE63
def prime64x5 : UInt64 := 0x27D4EB2F165667C5
def mixPrime1 : UInt64 := 0x165667919E3779F9
def mixPrime2 : UInt64 := 0x9FB21C651E98DF25

/-- The standard secret that the input is combined with. -/
def secret : ByteArray := ⟨#[
  0xb8, 0xfe, 0x6c, 0x39, 0x23, 0xa4, 0x4b, 0xbe, 0x7c, 0x01, 0x81, 0x2c, 0xf7, 0x21, 0xad, 0x1c,
  0xde, 0xd4, 0x6d, 0xe9, 0x83, 0x90, 0x97, 0xdb, 0x72, 0x40, 0xa4, 0xa4, 0xb7, 0xb3, 0x67, 0x1f,
  0xcb, 0x79, 0xe6, 0x4e, 0xcc, 0xc0, 0xe5, 0x78, 0x82, 0x5a, 0xd0, 0x7d, 0xcc, 0xff, 0x72, 0x21,
  0xb8, 0x08, 0x46, 0x74, 0xf7, 0x43, 0x24, 0x8e, 0xe0, 0x35, 0x90, 0xe6, 0x81, 0x3a, 0x26, 0x4c,
  0x3c, 0x28, 0x52, 0xbb, 0x91, 0xc3, 0x00, 0xcb, 0x88, 0xd0, 0x65, 0x8b, 0x1b, 0x53, 0x2e, 0xa3,
  0x71, 0x64, 0x48, 0x97, 0xa2, 0x0d, 0xf9, 0x4e, 0x38, 0x19, 0xef, 0x46, 0xa9, 0xde, 0xac, 0xd8,
  0xa8, 0xfa, 0x76, 0x3f, 0xe3, 0x9c, 0x34, 0x3f, 0xf9, 0xdc, 0xbb, 0xc7, 0xc7, 0x0b, 0x4f, 0x1d,
  0x8a, 0x51, 0xe0, 0x4b, 0xcd, 0xb4, 0x59, 0x31, 0xc8, 0x9f, 0x7e, 0xc9, 0xd9, 0x78, 0x73, 0x64,
  0xea, 0xc5, 0xac, 0x83, 0x34, 0xd3, 0xeb, 0xc3, 0xc5, 0x81, 0xa0, 0xff, 0xfa, 0x13, 0x63, 0xeb,
  0x17, 0x0d, 0xdd, 0x51, 0xb7, 0xf0, 0xda, 0x49, 0xd3, 0x16, 0x55, 0x26, 0x29, 0xd4, 0x68, 0x9e,
  0x2b, 0x16, 0xbe, 0x58, 0x7d, 0x47, 0xa1, 0xfc, 0x8f, 0xf8, 0xb8, 0xd1, 0x7a, 0xd0, 0x31, 0xce,
  0x45, 0xcb, 0x3a, 0x8f, 0x95, 0x16, 0x04, 0x28, 0xaf, 0xd7, 0xfb, 0xca, 0xbb, 0x4b, 0x40, 0x7e]⟩

/-- The byte at an offset. -/
def byteAt (bytes : ByteArray) (i : Nat) : UInt64 :=
  if h : i < bytes.size then bytes[i].toUInt64 else 0

/-- The little-endian word of four bytes at an offset. -/
def word32 (bytes : ByteArray) (i : Nat) : UInt64 :=
  byteAt bytes i ||| byteAt bytes (i + 1) <<< 8 ||| byteAt bytes (i + 2) <<< 16
    ||| byteAt bytes (i + 3) <<< 24

/-- The little-endian word of eight bytes at an offset. -/
def word64 (bytes : ByteArray) (i : Nat) : UInt64 :=
  word32 bytes i ||| word32 bytes (i + 4) <<< 32

/-- The two words of the 128-bit product, combined. -/
def foldedProduct (a b : UInt64) : UInt64 :=
  let p := a.toNat * b.toNat
  p.toUInt64 ^^^ (p / UInt64.size).toUInt64

def rotateLeft (x : UInt64) (n : UInt64) : UInt64 := x <<< n ||| x >>> (64 - n)

/-- The word with its bytes in the opposite order. -/
def swapBytes (x : UInt64) : UInt64 :=
  (List.range 8).foldl
    (fun acc i => acc <<< 8 ||| ((x >>> (8 * i).toUInt64) &&& 0xff)) 0

/-- The final mix of the shortest inputs. -/
def avalancheShort (h : UInt64) : UInt64 :=
  let h := (h ^^^ h >>> 33) * prime64x2
  let h := (h ^^^ h >>> 29) * prime64x3
  h ^^^ h >>> 32

/-- The final mix of all other inputs. -/
def avalanche (h : UInt64) : UInt64 :=
  let h := (h ^^^ h >>> 37) * mixPrime1
  h ^^^ h >>> 32

/-! ## Up to sixteen bytes -/

def ofEmpty : UInt64 := avalancheShort (word64 secret 56 ^^^ word64 secret 64)

def ofUpTo3 (bytes : ByteArray) : UInt64 :=
  let n := bytes.size
  let combined := byteAt bytes 0 <<< 16 ||| byteAt bytes (n / 2) <<< 24
    ||| byteAt bytes (n - 1) ||| n.toUInt64 <<< 8
  avalancheShort (combined ^^^ (word32 secret 0 ^^^ word32 secret 4))

def ofUpTo8 (bytes : ByteArray) : UInt64 :=
  let n := bytes.size
  let joined := word32 bytes (n - 4) + word32 bytes 0 <<< 32
  let h := joined ^^^ (word64 secret 8 ^^^ word64 secret 16)
  let h := (h ^^^ rotateLeft h 49 ^^^ rotateLeft h 24) * mixPrime2
  let h := (h ^^^ (h >>> 35 + n.toUInt64)) * mixPrime2
  h ^^^ h >>> 28

def ofUpTo16 (bytes : ByteArray) : UInt64 :=
  let n := bytes.size
  let lo := word64 bytes 0 ^^^ (word64 secret 24 ^^^ word64 secret 32)
  let hi := word64 bytes (n - 8) ^^^ (word64 secret 40 ^^^ word64 secret 48)
  avalanche (n.toUInt64 + swapBytes lo + hi + foldedProduct lo hi)

/-! ## Up to 240 bytes -/

/-- Mixes sixteen bytes of the input with sixteen bytes of the secret. -/
def mixPiece (bytes : ByteArray) (at_ key : Nat) : UInt64 :=
  foldedProduct (word64 bytes at_ ^^^ word64 secret key)
    (word64 bytes (at_ + 8) ^^^ word64 secret (key + 8))

/-- Pieces are taken in pairs from both ends of the input, as many as it takes to cover it. -/
def ofUpTo128 (bytes : ByteArray) : UInt64 :=
  let n := bytes.size
  let pairs := (n - 1) / 32 + 1
  let total := (List.range pairs).foldl
    (fun acc i => acc + mixPiece bytes (16 * i) (32 * i)
      + mixPiece bytes (n - 16 * (i + 1)) (32 * i + 16))
    (n.toUInt64 * prime64x1)
  avalanche total

def ofUpTo240 (bytes : ByteArray) : UInt64 :=
  let n := bytes.size
  let first := (List.range 8).foldl (fun acc i => acc + mixPiece bytes (16 * i) (16 * i))
    (n.toUInt64 * prime64x1)
  let rest := (List.range (n / 16 - 8)).foldl
    (fun acc i => acc + mixPiece bytes (16 * (i + 8)) (16 * i + 3)) (avalanche first)
  avalanche (rest + mixPiece bytes (n - 16) 119)

/-! ## Longer inputs -/

/-- Adds one stripe of 64 bytes to the accumulators. -/
def addStripe (bytes : ByteArray) (acc : Array UInt64) (at_ key : Nat) : Array UInt64 :=
  (List.range 8).foldl
    (fun acc i =>
      let value := word64 bytes (at_ + 8 * i)
      let keyed := value ^^^ word64 secret (key + 8 * i)
      let product : UInt64 := (keyed &&& (0xffffffff : UInt64)) * (keyed >>> 32)
      (acc.modify (i ^^^ 1) (· + value)).modify i (· + product))
    acc

/-- Adds consecutive stripes, each with the secret advanced by eight bytes. -/
def addStripes (bytes : ByteArray) (acc : Array UInt64) (at_ count : Nat) : Array UInt64 :=
  (List.range count).foldl (fun acc i => addStripe bytes acc (at_ + 64 * i) (8 * i)) acc

/-- Scrambles the accumulators at the end of a block. -/
def scramble (acc : Array UInt64) : Array UInt64 :=
  acc.mapIdx fun (i : Nat) (a : UInt64) =>
    ((a ^^^ (a >>> 47)) ^^^ word64 secret (128 + 8 * i)) * prime32x1

def ofLong (bytes : ByteArray) : UInt64 :=
  let n := bytes.size
  let start : Array UInt64 := #[prime32x3, prime64x1, prime64x2, prime64x3, prime64x4, prime32x2,
    prime64x5, prime32x1]
  let blocks := (n - 1) / 1024
  let acc := (List.range blocks).foldl
    (fun acc b => scramble (addStripes bytes acc (1024 * b) 16)) start
  let acc := addStripes bytes acc (1024 * blocks) ((n - 1 - 1024 * blocks) / 64)
  let acc := addStripe bytes acc (n - 64) 121
  let total := (List.range 4).foldl
    (fun sum i =>
      sum + foldedProduct ((acc[2 * i]?).getD 0 ^^^ word64 secret (11 + 16 * i))
        ((acc[2 * i + 1]?).getD 0 ^^^ word64 secret (19 + 16 * i)))
    (n.toUInt64 * prime64x1)
  avalanche total

/-! ## The hash -/

/-- The hash of a sequence of bytes. -/
def ofBytes (bytes : ByteArray) : ContentHash :=
  let n := bytes.size
  ⟨if n == 0 then ofEmpty
   else if n ≤ 3 then ofUpTo3 bytes
   else if n ≤ 8 then ofUpTo8 bytes
   else if n ≤ 16 then ofUpTo16 bytes
   else if n ≤ 128 then ofUpTo128 bytes
   else if n ≤ 240 then ofUpTo240 bytes
   else ofLong bytes⟩

/-- The hash of a text, taken over its UTF-8 bytes. -/
def ofText (text : String) : ContentHash := ofBytes text.toUTF8

/-- The sixteen small hexadecimal digits of a 64-bit word. -/
def hexDigits (word : UInt64) : String :=
  let digits := Nat.toDigits 16 word.toNat
  String.ofList (List.replicate (16 - digits.length) '0' ++ digits)

/-- The hash as sixteen small hexadecimal digits. -/
def toHex (hash : ContentHash) : String := hexDigits hash.word

end ContentHash

end CodeAtlas
