import MathMarkup.Text.Basic

/-!
# SHA-256

The digest of FIPS 180-4: the text is padded to whole blocks of 64 bytes, and each block is mixed
into a state of eight words.
-/

namespace MathMarkup.Text.Digest

/-- The state between two blocks. -/
structure State where
  a : UInt32
  b : UInt32
  c : UInt32
  d : UInt32
  e : UInt32
  f : UInt32
  g : UInt32
  h : UInt32

/-- The state before the first block. -/
def initial : State :=
  ⟨0x6a09e667, 0xbb67ae85, 0x3c6ef372, 0xa54ff53a, 0x510e527f, 0x9b05688c, 0x1f83d9ab, 0x5be0cd19⟩

/-- The constants of the 64 rounds. -/
def roundConstants : List UInt32 :=
  [0x428a2f98, 0x71374491, 0xb5c0fbcf, 0xe9b5dba5, 0x3956c25b, 0x59f111f1, 0x923f82a4, 0xab1c5ed5,
   0xd807aa98, 0x12835b01, 0x243185be, 0x550c7dc3, 0x72be5d74, 0x80deb1fe, 0x9bdc06a7, 0xc19bf174,
   0xe49b69c1, 0xefbe4786, 0x0fc19dc6, 0x240ca1cc, 0x2de92c6f, 0x4a7484aa, 0x5cb0a9dc, 0x76f988da,
   0x983e5152, 0xa831c66d, 0xb00327c8, 0xbf597fc7, 0xc6e00bf3, 0xd5a79147, 0x06ca6351, 0x14292967,
   0x27b70a85, 0x2e1b2138, 0x4d2c6dfc, 0x53380d13, 0x650a7354, 0x766a0abb, 0x81c2c92e, 0x92722c85,
   0xa2bfe8a1, 0xa81a664b, 0xc24b8b70, 0xc76c51a3, 0xd192e819, 0xd6990624, 0xf40e3585, 0x106aa070,
   0x19a4c116, 0x1e376c08, 0x2748774c, 0x34b0bcb5, 0x391c0cb3, 0x4ed8aa4a, 0x5b9cca4f, 0x682e6ff3,
   0x748f82ee, 0x78a5636f, 0x84c87814, 0x8cc70208, 0x90befffa, 0xa4506ceb, 0xbef9a3f7, 0xc67178f2]

/-- A word turned to the right. -/
def rotate (x : UInt32) (n : UInt32) : UInt32 := (x >>> n) ||| (x <<< (32 - n))

/-- The word that follows sixteen words of the message schedule. -/
def nextWord (window : List UInt32) : UInt32 :=
  let w0 := window.headD 0
  let w1 := (window.drop 1).headD 0
  let w9 := (window.drop 9).headD 0
  let w14 := (window.drop 14).headD 0
  let s0 := rotate w1 7 ^^^ rotate w1 18 ^^^ (w1 >>> 3)
  let s1 := rotate w14 17 ^^^ rotate w14 19 ^^^ (w14 >>> 10)
  w0 + s0 + w9 + s1

/-- One round with a constant and a word of the schedule. -/
def round (s : State) (k w : UInt32) : State :=
  let s1 := rotate s.e 6 ^^^ rotate s.e 11 ^^^ rotate s.e 25
  let choice := (s.e &&& s.f) ^^^ (~~~s.e &&& s.g)
  let t1 := s.h + s1 + choice + k + w
  let s0 := rotate s.a 2 ^^^ rotate s.a 13 ^^^ rotate s.a 22
  let majority := (s.a &&& s.b) ^^^ (s.a &&& s.c) ^^^ (s.b &&& s.c)
  ⟨t1 + (s0 + majority), s.a, s.b, s.c, s.d + t1, s.e, s.f, s.g⟩

/-- The rounds for the given constants; the window holds the next sixteen words. -/
def rounds (s : State) (window : List UInt32) : List UInt32 → State
  | [] => s
  | k :: ks =>
    rounds (round s k (window.headD 0)) (window.drop 1 ++ [nextWord window]) ks

/-- The big-endian words of bytes, four bytes a word. -/
def words : List UInt8 → List UInt32
  | a :: b :: c :: d :: r =>
    ((a.toUInt32 <<< 24) ||| (b.toUInt32 <<< 16) ||| (c.toUInt32 <<< 8) ||| d.toUInt32) :: words r
  | _ => []

/-- Mixes one block of 64 bytes into the state. -/
def compress (s : State) (block : List UInt8) : State :=
  let t := rounds s (words block) roundConstants
  ⟨s.a + t.a, s.b + t.b, s.c + t.c, s.d + t.d, s.e + t.e, s.f + t.f, s.g + t.g, s.h + t.h⟩

/-- A state and the bytes of an unfinished block, the last one first. -/
structure Absorbing where
  state : State := initial
  pending : List UInt8 := []
  count : Nat := 0

/-- Takes in one byte; a full block is mixed into the state. -/
def Absorbing.byte (x : Absorbing) (b : UInt8) : Absorbing :=
  if x.count + 1 = 64 then { state := compress x.state (b :: x.pending).reverse }
  else { x with pending := b :: x.pending, count := x.count + 1 }

/-- What follows a text of a length to make whole blocks: a mark, zeros, and the length in bits. -/
def padding (length : Nat) : List UInt8 :=
  0x80 :: List.replicate ((119 - length % 64) % 64) 0
    ++ ((List.range 8).map fun i => (length * 8 / Nat.pow 256 (7 - i) % 256).toUInt8)

/-- The bytes of a word. -/
def wordHex (w : UInt32) : Text := hexFixed 8 w.toNat

/-- The digest in hexadecimal digits. -/
def sha256 (t : Text) : Text :=
  let s := ((t ++ padding t.length).foldl Absorbing.byte {}).state
  [s.a, s.b, s.c, s.d, s.e, s.f, s.g, s.h].flatMap wordHex

end MathMarkup.Text.Digest
