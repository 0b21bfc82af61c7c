/-
  SHA-256, and the fingerprint of a configuration.

  * `Digest.sha256` pads a byte string to blocks of 64 bytes and folds the
    compression function over them;
  * `fingerprintInput` is the byte string that a toolchain and its options are
    hashed from: every part behind its length, so that no two lists of options
    share it.
-/
import Rebuild.Encoding

namespace Rebuild.Digest

/-- The first 32 bits of the fractions of the cube roots of the first 64 primes. -/
def constants : Array UInt32 := #[
  0x428a2f98, 0x71374491, 0xb5c0fbcf, 0xe9b5dba5, 0x3956c25b, 0x59f111f1, 0x923f82a4, 0xab1c5ed5,
  0xd807aa98, 0x12835b01, 0x243185be, 0x550c7dc3, 0x72be5d74, 0x80deb1fe, 0x9bdc06a7, 0xc19bf174,
  0xe49b69c1, 0xefbe4786, 0x0fc19dc6, 0x240ca1cc, 0x2de92c6f, 0x4a7484aa, 0x5cb0a9dc, 0x76f988da,
  0x983e5152, 0xa831c66d, 0xb00327c8, 0xbf597fc7, 0xc6e00bf3, 0xd5a79147, 0x06ca6351, 0x14292967,
  0x27b70a85, 0x2e1b2138, 0x4d2c6dfc, 0x53380d13, 0x650a7354, 0x766a0abb, 0x81c2c92e, 0x92722c85,
  0xa2bfe8a1, 0xa81a664b, 0xc24b8b70, 0xc76c51a3, 0xd192e819, 0xd6990624, 0xf40e3585, 0x106aa070,
  0x19a4c116, 0x1e376c08, 0x2748774c, 0x34b0bcb5, 0x391c0cb3, 0x4ed8aa4a, 0x5b9cca4f, 0x682e6ff3,
  0x748f82ee, 0x78a5636f, 0x84c87814, 0x8cc70208, 0x90befffa, 0xa4506ceb, 0xbef9a3f7, 0xc67178f2]

/-- The eight words of the running hash. -/
structure State where
  a : UInt32
  b : UInt32
  c : UInt32
  d : UInt32
  e : UInt32
  f : UInt32
  g : UInt32
  h : UInt32

/-- The first 32 bits of the fractions of the square roots of the first 8 primes. -/
def State.initial : State :=
  ⟨0x6a09e667, 0xbb67ae85, 0x3c6ef372, 0xa54ff53a, 0x510e527f, 0x9b05688c, 0x1f83d9ab, 0x5be0cd19⟩

/-- Rotation to the right by `n` bits, `0 < n < 32`. -/
def rotate (n w : UInt32) : UInt32 := (w >>> n) ||| (w <<< (32 - n))

/-- The number in the bytes `t`, the highest first. -/
def beValue (t : Text) : Nat := t.foldl (fun n b => 256 * n + b.toNat) 0

/-- The `width` lowest bytes of `n`, the highest first. -/
def beBytes (width n : Nat) : Text := (leBytes width n).reverse

/-- The message, a one bit, zeros up to 8 bytes short of a block, the bit length. -/
def pad (t : Text) : Text :=
  let length := t.length
  t ++ 0x80 :: List.replicate ((119 - length % 64) % 64) 0 ++ beBytes 8 (8 * length)

/-- The pieces of `size` bytes of a text whose length `count` times `size` is. -/
def pieces (size : Nat) : Nat → Text → List Text
  | 0, _ => []
  | count + 1, t => t.take size :: pieces size count (t.drop size)

/-- The next word of the schedule from the sixteen before it. -/
def nextWord (w : Array UInt32) : UInt32 :=
  let back (n : Nat) : UInt32 := w.getD (w.size - n) 0
  let s0 := rotate 7 (back 15) ^^^ rotate 18 (back 15) ^^^ (back 15 >>> 3)
  let s1 := rotate 17 (back 2) ^^^ rotate 19 (back 2) ^^^ (back 2 >>> 10)
  back 16 + s0 + back 7 + s1

/-- The sixteen words of a block, followed by `n` more. -/
def schedule (block : Text) (n : Nat) : Array UInt32 :=
  (List.range n).foldl (fun w _ => w.push (nextWord w))
    ((pieces 4 16 block).map fun p => UInt32.ofNat (beValue p)).toArray

/-- One round with the round constant `k` and the schedule word `w`. -/
def round (s : State) (k w : UInt32) : State :=
  let s1 := rotate 6 s.e ^^^ rotate 11 s.e ^^^ rotate 25 s.e
  let ch := (s.e &&& s.f) ^^^ (~~~s.e &&& s.g)
  let t1 := s.h + s1 + ch + k + w
  let s0 := rotate 2 s.a ^^^ rotate 13 s.a ^^^ rotate 22 s.a
  let maj := (s.a &&& s.b) ^^^ (s.a &&& s.c) ^^^ (s.b &&& s.c)
  ⟨t1 + (s0 + maj), s.a, s.b, s.c, s.d + t1, s.e, s.f, s.g⟩

/-- The hash after one more block. -/
def compress (s : State) (block : Text) : State :=
  let w := schedule block 48
  let r := (List.range 64).foldl (fun r i => round r (constants.getD i 0) (w.getD i 0)) s
  ⟨s.a + r.a, s.b + r.b, s.c + r.c, s.d + r.d, s.e + r.e, s.f + r.f, s.g + r.g, s.h + r.h⟩

/-- The eight words as 32 bytes. -/
def State.toText (s : State) : Text :=
  [s.a, s.b, s.c, s.d, s.e, s.f, s.g, s.h].flatMap fun w => beBytes 4 w.toNat

/-- The digest of a byte string, 32 bytes. -/
def sha256 (t : Text) : Text :=
  let padded := pad t
  ((pieces 64 (padded.length / 64) padded).foldl compress State.initial).toText

/-- The digest as 64 hexadecimal digits. -/
def sha256Hex (t : Text) : Text := Text.hexBytes (sha256 t)

end Rebuild.Digest

namespace Rebuild

/-- The byte string that the fingerprint of a toolchain with options is the digest of.
    Every part stands behind its length, so `["a b"]` and `["a", "b"]` differ. -/
def fingerprintInput (toolchain : Text) (options : List Text) : Text :=
  Encode.text toolchain ++ Encode.texts options

/-- The fingerprint of a toolchain with the options that affect its output. -/
def fingerprint (toolchain : Text) (options : List Text) : Text :=
  Digest.sha256Hex (fingerprintInput toolchain options)

end Rebuild
