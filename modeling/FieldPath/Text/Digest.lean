/-!
# A 64-bit digest of bytes

The digest is the 64-bit xxHash.  Input of 32 bytes or more is first folded in stripes of four
64-bit words into four lanes, which are then merged.  What is left is folded in words of 64 bits,
then of 32 bits, then byte by byte, and a last scramble spreads every input bit over the result.
Words are read with the least significant byte first and all arithmetic wraps.

## Main definitions

* `Digest.stripes` — the four lanes after all whole stripes, and the bytes left over.
* `Digest.tail` — the fold of the bytes that fill no stripe.
* `digest` — the digest of a list of bytes under a seed.
-/

namespace FieldPath

namespace Digest

/-! ### Constants and words -/

/-- The first multiplier. -/
def prime₁ : UInt64 := 0x9E3779B185EBCA87
/-- The second multiplier. -/
def prime₂ : UInt64 := 0xC2B2AE3D27D4EB4F
/-- The third multiplier. -/
def prime₃ : UInt64 := 0x165667B19E3779F9
/-- The fourth multiplier. -/
def prime₄ : UInt64 := 0x85EBCA77C2B2AE63
/-- The fifth multiplier. -/
def prime₅ : UInt64 := 0x27D4EB2F165667C5

/-- Rotation to the left by `k` bits, for `0 < k < 64`. -/
def rotl (x k : UInt64) : UInt64 := (x <<< k) ||| (x >>> (64 - k))

/-- The word written by some bytes, the least significant byte first. -/
def word : List UInt8 → UInt64
  | [] => 0
  | b :: bs => b.toUInt64 ||| (word bs <<< 8)

/-! ### Lanes -/

/-- The four accumulators that the stripes run through. -/
structure Lanes where
  /-- The accumulator of each first word. -/
  v₁ : UInt64
  /-- The accumulator of each second word. -/
  v₂ : UInt64
  /-- The accumulator of each third word. -/
  v₃ : UInt64
  /-- The accumulator of each fourth word. -/
  v₄ : UInt64

/-- One accumulator takes up one word. -/
def absorb (acc input : UInt64) : UInt64 := rotl (acc + input * prime₂) 31 * prime₁

/-- The lanes before the first stripe. -/
def Lanes.init (seed : UInt64) : Lanes :=
  ⟨seed + prime₁ + prime₂, seed + prime₂, seed, seed - prime₁⟩

/-- The lanes take up one stripe of 32 bytes, one word each. -/
def Lanes.absorb (l : Lanes) (stripe : List UInt8) : Lanes :=
  ⟨Digest.absorb l.v₁ (word (stripe.take 8)),
    Digest.absorb l.v₂ (word ((stripe.drop 8).take 8)),
    Digest.absorb l.v₃ (word ((stripe.drop 16).take 8)),
    Digest.absorb l.v₄ (word ((stripe.drop 24).take 8))⟩

/-- One lane enters the merged state. -/
def mergeLane (h v : UInt64) : UInt64 := (h ^^^ absorb 0 v) * prime₁ + prime₄

/-- The state that the four lanes merge into. -/
def Lanes.merge (l : Lanes) : UInt64 :=
  let h := rotl l.v₁ 1 + rotl l.v₂ 7 + rotl l.v₃ 12 + rotl l.v₄ 18
  mergeLane (mergeLane (mergeLane (mergeLane h l.v₁) l.v₂) l.v₃) l.v₄

/-- The lanes after `count` stripes. -/
def stripes : Nat → Lanes → List UInt8 → Lanes
  | 0, l, _ => l
  | count + 1, l, bytes => stripes count (l.absorb bytes) (bytes.drop 32)

/-! ### The rest -/

/-- The state takes up a word of 64 bits. -/
def absorb64 (h w : UInt64) : UInt64 := rotl (h ^^^ absorb 0 w) 27 * prime₁ + prime₄

/-- The state takes up a word of 32 bits. -/
def absorb32 (h w : UInt64) : UInt64 := rotl (h ^^^ (w * prime₁)) 23 * prime₂ + prime₃

/-- The state takes up one byte. -/
def absorb8 (h : UInt64) (b : UInt8) : UInt64 := rotl (h ^^^ (b.toUInt64 * prime₅)) 11 * prime₁

/-- The state takes up the bytes that fill no stripe: words of eight bytes, then one of four, then
single bytes. -/
def tail (h : UInt64) : List UInt8 → UInt64
  | b₀ :: b₁ :: b₂ :: b₃ :: b₄ :: b₅ :: b₆ :: b₇ :: rest =>
      tail (absorb64 h (word [b₀, b₁, b₂, b₃, b₄, b₅, b₆, b₇])) rest
  | b₀ :: b₁ :: b₂ :: b₃ :: rest => rest.foldl absorb8 (absorb32 h (word [b₀, b₁, b₂, b₃]))
  | rest => rest.foldl absorb8 h

/-- The last scramble. -/
def finish (h : UInt64) : UInt64 :=
  let h := (h ^^^ (h >>> 33)) * prime₂
  let h := (h ^^^ (h >>> 29)) * prime₃
  h ^^^ (h >>> 32)

end Digest

open Digest in
/-- The digest of a list of bytes under a seed.  It is defined so that digests can be computed and
shown.  No general theorem uses a property of it: what depends on digests holds whatever they are,
or is stated for classes that they tell apart.  Only for single names is it computed in a proof. -/
def digest (seed : UInt64) (bytes : List UInt8) : UInt64 :=
  let count := bytes.length / 32
  let start := if count = 0 then seed + prime₅ else (stripes count (.init seed) bytes).merge
  finish (tail (start + UInt64.ofNat bytes.length) (bytes.drop (32 * count)))

/-- The known digest of no bytes under the seed zero. -/
example : digest 0 [] = 0xEF46DB3751D8E999 := by decide +kernel

end FieldPath
