import MathMarkup.Time.Instant

/-!
# Token buckets

A bucket holds tokens up to its capacity and is refilled at a steady rate. Each request takes one
token, so that bursts up to the capacity pass while the average is held to the rate. The clock is an
argument; a clock that goes backwards refills nothing.
-/

namespace MathMarkup.Limits

open Time (Instant Duration)

/-- A duration in seconds: whole seconds and the fraction are converted apart. -/
def seconds (d : Duration) : Float :=
  Float.ofInt (Int.tdiv d 1000000000) + Float.ofInt (Int.tmod d 1000000000) / 1000000000

/-- The whole part of a number; what is beyond 64 bits is the smallest of them. -/
def wholePart (x : Float) : Int :=
  if x.isNaN || x ≥ 9223372036854775808 || x < -9223372036854775808 then Number.minInt
  else x.toInt64.toInt

/-- A bucket of tokens. -/
structure TokenBucket where
  capacity : Float
  tokens : Float
  /-- Tokens that come in a second. -/
  rate : Float
  /-- When the bucket was last refilled. -/
  refilled : Instant

namespace TokenBucket

/-- A full bucket. -/
def full (capacity : Int) (rate : Float) (now : Instant) : TokenBucket :=
  ⟨Float.ofInt capacity, Float.ofInt capacity, rate, now⟩

/-- The bucket with the tokens that came since it was last refilled. -/
def refill (b : TokenBucket) (now : Instant) : TokenBucket :=
  let elapsed := seconds (now.sub b.refilled)
  if elapsed ≤ 0 then b
  else
    let tokens := b.tokens + elapsed * b.rate
    { b with tokens := if tokens > b.capacity then b.capacity else tokens, refilled := now }

/-- Takes a token if there is one. -/
def take (b : TokenBucket) (now : Instant) : Bool × TokenBucket :=
  let b := b.refill now
  if b.tokens ≥ 1 then (true, { b with tokens := b.tokens - 1 }) else (false, b)

/-- How long until there is a token; no time if there is one, or if none ever comes. -/
def untilAvailable (b : TokenBucket) (now : Instant) : Duration × TokenBucket :=
  let b := b.refill now
  if b.tokens ≥ 1 || b.rate ≤ 0 then (0, b)
  else (wholePart ((1 - b.tokens) / b.rate * 1000000000), b)

/-- Whether a bucket has been refilled to its capacity. -/
def isFull (b : TokenBucket) (now : Instant) : Bool × TokenBucket :=
  let b := b.refill now
  (b.tokens ≥ b.capacity, b)

/-- The whole tokens in a bucket. -/
def remaining (b : TokenBucket) (now : Instant) : Int × TokenBucket :=
  let b := b.refill now
  (wholePart b.tokens, b)

end TokenBucket

end MathMarkup.Limits
