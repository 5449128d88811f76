/-! Sources of random words and uniform draws from them. -/
namespace GroupBench

/-- A source of 32-bit words with states of type `ρ`. -/
structure WordSource (ρ : Type) where
  next : ρ → UInt32 × ρ

namespace WordSource

/-- A linear congruential generator modulo `2 ^ 64`, of which the upper half is used. -/
def congruential : WordSource UInt64 where
  next s :=
    let s := s * 6364136223846793005 + 1442695040888963407
    ((s >>> 32).toUInt32, s)

/-- Words written down in advance, and how many have been read. -/
structure Tape where
  words : List UInt32
  used : Nat := 0

/-- Reads a tape word by word, and zeros past its end. -/
def tape : WordSource Tape where
  next t := (t.words.headD 0, ⟨t.words.tail, t.used + 1⟩)

/-- A draw from `0 .. n - 1` for positive `n`. The upper half of `word * n` is the result; where the
lower half shows that it may be biased, one more word decides whether to carry into it. -/
def below {ρ : Type} (source : WordSource ρ) (n : UInt32) (s : ρ) : UInt32 × ρ :=
  let (word, s) := source.next s
  let product := word.toUInt64 * n.toUInt64
  let high := (product >>> 32).toUInt32
  let low := product.toUInt32
  if 0 - n < low then
    let (word, s) := source.next s
    let carry := (word.toUInt64 * n.toUInt64) >>> 32
    (if UInt32.size ≤ low.toNat + carry.toNat then high + 1 else high, s)
  else (high, s)

end WordSource

end GroupBench
