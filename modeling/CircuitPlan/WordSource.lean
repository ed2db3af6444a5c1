/-!
# Random words

Random numbers are made from a stream of 32-bit words. A draw takes the next word of the stream,
so the number of words that a computation uses is part of its result.
-/

namespace CircuitPlan

structure WordSource where
  word : Nat → UInt32
  used : Nat

namespace WordSource

def draw (source : WordSource) (count : Nat) : List UInt32 × WordSource :=
  ((List.range count).map fun k => source.word (source.used + k),
    { source with used := source.used + count })

def unit (word : UInt32) : Float32 := (word >>> 8).toFloat32 * (1 / 16777216)

/-- A number in `[0.01, 1)`: the upper 23 bits of a word are the fraction of a number in `[1, 2)`,
which is then moved and scaled. -/
def weight (word : UInt32) : Float32 :=
  let low : Float32 := 0.01
  let fraction := Float32.ofBits (word >>> 9 ||| 0x3f800000) - 1
  fraction * (1 - low) + low

end WordSource
end CircuitPlan
