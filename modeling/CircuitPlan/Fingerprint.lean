/-!
# Fingerprints

The 64-bit FNV-1a hash: each byte is mixed in by an exclusive or and a multiplication.
-/

namespace CircuitPlan.Fingerprint

def offsetBasis : UInt64 := 0xcbf29ce484222325

def multiplier : UInt64 := 0x100000001b3

def mix (hash : UInt64) (byte : UInt8) : UInt64 := (hash ^^^ byte.toUInt64) * multiplier

def extend (hash : UInt64) (bytes : List UInt8) : UInt64 := bytes.foldl mix hash

def ofBytes (bytes : List UInt8) : UInt64 := extend offsetBasis bytes

end CircuitPlan.Fingerprint
