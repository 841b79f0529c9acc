/-!
# The twister

A generator of 32-bit words with a period of 2 ^ 19937 - 1: a recurrence over 624 words, each of them
mixed from three before it and then tempered.
-/

namespace Arbor.Twister

def size : Nat := 624

/-- How far ahead the third word of the recurrence lies. -/
def middle : Nat := 397

def matrix : UInt32 := 0x9908b0df
def upperMask : UInt32 := 0x80000000
def lowerMask : UInt32 := 0x7fffffff

def seedWord (i : Nat) (previous : UInt32) : UInt32 :=
  (1812433253 : UInt32) * (previous ^^^ (previous >>> 30)) + UInt32.ofNat i

def seeded (seed : UInt32) : Array UInt32 :=
  (List.range (size - 1)).foldl (fun words i => words.push (seedWord (i + 1) (words.getD i 0))) #[seed]

def twist (high low : UInt32) : UInt32 :=
  let word := (high &&& upperMask) ||| (low &&& lowerMask)
  (word >>> 1) ^^^ (if word &&& 1 = 1 then matrix else 0)

def next (words : Array UInt32) : Array UInt32 :=
  (List.range size).foldl (fun ws i =>
    ws.setIfInBounds i
      (ws.getD ((i + middle) % size) 0 ^^^ twist (ws.getD i 0) (ws.getD ((i + 1) % size) 0))) words

def temper (word : UInt32) : UInt32 :=
  let a := word ^^^ (word >>> 11)
  let b := a ^^^ ((a <<< 7) &&& 0x9d2c5680)
  let c := b ^^^ ((b <<< 15) &&& 0xefc60000)
  c ^^^ (c >>> 18)

def drawn : Nat → Array UInt32 → Array UInt32 → Array UInt32
  | 0, _, found => found
  | states + 1, words, found =>
      let following := next words
      drawn states following (following.foldl (fun found word => found.push (temper word)) found)

def words (seed : UInt32) (count : Nat) : Array UInt32 := drawn (count / size + 1) (seeded seed) #[]

end Arbor.Twister
