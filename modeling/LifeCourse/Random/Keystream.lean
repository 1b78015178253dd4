/-!
# The keystream behind a seed

A seed of 64 bits is stretched to a key of eight 32-bit words, and the stream is the
ChaCha keystream with twelve rounds under that key, with a 64-bit block counter that
starts at zero and an all-zero nonce.  Each block has sixteen words.  The stream is
read in 64-bit words, two at a time with the low word first, so a 64-bit word never
straddles two blocks and `draw seed i` is a function of its index alone.
-/

namespace LifeCourse
namespace Keystream

/-- The sixteen words of a block. -/
abbrev Block := Vector UInt32 16

/-- The word rotated left by `n` bits, for `0 < n < 32`. -/
def rotate (w : UInt32) (n : UInt32) : UInt32 :=
  (w <<< n) ||| (w >>> (32 - n))

/-- The quarter round on the words at four places. -/
def quarterRound (s : Block) (a b c d : Fin 16) : Block :=
  let s := s.set a (s[a] + s[b])
  let s := s.set d (rotate (s[d] ^^^ s[a]) 16)
  let s := s.set c (s[c] + s[d])
  let s := s.set b (rotate (s[b] ^^^ s[c]) 12)
  let s := s.set a (s[a] + s[b])
  let s := s.set d (rotate (s[d] ^^^ s[a]) 8)
  let s := s.set c (s[c] + s[d])
  s.set b (rotate (s[b] ^^^ s[c]) 7)

/-- One round on the columns and one on the diagonals. -/
def doubleRound (s : Block) : Block :=
  let s := quarterRound s 0 4 8 12
  let s := quarterRound s 1 5 9 13
  let s := quarterRound s 2 6 10 14
  let s := quarterRound s 3 7 11 15
  let s := quarterRound s 0 5 10 15
  let s := quarterRound s 1 6 11 12
  let s := quarterRound s 2 7 8 13
  quarterRound s 3 4 9 14

/-- The key words of a seed: eight steps of a linear congruential generator, each
read out by a shift and a rotation. -/
def keyWords : Nat → UInt64 → List UInt32
  | 0, _ => []
  | n + 1, state =>
    let state := state * 6364136223846793005 + 11634580027462260723
    let word := (((state >>> 18) ^^^ state) >>> 27).toUInt32
    let turn := (state >>> 59).toUInt32
    let word := if turn = 0 then word else (word >>> turn) ||| (word <<< (32 - turn))
    word :: keyWords n state

/-- The block before its rounds: four constants, the key, the counter, the nonce. -/
def initial (seed : UInt64) (counter : UInt64) : Block :=
  let constants : List UInt32 := [0x61707865, 0x3320646e, 0x79622d32, 0x6b206574]
  let words := constants ++ keyWords 8 seed ++
    [counter.toUInt32, (counter >>> 32).toUInt32, 0, 0]
  Vector.ofFn fun i => words.getD i.val 0

/-- The keystream block with a counter. -/
def block (seed : UInt64) (counter : UInt64) : Block :=
  let start := initial seed counter
  Vector.zipWith (· + ·) (Nat.repeat doubleRound 6 start) start

/-- The 64-bit word at an index of the stream. -/
def draw (seed : UInt64) (index : Nat) : UInt64 :=
  let words := block seed (index / 8).toUInt64
  let low := words.toList.getD (2 * (index % 8)) 0
  let high := words.toList.getD (2 * (index % 8) + 1) 0
  low.toUInt64 ||| (high.toUInt64 <<< 32)

end Keystream
end LifeCourse
