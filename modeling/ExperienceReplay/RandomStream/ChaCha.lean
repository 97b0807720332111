/-!
The ChaCha stream of words: a function of a key and a block number, with twelve rounds.
-/

namespace ExperienceReplay.ChaCha

abbrev Key : Type := Vector UInt32 8

abbrev State : Type := Vector UInt32 16

def rotateLeft (x n : UInt32) : UInt32 := (x <<< n) ||| (x >>> (32 - n))

def quarterRound (s : State) (a b c d : Fin 16) : State :=
  let s := s.set a (s[a] + s[b])
  let s := s.set d (rotateLeft (s[d] ^^^ s[a]) 16)
  let s := s.set c (s[c] + s[d])
  let s := s.set b (rotateLeft (s[b] ^^^ s[c]) 12)
  let s := s.set a (s[a] + s[b])
  let s := s.set d (rotateLeft (s[d] ^^^ s[a]) 8)
  let s := s.set c (s[c] + s[d])
  s.set b (rotateLeft (s[b] ^^^ s[c]) 7)

def doubleRound (s : State) : State :=
  let s := quarterRound s 0 4 8 12
  let s := quarterRound s 1 5 9 13
  let s := quarterRound s 2 6 10 14
  let s := quarterRound s 3 7 11 15
  let s := quarterRound s 0 5 10 15
  let s := quarterRound s 1 6 11 12
  let s := quarterRound s 2 7 8 13
  quarterRound s 3 4 9 14

def doubleRounds : Nat → State → State
  | 0, s => s
  | n + 1, s => doubleRounds n (doubleRound s)

/-- Constants, key, block number (low word first) and a zero nonce. -/
def initial (key : Key) (number : UInt64) : State :=
  #v[0x61707865, 0x3320646e, 0x79622d32, 0x6b206574,
    key[0], key[1], key[2], key[3], key[4], key[5], key[6], key[7],
    number.toUInt32, (number >>> 32).toUInt32, 0, 0]

def block (key : Key) (number : UInt64) : State :=
  (doubleRounds 6 (initial key number)).zipWith (· + ·) (initial key number)

def word (key : Key) (k : Nat) : UInt32 :=
  (block key (UInt64.ofNat (k / 16)))[k % 16]

end ExperienceReplay.ChaCha
