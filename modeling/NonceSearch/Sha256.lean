import NonceSearch.Bytes

/-!
# SHA-256

The hash is a fold of one compression function over 64-byte blocks. The state between two blocks is
itself a value that can be written down as 32 bytes, so a hash can be stopped after a block and
taken up again (`absorb_append`): `digest` hashes a whole message, `resume` goes on from the written state of a
message whose first bytes have been absorbed. Both pad by the length of the *whole* message.
-/

namespace NonceSearch.Sha256

/-- The eight chaining words between two blocks. -/
structure State where
  a : UInt32
  b : UInt32
  c : UInt32
  d : UInt32
  e : UInt32
  f : UInt32
  g : UInt32
  h : UInt32
  deriving DecidableEq, Repr

def State.initial : State :=
  ⟨0x6a09e667, 0xbb67ae85, 0x3c6ef372, 0xa54ff53a, 0x510e527f, 0x9b05688c, 0x1f83d9ab, 0x5be0cd19⟩

def roundConstants : Array UInt32 := #[
  0x428a2f98, 0x71374491, 0xb5c0fbcf, 0xe9b5dba5, 0x3956c25b, 0x59f111f1, 0x923f82a4, 0xab1c5ed5,
  0xd807aa98, 0x12835b01, 0x243185be, 0x550c7dc3, 0x72be5d74, 0x80deb1fe, 0x9bdc06a7, 0xc19bf174,
  0xe49b69c1, 0xefbe4786, 0x0fc19dc6, 0x240ca1cc, 0x2de92c6f, 0x4a7484aa, 0x5cb0a9dc, 0x76f988da,
  0x983e5152, 0xa831c66d, 0xb00327c8, 0xbf597fc7, 0xc6e00bf3, 0xd5a79147, 0x06ca6351, 0x14292967,
  0x27b70a85, 0x2e1b2138, 0x4d2c6dfc, 0x53380d13, 0x650a7354, 0x766a0abb, 0x81c2c92e, 0x92722c85,
  0xa2bfe8a1, 0xa81a664b, 0xc24b8b70, 0xc76c51a3, 0xd192e819, 0xd6990624, 0xf40e3585, 0x106aa070,
  0x19a4c116, 0x1e376c08, 0x2748774c, 0x34b0bcb5, 0x391c0cb3, 0x4ed8aa4a, 0x5b9cca4f, 0x682e6ff3,
  0x748f82ee, 0x78a5636f, 0x84c87814, 0x8cc70208, 0x90befffa, 0xa4506ceb, 0xbef9a3f7, 0xc67178f2]

/-! ### Compression -/

@[inline] def rotate (word : UInt32) (count : UInt32) : UInt32 :=
  word >>> count ||| word <<< (32 - count)

/-- One round, for the sum of its constant and its schedule word. -/
@[inline] def State.round (s : State) (input : UInt32) : State :=
  let choice := (s.e &&& s.f) ^^^ (~~~s.e &&& s.g)
  let majority := (s.a &&& s.b) ^^^ (s.a &&& s.c) ^^^ (s.b &&& s.c)
  let mixed := s.h + (rotate s.e 6 ^^^ rotate s.e 11 ^^^ rotate s.e 25) + choice + input
  let spread := (rotate s.a 2 ^^^ rotate s.a 13 ^^^ rotate s.a 22) + majority
  ⟨mixed + spread, s.a, s.b, s.c, s.d + mixed, s.e, s.f, s.g⟩

def State.add (s t : State) : State :=
  ⟨s.a + t.a, s.b + t.b, s.c + t.c, s.d + t.d, s.e + t.e, s.f + t.f, s.g + t.g, s.h + t.h⟩

/-- Extend a message schedule by `count` words, each made from four earlier ones. -/
def extendSchedule : Nat → Array UInt32 → Array UInt32
  | 0, words => words
  | count + 1, words =>
    let at' := fun back => words.getD (words.size - back) 0
    let far := at' 15
    let near := at' 2
    let low := rotate far 7 ^^^ rotate far 18 ^^^ far >>> 3
    let high := rotate near 17 ^^^ rotate near 19 ^^^ near >>> 10
    extendSchedule count (words.push (at' 16 + low + at' 7 + high))

/-- Run rounds `index`, `index + 1`, … , `count` of them. -/
def runRounds (schedule : Array UInt32) : Nat → Nat → State → State
  | 0, _, s => s
  | count + 1, index, s =>
    runRounds schedule count (index + 1)
      (s.round (roundConstants.getD index 0 + schedule.getD index 0))

/-- Absorb one block, given as its sixteen words. -/
def compress (s : State) (block : Array UInt32) : State :=
  s.add (runRounds (extendSchedule 48 block) 64 0 s)

/-! ### Messages -/

def blockSize : Nat := 64

def messageWords : List UInt8 → List UInt32
  | b₀ :: b₁ :: b₂ :: b₃ :: rest =>
    (b₀.toUInt32 <<< 24 ||| b₁.toUInt32 <<< 16 ||| b₂.toUInt32 <<< 8 ||| b₃.toUInt32) ::
      messageWords rest
  | _ => []

/-- Absorb a number of blocks from the front of a byte list. -/
def absorbBlocks : (count : Nat) → State → List UInt8 → State
  | 0, s, _ => s
  | count + 1, s, bytes =>
    absorbBlocks count (compress s (messageWords (bytes.take blockSize)).toArray)
      (bytes.drop blockSize)

/-- Absorb the whole blocks of a byte list; bytes that do not fill a block are left out. -/
def absorb (s : State) (bytes : List UInt8) : State :=
  absorbBlocks (bytes.length / blockSize) s bytes

/-- A block at the front is absorbed first. -/
theorem absorb_append (s : State) {block : List UInt8} (rest : List UInt8)
    (h : block.length = blockSize) :
    absorb s (block ++ rest) = absorb (absorb s block) rest := by
  have count : (block ++ rest).length / blockSize = rest.length / blockSize + 1 := by
    rw [List.length_append, h, Nat.add_comm, Nat.add_div_right _ (by decide)]
  have one : absorb s block = compress s (messageWords block).toArray := by
    rw [absorb, h]
    change absorbBlocks 1 s block = _
    rw [absorbBlocks, absorbBlocks, List.take_of_length_le (Nat.le_of_eq h)]
  rw [one, absorb, count, absorbBlocks, List.take_left' h, List.drop_left' h, absorb]

/-- What is appended to a message of `length` bytes: a one bit, zeros up to eight bytes short of a
    block, and the length in bits as eight bytes. -/
def padding (length : Nat) : List UInt8 :=
  0x80 :: List.replicate ((119 - length % 64) % 64) 0 ++ (Bytes.ofNatBE 8 (8 * length)).toList

def wordText (word : UInt32) : List UInt8 :=
  [(word >>> 24).toUInt8, (word >>> 16).toUInt8, (word >>> 8).toUInt8, word.toUInt8]

def State.toBytes (s : State) : Bytes 32 :=
  Bytes.ofList 32 (wordText s.a ++ wordText s.b ++ wordText s.c ++ wordText s.d ++
    wordText s.e ++ wordText s.f ++ wordText s.g ++ wordText s.h)

def State.ofBytes (bytes : Bytes 32) : State :=
  let words := (messageWords bytes.toList).toArray
  let word := fun i => words.getD i 0
  ⟨word 0, word 1, word 2, word 3, word 4, word 5, word 6, word 7⟩

def digest (message : List UInt8) : Bytes 32 :=
  (absorb State.initial (message ++ padding message.length)).toBytes

/-- The hash of a message whose first `absorbed` bytes are summed up by a written state, with `rest`
    the bytes after them. -/
def resume (midstate : Bytes 32) (absorbed : Nat) (rest : List UInt8) : Bytes 32 :=
  (absorb (State.ofBytes midstate) (rest ++ padding (absorbed + rest.length))).toBytes

def midstate (block : Bytes 64) : Bytes 32 :=
  (absorb State.initial block.toList).toBytes

def doubleDigest (message : List UInt8) : Bytes 32 :=
  digest (digest message).toList

/-! ### Known answers -/

structure KnownAnswer where
  name : String
  /-- The text that is repeated. -/
  text : String
  times : Nat := 1
  /-- The hash in hexadecimal. -/
  digest : String

def KnownAnswer.message (answer : KnownAnswer) : List UInt8 :=
  (List.replicate answer.times answer.text.toUTF8.toList).flatten

/-- The messages whose hashes are checked before any device is brought up. -/
def knownAnswers : List KnownAnswer := [
  { name := "abc"
    text := "abc"
    digest := "ba7816bf8f01cfea414140de5dae2223b00361a396177a9cb410ff61f20015ad" },
  { name := "448-bit"
    text := "abcdbcdecdefdefgefghfghighijhijkijkljklmklmnlmnomnopnopq"
    digest := "248d6a61d20638b8e5c026930c3e6039a33ce45964ff2167f6ecedd419db06c1" },
  { name := "million-a"
    text := "a"
    times := 1000000
    digest := "cdc76e5c9914fb9281a1c7e284d73e67f1809a48a497200e046d39ccc7112cd0" }]

/-- Whether a published hash is reproduced; the failure names the message and both hashes. -/
def KnownAnswer.check (answer : KnownAnswer) : Except String Unit :=
  let actual := hexText (Sha256.digest answer.message).toList
  if actual = answer.digest then .ok ()
  else .error (answer.name ++ ": expected " ++ answer.digest ++ ", got " ++ actual)

/-- The first of some known answers that is not reproduced, if any. -/
def selfTest (answers : List KnownAnswer) : Except String Unit :=
  answers.forM KnownAnswer.check

end NonceSearch.Sha256
