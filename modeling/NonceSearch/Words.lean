import NonceSearch.Bytes

/-!
# 32-bit words in byte strings

A register window is addressed in 32-bit words, the values that go through it are byte strings.
Four bytes make one word, least significant byte first. Only whole words count: a list of one, two
or three bytes at the end of a string makes no word, and no word is stored over it.
-/

namespace NonceSearch

/-- The word spelled by four bytes, least significant first. -/
def wordOf (b₀ b₁ b₂ b₃ : UInt8) : UInt32 :=
  b₀.toUInt32 ||| b₁.toUInt32 <<< 8 ||| b₂.toUInt32 <<< 16 ||| b₃.toUInt32 <<< 24

/-- Byte `k` of a word, counted from the least significant. -/
def wordByte (word : UInt32) (k : Nat) : UInt8 :=
  UInt8.ofNat (word.toNat >>> (8 * k))

/-- The four bytes of a word, least significant first. -/
def wordBytes (word : UInt32) : List UInt8 :=
  [wordByte word 0, wordByte word 1, wordByte word 2, wordByte word 3]

/-- The whole words of a byte list, in order. -/
def wholeWords : List UInt8 → List UInt32
  | b₀ :: b₁ :: b₂ :: b₃ :: rest => wordOf b₀ b₁ b₂ b₃ :: wholeWords rest
  | _ => []

/-- Exactly `width` words of a byte list: its whole words, then zeros. -/
def packWords (width : Nat) (bytes : List UInt8) : Vector UInt32 width :=
  let words := (wholeWords bytes).toArray
  Vector.ofFn fun i => words.getD i.val 0

/-- Store words over the front of a byte list, word by word, for as long as the list has four bytes
    to take the next one. The length never changes. -/
def storeWords : List UInt32 → List UInt8 → List UInt8
  | word :: words, _ :: _ :: _ :: _ :: rest => wordBytes word ++ storeWords words rest
  | _, bytes => bytes

theorem length_storeWords (words : List UInt32) (bytes : List UInt8) :
    (storeWords words bytes).length = bytes.length := by
  fun_induction storeWords words bytes with
  | case1 word words b₀ b₁ b₂ b₃ rest ih => simp [wordBytes, ih]
  | case2 words bytes h => rfl

namespace Bytes

/-- The words of a byte string that is a whole number of words long. -/
def words {n : Nat} (bytes : Bytes n) : Vector UInt32 (n / 4) :=
  packWords (n / 4) bytes.toList

/-- Word `index` of a byte string, zero when the string does not hold it whole. -/
def word {n : Nat} (bytes : Bytes n) (index : Nat) : UInt32 :=
  if h : 4 * index + 3 < n then
    wordOf bytes[4 * index] bytes[4 * index + 1] bytes[4 * index + 2] bytes[4 * index + 3]
  else 0

/-- Overwrite the four bytes of word `index`. -/
def putWord {n : Nat} (bytes : Bytes n) (index : Nat) (value : UInt32) : Bytes n :=
  Vector.ofFn fun i => if i.val / 4 = index then wordByte value (i.val % 4) else bytes[i]

end Bytes

end NonceSearch
