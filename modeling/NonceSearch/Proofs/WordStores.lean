import NonceSearch.Words

/-!
# Byte strings stored word by word

A string that goes through a register window is taken apart into words and put together again from them.
Storing all words of one string over another, in order, leaves the first.
-/

namespace NonceSearch

theorem toNat_wordOf (b₀ b₁ b₂ b₃ : UInt8) : (wordOf b₀ b₁ b₂ b₃).toNat =
    b₀.toNat + 256 * (b₁.toNat + 256 * (b₂.toNat + 256 * b₃.toNat)) := by
  have h₀ := b₀.toNat_lt
  have h₁ := b₁.toNat_lt
  have h₂ := b₂.toNat_lt
  have h₃ := b₃.toNat_lt
  have hshift₁ : b₁.toNat <<< 8 % 2 ^ 32 = b₁.toNat <<< 8 :=
    Nat.mod_eq_of_lt (by rw [Nat.shiftLeft_eq]; omega)
  have hshift₂ : b₂.toNat <<< 16 % 2 ^ 32 = b₂.toNat <<< 16 :=
    Nat.mod_eq_of_lt (by rw [Nat.shiftLeft_eq]; omega)
  have hshift₃ : b₃.toNat <<< 24 % 2 ^ 32 = b₃.toNat <<< 24 :=
    Nat.mod_eq_of_lt (by rw [Nat.shiftLeft_eq]; omega)
  have hword : (wordOf b₀ b₁ b₂ b₃).toNat =
      b₀.toNat ||| b₁.toNat <<< 8 ||| b₂.toNat <<< 16 ||| b₃.toNat <<< 24 := by
    simp only [wordOf, UInt32.toNat_or, UInt32.toNat_shiftLeft, UInt8.toNat_toUInt32]
    rw [← hshift₁, ← hshift₂, ← hshift₃]
    rfl
  -- The shifted bytes do not overlap, so each `or` is a sum.
  rw [hword, Nat.or_comm b₀.toNat, ← Nat.shiftLeft_add_eq_or_of_lt h₀ b₁.toNat,
    Nat.or_comm _ (b₂.toNat <<< 16),
    ← Nat.shiftLeft_add_eq_or_of_lt (i := 16) (by rw [Nat.shiftLeft_eq]; omega) b₂.toNat,
    Nat.or_comm _ (b₃.toNat <<< 24),
    ← Nat.shiftLeft_add_eq_or_of_lt (i := 24) (by simp only [Nat.shiftLeft_eq]; omega) b₃.toNat]
  simp only [Nat.shiftLeft_eq]
  omega

/-- A byte of a word is the byte that it was made of. -/
theorem wordByte_wordOf (b₀ b₁ b₂ b₃ : UInt8) : wordByte (wordOf b₀ b₁ b₂ b₃) 0 = b₀ ∧
    wordByte (wordOf b₀ b₁ b₂ b₃) 1 = b₁ ∧ wordByte (wordOf b₀ b₁ b₂ b₃) 2 = b₂ ∧
    wordByte (wordOf b₀ b₁ b₂ b₃) 3 = b₃ := by
  have h₀ := b₀.toNat_lt
  have h₁ := b₁.toNat_lt
  have h₂ := b₂.toNat_lt
  have h₃ := b₃.toNat_lt
  refine ⟨?_, ?_, ?_, ?_⟩
  all_goals
    apply UInt8.toNat_inj.mp
    rw [wordByte, UInt8.toNat_ofNat', toNat_wordOf, Nat.shiftRight_eq_div_pow]
    omega

/-- A word is made of its bytes. -/
theorem wordOf_wordByte (word : UInt32) :
    wordOf (wordByte word 0) (wordByte word 1) (wordByte word 2) (wordByte word 3) = word := by
  have hword := word.toNat_lt
  apply UInt32.toNat_inj.mp
  rw [toNat_wordOf]
  simp only [wordByte, UInt8.toNat_ofNat', Nat.shiftRight_eq_div_pow]
  omega

theorem getElem?_wholeWords (bytes : List UInt8) (k : Nat) (h : 4 * k + 3 < bytes.length) :
    (wholeWords bytes)[k]? =
      some (wordOf bytes[4 * k] bytes[4 * k + 1] bytes[4 * k + 2] bytes[4 * k + 3]) := by
  induction k generalizing bytes with
  | zero =>
    match bytes, h with
    | b₀ :: b₁ :: b₂ :: b₃ :: rest, h => rfl
  | succ k ih =>
    match bytes, h with
    | b₀ :: b₁ :: b₂ :: b₃ :: rest, h =>
      have hrest : 4 * k + 3 < rest.length := by
        simp only [List.length_cons] at h
        omega
      exact ih rest hrest

theorem length_wholeWords (bytes : List UInt8) : (wholeWords bytes).length = bytes.length / 4 := by
  fun_induction wholeWords bytes with
  | case1 b₀ b₁ b₂ b₃ rest ih =>
    simp only [List.length_cons, ih]
    omega
  | case2 bytes hshort =>
    have hlength : bytes.length < 4 := by
      match bytes with
      | [] | [_] | [_, _] | [_, _, _] => simp
      | b₀ :: b₁ :: b₂ :: b₃ :: rest => exact absurd rfl (hshort b₀ b₁ b₂ b₃ rest)
    rw [Nat.div_eq_of_lt hlength, List.length_nil]

/-- Storing the words of a list over a list of the same length leaves the first. -/
theorem storeWords_wholeWords {bytes out : List UInt8} (hbytes : bytes.length % 4 = 0)
    (hout : out.length = bytes.length) : storeWords (wholeWords bytes) out = bytes := by
  fun_induction wholeWords bytes generalizing out with
  | case1 b₀ b₁ b₂ b₃ rest ih =>
    rcases out with _ | ⟨_, _ | ⟨_, _ | ⟨_, _ | ⟨_, out⟩⟩⟩⟩
    · simp at hout
    · simp at hout
    · simp at hout
    · simp at hout
    · simp only [List.length_cons] at hbytes hout
      obtain ⟨h₀, h₁, h₂, h₃⟩ := wordByte_wordOf b₀ b₁ b₂ b₃
      have hrest := @ih out (by omega) (by omega)
      simp [storeWords, wordBytes, h₀, h₁, h₂, h₃, hrest]
  | case2 bytes hshort =>
    rcases bytes with _ | ⟨b₀, _ | ⟨b₁, _ | ⟨b₂, _ | ⟨b₃, rest⟩⟩⟩⟩
    · obtain rfl := List.length_eq_zero_iff.mp hout
      rfl
    · simp at hbytes
    · simp at hbytes
    · simp at hbytes
    · exact absurd rfl (hshort b₀ b₁ b₂ b₃ rest)

namespace Bytes

variable {n : Nat}

theorem toList_words (bytes : Bytes n) : bytes.words.toList = wholeWords bytes.toList := by
  have hlength : (wholeWords bytes.toList).length = n / 4 := by
    rw [length_wholeWords, Vector.length_toList]
  refine List.ext_getElem (by simp [hlength]) fun i hi hi' => ?_
  simp [words, packWords, Array.getD_eq_getD_getElem?, hi']

/-- The words that a register gives out are those of the string it holds. -/
theorem word_eq_getElem (bytes : Bytes n) {k : Nat} (hk : k < n / 4) :
    bytes.word k = bytes.words[k] := by
  have hlength : 4 * k + 3 < n := by omega
  have hlist : 4 * k + 3 < bytes.toList.length := by rwa [Vector.length_toList]
  have hget := getElem?_wholeWords bytes.toList k hlist
  simp [word, hlength, words, packWords, Array.getD_eq_getD_getElem?, hget]

def ofWords (n : Nat) (words : List UInt32) : Bytes n :=
  ofList n (storeWords words (zero n).toList)

theorem ofWords_words (hn : n % 4 = 0) (bytes : Bytes n) : ofWords n bytes.words.toList = bytes := by
  have hstored : storeWords (wholeWords bytes.toList) (zero n).toList = bytes.toList :=
    storeWords_wholeWords (by rwa [Vector.length_toList]) (by simp)
  rw [ofWords, toList_words, hstored]
  refine Vector.ext fun i hi => ?_
  simp [ofList]

/-- The words of a string hold its bytes. -/
theorem wordByte_words (bytes : Bytes n) {k j : Nat} (hk : k < n / 4) (hj : j < 4)
    (h : 4 * k + j < n) : wordByte bytes.words[k] j = bytes[4 * k + j] := by
  have hlength : 4 * k + 3 < bytes.toList.length := by
    rw [Vector.length_toList]
    omega
  have hword : bytes.words[k] = wordOf bytes.toList[4 * k] bytes.toList[4 * k + 1]
      bytes.toList[4 * k + 2] bytes.toList[4 * k + 3] := by
    have hget := getElem?_wholeWords bytes.toList k hlength
    simp [words, packWords, Array.getD_eq_getD_getElem?, hget]
  obtain ⟨h₀, h₁, h₂, h₃⟩ := wordByte_wordOf bytes.toList[4 * k] bytes.toList[4 * k + 1]
    bytes.toList[4 * k + 2] bytes.toList[4 * k + 3]
  rw [hword]
  obtain rfl | rfl | rfl | rfl : j = 0 ∨ j = 1 ∨ j = 2 ∨ j = 3 := by omega
  · simpa using h₀
  · simpa using h₁
  · simpa using h₂
  · simpa using h₃

/-- The first `count` words of one string are those of another. -/
def Agree (count : Nat) (bytes target : Bytes n) : Prop :=
  ∀ i (h : i < n), i < 4 * count → bytes[i] = target[i]

theorem Agree.zero (bytes target : Bytes n) : Agree 0 bytes target := fun i h hi => by omega

/-- One more word is stored. -/
theorem Agree.putWord {count : Nat} {bytes target : Bytes n} (h : Agree count bytes target)
    (hcount : count < n / 4) : Agree (count + 1) (bytes.putWord count target.words[count]) target := by
  intro i hi hlt
  simp only [Bytes.putWord, Vector.getElem_ofFn]
  split
  · next hsame =>
    have hbyte := wordByte_words target hcount (Nat.mod_lt i (by decide)) (by omega)
    rw [hbyte]
    congr 1
    omega
  · next hother => exact h i hi (by omega)

/-- When all words are stored, the strings are the same. -/
theorem Agree.eq {count : Nat} {bytes target : Bytes n} (h : Agree count bytes target)
    (hcount : n ≤ 4 * count) : bytes = target :=
  Vector.ext fun i hi => h i hi (by omega)

end Bytes

end NonceSearch
