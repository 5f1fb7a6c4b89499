import NonceSearch.Bytes.Lemmas
import NonceSearch.Proofs.WordStores

/-!
# Packing and storing words

Packing takes the whole words of a byte string, as many as are asked for, and fills up with zeros. Storing
goes the other way and writes over a string for as long as there is room for a whole word. Lengths need not
match in either direction, and where they do, each undoes the other (`packing_and_storing_are_inverse`).
-/

namespace NonceSearch

/-! ### Single words -/

theorem toNat_wordOf_eq_leNat (b₀ b₁ b₂ b₃ : UInt8) :
    (wordOf b₀ b₁ b₂ b₃).toNat = leNat [b₀, b₁, b₂, b₃] := by
  rw [toNat_wordOf]
  simp only [leNat, Nat.mul_zero, Nat.add_zero]

theorem leNat_wordBytes (word : UInt32) : leNat (wordBytes word) = word.toNat := by
  rw [wordBytes, ← toNat_wordOf_eq_leNat, wordOf_wordByte]

@[simp] theorem length_wordBytes (word : UInt32) : (wordBytes word).length = 4 := rfl

/-! ### Packing -/

theorem take_four_drop {bytes : List UInt8} {k : Nat} (h : k + 3 < bytes.length) :
    (bytes.drop k).take 4 = [bytes[k], bytes[k + 1], bytes[k + 2], bytes[k + 3]] := by
  rw [List.drop_eq_getElem_cons (by omega), List.drop_eq_getElem_cons (by omega),
    List.drop_eq_getElem_cons (by omega), List.drop_eq_getElem_cons h]
  rfl

theorem packWords_eq_getD {width i : Nat} (bytes : List UInt8) (hi : i < width) :
    (packWords width bytes)[i] = (wholeWords bytes).getD i 0 := by
  simp [packWords, Array.getD_eq_getD_getElem?]

/-- A word that the string holds whole is the number that its four bytes spell, and any other is zero. -/
theorem toNat_packWords {width i : Nat} (bytes : List UInt8) (hi : i < width) :
    (packWords width bytes)[i].toNat =
      if 4 * i + 4 ≤ bytes.length then leNat ((bytes.drop (4 * i)).take 4) else 0 := by
  rw [packWords_eq_getD]
  split
  · next hwhole =>
    have hlast : 4 * i + 3 < bytes.length := hwhole
    rw [List.getD_eq_getElem?_getD, getElem?_wholeWords bytes i hlast, take_four_drop hlast]
    exact toNat_wordOf_eq_leNat _ _ _ _
  · next hshort =>
    have hnone : (wholeWords bytes).length ≤ i := by
      rw [length_wholeWords]
      omega
    rw [List.getD_eq_default _ _ hnone]
    rfl

/-- As many words as are asked for, filled up with zeros, are those of the list and zeros past its end. -/
theorem getElem_take_append_replicate (words : List UInt32) {count i : Nat}
    (hi : i < (words.take count ++ List.replicate (count - words.length) 0).length) :
    (words.take count ++ List.replicate (count - words.length) 0)[i] = words.getD i 0 := by
  rw [List.getElem_append]
  split
  · next hheld =>
    rw [List.length_take] at hheld
    rw [List.getElem_take, List.getD_eq_getElem]
  · next hpast =>
    rw [List.length_append, List.length_replicate] at hi
    rw [List.length_take] at hi hpast
    rw [List.getElem_replicate, List.getD_eq_default]
    omega

theorem toList_packWords (width : Nat) (bytes : List UInt8) : (packWords width bytes).toList =
    (wholeWords bytes).take width ++ List.replicate (width - (wholeWords bytes).length) 0 := by
  apply List.ext_getElem
  · simp only [Vector.length_toList, List.length_append, List.length_take, List.length_replicate]
    omega
  · intro i hi hi'
    rw [Vector.length_toList] at hi
    rw [Vector.getElem_toList, packWords_eq_getD bytes hi, getElem_take_append_replicate]

/-! ### Storing -/

/-- Stored words take the place of the bytes in front, and the rest stays. -/
theorem storeWords_eq (words : List UInt32) (out : List UInt8) : storeWords words out =
    (words.take (min words.length (out.length / 4))).flatMap wordBytes ++
      out.drop (4 * min words.length (out.length / 4)) := by
  fun_induction storeWords words out with
  | case1 word words b₀ b₁ b₂ b₃ rest ih =>
    have hcount : min (words.length + 1) ((rest.length + 4) / 4) =
        min words.length (rest.length / 4) + 1 := by omega
    simp only [List.length_cons, hcount, ih, List.take_succ_cons, List.flatMap_cons,
      List.append_assoc, Nat.mul_succ]
    rfl
  | case2 words out hshort =>
    have hnone : min words.length (out.length / 4) = 0 := by
      rcases words with _ | ⟨word, words⟩
      · exact Nat.zero_min _
      · have hlength : out.length < 4 := by
          rcases out with _ | ⟨b₀, _ | ⟨b₁, _ | ⟨b₂, _ | ⟨b₃, rest⟩⟩⟩⟩
          · simp
          · simp
          · simp
          · simp
          · exact absurd rfl (hshort word words b₀ b₁ b₂ b₃ rest rfl)
        rw [Nat.div_eq_of_lt hlength, Nat.min_zero]
    simp [hnone]

theorem storeWords_of_le {words : List UInt32} {out : List UInt8} (h : 4 * words.length ≤ out.length) :
    storeWords words out = words.flatMap wordBytes ++ out.drop (4 * words.length) := by
  have hall : min words.length (out.length / 4) = words.length := by omega
  rw [storeWords_eq, hall, List.take_length]

theorem wholeWords_wordBytes (word : UInt32) (rest : List UInt8) :
    wholeWords (wordBytes word ++ rest) = word :: wholeWords rest := by
  change wordOf _ _ _ _ :: wholeWords rest = _
  rw [wordOf_wordByte]

theorem wholeWords_flatMap (words : List UInt32) (rest : List UInt8) :
    wholeWords (words.flatMap wordBytes ++ rest) = words ++ wholeWords rest := by
  induction words with
  | nil => rfl
  | cons word words ih =>
    rw [List.flatMap_cons, List.append_assoc, wholeWords_wordBytes, ih, List.cons_append]

/-- What was packed is stored again, over whatever was there. -/
theorem storeWords_packWords {width : Nat} {bytes out : List UInt8} (hbytes : bytes.length = 4 * width)
    (hout : 4 * width ≤ out.length) :
    storeWords (packWords width bytes).toList out = bytes ++ out.drop (4 * width) := by
  have hcount : (wholeWords bytes).length = width := by
    rw [length_wholeWords]
    omega
  have hwords : (packWords width bytes).toList = wholeWords bytes := by
    rw [toList_packWords, hcount, Nat.sub_self, List.replicate_zero, List.append_nil]
    exact List.take_of_length_le (Nat.le_of_eq hcount)
  have hsame : storeWords (wholeWords bytes) bytes = bytes :=
    storeWords_wholeWords (by omega) rfl
  rw [storeWords_of_le (by omega), hcount, List.drop_of_length_le (by omega), List.append_nil] at hsame
  rw [hwords, storeWords_of_le (by omega), hcount, hsame]

/-- What was stored is packed again, whatever comes behind it. -/
theorem packWords_storeWords {width : Nat} (words : Vector UInt32 width) {out : List UInt8}
    (hout : 4 * width ≤ out.length) : packWords width (storeWords words.toList out) = words := by
  have hlength : words.toList.length = width := Vector.length_toList
  rw [storeWords_of_le (by omega)]
  apply Vector.toList_inj.mp
  rw [toList_packWords, wholeWords_flatMap, List.take_left' hlength, List.length_append, hlength,
    Nat.sub_eq_zero_of_le (Nat.le_add_right _ _), List.replicate_zero, List.append_nil]

/-! ### One word of a string -/

theorem getElem_wordBytes (word : UInt32) {j : Nat} (h : j < (wordBytes word).length) :
    (wordBytes word)[j] = wordByte word j := by
  rw [length_wordBytes] at h
  obtain rfl | rfl | rfl | rfl : j = 0 ∨ j = 1 ∨ j = 2 ∨ j = 3 := by omega
  · rfl
  · rfl
  · rfl
  · rfl

namespace Bytes

variable {n : Nat}

theorem getElem_putWord (bytes : Bytes n) (index : Nat) (value : UInt32) {i : Nat} (h : i < n) :
    (bytes.putWord index value)[i] =
      if i / 4 = index then wordByte value (i % 4) else bytes[i] := by
  simp [putWord]

/-- A word is put into a string by being stored over the four bytes in its place. -/
theorem toList_putWord (bytes : Bytes n) {index : Nat} (value : UInt32) (h : 4 * index + 4 ≤ n) :
    (bytes.putWord index value).toList = bytes.toList.take (4 * index) ++
      (storeWords [value] ((bytes.toList.drop (4 * index)).take 4) ++
        bytes.toList.drop (4 * index + 4)) := by
  have hplace : ((bytes.toList.drop (4 * index)).take 4).length = 4 := by
    rw [List.length_take, List.length_drop, Vector.length_toList]
    omega
  have hstored : storeWords [value] ((bytes.toList.drop (4 * index)).take 4) = wordBytes value := by
    rw [storeWords_of_le (by rw [hplace]; rfl), List.drop_of_length_le (by rw [hplace]; rfl)]
    exact List.append_nil _
  have hfront : (bytes.toList.take (4 * index)).length = 4 * index := by
    rw [List.length_take, Vector.length_toList]
    omega
  rw [hstored]
  apply List.ext_getElem
  · simp only [Vector.length_toList, List.length_append, List.length_drop, hfront, length_wordBytes]
    omega
  · intro i hi hi'
    rw [Vector.length_toList] at hi
    rw [Vector.getElem_toList, getElem_putWord bytes index value hi, List.getElem_append]
    split
    · next hin =>
      split
      · omega
      · next hfrom =>
        rw [List.getElem_append_left (by rw [length_wordBytes]; omega), getElem_wordBytes]
        congr 1
        omega
    · next hout =>
      split
      · rw [List.getElem_take, Vector.getElem_toList]
      · next hfrom =>
        rw [List.getElem_append_right (by rw [length_wordBytes]; omega), List.getElem_drop,
          Vector.getElem_toList]
        congr 1
        rw [length_wordBytes]
        omega

/-- The words of a register are those that its string is packed into. -/
theorem getElem_packWords_toList (bytes : Bytes n) {width i : Nat} (hi : i < width) :
    (packWords width bytes.toList)[i] = bytes.word i := by
  rw [packWords_eq_getD _ hi, word]
  split
  · next hwhole =>
    have hlist : 4 * i + 3 < bytes.toList.length := by rwa [Vector.length_toList]
    rw [List.getD_eq_getElem?_getD, getElem?_wholeWords _ i hlist]
    rfl
  · next hshort =>
    apply List.getD_eq_default
    rw [length_wholeWords, Vector.length_toList]
    omega

theorem word_putWord (bytes : Bytes n) {index : Nat} (value : UInt32) (h : 4 * index + 4 ≤ n) (i : Nat) :
    (bytes.putWord index value).word i = if i = index then value else bytes.word i := by
  unfold word
  simp only [getElem_putWord]
  have hplace : ∀ j, j < 4 → (4 * i + j) / 4 = i ∧ (4 * i + j) % 4 = j := by
    intro j hj
    omega
  have hfirst : 4 * i / 4 = i ∧ 4 * i % 4 = 0 := hplace 0 (by decide)
  obtain ⟨hdiv₁, hmod₁⟩ := hplace 1 (by decide)
  obtain ⟨hdiv₂, hmod₂⟩ := hplace 2 (by decide)
  obtain ⟨hdiv₃, hmod₃⟩ := hplace 3 (by decide)
  simp only [hfirst.1, hfirst.2, hdiv₁, hmod₁, hdiv₂, hmod₂, hdiv₃, hmod₃]
  by_cases hindex : i = index
  · have hwhole : 4 * i + 3 < n := by omega
    simp only [hindex, if_true]
    rw [dif_pos (by omega), wordOf_wordByte]
  · simp only [hindex, if_false]

/-- Of the words that a string is packed into, only the one that was put in changes. -/
theorem packWords_putWord (bytes : Bytes n) {index : Nat} (width : Nat) (value : UInt32)
    (h : 4 * index + 4 ≤ n) : packWords width (bytes.putWord index value).toList =
      (packWords width bytes.toList).setIfInBounds index value := by
  apply Vector.ext
  intro i hi
  rw [getElem_packWords_toList _ hi, word_putWord bytes value h, Vector.getElem_setIfInBounds,
    getElem_packWords_toList _ hi]
  simp only [eq_comm]

end Bytes

/-! ### Both directions -/

/-- Packing gives each word that the string holds whole, least significant byte first, and zero for any
    other. Storing overwrites as many words as there are and as there is room for, and nothing else. So
    what was packed is stored again, and what was stored is packed again. Putting one word into a string
    stores it over four bytes, and changes that one word of what the string is packed into. -/
theorem packing_and_storing_are_inverse (width : Nat) :
    (∀ (bytes : List UInt8) (i : Nat) (hi : i < width), (packWords width bytes)[i].toNat =
      if 4 * i + 4 ≤ bytes.length then leNat ((bytes.drop (4 * i)).take 4) else 0) ∧
    (∀ word, (wordBytes word).length = 4 ∧ leNat (wordBytes word) = word.toNat) ∧
    (∀ (words : List UInt32) (out : List UInt8),
      let stored := min words.length (out.length / 4)
      storeWords words out = (words.take stored).flatMap wordBytes ++ out.drop (4 * stored)) ∧
    (∀ bytes out : List UInt8, bytes.length = 4 * width → 4 * width ≤ out.length →
      storeWords (packWords width bytes).toList out = bytes ++ out.drop (4 * width)) ∧
    (∀ (words : Vector UInt32 width) (out : List UInt8), 4 * width ≤ out.length →
      packWords width (storeWords words.toList out) = words) ∧
    ∀ (n : Nat) (bytes : Bytes n) (index : Nat) (value : UInt32), 4 * index + 4 ≤ n →
      (bytes.putWord index value).toList = bytes.toList.take (4 * index) ++
        (storeWords [value] ((bytes.toList.drop (4 * index)).take 4) ++
          bytes.toList.drop (4 * index + 4)) ∧
      packWords width (bytes.putWord index value).toList =
        (packWords width bytes.toList).setIfInBounds index value := by
  refine ⟨?_, ?_, storeWords_eq, ?_, ?_, ?_⟩
  · intro bytes i hi
    exact toNat_packWords bytes hi
  · intro word
    exact ⟨length_wordBytes word, leNat_wordBytes word⟩
  · intro bytes out hbytes hout
    exact storeWords_packWords hbytes hout
  · intro words out hout
    exact packWords_storeWords words hout
  · intro n bytes index value h
    exact ⟨bytes.toList_putWord value h, bytes.packWords_putWord width value h⟩

/-- Twelve bytes go through three words into thirteen, the last of which stays. The second of the words
    is put into a string on its own. -/
theorem twelve_bytes_go_through_three_words :
    let bytes : Bytes 12 := #v[0, 1, 2, 3, 4, 5, 6, 7, 8, 9, 10, 11]
    let out : List UInt8 := List.replicate 13 0xee
    (packWords 3 bytes.toList)[1].toNat = 0x07060504 ∧
    storeWords (packWords 3 bytes.toList).toList out = bytes.toList ++ [0xee] ∧
    packWords 3 (storeWords [1, 2, 0xffffffff] out) = #v[1, 2, 0xffffffff] ∧
    packWords 3 (bytes.putWord 1 7).toList = #v[0x03020100, 7, 0x0b0a0908] := by
  intro bytes out
  obtain ⟨hpacked, -, -, hstored, hwords, hput⟩ := packing_and_storing_are_inverse 3
  refine ⟨hpacked bytes.toList 1 (by decide), hstored bytes.toList out rfl (by decide),
    hwords #v[1, 2, 0xffffffff] out (by decide), ?_⟩
  obtain ⟨-, hword⟩ := hput 12 bytes 1 7 (by decide)
  exact hword.trans (by decide)

end NonceSearch
