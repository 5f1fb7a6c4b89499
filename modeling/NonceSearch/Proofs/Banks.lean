import NonceSearch.Proofs.PackedWords
import NonceSearch.Proofs.CoreSteps

/-!
# Banks of words

What a bank holds is a list of words, whatever register is behind it. A store changes one word of one bank
and nothing past its end, except that the candidate cannot be stored and that the halt flag is kept as zero
or one. A command word selects a bank, or is a control command, or means nothing.
-/

namespace NonceSearch

/-! ### Command words -/

theorem and_not_or_and (word mask : UInt32) : word &&& ~~~mask ||| word &&& mask = word := by
  apply UInt32.eq_of_toBitVec_eq
  ext i hi
  simp only [UInt32.toBitVec_or, UInt32.toBitVec_and, UInt32.toBitVec_not, BitVec.getElem_or,
    BitVec.getElem_and, BitVec.getElem_not]
  rw [← Bool.and_or_distrib_left, Bool.not_or_self, Bool.and_true]

/-- A bit is set, or the word under it is zero. -/
theorem and_selectBit (word : UInt32) :
    word &&& MaskWindow.selectBit = 0 ∨ word &&& MaskWindow.selectBit = MaskWindow.selectBit := by
  have hbit : (word &&& MaskWindow.selectBit).toNat = (word.toNat.testBit 8).toNat * 2 ^ 8 := by
    rw [UInt32.toNat_and]
    exact Nat.and_two_pow word.toNat 8
  cases hset : word.toNat.testBit 8 with
  | false =>
    left
    apply UInt32.toNat_inj.mp
    rw [hbit, hset]
    rfl
  | true =>
    right
    apply UInt32.toNat_inj.mp
    rw [hbit, hset]
    rfl

namespace Command

variable {word other : UInt32} {bank : Bank}

theorem decode_eq_select_iff : decode word = .select bank ↔ word = bank.select := by
  constructor
  · intro h
    unfold decode at h
    split at h
    · cases h
    · next hset =>
      split at h
      · next found hfound =>
        obtain rfl := Command.select.inj h
        have hnumber : found.number = word &&& ~~~MaskWindow.selectBit := by
          simpa using List.find?_some hfound
        have hbit : word &&& MaskWindow.selectBit = MaskWindow.selectBit :=
          (and_selectBit word).resolve_left hset
        calc
          word = word &&& ~~~MaskWindow.selectBit ||| word &&& MaskWindow.selectBit :=
            (and_not_or_and word MaskWindow.selectBit).symm
          _ = found.number ||| MaskWindow.selectBit := by rw [hnumber, hbit]
          _ = found.select := UInt32.or_comm _ _
      · cases h
  · rintro rfl
    exact decode_select bank

theorem decode_eq_control_iff :
    decode word = .control other ↔ other = word ∧ word &&& MaskWindow.selectBit = 0 := by
  constructor
  · intro h
    refine ⟨eq_of_control h, ?_⟩
    unfold decode at h
    split at h
    · assumption
    · split at h
      · cases h
      · cases h
  · rintro ⟨rfl, hclear⟩
    exact if_pos hclear

/-- A word that sets the bit and is no bank's selection means nothing. -/
theorem decode_eq_invalid_iff : decode word = .invalid other ↔
    other = word ∧ word &&& MaskWindow.selectBit ≠ 0 ∧ ∀ bank : Bank, word ≠ bank.select := by
  cases hword : decode word with
  | select bank =>
    rw [decode_eq_select_iff] at hword
    simp [hword]
  | control command =>
    rw [decode_eq_control_iff] at hword
    simp [hword.2]
  | invalid same =>
    have hsame : same = word := by
      unfold decode at hword
      split at hword
      · cases hword
      · split at hword
        · cases hword
        · exact (Command.invalid.inj hword).symm
    have hset : word &&& MaskWindow.selectBit ≠ 0 := by
      intro hclear
      cases hword.symm.trans (decode_eq_control_iff.mpr ⟨rfl, hclear⟩)
    have hbanks : ∀ bank : Bank, word ≠ bank.select := by
      intro bank hbank
      cases hword.symm.trans (decode_eq_select_iff.mpr hbank)
    rw [hsame]
    simp [hset, hbanks, eq_comm]

end Command

/-! ### The words of a bank -/

/-- What is kept of a word that is stored over an old one: nothing in the bank of the candidate, and whether
    it is zero in the bank of the halt flag. -/
def Bank.keep (bank : Bank) (value old : UInt32) : UInt32 :=
  match bank with
  | .nonceCandidate => old
  | .debugEnable => if value = 0 then 0 else 1
  | _ => value

namespace Core

variable {core : Core} {bank other : Bank}

def bankWords (bank : Bank) (core : Core) : List UInt32 :=
  match bank with
  | .stateIn => core.stateIn.words.toList
  | .tail => core.tail.words.toList
  | .mask => core.mask.words.toList
  | .clock => [core.clock]
  | .nonceCandidate => [core.nonceCandidate]
  | .debugEnable => [if core.halted then 0 else 1]

@[simp] theorem length_bankWords (bank : Bank) (core : Core) :
    (core.bankWords bank).length = bank.size := by
  cases bank <;> rfl

theorem getD_words {n : Nat} (bytes : Bytes n) {i : Nat} (hi : i < n / 4) :
    bytes.words.toList.getD i 0 = bytes.word i := by
  rw [List.getD_eq_getElem _ _ (by rwa [Vector.length_toList]), Vector.getElem_toList]
  exact (bytes.word_eq_getElem hi).symm

theorem bankWord_eq (bank : Bank) (i : Nat) (core : Core) :
    core.bankWord bank i = (core.bankWords bank).getD i 0 := by
  unfold bankWord
  split
  · next hi =>
    cases bank with
    | stateIn => exact (getD_words core.stateIn hi).symm
    | tail => exact (getD_words core.tail hi).symm
    | mask => exact (getD_words core.mask hi).symm
    | clock | nonceCandidate | debugEnable =>
      obtain rfl : i = 0 := Nat.lt_one_iff.mp hi
      rfl
  · next hi =>
    rw [List.getD_eq_default]
    rw [length_bankWords]
    exact Nat.le_of_not_lt hi

theorem bankWords_refresh (bank : Bank) (now : Nat) :
    (core.refresh now).bankWords bank = core.bankWords bank := by
  unfold refresh
  split
  · split <;> rfl
  · rfl

/-! ### Storing a word -/

theorem toList_words_putWord {n : Nat} (bytes : Bytes n) {i : Nat} (value : UInt32) (hi : i < n / 4) :
    (bytes.putWord i value).words.toList = bytes.words.toList.modify i fun _ => value := by
  have hwords : (bytes.putWord i value).words = bytes.words.setIfInBounds i value :=
    bytes.packWords_putWord (n / 4) value (by omega)
  rw [hwords, Vector.toList_setIfInBounds, List.set_eq_modify]

/-- A store changes the word at its place, or nothing past the end of the bank. -/
theorem bankWords_putBankWord (bank : Bank) (i : Nat) (value : UInt32) :
    (core.putBankWord bank i value).bankWords bank =
      (core.bankWords bank).modify i (bank.keep value) := by
  unfold putBankWord
  split
  · next hi =>
    cases bank with
    | stateIn => exact toList_words_putWord core.stateIn value hi
    | tail => exact toList_words_putWord core.tail value hi
    | mask => exact toList_words_putWord core.mask value hi
    | clock | nonceCandidate =>
      obtain rfl : i = 0 := Nat.lt_one_iff.mp hi
      rfl
    | debugEnable =>
      obtain rfl : i = 0 := Nat.lt_one_iff.mp hi
      simp [bankWords, setHalted, Bank.keep]
  · next hi =>
    apply (List.modify_eq_self _).symm
    rw [length_bankWords]
    exact Nat.le_of_not_lt hi

theorem bankWords_putBankWord_of_ne (h : other ≠ bank) (i : Nat) (value : UInt32) :
    (core.putBankWord bank i value).bankWords other = core.bankWords other := by
  unfold putBankWord
  split
  -- Banks are registers of their own, so that each pair of them has to be looked at.
  · cases bank <;> cases other <;> first | exact absurd rfl h | simp only [bankWords, setHalted]
  · rfl

end Core

end NonceSearch
