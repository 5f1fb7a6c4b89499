import NonceSearch.Proofs.SearchVerdict
import NonceSearch.Proofs.TargetMasks

/-!
# The comparators of the two layouts

A count of leading zeros is one byte, and so it says 255 where a mask has all of its 256 bits. Only the
masks of the targets zero and one are that long: for every other target the two layouts compare with
the same mask, and for these two the count lets one more digest pass, the one whose value is one
(`WorkItem.comparator_count_accepts`).
-/

namespace NonceSearch

/-! ### The longest masks -/

namespace DifficultyMask

/-- Under 255 bits there is room for the values zero and one, -/
theorem acceptsDigest_255 (digest : Bytes 32) :
    (ofLeadingZeros 255).acceptsDigest digest = true ↔ digest.toNatLE ≤ 1 :=
  (acceptsDigest_iff digest).trans Nat.lt_succ_iff

/-- and under 256 for zero only. -/
theorem acceptsDigest_256 (digest : Bytes 32) :
    (ofLeadingZeros 256).acceptsDigest digest = true ↔ digest.toNatLE = 0 :=
  (acceptsDigest_iff digest).trans Nat.lt_one_iff

/-- A count of 255 at most is carried as it is. -/
theorem ofLeadingZeros_zeroCount {mask : DifficultyMask} (h : mask.leadingOnes ≤ 255) :
    ofLeadingZeros mask.zeroCount.toNat = mask := by
  obtain ⟨ones, hones⟩ := mask
  have hcount : (UInt8.ofNat (min ones 255)).toNat = ones := by
    rw [UInt8.toNat_ofNat']
    simp only at h
    omega
  simp only [zeroCount, hcount, ofLeadingZeros, Nat.min_eq_left hones]

end DifficultyMask

/-! ### Targets -/

namespace WorkItem

variable {work : WorkItem}

theorem leadingOnes_le (h : 1 < work.target) : work.mask.leadingOnes ≤ 255 := by
  have hpower : 0 < Nat.clog 2 work.target.toNat := Nat.clog_pos (by decide) h
  rw [mask, DifficultyMask.leadingOnes_ofTarget]
  omega

/-- Nothing but zero is below one, and nothing at all below zero. -/
theorem mask_of_target_le_one (h : work.target ≤ 1) : work.mask = .ofLeadingZeros 256 := by
  obtain htarget | htarget : work.target = 0 ∨ work.target = 1 := by
    have hsmall : work.target.toNat ≤ 1 := h
    rcases Nat.le_one_iff_eq_zero_or_eq_one.mp hsmall with hzero | hone
    · exact .inl (BitVec.eq_of_toNat_eq hzero)
    · exact .inr (BitVec.eq_of_toNat_eq hone)
  · rw [mask, htarget]
    decide
  · rw [mask, htarget]
    decide

/-- For a target above one the layouts compare with the same mask. -/
theorem comparator_eq (h : 1 < work.target) : work.comparator .count = work.comparator .mask :=
  congrArg DifficultyMask.bytes (DifficultyMask.ofLeadingZeros_zeroCount (leadingOnes_le h))

/-- The count lets one digest more pass, the one whose value is one, if the target is zero or one. -/
theorem comparator_count_accepts (work : WorkItem) (digest : Bytes 32) :
    digestClearUnder (work.comparator .count) digest = true ↔
      digestClearUnder (work.comparator .mask) digest = true ∨
        work.target ≤ 1 ∧ digest.toNatLE = 1 := by
  by_cases htarget : 1 < work.target
  · have hlarge : ¬ work.target ≤ 1 := BitVec.not_le.mpr htarget
    rw [comparator_eq htarget, or_iff_left fun hsmall => hlarge hsmall.1]
  · have hsmall : work.target ≤ 1 := BitVec.not_lt.mp htarget
    have hmask := mask_of_target_le_one hsmall
    have hfull : digestClearUnder (work.comparator .mask) digest = true ↔ digest.toNatLE = 0 := by
      rw [comparator, hmask]
      exact DifficultyMask.acceptsDigest_256 digest
    have hcount : digestClearUnder (work.comparator .count) digest = true ↔ digest.toNatLE ≤ 1 := by
      have hsaturated : (DifficultyMask.ofLeadingZeros 256).zeroCount.toNat = 255 := by decide
      rw [comparator, hmask, hsaturated]
      exact DifficultyMask.acceptsDigest_255 digest
    rw [hfull, hcount]
    simp only [hsmall, true_and]
    omega

end WorkItem

end NonceSearch
