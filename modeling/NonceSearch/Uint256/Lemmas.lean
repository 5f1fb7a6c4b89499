import Mathlib
import NonceSearch.Bytes.Lemmas
import NonceSearch.Uint256

/-!
# Numbers and their bits

A bit length is an exponent of two (`bitLength_le_iff`), and a 32-byte string is read as a number
without losing a bit (`toNat_ofBytesLE`, `toNat_ofBytesBE`).
-/

namespace NonceSearch

/-- A bit length is the least exponent whose power of two exceeds the number. -/
theorem bitLength_le_iff (value k : Nat) : bitLength value ≤ k ↔ value < 2 ^ k := by
  unfold bitLength
  split
  · next h => subst h; simp
  · next h => rw [← Nat.log2_lt h]; omega

namespace Uint256

/-- Reading a string as a number never loses a bit. -/
theorem toNat_ofBytesLE (bytes : Bytes 32) : (ofBytesLE bytes).toNat = bytes.toNatLE := by
  have := bytes.toNatLE_lt
  simp only [ofBytesLE, BitVec.toNat_ofNat]
  exact Nat.mod_eq_of_lt (by simpa using this)

theorem toNat_ofBytesBE (bytes : Bytes 32) : (ofBytesBE bytes).toNat = bytes.toNatBE := by
  have := bytes.toNatBE_lt
  simp only [ofBytesBE, BitVec.toNat_ofNat]
  exact Nat.mod_eq_of_lt (by simpa using this)

end Uint256

end NonceSearch
