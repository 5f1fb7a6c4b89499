import Mathlib
import NonceSearch.Bytes

/-!
# The numbers that bytes spell

The value of a string is below 256 to the power of its length in either reading (`leNat_lt`,
`beNat_lt`), and reversing the string swaps the two readings (`leNat_eq_beNat_reverse`). The bytes that
are made of a number spell it again, as far as they go (`Bytes.toNatLE_ofNatLE`).
-/

namespace NonceSearch

/-- Reading on from a start value weighs that value by the bytes that follow. -/
theorem foldl_beNat (bytes : List UInt8) (start : Nat) :
    bytes.foldl (fun value byte => value * 256 + byte.toNat) start =
      start * 256 ^ bytes.length + beNat bytes := by
  induction bytes generalizing start with
  | nil => simp [beNat]
  | cons byte rest ih =>
    have head : beNat (byte :: rest) = (0 * 256 + byte.toNat) * 256 ^ rest.length + beNat rest :=
      ih (0 * 256 + byte.toNat)
    rw [List.foldl_cons, ih, head, List.length_cons, Nat.pow_succ]
    simp only [Nat.zero_mul, Nat.zero_add, Nat.add_mul]
    rw [Nat.mul_assoc, Nat.mul_comm 256, Nat.add_assoc]

theorem beNat_append (front back : List UInt8) :
    beNat (front ++ back) = beNat front * 256 ^ back.length + beNat back := by
  rw [beNat, List.foldl_append, foldl_beNat]
  rfl

/-- Reading from the least significant end is reading the reversed string from the other. -/
theorem leNat_eq_beNat_reverse (bytes : List UInt8) : leNat bytes = beNat bytes.reverse := by
  induction bytes with
  | nil => rfl
  | cons byte rest ih =>
    rw [List.reverse_cons, beNat_append, leNat, ih]
    simp [beNat]
    omega

theorem leNat_lt (bytes : List UInt8) : leNat bytes < 256 ^ bytes.length := by
  induction bytes with
  | nil => simp [leNat]
  | cons byte rest ih =>
    have := byte.toNat_lt
    rw [leNat, List.length_cons, Nat.pow_succ]
    omega

theorem beNat_lt (bytes : List UInt8) : beNat bytes < 256 ^ bytes.length := by
  have := leNat_lt bytes.reverse
  rwa [leNat_eq_beNat_reverse, List.reverse_reverse, List.length_reverse] at this

namespace Bytes

theorem toNatLE_lt {n : Nat} (bytes : Bytes n) : bytes.toNatLE < 256 ^ n := by
  have := leNat_lt bytes.toList
  rwa [Vector.length_toList] at this

theorem toNatBE_lt {n : Nat} (bytes : Bytes n) : bytes.toNatBE < 256 ^ n := by
  have := beNat_lt bytes.toList
  rwa [Vector.length_toList] at this

theorem toNatBE_reverse {n : Nat} (bytes : Bytes n) : toNatBE bytes.reverse = bytes.toNatLE := by
  rw [toNatBE, toNatLE, leNat_eq_beNat_reverse, Vector.toList_reverse]

/-- The low bytes of a number spell its remainder. -/
theorem toNatLE_ofNatLE (n value : Nat) : (ofNatLE n value).toNatLE = value % 256 ^ n := by
  rw [toNatLE, ofNatLE, Vector.toList_ofFn]
  induction n generalizing value with
  | zero => exact (Nat.mod_one value).symm
  | succ n ih =>
    have hrest : (List.ofFn fun i : Fin n => UInt8.ofNat (value >>> (8 * i.succ.val))) =
        List.ofFn fun i : Fin n => UInt8.ofNat ((value / 256) >>> (8 * i.val)) := by
      congr 1
      funext i
      rw [Fin.val_succ, Nat.mul_succ, Nat.add_comm, Nat.shiftRight_add, Nat.shiftRight_eq_div_pow value]
    rw [List.ofFn_succ, leNat, hrest, ih, Nat.pow_succ', Nat.mod_mul, UInt8.toNat_ofNat']
    rfl

theorem toList_ofList {n : Nat} {bytes : List UInt8} (h : bytes.length = n) :
    (ofList n bytes).toList = bytes := by
  subst h
  rw [ofList, Vector.toList_ofFn]
  refine List.ext_getElem (by rw [List.length_ofFn]) fun i hi hi' => ?_
  rw [List.getElem_ofFn, List.getD_eq_getElem _ _ hi']

end Bytes

end NonceSearch
