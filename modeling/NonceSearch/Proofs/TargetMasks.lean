import NonceSearch.Core.Basic
import NonceSearch.Proofs.HonestScan

/-!
# What the mask of a target lets pass

A mask asks for zero bits at the most significant end of a number, and so it compares the number with a
power of two (`DifficultyMask.acceptsDigest_iff`). The mask of a target compares with the least power of
two that is not below the target (`DifficultyMask.leadingOnes_ofTarget`): no digest that meets the target
is lost, no stricter mask has that property, and what passes without need lies between the target and
that power (`DifficultyMask.ofTarget_sound_and_tightest`).
-/

namespace NonceSearch

/-! ### Bits at the most significant end -/

/-- A number of several bytes is below a power of two if its first byte and the others are. -/
theorem lt_two_pow_iff {first rest length count : Nat} (hcount : count ≤ 8 * (length + 1))
    (hrest : rest < 256 ^ length) :
    first * 256 ^ length + rest < 2 ^ (8 * (length + 1) - count) ↔
      first < 2 ^ (8 - count) ∧ rest < 2 ^ (8 * length - (count - 8)) := by
  have hpow : 256 ^ length = 2 ^ (8 * length) := (Nat.pow_mul 2 8 length).symm
  rw [hpow] at hrest ⊢
  -- More than eight bits take in the whole first byte; fewer leave the others free.
  rcases Nat.lt_or_ge 8 count with hlong | hshort
  · have hexponent : 8 * (length + 1) - count = 8 * length - (count - 8) := by omega
    have hnone : 8 - count = 0 := by omega
    have hle : 2 ^ (8 * length - (count - 8)) ≤ 2 ^ (8 * length) :=
      Nat.pow_le_pow_right (by decide) (Nat.sub_le _ _)
    rw [hexponent, hnone, Nat.pow_zero, Nat.lt_one_iff]
    constructor
    · intro h
      have hzero : first = 0 := by
        rcases Nat.eq_zero_or_pos first with hzero | hpos
        · exact hzero
        · have hlarge := Nat.le_mul_of_pos_left (2 ^ (8 * length)) hpos
          omega
      refine ⟨hzero, ?_⟩
      rwa [hzero, Nat.zero_mul, Nat.zero_add] at h
    · rintro ⟨rfl, h⟩
      rwa [Nat.zero_mul, Nat.zero_add]
  · have hexponent : 8 * (length + 1) - count = 8 - count + 8 * length := by omega
    have hnone : count - 8 = 0 := by omega
    rw [hexponent, Nat.pow_add, hnone, Nat.sub_zero]
    constructor
    · intro h
      exact ⟨Nat.lt_of_mul_lt_mul_right (Nat.lt_of_le_of_lt (Nat.le_add_right _ _) h), hrest⟩
    · rintro ⟨hfirst, -⟩
      calc first * 2 ^ (8 * length) + rest < (first + 1) * 2 ^ (8 * length) := by
            rw [Nat.succ_mul first]
            exact Nat.add_lt_add_left hrest _
        _ ≤ 2 ^ (8 - count) * 2 ^ (8 * length) := Nat.mul_le_mul_right _ hfirst

namespace DifficultyMask

/-! ### What a mask compares with -/

/-- The top bits of a byte are zero if the byte is below a power of two, -/
theorem clear_under_leadingByte (count : Nat) (byte : UInt8) :
    leadingByte count &&& byte = 0 ↔ byte.toNat < 2 ^ (8 - count) := by
  -- The nine counts that matter are tried with every byte.
  have hall : ∀ count < 9, ∀ byte < 256,
      (0xff00 >>> count) % 256 &&& byte = 0 ↔ byte < 2 ^ (8 - count) := by
    decide +kernel
  have hbits : 8 - count = 8 - min count 8 := by omega
  rw [hbits, ← UInt8.toNat_inj, UInt8.toNat_and, leadingByte, UInt8.toNat_ofNat']
  exact hall _ (by omega) _ byte.toNat_lt

/-- and those of a string if the number is that it spells. -/
theorem clear_under_leadingBytes {count : Nat} (bytes : List UInt8)
    (hcount : count ≤ 8 * bytes.length) :
    (∀ i (h : i < bytes.length), leadingByte (count - 8 * i) &&& bytes[i] = 0) ↔
      beNat bytes < 2 ^ (8 * bytes.length - count) := by
  induction bytes generalizing count with
  | nil => simp [beNat]
  | cons byte rest ih =>
    have hvalue : beNat (byte :: rest) = byte.toNat * 256 ^ rest.length + beNat rest := by
      have happend := beNat_append [byte] rest
      simpa [beNat] using happend
    have hlater : ∀ i, count - 8 * (i + 1) = count - 8 - 8 * i := by
      intro i
      omega
    rw [List.length_cons] at hcount
    simp only [List.length_cons, Nat.forall_lt_succ_left', List.getElem_cons_zero,
      List.getElem_cons_succ, hlater]
    rw [ih (by omega), Nat.mul_zero, Nat.sub_zero, clear_under_leadingByte, hvalue,
      lt_two_pow_iff hcount (beNat_lt rest)]

variable {mask : DifficultyMask} {target : Uint256}

/-- A mask accepts the numbers below a power of two. -/
theorem accepts_iff (value : Bytes 32) :
    mask.accepts value = true ↔ value.toNatBE < 2 ^ (256 - mask.leadingOnes) := by
  have hlength : value.toList.length = 32 := value.length_toList
  have hcount : mask.leadingOnes ≤ 8 * value.toList.length := by
    rw [hlength]
    exact mask.leadingOnes_le
  have hclear := clear_under_leadingBytes value.toList hcount
  rw [accepts, clearUnder, Nat.all_eq_finRange_all, List.all_eq_true]
  simp only [hlength, Vector.getElem_toList] at hclear
  rw [Bytes.toNatBE, ← hclear]
  simp [bytes, Fin.forall_iff]

theorem accepts_reverse (digest : Bytes 32) :
    mask.accepts digest.reverse = mask.acceptsDigest digest := by
  simp only [accepts, acceptsDigest, clearUnder, digestClearUnder, Vector.getElem_reverse]

/-- A digest is accepted if its value is below that power. -/
theorem acceptsDigest_iff (digest : Bytes 32) :
    mask.acceptsDigest digest = true ↔ digest.toNatLE < 2 ^ (256 - mask.leadingOnes) := by
  rw [← accepts_reverse, accepts_iff, Bytes.toNatBE_reverse]

/-! ### The masks of targets -/

/-- The mask of a target compares with the least power of two that is not below it. -/
theorem leadingOnes_ofTarget (target : Uint256) :
    (ofTarget target).leadingOnes = 256 - Nat.clog 2 target.toNat := by
  -- Both are the least exponent whose power is not below the target, which for zero is zero.
  have hlength : bitLength (target.toNat - 1) = Nat.clog 2 target.toNat := by
    refine eq_of_forall_ge_iff fun exponent => ?_
    have hpos := Nat.two_pow_pos exponent
    rw [bitLength_le_iff, Nat.clog_le_iff_le_pow (by decide)]
    omega
  unfold ofTarget Uint256.sub?
  by_cases hle : (1 : Uint256) ≤ target
  · rw [if_pos hle]
    have hgreatest : (target - 1).toNat = target.toNat - 1 := BitVec.toNat_sub_of_le hle
    simp only [ofLeadingZeros, Uint256.leadingZeros, hgreatest, hlength]
    exact Nat.min_eq_left (Nat.sub_le _ _)
  · rw [if_neg hle]
    have hzero : target.toNat = 0 := Nat.lt_one_iff.mp (Nat.lt_of_not_le hle)
    rw [hzero, Nat.clog_zero_right]
    rfl

theorem clog_target_le (target : Uint256) : Nat.clog 2 target.toNat ≤ 256 :=
  Nat.clog_le_of_le_pow (Nat.le_of_lt target.isLt)

theorem ofTarget_accepts_iff (digest : Bytes 32) :
    (ofTarget target).acceptsDigest digest = true ↔
      digest.toNatLE < 2 ^ Nat.clog 2 target.toNat := by
  have hle := clog_target_le target
  have hexponent : 256 - (256 - Nat.clog 2 target.toNat) = Nat.clog 2 target.toNat := by omega
  rw [acceptsDigest_iff, leadingOnes_ofTarget, hexponent]

/-- A mask with fewer ones accepts more. -/
theorem acceptsDigest_of_le {looser : DifficultyMask} (h : looser.leadingOnes ≤ mask.leadingOnes)
    {digest : Bytes 32} (haccepts : mask.acceptsDigest digest = true) :
    looser.acceptsDigest digest = true := by
  rw [acceptsDigest_iff] at haccepts ⊢
  exact Nat.lt_of_lt_of_le haccepts (Nat.pow_le_pow_right (by decide) (Nat.sub_le_sub_left h 256))

/-- A count in one byte never stands for more ones than the mask has. -/
theorem zeroCount_le (mask : DifficultyMask) :
    (ofLeadingZeros mask.zeroCount.toNat).leadingOnes ≤ mask.leadingOnes := by
  simp only [ofLeadingZeros, zeroCount, UInt8.toNat_ofNat']
  omega

/-- A stricter mask loses the greatest digest that meets the target. -/
theorem rejects_of_stricter {stricter : DifficultyMask}
    (h : (ofTarget target).leadingOnes < stricter.leadingOnes) :
    ∃ digest : Bytes 32, digest.toNatLE < target.toNat ∧ stricter.acceptsDigest digest = false := by
  have hmost := stricter.leadingOnes_le
  rw [leadingOnes_ofTarget] at h
  have hless : 2 ^ (256 - stricter.leadingOnes) < target.toNat :=
    (Nat.lt_clog_iff_pow_lt (by decide)).mp (by omega)
  have hvalue : (Bytes.ofNatLE 32 (target.toNat - 1)).toNatLE = target.toNat - 1 := by
    rw [Bytes.toNatLE_ofNatLE]
    exact Nat.mod_eq_of_lt (Nat.lt_of_le_of_lt (Nat.sub_le _ _) target.isLt)
  refine ⟨Bytes.ofNatLE 32 (target.toNat - 1), ?_, Bool.eq_false_iff.mpr fun haccepts => ?_⟩
  · rw [hvalue]
    exact Nat.sub_lt (Nat.zero_lt_of_lt hless) Nat.one_pos
  · rw [acceptsDigest_iff, hvalue] at haccepts
    omega

/-! ### Masks painted in place -/

/-- The bytes of a mask painted in place: first the whole bytes of ones, then the byte in which the ones
    end. There is no mask if one of these bytes is out of range, or if the last one is shifted by its
    whole width. -/
def paint? (ones : Nat) : Option (Bytes 32) :=
  if ones / 8 ≤ 32 then
    let whole : Bytes 32 := Vector.ofFn fun i => if i.val < ones / 8 then 0xff else 0
    if ones % 8 = 0 then some whole
    else if h : ones / 8 < 32 ∧ 8 - ones % 8 < 8 then
      some (whole.set (ones / 8) (0xff <<< UInt8.ofNat (8 - ones % 8)) h.1)
    else none
  else none

theorem leadingByte_of_part : ∀ count < 8, 0 < count →
    leadingByte count = 0xff <<< UInt8.ofNat (8 - count) := by
  decide

theorem leadingByte_of_whole {count : Nat} (h : 8 ≤ count) : leadingByte count = 0xff := by
  rw [leadingByte, Nat.min_eq_right h]
  rfl

/-- No byte is ever out of range. -/
theorem paint?_eq (mask : DifficultyMask) : paint? mask.leadingOnes = some mask.bytes := by
  obtain ⟨ones, hle⟩ := mask
  unfold paint? bytes
  dsimp only
  rw [if_pos (by omega)]
  split
  · next hwhole =>
    refine congrArg some (Vector.ext fun i hi => ?_)
    simp only [Vector.getElem_ofFn]
    split
    · rw [leadingByte_of_whole (by omega)]
    · have hnone : ones - 8 * i = 0 := by omega
      rw [hnone]
      rfl
  · next hpart =>
    rw [dif_pos (by omega)]
    refine congrArg some (Vector.ext fun i hi => ?_)
    rw [Vector.getElem_set]
    simp only [Vector.getElem_ofFn]
    split
    · next hlast =>
      have hrest : ones - 8 * i = ones % 8 := by omega
      rw [hrest, leadingByte_of_part _ (by omega) (by omega)]
    · next hother =>
      split
      · rw [leadingByte_of_whole (by omega)]
      · have hnone : ones - 8 * i = 0 := by omega
        rw [hnone]
        rfl

/-! ### What passes -/

/-- What passes without need lies between the target and the power of two, -/
theorem passes_and_misses_iff (digest : Bytes 32) :
    (ofTarget target).acceptsDigest digest = true ∧ ¬ digest.toNatLE < target.toNat ↔
      target.toNat ≤ digest.toNatLE ∧ digest.toNatLE < 2 ^ Nat.clog 2 target.toNat := by
  rw [ofTarget_accepts_iff, Nat.not_lt]
  exact and_comm

/-- and for a power of two that is nothing. -/
theorem meets_of_power {digest : Bytes 32} {exponent : Nat} (hpower : target.toNat = 2 ^ exponent)
    (haccepts : (ofTarget target).acceptsDigest digest = true) : digest.toNatLE < target.toNat := by
  rw [ofTarget_accepts_iff, hpower, Nat.clog_pow 2 exponent (by decide)] at haccepts
  exact hpower ▸ haccepts

theorem leadingOnes_antitone {larger : Uint256} (h : target ≤ larger) :
    (ofTarget larger).leadingOnes ≤ (ofTarget target).leadingOnes := by
  rw [leadingOnes_ofTarget, leadingOnes_ofTarget]
  exact Nat.sub_le_sub_left (Nat.clog_mono_right 2 h) 256

/-- A digest that meets the target passes its mask. -/
theorem accepts_of_meets {digest : Bytes 32} (h : digest.toNatLE < target.toNat) :
    (ofTarget target).acceptsDigest digest = true :=
  (ofTarget_accepts_iff digest).mpr (Nat.lt_of_lt_of_le h (Nat.le_pow_clog (by decide) _))

/-- The mask of a target accepts the digests below the least power of two that is not below the target,
    and all ways to ask for that agree. So a digest that meets the target passes, also if the mask is
    carried in one byte; a mask with more ones loses some digest that meets the target, and there is room
    for more ones if the target is two or more. A digest that passes misses the target if and only if it
    lies between the target and the power of two, so never if they are the same. The larger a target is,
    the more passes; and a mask of any width is painted within its bytes. -/
theorem ofTarget_sound_and_tightest (target : Uint256) :
    let mask := ofTarget target
    let power := Nat.clog 2 target.toNat
    IsLeast {exponent | target.toNat ≤ 2 ^ exponent} power ∧ power ≤ 256 ∧
    mask.leadingOnes = 256 - power ∧
    (∀ bytes : Bytes 32, bytes.toNatBE = target.toNat → ofTarget (Uint256.ofBytesBE bytes) = mask) ∧
    (∀ digest : Bytes 32,
      (mask.acceptsDigest digest = true ↔ digest.toNatLE < 2 ^ power) ∧
      mask.accepts digest.reverse = mask.acceptsDigest digest ∧
      (mask.acceptsDigest digest = true ∧ ¬ digest.toNatLE < target.toNat ↔
        target.toNat ≤ digest.toNatLE ∧ digest.toNatLE < 2 ^ power) ∧
      (∀ exponent, target.toNat = 2 ^ exponent → mask.acceptsDigest digest = true →
        digest.toNatLE < target.toNat)) ∧
    (∀ job : Job, job.mask = mask.bytes →
      ∀ nonce, job.accepts nonce = mask.acceptsDigest (job.hash nonce)) ∧
    (∀ work : WorkItem, work.target = target → work.mask = mask ∧
      ∀ digest, work.meetsTarget digest = true → mask.acceptsDigest digest = true ∧
        (ofLeadingZeros mask.zeroCount.toNat).acceptsDigest digest = true) ∧
    (2 ≤ target.toNat → mask.leadingOnes < 256) ∧
    (∀ stricter : DifficultyMask, mask.leadingOnes < stricter.leadingOnes →
      ∃ digest : Bytes 32, digest.toNatLE < target.toNat ∧ stricter.acceptsDigest digest = false) ∧
    (∀ larger : Uint256, target ≤ larger →
      (ofTarget larger).leadingOnes ≤ mask.leadingOnes ∧
      ∀ digest, mask.acceptsDigest digest = true → (ofTarget larger).acceptsDigest digest = true) ∧
    ∀ width : UInt32, paint? (min width.toNat 256) = some (ofLeadingZeros width.toNat).bytes := by
  have hleast : IsLeast {exponent | target.toNat ≤ 2 ^ exponent} (Nat.clog 2 target.toNat) :=
    ⟨Nat.le_pow_clog (by decide) _, fun exponent => Nat.clog_le_of_le_pow⟩
  refine ⟨hleast, clog_target_le target, leadingOnes_ofTarget target, ?_, fun digest =>
    ⟨ofTarget_accepts_iff digest, accepts_reverse digest, passes_and_misses_iff digest,
      fun exponent => meets_of_power⟩, ?_, ?_, ?_, fun stricter => rejects_of_stricter, ?_,
    fun width => paint?_eq (ofLeadingZeros width.toNat)⟩
  · intro bytes hbytes
    have hsame : Uint256.ofBytesBE bytes = target :=
      BitVec.eq_of_toNat_eq ((Uint256.toNat_ofBytesBE bytes).trans hbytes)
    rw [hsame]
  · intro job hmask nonce
    rw [Job.accepts, hmask]
    rfl
  · rintro work rfl
    refine ⟨rfl, fun digest hmeets => ?_⟩
    have haccepts := accepts_of_meets ((work.meetsTarget_iff digest).mp hmeets)
    exact ⟨haccepts, acceptsDigest_of_le (zeroCount_le _) haccepts⟩
  · intro htwo
    have hpower : 0 < Nat.clog 2 target.toNat := Nat.clog_pos (by decide) htwo
    rw [leadingOnes_ofTarget]
    omega
  · intro larger hle
    have hones := leadingOnes_antitone hle
    exact ⟨hones, fun digest => acceptsDigest_of_le hones⟩

/-! A target of three times a power of two, and a digest between it and the next power. -/

def threefold : Uint256 := 3 <<< 240

def sevenHalves : Bytes 32 := Bytes.ofNatLE 32 (7 <<< 239)

theorem sevenHalves_passes_threefold :
    (ofTarget threefold).leadingOnes = 14 ∧ Nat.clog 2 threefold.toNat = 242 ∧
      ((ofTarget threefold).acceptsDigest sevenHalves = true ∧
        ¬ sevenHalves.toNatLE < threefold.toNat) ∧
      (∃ digest : Bytes 32, digest.toNatLE < threefold.toNat ∧
        (ofLeadingZeros 15).acceptsDigest digest = false) ∧
      ofTarget (Uint256.ofBytesBE threefold.toBytesBE) = ofTarget threefold := by
  obtain ⟨-, -, hones, hbytes, hdigests, -, -, -, hstricter, -⟩ :=
    ofTarget_sound_and_tightest threefold
  have hpower : Nat.clog 2 threefold.toNat = 242 := by decide +kernel
  obtain ⟨-, -, hbetween, -⟩ := hdigests sevenHalves
  rw [hpower] at hones
  refine ⟨hones, hpower, hbetween.mpr (by decide +kernel), hstricter _ ?_,
    hbytes _ (by decide +kernel)⟩
  rw [hones]
  decide

end DifficultyMask

end NonceSearch
