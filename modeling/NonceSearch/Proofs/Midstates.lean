import NonceSearch.Bytes.Lemmas
import NonceSearch.Proofs.WordStores
import NonceSearch.Work

/-!
# Hashing from a midstate

The chaining words after a block can be written down and read again (`Sha256.State.ofBytes_toBytes`), and
the padding goes by the length of the whole message. So a message that is taken up again after its first
block has the hash that it has when it is hashed at once (`Sha256.resume_midstate`), and a work item is
as good as its header: the digest that it has with a nonce is the digest of the header with that nonce
written over the last four bytes (`WorkItem.hash_eq_headerHash`).
-/

namespace NonceSearch

namespace Sha256

/-! ### Words written down -/

/-- A message is made of the same words as a register window, with their bytes the other way round. -/
theorem messageWords_cons (b₀ b₁ b₂ b₃ : UInt8) (rest : List UInt8) :
    messageWords (b₀ :: b₁ :: b₂ :: b₃ :: rest) = wordOf b₃ b₂ b₁ b₀ :: messageWords rest := by
  have hreverse : ∀ w x y z : UInt32, w ||| x ||| y ||| z = z ||| y ||| x ||| w := by
    intro w x y z
    ac_rfl
  exact congrArg (· :: messageWords rest) (hreverse _ _ _ _)

theorem wordText_eq (word : UInt32) :
    wordText word = [wordByte word 3, wordByte word 2, wordByte word 1, wordByte word 0] := by
  -- Shifts of words go by the remainder modulo 32, and none of these reaches it.
  have hbyte : ∀ (shift : UInt32) (k : Nat), shift.toNat = 8 * k → k < 4 →
      (word >>> shift).toUInt8 = wordByte word k := by
    intro shift k hshift hk
    have hsmall : 8 * k % 32 = 8 * k := Nat.mod_eq_of_lt (by omega)
    apply UInt8.toNat_inj.mp
    rw [UInt32.toNat_toUInt8, UInt32.toNat_shiftRight, wordByte, UInt8.toNat_ofNat', hshift, hsmall]
  have hlast : word.toUInt8 = wordByte word 0 := by
    rw [← hbyte 0 0 rfl (by decide), UInt32.shiftRight_zero]
  rw [wordText, hbyte 24 3 rfl (by decide), hbyte 16 2 rfl (by decide), hbyte 8 1 rfl (by decide),
    hlast]

/-- A word that was written down is read again. -/
theorem messageWords_wordText (word : UInt32) (rest : List UInt8) :
    messageWords (wordText word ++ rest) = word :: messageWords rest := by
  rw [wordText_eq]
  exact (messageWords_cons _ _ _ _ rest).trans (congrArg (· :: messageWords rest) (wordOf_wordByte word))

theorem State.length_text (s : State) : (wordText s.a ++ wordText s.b ++ wordText s.c ++ wordText s.d ++
    wordText s.e ++ wordText s.f ++ wordText s.g ++ wordText s.h).length = 32 := rfl

/-- The chaining words that were written down are read again. -/
theorem State.ofBytes_toBytes (s : State) : ofBytes s.toBytes = s := by
  rw [ofBytes, toBytes, Bytes.toList_ofList s.length_text]
  have hlast : messageWords (wordText s.h) = [s.h] := messageWords_wordText s.h []
  simp only [List.append_assoc, messageWords_wordText, hlast]
  rfl

/-! ### Messages taken up again -/

/-- A message that is taken up again after its first block has the hash that it has as a whole. -/
theorem resume_midstate (block : Bytes 64) (rest : List UInt8) :
    resume (midstate block) blockSize rest = digest (block.toList ++ rest) := by
  have hlength : (block.toList ++ rest).length = blockSize + rest.length := by
    rw [List.length_append, Vector.length_toList, blockSize]
  rw [resume, midstate, digest, State.ofBytes_toBytes, hlength, List.append_assoc,
    absorb_append _ _ block.length_toList]

end Sha256

namespace WorkItem

/-! ### Headers and nonces -/

def withNonce (header : Bytes 80) (nonce : UInt32) : Bytes 80 :=
  header.extract 0 76 ++ Bytes.ofNatLE 4 nonce.toNat

/-- The first block, the tail and the nonce make up the header. -/
theorem toList_withNonce (header : Bytes 80) (nonce : UInt32) :
    (withNonce header nonce).toList = header.toList.take 76 ++ (Bytes.ofNatLE 4 nonce.toNat).toList := by
  have happend : (withNonce header nonce).toList =
      (header.extract 0 76).toList ++ (Bytes.ofNatLE 4 nonce.toNat).toList := Vector.toList_append
  rw [happend, Vector.toList_extract]
  rfl

theorem take_toList (header : Bytes 80) : header.toList.take 76 =
    (header.extract 0 64).toList ++ (header.extract 64 76).toList := by
  rw [Vector.toList_extract, Vector.toList_extract]
  exact @List.take_add _ header.toList 64 12

/-- Before its last four bytes a header stays as it is. -/
theorem extract_withNonce (header : Bytes 80) (nonce : UInt32) {start stop : Nat} (h : stop ≤ 76) :
    (withNonce header nonce).extract start stop = header.extract start stop := by
  refine Vector.ext fun i hi => ?_
  have hfront : start + i < 76 := by omega
  have hleft : (withNonce header nonce)[start + i] = (header.extract 0 76)[start + i] :=
    Vector.getElem_append_left hfront
  rw [Vector.getElem_extract, Vector.getElem_extract, hleft, Vector.getElem_extract]
  simp only [Nat.zero_add]

/-- The nonce that a header comes with is not looked at. -/
theorem ofHeader_withNonce (header : Bytes 80) (target : Uint256) (own : UInt32) :
    ofHeader (withNonce header own) target = ofHeader header target := by
  have hblock := @extract_withNonce header own 0 64 (by decide)
  have htail := @extract_withNonce header own 64 76 (by decide)
  rw [ofHeader, hblock, htail]
  rfl

/-- The digest that a work item has with a nonce is the digest of its header with that nonce written over
    the last four bytes, the least significant first, and the rest as it is. Whatever nonce the header
    came with, the work item is the same. -/
theorem hash_eq_headerHash (header : Bytes 80) (target : Uint256) (nonce : UInt32) :
    (ofHeader header target).hash nonce = headerHash (withNonce header nonce) ∧
    (withNonce header nonce).toList = header.toList.take 76 ++ (Bytes.ofNatLE 4 nonce.toNat).toList ∧
    (Bytes.ofNatLE 4 nonce.toNat).toNatLE = nonce.toNat ∧
    ∀ own, ofHeader (withNonce header own) target = ofHeader header target := by
  refine ⟨?_, toList_withNonce header nonce, ?_, ofHeader_withNonce header target⟩
  · have hwhole : (withNonce header nonce).toList = (header.extract 0 64).toList ++
        ((header.extract 64 76).toList ++ (Bytes.ofNatLE 4 nonce.toNat).toList) := by
      rw [toList_withNonce, take_toList, List.append_assoc]
    rw [headerHash, Sha256.doubleDigest, hwhole]
    exact congrArg (fun digest : Bytes 32 => Sha256.digest digest.toList)
      (Sha256.resume_midstate (header.extract 0 64) _)
  · rw [Bytes.toNatLE_ofNatLE]
    exact Nat.mod_eq_of_lt nonce.toNat_lt

end WorkItem

end NonceSearch
