import NonceSearch.Bytes.Lemmas
import NonceSearch.Work

/-!
# Demonstration work

The time of a header lies behind its first 64 bytes, so a source that rolls the time gives out items with
one midstate. Their tails hold the time, and so two of them are equal exactly if the times are: when the
numbers of the items differ by a multiple of 2³² (`DemoSource.items_repeat_after_wrap`).
-/

namespace NonceSearch

/-! ### Headers -/

namespace BlockHeader

/-- What a midstate sums up of a header: version, previous hash and all but four bytes of the root. -/
def front (header : BlockHeader) : List UInt8 :=
  (Bytes.ofNatLE 4 header.version.toNat).toList ++ header.previous.toList ++
    header.merkleRoot.toList.take 28

/-- What is left before the nonce: four bytes of the root, the time and the target. -/
def back (header : BlockHeader) : List UInt8 :=
  header.merkleRoot.toList.drop 28 ++ ((Bytes.ofNatLE 4 header.time.toNat).toList ++
    (Bytes.ofNatLE 4 header.bits.toNat).toList)

theorem length_front (header : BlockHeader) : header.front.length = 64 := by
  simp [front]

theorem length_back (header : BlockHeader) : header.back.length = 12 := by
  simp [back]

theorem toList_toBytes (header : BlockHeader) : header.toBytes.toList =
    header.front ++ (header.back ++ (Bytes.ofNatLE 4 header.nonce.toNat).toList) := by
  have hparts : header.toBytes.toList = (Bytes.ofNatLE 4 header.version.toNat).toList ++
      header.previous.toList ++ header.merkleRoot.toList ++
        (Bytes.ofNatLE 4 header.time.toNat).toList ++ (Bytes.ofNatLE 4 header.bits.toNat).toList ++
          (Bytes.ofNatLE 4 header.nonce.toNat).toList := by
    simp only [toBytes, Vector.toList_append]
  rw [hparts]
  simp only [front, back, List.append_assoc]
  rw [← List.append_assoc (header.merkleRoot.toList.take 28), List.take_append_drop]

end BlockHeader

namespace WorkItem

theorem midstate_ofHeader (header : BlockHeader) (target : Uint256) :
    (ofHeader header.toBytes target).midstate = Sha256.midstate (Bytes.ofList 64 header.front) := by
  have hfront : header.toBytes.extract 0 64 = Bytes.ofList 64 header.front := by
    apply Vector.toList_inj.mp
    rw [Bytes.toList_ofList header.length_front, Vector.toList_extract, header.toList_toBytes]
    exact List.take_left' header.length_front
  rw [← hfront]
  rfl

theorem toList_tail_ofHeader (header : BlockHeader) (target : Uint256) :
    (ofHeader header.toBytes target).tail.toList = header.back := by
  have htail : (ofHeader header.toBytes target).tail.toList =
      (header.toBytes.toList.drop 64).take 12 := Vector.toList_extract
  rw [htail, header.toList_toBytes, List.drop_left' header.length_front]
  exact List.take_left' header.length_back

end WorkItem

/-- Four bytes hold a word. -/
theorem ofNatLE_toNat_inj {word other : UInt32} :
    Bytes.ofNatLE 4 word.toNat = Bytes.ofNatLE 4 other.toNat ↔ word = other := by
  constructor
  · intro h
    have hvalue := congrArg Bytes.toNatLE h
    have hword : word.toNat < 256 ^ 4 := word.toNat_lt
    have hother : other.toNat < 256 ^ 4 := other.toNat_lt
    rw [Bytes.toNatLE_ofNatLE, Bytes.toNatLE_ofNatLE, Nat.mod_eq_of_lt hword,
      Nat.mod_eq_of_lt hother] at hvalue
    exact UInt32.toNat_inj.mp hvalue
  · rintro rfl
    rfl

/-- Headers that differ in nothing but the time have different tails if the times are different. -/
theorem BlockHeader.back_eq_iff (header : BlockHeader) (time other : UInt32) :
    { header with time := time }.back = { header with time := other }.back ↔ time = other := by
  unfold back
  rw [List.append_cancel_left_eq, List.append_cancel_right_eq, Vector.toList_inj, ofNatLE_toNat_inj]

/-! ### Sources -/

namespace DemoSource

variable (source : DemoSource)

def nth (i : Nat) : WorkItem := ((fun source => source.next.2)^[i] source).next.1

theorem iterate_next (i : Nat) : (fun source : DemoSource => source.next.2)^[i] source =
    { source with issued := source.issued + UInt32.ofNat i } := by
  induction i with
  | zero =>
    rw [Function.iterate_zero, id]
    simp
  | succ i ih =>
    rw [Function.iterate_succ_apply', ih]
    simp only [next, advance, UInt32.ofNat_add, UInt32.add_assoc]
    rfl

theorem take_eq (count : Nat) : source.take count = (List.range count).map source.nth := by
  induction count generalizing source with
  | zero => rfl
  | succ count ih =>
    rw [take, ih, List.range_succ_eq_map, List.map_cons, List.map_map]
    rfl

theorem nth_eq (i : Nat) : source.nth i = .ofHeader { genesisHeader with
    time := genesisHeader.time + (source.issued + UInt32.ofNat i) }.toBytes source.target := by
  rw [nth, iterate_next]
  rfl

theorem midstate_nth (i : Nat) :
    (source.nth i).midstate = Sha256.midstate (Bytes.ofList 64 genesisHeader.front) := by
  rw [nth_eq, WorkItem.midstate_ofHeader]
  rfl

theorem tail_nth_eq_iff (i j : Nat) :
    (source.nth i).tail = (source.nth j).tail ↔ i ≡ j [MOD 2 ^ 32] := by
  have htimes : UInt32.ofNat i = UInt32.ofNat j ↔ i ≡ j [MOD 2 ^ 32] := by
    rw [← UInt32.toNat_inj, UInt32.toNat_ofNat', UInt32.toNat_ofNat']
    rfl
  rw [← Vector.toList_inj, nth_eq, nth_eq, WorkItem.toList_tail_ofHeader,
    WorkItem.toList_tail_ofHeader, BlockHeader.back_eq_iff, UInt32.add_right_inj,
    UInt32.add_right_inj, htimes]

/-- Whatever the target is and however many items have been given out before, all items have one midstate
    and that target, and two of them have the same tail exactly if their numbers are congruent modulo
    2³². So among any 2³² items in a row there are no two alike. -/
theorem items_repeat_after_wrap :
    (∀ count, source.take count = (List.range count).map source.nth) ∧
    (∀ i j, (source.nth i).midstate = (source.nth j).midstate ∧
      (source.nth i).target = source.target ∧
      ((source.nth i).tail = (source.nth j).tail ↔ i ≡ j [MOD 2 ^ 32])) ∧
    ∀ first, ((source.take (first + 2 ^ 32)).drop first).Nodup := by
  refine ⟨source.take_eq, ?_, ?_⟩
  · intro i j
    refine ⟨?_, ?_, source.tail_nth_eq_iff i j⟩
    · rw [midstate_nth, midstate_nth]
    · rw [nth_eq]
      rfl
  · intro first
    have hdrop : (source.take (first + 2 ^ 32)).drop first =
        (List.range (2 ^ 32)).map fun k => source.nth (first + k) := by
      rw [take_eq, List.range_add, List.map_append, List.drop_left' (by simp), List.map_map]
      rfl
    rw [hdrop]
    apply List.Nodup.map_on _ List.nodup_range
    intro i hi j hj hsame
    rw [List.mem_range] at hi hj
    have hcongruent := (source.tail_nth_eq_iff (first + i) (first + j)).mp (by rw [hsame])
    exact Nat.ModEq.eq_of_lt_of_lt (Nat.ModEq.add_left_cancel' first hcongruent) hi hj

end DemoSource

end NonceSearch
