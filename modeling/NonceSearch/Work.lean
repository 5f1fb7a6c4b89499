import NonceSearch.Mask
import NonceSearch.Sha256

/-!
# Work

A block header is 80 bytes. The first 64 are the same for every nonce, so they are hashed once, to a
midstate; the 12 bytes after them and the midstate are what an accelerator is given, and it tries the
last four bytes. A work item is those two strings with the target that the digest has to be below.

The module also holds the header type, the first block's header, and a source of work for running
without a pool: it rolls the timestamp of that header, so that only the twelve bytes change.
-/

namespace NonceSearch

/-- The hash of a header whose first 64 bytes are summed up by `midstate`, whose next twelve are
    `tail` and whose last four are `nonce`, least significant byte first. -/
def candidateHash (midstate : Bytes 32) (tail : Bytes 12) (nonce : UInt32) : Bytes 32 :=
  Sha256.digest
    (Sha256.resume midstate 64 (tail.toList ++ (Bytes.ofNatLE 4 nonce.toNat).toList)).toList

def headerHash (header : Bytes 80) : Bytes 32 :=
  Sha256.doubleDigest header.toList

structure WorkItem where
  /-- The hash state after the first 64 bytes of the header. -/
  midstate : Bytes 32
  /-- The twelve header bytes before the nonce. -/
  tail : Bytes 12
  /-- What a digest has to be below. -/
  target : Uint256
  deriving DecidableEq

namespace WorkItem

def tailSize : Nat := 12

/-- Split a header. The four nonce bytes at its end are left out. -/
def ofHeader (header : Bytes 80) (target : Uint256) : WorkItem where
  midstate := Sha256.midstate (header.extract 0 64)
  tail := header.extract 64 76
  target := target

/-- The mask an accelerator is given for this item. -/
def mask (work : WorkItem) : DifficultyMask := .ofTarget work.target

def hash (work : WorkItem) (nonce : UInt32) : Bytes 32 :=
  candidateHash work.midstate work.tail nonce

def meetsTarget (work : WorkItem) (digest : Bytes 32) : Bool :=
  decide (Uint256.ofBytesLE digest < work.target)

/-- A short name for an item: its midstate and its tail. -/
def label (work : WorkItem) : String :=
  hexText work.midstate.toList ++ ":" ++ hexText work.tail.toList

end WorkItem

/-- A digest in the order in which block hashes are shown, most significant byte first. -/
def displayHash (digest : Bytes 32) : String := hexText digest.toList.reverse

/-! ### Headers -/

structure BlockHeader where
  version : UInt32
  previous : Bytes 32
  merkleRoot : Bytes 32
  time : UInt32
  bits : UInt32
  nonce : UInt32
  deriving DecidableEq

/-- The 80 bytes of a header, each number least significant byte first. -/
def BlockHeader.toBytes (header : BlockHeader) : Bytes 80 :=
  Bytes.ofNatLE 4 header.version.toNat ++ header.previous ++ header.merkleRoot ++
    Bytes.ofNatLE 4 header.time.toNat ++ Bytes.ofNatLE 4 header.bits.toNat ++
    Bytes.ofNatLE 4 header.nonce.toNat

def genesisHeader : BlockHeader where
  version := 1
  previous := Bytes.zero 32
  merkleRoot := #v[
    0x3b, 0xa3, 0xed, 0xfd, 0x7a, 0x7b, 0x12, 0xb2, 0x7a, 0xc7, 0x2c, 0x3e, 0x67, 0x76, 0x8f, 0x61,
    0x7f, 0xc8, 0x1b, 0xc3, 0x88, 0x8a, 0x51, 0x32, 0x3a, 0x9f, 0xb8, 0xaa, 0x4b, 0x1e, 0x5e, 0x4a]
  time := 1231006505
  bits := 0x1d00ffff
  nonce := 2083236893

/-! ### Demonstration work -/

/-- A source of work that needs no pool: item number `n` is the first block's header, `n` seconds
    later. Both the count of items and the timestamp wrap at 2³². -/
structure DemoSource where
  target : Uint256
  /-- Items given out so far, modulo 2³². -/
  issued : UInt32 := 0
  deriving DecidableEq

namespace DemoSource

def item (source : DemoSource) : WorkItem :=
  .ofHeader { genesisHeader with time := genesisHeader.time + source.issued }.toBytes source.target

def advance (source : DemoSource) : DemoSource := { source with issued := source.issued + 1 }

def next (source : DemoSource) : WorkItem × DemoSource := (source.item, source.advance)

def take : Nat → DemoSource → List WorkItem
  | 0, _ => []
  | count + 1, source => source.item :: take count source.advance

end DemoSource

end NonceSearch
