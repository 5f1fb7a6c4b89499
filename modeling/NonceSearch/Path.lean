import NonceSearch.Text.Utf8

/-!
# Paths

A path is a string of bytes, of which only the slash has a meaning: it stands between names. Two paths
are spelled differently and still mean the same if they differ only in slashes that say nothing and in
points that stand for the directory one is in. A path need not be text; for showing it, what is not is
replaced.
-/

namespace NonceSearch

structure Path where
  bytes : List UInt8
  deriving DecidableEq, Repr

namespace Path

def ofText (text : String) : Path := ⟨Text.encode text⟩

def text (path : Path) : String := Text.decodeLossy path.bytes

def slash : UInt8 := 0x2f

def point : UInt8 := 0x2e

def pieces (path : Path) : List (List UInt8) :=
  path.bytes.foldr (fun byte pieces =>
    if byte = slash then [] :: pieces
    else match pieces with
      | [] => [[byte]]
      | piece :: pieces => (byte :: piece) :: pieces) [[]]

def isAbsolute (path : Path) : Bool := path.bytes.head? == some slash

def endsInSlash (path : Path) : Bool := path.bytes.getLast? == some slash

/-- The names on the way; several slashes are one. -/
def names (path : Path) : List (List UInt8) := path.pieces.filter fun piece => !piece.isEmpty

/-- What a path is made of: whether it starts at the root, and the names on the way. A point stands
    for nothing unless the path begins with it. -/
def parts (path : Path) : Bool × List (List UInt8) :=
  let isName := fun (name : List UInt8) => name != [point]
  if path.isAbsolute then (true, path.names.filter isName)
  else (false, path.names.take 1 ++ (path.names.drop 1).filter isName)

theorem pieces_ne_nil (path : Path) : path.pieces ≠ [] := by
  obtain ⟨bytes⟩ := path
  cases bytes with
  | nil => simp [pieces]
  | cons byte rest =>
    simp only [pieces, List.foldr_cons]
    split
    · simp
    · split <;> simp

end Path

end NonceSearch
