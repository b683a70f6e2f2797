import Columnar.ColumnType

/-!
# Hashes of column types

Types that agree should have one hash, so the fields of a struct are hashed as a set: in no order,
and a field that occurs again is counted once. Types with distinct field names that agree have
equal hashes. A type that names a field twice may agree with one that does not, since the last
field counts, and still hash differently.
-/

namespace Columnar.ColumnType

/-- A field together with the hash of its type. -/
abbrev HashedField : Type := String × ColumnType × UInt64

/-- The fields without those that repeat an earlier one in name, type and hash. -/
def distinctFields : List HashedField → List HashedField
  | [] => []
  | f :: rest =>
    f :: (distinctFields rest).filter fun g =>
      !(g.1 == f.1 && g.2.2 == f.2.2 && agrees f.2.1 g.2.1)

def hashFields (fs : List HashedField) : UInt64 :=
  let kept := distinctFields fs
  kept.foldl (fun h f => h + mixHash (hash f.1) f.2.2) (UInt64.ofNat kept.length)

mutual

def digest : ColumnType → UInt64
  | .null => 2
  | .boolean => 3
  | .integer w => mixHash 5 (UInt64.ofNat w.bits)
  | .double => 7
  | .date => 11
  | .time => 13
  | .timestamp => 17
  | .string => 19
  | .list t => mixHash 23 (digest t)
  | .struct fs => mixHash 29 (hashFields (digestFields fs))
  | .any => 31

def digestFields : List (String × ColumnType) → List HashedField
  | [] => []
  | (name, t) :: rest => (name, t, digest t) :: digestFields rest

end

instance : Hashable ColumnType := ⟨digest⟩

end Columnar.ColumnType
