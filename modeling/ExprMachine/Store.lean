import ExprMachine.Chunk.Wire
import ExprMachine.Digest
import Std.Data.HashMap

/-! The chunk store: chunks by the hash of their source. An index in memory is always kept; a store
opened on a file also writes every chunk to a table there, from which later openings read. -/
namespace ExprMachine

open Text (utf8)

structure Row where
  version : Int
  data : Bytes
  deriving DecidableEq, Repr

abbrev Table := Std.HashMap Digest Row

structure Disk where
  path : Bytes
  table : Table
  isOpen : Bool

structure Store where
  index : Std.HashMap Digest Chunk
  disk : Option Disk

inductive StoreError where
  | query
  | decoding (e : WireError)
  | saving
  | counting
  deriving DecidableEq, Repr

def StoreError.task : StoreError → Bytes
  | query => utf8 "querying chunk"
  | decoding _ => utf8 "decoding chunk"
  | saving => utf8 "saving chunk"
  | counting => utf8 "counting chunks"

namespace Store

def memory : Store := ⟨∅, none⟩

def openOn (path : Bytes) (table : Table) : Store := ⟨∅, some ⟨path, table, true⟩⟩

def readRow (row : Row) : Except StoreError (Option Chunk) :=
  -- Versions of 16 bits other than the current one are passed over.
  if row.version < 0 ∨ 0x10000 ≤ row.version then .error .query
  else if row.version ≠ Chunk.currentVersion.toNat then .ok none
  else
    match Chunk.decode row.data with
    | .ok c => .ok (some c)
    | .error e => .error (.decoding e)

def Disk.find (d : Disk) (key : Digest) : Except StoreError (Option Chunk) :=
  if d.isOpen then
    match d.table[key]? with
    | some row => readRow row
    | none => .ok none
  else .error .query

def get (s : Store) (source : Bytes) : Except StoreError (Option Chunk) × Store :=
  let key := digest source
  match s.index[key]?, s.disk with
  | some c, _ => (.ok (some c), s)
  | none, none => (.ok none, s)
  | none, some disk =>
    match Disk.find disk key with
    | .ok (some c) => (.ok (some c), { s with index := s.index.insert key c })
    | other => (other, s)

def put (s : Store) (source : Bytes) (c : Chunk) : Except StoreError Unit × Store :=
  let key := digest source
  let s := { s with index := s.index.insert key c }
  match s.disk with
  | none => (.ok (), s)
  | some disk =>
    if disk.isOpen then
      let table := disk.table.insert key ⟨c.version.toNat, c.encode⟩
      (.ok (), { s with disk := some { disk with table := table } })
    else (.error .saving, s)

def size (s : Store) : Nat := s.index.size

def persisted (s : Store) : Except StoreError Nat :=
  match s.disk with
  | none => .ok 0
  | some disk => if disk.isOpen then .ok disk.table.size else .error .counting

def path (s : Store) : Bytes := (s.disk.map Disk.path).getD []

def close (s : Store) : Store :=
  { s with disk := s.disk.map fun disk => { disk with isOpen := false } }

def reopen (s : Store) : Store :=
  match s.disk with
  | none => memory
  | some disk => openOn disk.path disk.table

def modifyRow (s : Store) (source : Bytes) (f : Row → Option Row) : Nat × Store :=
  let key := digest source
  match s.disk with
  | none => (0, s)
  | some disk =>
    match disk.table[key]? with
    | none => (0, s)
    | some row =>
      let table := match f row with
        | some row => disk.table.insert key row
        | none => disk.table.erase key
      (1, { s with disk := some { disk with table := table } })

end Store
end ExprMachine
