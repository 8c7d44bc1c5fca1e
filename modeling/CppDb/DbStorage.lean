import CppDb.RecordCodec

/-!
# `DBStorage` (`dbstorage.hpp`)

Records are appended to the storage file and read by the number of the page they start at. The mutex is held
through each member function, so that a call is one step on the adapter.
-/

namespace CppDb
open Embed

/-- `odd_sized_integer<5>`, little-endian. -/
abbrev PageNumber : Type := Raw 5

def PageNumber.toNat (n : PageNumber) : ℕ := leNat n.1

namespace DbStorage
variable {A : Type} [StorageAdapter A]

def PageSize : ℕ := 4096

def page (n : ℕ) : PageNumber := ⟨leBytes 5 n, length_leBytes ..⟩

def pageNumberToOffset (pgN : PageNumber) : ℕ := pgN.toNat * PageSize

def openStorageFile (filePath : String) : Proc A Unit := StorageIo.open_ filePath .ReadWrite

def readRecord (S : Schema) (recordStartLocation : PageNumber) : Proc A (DbRecord S) := do
  StorageIo.seek (pageNumberToOffset recordStartLocation)
  DbRecordSerializer.deserialize S

def writeRecord {S : Schema} (record : DbRecord S) : Proc A Unit := do
  StorageIo.seekToEnd
  DbRecordSerializer.serialize record

end DbStorage

end CppDb
