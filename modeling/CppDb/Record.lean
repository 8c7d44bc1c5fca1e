import CppDb.Adapter
import Mathlib.Data.List.TakeDrop

/-!
# Fields, records and their serialization

Field types and records (`dbfield.hpp`, `dbrecord.hpp`), the value codec of `StorageIo`
(`storage/storage_io_interface.hpp`) and `DbRecordSerializer` (`serialization/dbrecord-serializer.hpp`).
A C++ type is described by a `ValueType` and the values of the type are `ValueType.Value`, so that
`DbRecord<Fields...>` becomes a dependent tuple over the list of its fields.
-/

namespace CppDb
open Embed

/-- The types a field can hold. A trivial standard-layout type is known by its name and `sizeof`;
its values are their object representations. -/
inductive ValueType where
  | trivial (name : String) (size : ℕ)
  | string
  | vector (item : ValueType)
deriving DecidableEq, Repr

namespace ValueType

def Value : ValueType → Type
  | trivial _ n => Raw n
  | string => Bytes
  | vector t => List t.Value

instance decEqValue : (t : ValueType) → DecidableEq t.Value
  | trivial _ n => inferInstanceAs (DecidableEq (Raw n))
  | string => inferInstanceAs (DecidableEq Bytes)
  | vector t => @instDecidableEqList _ (decEqValue t)

/-- `std::is_trivial_v`, which for these types is also `is_trivially_serializable_v`. -/
def isTrivial : ValueType → Bool
  | trivial .. => true
  | _ => false

/-- `sizeof` of a trivial type. -/
def sizeOf : ValueType → ℕ
  | trivial _ n => n
  | _ => 0

/-- The bytes `memcpy` takes from a value of a trivial type. -/
def toRaw : (t : ValueType) → t.Value → Bytes
  | trivial _ _, v => v.1
  | string, _ => []
  | vector _, _ => []

/-- The value of a trivial type that `memcpy` makes from `sizeof` bytes; other types stay as they are
default-constructed. -/
def ofRaw : (t : ValueType) → Bytes → t.Value
  | trivial _ n, bs => ⟨bs.takeD n 0, List.takeD_length ..⟩
  | string, _ => ([] : Bytes)
  | vector t, _ => ([] : List t.Value)

/-- What `std::move` leaves of a value: strings and arrays are empty. -/
def movedFrom : (t : ValueType) → t.Value → t.Value
  | trivial _ _, v => v
  | string, _ => ([] : Bytes)
  | vector t, _ => ([] : List t.Value)

/-- A string or an array of fewer than 2^32 items, each as `P` says. -/
def ShortList {α : Type} (P : α → Prop) (l : List α) : Prop := l.length < 2 ^ 32 ∧ ∀ x ∈ l, P x

/-- All strings and arrays in the value, at every level, are shorter than 2^32. -/
def Short : (t : ValueType) → t.Value → Prop
  | trivial _ _, _ => True
  | string, v => ShortList (α := UInt8) (fun _ => True) v
  | vector t, v => ShortList t.Short v

end ValueType

/-- `Field<T, fieldId, is_array>`. -/
structure Field where
  type : ValueType
  id : ℤ
  isArray : Bool := false
deriving DecidableEq, Repr

namespace Field

/-- `ValueType`. -/
def valueType (f : Field) : ValueType := if f.isArray then .vector f.type else f.type

abbrev Value (f : Field) : Type := f.valueType.Value

def sizeKnownAtCompileTime (f : Field) : Bool := !f.isArray && f.valueType.isTrivial

def staticSize (f : Field) : ℕ := f.valueType.sizeOf

end Field

/-- The field types of a `DbRecord`, in order. -/
abbrev Schema := List Field

namespace Schema

/-- `checkAssertions()`: the compile-time checks of `DbRecord`, on neighbouring fields. -/
def checkAssertions (S : Schema) : Bool :=
  S.length > 0 &&
  (List.range' 1 (S.length - 1)).all fun index =>
    match S[index - 1]?, S[index]? with
    | some field1, some field2 =>
      !(field1.sizeKnownAtCompileTime == false && field2.sizeKnownAtCompileTime == true) &&
      (S.count field1 == 1 && S.count field2 == 1) &&
      field1.id != field2.id
    | _, _ => false

def staticFieldsCount (S : Schema) : ℕ := S.countP (·.sizeKnownAtCompileTime)

/-- The sizes of the first `staticFieldsCount()` fields, added up. -/
def staticFieldsSize (S : Schema) : ℕ := ((S.take S.staticFieldsCount).map Field.staticSize).sum

end Schema

/-- `DbRecord<Fields...>`: one value for each field. -/
inductive DbRecord : Schema → Type where
  | nil : DbRecord []
  | cons {f : Field} {S : Schema} (value : f.Value) (rest : DbRecord S) : DbRecord (f :: S)

namespace DbRecord

instance decEq : {S : Schema} → DecidableEq (DbRecord S)
  | [], .nil, .nil => isTrue rfl
  | f :: _, .cons v r, .cons v' r' =>
    match f.valueType.decEqValue v v', decEq r r' with
    | isTrue hv, isTrue hr => isTrue (by rw [hv, hr])
    | isFalse hv, _ => isFalse fun h => hv (by injection h)
    | _, isFalse hr => isFalse fun h => hr (by injection h)

def movedFrom : {S : Schema} → DbRecord S → DbRecord S
  | _, nil => nil
  | _, cons (f := f) v r => cons (f.valueType.movedFrom v) r.movedFrom

/-- Every value of the record is short. -/
def Short : {S : Schema} → DbRecord S → Prop
  | _, nil => True
  | _, cons (f := f) v r => f.valueType.Short v ∧ r.Short

end DbRecord

/-! ### Values through `StorageIo` -/

namespace StorageIo
variable {A : Type} [StorageAdapter A]

/-- `write(const std::string&)`: the prefix is the length cast to `uint32_t`, and only that many
bytes follow. -/
def writeString (str : Bytes) : Proc A Unit := do
  write (leBytes 4 str.length)
  write (str.take (str.length % 2 ^ 32))

/-- `write(const std::vector<T>&)`: likewise for the items. -/
def writeVector {α : Type} (writeItem : α → Proc A Unit) (v : List α) : Proc A Unit := do
  write (leBytes 4 v.length)
  (v.take (v.length % 2 ^ 32)).forM writeItem

def readString : Proc A Bytes := do
  let dataSize ← read 4
  let str ← read (leNat dataSize.1)
  return str.1

def readVector {α : Type} (readItem : Proc A α) : Proc A (List α) := do
  let nItems ← read 4
  readItem.times (leNat nItems.1)

/-- `write(value)` for a value of any type. -/
def writeValue : (t : ValueType) → t.Value → Proc A Unit
  | .trivial _ _, v => write v.1
  | .string, str => writeString str
  | .vector t, v => writeVector (writeValue t) v

/-- `read(value)`. -/
def readValue : (t : ValueType) → Proc A t.Value
  | .trivial _ n => read n
  | .string => readString
  | .vector t => readVector (readValue t)

def writeField (f : Field) (value : f.Value) : Proc A Unit := writeValue f.valueType value

def readField (f : Field) : Proc A f.Value := readValue f.valueType

end StorageIo

/-! ### `DbRecordSerializer` -/

namespace DbRecordSerializer
variable {A : Type} [StorageAdapter A]

/-- The block the first `n` fields are copied into. -/
def staticBlock : {S : Schema} → DbRecord S → ℕ → Bytes
  | _, .nil, _ => []
  | _, .cons .., 0 => []
  | _, .cons (f := f) v r, n + 1 => f.valueType.toRaw v ++ staticBlock r n

/-- Write the fields from index `n` on. -/
def writeFrom : {S : Schema} → DbRecord S → ℕ → Proc A Unit
  | _, .nil, _ => pure ()
  | _, .cons (f := f) v r, 0 => do
    StorageIo.writeField f v
    writeFrom r 0
  | _, .cons _ r, n + 1 => writeFrom r n

def serialize {S : Schema} (record : DbRecord S) : Proc A Unit := do
  StorageIo.write (staticBlock record S.staticFieldsCount)
  writeFrom record S.staticFieldsCount

/-- Fields of static size are copied from what is left of the block, the others are read. -/
def readFields : (S : Schema) → (buffer : Bytes) → Proc A (DbRecord S)
  | [], _ => pure .nil
  | f :: S, buffer =>
    if f.sizeKnownAtCompileTime then do
      let r ← readFields S (buffer.drop f.staticSize)
      return .cons (f.valueType.ofRaw (buffer.take f.staticSize)) r
    else do
      let v ← StorageIo.readField f
      let r ← readFields S buffer
      return .cons v r

def deserialize (S : Schema) : Proc A (DbRecord S) := do
  let buffer ← StorageIo.read S.staticFieldsSize
  readFields S buffer.1

end DbRecordSerializer

end CppDb
