import CppDb.Record

/-!
# Operations and `WAL::Serializer`

The operations of `dbops.hpp`, the completion marker of `WAL/wal_data_types.hpp`, and their encoding
(`WAL/wal_serializer.hpp`). The template arguments of an operation type (key field, array field, the
fields of a `Find`, `InsertIfNotPresent`) are components of the operation. `deserialize` runs over
`Decoding`, the input together with the operations its receiver has been called with.
-/

namespace CppDb
open Embed

inductive OpCode where
  | Insert
  | Find
  | UpdateFull
  | AppendToArray
  | Delete
deriving DecidableEq, Repr

namespace OpCode

def toByte : OpCode → UInt8
  | Insert => 0
  | Find => 1
  | UpdateFull => 2
  | AppendToArray => 3
  | Delete => 4

/-- The `case` a byte selects. -/
def ofByte? (b : UInt8) : Option OpCode :=
  [Insert, Find, UpdateFull, AppendToArray, Delete].find? (·.toByte = b)

@[simp] theorem ofByte?_toByte (c : OpCode) : ofByte? c.toByte = some c := by cases c <;> decide

end OpCode

/-- A field together with a value for it. -/
abbrev FieldValue : Type := (f : Field) × f.Value

/-- The operations over records of schema `S`. -/
inductive Operation (S : Schema) where
  | insert (record : DbRecord S)
  | find (fields : List FieldValue)
  | updateFull (keyField : Field) (insertIfNotPresent : Bool) (record : DbRecord S)
      (keyValue : keyField.Value)
  /-- The payload is a record when `InsertIfNotPresent`, else an array. -/
  | appendToArray (keyField arrayField : Field) (keyValue : keyField.Value)
      (payload : DbRecord S ⊕ arrayField.Value)
  | delete (keyField : Field) (keyValue : keyField.Value)

namespace Operation
variable {S : Schema}

/-- `Find::maxFieldCount`. -/
def maxFieldCount : ℕ := 2

def opCode : Operation S → OpCode
  | insert _ => .Insert
  | find _ => .Find
  | updateFull .. => .UpdateFull
  | appendToArray .. => .AppendToArray
  | delete .. => .Delete

/-- The operation names only fields of the record, arrays where it needs an array; a `Find` has one or
two fields and none of them is an array. -/
def OverRecord : Operation S → Prop
  | insert _ => True
  | find fields => 0 < fields.length ∧ fields.length ≤ maxFieldCount ∧
      ∀ f ∈ fields, f.1 ∈ S ∧ f.1.isArray = false
  | updateFull keyField _ _ _ => keyField ∈ S
  | appendToArray keyField arrayField _ _ => keyField ∈ S ∧ arrayField ∈ S ∧ arrayField.isArray = true
  | delete keyField _ => keyField ∈ S

/-- All strings and arrays in the operation are shorter than 2^32. -/
def Short : Operation S → Prop
  | insert record => record.Short
  | find fields => ∀ f ∈ fields, f.1.valueType.Short f.2
  | updateFull keyField _ record keyValue => record.Short ∧ keyField.valueType.Short keyValue
  | appendToArray keyField arrayField keyValue payload =>
      keyField.valueType.Short keyValue ∧
        payload.elim DbRecord.Short (fun a => arrayField.valueType.Short a)
  | delete keyField keyValue => keyField.valueType.Short keyValue

end Operation

/-- The field IDs are pairwise distinct and fit the byte they are logged in. -/
def Schema.ByteIds (S : Schema) : Prop := (S.map Field.id).Nodup ∧ ∀ f ∈ S, 0 ≤ f.id ∧ f.id ≤ 255

/-- `static_cast<uint8_t>(id)`. -/
def castUInt8 (i : ℤ) : UInt8 := UInt8.ofNat (i % 256).toNat

/-- `WAL::OpStatus`. -/
inductive OpStatus where
  | Successful
  | Failed
deriving DecidableEq, Repr

def OpStatus.toByte : OpStatus → UInt8
  | Successful => 0xEE
  | Failed => 0x11

/-- `OperationCompletedMarker::markerID`. -/
def markerID : UInt8 := 0xDD

namespace StorageIo
variable {A : Type} [StorageAdapter A]

def writeByte (b : UInt8) : Proc A Unit := write [b]

def writeBool (b : Bool) : Proc A Unit := writeByte (if b then 1 else 0)

def readByte : Proc A UInt8 := do
  let b ← read 1
  return b.1.headD 0

def readBool : Proc A Bool := do
  let b ← readByte
  return b != 0

end StorageIo

/-- What `deserialize` works on: its input and what the receiver has been called with so far. -/
structure Decoding (A : Type) (S : Schema) where
  io : A
  received : List (Operation S) := []

namespace Decoding
variable {A : Type} {S : Schema}

def onIo {α : Type} (p : Proc A α) : Proc (Decoding A S) α :=
  p.zoom Decoding.io fun io s => { s with io := io }

/-- Call the receiver. -/
def receiver (op : Operation S) : Proc (Decoding A S) Unit :=
  .modify fun s => { s with received := s.received ++ [op] }

end Decoding

namespace Serializer
variable {A : Type} [StorageAdapter A] {S : Schema}

open StorageIo Decoding

/-! ### `serialize` -/

def serialize (op : Operation S) : Proc A Unit := do
  writeByte op.opCode.toByte
  match op with
  | .insert record => DbRecordSerializer.serialize record
  | .find fields =>
    writeByte (UInt8.ofNat fields.length)
    fields.forM fun f => writeByte (castUInt8 f.1.id)
    fields.forM fun f => writeField f.1 f.2
  | .updateFull keyField insertIfNotPresent record keyValue =>
    writeByte (castUInt8 keyField.id)
    writeBool insertIfNotPresent
    DbRecordSerializer.serialize record
    writeField keyField keyValue
  | .appendToArray keyField arrayField keyValue payload =>
    writeByte (castUInt8 keyField.id)
    writeByte (castUInt8 arrayField.id)
    writeBool payload.isLeft
    writeField keyField keyValue
    match payload with
    | .inl record => DbRecordSerializer.serialize record
    | .inr array => writeField arrayField array
  | .delete keyField keyValue =>
    writeByte (castUInt8 keyField.id)
    writeField keyField keyValue

/-- `serialize(const MarkerStruct&, io)`. -/
def serializeMarker (status : OpStatus) : Proc A Unit := do
  writeByte markerID
  writeByte status.toByte

/-! ### `deserialize` -/

/-- Run `body` for every field that `isMatch` selects; `true` if one of the bodies got to its end with
`true`. A body that returns early leaves the loop going. The bodies share what they move into the operation
at their end: `moved` tells a body that one before it has. -/
def forMatchingFields {σ : Type} (isMatch : Field → Bool) (body : Field → (moved : Bool) → Proc σ Bool)
    (fields : List Field) : Proc σ Bool :=
  fields.foldlM (fun success f =>
    if isMatch f then do
      let done ← (body f success).attempt
      return success || done.getD false
    else return success) false

/-- Find the field types of a `Find` by their IDs, one after the other, and call `receiver` with
each list of types that fits. `remaining` is `maxFieldCount - currentIndex`. -/
def constructFindOperationType {σ : Type} (S : Schema) (receiver : List Field → Proc σ Unit)
    (fieldIds : List UInt8) (nFieldIds : ℕ) : (remaining : ℕ) → (typesPack : List Field) → Proc σ Unit
  | 0, _ => pure ()
  | remaining + 1, typesPack => S.forM fun type =>
    if type.id = (fieldIds.getD typesPack.length 0).toNat then
      if typesPack.length + 1 = nFieldIds then receiver (typesPack ++ [type])
      else constructFindOperationType S receiver fieldIds nFieldIds remaining (typesPack ++ [type])
    else pure ()

/-- Read a value for each of the fields of a `Find`. -/
def readFindFields : List Field → Proc A (List FieldValue)
  | [] => pure []
  | f :: fs => do
    let v ← readField f
    let vs ← readFindFields fs
    return ⟨f, v⟩ :: vs

def deserializeInsert (S : Schema) : Proc (Decoding A S) Unit := do
  let r ← onIo (DbRecordSerializer.deserialize S)
  receiver (.insert r)

/-- No call of the receiver, when no fields fit the IDs, is not a failure here. -/
def deserializeFind (S : Schema) : Proc (Decoding A S) Unit := do
  let nFields ← onIo readByte
  Proc.require (nFields.toNat > 0 ∧ nFields.toNat ≤ Operation.maxFieldCount)
  let ids ← onIo (readByte.times nFields.toNat)
  constructFindOperationType S (fun types => do
    let fieldsTuple ← onIo (readFindFields types)
    receiver (.find fieldsTuple)) ids nFields.toNat Operation.maxFieldCount []

def deserializeUpdateFull (S : Schema) : Proc (Decoding A S) Unit := do
  let keyFieldId ← onIo readByte
  let insertIfNotPresent ← onIo readBool
  let r ← onIo (DbRecordSerializer.deserialize S)
  let success ← forMatchingFields (fun keyField => keyField.id = keyFieldId.toNat) (fun keyField moved => do
    let keyFieldValue ← onIo (readField keyField)
    receiver (.updateFull keyField insertIfNotPresent (if moved then r.movedFrom else r) keyFieldValue)
    return true) S
  Proc.require success

def deserializeAppendToArray (S : Schema) : Proc (Decoding A S) Unit := do
  let keyFieldId ← onIo readByte
  let arrayFieldId ← onIo readByte
  let insertIfNotPresent ← onIo readBool
  let success ← forMatchingFields (fun keyField => keyField.id = keyFieldId.toNat) (fun keyField _ => do
    let keyFieldValue ← onIo (readField keyField)
    forMatchingFields (fun arrayField => arrayField.isArray && arrayField.id = arrayFieldId.toNat)
      (fun arrayField moved => do
        let key := if moved then keyField.valueType.movedFrom keyFieldValue else keyFieldValue
        if insertIfNotPresent then
          let r ← onIo (DbRecordSerializer.deserialize S)
          receiver (.appendToArray keyField arrayField key (.inl r))
        else
          let array ← onIo (readField arrayField)
          receiver (.appendToArray keyField arrayField key (.inr array))
        return true) S) S
  Proc.require success

def deserializeDelete (S : Schema) : Proc (Decoding A S) Unit := do
  let keyFieldId ← onIo readByte
  let success ← forMatchingFields (fun keyField => keyField.id = keyFieldId.toNat) (fun keyField _ => do
    let keyFieldValue ← onIo (readField keyField)
    receiver (.delete keyField keyFieldValue)
    return true) S
  Proc.require success

def deserialize (S : Schema) : Proc (Decoding A S) Unit := do
  let entryType ← onIo readByte
  match OpCode.ofByte? entryType with
  | some .Insert => deserializeInsert S
  | some .Find => deserializeFind S
  | some .UpdateFull => deserializeUpdateFull S
  | some .AppendToArray => deserializeAppendToArray S
  | some .Delete => deserializeDelete S
  | none => .abort ("Uknown entry type encountered in the log: " ++ toString entryType.toNat)

/-- Look at the next byte and go back; when there is none, the result is `false`. -/
def isOperationCompletionMarker : Proc A Bool := do
  let pos := StorageAdapter.pos (← Proc.read)
  match ← readByte.attempt with
  | none => return false
  | some marker =>
    let _ ← (seek pos).attempt
    return marker == markerID

end Serializer

end CppDb
