import CppDb.Operation
import CppDb.MemoryAdapters

/-!
# The write-ahead log: writing (`dbwal.hpp`)

`DbWAL` is the state its mutex guards (and the atomic `_lastFlushedOpId`), and every definition here
is one critical section, or a part of one. `registerOperation` and `updateOpStatus` end where the
source goes on to `waitForFlushAndHandleTimeout`; the wait itself, which runs outside the mutex, is in
`WalThreads.lean`, and its part under the mutex is `flushOnTimeout`.

`assert_r(e)` and `assert_and_return_r(e, r)` are read as in a release build: `e` is evaluated, and
the second returns `r` when `e` is false. The hash `wheathash32` belongs to another library and is a
parameter; so is `static_data_buffer`.
-/

namespace CppDb
open Embed

/-- `WAL::OpID`. -/
abbrev OpID := UInt32

/-- `wheathash32(ptr, size)`, some function of the bytes. -/
class Wheathash where
  wheathash32 : Bytes → UInt32

namespace ByteSum

/-- A hash for runs on fixed inputs. -/
scoped instance byteSum : Wheathash := ⟨fun bs => UInt32.ofNat (bs.map UInt8.toNat).sum⟩

end ByteSum

def BlockSize : ℕ := 4096

theorem blockSize_pos : 0 < BlockSize := by decide

/-- `sizeof(EntrySizeType) + sizeof(WAL::OpID) + 1`. -/
def MinItemSize : ℕ := 2 + 4 + 1

def MaxItemCount : ℕ := BlockSize / MinItemSize

/-- Subtraction of `size_t`, which wraps. -/
@[irreducible] def subSizeT (a b : ℕ) : ℕ := (a + 2 ^ 64 - b) % 2 ^ 64

structure DbWAL (B : ℕ → Type) (A : Type) where
  lastFlushedOpId : OpID := 0
  lastBlockOpId : OpID := 0
  block : StaticBufferAdapter B BlockSize
  blockItemCount : ℕ := 0
  pendingOperations : List OpID := []
  operationsProcessed : ℕ := 0
  logFile : A
  lastOpId : OpID := 0

/-- The locals of a call when it leaves its critical section and starts to wait: the entry it composed
and the arguments of `waitForFlushAndHandleTimeout`. -/
structure Locals where
  entry : Bytes
  currentOpId : OpID
  firstWriter : Bool
  operationStartTimeStamp : UInt64

namespace DbWAL
variable {B : ℕ → Type} [StaticDataBuffer B] {A : Type} [StorageAdapter A] [Wheathash] {S : Schema}

/-- `DbWAL(walIoDevice)`. -/
def new (walIoDevice : A) : DbWAL B A := { block := .new, logFile := walIoDevice }

def onBlock {α : Type} (p : Proc (StaticBufferAdapter B BlockSize) α) : Proc (DbWAL B A) α :=
  p.zoom DbWAL.block fun b w => { w with block := b }

def onLogFile {α : Type} (p : Proc A α) : Proc (DbWAL B A) α :=
  p.zoom DbWAL.logFile fun d w => { w with logFile := d }

def blockIsEmpty (w : DbWAL B A) : Bool := w.blockItemCount == 0

/-- The results of the buffer calls are ignored. -/
def startNewBlock (w : DbWAL B A) : DbWAL B A :=
  { w with
    blockItemCount := 0
    block := (StaticBufferAdapter.seekToEnd
      (StaticBufferAdapter.reserve 2 (StaticBufferAdapter.clear w.block).2).2).2 }

def newBlockRequiredForData (w : DbWAL B A) (dataSize : ℕ) : Bool :=
  let remainingCapacity := subSizeT (subSizeT w.block.remainingCapacity 4) 2
  -- both callers pass the size of an entry that is in a buffer of one block: this sum does not wrap
  dataSize + MinItemSize + 20 > remainingCapacity

/-- Write the item count, extend the block to `BlockSize` with zeros, hash it, store the hash in its
last bytes and append it to the log. -/
def finalizeAndflushCurrentBlock : Proc (DbWAL B A) Unit := do
  .modify fun w => { w with block := (StaticBufferAdapter.seek 0 w.block).2 }
  let count := (← Proc.read).blockItemCount
  .require (count ≤ 65535 ∧ count > 0)
  onBlock (StorageIo.write (leBytes 2 count))
  let actualBlockSize := (← Proc.read).block.size
  .modify fun w => { w with block := (StaticBufferAdapter.reserve BlockSize w.block).2 }
  .modify fun w =>
    { w with block := w.block.store actualBlockSize (.replicate (BlockSize - actualBlockSize) 0) }
  let hash := Wheathash.wheathash32 ((← Proc.read).block.data.take (BlockSize - 4))
  .modify fun w => { w with block := (StaticBufferAdapter.seek (BlockSize - 4) w.block).2 }
  onBlock (StorageIo.write (leBytes 4 hash.toNat))
  onLogFile StorageIo.seekToEnd
  let data := (← Proc.read).block.data
  onLogFile (StorageIo.write data)
  onLogFile StorageIo.flush
  .modify fun w => { w with lastFlushedOpId := w.lastBlockOpId }
  .modify startNewBlock

/-- The space check of both kinds of calls; they make it while their `firstWriter` is still `false`. -/
def makeRoom (firstWriter : Bool) (entrySize : ℕ) : Proc (DbWAL B A) Unit := do
  if (← Proc.read).newBlockRequiredForData entrySize then
    if firstWriter then .abort "Not enough space in the block!"
    finalizeAndflushCurrentBlock

/-! ### `registerOperation` -/

/-- Compose the entry, all but its ID, in the entry buffer; returns the entry size. -/
def composeOperation (op : Operation S) : Proc (StaticBufferAdapter B BlockSize) ℕ := do
  .modify fun b => (StaticBufferAdapter.seekToEnd (StaticBufferAdapter.reserve (2 + 4) b).2).2
  Serializer.serialize op
  let entrySize := (← Proc.read).size
  let _ ← (StorageIo.writeAt (leBytes 2 entrySize) 0).attempt
  return entrySize

/-- The critical section from the space check on. -/
def registerEntry (newOpId : OpID) (entry : Bytes) (entrySize : ℕ) (timeElapsedMs : UInt64) :
    Proc (DbWAL B A) Locals := do
  makeRoom false entrySize
  let firstWriter := (← Proc.read).blockIsEmpty
  let timeStamp := if firstWriter then timeElapsedMs else 0
  .modify fun w => { w with lastBlockOpId := newOpId }
  onBlock (StorageIo.write entry)
  .modify fun w => { w with
    blockItemCount := w.blockItemCount + 1
    pendingOperations := w.pendingOperations ++ [newOpId]
    operationsProcessed := w.operationsProcessed + 1 }
  return ⟨entry, newOpId, firstWriter, timeStamp⟩

/-- The critical section. The ID goes into the entry buffer right after the entry size. -/
def registerComposed (entryBuffer : StaticBufferAdapter B BlockSize) (entrySize : ℕ)
    (timeElapsedMs : UInt64) : Proc (DbWAL B A) Locals := do
  .modify fun w => { w with lastOpId := w.lastOpId + 1 }
  let newOpId := (← Proc.read).lastOpId
  let entryBuffer := ((StorageIo.write (leBytes 4 newOpId.toNat)).run entryBuffer).2
  registerEntry newOpId (entryBuffer.data.take entrySize) entrySize timeElapsedMs

/-- `registerOperation`, up to the wait. -/
def registerOperation (op : Operation S) (timeElapsedMs : UInt64) : Proc (DbWAL B A) Locals :=
  match (composeOperation op).run (.new : StaticBufferAdapter B BlockSize) with
  | (.ret entrySize, entryBuffer) => registerComposed entryBuffer entrySize timeElapsedMs
  | (.abort m, _) => .abort m
  | _ => .fail

/-! ### `updateOpStatus` -/

/-- Compose the completion entry; returns its size. -/
def composeMarker (opId : OpID) (status : OpStatus) : Proc (StaticBufferAdapter B BlockSize) ℕ := do
  .modify fun b => (StaticBufferAdapter.reserve 2 b).2
  StorageIo.seek 2
  StorageIo.write (leBytes 4 opId.toNat)
  Serializer.serializeMarker status
  let entrySize := (← Proc.read).size
  StorageIo.writeAt (leBytes 2 entrySize) 0
  return entrySize

/-- The critical section from the space check on. -/
def updateEntry (newOpId : OpID) (entry : Bytes) (entrySize : ℕ) (opId : OpID) (timeElapsedMs : UInt64) :
    Proc (DbWAL B A) Locals := do
  makeRoom false entrySize
  let firstWriter := (← Proc.read).blockIsEmpty
  let timeStamp := if firstWriter then timeElapsedMs else 0
  onBlock (StorageIo.write entry)
  .modify fun w => { w with
    blockItemCount := w.blockItemCount + 1
    lastBlockOpId := newOpId
    pendingOperations := w.pendingOperations.erase opId }
  return ⟨entry, newOpId, firstWriter, timeStamp⟩

/-- The critical section. -/
def updateComposed (entryBuffer : StaticBufferAdapter B BlockSize) (entrySize : ℕ) (opId : OpID)
    (timeElapsedMs : UInt64) : Proc (DbWAL B A) Locals := do
  .require (opId ∈ (← Proc.read).pendingOperations)
  .modify fun w => { w with lastOpId := w.lastOpId + 1 }
  let newOpId := (← Proc.read).lastOpId
  updateEntry newOpId (entryBuffer.data.take entrySize) entrySize opId timeElapsedMs

/-- `updateOpStatus`, up to the wait. -/
def updateOpStatus (opId : OpID) (status : OpStatus) (timeElapsedMs : UInt64) :
    Proc (DbWAL B A) Locals :=
  match (composeMarker opId status).run (.new : StaticBufferAdapter B BlockSize) with
  | (.ret entrySize, entryBuffer) => updateComposed entryBuffer entrySize opId timeElapsedMs
  | (.abort m, _) => .abort m
  | _ => .fail

/-- What a waiting call does under the mutex when its time is up. -/
def flushOnTimeout (currentOpId : OpID) : Proc (DbWAL B A) Unit := do
  if (← Proc.read).lastFlushedOpId < currentOpId then
    match ← finalizeAndflushCurrentBlock.attempt with
    | some _ => return ()
    | none => .abort "WAL: flush failed!"

def openLogFile (filePath : String) : Proc (DbWAL B A) Unit := do
  .modify startNewBlock
  onLogFile (StorageIo.open_ filePath .Write)

def closeLogFile : Proc (DbWAL B A) Unit := do
  if ¬ (← Proc.read).blockIsEmpty then finalizeAndflushCurrentBlock
  onLogFile StorageIo.close

/-- The block in progress is not touched. -/
def clearLog [ClearableAdapter A] : Proc (DbWAL B A) Unit := do
  onLogFile StorageIo.clear
  onLogFile StorageIo.flush

end DbWAL

end CppDb
