import CppDb.Wal

/-!
# The write-ahead log: verification (`DbWAL::verifyLog`)

`Verification` is what `verifyLog` works on: the log, its block buffer, the completed operations the
first pass found, and the operations its receiver was called with. The loop over the blocks only ends
because reads move the position, so it takes a bound; running out of it is an outcome of its own.
-/

namespace CppDb
open Embed

structure Verification (B : ℕ → Type) (A : Type) (S : Schema) where
  logFile : A
  blockBuffer : StaticBufferAdapter B BlockSize
  completedOperations : List OpID := []
  received : List (Operation S) := []

namespace Verification
variable {B : ℕ → Type} [StaticDataBuffer B] {A : Type} [StorageAdapter A] [Wheathash] {S : Schema}

def onLogFile {α : Type} (p : Proc A α) : Proc (Verification B A S) α :=
  p.zoom Verification.logFile fun d v => { v with logFile := d }

def onBlockBuffer {α : Type} (p : Proc (StaticBufferAdapter B BlockSize) α) :
    Proc (Verification B A S) α :=
  p.zoom Verification.blockBuffer fun b v => { v with blockBuffer := b }

/-- Decode from the block buffer for the receiver. -/
def onDecoding {α : Type} (p : Proc (Decoding (StaticBufferAdapter B BlockSize) S) α) :
    Proc (Verification B A S) α :=
  p.zoom (fun v => ⟨v.blockBuffer, v.received⟩)
    fun x v => { v with blockBuffer := x.io, received := x.received }

/-- One entry of a block: the first pass collects the IDs of completion markers and skips everything,
the second skips what the first found completed and replays the rest. -/
def verifyEntry (pass : ℕ) : Proc (Verification B A S) Unit := do
  let entryStartPos := (← Proc.read).blockBuffer.pos
  let wholeEntrySize ← onBlockBuffer (StorageIo.read 2)
  .require (leNat wholeEntrySize.1 > 0)
  let operationId ← onBlockBuffer (StorageIo.read 4)
  let operationId : OpID := UInt32.ofNat (leNat operationId.1)
  .require (operationId ≠ 0)
  let skipEntry := pass = 1 ∨ operationId ∈ (← Proc.read).completedOperations
  if pass = 1 then
    if ← onBlockBuffer Serializer.isOperationCompletionMarker then
      .modify fun v => { v with completedOperations := v.completedOperations ++ [operationId] }
  if skipEntry then
    onBlockBuffer (StorageIo.seek (entryStartPos + leNat wholeEntrySize.1))
  else
    onDecoding (Serializer.deserialize S)

def verifyEntries (pass : ℕ) : (itemCount : ℕ) → Proc (Verification B A S) Unit
  | 0 => pure ()
  | n + 1 => do
    verifyEntry pass
    verifyEntries pass n

/-- A block that cannot be read or does not match its checksum is tolerated when it is the last. -/
def malformedBlock (isLastBlock : Bool) : Proc (Verification B A S) Unit :=
  if isLastBlock then pure () else .abort "Failed to read a WAL block that's not the last one!"

/-- A turn of the loop over the blocks. -/
def verifyBlock (pass : ℕ) : Proc (Verification B A S) Unit := do
  let logFile := (← Proc.read).logFile
  let isLastBlock := StorageAdapter.size logFile - StorageAdapter.pos logFile == BlockSize
  match ← (onLogFile (StorageIo.read BlockSize)).attempt with
  | none => malformedBlock isLastBlock
  | some data =>
    .modify fun v =>
      { v with blockBuffer := (StaticBufferAdapter.seek 0 (v.blockBuffer.store 0 data.1)).2 }
    let stored := (← Proc.read).blockBuffer.data
    let checksum := UInt32.ofNat (leNat (slice stored (BlockSize - 4) 4))
    let actualChecksum := Wheathash.wheathash32 (stored.take (BlockSize - 4))
    if checksum ≠ actualChecksum then malformedBlock isLastBlock
    else
      let itemCountInBlock ← onBlockBuffer (StorageIo.read 2)
      .require (leNat itemCountInBlock.1 > 0 ∧ leNat itemCountInBlock.1 ≤ MaxItemCount)
      verifyEntries pass (leNat itemCountInBlock.1)

/-- The loop over the blocks. -/
def verifyBlocks (pass : ℕ) : (fuel : ℕ) → Proc (Verification B A S) Unit
  | 0 => .outOfFuel
  | fuel + 1 => do
    let logFile := (← Proc.read).logFile
    if ¬ StorageAdapter.atEnd logFile ∧
        StorageAdapter.size logFile - StorageAdapter.pos logFile ≥ BlockSize then
      verifyBlock pass
      verifyBlocks pass fuel
    else pure ()

def verify (fuel : ℕ) : Proc (Verification B A S) Unit := do
  .require (StorageAdapter.pos (← Proc.read).logFile = 0)
  .modify fun v => { v with blockBuffer := (StaticBufferAdapter.reserve BlockSize v.blockBuffer).2 }
  verifyBlocks 1 fuel
  onLogFile (StorageIo.seek 0)
  verifyBlocks 2 fuel

end Verification

/-- `verifyLog(receiver)`, with the operations the receiver is called with. -/
def DbWAL.verifyLog {B : ℕ → Type} [StaticDataBuffer B] {A : Type} [StorageAdapter A] [Wheathash]
    (S : Schema) (fuel : ℕ) (w : DbWAL B A) : Exit Unit × DbWAL B A × List (Operation S) :=
  let (exit, v) := (Verification.verify fuel).run
    ({ logFile := w.logFile, blockBuffer := .new } : Verification B A S)
  (exit, { w with logFile := v.logFile }, v.received)

end CppDb
