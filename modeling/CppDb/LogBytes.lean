import CppDb.LogDevice
import CppDb.VerifyLogSpec
import CppDb.WalRuns
import CppDb.Lib.Relate

/-!
# `verifyLog` and the bytes of the log

`verifyLog` works on the log through `pos`, `size`, `atEnd`, reads of whole blocks within it, and a seek to its
start. So whatever the bytes are, what it answers and reports depends on them alone, whichever device holds them,
and it leaves them as they are (`verifyLog_of_bytes`).
-/

namespace CppDb
open Embed
open StorageAdapter (pos)
open ReadableAdapter (Ok bytes)

section
variable {B : ℕ → Type} {A C : Type} [StorageAdapter A] [ReadableAdapter A] [StorageAdapter C] [ReadableAdapter C]
variable {S : Schema} {content : Bytes}

/-- Two devices that hold these bytes, at the same position. -/
structure Holding (content : Bytes) (d : A) (d' : C) : Prop where
  ok : Ok d
  ok' : Ok d'
  bytes_eq : bytes d = content
  bytes_eq' : bytes d' = content
  pos_eq : pos d = pos d'

namespace Verification

theorem relates_rewind : Proc.Relates (Holding (A := A) (C := C) content) (StorageIo.seek 0) (StorageIo.seek 0) := by
  intro d d' h
  obtain ⟨d₁, hseek, hok, hb, hp⟩ := ReadableAdapter.seek_some h.ok (Nat.zero_le _)
  obtain ⟨d₁', hseek', hok', hb', hp'⟩ := ReadableAdapter.seek_some h.ok' (Nat.zero_le _)
  have hrun : (StorageIo.seek 0).run d = _ := Proc.run_ofCall_some hseek
  have hrun' : (StorageIo.seek 0).run d' = _ := Proc.run_ofCall_some hseek'
  rw [Proc.RelatesAt, hrun, hrun']
  exact ⟨rfl, hok, hok', hb.trans h.bytes_eq, hb'.trans h.bytes_eq', hp.trans hp'.symm⟩

/-- Two verifications that have come equally far through these bytes. -/
structure Abreast (content : Bytes) (v : Verification B A S) (v' : Verification B C S) : Prop where
  log : Holding content v.logFile v'.logFile
  blockBuffer : v.blockBuffer = v'.blockBuffer
  completedOperations : v.completedOperations = v'.completedOperations
  received : v.received = v'.received

theorem Abreast.size_eq {v : Verification B A S} {v' : Verification B C S} (h : Abreast content v v') :
    StorageAdapter.size v.logFile = content.length ∧ StorageAdapter.size v'.logFile = content.length :=
  ⟨(ReadableAdapter.size_eq h.log.ok).trans (congrArg _ h.log.bytes_eq),
    (ReadableAdapter.size_eq h.log.ok').trans (congrArg _ h.log.bytes_eq')⟩

theorem relates_onBlockBuffer {α : Type} (p : Proc (StaticBufferAdapter B BlockSize) α) :
    Proc.Relates (Abreast (S := S) (A := A) (C := C) content) (onBlockBuffer p) (onBlockBuffer p) :=
  .zoom (Q := Eq) (fun _ _ h => h.blockBuffer) (fun _ _ _ _ h hb => ⟨h.log, hb, h.completedOperations, h.received⟩)
    (.refl p)

theorem relates_onDecoding {α : Type} (p : Proc (Decoding (StaticBufferAdapter B BlockSize) S) α) :
    Proc.Relates (Abreast (A := A) (C := C) content) (onDecoding p) (onDecoding p) := by
  refine .zoom (Q := Eq) (fun v v' h => ?_) (fun v v' x y h hx => ?_) (.refl p)
  · rw [h.blockBuffer, h.received]
  · subst hx
    exact ⟨h.log, rfl, h.completedOperations, rfl⟩

variable [StaticDataBuffer B]

theorem relates_verifyEntry (pass : ℕ) :
    Proc.Relates (Abreast (B := B) (S := S) (A := A) (C := C) content) (verifyEntry pass) (verifyEntry pass) := by
  refine .read_bind fun v v' h => ?_
  rw [h.blockBuffer]
  refine (relates_onBlockBuffer _).bind fun wholeEntrySize => (Proc.Relates.require _).bind fun _ => ?_
  refine (relates_onBlockBuffer _).bind fun operationId => (Proc.Relates.require _).bind fun _ => ?_
  refine .read_bind fun w w' hw => ?_
  rw [hw.completedOperations]
  have hskip : ∀ (c : Prop) [Decidable c] (p : ℕ), Proc.Relates (Abreast (B := B) (S := S) (A := A) (C := C) content)
      (if c then onBlockBuffer (StorageIo.seek p) else onDecoding (Serializer.deserialize S))
      (if c then onBlockBuffer (StorageIo.seek p) else onDecoding (Serializer.deserialize S)) := fun c _ p =>
    .ite (relates_onBlockBuffer _) (relates_onDecoding _)
  refine .ite ((relates_onBlockBuffer _).bind fun isMarker => .ite ?_ (hskip _ _)) (hskip _ _)
  refine (Proc.Relates.modify fun u u' hu => ?_).bind fun _ => hskip _ _
  exact ⟨hu.log, hu.blockBuffer, by rw [hu.completedOperations], hu.received⟩

theorem relates_verifyEntries (pass itemCount : ℕ) :
    Proc.Relates (Abreast (B := B) (S := S) (A := A) (C := C) content) (verifyEntries pass itemCount)
      (verifyEntries pass itemCount) := by
  induction itemCount with
  | zero => exact .pure ()
  | succ n ih => exact (relates_verifyEntry pass).bind fun _ => ih

omit [StaticDataBuffer B] in
theorem relates_malformedBlock (isLastBlock : Bool) :
    Proc.Relates (Abreast (B := B) (S := S) (A := A) (C := C) content) (malformedBlock isLastBlock)
      (malformedBlock isLastBlock) := .ite (.pure ()) (.abort _)

omit [StaticDataBuffer B] in
theorem relatesAt_readBlock {v : Verification B A S} {v' : Verification B C S} (h : Abreast content v v')
    (hleft : pos v.logFile + BlockSize ≤ content.length) : Proc.RelatesAt (Abreast content)
      (onLogFile (StorageIo.read BlockSize)) (onLogFile (StorageIo.read BlockSize)) v v' := by
  have hpos := h.log.pos_eq
  obtain ⟨d, hread, hok, hb, hp⟩ := ReadableAdapter.read_some h.log.ok (n := BlockSize) (by rwa [h.log.bytes_eq])
  obtain ⟨d', hread', hok', hb', hp'⟩ := ReadableAdapter.read_some h.log.ok' (n := BlockSize)
    (by rwa [h.log.bytes_eq', ← hpos])
  have hrun : (StorageIo.read BlockSize).run v.logFile = _ := Proc.run_ofCall_some hread
  have hrun' : (StorageIo.read BlockSize).run v'.logFile = _ := Proc.run_ofCall_some hread'
  rw [Proc.RelatesAt, onLogFile, onLogFile, Proc.run_zoom, Proc.run_zoom, hrun, hrun']
  refine ⟨congrArg Exit.ret (Subtype.ext ?_), ⟨hok, hok', hb.trans h.log.bytes_eq, hb'.trans h.log.bytes_eq',
    by rw [hp, hp', hpos]⟩, h.blockBuffer, h.completedOperations, h.received⟩
  change slice (bytes v.logFile) (pos v.logFile) BlockSize = slice (bytes v'.logFile) (pos v'.logFile) BlockSize
  rw [h.log.bytes_eq, h.log.bytes_eq', hpos]

variable [Wheathash]

theorem relatesAt_verifyBlock (pass : ℕ) {v : Verification B A S} {v' : Verification B C S} (h : Abreast content v v')
    (hleft : pos v.logFile + BlockSize ≤ content.length) :
    Proc.RelatesAt (Abreast content) (verifyBlock pass) (verifyBlock pass) v v' := by
  obtain ⟨hsize, hsize'⟩ := h.size_eq
  refine .read_bind ?_
  dsimp only
  rw [hsize, hsize', h.log.pos_eq]
  refine (relatesAt_readBlock h hleft).attempt.bind fun data => ?_
  cases data with
  | none => exact relates_malformedBlock _
  | some data =>
    refine (Proc.Relates.modify fun u u' hu => ?_).bind fun _ => .read_bind fun w w' hw => ?_
    · exact ⟨hu.log, by rw [hu.blockBuffer], hu.completedOperations, hu.received⟩
    · rw [hw.blockBuffer]
      exact .ite (relates_malformedBlock _)
        ((relates_onBlockBuffer _).bind fun count => (Proc.Relates.require _).bind fun _ => relates_verifyEntries _ _)

theorem relates_verifyBlocks (pass fuel : ℕ) :
    Proc.Relates (Abreast (B := B) (S := S) (A := A) (C := C) content) (verifyBlocks pass fuel)
      (verifyBlocks pass fuel) := by
  induction fuel with
  | zero => exact .outOfFuel
  | succ fuel ih =>
    intro v v' h
    obtain ⟨hsize, hsize'⟩ := h.size_eq
    refine .read_bind ?_
    dsimp only
    rw [ReadableAdapter.atEnd_eq h.log.ok, ReadableAdapter.atEnd_eq h.log.ok', h.log.bytes_eq, h.log.bytes_eq', hsize,
      hsize', h.log.pos_eq]
    split
    · next hleft =>
      refine (relatesAt_verifyBlock pass h ?_).bind fun _ => ih
      have hblock : 0 < BlockSize := by decide
      rw [h.log.pos_eq]
      omega
    · exact Proc.Relates.pure () h

theorem relates_verify (fuel : ℕ) :
    Proc.Relates (Abreast (B := B) (S := S) (A := A) (C := C) content) (verify fuel) (verify fuel) := by
  refine .read_bind fun v v' h => ?_
  rw [h.log.pos_eq]
  refine (Proc.Relates.require _).bind fun _ => (Proc.Relates.modify fun u u' hu => ?_).bind fun _ => ?_
  · exact ⟨hu.log, by rw [hu.blockBuffer], hu.completedOperations, hu.received⟩
  · refine (relates_verifyBlocks 1 fuel).bind fun _ => Proc.Relates.bind ?_ fun _ => relates_verifyBlocks 2 fuel
    refine .zoom (Q := Holding content) (fun _ _ hu => hu.log) (fun _ _ _ _ hu hd => ?_) relates_rewind
    exact ⟨hd, hu.blockBuffer, hu.completedOperations, hu.received⟩

end Verification

variable [StaticDataBuffer B] [Wheathash]

/-- **What `verifyLog` makes of a log depends on its bytes alone**, whatever they are: on two devices that hold the same
bytes it ends alike and reports alike, and it changes neither the bytes nor anything else of the `DbWAL`. -/
theorem verifyLog_of_bytes {w : DbWAL B A} {v : DbWAL B C} (hok : Ok w.logFile) (hok' : Ok v.logFile)
    (hbytes : bytes w.logFile = bytes v.logFile) (hpos : pos w.logFile = pos v.logFile) (fuel : ℕ) :
    (w.verifyLog S fuel).1 = (v.verifyLog S fuel).1 ∧
    (w.verifyLog S fuel).2.2 = (v.verifyLog S fuel).2.2 ∧
    bytes (w.verifyLog S fuel).2.1.logFile = bytes w.logFile ∧
    { (w.verifyLog S fuel).2.1 with logFile := w.logFile } = w := by
  have h : Verification.Abreast (bytes w.logFile) (⟨w.logFile, .new, [], []⟩ : Verification B A S)
      ⟨v.logFile, .new, [], []⟩ :=
    ⟨⟨hok, hok', rfl, hbytes.symm, hpos⟩, rfl, rfl, rfl⟩
  obtain ⟨hexit, habreast⟩ := Verification.relates_verify fuel h
  exact ⟨hexit, habreast.received, habreast.log.bytes_eq, rfl⟩

end

theorem exists_holding (content : Bytes) (hlen : content.length ≤ 8192) :
    ∃ d : StaticBufferAdapter ListBuffer 8192, Ok d ∧ bytes d = content ∧ pos d = 0 := by
  have hok : Ok (.new : StaticBufferAdapter ListBuffer 8192) := ⟨Nat.zero_le _, Nat.zero_le _⟩
  obtain ⟨d, -, hok', hb, -⟩ := MemoryAdapter.write_some hok
    (show MemoryAdapter.Fits (StaticBufferAdapter ListBuffer 8192) (0 + content.length) by rwa [Nat.zero_add])
  obtain ⟨d', -, hok'', hb', hp⟩ := ReadableAdapter.seek_some hok' (Nat.zero_le _)
  refine ⟨d', hok'', ?_, hp⟩
  rw [hb', hb]
  exact overwrite_end rfl

open ByteSum in
theorem verifyLog_of_bytes_smallEntry : ∃ d : StaticBufferAdapter ListBuffer 8192,
    bytes d = encodeBlock [smallEntry] ∧ ((DbWAL.new (B := ListBuffer) d).verifyLog keySchema 2).1 = .ret () ∧
      ((DbWAL.new (B := ListBuffer) d).verifyLog keySchema 2).2.2 = [deleteKey [97]] ∧
      bytes ((DbWAL.new (B := ListBuffer) d).verifyLog keySchema 2).2.1.logFile = encodeBlock [smallEntry] := by
  have hreadable : ∀ es ∈ [[smallEntry]], ReadableBlock es := List.forall_mem_singleton.2 readableBlock_smallEntry
  have hlen := readableBlock_smallEntry.length_encodeBlock
  obtain ⟨d, hok, hbytes, hpos⟩ := exists_holding (encodeBlock [smallEntry]) (by rw [hlen]; decide)
  have hlog : bytes ({ data := encodeBlock [smallEntry] } : VectorAdapter) =
      ([[smallEntry]].map encodeBlock).flatten ++ [] := by
    rw [List.map_singleton, List.flatten_singleton, List.append_nil]
    rfl
  obtain ⟨hret, hreceived, -⟩ := verifyLog_spec keySchema_checkAssertions keySchema_byteIds hreadable
    (.inl (by decide)) (w := .new (B := ListBuffer) ({ data := encodeBlock [smallEntry] } : VectorAdapter)) trivial rfl
    hlog (show 1 + 0 < 2 from Nat.lt_succ_self 1)
  obtain ⟨hexit, hreports, hsame, -⟩ := verifyLog_of_bytes (S := keySchema) (w := .new (B := ListBuffer) d)
    (v := .new (B := ListBuffer) ({ data := encodeBlock [smallEntry] } : VectorAdapter)) hok trivial hbytes hpos 2
  exact ⟨d, hbytes, hexit.trans hret, hreports.trans hreceived, hsame.trans hbytes⟩

end CppDb
