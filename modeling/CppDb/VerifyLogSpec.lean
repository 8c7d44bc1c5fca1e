import CppDb.VerifyLog
import CppDb.LogFormat

/-!
# What `verifyLog` reports

Over a log made of good blocks and a torn tail, `verifyLog` succeeds and calls its receiver with the
unfinished operations of the blocks, in order (`verifyLog_spec`). A block with a wrong checksum that
is not the last one aborts it (`verifyLog_abort`). `Verification.seen` is what a pass makes of
entries; the two passes share all lemmas up to it.
-/

namespace CppDb
open Embed
open StorageAdapter (pos)
open ReadableAdapter (Ok bytes)

/-- The checksum at the end of a chunk of `BlockSize` bytes does not match the rest of it. -/
def BadChecksum [Wheathash] (chunk : Bytes) : Prop :=
  UInt32.ofNat (leNat (slice chunk (BlockSize - 4) 4)) ≠ Wheathash.wheathash32 (chunk.take (BlockSize - 4))

/-- What may follow the complete blocks of a log: less than a block, or a block with a wrong checksum. -/
def TornTail [Wheathash] (tail : Bytes) : Prop :=
  tail.length < BlockSize ∨ tail.length = BlockSize ∧ BadChecksum tail

theorem ofNat_leNat_leBytes (x : UInt32) : UInt32.ofNat (leNat (leBytes 4 x.toNat)) = x := by
  rw [leNat_leBytes_of_lt x.toNat_lt, UInt32.ofNat_toNat]

theorem not_badChecksum_blockImage [Wheathash] {count : ℕ} {body : Bytes} (h : 2 + body.length ≤ BlockSize) :
    ¬ BadChecksum (blockImage count body) := by
  rw [BadChecksum, not_not, slice, take_blockImage h, drop_blockImage h, List.take_of_length_le (by simp),
    ofNat_leNat_leBytes]

theorem run_isOperationCompletionMarker {A : Type} [StorageAdapter A] [ReadableAdapter A] {d : A}
    {m : UInt8} {rest : Bytes} (hok : Ok d) (h : (bytes d).drop (pos d) = m :: rest) :
    ∃ d', Serializer.isOperationCompletionMarker.run d = (.ret (m == markerID), d') ∧ Ok d' ∧
      bytes d' = bytes d ∧ pos d' = pos d := by
  obtain ⟨d₁, h₁, hok₁, hb₁, -⟩ := Serializer.reads_readByte m hok h
  obtain ⟨d₂, h₂, hok₂, hb₂, hp₂⟩ := ReadableAdapter.seek_some hok₁ (p := pos d) (by
    rw [hb₁]; exact ReadableAdapter.pos_le hok)
  refine ⟨d₂, ?_, hok₂, hb₂.trans hb₁, hp₂⟩
  rw [Serializer.isOperationCompletionMarker, Proc.run_read_bind,
    Proc.run_bind_of_ret (Proc.run_attempt_of_ret h₁)]
  exact Proc.run_bind_of_ret (Proc.run_attempt_of_ret (Proc.run_ofCall_some h₂))

namespace Verification
variable {B : ℕ → Type} {A : Type} {S : Schema} {pass : ℕ} {v : Verification B A S}

def setLog (d : A) (v : Verification B A S) : Verification B A S := { v with logFile := d }

def setBuffer (b : StaticBufferAdapter B BlockSize) (v : Verification B A S) : Verification B A S :=
  { v with blockBuffer := b }

@[simp] theorem logFile_setLog (d : A) : (v.setLog d).logFile = d := rfl
@[simp] theorem logFile_setBuffer (b : StaticBufferAdapter B BlockSize) :
    (v.setBuffer b).logFile = v.logFile := rfl
@[simp] theorem blockBuffer_setLog (d : A) : (v.setLog d).blockBuffer = v.blockBuffer := rfl
@[simp] theorem blockBuffer_setBuffer (b : StaticBufferAdapter B BlockSize) :
    (v.setBuffer b).blockBuffer = b := rfl
@[simp] theorem setBuffer_setBuffer (b b' : StaticBufferAdapter B BlockSize) :
    (v.setBuffer b).setBuffer b' = v.setBuffer b' := rfl
@[simp] theorem setLog_setBuffer (d : A) (b : StaticBufferAdapter B BlockSize) :
    (v.setBuffer b).setLog d = (v.setLog d).setBuffer b := rfl
@[simp] theorem setLog_setLog (d d' : A) : (v.setLog d).setLog d' = v.setLog d' := rfl

/-- The first pass collects completed IDs, the second calls the receiver with operations not completed. -/
def seen (pass : ℕ) (es : List (Entry S)) (v : Verification B A S) : Verification B A S :=
  if pass = 1 then { v with completedOperations := v.completedOperations ++ completedIds es }
  else { v with received := v.received ++ (operationsNotIn v.completedOperations es).map Prod.snd }

@[simp] theorem seen_setLog (es : List (Entry S)) (d : A) :
    seen pass es (v.setLog d) = (seen pass es v).setLog d := by
  unfold seen; split <;> rfl

@[simp] theorem seen_setBuffer (es : List (Entry S)) (b : StaticBufferAdapter B BlockSize) :
    seen pass es (v.setBuffer b) = (seen pass es v).setBuffer b := by
  unfold seen; split <;> rfl

theorem seen_nil : seen pass [] v = v := by
  unfold seen; split <;> simp [completedIds, operationsNotIn]

theorem seen_append (es fs : List (Entry S)) : seen pass (es ++ fs) v = seen pass fs (seen pass es v) := by
  unfold seen
  split
  · simp [completedIds_append]
  · simp [operationsNotIn_append]

/-- In the second pass the first one has already found the completion entries. -/
def Known (pass : ℕ) (v : Verification B A S) (es : List (Entry S)) : Prop :=
  pass ≠ 1 → ∀ id ∈ completedIds es, id ∈ v.completedOperations

theorem Known.left {es fs : List (Entry S)} (h : Known pass v (es ++ fs)) : Known pass v es :=
  fun hp id hid => h hp id (by rw [completedIds_append]; exact List.mem_append_left _ hid)

theorem Known.right {es fs : List (Entry S)} (h : Known pass v (es ++ fs)) :
    Known pass (seen pass es v) fs := by
  intro hp id hid
  rw [seen, if_neg hp]
  exact h hp id (by rw [completedIds_append]; exact List.mem_append_right _ hid)

/-! ### Entries -/

theorem run_onBlockBuffer {α : Type} {p : Proc (StaticBufferAdapter B BlockSize) α} {x : Exit α}
    {b : StaticBufferAdapter B BlockSize} (h : p.run v.blockBuffer = (x, b)) :
    (onBlockBuffer (A := A) p).run v = (x, v.setBuffer b) :=
  Proc.run_zoom_of h

theorem run_onLogFile {α : Type} {p : Proc A α} {x : Exit α} {d : A} (h : p.run v.logFile = (x, d)) :
    (onLogFile (B := B) p).run v = (x, v.setLog d) :=
  Proc.run_zoom_of h

theorem run_onDecoding {α : Type} {p : Proc (Decoding (StaticBufferAdapter B BlockSize) S) α} {x : Exit α}
    {b : StaticBufferAdapter B BlockSize} {received : List (Operation S)}
    (h : p.run ⟨v.blockBuffer, v.received⟩ = (x, ⟨b, received⟩)) :
    (onDecoding (A := A) p).run v = (x, { v with blockBuffer := b, received := received }) := by
  rw [onDecoding, Proc.run_zoom, h]

variable [StaticDataBuffer B]

/-- What the second pass needs: the first one has found the completion entries, and what they leave can be
decoded. -/
structure Ready (pass : ℕ) (v : Verification B A S) (es : List (Entry S)) : Prop where
  known : Known pass v es
  replays : pass ≠ 1 → ∀ x ∈ operationsNotIn v.completedOperations es,
    Delivers (A := StaticBufferAdapter B BlockSize) (Serializer.deserialize S) x.2.encode () [x.2]

theorem ready_one (v : Verification B A S) (es : List (Entry S)) : Ready 1 v es :=
  ⟨fun h => absurd rfl h, fun h => absurd rfl h⟩

theorem Ready.left {es fs : List (Entry S)} (h : Ready pass v (es ++ fs)) : Ready pass v es :=
  ⟨h.known.left, fun hp x hx => h.replays hp x (by rw [operationsNotIn_append]; exact List.mem_append_left _ hx)⟩

theorem Ready.right {es fs : List (Entry S)} (h : Ready pass v (es ++ fs)) : Ready pass (seen pass es v) fs := by
  refine ⟨h.known.right, fun hp x hx => ?_⟩
  rw [seen, if_neg hp] at hx
  refine h.replays hp x ?_
  rw [operationsNotIn_append]
  exact List.mem_append_right _ hx

theorem Ready.setBuffer {es : List (Entry S)} (h : Ready pass v es) (b : StaticBufferAdapter B BlockSize) :
    Ready pass (v.setBuffer b) es :=
  ⟨h.known, h.replays⟩

/-- The header of an entry: what is left of `verifyEntry` after its size and its ID were read. -/
theorem verifyEntry_header (pass : ℕ) (hok : Ok v.blockBuffer) {e : Entry S} {rest : Bytes}
    (hd : (bytes v.blockBuffer).drop (pos v.blockBuffer) = e.bytes ++ rest) (hid : e.id ≠ 0)
    (hsize : e.body.size < 65536) :
    ∃ b, Ok b ∧ bytes b = bytes v.blockBuffer ∧ pos b = pos v.blockBuffer + 6 ∧
      (bytes b).drop (pos b) = e.body.payload ++ rest ∧
      (verifyEntry pass).run v = (do
        let skipEntry := pass = 1 ∨ e.id ∈ v.completedOperations
        if pass = 1 then
          if ← onBlockBuffer Serializer.isOperationCompletionMarker then
            .modify fun v => { v with completedOperations := v.completedOperations ++ [e.id] }
        if skipEntry then
          onBlockBuffer (StorageIo.seek (pos v.blockBuffer + e.body.size))
        else
          onDecoding (Serializer.deserialize S) : Proc (Verification B A S) Unit).run
            (v.setBuffer b) := by
  have hsize' : leNat (leBytes 2 e.body.size) = e.body.size := leNat_leBytes_of_lt (by simpa using hsize)
  have hid' : UInt32.ofNat (leNat (leBytes 4 e.id.toNat)) = e.id := ofNat_leNat_leBytes e.id
  rw [Entry.bytes, List.append_assoc] at hd
  obtain ⟨b₁, h₁, hok₁, hb₁, hp₁⟩ :=
    Reads.read (A := StaticBufferAdapter B BlockSize) (n := 2) ⟨leBytes 2 e.body.size, length_leBytes ..⟩ hok hd
  have hd₁ : (bytes b₁).drop (pos b₁) = leBytes 4 e.id.toNat ++ (e.body.payload ++ rest) := by
    rw [hb₁, hp₁, drop_of_drop hd, List.append_assoc]
  obtain ⟨b₂, h₂, hok₂, hb₂, hp₂⟩ :=
    Reads.read (A := StaticBufferAdapter B BlockSize) (n := 4) ⟨leBytes 4 e.id.toNat, length_leBytes ..⟩ hok₁ hd₁
  simp only [length_leBytes] at hp₁ hp₂
  refine ⟨b₂, hok₂, hb₂.trans hb₁, by omega, ?_, ?_⟩
  · rw [hb₂, hp₂, show 4 = (leBytes 4 e.id.toNat).length from (length_leBytes ..).symm, drop_of_drop hd₁]
  · have hpos : leNat (leBytes 2 e.body.size) > 0 := by
      rw [hsize', EntryBody.size]; omega
    have hne : UInt32.ofNat (leNat (leBytes 4 e.id.toNat)) ≠ 0 := by rwa [hid']
    rw [verifyEntry, Proc.run_read_bind, Proc.run_bind_of_ret (run_onBlockBuffer h₁),
      Proc.run_bind_of_ret (Proc.run_require_pos hpos _),
      Proc.run_bind_of_ret (run_onBlockBuffer (v := v.setBuffer b₁) h₂),
      Proc.run_bind_of_ret (Proc.run_require_pos hne _), Proc.run_read_bind]
    simp only [hsize', hid']
    rfl

theorem verifyEntry_spec (hok : Ok v.blockBuffer) {e : Entry S}
    {rest : Bytes} (hd : (bytes v.blockBuffer).drop (pos v.blockBuffer) = e.bytes ++ rest)
    (hid : e.id ≠ 0) (hsize : e.body.size < 65536) (hready : Ready pass v [e]) :
    ∃ b, (verifyEntry pass).run v = (.ret (), (seen pass [e] v).setBuffer b) ∧ Ok b ∧
      bytes b = bytes v.blockBuffer ∧ pos b = pos v.blockBuffer + e.bytes.length := by
  have hend : pos v.blockBuffer + e.body.size ≤ (bytes v.blockBuffer).length := by
    have h := congrArg List.length hd
    rw [List.length_drop, List.length_append, e.length_bytes] at h
    have := ReadableAdapter.pos_le hok
    have := e.body.minItemSize_le
    simp only [MinItemSize] at this
    omega
  obtain ⟨b₁, hok₁, hb₁, hp₁, hd₁, hrun⟩ := verifyEntry_header pass hok hd hid hsize
  rw [hrun, e.length_bytes]
  -- the position after the entry, reached by seeking
  have skip : ∀ b : StaticBufferAdapter B BlockSize, Ok b → bytes b = bytes v.blockBuffer → ∃ b',
      (StorageIo.seek (pos v.blockBuffer + e.body.size)).run b = (.ret (), b') ∧ Ok b' ∧
        bytes b' = bytes v.blockBuffer ∧ pos b' = pos v.blockBuffer + e.body.size := by
    intro b hb hbytes
    obtain ⟨b', h', hok', hb', hp'⟩ := ReadableAdapter.seek_some hb (p := pos v.blockBuffer + e.body.size)
      (by rwa [hbytes])
    exact ⟨b', Proc.run_ofCall_some h', hok', hb'.trans hbytes, hp'⟩
  by_cases hpass : pass = 1
  · obtain ⟨m, ms, hm⟩ := List.exists_cons_of_length_pos e.body.payload_pos
    rw [hm] at hd₁
    obtain ⟨b₂, h₂, hok₂, hb₂, hp₂⟩ := run_isOperationCompletionMarker hok₁ hd₁
    obtain ⟨b₃, h₃, hrest⟩ := skip b₂ hok₂ (hb₂.trans hb₁)
    refine ⟨b₃, ?_, hrest⟩
    simp only [hpass, true_or, if_true]
    rw [seen, if_pos rfl]
    have hcompleted : (if (m == markerID) = true then [e.id] else []) = completedIds [e] := by
      rcases e with ⟨ticket, op | ⟨opId, status⟩⟩
      · have hne : m ≠ markerID := by
          have hcode : m = op.opCode.toByte := (List.cons.inj hm).1.symm
          rw [hcode]; cases op.opCode <;> decide
        rw [if_neg (by simpa using hne)]; rfl
      · have hcode : m = markerID := (List.cons.inj hm).1.symm
        rw [if_pos (by simp [hcode])]; rfl
    rw [← hcompleted, Proc.run_bind_of_ret (run_onBlockBuffer (v := v.setBuffer b₁) h₂)]
    by_cases hmarker : (m == markerID) = true
    · rw [if_pos hmarker, if_pos hmarker]
      exact run_onBlockBuffer (v := { v.setBuffer b₂ with
        completedOperations := v.completedOperations ++ [e.id] }) h₃
    · rw [if_neg hmarker, if_neg hmarker, List.append_nil]
      exact run_onBlockBuffer (v := v.setBuffer b₂) h₃
  · simp only [hpass, false_or, if_false]
    by_cases hmem : e.id ∈ v.completedOperations
    · obtain ⟨b₃, h₃, hrest⟩ := skip b₁ hok₁ hb₁
      refine ⟨b₃, ?_, hrest⟩
      rw [if_pos hmem, seen, if_neg hpass, operationsNotIn_of_mem hmem, List.map_nil, List.append_nil]
      exact run_onBlockBuffer (v := v.setBuffer b₁) h₃
    · rcases e with ⟨ticket, op | ⟨opId, status⟩⟩
      · have hleft : (ticket, op) ∈ operationsNotIn v.completedOperations [⟨ticket, .operation op⟩] :=
          mem_operationsNotIn.2 ⟨List.mem_singleton_self _, hmem⟩
        obtain ⟨b₃, h₃, hok₃, hb₃, hp₃⟩ := hready.replays hpass _ hleft v.received hok₁ hd₁
        refine ⟨b₃, ?_, hok₃, hb₃.trans hb₁, ?_⟩
        · rw [if_neg hmem, seen, if_neg hpass,
            operationsNotIn_operation (show ticket ∉ v.completedOperations from hmem)]
          exact run_onDecoding (v := v.setBuffer b₁) h₃
        · dsimp only at hp₃
          rw [hp₃, hp₁, EntryBody.size, EntryBody.payload]
          omega
      · exact absurd (hready.known hpass opId (by simp [completedIds])) hmem

theorem verifyEntries_spec (pass : ℕ) {es : List (Entry S)}
    (hid : ∀ e ∈ es, e.id ≠ 0) (hsize : ∀ e ∈ es, e.body.size < 65536) {rest : Bytes} (hok : Ok v.blockBuffer)
    (hd : (bytes v.blockBuffer).drop (pos v.blockBuffer) = entriesBytes es ++ rest)
    (hready : Ready pass v es) :
    ∃ b, (verifyEntries pass es.length).run v = (.ret (), (seen pass es v).setBuffer b) ∧
      Ok b ∧ bytes b = bytes v.blockBuffer := by
  induction es generalizing v with
  | nil => exact ⟨v.blockBuffer, by rw [seen_nil]; rfl, hok, rfl⟩
  | cons e es ih =>
    rw [entriesBytes_cons, List.append_assoc] at hd
    have hready : Ready pass v ([e] ++ es) := hready
    obtain ⟨b₁, h₁, hok₁, hb₁, hp₁⟩ := verifyEntry_spec hok hd (hid e (List.mem_cons_self ..))
      (hsize e (List.mem_cons_self ..)) hready.left
    obtain ⟨b₂, h₂, hok₂, hb₂⟩ := ih (v := (seen pass [e] v).setBuffer b₁)
      (fun x hx => hid x (List.mem_cons_of_mem _ hx)) (fun x hx => hsize x (List.mem_cons_of_mem _ hx)) hok₁
      (by rw [blockBuffer_setBuffer, hb₁, hp₁]; exact drop_of_drop hd)
      (hready.right.setBuffer b₁)
    refine ⟨b₂, ?_, hok₂, hb₂.trans hb₁⟩
    have happ : seen pass (e :: es) v = seen pass es (seen pass [e] v) := seen_append [e] es
    rw [List.length_cons, verifyEntries, Proc.run_bind_of_ret h₁, h₂, seen_setBuffer, setBuffer_setBuffer,
      happ]

/-! ### Blocks -/

/-- The block buffer of `verifyLog`: as large as a block. -/
def Whole (b : StaticBufferAdapter B BlockSize) : Prop := Ok b ∧ b.size = BlockSize

theorem Whole.length_bytes {b : StaticBufferAdapter B BlockSize} (h : Whole b) :
    (bytes b).length = BlockSize :=
  (StaticBufferAdapter.length_bytes (Nat.le_of_eq h.2)).trans h.2

theorem whole_of_shows {b : StaticBufferAdapter B BlockSize} {p : ℕ} {d : Bytes}
    (h : b.Shows BlockSize p d) (hp : p ≤ BlockSize) : Whole b :=
  ⟨⟨by rw [h.pos, h.size]; exact hp, Nat.le_of_eq h.size⟩, h.size⟩

theorem whole_store {b : StaticBufferAdapter B BlockSize} (hb : Whole b) {data : Bytes}
    (hlen : data.length = BlockSize) :
    Whole (StaticBufferAdapter.seek 0 (b.store 0 data)).2 ∧
      bytes (StaticBufferAdapter.seek 0 (b.store 0 data)).2 = data ∧
      (StaticBufferAdapter.seek 0 (b.store 0 data)).2.data = data ∧
      pos (StaticBufferAdapter.seek 0 (b.store 0 data)).2 = 0 := by
  have hb' : b.Shows BlockSize b.pos b.data := ⟨hb.2, rfl, rfl⟩
  have hall : overwrite b.data 0 data = data := by
    rw [overwrite, List.take_zero, List.nil_append, List.drop_eq_nil_of_le, List.append_nil]
    rw [b.length_data]; omega
  have h := (hb'.store (q := 0) (show 0 + data.length ≤ BlockSize by omega)).seek (q := 0) (Nat.zero_le _)
  rw [hall] at h
  refine ⟨whole_of_shows h (Nat.zero_le _), ?_, h.data, h.pos⟩
  change (StaticBufferAdapter.seek 0 (b.store 0 data)).2.data.take _ = _
  rw [h.data, h.size, ← hlen, List.take_length]

theorem whole_reserve :
    Whole (StaticBufferAdapter.reserve BlockSize (.new : StaticBufferAdapter B BlockSize)).2 := by
  obtain ⟨_, hnew⟩ := StaticBufferAdapter.shows_new (B := B) (N := BlockSize)
  obtain ⟨_, h, -⟩ := hnew.reserve (Nat.le_refl BlockSize)
  exact whole_of_shows h (Nat.zero_le _)

/-- The state in which the first pass starts. -/
def started (logFile : A) : Verification B A S :=
  { logFile := logFile, blockBuffer := (StaticBufferAdapter.reserve BlockSize .new).2 }

variable [StorageAdapter A] [ReadableAdapter A] [Wheathash]

/-- Reading a chunk: what is left of `verifyBlock`, depending on the checksum. -/
theorem verifyBlock_read (pass : ℕ) (hok : Ok v.logFile) (hb : Whole v.blockBuffer) {data rest : Bytes}
    (hlen : data.length = BlockSize)
    (hd : (bytes v.logFile).drop (pos v.logFile) = data ++ rest) :
    ∃ d b, Ok d ∧ bytes d = bytes v.logFile ∧ pos d = pos v.logFile + BlockSize ∧ Whole b ∧
      bytes b = data ∧ pos b = 0 ∧
      (verifyBlock pass).run v =
        (if UInt32.ofNat (leNat (slice data (BlockSize - 4) 4)) ≠
            Wheathash.wheathash32 (data.take (BlockSize - 4)) then malformedBlock (rest.length == 0)
        else do
          let itemCountInBlock ← onBlockBuffer (StorageIo.read 2)
          .require (leNat itemCountInBlock.1 > 0 ∧ leNat itemCountInBlock.1 ≤ MaxItemCount)
          verifyEntries pass (leNat itemCountInBlock.1) : Proc (Verification B A S) Unit).run
            ((v.setLog d).setBuffer b) := by
  obtain ⟨d, hr, hok', hbytes, hpos⟩ := Reads.read (A := A) (n := BlockSize) ⟨data, hlen⟩ hok hd
  obtain ⟨hw, hbs, hdata, hp0⟩ := whole_store hb hlen
  refine ⟨d, _, hok', hbytes, by rw [hpos, hlen], hw, hbs, hp0, ?_⟩
  have hlast : (StorageAdapter.size v.logFile - pos v.logFile == BlockSize) = (rest.length == 0) := by
    have h := congrArg List.length hd
    rw [List.length_drop, List.length_append, hlen] at h
    rw [ReadableAdapter.size_eq hok, h, Bool.eq_iff_iff, beq_iff_eq, beq_iff_eq]
    omega
  rw [verifyBlock, Proc.run_read_bind]
  dsimp only
  rw [hlast, Proc.run_bind_of_ret (Proc.run_attempt_of_ret (run_onLogFile hr))]
  simp only [Proc.run_modify_bind, Proc.run_read_bind, blockBuffer_setLog, hdata]
  rfl

theorem verifyBlock_good (pass : ℕ) (hok : Ok v.logFile)
    (hb : Whole v.blockBuffer) {es : List (Entry S)} (hes : GoodBlock es) {rest : Bytes}
    (hd : (bytes v.logFile).drop (pos v.logFile) = encodeBlock es ++ rest) (hready : Ready pass v es) :
    ∃ d b, (verifyBlock pass).run v = (.ret (), ((seen pass es v).setLog d).setBuffer b) ∧ Ok d ∧
      bytes d = bytes v.logFile ∧ pos d = pos v.logFile + BlockSize ∧ Whole b := by
  have hroom := hes.room
  have hfit : 2 + (entriesBytes es).length ≤ BlockSize := by omega
  obtain ⟨d, b, hok', hbytes, hpos, hw, hdata, hp0, hrun⟩ := verifyBlock_read pass hok hb
    (show (encodeBlock es).length = BlockSize from length_blockImage hfit) hd
  have hsum : ¬ UInt32.ofNat (leNat (slice (encodeBlock es) (BlockSize - 4) 4)) ≠
      Wheathash.wheathash32 ((encodeBlock es).take (BlockSize - 4)) := not_badChecksum_blockImage hfit
  have hcount : leNat (leBytes 2 es.length) = es.length := by
    refine leNat_leBytes_of_lt (Nat.lt_of_le_of_lt hes.length_le ?_)
    decide
  have hd₁ := (congrArg (List.drop (pos b)) hdata).trans (by
    rw [hp0, List.drop_zero, encodeBlock, blockImage_eq hroom])
  obtain ⟨b₁, h₁, hok₁, hb₁, hp₁⟩ := Reads.read (A := StaticBufferAdapter B BlockSize) (n := 2)
    ⟨leBytes 2 es.length, length_leBytes ..⟩ hw.1 hd₁
  obtain ⟨b₂, h₂, hok₂, hb₂⟩ := verifyEntries_spec pass (v := (v.setLog d).setBuffer b₁)
    hes.id_ne hes.size_lt hok₁ (by
      rw [blockBuffer_setBuffer, hb₁, hp₁]; exact drop_of_drop hd₁) ⟨hready.known, hready.replays⟩
  refine ⟨d, b₂, ?_, hok', hbytes, hpos, hok₂, ?_⟩
  · rw [hrun, if_neg hsum, Proc.run_bind_of_ret (run_onBlockBuffer (v := (v.setLog d).setBuffer b) h₁),
      Proc.run_bind_of_ret (Proc.run_require_pos (by
        rw [hcount]; exact ⟨List.length_pos_iff.2 hes.ne_nil, hes.length_le⟩) _)]
    simp only [hcount, setBuffer_setBuffer]
    rw [h₂, seen_setBuffer, seen_setLog, setBuffer_setBuffer]
  · have hlen : (bytes b₂).length = BlockSize := by
      rw [hb₂, blockBuffer_setBuffer, hb₁, hw.length_bytes]
    rwa [← ReadableAdapter.size_eq hok₂] at hlen

/-- A wrong checksum: the last block is skipped, any other aborts. -/
theorem verifyBlock_bad (pass : ℕ) (hok : Ok v.logFile) (hb : Whole v.blockBuffer) {data rest : Bytes}
    (hlen : data.length = BlockSize) (hbad : BadChecksum data)
    (hd : (bytes v.logFile).drop (pos v.logFile) = data ++ rest) :
    ∃ d b, (verifyBlock pass).run v =
        (if rest = [] then .ret () else .abort "Failed to read a WAL block that's not the last one!",
          (v.setLog d).setBuffer b) ∧ Ok d ∧
      bytes d = bytes v.logFile ∧ pos d = pos v.logFile + BlockSize ∧ Whole b := by
  obtain ⟨d, b, hok', hbytes, hpos, hw, -, -, hrun⟩ := verifyBlock_read pass hok hb hlen hd
  refine ⟨d, b, ?_, hok', hbytes, hpos, hw⟩
  rw [BadChecksum] at hbad
  rw [hrun, if_pos hbad]
  cases rest with
  | nil => rfl
  | cons x xs => rfl

/-! ### The log -/

theorem verifyBlocks_succ (hok : Ok v.logFile) (fuel : ℕ) :
    (verifyBlocks pass (fuel + 1)).run v =
      (if BlockSize ≤ ((bytes v.logFile).drop (pos v.logFile)).length then
        verifyBlock pass >>= fun _ => verifyBlocks pass fuel else pure () : Proc _ Unit).run v := by
  have hpos := ReadableAdapter.pos_le hok
  have hcond : (¬ StorageAdapter.atEnd v.logFile = true ∧
      StorageAdapter.size v.logFile - pos v.logFile ≥ BlockSize) ↔
      BlockSize ≤ ((bytes v.logFile).drop (pos v.logFile)).length := by
    rw [ReadableAdapter.atEnd_eq hok, ReadableAdapter.size_eq hok, List.length_drop, decide_eq_true_iff,
      BlockSize]
    omega
  rw [verifyBlocks, Proc.run_read_bind]
  dsimp only
  simp only [hcond]

/-- The loop over good blocks. -/
theorem verifyBlocks_good (pass : ℕ) {blocks : List (List (Entry S))}
    (hblocks : ∀ es ∈ blocks, GoodBlock es) (hok : Ok v.logFile) (hb : Whole v.blockBuffer) {tail : Bytes}
    (hd : (bytes v.logFile).drop (pos v.logFile) = (blocks.map encodeBlock).flatten ++ tail)
    (hready : Ready pass v blocks.flatten) (fuel : ℕ) :
    ∃ d b, (verifyBlocks pass (blocks.length + fuel)).run v =
        (verifyBlocks pass fuel).run (((seen pass blocks.flatten v).setLog d).setBuffer b) ∧ Ok d ∧
      bytes d = bytes v.logFile ∧ (bytes d).drop (pos d) = tail ∧ Whole b := by
  induction blocks generalizing v with
  | nil =>
    refine ⟨v.logFile, v.blockBuffer, ?_, hok, rfl, hd, hb⟩
    rw [List.length_nil, Nat.zero_add, List.flatten_nil, seen_nil]
    rfl
  | cons es blocks ih =>
    have hes := hblocks es (List.mem_cons_self ..)
    have hlen := hes.length_encodeBlock
    rw [List.map_cons, List.flatten_cons, List.append_assoc] at hd
    have hready : Ready pass v (es ++ blocks.flatten) := hready
    obtain ⟨d, b, hrun, hok', hbytes, hpos, hw⟩ := verifyBlock_good pass hok hb hes hd hready.left
    obtain ⟨d₂, b₂, hrun₂, hok₂, hbytes₂, htail, hw₂⟩ :=
      ih (v := ((seen pass es v).setLog d).setBuffer b) (fun x hx => hblocks x (List.mem_cons_of_mem _ hx))
        hok' hw (by
          simp only [logFile_setBuffer, logFile_setLog, hbytes, hpos]
          rw [← hlen]; exact drop_of_drop hd)
        ⟨hready.right.known, hready.right.replays⟩
    refine ⟨d₂, b₂, ?_, hok₂, hbytes₂.trans hbytes, htail, hw₂⟩
    have hahead : BlockSize ≤ ((bytes v.logFile).drop (pos v.logFile)).length := by
      rw [hd, List.length_append, hlen]; omega
    rw [List.length_cons, Nat.add_right_comm, verifyBlocks_succ hok, if_pos hahead,
      Proc.run_bind_of_ret hrun, hrun₂, List.flatten_cons, seen_append]
    simp only [seen_setBuffer, seen_setLog, setLog_setBuffer, setLog_setLog, setBuffer_setBuffer]

/-- The loop over a torn tail: it stops, or skips one block and stops. -/
theorem verifyBlocks_tail (pass : ℕ) (hok : Ok v.logFile) (hb : Whole v.blockBuffer) {tail : Bytes}
    (htail : TornTail tail) (hd : (bytes v.logFile).drop (pos v.logFile) = tail) {fuel : ℕ}
    (hfuel : tail.length / BlockSize < fuel) :
    ∃ d b, (verifyBlocks pass fuel).run v = (.ret (), (v.setLog d).setBuffer b) ∧ Ok d ∧
      bytes d = bytes v.logFile ∧ Whole b := by
  obtain ⟨fuel, rfl⟩ := Nat.exists_eq_succ_of_ne_zero (Nat.ne_zero_of_lt hfuel)
  rw [verifyBlocks_succ hok, hd]
  rcases htail with hlt | ⟨hlen, hbad⟩
  · rw [if_neg (Nat.not_le.2 hlt)]
    exact ⟨v.logFile, v.blockBuffer, rfl, hok, rfl, hb⟩
  · obtain ⟨d, b, hrun, hok', hbytes, hpos, hw⟩ := verifyBlock_bad pass hok hb hlen hbad
      (show _ = tail ++ [] by rw [hd, List.append_nil])
    rw [if_pos rfl] at hrun
    obtain ⟨fuel, rfl⟩ : ∃ n, fuel = n + 1 := by
      rw [hlen, Nat.div_self (by decide)] at hfuel
      exact ⟨fuel - 1, by omega⟩
    refine ⟨d, b, ?_, hok', hbytes, hw⟩
    have hend : (bytes d).drop (pos d) = [] := by
      rw [hbytes, hpos, ← hlen]
      exact drop_of_drop (show _ = tail ++ [] by rw [hd, List.append_nil])
    rw [if_pos (Nat.le_of_eq hlen.symm), Proc.run_bind_of_ret hrun, verifyBlocks_succ (by exact hok')]
    simp only [logFile_setBuffer, logFile_setLog, hend]
    rfl

/-- A pass over the whole log. -/
theorem verifyBlocks_spec (pass : ℕ) {blocks : List (List (Entry S))}
    (hblocks : ∀ es ∈ blocks, GoodBlock es) {tail : Bytes} (htail : TornTail tail) (hok : Ok v.logFile)
    (hb : Whole v.blockBuffer) (hpos : pos v.logFile = 0)
    (hbytes : bytes v.logFile = (blocks.map encodeBlock).flatten ++ tail)
    (hready : Ready pass v blocks.flatten) {fuel : ℕ}
    (hfuel : blocks.length + tail.length / BlockSize < fuel) :
    ∃ d b, (verifyBlocks pass fuel).run v =
        (.ret (), ((seen pass blocks.flatten v).setLog d).setBuffer b) ∧ Ok d ∧
      bytes d = bytes v.logFile ∧ Whole b := by
  have hd : (bytes v.logFile).drop (pos v.logFile) = (blocks.map encodeBlock).flatten ++ tail := by
    rw [hpos, List.drop_zero, hbytes]
  have hleft : tail.length / BlockSize < fuel - blocks.length :=
    Nat.lt_sub_of_add_lt (by rwa [Nat.add_comm])
  obtain ⟨d, b, hrun, hok₁, hb₁, hd₁, hw₁⟩ := verifyBlocks_good pass hblocks hok hb hd hready
    (fuel - blocks.length)
  obtain ⟨d₂, b₂, hrun₂, hok₂, hb₂, hw₂⟩ := verifyBlocks_tail pass
    (v := ((seen pass blocks.flatten v).setLog d).setBuffer b) hok₁ hw₁ htail hd₁ hleft
  refine ⟨d₂, b₂, ?_, hok₂, hb₂.trans hb₁, hw₂⟩
  rw [Nat.add_sub_cancel' (Nat.le_of_lt (Nat.lt_of_le_of_lt (Nat.le_add_right ..) hfuel))] at hrun
  rw [hrun, hrun₂, setLog_setBuffer, setLog_setLog, setBuffer_setBuffer]

omit [ReadableAdapter A] in
theorem run_verify {logFile : A} (hpos : pos logFile = 0) (fuel : ℕ) :
    (verify fuel).run ({ logFile := logFile, blockBuffer := .new } : Verification B A S) = (do
      verifyBlocks 1 fuel
      onLogFile (StorageIo.seek 0)
      verifyBlocks 2 fuel : Proc (Verification B A S) Unit).run (started logFile) := by
  rw [verify, Proc.run_read_bind, Proc.run_bind_of_ret (Proc.run_require_pos hpos _),
    Proc.run_modify_bind]
  rfl

theorem verify_spec {blocks : List (List (Entry S))} (hblocks : ∀ es ∈ blocks, GoodBlock es)
    (hreplays : ∀ x ∈ unfinished blocks.flatten,
      Delivers (A := StaticBufferAdapter B BlockSize) (Serializer.deserialize S) x.2.encode () [x.2])
    {tail : Bytes} (htail : TornTail tail) {logFile : A} (hok : Ok logFile) (hpos : pos logFile = 0)
    (hbytes : bytes logFile = (blocks.map encodeBlock).flatten ++ tail) {fuel : ℕ}
    (hfuel : blocks.length + tail.length / BlockSize < fuel) :
    ∃ v' : Verification B A S, (verify fuel).run { logFile := logFile, blockBuffer := .new } = (.ret (), v') ∧
      v'.received = (unfinished blocks.flatten).map Prod.snd ∧ bytes v'.logFile = bytes logFile ∧
      Ok v'.logFile := by
  obtain ⟨d₁, b₁, h₁, hok₁, hb₁, hw₁⟩ := verifyBlocks_spec 1 (B := B) (S := S)
    (v := started logFile) hblocks htail hok whole_reserve hpos hbytes (ready_one ..) hfuel
  obtain ⟨d₂, h₂, hok₂, hb₂, hp₂⟩ := ReadableAdapter.seek_some hok₁ (Nat.zero_le _)
  obtain ⟨d₃, b₃, h₃, hok₃, hb₃, hw₃⟩ := verifyBlocks_spec 2
    (v := ((seen 1 blocks.flatten (started logFile)).setLog d₂).setBuffer b₁) hblocks htail hok₂ hw₁
    hp₂ ((hb₂.trans hb₁).trans hbytes) ⟨fun _ id hid => hid, fun _ => hreplays⟩ hfuel
  refine ⟨((seen 2 blocks.flatten (((seen 1 blocks.flatten (started logFile)).setLog d₂).setBuffer
    b₁)).setLog d₃).setBuffer b₃, ?_, rfl, (hb₃.trans hb₂).trans hb₁, hok₃⟩
  have hseek : (StorageIo.seek 0).run d₁ = (.ret (), d₂) := Proc.run_ofCall_some h₂
  rw [run_verify hpos, Proc.run_bind_of_ret h₁, Proc.run_bind_of_ret (run_onLogFile
    (v := ((seen 1 blocks.flatten (started logFile)).setLog d₁).setBuffer b₁) hseek)]
  exact h₃

theorem verify_abort {blocks : List (List (Entry S))} (hblocks : ∀ es ∈ blocks, GoodBlock es) {bad rest : Bytes}
    (hlen : bad.length = BlockSize) (hbad : BadChecksum bad) (hrest : rest ≠ []) {logFile : A}
    (hok : Ok logFile) (hpos : pos logFile = 0)
    (hbytes : bytes logFile = (blocks.map encodeBlock).flatten ++ (bad ++ rest)) {fuel : ℕ}
    (hfuel : blocks.length < fuel) :
    ∃ v' : Verification B A S, (verify fuel).run { logFile := logFile, blockBuffer := .new } =
      (.abort "Failed to read a WAL block that's not the last one!", v') := by
  have hd : (bytes logFile).drop (pos logFile) = (blocks.map encodeBlock).flatten ++ (bad ++ rest) := by
    rw [hpos, List.drop_zero, hbytes]
  obtain ⟨d₁, b₁, h₁, hok₁, hb₁, hd₁, hw₁⟩ := verifyBlocks_good 1 (B := B) (S := S)
    (v := started logFile) hblocks hok whole_reserve hd (ready_one ..)
    (fuel - blocks.length)
  obtain ⟨d₂, b₂, h₂, -⟩ := verifyBlock_bad 1
    (v := ((seen 1 blocks.flatten (started logFile)).setLog d₁).setBuffer b₁) hok₁ hw₁ hlen hbad hd₁
  rw [if_neg hrest] at h₂
  have hahead : BlockSize ≤ ((bytes d₁).drop (pos d₁)).length := by
    rw [hd₁, List.length_append, hlen]; omega
  obtain ⟨n, hn⟩ : ∃ n, fuel - blocks.length = n + 1 := ⟨fuel - blocks.length - 1, by omega⟩
  rw [Nat.add_sub_cancel' (Nat.le_of_lt hfuel), hn, verifyBlocks_succ (by exact hok₁),
    if_pos (by exact hahead), Proc.run_bind_of_abort h₂] at h₁
  exact ⟨_, by rw [run_verify hpos, Proc.run_bind_of_abort h₁]⟩

end Verification

/-! ### `verifyLog` -/

section
variable {B : ℕ → Type} [StaticDataBuffer B] {A : Type} [StorageAdapter A] [ReadableAdapter A] [Wheathash]
variable {S : Schema}

/-- What the second pass comes to can be decoded. -/
theorem verifyLog_of_replays {blocks : List (List (Entry S))} (hblocks : ∀ es ∈ blocks, GoodBlock es)
    (hreplays : ∀ x ∈ unfinished blocks.flatten,
      Delivers (A := StaticBufferAdapter B BlockSize) (Serializer.deserialize S) x.2.encode () [x.2]) {tail : Bytes}
    (htail : TornTail tail) {w : DbWAL B A} (hok : Ok w.logFile) (hpos : pos w.logFile = 0)
    (hbytes : bytes w.logFile = (blocks.map encodeBlock).flatten ++ tail) {fuel : ℕ}
    (hfuel : blocks.length + tail.length / BlockSize < fuel) :
    (w.verifyLog S fuel).1 = .ret () ∧
      (w.verifyLog S fuel).2.2 = (unfinished blocks.flatten).map Prod.snd ∧
      ∃ d, (w.verifyLog S fuel).2.1 = { w with logFile := d } ∧ Ok d ∧ bytes d = bytes w.logFile := by
  obtain ⟨v', hrun, hreceived, hb, hok'⟩ :=
    Verification.verify_spec (B := B) hblocks hreplays htail hok hpos hbytes hfuel
  rw [DbWAL.verifyLog, hrun]
  exact ⟨rfl, hreceived, _, rfl, hok', hb⟩

theorem verifyLog_spec (hS : S.checkAssertions = true) (hids : S.ByteIds)
    {blocks : List (List (Entry S))} (hblocks : ∀ es ∈ blocks, ReadableBlock es) {tail : Bytes}
    (htail : TornTail tail) {w : DbWAL B A} (hok : Ok w.logFile) (hpos : pos w.logFile = 0)
    (hbytes : bytes w.logFile = (blocks.map encodeBlock).flatten ++ tail) {fuel : ℕ}
    (hfuel : blocks.length + tail.length / BlockSize < fuel) :
    (w.verifyLog S fuel).1 = .ret () ∧
      (w.verifyLog S fuel).2.2 = (unfinished blocks.flatten).map Prod.snd ∧
      ∃ d, (w.verifyLog S fuel).2.1 = { w with logFile := d } ∧ Ok d ∧ bytes d = bytes w.logFile := by
  refine verifyLog_of_replays (fun es hes => (hblocks es hes).toGoodBlock) (fun x hx => ?_) htail hok hpos hbytes hfuel
  obtain ⟨es, hes, hmem⟩ := List.mem_flatten.1 (mem_unfinished.1 hx).1
  have hbody : x.2.OverRecord ∧ x.2.Short := (hblocks es hes).ok _ hmem
  exact Serializer.delivers_deserialize (Schema.staticFirst_of_checkAssertions hS)
    (Schema.nodup_of_checkAssertions hS) (hbody.1.replayable hids) hbody.2

theorem verifyLog_abort {blocks : List (List (Entry S))} (hblocks : ∀ es ∈ blocks, GoodBlock es) {bad rest : Bytes}
    (hlen : bad.length = BlockSize) (hbad : BadChecksum bad) (hrest : rest ≠ []) {w : DbWAL B A}
    (hok : Ok w.logFile) (hpos : pos w.logFile = 0)
    (hbytes : bytes w.logFile = (blocks.map encodeBlock).flatten ++ (bad ++ rest)) {fuel : ℕ}
    (hfuel : blocks.length < fuel) :
    (w.verifyLog S fuel).1 = .abort "Failed to read a WAL block that's not the last one!" := by
  obtain ⟨v', hrun⟩ := Verification.verify_abort (B := B) (S := S) hblocks hlen hbad hrest hok hpos hbytes hfuel
  rw [DbWAL.verifyLog, hrun]

end

end CppDb
