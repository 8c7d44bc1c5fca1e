import CppDb.LogFormat

/-!
# The block in progress

`Filled b body p`: the buffer `b` holds the item count's two bytes and then `body`, and its position
is `p`. The lemmas say what the buffer calls of `DbWAL` make of such a buffer;
`run_finalize_ret` and `run_finalize_fail` say what `finalizeAndflushCurrentBlock` does when the append
to the log succeeds and when it fails, and `run_finalize_empty` that an empty block makes it fail with
the position moved to the beginning.
-/

namespace CppDb
open Embed

/-- The three calls with which a finished block is appended. -/
def StorageIo.append {A : Type} [StorageAdapter A] (data : Bytes) : Proc A Unit := do
  StorageIo.seekToEnd
  StorageIo.write data
  StorageIo.flush

theorem run_ofCall_cases {σ α : Type} (c : Call σ α) (s : σ) :
    (∃ a s', (Proc.ofCall c).run s = (.ret a, s')) ∨ ∃ s', (Proc.ofCall c).run s = (.fail, s') := by
  rcases h : c s with ⟨_ | a, s'⟩
  · exact .inr ⟨s', Proc.run_ofCall_none h⟩
  · exact .inl ⟨a, s', Proc.run_ofCall_some h⟩

theorem StorageIo.append_cases {A : Type} [StorageAdapter A] (data : Bytes) (d : A) :
    (∃ d', (append data).run d = (.ret (), d')) ∨ ∃ d', (append data).run d = (.fail, d') := by
  rcases run_ofCall_cases StorageAdapter.seekToEnd d with ⟨_, d₁, h₁⟩ | ⟨d₁, h₁⟩
  swap; · exact .inr ⟨d₁, Proc.run_bind_of_fail h₁⟩
  rcases run_ofCall_cases (StorageAdapter.write data) d₁ with ⟨_, d₂, h₂⟩ | ⟨d₂, h₂⟩
  swap; · exact .inr ⟨d₂, (Proc.run_bind_of_ret h₁).trans (Proc.run_bind_of_fail h₂)⟩
  rcases run_ofCall_cases StorageAdapter.flush d₂ with ⟨_, d₃, h₃⟩ | ⟨d₃, h₃⟩
  · exact .inl ⟨d₃, (Proc.run_bind_of_ret h₁).trans ((Proc.run_bind_of_ret h₂).trans h₃)⟩
  · exact .inr ⟨d₃, (Proc.run_bind_of_ret h₁).trans ((Proc.run_bind_of_ret h₂).trans h₃)⟩

/-- The device fails to store some block. -/
def AppendFails {A : Type} [StorageAdapter A] (d : A) : Prop :=
  ∃ block d', block.length = BlockSize ∧ (StorageIo.append block).run d = (.fail, d')

theorem append_of_not_fails {A : Type} [StorageAdapter A] {d : A} (h : ¬ AppendFails d) {block : Bytes}
    (hlen : block.length = BlockSize) : ∃ d', (StorageIo.append block).run d = (.ret (), d') := by
  rcases StorageIo.append_cases block d with hret | ⟨d', hfail⟩
  · exact hret
  · exact absurd ⟨block, d', hlen, hfail⟩ h

/-! ### Buffer calls -/

section Buffer
variable {B : ℕ → Type} [StaticDataBuffer B] {b : StaticBufferAdapter B BlockSize} {body : Bytes}
variable {p : ℕ}

/-- The buffer holds `body` after the two bytes of the item count. -/
def Filled (b : StaticBufferAdapter B BlockSize) (body : Bytes) (p : ℕ) : Prop :=
  ∃ count rest, count.length = 2 ∧ b.Shows (2 + body.length) p (count ++ (body ++ rest))

namespace Filled

theorem pos (h : Filled b body p) : b.pos = p :=
  let ⟨_, _, _, hb⟩ := h; hb.pos

theorem size (h : Filled b body p) : b.size = 2 + body.length :=
  let ⟨_, _, _, hb⟩ := h; hb.size

theorem le (h : Filled b body p) : 2 + body.length ≤ BlockSize := by
  obtain ⟨count, rest, hcount, hb⟩ := h
  have := hb.length
  rw [List.length_append, List.length_append] at this
  omega

theorem seek (h : Filled b body p) {q : ℕ} (hq : q ≤ 2 + body.length) :
    Filled (StaticBufferAdapter.seek q b).2 body q := by
  obtain ⟨count, rest, hcount, hb⟩ := h
  exact ⟨count, rest, hcount, hb.seek hq⟩

theorem write (h : Filled b body (2 + body.length)) {entry : Bytes}
    (hfit : 2 + body.length + entry.length ≤ BlockSize) :
    ∃ b', (StorageIo.write entry).run b = (.ret (), b') ∧
      Filled b' (body ++ entry) (2 + (body ++ entry).length) := by
  obtain ⟨count, rest, hcount, hb⟩ := h
  obtain ⟨b', hrun, hb'⟩ := hb.write hfit
  refine ⟨b', hrun, count, rest.drop entry.length, hcount, ?_⟩
  have hpre : (count ++ body).length = 2 + body.length := by rw [List.length_append, hcount]
  have hdata : overwrite (count ++ (body ++ rest)) (2 + body.length) entry =
      count ++ ((body ++ entry) ++ rest.drop entry.length) := by
    rw [← List.append_assoc, overwrite_append (Nat.le_of_eq hpre), hpre, Nat.sub_self, overwrite,
      List.take_zero, List.nil_append, Nat.zero_add]
    simp only [List.append_assoc]
  rw [hdata, Nat.max_eq_right (Nat.le_add_right ..), Nat.add_assoc, ← List.length_append] at hb'
  exact hb'

theorem write_fail (h : Filled b body p) {entry : Bytes} (hfit : BlockSize < p + entry.length) :
    ∃ b', (StorageIo.write entry).run b = (.fail, b') ∧ Filled b' body p := by
  obtain ⟨count, rest, hcount, hb⟩ := h
  obtain ⟨b', hrun, hb'⟩ := hb.write_fail hfit
  exact ⟨b', hrun, count, rest, hcount, hb'⟩

end Filled

/-- The buffer calls of `startNewBlock`. -/
def freshBlock (b : StaticBufferAdapter B BlockSize) : StaticBufferAdapter B BlockSize :=
  (StaticBufferAdapter.seekToEnd (StaticBufferAdapter.reserve 2 (StaticBufferAdapter.clear b).2).2).2

theorem filled_freshBlock (b : StaticBufferAdapter B BlockSize) : Filled (freshBlock b) [] 2 := by
  have hb : b.Shows b.size b.pos b.data := ⟨rfl, rfl, rfl⟩
  obtain ⟨d₁, h₁, -⟩ := hb.reserve (Nat.zero_le BlockSize)
  obtain ⟨d₂, h₂, -⟩ := (h₁.seek (Nat.le_refl 0)).reserve (n := 2) (by decide)
  have hend := h₂.seekToEnd
  have hlen := hend.length
  refine ⟨d₂.take 2, d₂.drop 2, ?_, ?_⟩
  · rw [List.length_take, hlen]; rfl
  · rw [List.nil_append, List.take_append_drop]
    exact hend

section Finish
variable [Wheathash]

/-- The block buffer after the count was written and the rest filled with zeros. -/
def padded (b : StaticBufferAdapter B BlockSize) : StaticBufferAdapter B BlockSize :=
  (StaticBufferAdapter.reserve BlockSize b).2.store b.size (.replicate (BlockSize - b.size) 0)

/-- What `finalizeAndflushCurrentBlock` does to the buffer before it appends it to the log. -/
theorem Filled.finish (h : Filled b body p) (count : ℕ) :
    ∃ b₁ b₂, (StorageIo.write (leBytes 2 count)).run (StaticBufferAdapter.seek 0 b).2 = (.ret (), b₁) ∧
      (StorageIo.write (leBytes 4
          (Wheathash.wheathash32 ((padded b₁).data.take (BlockSize - 4))).toNat)).run
        (StaticBufferAdapter.seek (BlockSize - 4) (padded b₁)).2 = (.ret (), b₂) ∧
      b₂.data = blockImage count body ∧ Filled b₂ ((blockImage count body).drop 2) BlockSize := by
  have hle := h.le
  obtain ⟨old, rest, hold, hb⟩ := h
  -- the item count goes over the first two bytes
  obtain ⟨b₁, h₁, hb₁⟩ := (hb.seek (Nat.zero_le _)).write
    (show 0 + (leBytes 2 count).length ≤ BlockSize by rw [length_leBytes]; decide)
  have hdata₁ : overwrite (old ++ (body ++ rest)) 0 (leBytes 2 count) = leBytes 2 count ++ (body ++ rest) := by
    rw [overwrite, List.take_zero, List.nil_append, length_leBytes, Nat.zero_add, List.drop_left' hold]
  rw [hdata₁, length_leBytes, Nat.zero_add, Nat.max_eq_left (Nat.le_add_right ..)] at hb₁
  -- the rest of the block is filled with zeros
  obtain ⟨d₂, hb₂, hd₂⟩ := hb₁.reserve (Nat.le_refl BlockSize)
  have hpre : d₂.take (2 + body.length) = leBytes 2 count ++ body := by
    rw [Nat.min_eq_left hle] at hd₂
    rw [hd₂, ← List.append_assoc, List.take_left' (by rw [List.length_append, length_leBytes])]
  have hb₃ := hb₂.store (q := b₁.size) (show _ + (List.replicate (BlockSize - b₁.size) 0).length ≤ _ by
    rw [hb₁.size, List.length_replicate]; omega)
  have hdata₃ : overwrite d₂ b₁.size (.replicate (BlockSize - b₁.size) 0) =
      leBytes 2 count ++ (body ++ .replicate (BlockSize - 2 - body.length) 0) := by
    rw [hb₁.size, overwrite, hpre, List.drop_eq_nil_of_le, List.append_nil, List.append_assoc, Nat.sub_sub]
    rw [hb₂.length, List.length_replicate]; omega
  rw [hdata₃] at hb₃
  -- the checksum goes over the last four bytes
  have hhash : (padded b₁).data.take (BlockSize - 4) = unhashed count body := by
    rw [padded, hb₃.data, unhashed]
  obtain ⟨b₄, h₄, hb₄⟩ := (hb₃.seek (q := BlockSize - 4) (Nat.sub_le ..)).write
    (show _ + (leBytes 4 (Wheathash.wheathash32 (unhashed count body)).toNat).length ≤ BlockSize by
      rw [length_leBytes]; decide)
  have hdata₄ : overwrite (leBytes 2 count ++ (body ++ .replicate (BlockSize - 2 - body.length) 0))
      (BlockSize - 4) (leBytes 4 (Wheathash.wheathash32 (unhashed count body)).toNat) =
      blockImage count body := by
    rw [overwrite, blockImage, unhashed, List.drop_eq_nil_of_le, List.append_nil]
    rw [length_leBytes]
    simp only [BlockSize, List.length_append, length_leBytes, List.length_replicate] at hle ⊢
    omega
  rw [hdata₄, length_leBytes] at hb₄
  refine ⟨b₁, b₄, h₁, ?_, hb₄.data, ?_⟩
  · rw [hhash]; exact h₄
  · have hlen : (blockImage count body).length = BlockSize := length_blockImage hle
    refine ⟨(blockImage count body).take 2, [], ?_, ?_⟩
    · rw [List.length_take, hlen]; rfl
    · rw [List.append_nil, List.take_append_drop, List.length_drop, hlen]
      exact hb₄

end Finish

/-! ### Composing an entry -/

theorem take_overwrite_header {d : Bytes} {n : ℕ} {size id : Bytes} (hsize : size.length = 2)
    (hid : id.length = 4) (hn : 6 ≤ n) :
    (overwrite (overwrite d 0 size) 2 id).take n = size ++ (id ++ (d.take n).drop 6) := by
  have h := overwrite_overwrite (l := d) (p := 0) size id (Nat.zero_le _)
  rw [hsize, Nat.zero_add] at h
  have hlen : (size ++ id).length = 6 := by rw [List.length_append, hsize, hid]
  rw [h, overwrite, List.take_zero, List.nil_append, hlen, Nat.zero_add, List.take_append, hlen,
    List.take_of_length_le (by omega), List.append_assoc, List.drop_take]

section Compose
variable {S : Schema}

theorem composeOperation_ret {op : Operation S} (h : (EntryBody.operation op).size ≤ BlockSize) :
    ∃ eb, (DbWAL.composeOperation op).run (.new : StaticBufferAdapter B BlockSize) =
        (.ret (EntryBody.operation op).size, eb) ∧
      ∀ id : OpID, ((StorageIo.write (leBytes 4 id.toNat)).run eb).2.data.take (EntryBody.operation op).size =
        Entry.bytes ⟨id, .operation op⟩ := by
  have hsize : (EntryBody.operation op).size = 6 + op.encode.length := rfl
  obtain ⟨d₀, h₀⟩ := StaticBufferAdapter.shows_new (B := B) (N := BlockSize)
  obtain ⟨d₁, h₁, -⟩ := h₀.reserve (n := 2 + 4) (by decide)
  obtain ⟨b₂, d₂, hrun₂, h₂, hd₂⟩ := h₁.seekToEnd.writes (Serializer.writes_serialize op) (by omega)
  obtain ⟨b₃, hrun₃, h₃⟩ := (h₂.seek (q := 0) (Nat.zero_le _)).write
    (show 0 + (leBytes 2 (6 + op.encode.length)).length ≤ BlockSize by rw [length_leBytes]; decide)
  rw [length_leBytes, Nat.zero_add, Nat.max_eq_left (by omega)] at h₃
  have hat : (StorageIo.writeAt (leBytes 2 (6 + op.encode.length)) 0).run b₂ = (.ret (), b₃) := hrun₃
  refine ⟨b₃, ?_, fun id => ?_⟩
  · rw [DbWAL.composeOperation, Proc.run_modify_bind, Proc.run_bind_of_ret hrun₂, Proc.run_read_bind]
    dsimp only
    rw [h₂.size, Proc.run_bind_of_ret (Proc.run_attempt_of_ret hat), hsize]
    rfl
  · obtain ⟨b₄, hrun₄, h₄⟩ := h₃.write
      (show 2 + (leBytes 4 id.toNat).length ≤ BlockSize by rw [length_leBytes]; decide)
    have hlen : (d₁.take (2 + 4)).length = 6 := by rw [List.length_take, h₁.length]; rfl
    rw [hrun₄, h₄.data, hsize, take_overwrite_header (length_leBytes ..) (length_leBytes ..) (by omega), hd₂,
      List.drop_left' hlen]
    rfl

theorem composeOperation_fail {op : Operation S} (h : BlockSize < (EntryBody.operation op).size) :
    ∃ eb, (DbWAL.composeOperation op).run (.new : StaticBufferAdapter B BlockSize) = (.fail, eb) := by
  obtain ⟨d₀, h₀⟩ := StaticBufferAdapter.shows_new (B := B) (N := BlockSize)
  obtain ⟨d₁, h₁, -⟩ := h₀.reserve (n := 2 + 4) (by decide)
  obtain ⟨b₂, hrun₂⟩ := h₁.seekToEnd.writes_fail (Serializer.writes_serialize op) (by decide) h
  refine ⟨b₂, ?_⟩
  rw [DbWAL.composeOperation, Proc.run_modify_bind]
  exact Proc.run_bind_of_fail hrun₂

theorem composeMarker_ret (opId : OpID) (status : OpStatus) :
    ∃ eb, (DbWAL.composeMarker opId status).run (.new : StaticBufferAdapter B BlockSize) =
        (.ret (EntryBody.completion (S := S) opId status).size, eb) ∧
      ∀ ticket : OpID, eb.data.take (EntryBody.completion (S := S) opId status).size =
        Entry.bytes (S := S) ⟨ticket, .completion opId status⟩ := by
  have hsize : (EntryBody.completion (S := S) opId status).size = 8 := rfl
  obtain ⟨d₀, h₀⟩ := StaticBufferAdapter.shows_new (B := B) (N := BlockSize)
  obtain ⟨d₁, h₁, -⟩ := h₀.reserve (n := 2) (by decide)
  have hlen : (leBytes 4 opId.toNat ++ [markerID, status.toByte]).length = 6 := by
    rw [List.length_append, length_leBytes]; rfl
  have hw : Writes (A := StaticBufferAdapter B BlockSize)
      (StorageIo.write (leBytes 4 opId.toNat) >>= fun _ => Serializer.serializeMarker status)
      (leBytes 4 opId.toNat ++ [markerID, status.toByte]) :=
    (Writes.write _).bind (Serializer.writes_serializeMarker status)
  obtain ⟨b₂, d₂, hrun₂, h₂, hd₂⟩ := (h₁.seek (q := 2) (Nat.le_refl 2)).writes hw (by rw [hlen]; decide)
  rw [hlen] at h₂ hd₂
  obtain ⟨b₃, hrun₃, h₃⟩ := (h₂.seek (q := 0) (Nat.zero_le _)).write
    (show 0 + (leBytes 2 8).length ≤ BlockSize by rw [length_leBytes]; decide)
  have hat : (StorageIo.writeAt (leBytes 2 8) 0).run b₂ = (.ret (), b₃) := hrun₃
  refine ⟨b₃, ?_, fun ticket => ?_⟩
  · have hcompose : DbWAL.composeMarker (B := B) opId status = (do
        .modify fun b => (StaticBufferAdapter.reserve 2 b).2
        StorageIo.seek 2
        (StorageIo.write (leBytes 4 opId.toNat) >>= fun _ => Serializer.serializeMarker status)
        let entrySize := (← Proc.read).size
        StorageIo.writeAt (leBytes 2 entrySize) 0
        return entrySize) := by
      rw [DbWAL.composeMarker]; simp only [bind_assoc]
    have hseek : (StorageIo.seek 2).run (StaticBufferAdapter.reserve 2
        (.new : StaticBufferAdapter B BlockSize)).2 =
        (.ret (), (StaticBufferAdapter.seek 2 (StaticBufferAdapter.reserve 2 .new).2).2) := rfl
    rw [hcompose, Proc.run_modify_bind, Proc.run_bind_of_ret hseek, Proc.run_bind_of_ret hrun₂,
      Proc.run_read_bind]
    dsimp only
    rw [h₂.size, Proc.run_bind_of_ret hat]
    rfl
  · have hlen₁ : (d₁.take 2).length = 2 := by rw [List.length_take, h₁.length]; rfl
    rw [h₃.data, hsize, overwrite, List.take_zero, List.nil_append, length_leBytes, Nat.zero_add,
      List.take_append, length_leBytes, List.take_of_length_le (by simp), ← List.drop_take, hd₂,
      List.drop_left' hlen₁]
    rfl

end Compose

end Buffer

/-! ### `finalizeAndflushCurrentBlock` -/

namespace DbWAL
variable {B : ℕ → Type} {A : Type} {w : DbWAL B A}

theorem run_onBlock {α : Type} {p : Proc (StaticBufferAdapter B BlockSize) α} {x : Exit α}
    {b : StaticBufferAdapter B BlockSize} (h : p.run w.block = (x, b)) :
    (onBlock (A := A) p).run w = (x, { w with block := b }) :=
  Proc.run_zoom_of h

theorem run_onLogFile {α : Type} {p : Proc A α} {x : Exit α} {d : A} (h : p.run w.logFile = (x, d)) :
    (onLogFile (B := B) p).run w = (x, { w with logFile := d }) :=
  Proc.run_zoom_of h

theorem onLogFile_bind {α β : Type} (p : Proc A α) (f : α → Proc A β) :
    onLogFile (B := B) (p >>= f) = onLogFile p >>= fun a => onLogFile (f a) :=
  Proc.zoom_bind DbWAL.logFile (fun d w => { w with logFile := d }) (fun _ _ => rfl) (fun _ _ _ => rfl) p f

variable [StaticDataBuffer B] [StorageAdapter A] [Wheathash] {body : Bytes} {p : ℕ}

/-- An empty block is not written; the position stays at its beginning. -/
theorem run_finalize_empty (h : w.blockItemCount = 0) :
    finalizeAndflushCurrentBlock.run w =
      (.fail, { w with block := (StaticBufferAdapter.seek 0 w.block).2 }) := by
  have hneg : ¬ (w.blockItemCount ≤ 65535 ∧ w.blockItemCount > 0) := by omega
  rw [finalizeAndflushCurrentBlock, Proc.run_modify_bind, Proc.run_read_bind]
  exact Proc.run_bind_of_fail (Proc.run_require_neg hneg _)

theorem run_finalize (hb : Filled w.block body p) (h0 : 0 < w.blockItemCount)
    (h1 : w.blockItemCount ≤ 65535) :
    ∃ b, Filled b ((blockImage w.blockItemCount body).drop 2) BlockSize ∧
      finalizeAndflushCurrentBlock.run w = (do
        onLogFile (StorageIo.append (blockImage w.blockItemCount body))
        .modify fun w => { w with lastFlushedOpId := w.lastBlockOpId }
        .modify startNewBlock : Proc (DbWAL B A) Unit).run { w with block := b } := by
  obtain ⟨b₁, b₂, h₁, h₂, hdata, hb₂⟩ := hb.finish w.blockItemCount
  refine ⟨b₂, hb₂, ?_⟩
  rw [finalizeAndflushCurrentBlock, Proc.run_modify_bind, Proc.run_read_bind,
    Proc.run_bind_of_ret (Proc.run_require_pos ⟨h1, h0⟩ _),
    Proc.run_bind_of_ret (run_onBlock (w := { w with block := (StaticBufferAdapter.seek 0 w.block).2 }) h₁)]
  simp only [Proc.run_read_bind, Proc.run_modify_bind, ← padded.eq_1]
  rw [Proc.run_bind_of_ret (run_onBlock (w := { w with
    block := (StaticBufferAdapter.seek (BlockSize - 4) (padded b₁)).2 }) h₂)]
  simp only [StorageIo.append, onLogFile_bind, bind_assoc]
  have hseek : (∃ a d, (StorageIo.seekToEnd (A := A)).run w.logFile = (.ret a, d)) ∨
      ∃ d, (StorageIo.seekToEnd (A := A)).run w.logFile = (.fail, d) :=
    run_ofCall_cases StorageAdapter.seekToEnd w.logFile
  rcases hseek with ⟨_, d, hd⟩ | ⟨d, hd⟩
  · rw [Proc.run_bind_of_ret (run_onLogFile (w := { w with block := b₂ }) hd),
      Proc.run_bind_of_ret (run_onLogFile (w := { w with block := b₂ }) hd), ← hdata]
    rfl
  · rw [Proc.run_bind_of_fail (run_onLogFile (w := { w with block := b₂ }) hd),
      Proc.run_bind_of_fail (run_onLogFile (w := { w with block := b₂ }) hd)]

/-- The append succeeded: a new block is started. -/
theorem run_finalize_ret (hb : Filled w.block body p) (h0 : 0 < w.blockItemCount)
    (h1 : w.blockItemCount ≤ 65535) {d : A}
    (hd : (StorageIo.append (blockImage w.blockItemCount body)).run w.logFile = (.ret (), d)) :
    ∃ b, Filled b [] 2 ∧ finalizeAndflushCurrentBlock.run w = (.ret (), { w with
      block := b, blockItemCount := 0, logFile := d, lastFlushedOpId := w.lastBlockOpId }) := by
  obtain ⟨b, -, hrun⟩ := run_finalize hb h0 h1
  refine ⟨freshBlock b, filled_freshBlock b, ?_⟩
  rw [hrun, Proc.run_bind_of_ret (run_onLogFile (w := { w with block := b }) hd)]
  rfl

/-- The append failed: the finished block stays in the buffer. -/
theorem run_finalize_fail (hb : Filled w.block body p) (h0 : 0 < w.blockItemCount)
    (h1 : w.blockItemCount ≤ 65535) {d : A}
    (hd : (StorageIo.append (blockImage w.blockItemCount body)).run w.logFile = (.fail, d)) :
    ∃ b, Filled b ((blockImage w.blockItemCount body).drop 2) BlockSize ∧
      finalizeAndflushCurrentBlock.run w = (.fail, { w with block := b, logFile := d }) := by
  obtain ⟨b, hb', hrun⟩ := run_finalize hb h0 h1
  exact ⟨b, hb', by rw [hrun, Proc.run_bind_of_fail (run_onLogFile (w := { w with block := b }) hd)]⟩

theorem run_closeLogFile (w : DbWAL B A) : closeLogFile.run w =
    if w.blockItemCount = 0 then (onLogFile StorageIo.close).run w
    else (finalizeAndflushCurrentBlock >>= fun _ => onLogFile StorageIo.close).run w := by
  rw [closeLogFile, Proc.run_read_bind, blockIsEmpty]
  by_cases h0 : w.blockItemCount = 0
  · rw [if_pos h0, if_neg (by simp [h0])]
  · rw [if_neg h0, if_pos (by simp [h0])]

theorem run_closeLogFile_empty (h0 : w.blockItemCount = 0) {d : A}
    (hclose : StorageIo.close.run w.logFile = (.ret (), d)) :
    closeLogFile.run w = (.ret (), { w with logFile := d }) := by
  rw [run_closeLogFile, if_pos h0]
  exact run_onLogFile hclose

theorem run_closeLogFile_fail (hb : Filled w.block body p) (h0 : 0 < w.blockItemCount)
    (h1 : w.blockItemCount ≤ 65535) {d : A}
    (hd : (StorageIo.append (blockImage w.blockItemCount body)).run w.logFile = (.fail, d)) :
    ∃ b, Filled b ((blockImage w.blockItemCount body).drop 2) BlockSize ∧
      closeLogFile.run w = (.fail, { w with block := b, logFile := d }) := by
  obtain ⟨b, hb', hfail⟩ := run_finalize_fail hb h0 h1 hd
  refine ⟨b, hb', ?_⟩
  rw [run_closeLogFile, if_neg (Nat.ne_of_gt h0), Proc.run_bind_of_fail hfail]

end DbWAL

end CppDb
