import CppDb.WalRuns

/-!
# The block by its numbers

What the critical sections do to the item count of the block and to the last IDs, whatever the block
holds: entries may have any size, and the space check may let them go where they cannot be read back.
`Numbers` are these numbers, `StaticBufferAdapter.Bounded` is what the item count rests on, and
`CallNumbers` lists what can come of a call.
-/

namespace CppDb
open Embed

structure Numbers where
  blockItemCount : ℕ
  lastFlushedOpId : OpID
  lastBlockOpId : OpID
  lastOpId : OpID
  pendingOperations : List OpID

namespace Numbers

/-- The block went to the log. -/
def flush (n : Numbers) : Numbers := { n with blockItemCount := 0, lastFlushedOpId := n.lastBlockOpId }

/-- The numbers after a flush, if there was one. -/
def MadeRoom (n n' : Numbers) : Prop := n' = n ∨ n' = n.flush

theorem MadeRoom.lastOpId {n n' : Numbers} (h : MadeRoom n n') : n'.lastOpId = n.lastOpId := by
  rcases h with rfl | rfl <;> rfl

theorem MadeRoom.lastBlockOpId {n n' : Numbers} (h : MadeRoom n n') : n'.lastBlockOpId = n.lastBlockOpId := by
  rcases h with rfl | rfl <;> rfl

theorem MadeRoom.pendingOperations {n n' : Numbers} (h : MadeRoom n n') :
    n'.pendingOperations = n.pendingOperations := by
  rcases h with rfl | rfl <;> rfl

/-- An entry with the last ID was placed. -/
def place (n : Numbers) (pending : List OpID) : Numbers :=
  { n with blockItemCount := n.blockItemCount + 1, lastBlockOpId := n.lastOpId, pendingOperations := pending }

end Numbers

/-- Every entry in the block has taken its part of the buffer. -/
structure StaticBufferAdapter.Bounded {B : ℕ → Type} [StaticDataBuffer B]
    (b : StaticBufferAdapter B BlockSize) (blockItemCount : ℕ) : Prop where
  pos_le : b.pos ≤ b.size
  size_le : b.size ≤ BlockSize
  count_le : blockItemCount * MinItemSize ≤ b.pos

section
variable {B : ℕ → Type} [StaticDataBuffer B] {A : Type}

namespace DbWAL

def numbers (w : DbWAL B A) : Numbers :=
  ⟨w.blockItemCount, w.lastFlushedOpId, w.lastBlockOpId, w.lastOpId, w.pendingOperations⟩

def Bounded (w : DbWAL B A) : Prop := w.block.Bounded w.blockItemCount

end DbWAL

/-! ### The buffer -/

namespace StaticBufferAdapter
variable {b : StaticBufferAdapter B BlockSize} {count : ℕ}

theorem Bounded.of_filled {body : Bytes} {p : ℕ} (hb : Filled b body p) (hp : p ≤ 2 + body.length)
    (hcount : count * MinItemSize ≤ p) : b.Bounded count where
  pos_le := by rw [hb.pos, hb.size]; exact hp
  size_le := by rw [hb.size]; exact hb.le
  count_le := by rw [hb.pos]; exact hcount

namespace Bounded

theorem filled (h : b.Bounded count) (h0 : 0 < count) : ∃ body, Filled b body b.pos := by
  obtain ⟨hpos, hsize, hcount⟩ := h
  have hmin : MinItemSize ≤ b.size :=
    Nat.le_trans (Nat.le_mul_of_pos_left _ h0) (Nat.le_trans hcount hpos)
  have hlen : b.data.length = BlockSize := (StaticDataBuffer.data b.buffer).2
  have h2 : 2 ≤ b.size := Nat.le_trans (by decide) hmin
  have htake : b.data.take 2 ++ ((b.data.take b.size).drop 2 ++ b.data.drop b.size) = b.data := by
    have hcount : b.data.take 2 = (b.data.take b.size).take 2 := by rw [List.take_take, Nat.min_eq_left h2]
    rw [hcount, ← List.append_assoc, List.take_append_drop, List.take_append_drop]
  refine ⟨(b.data.take b.size).drop 2, b.data.take 2, b.data.drop b.size, ?_, ?_⟩
  · rw [List.length_take, hlen]
    rfl
  · refine ⟨?_, rfl, htake.symm⟩
    rw [List.length_drop, List.length_take, hlen, Nat.min_eq_left hsize]
    omega

theorem count_le_max (h : b.Bounded count) : count ≤ 65535 := by
  obtain ⟨hpos, hsize, hcount⟩ := h
  have hle : count * MinItemSize ≤ 4096 := Nat.le_trans hcount (Nat.le_trans hpos hsize)
  rw [MinItemSize] at hle
  omega

theorem seek_zero (h : b.Bounded 0) : (StaticBufferAdapter.seek 0 b).2.Bounded 0 := by
  have hb : b.Shows b.size b.pos b.data := ⟨rfl, rfl, rfl⟩
  have hseek := hb.seek (Nat.zero_le _)
  refine ⟨?_, ?_, Nat.zero_le _⟩
  · rw [hseek.pos]
    exact Nat.zero_le _
  · rw [hseek.size]
    exact h.size_le

theorem write (h : b.Bounded count) {entry : Bytes} (hmin : MinItemSize ≤ entry.length) :
    ∃ b', (StorageIo.write entry).run b = (.ret (), b') ∧ b'.Bounded (count + 1) ∨
      (StorageIo.write entry).run b = (.fail, b') ∧ b'.Bounded count := by
  obtain ⟨hpos, hsize, hcount⟩ := h
  have hb : b.Shows b.size b.pos b.data := ⟨rfl, rfl, rfl⟩
  by_cases hfit : b.pos + entry.length ≤ BlockSize
  · obtain ⟨b', hrun, hb'⟩ := hb.write hfit
    refine ⟨b', .inl ⟨hrun, ?_, ?_, ?_⟩⟩
    · rw [hb'.pos, hb'.size]
      exact Nat.le_max_right ..
    · rw [hb'.size]
      exact Nat.max_le.2 ⟨hsize, hfit⟩
    · rw [hb'.pos, Nat.succ_mul]
      exact Nat.add_le_add hcount hmin
  · obtain ⟨b', hrun, hb'⟩ := hb.write_fail (Nat.not_le.1 hfit)
    refine ⟨b', .inr ⟨hrun, ?_, ?_, ?_⟩⟩
    · rw [hb'.pos, hb'.size]
      exact hpos
    · rw [hb'.size]
      exact hsize
    · rw [hb'.pos]
      exact hcount

end Bounded

end StaticBufferAdapter

/-! ### The critical sections -/

namespace DbWAL
variable [StorageAdapter A] [Wheathash] {w : DbWAL B A}

namespace Bounded

/-- The block goes to the log, or the numbers stay. -/
theorem finalize (h : w.Bounded) : ∃ w', w'.Bounded ∧
    (finalizeAndflushCurrentBlock.run w = (.ret (), w') ∧ w'.numbers = w.numbers.flush ∨
      finalizeAndflushCurrentBlock.run w = (.fail, w') ∧ w'.numbers = w.numbers ∧
        (w.blockItemCount = 0 ∨ AppendFails w.logFile)) := by
  rcases Nat.eq_zero_or_pos w.blockItemCount with h0 | h0
  · refine ⟨_, ?_, .inr ⟨run_finalize_empty h0, rfl, .inl h0⟩⟩
    unfold Bounded at h ⊢
    rw [h0] at h
    change (StaticBufferAdapter.seek 0 w.block).2.Bounded w.blockItemCount
    rw [h0]
    exact h.seek_zero
  · obtain ⟨body, hb⟩ := StaticBufferAdapter.Bounded.filled h h0
    have hmax := StaticBufferAdapter.Bounded.count_le_max h
    have hlen : (blockImage w.blockItemCount body).length = BlockSize := length_blockImage hb.le
    rcases StorageIo.append_cases (blockImage w.blockItemCount body) w.logFile with ⟨d, hd⟩ | ⟨d, hd⟩
    · obtain ⟨b, hb', hrun⟩ := run_finalize_ret hb h0 hmax hd
      exact ⟨_, .of_filled hb' (Nat.le_refl 2) (Nat.le_of_ble_eq_true rfl), .inl ⟨hrun, rfl⟩⟩
    · obtain ⟨b, hb', hrun⟩ := run_finalize_fail hb h0 hmax hd
      refine ⟨_, .of_filled hb' ?_ ?_, .inr ⟨hrun, rfl, .inr ⟨_, d, hlen, hd⟩⟩⟩
      · rw [List.length_drop, hlen]
        decide
      · exact Nat.le_trans h.count_le (Nat.le_trans h.pos_le h.size_le)

theorem makeRoom (h : w.Bounded) (size : ℕ) : ∃ w', w'.Bounded ∧
    ((DbWAL.makeRoom false size).run w = (.ret (), w') ∧ w.numbers.MadeRoom w'.numbers ∨
      (DbWAL.makeRoom false size).run w = (.fail, w') ∧ w'.numbers = w.numbers) := by
  rw [run_makeRoom]
  split
  · obtain ⟨w', hb, ⟨hret, hn⟩ | ⟨hfail, hn, -⟩⟩ := h.finalize
    · exact ⟨w', hb, .inl ⟨hret, .inr hn⟩⟩
    · exact ⟨w', hb, .inr ⟨hfail, hn⟩⟩
  · exact ⟨w, h, .inl ⟨rfl, .inl rfl⟩⟩

end Bounded

end DbWAL

/-- What can come of a call after `++_lastOpId`: there is room or not, and the entry is in the block or
does not fit. A registration that fails may have set `_lastBlockOpId`; one that does not makes its ID
pending. -/
inductive CallNumbers (w : DbWAL B A) (registers : Prop) (entry : Bytes) : Exit Locals × DbWAL B A → Prop
  | failed {w₁ w' : DbWAL B A} (hb₁ : w₁.Bounded) (hroom : w.numbers.MadeRoom w₁.numbers) (hb : w'.Bounded)
      (hn : w'.numbers = w₁.numbers ∨ w'.numbers = { w₁.numbers with lastBlockOpId := w₁.lastOpId }) :
      CallNumbers w registers entry (.fail, w')
  | placed {w₁ w' : DbWAL B A} {l : Locals} {pending : List OpID} (hb₁ : w₁.Bounded)
      (hroom : w.numbers.MadeRoom w₁.numbers) (hb : w'.Bounded) (hn : w'.numbers = w₁.numbers.place pending)
      (hpending : ∀ id ∈ pending, id ∈ w₁.pendingOperations ∨ registers ∧ id = w₁.lastOpId)
      (hid : l.currentOpId = w₁.lastOpId) (hfirst : l.firstWriter = w₁.blockIsEmpty)
      (hentry : l.entry = entry) : CallNumbers w registers entry (.ret l, w')

section
variable [StorageAdapter A] [Wheathash] {w : DbWAL B A} {S : Schema}

namespace DbWAL.Bounded

theorem registerEntry (h : w.Bounded) {entry : Bytes} (hmin : MinItemSize ≤ entry.length) (size : ℕ)
    (timeElapsedMs : UInt64) :
    CallNumbers w True entry ((DbWAL.registerEntry w.lastOpId entry size timeElapsedMs).run w) := by
  obtain ⟨w₁, hb, ⟨hmake, hn⟩ | ⟨hmake, hn⟩⟩ := h.makeRoom size
  · have hid : w.lastOpId = w₁.lastOpId := hn.lastOpId.symm
    obtain ⟨b, ⟨hwrite, hb'⟩ | ⟨hwrite, hb'⟩⟩ := StaticBufferAdapter.Bounded.write hb hmin
    · rw [registerEntry_ret _ hmake hwrite, hid]
      refine .placed hb hn hb' rfl (fun id hmem => ?_) rfl rfl rfl
      rcases List.mem_append.1 hmem with hmem | hmem
      · exact .inl hmem
      · exact .inr ⟨trivial, List.mem_singleton.1 hmem⟩
    · rw [DbWAL.registerEntry, Proc.run_bind_of_ret hmake, Proc.run_read_bind, Proc.run_modify_bind, hid,
        Proc.run_bind_of_fail (run_onBlock (A := A) (w := { w₁ with lastBlockOpId := w₁.lastOpId }) hwrite)]
      exact .failed hb hn hb' (.inr rfl)
  · rw [DbWAL.registerEntry, Proc.run_bind_of_fail hmake]
    exact .failed hb (.inl hn) hb (.inl rfl)

theorem updateEntry (h : w.Bounded) {entry : Bytes} (hmin : MinItemSize ≤ entry.length) (size : ℕ)
    (opId : OpID) (timeElapsedMs : UInt64) :
    CallNumbers w False entry ((DbWAL.updateEntry w.lastOpId entry size opId timeElapsedMs).run w) := by
  obtain ⟨w₁, hb, ⟨hmake, hn⟩ | ⟨hmake, hn⟩⟩ := h.makeRoom size
  · have hid : w.lastOpId = w₁.lastOpId := hn.lastOpId.symm
    obtain ⟨b, ⟨hwrite, hb'⟩ | ⟨hwrite, hb'⟩⟩ := StaticBufferAdapter.Bounded.write hb hmin
    · rw [updateEntry_ret hmake hwrite, hid]
      exact .placed hb hn hb' rfl (fun id hmem => .inl (List.mem_of_mem_erase hmem)) rfl rfl rfl
    · rw [DbWAL.updateEntry, Proc.run_bind_of_ret hmake, Proc.run_read_bind,
        Proc.run_bind_of_fail (run_onBlock hwrite)]
      exact .failed hb hn hb' (.inl rfl)
  · rw [DbWAL.updateEntry, Proc.run_bind_of_fail hmake]
    exact .failed hb (.inl hn) hb (.inl rfl)

end DbWAL.Bounded

/-- The call is a registration. -/
def Request.Registers (r : Request S) : Prop := ∃ op, r.body = .operation op

/-- What can come of a call. -/
theorem Request.numbers (h : w.Bounded) (r : Request S) :
    ¬ r.TakesId w ∧ r.perform.run w = (.fail, w) ∨
      r.TakesId w ∧ CallNumbers { w with lastOpId := w.lastOpId + 1 } r.Registers
        (Entry.bytes ⟨w.lastOpId + 1, r.body⟩) (r.perform.run w) := by
  have hmin : ∀ e : Entry S, MinItemSize ≤ e.bytes.length := fun e => by
    rw [e.length_bytes]
    exact EntryBody.minItemSize_le _
  have h' : DbWAL.Bounded { w with lastOpId := w.lastOpId + 1 } := h
  by_cases htakes : r.TakesId w
  swap; · exact .inl ⟨htakes, Request.run_refused htakes⟩
  refine .inr ⟨htakes, ?_⟩
  cases r with
  | registerOperation op now =>
    have hregisters : (Request.registerOperation op now).Registers = True := eq_true ⟨op, rfl⟩
    rw [Request.perform, run_registerOperation htakes, hregisters]
    exact h'.registerEntry (hmin _) _ _
  | updateOpStatus opId status now =>
    have hregisters : (Request.updateOpStatus opId status now : Request S).Registers = False := eq_false nofun
    rw [Request.perform, run_updateOpStatus (S := S) htakes, hregisters]
    exact h'.updateEntry (hmin _) _ _ _

namespace DbWAL.Bounded

theorem flushOnTimeout (h : w.Bounded) (currentOpId : OpID) : ∃ w', w'.Bounded ∧
    ((DbWAL.flushOnTimeout currentOpId).run w = (.ret (), w') ∧
        (¬ w.lastFlushedOpId < currentOpId ∧ w'.numbers = w.numbers ∨ w'.numbers = w.numbers.flush) ∨
      (∃ m, (DbWAL.flushOnTimeout currentOpId).run w = (.abort m, w')) ∧ w.lastFlushedOpId < currentOpId ∧
        w'.numbers = w.numbers ∧ (w.blockItemCount = 0 ∨ AppendFails w.logFile)) := by
  rw [DbWAL.flushOnTimeout, Proc.run_read_bind, Proc.run_ite]
  split
  · next hlt =>
    obtain ⟨w', hb, ⟨hrun, hn⟩ | ⟨hrun, hn, hwhy⟩⟩ := h.finalize
    · rw [Proc.run_bind_of_ret (Proc.run_attempt_of_ret hrun)]
      exact ⟨w', hb, .inl ⟨rfl, .inr hn⟩⟩
    · rw [Proc.run_bind_of_ret (Proc.run_attempt_of_fail hrun)]
      exact ⟨w', hb, .inr ⟨⟨_, rfl⟩, hlt, hn, hwhy⟩⟩
  · next hlt => exact ⟨w, h, .inl ⟨rfl, .inl ⟨hlt, rfl⟩⟩⟩

theorem closeLogFile (h : w.Bounded) :
    (DbWAL.closeLogFile.run w).2.Bounded ∧ w.numbers.MadeRoom (DbWAL.closeLogFile.run w).2.numbers := by
  have hclose : ∀ w₁ : DbWAL B A, w₁.Bounded → w.numbers.MadeRoom w₁.numbers →
      ((DbWAL.onLogFile StorageIo.close).run w₁).2.Bounded ∧
        w.numbers.MadeRoom ((DbWAL.onLogFile StorageIo.close).run w₁).2.numbers := fun w₁ hb hn => by
    rw [DbWAL.onLogFile, Proc.run_zoom]
    exact ⟨hb, hn⟩
  rw [run_closeLogFile]
  split
  · exact hclose w h (.inl rfl)
  · obtain ⟨w', hb, ⟨hrun, hn⟩ | ⟨hrun, hn, -⟩⟩ := h.finalize
    · rw [Proc.run_bind_of_ret hrun]
      exact hclose w' hb (.inr hn)
    · rw [Proc.run_bind_of_fail hrun]
      exact ⟨hb, .inl hn⟩

omit [Wheathash] in
theorem openLogFile (w : DbWAL B A) (filePath : String) :
    ((DbWAL.openLogFile filePath).run w).2.Bounded ∧
      ((DbWAL.openLogFile filePath).run w).2.numbers = { w.numbers with blockItemCount := 0 } := by
  rw [DbWAL.openLogFile, Proc.run_modify_bind, DbWAL.onLogFile, Proc.run_zoom]
  exact ⟨.of_filled (filled_freshBlock w.block) (Nat.le_refl 2) (Nat.le_of_ble_eq_true rfl), rfl⟩

omit [StorageAdapter A] [Wheathash] in
theorem new (d : A) : (DbWAL.new d : DbWAL B A).Bounded where
  pos_le := Nat.le_trans (Nat.le_of_eq StaticDataBuffer.pos_empty) (Nat.zero_le _)
  size_le := Nat.le_trans (Nat.le_of_eq StaticDataBuffer.size_empty) (Nat.zero_le _)
  count_le := Nat.le_trans (Nat.le_of_eq (Nat.zero_mul _)) (Nat.zero_le _)

end DbWAL.Bounded

end

end

end CppDb
