import CppDb.BlockNumbers
import CppDb.EntrySizes
import CppDb.VerifyLogSpec

/-!
# Room in the block

`DbWAL.SpaceSound`: the subtractions of the space check do not wrap around, what it lets go ends before the checksum,
and the block is one that `verifyLog` reads the entries of. It holds as long as each call leaves the position before
the last six bytes (`spaceSound_iff_pos`); `System.KeepsRoom` are the steps that do so.
-/

namespace CppDb
open Embed
open StorageAdapter (pos)
open ReadableAdapter (Ok bytes)

section
variable {B : ℕ → Type} [StaticDataBuffer B] {A : Type} [StorageAdapter A] [Wheathash] {S : Schema}

/-- `verifyLog` gets to the entries of this block: its checksum is right, and so is its item count. -/
def ChecksOut (data : Bytes) : Prop :=
  ¬ BadChecksum data ∧ 0 < leNat (data.take 2) ∧ leNat (data.take 2) ≤ MaxItemCount

/-- The space check is sound for every size that it can add its margin to in 64 bits, and the block can be read when
it is written. -/
structure DbWAL.SpaceSound (w : DbWAL B A) : Prop where
  noWrap : 4 + 2 ≤ w.block.remainingCapacity
  fits : ∀ dataSize, dataSize + MinItemSize + 20 < 2 ^ 64 → w.newBlockRequiredForData dataSize = false →
    w.block.pos + dataSize ≤ BlockSize - 4
  count_le : w.blockItemCount ≤ MaxItemCount
  checksOut : 0 < w.blockItemCount → ∀ body, Filled w.block body w.block.pos →
    ChecksOut (blockImage w.blockItemCount body)

namespace DbWAL
variable {w : DbWAL B A}

omit [StorageAdapter A] [Wheathash] in
theorem Bounded.itemCount_le (h : w.Bounded) : w.blockItemCount ≤ MaxItemCount := by
  rw [MaxItemCount, Nat.le_div_iff_mul_le (by decide)]
  exact Nat.le_trans h.count_le (Nat.le_trans h.pos_le h.size_le)

omit [StorageAdapter A] in
theorem checksOut_blockImage {count : ℕ} {body : Bytes} (hfit : 2 + body.length ≤ BlockSize) (h0 : 0 < count)
    (hmax : count ≤ MaxItemCount) : ChecksOut (blockImage count body) := by
  have hcount : leNat ((blockImage count body).take 2) = count := by
    rw [count_blockImage hfit]
    exact leNat_leBytes_of_lt (Nat.lt_of_le_of_lt hmax (by decide))
  refine ⟨not_badChecksum_blockImage hfit, ?_, ?_⟩
  · rw [hcount]
    exact h0
  · rw [hcount]
    exact hmax

omit [StorageAdapter A] in
/-- The space check is sound exactly where its subtractions do not wrap around. -/
theorem spaceSound_iff_pos (h : w.Bounded) : w.SpaceSound ↔ w.block.pos + 6 ≤ BlockSize := by
  have hrem : w.block.remainingCapacity = BlockSize - w.block.pos := rfl
  constructor
  · intro hsound
    have hwrap := hsound.noWrap
    rw [hrem] at hwrap
    omega
  · intro hpos
    refine ⟨by rw [hrem]; omega, fun dataSize _ hfits => ?_, h.itemCount_le, fun h0 body hbody => ?_⟩
    · have hnot := mt (newBlockRequired_iff (d := dataSize) hpos).2 (by rw [hfits]; exact Bool.false_ne_true)
      omega
    · exact checksOut_blockImage hbody.le h0 h.itemCount_le

end DbWAL

theorem Verification.verifyBlock_checksOut [ReadableAdapter A] {v : Verification B A S} (pass : ℕ)
    (hok : Ok v.logFile) (hb : Whole v.blockBuffer) {data rest : Bytes} (hlen : data.length = BlockSize)
    (hdata : ChecksOut data) (hd : (bytes v.logFile).drop (pos v.logFile) = data ++ rest) :
    ∃ d b, bytes d = bytes v.logFile ∧ pos d = pos v.logFile + BlockSize ∧ bytes b = data ∧ pos b = 2 ∧
      (verifyBlock pass).run v = (verifyEntries pass (leNat (data.take 2))).run ((v.setLog d).setBuffer b) := by
  obtain ⟨hsum, h0, hmax⟩ := hdata
  obtain ⟨d, b, -, hbytes, hpos, hw, hbdata, hp0, hrun⟩ := verifyBlock_read pass hok hb hlen hd
  have hsplit : (bytes b).drop (pos b) = data.take 2 ++ data.drop 2 := by
    rw [hbdata, hp0, List.drop_zero, List.take_append_drop]
  have htwo : (data.take 2).length = 2 := by
    rw [List.length_take, hlen]
    rfl
  obtain ⟨b₁, hread, -, hb₁, hp₁⟩ := Reads.read (A := StaticBufferAdapter B BlockSize) (n := 2) ⟨data.take 2, htwo⟩
    hw.1 hsplit
  refine ⟨d, b₁, hbytes, hpos, hb₁.trans hbdata, by rw [hp₁, hp0, htwo], ?_⟩
  rw [BadChecksum] at hsum
  rw [hrun, if_neg hsum, Proc.run_bind_of_ret (run_onBlockBuffer (v := (v.setLog d).setBuffer b) hread),
    Proc.run_bind_of_ret (Proc.run_require_pos ⟨h0, hmax⟩ _)]
  rfl

/-! ### The position after a call -/

/-- The device stores the block that is in progress. -/
def DbWAL.Flushes (w : DbWAL B A) : Prop :=
  ∀ body, Filled w.block body w.block.pos →
    ∃ d, (StorageIo.append (blockImage w.blockItemCount body)).run w.logFile = (.ret (), d)

omit [StorageAdapter A] [Wheathash] in
theorem Filled.unique {b : StaticBufferAdapter B BlockSize} {body body' : Bytes} {p p' : ℕ} (h : Filled b body p)
    (h' : Filled b body' p') : body = body' := by
  have hsize := h.size.symm.trans h'.size
  obtain ⟨count, rest, hcount, hb⟩ := h
  obtain ⟨count', rest', hcount', hb'⟩ := h'
  have hdata := hb.data.symm.trans hb'.data
  have hrest := (List.append_inj hdata (hcount.trans hcount'.symm)).2
  exact (List.append_inj hrest (Nat.add_left_cancel hsize)).1

namespace DbWAL
variable {w : DbWAL B A}

theorem Bounded.finalize_cases (h : w.Bounded) (h0 : w.blockItemCount ≠ 0) :
    (∃ w', finalizeAndflushCurrentBlock.run w = (.ret (), w') ∧ Filled w'.block [] 2 ∧ w.Flushes) ∨
      ∃ w', finalizeAndflushCurrentBlock.run w = (.fail, w') ∧ w'.block.pos = BlockSize ∧
        w'.blockItemCount = w.blockItemCount ∧ ¬ w.Flushes := by
  have hpos := Nat.pos_of_ne_zero h0
  have hmax := StaticBufferAdapter.Bounded.count_le_max h
  obtain ⟨body, hb⟩ := StaticBufferAdapter.Bounded.filled h hpos
  rcases StorageIo.append_cases (blockImage w.blockItemCount body) w.logFile with ⟨d, hd⟩ | ⟨d, hd⟩
  · obtain ⟨b, hfill, hrun⟩ := run_finalize_ret hb hpos hmax hd
    exact .inl ⟨_, hrun, hfill, fun body' hb' => hb.unique hb' ▸ ⟨d, hd⟩⟩
  · obtain ⟨b, hfill, hrun⟩ := run_finalize_fail hb hpos hmax hd
    refine .inr ⟨_, hrun, hfill.pos, rfl, fun hflushes => ?_⟩
    obtain ⟨d', hd'⟩ := hflushes body hb
    rw [hd] at hd'
    cases hd'

/-- What the space check comes to where its subtractions do not wrap around. -/
inductive RoomMade (w : DbWAL B A) (size : ℕ) : Exit Unit × DbWAL B A → Prop
  /-- The block has room. -/
  | here (hfit : w.block.pos + size + 33 ≤ BlockSize) : RoomMade w size (.ret (), w)
  /-- The block is flushed. -/
  | flushed {w' : DbWAL B A} (hfull : BlockSize < w.block.pos + size + 33) (h0 : w.blockItemCount ≠ 0)
      (hflushes : w.Flushes) (hfill : Filled w'.block [] 2) : RoomMade w size (.ret (), w')
  /-- There is nothing to flush. -/
  | empty {w' : DbWAL B A} (hfull : BlockSize < w.block.pos + size + 33) (h0 : w.blockItemCount = 0)
      (hpos : w'.block.pos = 0) : RoomMade w size (.fail, w')
  /-- The device fails. -/
  | failed {w' : DbWAL B A} (hfull : BlockSize < w.block.pos + size + 33) (h0 : w.blockItemCount ≠ 0)
      (hfails : ¬ w.Flushes) (hpos : w'.block.pos = BlockSize) : RoomMade w size (.fail, w')

theorem Bounded.roomMade (h : w.Bounded) (hpos : w.block.pos + 6 ≤ BlockSize) (size : ℕ) :
    RoomMade w size ((DbWAL.makeRoom false size).run w) := by
  by_cases hfit : w.block.pos + size + 33 ≤ BlockSize
  · rw [makeRoom_here hfit]
    exact .here hfit
  have hfull := Nat.not_le.1 hfit
  by_cases h0 : w.blockItemCount = 0
  · have hb : w.block.Shows w.block.size w.block.pos w.block.data := ⟨rfl, rfl, rfl⟩
    rw [makeRoom_flush hpos hfull (run_finalize_empty h0)]
    exact .empty hfull h0 (hb.seek (Nat.zero_le _)).pos
  · rcases h.finalize_cases h0 with ⟨w', hrun, hfill, hflushes⟩ | ⟨w', hrun, hend, -, hfails⟩
    · rw [makeRoom_flush hpos hfull hrun]
      exact .flushed hfull h0 hflushes hfill
    · rw [makeRoom_flush hpos hfull hrun]
      exact .failed hfull h0 hfails hend

end DbWAL

/-- A call that takes an ID makes room and then writes its entry. -/
inductive Request.Performed (w : DbWAL B A) (r : Request S) : Exit Locals × DbWAL B A → Prop
  | noRoom {w' : DbWAL B A}
      (hroom : (DbWAL.makeRoom false r.body.size).run { w with lastOpId := w.lastOpId + 1 } = (.fail, w')) :
      Performed w r (.fail, w')
  | written {l : Locals} {w₁ w' : DbWAL B A}
      (hroom : (DbWAL.makeRoom false r.body.size).run { w with lastOpId := w.lastOpId + 1 } = (.ret (), w₁))
      (hfit : w₁.block.pos + r.body.size ≤ BlockSize) (hpos : w'.block.pos = w₁.block.pos + r.body.size)
      (hcount : w'.blockItemCount = w₁.blockItemCount + 1) : Performed w r (.ret l, w')
  | tooLarge {w₁ w' : DbWAL B A}
      (hroom : (DbWAL.makeRoom false r.body.size).run { w with lastOpId := w.lastOpId + 1 } = (.ret (), w₁))
      (hfit : BlockSize < w₁.block.pos + r.body.size) (hpos : w'.block.pos = w₁.block.pos)
      (hcount : w'.blockItemCount = w₁.blockItemCount) : Performed w r (.fail, w')

omit [Wheathash] in
theorem StaticBufferAdapter.write_cases (b : StaticBufferAdapter B BlockSize) (entry : Bytes) :
    (∃ b', (StorageIo.write entry).run b = (.ret (), b') ∧ b.pos + entry.length ≤ BlockSize ∧
        b'.pos = b.pos + entry.length) ∨
      ∃ b', (StorageIo.write entry).run b = (.fail, b') ∧ BlockSize < b.pos + entry.length ∧ b'.pos = b.pos := by
  have hb : b.Shows b.size b.pos b.data := ⟨rfl, rfl, rfl⟩
  by_cases hfit : b.pos + entry.length ≤ BlockSize
  · obtain ⟨b', hrun, hb'⟩ := hb.write hfit
    exact .inl ⟨b', hrun, hfit, hb'.pos⟩
  · obtain ⟨b', hrun, hb'⟩ := hb.write_fail (Nat.not_le.1 hfit)
    exact .inr ⟨b', hrun, Nat.not_le.1 hfit, hb'.pos⟩

theorem Request.performed {w : DbWAL B A} {r : Request S} (h : w.Bounded) (htakes : r.TakesId w) :
    r.Performed w (r.perform.run w) := by
  have h' : DbWAL.Bounded { w with lastOpId := w.lastOpId + 1 } := h
  cases r with
  | registerOperation op now =>
    obtain ⟨w₁, -, ⟨hroom, -⟩ | ⟨hroom, -⟩⟩ := h'.makeRoom (EntryBody.operation op).size
    swap
    · rw [Request.perform, registerOperation_room_fail htakes hroom]
      exact .noRoom hroom
    rcases w₁.block.write_cases (Entry.bytes ⟨w.lastOpId + 1, .operation op⟩) with
      ⟨b, hwrite, hfit, hpos⟩ | ⟨b, hwrite, hfit, hpos⟩
    · rw [Entry.length_bytes] at hfit hpos
      rw [Request.perform, run_registerOperation htakes, registerEntry_ret _ hroom hwrite]
      exact .written hroom hfit hpos rfl
    · rw [Entry.length_bytes] at hfit
      rw [Request.perform, registerOperation_write_fail htakes hroom hwrite]
      exact .tooLarge hroom hfit hpos rfl
  | updateOpStatus opId status now =>
    obtain ⟨w₁, -, ⟨hroom, -⟩ | ⟨hroom, -⟩⟩ := h'.makeRoom (EntryBody.completion (S := S) opId status).size
    swap
    · rw [Request.perform, run_updateOpStatus (S := S) htakes, DbWAL.updateEntry, Proc.run_bind_of_fail hroom]
      exact .noRoom hroom
    rcases w₁.block.write_cases (Entry.bytes (S := S) ⟨w.lastOpId + 1, .completion opId status⟩) with
      ⟨b, hwrite, hfit, hpos⟩ | ⟨b, hwrite, hfit, hpos⟩
    · rw [Entry.length_bytes] at hfit hpos
      rw [Request.perform, run_updateOpStatus (S := S) htakes, updateEntry_ret hroom hwrite]
      exact .written hroom hfit hpos rfl
    · rw [Entry.length_bytes] at hfit
      have hfail := DbWAL.run_onBlock (A := A) (w := w₁) hwrite
      rw [Request.perform, run_updateOpStatus (S := S) htakes, DbWAL.updateEntry, Proc.run_bind_of_ret hroom,
        Proc.run_read_bind, Proc.run_bind_of_fail hfail]
      exact .tooLarge hroom hfit hpos rfl

/-- The call leaves room in the block: a block that it has to start a new one for is flushed, and its entry leaves
the checksum and the next item count their bytes, or does not fit at all. -/
def Request.KeepsRoom (w : DbWAL B A) (r : Request S) : Prop :=
  r.TakesId w → BlockSize < w.block.pos + r.body.size + 33 → w.blockItemCount ≠ 0 →
    w.Flushes ∧ (r.body.size + 8 ≤ BlockSize ∨ BlockSize < r.body.size + 2)

theorem Request.pos_perform {w : DbWAL B A} {r : Request S} (h : w.Bounded) (hpos : w.block.pos + 6 ≤ BlockSize) :
    (r.perform.run w).2.block.pos + 6 ≤ BlockSize ↔ r.KeepsRoom w := by
  by_cases htakes : r.TakesId w
  swap
  · rw [Request.run_refused htakes]
    exact iff_of_true hpos fun hyes => absurd hyes htakes
  have h' : DbWAL.Bounded { w with lastOpId := w.lastOpId + 1 } := h
  have hmade := h'.roomMade hpos r.body.size
  generalize hrun : r.perform.run w = x
  have hperformed := Request.performed h htakes
  rw [hrun] at hperformed
  cases hperformed with
  | noRoom hroom =>
    rw [hroom] at hmade
    cases hmade with
    | empty hfull h0 hzero =>
      refine iff_of_true ?_ fun _ _ hne => absurd h0 hne
      rw [hzero]
      decide
    | failed hfull h0 hfails hend =>
      refine iff_of_false ?_ fun hkeeps => hfails (hkeeps htakes hfull h0).1
      rw [hend]
      decide
  | written hroom hfit hend hcount =>
    rw [hroom] at hmade
    rw [hend]
    cases hmade with
    | here hfit' =>
      have hfit' : w.block.pos + r.body.size + 33 ≤ BlockSize := hfit'
      refine iff_of_true ?_ fun _ hfull => absurd hfull (Nat.not_lt.2 hfit')
      change w.block.pos + r.body.size + 6 ≤ BlockSize
      omega
    | flushed hfull h0 hflushes hfill =>
      rw [hfill.pos] at hfit ⊢
      constructor
      · intro hle _ _ _
        exact ⟨hflushes, .inl (by omega)⟩
      · intro hkeeps
        rcases (hkeeps htakes hfull h0).2 with hle | hlarge <;> omega
  | tooLarge hroom hfit hend hcount =>
    rw [hroom] at hmade
    rw [hend]
    cases hmade with
    | here hfit' =>
      have hfit' : w.block.pos + r.body.size + 33 ≤ BlockSize := hfit'
      have hfit : BlockSize < w.block.pos + r.body.size := hfit
      omega
    | flushed hfull h0 hflushes hfill =>
      rw [hfill.pos] at hfit ⊢
      exact iff_of_true (by decide) fun _ _ _ => ⟨hflushes, .inr (by omega)⟩

namespace DbWAL
variable {w : DbWAL B A}

theorem Bounded.pos_closeLogFile (h : w.Bounded) (hpos : w.block.pos + 6 ≤ BlockSize) :
    (DbWAL.closeLogFile.run w).2.block.pos + 6 ≤ BlockSize ↔ (w.blockItemCount ≠ 0 → w.Flushes) := by
  have hclose : ∀ w₁ : DbWAL B A, ((onLogFile StorageIo.close).run w₁).2.block = w₁.block := fun w₁ => by
    rw [onLogFile, Proc.run_zoom]
  rw [run_closeLogFile]
  split
  · next h0 =>
    rw [hclose]
    exact iff_of_true hpos fun hne => absurd h0 hne
  · next h0 =>
    rcases h.finalize_cases h0 with ⟨w', hrun, hfill, hflushes⟩ | ⟨w', hrun, hend, -, hfails⟩
    · rw [Proc.run_bind_of_ret hrun, hclose, hfill.pos]
      exact iff_of_true (by decide) fun _ => hflushes
    · rw [Proc.run_bind_of_fail hrun, hend]
      exact iff_of_false (by decide) fun hflushes => hfails (hflushes h0)

theorem Bounded.pos_flushOnTimeout (h : w.Bounded) (hpos : w.block.pos + 6 ≤ BlockSize) {currentOpId : OpID}
    {u : Unit} {w' : DbWAL B A} (hrun : (DbWAL.flushOnTimeout currentOpId).run w = (.ret u, w')) :
    w'.block.pos + 6 ≤ BlockSize := by
  rw [DbWAL.flushOnTimeout, Proc.run_read_bind, Proc.run_ite] at hrun
  split at hrun
  · by_cases h0 : w.blockItemCount = 0
    · rw [Proc.run_bind_of_ret (Proc.run_attempt_of_fail (run_finalize_empty h0))] at hrun
      cases hrun
    · rcases h.finalize_cases h0 with ⟨w₁, hfinalize, hfill, -⟩ | ⟨w₁, hfinalize, -⟩
      · rw [Proc.run_bind_of_ret (Proc.run_attempt_of_ret hfinalize)] at hrun
        cases hrun
        rw [hfill.pos]
        decide
      · rw [Proc.run_bind_of_ret (Proc.run_attempt_of_fail hfinalize)] at hrun
        cases hrun
  · cases hrun
    exact hpos

end DbWAL

/-! ### Runs -/

theorem DbWAL.Bounded.perform {w : DbWAL B A} (h : w.Bounded) (r : Request S) : (r.perform.run w).2.Bounded := by
  rcases Request.numbers h r with ⟨-, hrun⟩ | ⟨-, hcall⟩
  · rw [hrun]
    exact h
  · generalize r.perform.run w = x at hcall
    cases hcall with
    | failed hb₁ hroom hb hn => exact hb
    | placed hb₁ hroom hb hn hpending hid hfirst hentry => exact hb

namespace System
variable {T : Type} [DecidableEq T] {s : System B A S T}

theorem step_perform (h : s.wal.Bounded) (ha : s.aborted = false) {t : T} (ht : s.threads t = .idle) (r : Request S) :
    (s.step (.request t r)).wal = (r.perform.run s.wal).2 ∧ (s.step (.request t r)).aborted = false := by
  have hcases : (∃ l w, r.perform.run s.wal = (.ret l, w)) ∨ ∃ w, r.perform.run s.wal = (.fail, w) := by
    rcases Request.numbers h r with ⟨-, hrun⟩ | ⟨-, hcall⟩
    · exact .inr ⟨_, hrun⟩
    · generalize r.perform.run s.wal = x at hcall ⊢
      cases hcall with
      | failed hb₁ hroom hb hn => exact .inr ⟨_, rfl⟩
      | placed hb₁ hroom hb hn hpending hid hfirst hentry => exact .inl ⟨_, _, rfl⟩
  rcases hcases with ⟨l, w, hrun⟩ | ⟨w, hrun⟩
  · rw [step_request ha ht hrun, hrun]
    exact ⟨rfl, ha⟩
  · rw [step_request_fail ha ht hrun, hrun]
    exact ⟨rfl, ha⟩

theorem bounded_timeout (h : s.wal.Bounded) (t : T) : (s.timeout t).wal.Bounded := by
  rw [System.timeout]
  rcases ht : s.threads t with _ | l | l
  · exact h
  · exact h
  obtain ⟨w, hb, ⟨hrun, -⟩ | ⟨⟨m, hrun⟩, -⟩⟩ := h.flushOnTimeout l.currentOpId
  · simp only [Logged.onWal, hrun]
    exact hb
  · simp only [Logged.onWal, hrun]
    exact hb

theorem bounded_step (h : s.wal.Bounded) (l : Label S T) : (s.step l).wal.Bounded := by
  rcases ha : s.aborted with _ | _
  swap
  · rw [step_of_aborted ha]
    exact h
  cases l with
  | request t r =>
    rcases ht : s.threads t with _ | l | l
    · rw [(step_perform h ha ht r).1]
      exact h.perform r
    · rw [step_eq_request ha, System.request, ht]
      exact h
    · rw [step_eq_request ha, System.request, ht]
      exact h
  | poll t now =>
    rw [step_eq_poll ha, toLogged_poll]
    exact h
  | timeout t =>
    rw [step_eq_timeout ha]
    exact bounded_timeout h t
  | closeLogFile =>
    rw [step_eq_closeLogFile ha]
    exact h.closeLogFile.1

/-- The space check is sound, unless the process has ended. -/
def SpaceSound (s : System B A S T) : Prop := s.aborted = false → s.wal.SpaceSound

/-- The steps that leave room in the block. -/
def KeepsRoom (s : System B A S T) : Label S T → Prop
  | .request t r => s.aborted = false → s.threads t = .idle → r.KeepsRoom s.wal
  | .closeLogFile => s.aborted = false → s.wal.blockItemCount ≠ 0 → s.wal.Flushes
  | _ => True

theorem pos_timeout (h : s.wal.Bounded) (hpos : s.wal.block.pos + 6 ≤ BlockSize) {t : T}
    (ha : (s.timeout t).aborted = false) : (s.timeout t).wal.block.pos + 6 ≤ BlockSize := by
  rw [System.timeout] at ha ⊢
  rcases ht : s.threads t with _ | l | l
  · exact hpos
  · exact hpos
  rw [ht] at ha
  rcases hrun : (DbWAL.flushOnTimeout l.currentOpId).run s.wal with ⟨u | _ | m | _, w⟩
  · simp only [Logged.onWal, hrun]
    exact h.pos_flushOnTimeout hpos hrun
  all_goals
    simp only [Logged.onWal, hrun] at ha
    cases ha

/-- A step leaves the space check sound exactly if it leaves room. -/
theorem spaceSound_step (h : s.wal.Bounded) (hs : s.SpaceSound) (l : Label S T) :
    (s.step l).SpaceSound ↔ s.KeepsRoom l := by
  rcases ha : s.aborted with _ | _
  swap
  · rw [step_of_aborted ha]
    refine iff_of_true hs ?_
    cases l with
    | request t r => exact fun hgo => by rw [ha] at hgo; cases hgo
    | closeLogFile => exact fun hgo => by rw [ha] at hgo; cases hgo
    | poll t now => trivial
    | timeout t => trivial
  have hpos := (DbWAL.spaceSound_iff_pos h).1 (hs ha)
  have hsound : (s.step l).SpaceSound ↔
      ((s.step l).aborted = false → (s.step l).wal.block.pos + 6 ≤ BlockSize) :=
    imp_congr_right fun _ => DbWAL.spaceSound_iff_pos (bounded_step h l)
  rw [hsound]
  cases l with
  | request t r =>
    rcases ht : s.threads t with _ | l | l
    · obtain ⟨hwal, hgo⟩ := step_perform h ha ht r
      rw [hwal, hgo, forall_prop_of_true rfl, Request.pos_perform h hpos]
      exact ⟨fun hroom _ _ => hroom, fun hroom => hroom ha ht⟩
    · rw [step_eq_request ha, System.request, ht]
      exact iff_of_true (fun _ => hpos) fun _ hidle => by rw [ht] at hidle; cases hidle
    · rw [step_eq_request ha, System.request, ht]
      exact iff_of_true (fun _ => hpos) fun _ hidle => by rw [ht] at hidle; cases hidle
  | poll t now =>
    rw [step_eq_poll ha, toLogged_poll]
    exact iff_of_true (fun _ => hpos) trivial
  | timeout t =>
    rw [step_eq_timeout ha]
    exact iff_of_true (pos_timeout h hpos) trivial
  | closeLogFile =>
    rw [step_eq_closeLogFile ha]
    have hclose := h.pos_closeLogFile hpos
    exact ⟨fun hroom _ => hclose.1 (hroom ha), fun hroom _ => hclose.2 (hroom ha)⟩

/-- **The space check of every state of a run** is sound exactly if every step leaves room in the block. -/
theorem spaceSound_run_iff (d : A) (filePath : String) (ls : List (Label S T)) :
    (∀ n, (run step (opened d filePath : System B A S T) (ls.take n)).SpaceSound) ↔
      Along step KeepsRoom (opened d filePath : System B A S T) ls := by
  have hopened : (opened d filePath : System B A S T).wal.Bounded := (DbWAL.Bounded.openLogFile (.new d) filePath).1
  have hsound : (opened d filePath : System B A S T).SpaceSound := by
    intro _
    rw [DbWAL.spaceSound_iff_pos hopened, opened_wal, (filled_freshBlock _).pos]
    decide
  have hbounded : ∀ n, (run step (opened d filePath : System B A S T) (ls.take n)).wal.Bounded := fun n =>
    Along.invariant (C := fun _ _ => True) (P := fun s : System B A S T => s.wal.Bounded)
      (fun s l h _ => bounded_step h l) hopened
      (Along.of_forall (Q := fun _ => True) fun _ _ => trivial)
  have hstep : ∀ (s : System B A S T) l, s.wal.Bounded ∧ s.SpaceSound →
      ((step s l).wal.Bounded ∧ (step s l).SpaceSound ↔ KeepsRoom s l) :=
    fun s l h => (and_iff_right (bounded_step h.1 l)).trans (spaceSound_step h.1 h.2 l)
  rw [← Along.iff_invariant hstep ⟨hopened, hsound⟩]
  exact forall_congr' fun n => (and_iff_right (hbounded n)).symm

end System

end

/-- Whatever the hash is, an entry of 4091 bytes that gets a new block leaves a position from which the space check
wraps around. -/
theorem not_spaceSound_run : ¬ ∃ hash : Wheathash, ∀ ls : List (Label keySchema Bool),
    (run System.step (System.opened {} "" : System ListBuffer VectorAdapter keySchema Bool) ls).SpaceSound := by
  rintro ⟨hash, h⟩
  obtain ⟨s, hs, ha, -, -, hfill, -⟩ := run_twoCalls 0
  have hsound : s.SpaceSound := hs ▸ h _
  have hwrap := (hsound ha).noWrap
  have hrem : s.wal.block.remainingCapacity = BlockSize - s.wal.block.pos := rfl
  rw [hrem, hfill.pos, length_largeEntry, BlockSize] at hwrap
  omega

end CppDb
