import CppDb.Recovery

/-!
# Failing writes and flushes

`Faulty A` is a device `A` whose writes and flushes fail as a script says; a write that fails has stored
the beginning of its data. `finalizeAndflushCurrentBlock` appends at the end of the log on every
attempt. So the log recovers from failures that leave nothing behind (`recovers_of_clean`), and an
attempt that left its block there makes the next one store it twice (`not_recovers`).
-/

namespace CppDb
open Embed
open StorageAdapter (pos)
open ReadableAdapter (Ok bytes)
open MemoryAdapter (Fits)

structure Faulty (A : Type) where
  device : A
  /-- How the next writes go: `some n` fails after `n` bytes. -/
  writes : List (Option ℕ) := []
  /-- How the next flushes go. -/
  flushes : List Bool := []

namespace Faulty
variable {A : Type}

def onDevice {α : Type} (c : Call A α) : Call (Faulty A) α := fun f =>
  ((c f.device).1, { f with device := (c f.device).2 })

/-- What the next attempts leave behind when they fail: nothing. -/
def Clean (f : Faulty A) : Prop := (∀ w ∈ f.writes, w = none ∨ w = some 0) ∧ ∀ b ∈ f.flushes, b = true

variable [StorageAdapter A]

def write (bs : Bytes) : Call (Faulty A) Unit := fun f =>
  match f.writes with
  | some n :: ws => (none, { f with device := (StorageAdapter.write (bs.take n) f.device).2, writes := ws })
  | _ => onDevice (StorageAdapter.write bs) { f with writes := f.writes.tail }

def flush : Call (Faulty A) Unit := fun f =>
  if f.flushes.headD true then onDevice StorageAdapter.flush { f with flushes := f.flushes.tail }
  else (none, { f with flushes := f.flushes.tail })

instance : StorageAdapter (Faulty A) where
  open_ filePath mode := onDevice (StorageAdapter.open_ filePath mode)
  close := onDevice StorageAdapter.close
  read dataSize := onDevice (StorageAdapter.read dataSize)
  write := write
  seek position := onDevice (StorageAdapter.seek position)
  seekToEnd := onDevice StorageAdapter.seekToEnd
  flush := flush
  pos f := pos f.device
  size f := StorageAdapter.size f.device
  atEnd f := StorageAdapter.atEnd f.device

omit [StorageAdapter A] in
theorem onDevice_some {α : Type} {c : Call A α} {f : Faulty A} {d : A} {a : α}
    (h : c f.device = (some a, d)) : onDevice c f = (some a, { f with device := d }) := by
  simp only [onDevice, h]

instance [ReadableAdapter A] : ReadableAdapter (Faulty A) where
  Ok f := Ok f.device
  bytes f := bytes f.device
  pos_le h := ReadableAdapter.pos_le (A := A) h
  size_eq h := ReadableAdapter.size_eq (A := A) h
  atEnd_eq h := ReadableAdapter.atEnd_eq (A := A) h
  read_some {f} h n hn := by
    obtain ⟨d, hr, hd⟩ := ReadableAdapter.read_some (A := A) h hn
    exact ⟨{ f with device := d }, onDevice_some hr, hd⟩
  seek_some {f} h p hp := by
    obtain ⟨d, hs, hd⟩ := ReadableAdapter.seek_some (A := A) h hp
    exact ⟨{ f with device := d }, onDevice_some hs, hd⟩

variable [LogDevice A] {f f' : Faulty A} {data : Bytes}

omit [StorageAdapter A] [LogDevice A] in
theorem clean_tail {d : A} (hclean : f.Clean) : (⟨d, f.writes.tail, f.flushes⟩ : Faulty A).Clean :=
  ⟨fun w hw => hclean.1 w (List.mem_of_mem_tail hw), hclean.2⟩

theorem write_clean (data : Bytes) (hok : Ok f.device) (hclean : f.Clean) : ∃ r d,
    StorageAdapter.write data f = (r, ⟨d, f.writes.tail, f.flushes⟩) ∧ Ok d ∧
      LogDevice.isOpen d = LogDevice.isOpen f.device ∧
      (r = some () ∧ bytes d = overwrite (bytes f.device) (pos f.device) data ∨
        r = none ∧ bytes d = bytes f.device) := by
  obtain ⟨d, writes, flushes⟩ := f
  have hopen := fun bs => LogDevice.isOpen_write d bs
  -- an attempt that the script lets through is up to the device
  have through : ∃ r d', onDevice (StorageAdapter.write data) (⟨d, writes.tail, flushes⟩ : Faulty A) =
      (r, ⟨d', writes.tail, flushes⟩) ∧ Ok d' ∧ LogDevice.isOpen d' = LogDevice.isOpen d ∧
      (r = some () ∧ bytes d' = overwrite (bytes d) (pos d) data ∨ r = none ∧ bytes d' = bytes d) := by
    have hopen := hopen data
    by_cases hfits : Fits A (pos d + data.length)
    · obtain ⟨d', hw, hok', hb, -⟩ := MemoryAdapter.write_some (d := d) hok hfits
      rw [hw] at hopen
      exact ⟨some (), d', by simp only [onDevice, hw], hok', hopen, .inl ⟨rfl, hb⟩⟩
    · obtain ⟨d', hw, hok', hb, -⟩ := MemoryAdapter.write_none (d := d) hok hfits
      rw [hw] at hopen
      exact ⟨none, d', by simp only [onDevice, hw], hok', hopen, .inr ⟨rfl, hb⟩⟩
  rcases writes with _ | ⟨_ | n, ws⟩
  · exact through
  · exact through
  · rcases hclean.1 (some n) (List.mem_cons_self ..) with h | h
    · cases h
    cases h
    have hfits : Fits A (pos d + (data.take 0).length) := MemoryAdapter.fits_pos (d := d) hok
    obtain ⟨d', hw, hok', hb, -⟩ := MemoryAdapter.write_some (d := d) hok hfits
    have hopen := hopen (data.take 0)
    rw [hw] at hopen
    refine ⟨none, d', ?_, hok', hopen, .inr ⟨rfl, ?_⟩⟩
    · change (none, (⟨(StorageAdapter.write (data.take 0) d).2, ws, flushes⟩ : Faulty A)) = _
      rw [hw]
      rfl
    · rw [hb, List.take_zero, overwrite_nil]

theorem flush_clean (hok : Ok f.device) (hclean : f.Clean) : ∃ d,
    StorageAdapter.flush f = (some (), ⟨d, f.writes, f.flushes.tail⟩) ∧ Ok d ∧ bytes d = bytes f.device ∧
      LogDevice.isOpen d = LogDevice.isOpen f.device := by
  obtain ⟨d, hf, hd⟩ := LogDevice.flush_some (d := f.device) hok
  refine ⟨d, ?_, hd⟩
  have hhead : f.flushes.headD true = true := by
    rcases h : f.flushes with _ | ⟨b, bs⟩
    · rfl
    · exact hclean.2 b (by rw [h]; exact List.mem_cons_self ..)
  have hflush : StorageAdapter.flush f = if f.flushes.headD true then
      onDevice StorageAdapter.flush { f with flushes := f.flushes.tail }
      else (none, { f with flushes := f.flushes.tail }) := rfl
  rw [hflush, if_pos hhead]
  exact onDevice_some hf

theorem append_clean (hok : Ok f.device) (hclean : f.Clean) {x : Exit Unit}
    (hrun : (StorageIo.append data).run f = (x, f')) :
    Ok f'.device ∧ f'.Clean ∧ LogDevice.isOpen f'.device = LogDevice.isOpen f.device ∧
      (x = .ret () ∧ bytes f'.device = bytes f.device ++ data ∨ x = .fail ∧ bytes f'.device = bytes f.device) := by
  obtain ⟨d₁, h₁, hok₁, hb₁, hp₁, ho₁⟩ := LogDevice.seekToEnd_some hok
  have hseek : StorageIo.seekToEnd.run f = (.ret (), { f with device := d₁ }) :=
    Proc.run_ofCall_some (onDevice_some h₁)
  rw [StorageIo.append, Proc.run_bind_of_ret hseek] at hrun
  obtain ⟨r, d₂, h₂, hok₂, ho₂, hb₂⟩ := write_clean (f := { f with device := d₁ }) data hok₁ hclean
  have hclean₂ := clean_tail (d := d₂) hclean
  rcases hb₂ with ⟨rfl, hb₂⟩ | ⟨rfl, hb₂⟩
  · obtain ⟨d₃, h₃, hok₃, hb₃, ho₃⟩ := flush_clean (f := ⟨d₂, f.writes.tail, f.flushes⟩) hok₂ hclean₂
    have hwrite : (StorageIo.write data).run { f with device := d₁ } =
        (.ret (), ⟨d₂, f.writes.tail, f.flushes⟩) := Proc.run_ofCall_some h₂
    have hflush : StorageIo.flush.run (⟨d₂, f.writes.tail, f.flushes⟩ : Faulty A) =
        (.ret (), ⟨d₃, f.writes.tail, f.flushes.tail⟩) := Proc.run_ofCall_some h₃
    rw [Proc.run_bind_of_ret hwrite, hflush] at hrun
    cases hrun
    refine ⟨hok₃, ⟨hclean₂.1, fun b hb => hclean.2 b (List.mem_of_mem_tail hb)⟩,
      ho₃.trans (ho₂.trans ho₁), .inl ⟨rfl, ?_⟩⟩
    rw [hb₃, hb₂, hb₁, hp₁, overwrite_end rfl]
  · have hwrite : (StorageIo.write data).run { f with device := d₁ } =
        (.fail, ⟨d₂, f.writes.tail, f.flushes⟩) := Proc.run_ofCall_none h₂
    rw [Proc.run_bind_of_fail hwrite] at hrun
    cases hrun
    exact ⟨hok₂, hclean₂, ho₂.trans ho₁, .inr ⟨rfl, hb₂.trans hb₁⟩⟩

/-- An append whose write goes through, whatever becomes of the flush: the data is in the log. -/
theorem append_stored (data : Bytes) (hok : Ok f.device) (hwrites : f.writes = [])
    (hfits : Fits A ((bytes f.device).length + data.length)) : ∃ d,
    (StorageIo.append data).run f =
        (if f.flushes.headD true then .ret () else .fail, ⟨d, [], f.flushes.tail⟩) ∧
      Ok d ∧ bytes d = bytes f.device ++ data ∧ LogDevice.isOpen d = LogDevice.isOpen f.device := by
  obtain ⟨d, writes, flushes⟩ := f
  cases hwrites
  obtain ⟨d₁, h₁, hok₁, hb₁, hp₁, ho₁⟩ := LogDevice.seekToEnd_some (d := d) hok
  have hseek : StorageIo.seekToEnd.run (⟨d, [], flushes⟩ : Faulty A) = (.ret (), ⟨d₁, [], flushes⟩) :=
    Proc.run_ofCall_some (onDevice_some h₁)
  have hfits : Fits A (pos d₁ + data.length) := by rwa [hp₁]
  obtain ⟨d₂, h₂, hok₂, hb₂, -⟩ := MemoryAdapter.write_some hok₁ hfits
  have ho₂ := LogDevice.isOpen_write d₁ data
  rw [h₂] at ho₂
  have hwrite : (StorageIo.write data).run (⟨d₁, [], flushes⟩ : Faulty A) = (.ret (), ⟨d₂, [], flushes⟩) :=
    Proc.run_ofCall_some (onDevice_some h₂)
  have hbytes : bytes d₂ = bytes d ++ data := by rw [hb₂, hb₁, hp₁, overwrite_end rfl]
  rw [StorageIo.append, Proc.run_bind_of_ret hseek, Proc.run_bind_of_ret hwrite]
  by_cases hhead : flushes.headD true = true
  · obtain ⟨d₃, h₃, hok₃, hb₃, ho₃⟩ := LogDevice.flush_some hok₂
    have hflush : flush (⟨d₂, [], flushes⟩ : Faulty A) = (some (), ⟨d₃, [], flushes.tail⟩) := by
      rw [flush, if_pos hhead]
      exact onDevice_some h₃
    rw [if_pos hhead]
    exact ⟨d₃, Proc.run_ofCall_some hflush, hok₃, hb₃.trans hbytes, ho₃.trans (ho₂.trans ho₁)⟩
  · have hflush : flush (⟨d₂, [], flushes⟩ : Faulty A) = (none, ⟨d₂, [], flushes.tail⟩) := by
      rw [flush, if_neg hhead]
    rw [if_neg hhead]
    exact ⟨d₂, Proc.run_ofCall_none hflush, hok₂, hbytes, ho₂.trans ho₁⟩

end Faulty

/-- The log is a sequence of whole blocks that `verifyLog` reads to the end, and each operation that has
got an ID and was not completed is reported once. -/
structure System.Recovers {B : ℕ → Type} [StaticDataBuffer B] {A : Type} [StorageAdapter A] [ReadableAdapter A]
    [Wheathash] {S : Schema} {T : Type} (s : System B A S T) (w : DbWAL B A) : Prop where
  whole : (bytes w.logFile).length % BlockSize = 0
  reports : ∀ fuel, (bytes w.logFile).length / BlockSize < fuel → (w.verifyLog S fuel).1 = .ret () ∧
    ∃ reports : List (OpID × Operation S), (w.verifyLog S fuel).2.2 = reports.map Prod.snd ∧
      (reports.map Prod.fst).Nodup ∧ (∀ x ∈ reports, ⟨x.1, .operation x.2⟩ ∈ s.placed) ∧
      ∀ l ∈ s.returned, ∀ op, ⟨l.currentOpId, .operation op⟩ ∈ s.placed →
        l.currentOpId ∉ completedIds s.placed → (l.currentOpId, op) ∈ reports

/-! ### Failures that leave nothing behind -/

section
variable {A : Type} [StorageAdapter A] [LogDevice A] [Wheathash] {S : Schema}

/-- The blocks are on the open device, and it is clean. -/
def OnCleanDevice (f : Faulty A) (blocks : List (List (Entry S))) : Prop :=
  Ok f.device ∧ f.Clean ∧ LogDevice.isOpen f.device = true ∧ bytes f.device = (blocks.map encodeBlock).flatten

theorem tracks_onCleanDevice : Tracks (OnCleanDevice (A := A) (S := S)) where
  append_ret := by
    rintro f f' blocks es ⟨hok, hclean, ho, hb⟩ - hrun
    obtain ⟨hok', hclean', ho', ⟨-, hb'⟩ | ⟨hx, -⟩⟩ := Faulty.append_clean hok hclean hrun
    · refine ⟨hok', hclean', ho'.trans ho, ?_⟩
      rw [hb', hb]
      simp
    · cases hx
  append_fail := by
    rintro f f' blocks es ⟨hok, hclean, ho, hb⟩ - hrun
    obtain ⟨hok', hclean', ho', ⟨hx, -⟩ | ⟨-, hb'⟩⟩ := Faulty.append_clean hok hclean hrun
    · cases hx
    · exact ⟨hok', hclean', ho'.trans ho, hb'.trans hb⟩

theorem close_onCleanDevice {f : Faulty A} {blocks : List (List (Entry S))} (h : OnCleanDevice f blocks) :
    ∃ d, StorageIo.close.run f = (.ret (), { f with device := d }) ∧ Ok d ∧ bytes d = bytes f.device ∧
      pos d = 0 ∧ LogDevice.isOpen d = false := by
  obtain ⟨hok, -, ho, -⟩ := h
  obtain ⟨d, hc, hd⟩ := LogDevice.close_some hok ho
  exact ⟨d, Proc.run_ofCall_some (Faulty.onDevice_some hc), hd⟩

theorem open_onCleanDevice {f : Faulty A} (hok : Ok f.device) (hclean : f.Clean)
    (hclosed : LogDevice.isOpen f.device = false) (hempty : bytes f.device = []) (filePath : String) :
    OnCleanDevice (S := S) (StorageAdapter.open_ filePath .Write f).2 [] := by
  obtain ⟨d, ho, hok', hb, -, ho'⟩ := LogDevice.open_some hok hclosed filePath .Write
  have hopen : StorageAdapter.open_ filePath .Write f = (some (), { f with device := d }) :=
    Faulty.onDevice_some ho
  rw [hopen]
  exact ⟨hok', hclean, ho', hb.trans hempty⟩

variable {B : ℕ → Type} [StaticDataBuffer B]

omit [Wheathash] in
theorem openLogFile_faulty {w : DbWAL B (Faulty A)} (hok : Ok w.logFile.device)
    (hclosed : LogDevice.isOpen w.logFile.device = false) (filePath : String) :
    ∃ w', (DbWAL.openLogFile filePath).run w = (.ret (), w') ∧ Ok w'.logFile ∧
      bytes w'.logFile = bytes w.logFile.device ∧ pos w'.logFile = pos w.logFile.device := by
  obtain ⟨d, hopen, hok', hb, hp, -⟩ := LogDevice.open_some hok hclosed filePath .Write
  refine ⟨{ DbWAL.startNewBlock w with logFile := { w.logFile with device := d } }, ?_, hok', hb, hp⟩
  rw [DbWAL.openLogFile, Proc.run_modify_bind]
  exact DbWAL.run_onLogFile (Proc.run_ofCall_some (Faulty.onDevice_some hopen))

variable {T : Type} [DecidableEq T]

theorem along_closesOk_onCleanDevice {s : System B (Faulty A) S T} {ls : List (Label S T)}
    (h : Along System.step (fun s l => l = .closeLogFile → (DbWAL.closeLogFile.run s.wal).1 = .fail) s ls) :
    Along System.step (System.ClosesOk OnCleanDevice) s ls :=
  h.mono fun _ _ h hl => .inr ⟨h hl, fun f blocks hf => by
    obtain ⟨d, hrun, -⟩ := close_onCleanDevice hf
    rw [hrun]⟩

end

/-! ### Closing the log while a call waits -/

/-- The log is closed while a call waits for its entry; then the waiting thread's time is up. -/
def retryCalls : List (Label keySchema Unit) :=
  [.request () (.registerOperation (deleteKey [97]) 0), .closeLogFile, .poll () 50, .timeout ()]

theorem retryCalls_labels {l : Label keySchema Unit} (hl : l ∈ retryCalls) : l.Small ∧ l.Ok := by
  simp only [retryCalls, List.mem_cons, List.not_mem_nil, or_false] at hl
  rcases hl with rfl | rfl | rfl | rfl
  · exact ⟨size_deleteKey_le _ (by decide), deleteKey_overRecord _, deleteKey_short (by decide)⟩
  · exact ⟨trivial, trivial⟩
  · exact ⟨trivial, trivial⟩
  · exact ⟨trivial, trivial⟩

section
variable {A : Type} [StorageAdapter A] [Wheathash] {d d₁ d₂ : A}

theorem closeLogFile_retryCalls
    (h₁ : (StorageIo.append (blockImage 1 smallEntry.bytes)).run (StorageAdapter.open_ "" .Write d).2 = (.fail, d₁)) :
    ∃ b, Filled b ((blockImage 1 smallEntry.bytes).drop 2) BlockSize ∧
      DbWAL.closeLogFile.run (System.step (System.opened d "" : System ListBuffer A keySchema Unit)
          (.request () (.registerOperation (deleteKey [97]) 0))).wal =
        (.fail, { block := b, blockItemCount := 1, lastBlockOpId := 1, pendingOperations := [1]
                  operationsProcessed := 1, lastOpId := 1, logFile := d₁ }) := by
  obtain ⟨b₀, hb₀, hstep⟩ := System.step_smallEntry (B := ListBuffer) d "" ()
  obtain ⟨b, hb, hclose⟩ := DbWAL.run_closeLogFile_fail
    (w := { block := b₀, blockItemCount := 1, lastBlockOpId := 1, pendingOperations := [1], operationsProcessed := 1
            lastOpId := 1, logFile := (StorageAdapter.open_ "" .Write d).2 })
    hb₀ Nat.one_pos (Nat.le_of_ble_eq_true rfl) h₁
  rw [hstep]
  exact ⟨b, hb, hclose⟩

/-- The first append of the block fails, the second succeeds. -/
theorem run_retryCalls
    (h₁ : (StorageIo.append (blockImage 1 smallEntry.bytes)).run (StorageAdapter.open_ "" .Write d).2 = (.fail, d₁))
    (h₂ : (StorageIo.append (blockImage 1 smallEntry.bytes)).run d₁ = (.ret (), d₂)) :
    ∃ s : System ListBuffer A keySchema Unit, s = run System.step (System.opened d "") retryCalls ∧
      s.placed = [smallEntry] ∧ s.wal.blockItemCount = 0 ∧ s.wal.logFile = d₂ := by
  obtain ⟨b₁, -, hstep⟩ := System.step_smallEntry (B := ListBuffer) d "" ()
  obtain ⟨s₁, hs₁⟩ : ∃ s₁, s₁ = System.step (System.opened d "" : System ListBuffer A keySchema Unit)
      (.request () (.registerOperation (deleteKey [97]) 0)) := ⟨_, rfl⟩
  have hs₁' := hs₁.trans hstep
  obtain ⟨b₂, hb₂, hclose⟩ := closeLogFile_retryCalls h₁
  rw [← hs₁] at hclose
  have step₂ := System.step_closeLogFile (s := s₁) (by rw [hs₁']) hclose
  obtain ⟨s₂, hs₂⟩ : ∃ s₂, s₂ = s₁.step .closeLogFile := ⟨_, rfl⟩
  have hs₂' := hs₂.trans step₂
  -- the waiting thread is the one to flush, and appends the block again
  have hgo : s₂.aborted = false ∧ s₂.threads () = .waiting ⟨smallEntry.bytes, 1, true, 0⟩ := by
    rw [hs₂', hs₁']
    exact ⟨rfl, rfl⟩
  have himage : blockImage 1 ((blockImage 1 smallEntry.bytes).drop 2) = blockImage 1 smallEntry.bytes :=
    blockImage_drop (by rw [length_smallEntry]; decide)
  rw [← himage] at h₂
  obtain ⟨b₃, -, hflush⟩ := System.run_flush_block (d := d₂) hgo.1 hgo.2
    (by rw [hs₂']; exact (by decide : (0 : OpID) < 1)) rfl (show (50 : UInt64) - 0 ≥ System.timeOut by decide)
    (show Filled s₂.wal.block ((blockImage 1 smallEntry.bytes).drop 2) _ by rw [hs₂']; exact hb₂)
    (by rw [hs₂']; exact Nat.one_pos) (by rw [hs₂']; exact Nat.le_of_ble_eq_true rfl) (by rw [hs₂']; exact h₂)
  refine ⟨_, rfl, ?_⟩
  rw [retryCalls, run_cons, run_cons, ← hs₁, ← hs₂, hflush]
  refine ⟨?_, rfl, rfl⟩
  rw [hs₂', hs₁']

end

/-- An empty log whose first write fails at once. -/
def earlyFailure : Faulty VectorAdapter := { device := {}, writes := [some 0] }

/-- An empty log whose first flush fails. -/
def lateFailure : Faulty VectorAdapter := { device := {}, flushes := [false] }

theorem closeLogFile_faulty [Wheathash] {w : DbWAL ListBuffer (Faulty VectorAdapter)} (hcount : w.blockItemCount = 0)
    (hopen : LogDevice.isOpen w.logFile.device = true) : ∃ d, DbWAL.closeLogFile.run w =
        (.ret (), { w with logFile := { w.logFile with device := d } }) ∧ Ok d ∧ bytes d = bytes w.logFile.device ∧
      pos d = 0 ∧ LogDevice.isOpen d = false := by
  obtain ⟨d, hclose, hd⟩ := LogDevice.close_some (d := w.logFile.device) trivial hopen
  exact ⟨d, DbWAL.run_closeLogFile_empty hcount (Proc.run_ofCall_some (Faulty.onDevice_some hclose)), hd⟩

/-- A block that stands in the log twice has its operation reported twice. -/
theorem not_recovers_of_twice [Wheathash] {s : System ListBuffer (Faulty VectorAdapter) keySchema Unit}
    {w : DbWAL ListBuffer (Faulty VectorAdapter)} (hplaced : s.placed = [smallEntry]) (hok : Ok w.logFile)
    (hpos : pos w.logFile = 0) (hbytes : bytes w.logFile = encodeBlock [smallEntry] ++ encodeBlock [smallEntry]) :
    ¬ s.Recovers w := by
  intro hrecovers
  have hlog : bytes w.logFile = ([[smallEntry], [smallEntry]].map encodeBlock).flatten ++ [] := by
    rw [hbytes]
    simp
  have hreadable : ∀ es ∈ [[smallEntry], [smallEntry]], ReadableBlock es := by
    intro es hes
    have hes : es = [smallEntry] := by simpa using hes
    rw [hes]
    exact readableBlock_smallEntry
  have hgood : ∀ es ∈ [[smallEntry], [smallEntry]], GoodBlock es := fun es hes => (hreadable es hes).toGoodBlock
  obtain ⟨-, hreceived, -⟩ := verifyLog_spec keySchema_checkAssertions keySchema_byteIds hreadable
    (.inl (by decide)) hok hpos hlog (show 2 + 0 < 3 from Nat.lt_succ_self 2)
  have hfuel : (bytes w.logFile).length / BlockSize < 3 := by
    rw [hlog, List.append_nil, length_encodeBlocks hgood]
    decide
  obtain ⟨-, reports, hreports, hnodup, hmem, -⟩ := hrecovers.reports 3 hfuel
  have hone : ∀ id ∈ reports.map Prod.fst, id = (1 : OpID) := by
    intro id hid
    obtain ⟨x, hx, rfl⟩ := List.mem_map.1 hid
    have hentry := hmem x hx
    rw [hplaced] at hentry
    exact congrArg Entry.ticket (List.mem_singleton.1 hentry)
  have htwo : (reports.map Prod.fst).length = 2 := by
    rw [List.length_map, ← List.length_map (f := Prod.snd), ← hreports, hreceived]
    rfl
  rw [List.eq_replicate_of_mem hone, htwo] at hnodup
  exact absurd hnodup (by decide)

end CppDb
