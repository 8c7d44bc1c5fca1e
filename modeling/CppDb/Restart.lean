import CppDb.Recovery
import CppDb.Qt

/-!
# Restarting on each storage adapter

`openLogFile` opens its log for writing, which keeps the contents of the in-memory adapters, truncates a file
(`LogFile`), and makes a `QBuffer` unreadable. `recovers_iff` says with which of them, and for which logs, a new
`DbWAL` reports what the last one left.
-/

namespace CppDb
open Embed
open StorageAdapter (pos size)
open FileAdapter (Closed Writing file)

/-- A file opened for writing, as the log uses it. -/
class LogFile (A : Type) [StorageAdapter A] extends FileAdapter A where
  open_write_some {d : A} {path : String} (h : Closed d) (hpath : path ≠ "") :
    ∃ d', StorageAdapter.open_ path .Write d = (some (), d')
  path_ne {d : A} {path : String} {bs : Bytes} (h : file d path = some bs) : path ≠ ""
  pos_eq {d : A} {path : String} {bs : Bytes} (h : Writing d path bs) : pos d = bs.length
  size_eq {d : A} {path : String} {bs : Bytes} (h : Writing d path bs) : size d = bs.length
  seekToEnd_some {d : A} {path : String} {bs : Bytes} (h : Writing d path bs) :
    ∃ d', StorageAdapter.seekToEnd d = (some (), d') ∧ Writing d' path bs
  seek_start {d : A} {path : String} (h : Writing d path []) :
    ∃ d', StorageAdapter.seek 0 d = (some (), d') ∧ Writing d' path []
  write_some {d : A} {path : String} {bs : Bytes} (h : Writing d path bs) (data : Bytes) :
    ∃ d', StorageAdapter.write data d = (some (), d')
  flush_some {d : A} {path : String} {bs : Bytes} (h : Writing d path bs) :
    ∃ d', StorageAdapter.flush d = (some (), d')
  close_some {d : A} {path : String} {bs : Bytes} (h : Writing d path bs) :
    ∃ d', StorageAdapter.close d = (some (), d')

instance {bits : ℕ} : LogFile (FopenAdapter bits) where
  open_write_some {d path} h hpath := by
    have h : d.handle = none := h
    simp [StorageAdapter.open_, FopenAdapter.open_, FopenAdapter.streamMode, Files.fopen, h, hpath]
  path_ne {d path bs} h := by
    rintro rfl
    cases h
  pos_eq {d path bs} h := by
    obtain ⟨hpath, hfile, hhandle⟩ := h
    simp [StorageAdapter.pos, FopenAdapter.pos, hhandle]
  size_eq {d path bs} h := by
    obtain ⟨hpath, hfile, hhandle⟩ := h
    simp [StorageAdapter.size, FopenAdapter.size, hhandle, Files.content_of_some hfile]
  seekToEnd_some {d path bs} h := by
    obtain ⟨hpath, hfile, hhandle⟩ := h
    refine ⟨d, ?_, hpath, hfile, hhandle⟩
    obtain ⟨files, filePath, handle, mode⟩ := d
    cases hhandle
    simp [StorageAdapter.seekToEnd, FopenAdapter.seekToEnd, FopenAdapter.onHandle, Files.content_of_some hfile]
  seek_start {d path} h := by
    obtain ⟨hpath, hfile, hhandle⟩ := h
    refine ⟨d, ?_, hpath, hfile, hhandle⟩
    obtain ⟨files, filePath, handle, mode⟩ := d
    cases hhandle
    simp [StorageAdapter.seek, FopenAdapter.seek, FopenAdapter.onHandle, FopenAdapter.toLong]
  write_some {d path bs} h data := by
    obtain ⟨hpath, hfile, hhandle⟩ := h
    by_cases hdata : data = []
    · simp [StorageAdapter.write, FopenAdapter.write, FopenAdapter.onHandle, hhandle, hdata, Files.fwrite_nil]
    · simp [StorageAdapter.write, FopenAdapter.write, FopenAdapter.onHandle, hhandle,
        Files.fwrite_of_ne (show (⟨path, false, true, false, bs.length⟩ : FILE).writable = true from rfl) hdata]
  flush_some {d path bs} h := by
    obtain ⟨hpath, hfile, hhandle⟩ := h
    simp [StorageAdapter.flush, FopenAdapter.flush, FopenAdapter.onHandle, hhandle]
  close_some {d path bs} h := by
    obtain ⟨hpath, hfile, hhandle⟩ := h
    simp [StorageAdapter.close, FopenAdapter.close, hhandle]

instance : LogFile QFileAdapter where
  open_write_some {d path} h hpath := by
    simp [StorageAdapter.open_, QFileAdapter.open_, QtOpenMode.ofOpenMode, hpath]
  path_ne {d path bs} h := by
    rintro rfl
    cases h
  pos_eq {d path bs} h := h.2.2.2.2
  size_eq {d path bs} h := by
    obtain ⟨hpath, hfile, hname, -⟩ := h
    simp [StorageAdapter.size, QFileAdapter.size, QFileAdapter.content, hname, Files.content_of_some hfile]
  seekToEnd_some {d path bs} h := by
    obtain ⟨hpath, hfile, hname, hmode, hpos⟩ := h
    refine ⟨{ d with position := d.size }, ?_, hpath, hfile, hname, hmode, ?_⟩
    · simp [StorageAdapter.seekToEnd, QFileAdapter.seekToEnd, hmode]
    · simp [QFileAdapter.size, QFileAdapter.content, hname, Files.content_of_some hfile]
  seek_start {d path} h := by
    obtain ⟨hpath, hfile, hname, hmode, hpos⟩ := h
    refine ⟨{ d with position := 0 }, ?_, hpath, hfile, hname, hmode, rfl⟩
    simp [StorageAdapter.seek, QFileAdapter.seek, hmode]
  write_some {d path bs} h data := by
    obtain ⟨hpath, hfile, hname, hmode, hpos⟩ := h
    simp [StorageAdapter.write, QFileAdapter.write, QFileAdapter.canWrite, hmode, QtOpenMode.isWritable]
  flush_some {d path bs} h := by
    obtain ⟨hpath, hfile, hname, hmode, hpos⟩ := h
    simp [StorageAdapter.flush, QFileAdapter.flush, hmode]
  close_some {d path bs} _ := ⟨_, rfl⟩

/-! ### Verifying a log with nothing to read -/

namespace Verification
variable {B : ℕ → Type} [StaticDataBuffer B] {A : Type} [StorageAdapter A] [Wheathash] {S : Schema}
variable {v : Verification B A S}

theorem verifyBlocks_empty (pass : ℕ) (h : size v.logFile = 0) {fuel : ℕ} (hfuel : 0 < fuel) :
    (verifyBlocks pass fuel).run v = (.ret (), v) := by
  obtain ⟨fuel, rfl⟩ := Nat.exists_eq_succ_of_ne_zero (Nat.ne_of_gt hfuel)
  rw [verifyBlocks, Proc.run_read_bind]
  dsimp only
  rw [h, Nat.zero_sub, if_neg (fun hcond => absurd hcond.2 (by decide))]
  rfl

theorem run_verifyBlock_refused (pass : ℕ)
    (hread : (StorageAdapter.read BlockSize v.logFile).1 = none) : (verifyBlock pass).run v =
      (malformedBlock (size v.logFile - pos v.logFile == BlockSize)).run
        (v.setLog (StorageAdapter.read BlockSize v.logFile).2) := by
  have hfail : (onLogFile (StorageIo.read BlockSize)).run v =
      (.fail, v.setLog (StorageAdapter.read BlockSize v.logFile).2) :=
    run_onLogFile (Proc.run_ofCall_none (Prod.ext hread rfl))
  rw [verifyBlock, Proc.run_read_bind]
  dsimp only
  rw [Proc.run_bind_of_ret (Proc.run_attempt_of_fail hfail)]

/-- Where reads fail and do not move, the loop never gets past the first block. -/
theorem verifyBlocks_unreadable (pass : ℕ) (hread : StorageAdapter.read BlockSize v.logFile = (none, v.logFile))
    (hend : StorageAdapter.atEnd v.logFile = false) (hsize : BlockSize ≤ size v.logFile - pos v.logFile)
    (fuel : ℕ) (u : Unit) : ((verifyBlocks pass fuel).run v).1 ≠ .ret u := by
  induction fuel with
  | zero =>
    intro h
    cases h
  | succ fuel ih =>
    have hblock : (verifyBlock pass).run v =
        (malformedBlock (B := B) (A := A) (S := S) (size v.logFile - pos v.logFile == BlockSize)).run v := by
      have hrefused := run_verifyBlock_refused pass (v := v) (congrArg Prod.fst hread)
      rwa [hread] at hrefused
    rw [verifyBlocks, Proc.run_read_bind]
    dsimp only
    rw [hend, if_pos ⟨Bool.false_ne_true, hsize⟩]
    by_cases hlast : (size v.logFile - pos v.logFile == BlockSize) = true
    · rw [malformedBlock, if_pos hlast] at hblock
      rw [Proc.run_bind_of_ret hblock]
      exact ih
    · rw [malformedBlock, if_neg hlast] at hblock
      rw [Proc.run_bind_of_abort hblock]
      intro h
      cases h

end Verification

section
variable {B : ℕ → Type} [StaticDataBuffer B] {A : Type} [StorageAdapter A] [Wheathash] {S : Schema} {w : DbWAL B A}

theorem verifyLog_empty (hpos : pos w.logFile = 0) (hsize : size w.logFile = 0) {d : A}
    (hseek : StorageAdapter.seek 0 w.logFile = (some (), d)) (hsize' : size d = 0) {fuel : ℕ} (hfuel : 0 < fuel) :
    (w.verifyLog S fuel).1 = .ret () ∧ (w.verifyLog S fuel).2.2 = [] := by
  have hrun : (Verification.verify fuel).run ({ logFile := w.logFile, blockBuffer := .new } : Verification B A S) =
      (.ret (), (Verification.started w.logFile).setLog d) := by
    have hfirst := Verification.verifyBlocks_empty 1 (v := (Verification.started w.logFile :
      Verification B A S)) hsize hfuel
    have hstart : (StorageIo.seek 0).run w.logFile = (.ret (), d) := Proc.run_ofCall_some hseek
    rw [Verification.run_verify hpos, Proc.run_bind_of_ret hfirst,
      Proc.run_bind_of_ret (Verification.run_onLogFile hstart)]
    exact Verification.verifyBlocks_empty 2 hsize' hfuel
  rw [DbWAL.verifyLog, hrun]
  exact ⟨rfl, rfl⟩

theorem verifyLog_unreadable (hpos : pos w.logFile = 0)
    (hread : StorageAdapter.read BlockSize w.logFile = (none, w.logFile))
    (hend : StorageAdapter.atEnd w.logFile = false) (hsize : BlockSize ≤ size w.logFile) (fuel : ℕ) :
    (w.verifyLog S fuel).1 ≠ .ret () := by
  have hblocks := Verification.verifyBlocks_unreadable 1
    (v := (Verification.started w.logFile : Verification B A S)) hread hend
    (by rw [show pos (Verification.started w.logFile : Verification B A S).logFile = 0 from hpos]; exact hsize) fuel
  rw [DbWAL.verifyLog, Verification.run_verify hpos]
  exact Proc.run_bind_ne_ret hblocks ()

end

/-! ### Restarting -/

section
variable {B : ℕ → Type} [StaticDataBuffer B] {A : Type} [StorageAdapter A] [Wheathash] {S : Schema}
variable {blocks : List (List (Entry S))} {filePath : String}

/-- A new `DbWAL` opens the log; `verifyLog` terminates, returns `true` and reports what is unfinished. -/
def Recovers (B : ℕ → Type) [StaticDataBuffer B] (d : A) (filePath : String) (es : List (Entry S)) : Prop :=
  ∃ reopened, (DbWAL.openLogFile filePath).run (.new d : DbWAL B A) = (.ret (), reopened) ∧
    ∃ bound, ∀ fuel, bound < fuel → (reopened.verifyLog S fuel).1 = .ret () ∧
      (reopened.verifyLog S fuel).2.2 = (unfinished es).map Prod.snd

omit [Wheathash] in
theorem run_openLogFile {w : DbWAL B A} {d : A}
    (h : StorageAdapter.open_ filePath .Write w.logFile = (some (), d)) :
    (DbWAL.openLogFile filePath).run w = (.ret (), { DbWAL.startNewBlock w with logFile := d }) := by
  rw [DbWAL.openLogFile, Proc.run_modify_bind]
  exact DbWAL.run_onLogFile (p := StorageIo.open_ filePath .Write) (Proc.run_ofCall_some h)

theorem recovers_of_stored [LogDevice A] (hS : S.checkAssertions = true) (hids : S.ByteIds) {d : A}
    (h : Stored d blocks) (filePath : String) : Recovers B d filePath blocks.flatten := by
  obtain ⟨reopened, hopen, hverify⟩ := Stored.verifyLog (w := (.new d : DbWAL B A)) hS hids h filePath
  exact ⟨reopened, hopen, _, hverify⟩

theorem recovers_iff_of_empty {d d₁ d₂ : A} {es : List (Entry S)}
    (hopen : StorageAdapter.open_ filePath .Write d = (some (), d₁)) (hpos : pos d₁ = 0) (hsize : size d₁ = 0)
    (hseek : StorageAdapter.seek 0 d₁ = (some (), d₂)) (hsize' : size d₂ = 0) :
    Recovers B d filePath es ↔ unfinished es = [] := by
  have hverify : ∀ fuel, 0 < fuel →
      (DbWAL.verifyLog S fuel { DbWAL.startNewBlock (.new d : DbWAL B A) with logFile := d₁ }).1 = .ret () ∧
      (DbWAL.verifyLog S fuel { DbWAL.startNewBlock (.new d : DbWAL B A) with logFile := d₁ }).2.2 = [] :=
    fun fuel hfuel => verifyLog_empty hpos hsize hseek hsize' hfuel
  constructor
  · rintro ⟨reopened, hrun, bound, h⟩
    rw [run_openLogFile hopen] at hrun
    cases hrun
    have hreported := (h (bound + 1) (Nat.lt_succ_self _)).2
    rw [(hverify (bound + 1) (Nat.succ_pos _)).2] at hreported
    exact List.map_eq_nil_iff.1 hreported.symm
  · intro hnone
    refine ⟨_, run_openLogFile hopen, 0, fun fuel hfuel => ?_⟩
    rw [hnone]
    exact hverify fuel hfuel

/-- Opening truncates a file. -/
theorem LogFile.recovers_iff_of_file [LogFile A] {d : A} {bs : Bytes} {es : List (Entry S)} (hd : Closed d)
    (hfile : file d filePath = some bs) : Recovers B d filePath es ↔ unfinished es = [] := by
  obtain ⟨d₁, hopen⟩ := LogFile.open_write_some hd (LogFile.path_ne hfile)
  obtain ⟨hwriting, -⟩ := FileAdapter.open_write hd hopen
  obtain ⟨d₂, hseek, hwriting₂⟩ := LogFile.seek_start hwriting
  exact recovers_iff_of_empty hopen (LogFile.pos_eq hwriting) (LogFile.size_eq hwriting) hseek
    (LogFile.size_eq hwriting₂)

/-- A buffer opened for writing keeps what it holds but cannot be read. -/
theorem QMemoryDeviceAdapter.recovers_iff_nil (hblocks : ∀ es ∈ blocks, GoodBlock es) {d : QMemoryDeviceAdapter}
    (hbuffer : d.buffer = (blocks.map encodeBlock).flatten) :
    Recovers B d filePath blocks.flatten ↔ blocks = [] := by
  have hlength := length_encodeBlocks hblocks
  rw [← hbuffer] at hlength
  have hopen : StorageAdapter.open_ filePath .Write d =
      (some (), { d with openMode := some .WriteOnly, position := 0 }) := rfl
  constructor
  · rintro ⟨reopened, hrun, bound, h⟩
    by_contra hne
    rw [run_openLogFile hopen] at hrun
    cases hrun
    have hcount : 0 < blocks.length := List.length_pos_of_ne_nil hne
    have hsize : BlockSize ≤ d.buffer.length := by
      rw [hlength]
      exact Nat.le_mul_of_pos_right _ hcount
    have hend : (false || decide (d.buffer.length ≤ 0)) = false := by
      rw [Bool.false_or, decide_eq_false_iff_not]
      have hblock := blockSize_pos
      omega
    exact verifyLog_unreadable (w := { DbWAL.startNewBlock (.new d : DbWAL B QMemoryDeviceAdapter) with
      logFile := { d with openMode := some .WriteOnly, position := 0 } }) rfl rfl hend hsize (bound + 1)
      (h (bound + 1) (Nat.lt_succ_self _)).1
  · intro hnil
    subst hnil
    have hempty : d.buffer.length = 0 := by rw [hbuffer]; rfl
    have hseek : StorageAdapter.seek 0 ({ d with openMode := some .WriteOnly, position := 0 } : QMemoryDeviceAdapter) =
        (some (), { d with openMode := some .WriteOnly, position := 0 }) := by
      simp [StorageAdapter.seek, QMemoryDeviceAdapter.seek, QMemoryDeviceAdapter.canWrite, QtOpenMode.isWritable]
    exact (recovers_iff_of_empty hopen rfl hempty hseek hempty).2 rfl

end

/-! ### What a session leaves in a file -/

section
variable {B : ℕ → Type} [StaticDataBuffer B] {A : Type} [StorageAdapter A] [LogFile A] [Wheathash] {S : Schema}
variable {filePath : String}

/-- The file is open for writing and holds the blocks. -/
def InFile (filePath : String) (d : A) (blocks : List (List (Entry S))) : Prop :=
  Writing d filePath (blocks.map encodeBlock).flatten

omit [Wheathash] in
theorem LogFile.append_ret {d : A} {bs : Bytes} (h : Writing d filePath bs) (data : Bytes) :
    ∃ d', (StorageIo.append data).run d = (.ret (), d') ∧ Writing d' filePath (bs ++ data) := by
  obtain ⟨d₁, h₁, hwriting₁⟩ := seekToEnd_some h
  obtain ⟨d₂, h₂⟩ := write_some hwriting₁ data
  obtain ⟨hwriting₂, -⟩ := FileAdapter.write hwriting₁ h₂
  obtain ⟨d₃, h₃⟩ := flush_some hwriting₂
  obtain ⟨hwriting₃, -⟩ := FileAdapter.flush hwriting₂ h₃
  have hseek : StorageIo.seekToEnd.run d = (.ret (), d₁) := Proc.run_ofCall_some h₁
  have hwrite : (StorageIo.write data).run d₁ = (.ret (), d₂) := Proc.run_ofCall_some h₂
  refine ⟨d₃, ?_, hwriting₃⟩
  rw [StorageIo.append, Proc.run_bind_of_ret hseek, Proc.run_bind_of_ret hwrite]
  exact Proc.run_ofCall_some h₃

theorem tracks_inFile (filePath : String) : Tracks (InFile (A := A) (S := S) filePath) where
  append_ret {d d' blocks es} h _ hrun := by
    obtain ⟨d₁, hret, hwriting⟩ := LogFile.append_ret h (encodeBlock es)
    rw [hret] at hrun
    cases hrun
    rw [InFile, List.map_append, List.flatten_append, List.map_singleton, List.flatten_singleton]
    exact hwriting
  append_fail {d d' blocks es} h _ hrun := by
    obtain ⟨d₁, hret, -⟩ := LogFile.append_ret h (encodeBlock es)
    rw [hret] at hrun
    cases hrun

variable {T : Type} [DecidableEq T]

theorem LogFile.closed_session {d : A} (hd : Closed d) (hpath : filePath ≠ "") {ls : List (Label S T)}
    (hcalls : ∀ l ∈ ls, l ≠ .closeLogFile) (hops : ∀ l ∈ ls, l.Ok) (hsmall : ∀ l ∈ ls, l.Small)
    {s : System B A S T} (hs : s = run System.step (System.opened d filePath) ls) (hissued : s.issued < 2 ^ 32) :
    ∃ (closed : DbWAL B A) (blocks : List (List (Entry S))), DbWAL.closeLogFile.run s.wal = (.ret (), closed) ∧
      blocks.flatten = s.placed ∧ (∀ es ∈ blocks, ReadableBlock es) ∧ Closed closed.logFile ∧
      file closed.logFile filePath = some (blocks.map encodeBlock).flatten := by
  subst hs
  obtain ⟨d₁, hopen⟩ := open_write_some hd hpath
  obtain ⟨hwriting, -⟩ := FileAdapter.open_write hd hopen
  have hstart : InFile (S := S) filePath (StorageAdapter.open_ filePath .Write d).2 [] := by
    rw [hopen]
    exact hwriting
  obtain ⟨hrun, -⟩ := System.holds_run_small (tracks_inFile filePath)
    (System.holds_opened (B := B) (T := T) hstart) (System.along_closesOk_of_ne hcalls) hsmall hissued
  have hplaced := System.ok_run (s := (System.opened d filePath : System B A S T))
    (fun _ he => absurd he List.not_mem_nil) hops
  obtain ⟨blocks, cur, hflat, hinv⟩ := hrun.log
  rcases closeLogFile_cases (tracks_inFile filePath) hinv with ⟨w', blocks', hclose, -, hsame, -, hinv'⟩ |
    ⟨w', d', -, hfail, -⟩
  · obtain ⟨d₂, hcall⟩ := close_some hinv'.device
    obtain ⟨hclosed, hfile, -⟩ := FileAdapter.close_write hinv'.device
    rw [hcall] at hclosed hfile
    have hall : blocks'.flatten = (run System.step (System.opened d filePath) ls : System B A S T).placed := by
      rw [hflat, ← hsame, List.append_nil]
    refine ⟨{ w' with logFile := d₂ }, blocks', ?_, hall, fun es hes => ?_, hclosed, hfile⟩
    · rw [hclose]
      exact DbWAL.run_onLogFile (p := StorageIo.close) (Proc.run_ofCall_some hcall)
    · exact readableBlock_of_mem (by rw [hall]; exact hplaced) hes (hinv'.good es hes)
  · obtain ⟨d₂, hret, -⟩ := LogFile.append_ret hinv.device (encodeBlock cur)
    rw [hret] at hfail
    cases hfail

end

theorem smallEntry_unfinished : unfinished [smallEntry] ≠ [] := by decide

end CppDb
