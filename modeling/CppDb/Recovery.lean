import CppDb.LogDevice
import CppDb.WalRuns
import CppDb.VerifyLogSpec

/-!
# Recovery

After any run of calls on an empty log, `verifyLog` reports the operations that were registered and
not completed: all of them when the log was closed (`verifyLog_after_close`), and those of the flushed
blocks when the process ended at any moment and left a torn tail (`verifyLog_after_crash`).
-/

namespace CppDb
open Embed
open StorageAdapter (pos)
open ReadableAdapter (Ok bytes)
open MemoryAdapter (Fits)

section
variable {B : ℕ → Type} [StaticDataBuffer B] {A : Type} [StorageAdapter A] [Wheathash] {S : Schema}

theorem fuel_of_length {blocks : List (List (Entry S))} (h : ∀ es ∈ blocks, GoodBlock es) {tail log : Bytes}
    (hlog : log = (blocks.map encodeBlock).flatten ++ tail) {fuel : ℕ}
    (hfuel : log.length / BlockSize < fuel) : blocks.length + tail.length / BlockSize < fuel := by
  rwa [hlog, List.length_append, length_encodeBlocks h, Nat.mul_add_div (by decide)] at hfuel

variable [LogDevice A]

/-- Closing: all that was placed is in the blocks on the device, which is at its beginning. -/
theorem closeLogFile_ret {base : Bytes} {s : Logged B A S} (h : s.Holds (OnOpenDevice base))
    (hfits : s.wal.blockItemCount ≠ 0 → Fits A ((bytes s.wal.logFile).length + BlockSize)) :
    ∃ closed blocks, DbWAL.closeLogFile.run s.wal = (.ret (), closed) ∧ blocks.flatten = s.placed ∧
      (∀ es ∈ blocks, GoodBlock es) ∧ OnDevice base closed.logFile blocks ∧ pos closed.logFile = 0 ∧
      LogDevice.isOpen closed.logFile = false := by
  obtain ⟨blocks, cur, hplaced, hinv⟩ := h
  rcases closeLogFile_cases (tracks_onOpenDevice base) hinv with ⟨w', blocks', hrun, -, hsame, -, hinv'⟩ |
    ⟨w', d, hcur, hfail, -⟩
  · obtain ⟨⟨hok, hbytes⟩, ho⟩ := hinv'.device
    obtain ⟨d, hclose, hok', hb, hp, ho'⟩ := LogDevice.close_some hok ho
    refine ⟨{ w' with logFile := d }, blocks', ?_, ?_, hinv'.good, ⟨hok', hb.trans hbytes⟩, hp, ho'⟩
    · rw [hrun]
      exact DbWAL.run_onLogFile (p := StorageIo.close) (Proc.run_ofCall_some hclose)
    · rw [hplaced, ← hsame, List.append_nil]
  · have hne : s.wal.blockItemCount ≠ 0 := by
      rw [hinv.count]; exact mt List.length_eq_zero_iff.1 hcur
    have hlen : (encodeBlock cur).length = BlockSize := length_blockImage (by have := hinv.room; omega)
    obtain ⟨d', hret, -⟩ := LogDevice.append_ret hinv.device.1.1
      (show Fits A (_ + (encodeBlock cur).length) by rw [hlen]; exact hfits hne)
    rw [hfail] at hret
    cases hret

/-- The closed log holds the blocks, and is at its beginning. -/
structure Stored (d : A) (blocks : List (List (Entry S))) : Prop where
  readable : ∀ es ∈ blocks, ReadableBlock es
  ok : Ok d
  bytes_eq : bytes d = (blocks.map encodeBlock).flatten
  pos_eq : pos d = 0
  closed : LogDevice.isOpen d = false

theorem stored_empty (S : Schema) : Stored (S := S) ({} : VectorAdapter) [] :=
  ⟨fun _ hes => absurd hes List.not_mem_nil, trivial, rfl, rfl, rfl⟩

theorem closeLogFile_stored {old : List (List (Entry S))} (hold : ∀ es ∈ old, ReadableBlock es)
    {s : Logged B A S} (h : s.Holds (OnOpenDevice (old.map encodeBlock).flatten))
    (hops : ∀ e ∈ s.placed, e.body.Ok)
    (hfits : s.wal.blockItemCount ≠ 0 → Fits A ((bytes s.wal.logFile).length + BlockSize)) :
    ∃ closed blocks, DbWAL.closeLogFile.run s.wal = (.ret (), closed) ∧ blocks.flatten = s.placed ∧
      Stored closed.logFile (old ++ blocks) := by
  obtain ⟨closed, blocks, hclose, hflat, hgood, ⟨hok, hbytes⟩, hpos, hclosed⟩ := closeLogFile_ret h hfits
  refine ⟨closed, blocks, hclose, hflat, ?_, hok, ?_, hpos, hclosed⟩
  · intro es hes
    rcases List.mem_append.1 hes with hes | hes
    · exact hold es hes
    · exact readableBlock_of_mem (by rw [hflat]; exact hops) hes (hgood es hes)
  · rw [hbytes, List.map_append, List.flatten_append]

omit [Wheathash] in
theorem openLogFile_ret {w : DbWAL B A} (hok : Ok w.logFile) (hclosed : LogDevice.isOpen w.logFile = false)
    (filePath : String) : ∃ reopened, (DbWAL.openLogFile filePath).run w = (.ret (), reopened) ∧
      Ok reopened.logFile ∧ bytes reopened.logFile = bytes w.logFile ∧ pos reopened.logFile = pos w.logFile := by
  obtain ⟨d, hopen, hok', hb, hp, -⟩ := LogDevice.open_some hok hclosed filePath .Write
  refine ⟨{ DbWAL.startNewBlock w with logFile := d }, ?_, hok', hb, hp⟩
  rw [DbWAL.openLogFile, Proc.run_modify_bind]
  exact DbWAL.run_onLogFile (p := StorageIo.open_ filePath .Write) (Proc.run_ofCall_some hopen)

theorem Stored.verifyLog (hS : S.checkAssertions = true) (hids : S.ByteIds) {w : DbWAL B A}
    {blocks : List (List (Entry S))} (h : Stored w.logFile blocks) (filePath : String) :
    ∃ reopened, (DbWAL.openLogFile filePath).run w = (.ret (), reopened) ∧
      ∀ fuel, (bytes reopened.logFile).length / BlockSize < fuel →
        (reopened.verifyLog S fuel).1 = .ret () ∧
        (reopened.verifyLog S fuel).2.2 = (unfinished blocks.flatten).map Prod.snd := by
  obtain ⟨reopened, hopen, hok, hb, hp⟩ := openLogFile_ret h.ok h.closed filePath
  refine ⟨reopened, hopen, fun fuel hfuel => ?_⟩
  have hlog : bytes reopened.logFile = (blocks.map encodeBlock).flatten ++ [] := by
    rw [hb, h.bytes_eq, List.append_nil]
  have hgood : ∀ es ∈ blocks, GoodBlock es := fun es hes => (h.readable es hes).toGoodBlock
  obtain ⟨hret, hreceived, -⟩ := verifyLog_spec hS hids h.readable (.inl (by decide)) hok (hp.trans h.pos_eq) hlog
    (fuel_of_length hgood hlog hfuel)
  exact ⟨hret, hreceived⟩

variable {T : Type} [DecidableEq T]

theorem holds_session {d : A} (hd : Ok d) (hclosed : LogDevice.isOpen d = false) (hempty : bytes d = [])
    (filePath : String) {ls : List (Label S T)} (hcalls : ∀ l ∈ ls, l ≠ .closeLogFile) (hsmall : ∀ l ∈ ls, l.Small)
    (hissued : (run System.step (System.opened d filePath : System B A S T) ls).issued < 2 ^ 32) :
    (run System.step (System.opened d filePath : System B A S T) ls).Holds (OnOpenDevice []) := by
  have hholds := System.holds_opened (B := B) (S := S) (T := T) (onOpenDevice_open hd hclosed filePath)
  rw [hempty] at hholds
  exact (System.holds_run_small (tracks_onOpenDevice []) hholds (System.along_closesOk_of_ne hcalls) hsmall
    hissued).1

/-- **Recovery is exact.** Any calls from any threads, interleaved in any way, on an empty log that is
then closed and opened again (by the same `DbWAL` or by another one): `verifyLog` succeeds and its
receiver gets the operations that were registered and not completed, in the order they were
registered; these are the pending operations. -/
theorem verifyLog_after_close (hS : S.checkAssertions = true) (hids : S.ByteIds) {d : A} (hd : Ok d)
    (hclosed : LogDevice.isOpen d = false) (hempty : bytes d = []) (filePath : String)
    {ls : List (Label S T)} (hcalls : ∀ l ∈ ls, l ≠ .closeLogFile) (hops : ∀ l ∈ ls, l.Ok)
    (hsmall : ∀ l ∈ ls, l.Small) {s : System B A S T}
    (hs : s = run System.step (System.opened d filePath) ls) (hissued : s.issued < 2 ^ 32)
    (hfits : s.wal.blockItemCount ≠ 0 → Fits A ((bytes s.wal.logFile).length + BlockSize)) :
    s.wal.pendingOperations = (unfinished s.placed).map Prod.fst ∧
    ∃ closed, DbWAL.closeLogFile.run s.wal = (.ret (), closed) ∧
      ∀ (w : DbWAL B A), w.logFile = closed.logFile → ∀ filePath', ∃ reopened,
        (DbWAL.openLogFile filePath').run w = (.ret (), reopened) ∧
        ∀ fuel, (bytes reopened.logFile).length / BlockSize < fuel →
          (reopened.verifyLog S fuel).1 = .ret () ∧
          (reopened.verifyLog S fuel).2.2 = (unfinished s.placed).map Prod.snd := by
  subst hs
  have hrun := holds_session hd hclosed hempty filePath hcalls hsmall hissued
  have hpending : (run System.step (System.opened d filePath) ls : System B A S T).wal.pendingOperations =
      (unfinished (run System.step (System.opened d filePath) ls : System B A S T).placed).map Prod.fst := by
    obtain ⟨blocks, cur, hplaced, hinv⟩ := hrun.log
    rw [hplaced]
    exact hinv.pending
  have hplaced := System.ok_run (s := (System.opened d filePath : System B A S T))
    (fun _ he => absurd he List.not_mem_nil) hops
  obtain ⟨closed, blocks, hclose, hflat, hstored⟩ :=
    closeLogFile_stored (show ∀ es ∈ ([] : List (List (Entry S))), ReadableBlock es from
      fun _ hes => absurd hes List.not_mem_nil) hrun.log hplaced hfits
  refine ⟨hpending, closed, hclose, fun w hw filePath' => ?_⟩
  rw [← hw, List.nil_append] at hstored
  rw [← hflat]
  exact hstored.verifyLog hS hids filePath'

end

open ByteSum in
theorem verifyLog_after_close_keyCalls :
    ∃ s : System ListBuffer VectorAdapter keySchema Unit,
      s = run System.step (System.opened {} "") keyCalls ∧
      s.wal.pendingOperations = (unfinished s.placed).map Prod.fst ∧
      ∃ closed, DbWAL.closeLogFile.run s.wal = (.ret (), closed) ∧
        ∃ reopened, (DbWAL.openLogFile "").run closed = (.ret (), reopened) ∧
          ∀ fuel, (bytes reopened.logFile).length / BlockSize < fuel →
            (reopened.verifyLog keySchema fuel).1 = .ret () ∧
            (reopened.verifyLog keySchema fuel).2.2 = (unfinished s.placed).map Prod.snd := by
  refine ⟨_, rfl, ?_⟩
  obtain ⟨hpending, closed, hclose, hreopen⟩ := verifyLog_after_close (B := ListBuffer) (T := Unit)
    keySchema_checkAssertions keySchema_byteIds (d := ({} : VectorAdapter)) trivial rfl rfl ""
    (show ∀ l ∈ keyCalls, l ≠ .closeLogFile by simp [keyCalls]) (fun _ => keyCalls_ok)
    (fun _ => keyCalls_small) rfl
    (Nat.lt_of_le_of_lt (System.issued_run_le _ _) (by decide)) fun _ => trivial
  exact ⟨hpending, closed, hclose, hreopen closed rfl ""⟩

/-! ### A log that a crash left -/

section
variable {B : ℕ → Type} [StaticDataBuffer B] {A : Type} [StorageAdapter A] [LogDevice A] [Wheathash]
variable {S : Schema} {T : Type} [DecidableEq T]

/-- **Crash recovery.** After any run on an empty log, let any adapter hold the bytes of the log and
behind them a torn tail. `verifyLog` succeeds and reports the operations of the flushed blocks that no
completion entry of the flushed blocks names, in order. An operation whose `registerOperation` has
returned is among them if nobody has completed it, once; one whose `updateOpStatus` has returned is not. -/
theorem verifyLog_after_crash (hS : S.checkAssertions = true) (hids : S.ByteIds) {d : A} (hd : Ok d)
    (hclosed : LogDevice.isOpen d = false) (hempty : bytes d = []) (filePath : String)
    {ls : List (Label S T)} (hops : ∀ l ∈ ls, l.Ok) (hsmall : ∀ l ∈ ls, l.Small) {s : System B A S T}
    (hs : s = run System.step (System.opened d filePath) ls) (hissued : s.issued < 2 ^ 32) :
    ∃ (blocks : List (List (Entry S))) (rest : List (Entry S)), s.placed = blocks.flatten ++ rest ∧
      bytes s.wal.logFile = (blocks.map encodeBlock).flatten ∧
      (∀ {R : Type} [StorageAdapter R] [ReadableAdapter R] {w : DbWAL B R} {tail : Bytes}, TornTail tail →
        Ok w.logFile → pos w.logFile = 0 → bytes w.logFile = bytes s.wal.logFile ++ tail →
        ∀ fuel, (bytes w.logFile).length / BlockSize < fuel →
          (w.verifyLog S fuel).1 = .ret () ∧
          (w.verifyLog S fuel).2.2 = (unfinished blocks.flatten).map Prod.snd) ∧
      ((unfinished blocks.flatten).map Prod.fst).Nodup ∧
      ∀ l ∈ s.returned, ∃ e ∈ blocks.flatten, e.ticket = l.currentOpId ∧ e.bytes = l.entry ∧
        match e.body with
        | .operation op => e.ticket ∉ completedIds s.placed → (e.ticket, op) ∈ unfinished blocks.flatten
        | .completion opId _ => opId ∉ (unfinished blocks.flatten).map Prod.fst := by
  subst hs
  have hholds := System.holds_opened (B := B) (S := S) (T := T) (onOpenDevice_open hd hclosed filePath).1
  rw [hempty] at hholds
  obtain ⟨hrun, -⟩ := System.holds_run_small (tracks_onDevice []) hholds
    (System.along_closesOk (closes_onDevice [])) hsmall hissued
  obtain ⟨blocks, cur, hplaced, hinv⟩ := hrun.log
  have hbytes := hinv.device.2
  rw [List.nil_append] at hbytes
  refine ⟨blocks, cur, hplaced, hbytes, ?_, ?_, fun l hl => ?_⟩
  · intro R _ _ w tail htail hok hp0 hw fuel hfuel
    rw [hbytes] at hw
    have hops : ∀ e ∈ blocks.flatten, e.body.Ok := fun e he =>
      System.ok_run (fun _ he => absurd he List.not_mem_nil) hops e (by
        rw [hplaced]; exact List.mem_append_left _ he)
    obtain ⟨hret, hreceived, -⟩ := verifyLog_spec hS hids
      (fun es hes => readableBlock_of_mem hops hes (hinv.good es hes)) htail hok hp0 hw
      (fuel_of_length hinv.good hw hfuel)
    exact ⟨hret, hreceived⟩
  · have hnodup := hinv.tickets_nodup
    rw [List.map_append] at hnodup
    exact (unfinished_sublist _).nodup (List.nodup_append.1 hnodup).1
  · obtain ⟨⟨e, he, hticket, hentry⟩, hflushed⟩ := hrun.returned l hl
    have hmem : e ∈ blocks.flatten := by
      rw [hplaced] at he
      rcases List.mem_append.1 he with he | he
      · exact he
      · have := hinv.notFlushed e he
        rw [hticket] at this
        exact absurd hflushed (Nat.not_le.2 this)
    refine ⟨e, hmem, hticket, hentry, ?_⟩
    rcases e with ⟨ticket, op | ⟨opId, status⟩⟩
    · intro hopen
      refine mem_unfinished.2 ⟨hmem, fun hc => hopen ?_⟩
      rw [hplaced, completedIds_append]
      exact List.mem_append_left _ hc
    · intro hopen
      obtain ⟨x, hx, hxid⟩ := List.mem_map.1 hopen
      refine (mem_unfinished.1 hx).2 (List.mem_filterMap.2 ⟨_, hmem, ?_⟩)
      rw [hxid]

end

open ByteSum in
theorem verifyLog_after_crash_keyCalls :
    ∃ s : System ListBuffer VectorAdapter keySchema Unit,
      s = run System.step (System.opened {} "") keyCalls ∧
      ∃ (blocks : List (List (Entry keySchema))) (rest : List (Entry keySchema)),
        s.placed = blocks.flatten ++ rest ∧ bytes s.wal.logFile = (blocks.map encodeBlock).flatten ∧
        (∀ {w : DbWAL ListBuffer VectorAdapter} {tail : Bytes}, TornTail tail → pos w.logFile = 0 →
          bytes w.logFile = bytes s.wal.logFile ++ tail →
          ∀ fuel, (bytes w.logFile).length / BlockSize < fuel →
            (w.verifyLog keySchema fuel).1 = .ret () ∧
            (w.verifyLog keySchema fuel).2.2 = (unfinished blocks.flatten).map Prod.snd) := by
  refine ⟨_, rfl, ?_⟩
  obtain ⟨blocks, rest, hplaced, hbytes, hverify, -⟩ := verifyLog_after_crash (B := ListBuffer) (T := Unit)
    keySchema_checkAssertions keySchema_byteIds (d := ({} : VectorAdapter)) trivial rfl rfl ""
    (show ∀ l ∈ keyCalls, l.Ok from fun _ => keyCalls_ok) (fun _ => keyCalls_small) rfl
    (Nat.lt_of_le_of_lt (System.issued_run_le _ _) (by decide))
  exact ⟨blocks, rest, hplaced, hbytes, fun htail hp hw => hverify htail trivial hp hw⟩

end CppDb
