import CppDb.Sessions

/-!
# Logging after a crash

A session verifies the log a crash has left, and goes on with it. Its blocks are appended to whatever
the log ends with, but `verifyLog` reads blocks at multiples of `BlockSize` and takes a malformed one
only at the end. So all is well after an empty tail, as long as no operation of the session has an ID
that the old log completes; behind any other tail the next `verifyLog` ends the process
(`verifyLog_after_torn_tail`).
-/

namespace CppDb
open Embed
open StorageAdapter (pos)
open ReadableAdapter (Ok bytes)
open MemoryAdapter (Fits)

section
variable {B : ℕ → Type} [StaticDataBuffer B] {A : Type} [StorageAdapter A] [LogDevice A] [Wheathash]
variable {S : Schema} {T : Type} [DecidableEq T] {d : A} {old : List (List (Entry S))} {tail : Bytes}

/-- The blocks of the log, and what a crash left behind them. -/
structure CrashLog (d : A) (old : List (List (Entry S))) (tail : Bytes) : Prop where
  readable : ∀ es ∈ old, ReadableBlock es
  torn : TornTail tail
  ok : Ok d
  bytes_eq : bytes d = (old.map encodeBlock).flatten ++ tail
  pos_eq : pos d = 0
  closed : LogDevice.isOpen d = false

/-- A new `DbWAL` that has opened its log and verified it. -/
def System.verified (d : A) (filePath : String) (fuel : ℕ) : System B A S T :=
  { wal := ((System.opened d filePath : System B A S T).wal.verifyLog S fuel).2.1 }

omit [DecidableEq T] in
theorem CrashLog.verified (hS : S.checkAssertions = true) (hids : S.ByteIds) (h : CrashLog d old tail)
    (filePath : String) {fuel : ℕ} (hfuel : (bytes d).length / BlockSize < fuel) :
    ((System.opened d filePath : System B A S T).wal.verifyLog S fuel).1 = .ret () ∧
      (System.verified d filePath fuel : System B A S T).Live (bytes d) ∧
      (System.verified d filePath fuel : System B A S T).wal.block.pos = 2 := by
  obtain ⟨hholds, -⟩ := System.holds_opened (B := B) (S := S) (T := T) (onOpenDevice_open h.ok h.closed filePath)
  obtain ⟨d₁, hopen, hok, hb, hp, ho⟩ := LogDevice.open_some h.ok h.closed filePath .Write
  have hwal := System.opened_wal (B := B) (S := S) (T := T) d filePath
  rw [hopen] at hwal
  have hlog : bytes (System.opened d filePath : System B A S T).wal.logFile =
      (old.map encodeBlock).flatten ++ tail := by
    rw [hwal]
    exact hb.trans h.bytes_eq
  have hgood : ∀ es ∈ old, GoodBlock es := fun es hes => (h.readable es hes).toGoodBlock
  obtain ⟨hret, -, d₂, hsame, ⟨hok₂, ho₂⟩, hb₂⟩ := @verifyLog_spec B _ A _ (LogDevice.whileOpen A) _ S hS hids old
    h.readable tail h.torn (System.opened d filePath : System B A S T).wal (by rw [hwal]; exact ⟨hok, ho⟩)
    (by rw [hwal]; exact hp.trans h.pos_eq) hlog fuel
    (fuel_of_length hgood hlog (by rw [hwal]; change (bytes d₁).length / _ < _; rw [hb]; exact hfuel))
  have hpos : (System.verified d filePath fuel : System B A S T).wal.block.pos = 2 := by
    rw [System.verified, hsame, hwal]
    exact (filled_freshBlock _).pos
  refine ⟨hret, ⟨⟨?_, Nat.le_of_eq hpos.symm⟩, rfl⟩, hpos⟩
  obtain ⟨blocks, cur, hplaced, hinv⟩ := hholds.log
  have hlogged : ({ wal := { (System.opened d filePath : System B A S T).wal with logFile := d₂ } } :
      Logged B A S).Holds (OnOpenDevice (bytes d)) :=
    ⟨blocks, cur, hplaced, { hinv with device := ⟨⟨hok₂, hb₂.trans hinv.device.1.2⟩, ho₂⟩ }⟩
  rw [System.verified, hsame]
  exact hholds.setLogged hlogged (List.Subset.refl _) (Nat.le_refl _) false

omit [DecidableEq T] in
theorem CrashLog.reopened (h : CrashLog d old tail) {s : System B A S T}
    (hs : s.Holds (OnOpenDevice (bytes d))) (hops : ∀ e ∈ s.placed, e.body.Ok)
    (hfits : Fits A ((bytes s.wal.logFile).length + BlockSize)) :
    ∃ (closed : DbWAL B A) (blocks : List (List (Entry S))),
      DbWAL.closeLogFile.run s.wal = (.ret (), closed) ∧ blocks.flatten = s.placed ∧
      (∀ es ∈ blocks, ReadableBlock es) ∧
      ∀ (w : DbWAL B A), w.logFile = closed.logFile → ∀ filePath, ∃ reopened,
        (DbWAL.openLogFile filePath).run w = (.ret (), reopened) ∧ Ok reopened.logFile ∧ pos reopened.logFile = 0 ∧
        bytes reopened.logFile = (old.map encodeBlock).flatten ++ (tail ++ (blocks.map encodeBlock).flatten) := by
  obtain ⟨closed, blocks, hclose, hflat, hgood, ⟨hok, hbytes⟩, hpos, hclosed⟩ :=
    closeLogFile_ret hs.log fun _ => hfits
  refine ⟨closed, blocks, hclose, hflat, ?_, fun w hw filePath => ?_⟩
  · exact fun es hes => readableBlock_of_mem (by rw [hflat]; exact hops) hes (hgood es hes)
  · rw [← hw] at hok hbytes hpos hclosed
    obtain ⟨reopened, hopen, hok₁, hb₁, hp₁⟩ := openLogFile_ret hok hclosed filePath
    refine ⟨reopened, hopen, hok₁, hp₁.trans hpos, ?_⟩
    rw [hb₁, hbytes, h.bytes_eq, List.append_assoc]

/-- Blocks behind a tail that is not empty make the reader take the tail for a block in the middle. -/
theorem verifyLog_abort_of_tail (hold : ∀ es ∈ old, GoodBlock es) (htorn : TornTail tail) (hne : tail ≠ [])
    {blocks : List (List (Entry S))} (hblocks : ∀ es ∈ blocks, GoodBlock es) (hsome : blocks ≠ [])
    {w : DbWAL B A} (hok : Ok w.logFile) (hpos : pos w.logFile = 0)
    (hbytes : bytes w.logFile = (old.map encodeBlock).flatten ++ (tail ++ (blocks.map encodeBlock).flatten))
    (hbad : tail.length < BlockSize → BadChecksum (slice (bytes w.logFile) (BlockSize * old.length) BlockSize))
    {fuel : ℕ} (hfuel : (bytes w.logFile).length / BlockSize < fuel) :
    (w.verifyLog S fuel).1 = .abort "Failed to read a WAL block that's not the last one!" := by
  have hlen : (old.map encodeBlock).flatten.length = BlockSize * old.length := length_encodeBlocks hold
  have hlen' : (blocks.map encodeBlock).flatten.length = BlockSize * blocks.length := length_encodeBlocks hblocks
  have hpos₁ := List.length_pos_iff.2 hne
  have hpos₂ : BlockSize ≤ BlockSize * blocks.length := Nat.le_mul_of_pos_right _ (List.length_pos_iff.2 hsome)
  generalize (blocks.map encodeBlock).flatten = new at *
  -- the chunk that starts where the tail does
  have hslice : slice (bytes w.logFile) (BlockSize * old.length) BlockSize = (tail ++ new).take BlockSize := by
    rw [hbytes, slice, List.drop_left' hlen]
  have hchunk : BadChecksum ((tail ++ new).take BlockSize) := by
    rcases htorn with hlt | ⟨hfull, hb⟩
    · rw [← hslice]
      exact hbad hlt
    · rwa [List.take_left' hfull]
  have htotal : (tail ++ new).length = tail.length + BlockSize * blocks.length := by
    rw [List.length_append, hlen']
  have hrest : (tail ++ new).drop BlockSize ≠ [] := by
    intro hnil
    have hle := List.drop_eq_nil_iff.1 hnil
    omega
  refine verifyLog_abort hold ?_ hchunk hrest hok hpos ?_ ?_
  · rw [List.length_take, htotal]
    omega
  · rw [hbytes, List.take_append_drop]
  · refine Nat.lt_of_le_of_lt ?_ hfuel
    rw [hbytes, List.length_append, hlen, Nat.mul_add_div (by decide)]
    exact Nat.le_add_right ..

/-- `verifyLog` succeeds and reports what a session left unfinished, after what it reports of older ones. -/
def ReportsSession (w : DbWAL B A) (log : List (Entry S)) : Prop :=
  ∀ fuel, (bytes w.logFile).length / BlockSize < fuel →
    (w.verifyLog S fuel).1 = .ret () ∧ (unfinished log).map Prod.snd <:+ (w.verifyLog S fuel).2.2

omit [StaticDataBuffer B] [LogDevice A] [StorageAdapter A] [Wheathash] in
theorem unfinished_suffix {es fs : List (Entry S)} (h : ∀ x ∈ unfinished fs, x.1 ∉ completedIds es) :
    unfinished fs <:+ unfinished (es ++ fs) := by
  have hkeep : ((unfinished fs).filter fun x => x.1 ∉ completedIds (es ++ fs)) = unfinished fs := by
    refine List.filter_eq_self.2 fun x hx => ?_
    rw [completedIds_append]
    simpa using ⟨h x hx, (mem_unfinished.1 hx).2⟩
  rw [unfinished_append, List.filter_append, hkeep]
  exact List.suffix_append ..

end

/-! ### A block behind a torn one -/

section
variable {A : Type} [StorageAdapter A] [LogDevice A] [Wheathash]

theorem run_oneCall {d : A} {old : List (List (Entry keySchema))} {tail : Bytes} (h : CrashLog d old tail)
    (hfits : ∀ n, Fits A n) {fuel : ℕ} (hfuel : (bytes d).length / BlockSize < fuel) :
    ∃ s : System ListBuffer A keySchema Unit, s = run System.step (System.verified d "" fuel) oneCall ∧
      s.placed = [smallEntry] ∧ s.issued < 2 ^ 32 ∧
      Along System.step System.Smooth (System.verified d "" fuel : System ListBuffer A keySchema Unit) oneCall := by
  obtain ⟨-, hlive, hpos⟩ := h.verified (B := ListBuffer) (T := Unit) keySchema_checkAssertions
    keySchema_byteIds "" hfuel
  have hissued : (run System.step (System.verified d "" fuel) oneCall :
      System ListBuffer A keySchema Unit).issued < 2 ^ 32 :=
    Nat.lt_of_le_of_lt (System.issued_run_le _ _) (Nat.le_of_ble_eq_true rfl)
  have hsmooth := System.along_smooth_small hlive hfits (fun l hl => (oneCall_labels hl).1)
    (fun l hl => (oneCall_labels hl).2.1) hissued
  refine ⟨_, rfl, ?_, hissued, hsmooth⟩
  have hledger := hlive.step_ledger hsmooth.1 hissued
  have hcall : (System.verified d "" fuel : System ListBuffer A keySchema Unit).callOf
      (.request () (.registerOperation (deleteKey [97]) 0)) =
      some { body := .operation (deleteKey [97]), full := false
             id := outcome ((Request.registerOperation (deleteKey [97]) 0).perform.run
               (System.verified d "" fuel : System ListBuffer A keySchema Unit).wal).1 } := by
    rw [System.callOf_request hlive.2 rfl, hpos]
    rfl
  rw [hcall] at hledger
  exact (congrArg (fun r => r.2.placed) hledger).symm

end

end CppDb
