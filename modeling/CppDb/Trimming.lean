import CppDb.Clearing
import CppDb.Completions
import CppDb.Recovery
import CppDb.Sessions

/-!
# Clearing the log while it is in use

`clearLog` drops the blocks of the log and leaves the block in progress alone. The log may be cleared at any moment of
a run: what `verifyLog` reports in the end are the operations that are pending and whose entries were not in the log
when it was last cleared, those with IDs above `_lastFlushedOpId` at that moment (`verifyLog_after_clears`).
-/

namespace CppDb
open Embed
open StorageAdapter (pos)
open ReadableAdapter (Ok bytes)

section
variable {S : Schema} {es fs : List (Entry S)}

/-- A log whose beginning is gone: the operations that were registered there are missing, no others. -/
theorem unfinished_of_once (honce : Once (es ++ fs)) (hnodup : ((es ++ fs).map Entry.ticket).Nodup)
    {p : OpID → Bool} (hes : ∀ e ∈ es, p e.ticket = false) (hfs : ∀ e ∈ fs, p e.ticket = true) :
    unfinished fs = (unfinished (es ++ fs)).filter fun x => p x.1 := by
  have hgone : ∀ x ∈ unfinished es, ¬ p x.1 = true := fun x hx => by
    rw [hes _ (mem_unfinished.1 hx).1]
    exact Bool.false_ne_true
  have hkept : ∀ x ∈ unfinished fs, (x.1 ∉ completedIds (es ++ fs)) ∧ p x.1 = true := by
    intro x hx
    obtain ⟨hop, hopen⟩ := mem_unfinished.1 hx
    refine ⟨fun hmem => ?_, hfs _ hop⟩
    rw [completedIds_append] at hmem
    rcases List.mem_append.1 hmem with hmem | hmem
    · -- the operation of the marker stands before it, and there is only one with the ID
      obtain ⟨ticket, status, he⟩ := mem_completedIds.1 hmem
      obtain ⟨l, r, rfl⟩ := List.append_of_mem he
      obtain ⟨⟨op, hop'⟩, -⟩ := honce.split (List.append_assoc l _ fs)
      rw [List.map_append, List.nodup_append] at hnodup
      refine hnodup.2.2 x.1 (List.mem_map.2 ⟨_, List.mem_append_left _ hop', rfl⟩) x.1
        (List.mem_map.2 ⟨_, hop, rfl⟩) rfl
    · exact hopen hmem
  rw [unfinished_append, List.filter_filter, List.filter_append, List.filter_eq_nil_iff.2, List.nil_append,
    List.filter_eq_self.2]
  · exact fun x hx => by simpa using (hkept x hx).symm
  · exact fun x hx => by simpa using fun hp => absurd hp (hgone x hx)

end

/-! ### The log and what was cleared -/

/-- An in-memory device that can be cleared. -/
class ClearableDevice (A : Type) [StorageAdapter A] [ClearableAdapter A] extends LogDevice A where
  clear_some {d : A} (h : Ok d) (ho : LogDevice.isOpen d = true) : ∃ d', ClearableAdapter.clear d = (some (), d') ∧
    Ok d' ∧ bytes d' = [] ∧ LogDevice.isOpen d' = true

instance {B : ℕ → Type} [StaticDataBuffer B] {N : ℕ} : ClearableDevice (StaticBufferAdapter B N) where
  clear_some {d} _ ho := by
    obtain ⟨data, hclear⟩ := StaticBufferAdapter.shows_clear d
    obtain ⟨hok, hbytes⟩ := StaticBufferAdapter.ok_of_shows_empty hclear
    exact ⟨_, rfl, hok, hbytes, ho⟩

/-- A step, or `clearLog`. -/
inductive TrimEvent (S : Schema) (T : Type) where
  | step (l : Label S T)
  | clearLog

/-- The system, and `_lastFlushedOpId` when the log was last cleared. -/
structure TrimmedLog (B : ℕ → Type) (A : Type) (S : Schema) (T : Type) where
  system : System B A S T
  trimmed : OpID := 0

namespace TrimmedLog
variable {B : ℕ → Type} [StaticDataBuffer B] {A : Type} [StorageAdapter A] [ClearableAdapter A] [Wheathash]
variable {S : Schema} {T : Type} [DecidableEq T]

def step (x : TrimmedLog B A S T) : TrimEvent S T → TrimmedLog B A S T
  | .step l => { x with system := x.system.step l }
  | .clearLog => { system := x.system.clearLog, trimmed := x.system.wal.lastFlushedOpId }

/-- The log is open, its entries are small, and the device has room for them. -/
def Fits (x : TrimmedLog B A S T) : TrimEvent S T → Prop
  | .step l => l ≠ .closeLogFile ∧ l.Small ∧ l.Ok ∧ ¬ AppendFails x.system.wal.logFile
  | .clearLog => True

end TrimmedLog

section
variable {B : ℕ → Type} [StaticDataBuffer B] {A : Type} [StorageAdapter A] [Wheathash]
variable {S : Schema} {T : Type} [DecidableEq T] {D : A → List (List (Entry S)) → Prop}

namespace System
variable {s : System B A S T} {l : Label S T}

theorem Working.step_open (hD : Tracks D) (h : s.Working D) (hopen : l ≠ .closeLogFile) (hsmall : l.Small)
    (hdevice : ¬ AppendFails s.wal.logFile) (hbound : (s.step l).issued < 2 ^ 32) : (s.step l).Working D := by
  have hfine := fine_of_small h.roomy.1 hsmall
  have hholds := Holds.step_fine hD ⟨h.holds, h.roomy.1⟩ (fun heq => absurd heq hopen) hfine hbound
  exact ⟨hholds.1, h.roomy_step hD hsmall hdevice, h.once_step hD hfine hbound⟩

theorem Holds.ticket_step (hD : Tracks D) (h : s.Holds D) (hroom : s.RoomOk l) (hbound : (s.step l).issued < 2 ^ 32)
    {e : Entry S} (he : e ∈ (s.step l).placed) : e ∈ s.placed ∨ s.issued < e.ticket.toNat := by
  rcases hcall : s.callOf l with _ | c
  · rw [show (s.step l).placed = s.placed from congrArg Ledger.placed (callOf_none hcall)] at he
    exact .inl he
  obtain ⟨t, r, rfl, ha, ht, -, -, -, hlogged⟩ := callOf_some hcall
  obtain ⟨blocks, cur, hplaced, hinv⟩ := h.log
  have hissued : r.TakesId s.wal → s.issued + 1 < 2 ^ 32 := fun htakes => by
    rwa [issued_request ha ht, if_pos htakes] at hbound
  have hspec := Request.spec hD hinv hissued hroom
  have hnew : (s.step (.request t r)).placed = s.placed ++ r.entries (r.perform.run s.wal).1 :=
    congrArg (fun g : Logged B A S => g.placed) hlogged
  rw [hnew] at he
  refine (List.mem_append.1 he).imp_right fun he => ?_
  generalize hrun : r.perform.run s.wal = x at hspec he
  cases hspec with
  | placed htakes _ _ hid _ _ _ _ hinv' =>
    rw [List.mem_singleton.1 he]
    exact Nat.lt_of_succ_le (Nat.le_of_eq (hinv'.lastOpId.symm.trans (congrArg UInt32.toNat hid.symm)))
  | failed => exact absurd he List.not_mem_nil
  | refused => exact absurd he List.not_mem_nil

end System

namespace TrimmedLog
variable [ClearableAdapter A] [ClearableDevice A] {x : TrimmedLog B A S T} {e : TrimEvent S T}

/-- The log is open and has this content. -/
def Content (d : A) (bs : Bytes) : Prop := Ok d ∧ bytes d = bs ∧ LogDevice.isOpen d = true

omit [Wheathash] in
theorem grows_content : Grows (Content : A → Bytes → Prop) where
  ret {d d' old data} h hrun := by
    obtain ⟨hok, rfl, ho⟩ := h
    obtain ⟨hok', ho', ⟨-, hbytes⟩ | ⟨hx, -⟩⟩ := LogDevice.append_cases hok hrun
    · exact ⟨hok', hbytes, ho'.trans ho⟩
    · cases hx
  fail {d d' old data} h hrun := by
    obtain ⟨hok, rfl, ho⟩ := h
    obtain ⟨hok', ho', ⟨hx, -⟩ | ⟨-, hbytes⟩⟩ := LogDevice.append_cases hok hrun
    · cases hx
    · exact ⟨hok', hbytes, ho'.trans ho⟩

/-- The log has what was placed but for the blocks `old`, which have the IDs up to `trimmed`. -/
structure Follows (x : TrimmedLog B A S T) (old : List (List (Entry S))) : Prop where
  working : x.system.Working (Since Content old)
  old_le : ∀ e ∈ old.flatten, e.ticket.toNat ≤ x.trimmed.toNat
  rest : ∀ e ∈ x.system.placed, e ∈ old.flatten ∨ x.trimmed.toNat < e.ticket.toNat
  trimmed_le : x.trimmed.toNat ≤ x.system.issued
  ok : ∀ e ∈ x.system.placed, e.body.Ok

omit [StaticDataBuffer B] [Wheathash] in
theorem run_clearLog {w : DbWAL B A} {bs : Bytes} (h : Content w.logFile bs) :
    ∃ d, DbWAL.clearLog.run w = (.ret (), { w with logFile := d }) ∧ Content d [] := by
  obtain ⟨hok, -, ho⟩ := h
  obtain ⟨d₁, hclear, hok₁, hbytes₁, ho₁⟩ := ClearableDevice.clear_some hok ho
  obtain ⟨d₂, hflush, hok₂, hbytes₂, ho₂⟩ := LogDevice.flush_some hok₁
  have hrun : StorageIo.clear.run w.logFile = (.ret (), d₁) := Proc.run_ofCall_some hclear
  refine ⟨d₂, ?_, hok₂, hbytes₂.trans hbytes₁, ho₂.trans ho₁⟩
  rw [DbWAL.clearLog, Proc.run_bind_of_ret (DbWAL.run_onLogFile hrun)]
  exact DbWAL.run_onLogFile (w := { w with logFile := d₁ }) (Proc.run_ofCall_some hflush)

/-- Clearing drops the blocks, and nothing else changes. -/
theorem Follows.clearLog {old : List (List (Entry S))} (h : x.Follows old) :
    ∃ blocks, (x.step .clearLog).Follows blocks := by
  obtain ⟨⟨hholds, hroomy, honce⟩, -, -, -, hok⟩ := h
  obtain ⟨blocks, cur, hplaced, hinv⟩ := hholds.log
  obtain ⟨new, -, hcontent⟩ := hinv.device
  obtain ⟨d, hrun, hempty⟩ := run_clearLog hcontent
  have hwal : x.system.clearLog = { x.system with wal := { x.system.wal with logFile := d } } := by
    rw [System.clearLog, hrun]
  have hsince : Since Content blocks d blocks := ⟨[], (List.append_nil _).symm, hempty⟩
  refine ⟨blocks, ?_, ?_, ?_, ?_, ?_⟩
  · rw [step, hwal]
    exact ⟨⟨⟨blocks, cur, hplaced, hinv.setLogFile hsince⟩, hholds.waiting, hholds.returned⟩, hroomy, honce⟩
  · exact hinv.flushed
  · rw [step, hwal]
    intro e he
    have he : e ∈ blocks.flatten ++ cur := hplaced ▸ he
    exact (List.mem_append.1 he).imp_right (hinv.notFlushed e)
  · rw [step, hwal]
    exact Nat.le_trans hinv.lastFlushed_le hinv.lastBlock_le
  · rw [step, hwal]
    exact hok

theorem Follows.step_label {old : List (List (Entry S))} (h : x.Follows old) {l : Label S T} (hfits : x.Fits (.step l))
    (hbound : (x.system.step l).issued < 2 ^ 32) : (x.step (.step l)).Follows old := by
  obtain ⟨hopen, hsmall, hop, hdevice⟩ := hfits
  have hD := tracks_since (S := S) (grows_content (A := A)) old
  have hroom := System.roomOk_of_small h.working.roomy.1 hsmall
  refine ⟨h.working.step_open hD hopen hsmall hdevice hbound, h.old_le, fun e he => ?_, ?_, ?_⟩
  · rcases h.working.holds.ticket_step hD hroom hbound he with he | hlt
    · exact h.rest e he
    · exact .inr (Nat.lt_of_le_of_lt h.trimmed_le hlt)
  · exact Nat.le_trans h.trimmed_le (System.issued_step _ l).1
  · have hops : ∀ l' ∈ [l], l'.Ok := fun l' hl' => by
      rw [List.mem_singleton.1 hl']
      exact hop
    exact System.ok_run h.ok hops

omit [ClearableDevice A] in
theorem issued_step (x : TrimmedLog B A S T) (e : TrimEvent S T) :
    x.system.issued ≤ (x.step e).system.issued ∧ (x.step e).system.issued ≤ x.system.issued + 1 := by
  cases e with
  | step l => exact System.issued_step x.system l
  | clearLog => exact ⟨Nat.le_refl _, Nat.le_succ _⟩

omit [DecidableEq T] in
theorem follows_opened {d : A} (hd : Ok d) (hclosed : LogDevice.isOpen d = false) (hempty : bytes d = [])
    (filePath : String) : (⟨.opened d filePath, 0⟩ : TrimmedLog B A S T).Follows [] := by
  obtain ⟨d', hopen, hok, hbytes, -, ho⟩ := LogDevice.open_some hd hclosed filePath .Write
  have hsince : Since (S := S) Content [] (StorageAdapter.open_ filePath .Write d).2 [] := by
    rw [hopen]
    exact ⟨[], rfl, hok, hbytes.trans hempty, ho⟩
  obtain ⟨b, hb, hopened⟩ := System.opened_eq (B := B) (S := S) (T := T) d filePath
  have hroomy : (System.opened d filePath : System B A S T).wal.Roomy := by
    rw [hopened, DbWAL.Roomy, hb.pos]
    decide
  exact {
    working := ⟨(System.holds_opened hsince).1, hroomy, Once.nil⟩
    old_le := fun _ he => absurd he List.not_mem_nil
    rest := fun _ he => absurd he List.not_mem_nil
    trimmed_le := Nat.le_refl _
    ok := fun _ he => absurd he List.not_mem_nil }

theorem follows_run {es : List (TrimEvent S T)} (h : ∃ old, x.Follows old) (hfits : Along step Fits x es)
    (hissued : (run step x es).system.issued < 2 ^ 32) : ∃ old, (run step x es).Follows old := by
  have hbound : Along step (fun x e => (x.step e).system.issued < 2 ^ 32) x es :=
    along_of_le_run (m := fun x : TrimmedLog B A S T => x.system.issued) (fun x e => (issued_step x e).1) hissued
  refine Along.invariant (P := fun x => ∃ old, x.Follows old) ?_ h (hfits.and hbound)
  rintro x (l | _) ⟨old, h⟩ ⟨hfits, hbound⟩
  · exact ⟨old, h.step_label hfits hbound⟩
  · exact h.clearLog

omit [DecidableEq T] in
theorem Follows.closeLogFile {old : List (List (Entry S))} (h : x.Follows old)
    (hdevice : ¬ AppendFails x.system.wal.logFile) :
    ∃ closed new, DbWAL.closeLogFile.run x.system.wal = (.ret (), closed) ∧
      x.system.placed = old.flatten ++ new.flatten ∧ Stored closed.logFile new := by
  have hD := tracks_since (S := S) (grows_content (A := A)) old
  obtain ⟨blocks, cur, hplaced, hinv⟩ := h.working.holds.log
  rcases closeLogFile_cases hD hinv with ⟨w', blocks', hrun, -, hsame, -, hinv'⟩ | ⟨w', d, hcur, hfail, -⟩
  · obtain ⟨new, rfl, hok, hbytes, ho⟩ := hinv'.device
    obtain ⟨d, hclose, hok', hb, hp, ho'⟩ := LogDevice.close_some hok ho
    have hnew : x.system.placed = old.flatten ++ new.flatten := by
      rw [hplaced, ← hsame, List.append_nil, List.flatten_append]
    refine ⟨{ w' with logFile := d }, new, ?_, hnew, ?_, hok', hb.trans hbytes, hp, ho'⟩
    · rw [hrun]
      exact DbWAL.run_onLogFile (p := StorageIo.close) (Proc.run_ofCall_some hclose)
    · refine fun es hes => readableBlock_of_mem (fun e he => h.ok e ?_) hes
        (hinv'.good es (List.mem_append_right _ hes))
      rw [hnew]
      exact List.mem_append_right _ he
  · exact absurd ⟨_, d, length_encodeBlock hinv, hfail⟩ hdevice

/-- **Recovery from a log that is cleared while it is in use**, at any moments of any run. In the end the log is
closed, opened again and verified: reported are the pending operations whose IDs are above `_lastFlushedOpId` when the
log was last cleared. -/
theorem verifyLog_after_clears (hS : S.checkAssertions = true) (hids : S.ByteIds) {d : A} (hd : Ok d)
    (hclosed : LogDevice.isOpen d = false) (hempty : bytes d = []) (filePath : String) {es : List (TrimEvent S T)}
    (hfits : Along step Fits (⟨.opened d filePath, 0⟩ : TrimmedLog B A S T) es)
    (hx : x = run step ⟨.opened d filePath, 0⟩ es) (hissued : x.system.issued < 2 ^ 32)
    (hdevice : ¬ AppendFails x.system.wal.logFile) :
    x.system.wal.pendingOperations = (unfinished x.system.placed).map Prod.fst ∧
    ∃ closed, DbWAL.closeLogFile.run x.system.wal = (.ret (), closed) ∧
      ∀ (w : DbWAL B A), w.logFile = closed.logFile → ∀ filePath', ∃ reopened,
        (DbWAL.openLogFile filePath').run w = (.ret (), reopened) ∧
        ∀ fuel, (bytes reopened.logFile).length / BlockSize < fuel →
          (reopened.verifyLog S fuel).1 = .ret () ∧
          (reopened.verifyLog S fuel).2.2 =
            ((unfinished x.system.placed).filter fun y => decide (x.trimmed < y.1)).map Prod.snd := by
  obtain ⟨old, h⟩ : ∃ old, x.Follows old := by
    rw [hx] at hissued ⊢
    exact follows_run ⟨[], follows_opened hd hclosed hempty filePath⟩ hfits hissued
  obtain ⟨blocks, cur, hplaced, hinv⟩ := h.working.holds.log
  refine ⟨by rw [hplaced]; exact hinv.pending, ?_⟩
  obtain ⟨closed, new, hclose, hnew, hstored⟩ := h.closeLogFile hdevice
  refine ⟨closed, hclose, fun w hw filePath' => ?_⟩
  rw [← hw] at hstored
  have hnodup : ((old.flatten ++ new.flatten).map Entry.ticket).Nodup := by
    rw [← hnew, hplaced]
    exact hinv.tickets_nodup
  have hrest : ∀ e ∈ new.flatten, x.trimmed < e.ticket := by
    intro e he
    refine (h.rest e ?_).resolve_left fun hold => ?_
    · rw [hnew]
      exact List.mem_append_right _ he
    · rw [List.map_append, List.nodup_append] at hnodup
      exact hnodup.2.2 e.ticket (List.mem_map_of_mem hold) e.ticket (List.mem_map_of_mem he) rfl
  have hunfinished := unfinished_of_once (p := fun id => decide (x.trimmed < id)) (hnew ▸ h.working.once) hnodup
    (fun e he => decide_eq_false (Nat.not_lt.2 (h.old_le e he))) (fun e he => decide_eq_true (hrest e he))
  rw [hnew, ← hunfinished]
  exact hstored.verifyLog hS hids filePath'

end TrimmedLog

end

namespace TrimmedLog

theorem run_steps {B : ℕ → Type} [StaticDataBuffer B] {A : Type} [StorageAdapter A] [ClearableAdapter A] [Wheathash]
    {S : Schema} {T : Type} [DecidableEq T] (s : System B A S T) (trimmed : OpID) (ls : List (Label S T)) :
    run step ⟨s, trimmed⟩ (ls.map .step) = ⟨run System.step s ls, trimmed⟩ := by
  induction ls generalizing s with
  | nil => rfl
  | cons l ls ih => exact ih (s.step l)

/-- A key is deleted and its block flushed, the log is cleared, and another key is deleted. -/
def clearedCalls : List (TrimEvent keySchema Unit) :=
  firstSession.labels.map .step ++ [.clearLog, .step (.request () (.registerOperation (deleteKey [98]) 50))]

section
variable [Wheathash] {x : TrimmedLog ListBuffer (StaticBufferAdapter ListBuffer 8192) keySchema Unit}

omit [Wheathash] in
theorem fits_of_content {l : Label keySchema Unit} (hl : l ≠ .closeLogFile ∧ l.Small ∧ l.Ok)
    (h : Content x.system.wal.logFile []) : x.Fits (.step l) := by
  refine ⟨hl.1, hl.2.1, hl.2.2, not_appendFails_of_fits h.1 ?_⟩
  rw [h.2.1]
  exact (by decide : 0 + 4096 ≤ 8192)

omit [Wheathash] in
theorem content_opened : Content (StorageAdapter.open_ "" .Write (.new : StaticBufferAdapter ListBuffer 8192)).2 [] := by
  obtain ⟨data, hnew⟩ := StaticBufferAdapter.shows_new (B := ListBuffer) (N := 8192)
  obtain ⟨hok, hempty⟩ := StaticBufferAdapter.ok_of_shows_empty hnew
  obtain ⟨d, hopen, hokOpen, hbytesOpen, -, ho⟩ := LogDevice.open_some hok rfl "" .Write
  rw [hopen]
  exact ⟨hokOpen, hbytesOpen.trans hempty, ho⟩

theorem along_firstSession :
    Along step Fits (⟨.opened .new "", 0⟩ : TrimmedLog ListBuffer (StaticBufferAdapter ListBuffer 8192) keySchema Unit)
      (firstSession.labels.map .step) := by
  obtain ⟨b, -, hstep⟩ := System.step_smallEntry (B := ListBuffer) (.new : StaticBufferAdapter ListBuffer 8192) "" ()
  obtain ⟨s, hs⟩ : ∃ s, s = (System.opened .new "" : System ListBuffer (StaticBufferAdapter ListBuffer 8192) keySchema
      Unit).step (.request () (.registerOperation (deleteKey [97]) 0)) := ⟨_, rfl⟩
  have hs' := hs.trans hstep
  have hcontent : Content s.wal.logFile [] := by
    rw [hs']
    exact content_opened
  have hpoll : Content (s.step (.poll () 50)).wal.logFile [] := by
    rw [System.step_eq_poll (by rw [hs']), System.toLogged_poll]
    exact hcontent
  refine ⟨fits_of_content (firstSession_labels (by simp [firstSession])) ?_, ?_⟩
  · obtain ⟨b₀, -, hopened⟩ := System.opened_eq (B := ListBuffer) (S := keySchema) (T := Unit)
      (.new : StaticBufferAdapter ListBuffer 8192) ""
    rw [hopened]
    exact content_opened
  · change Along step Fits ⟨System.step _ _, 0⟩ _
    rw [← hs]
    exact ⟨fits_of_content (firstSession_labels (by simp [firstSession])) hcontent,
      fits_of_content (firstSession_labels (by simp [firstSession])) hpoll, trivial⟩

/-- The block of the first deletion goes to the log. -/
theorem rests_firstSession : ∃ s : System ListBuffer (StaticBufferAdapter ListBuffer 8192) keySchema Unit,
    s = run System.step (.opened .new "") firstSession.labels ∧ s.Resting () ∧ s.placed = [smallEntry] ∧
      s.issued = 1 ∧ s.wal.lastOpId = 1 ∧ s.wal.lastFlushedOpId = 1 ∧ ∃ bs, Content s.wal.logFile bs := by
  have hfits : MemoryAdapter.Fits (StaticBufferAdapter ListBuffer 8192)
      ((bytes (StorageAdapter.open_ "" .Write (.new : StaticBufferAdapter ListBuffer 8192)).2).length +
        (blockImage 1 smallEntry.bytes).length) := by
    rw [content_opened.2.1, length_blockImage (by rw [length_smallEntry]; decide)]
    exact (by decide : 0 + 4096 ≤ 8192)
  obtain ⟨d, hd, hok, -, ho⟩ := LogDevice.append_ret content_opened.1 hfits
  obtain ⟨b, hb, hrun⟩ := System.run_first (B := ListBuffer) (S := keySchema)
    (.new : StaticBufferAdapter ListBuffer 8192) "" () _ (size_deleteKey_le [97] (by decide))
    (show (50 : UInt64) - 0 ≥ System.timeOut by decide) hd
  refine ⟨_, rfl, ?_⟩
  rw [firstSession, hrun]
  exact ⟨⟨hb, rfl, rfl, rfl⟩, rfl, rfl, rfl, rfl, _, hok, rfl, ho.trans content_opened.2.2⟩

theorem run_clearedCalls : ∃ x : TrimmedLog ListBuffer (StaticBufferAdapter ListBuffer 8192) keySchema Unit,
    x = run step ⟨.opened .new "", 0⟩ clearedCalls ∧
      Along step Fits
        (⟨.opened .new "", 0⟩ : TrimmedLog ListBuffer (StaticBufferAdapter ListBuffer 8192) keySchema Unit) clearedCalls ∧
      x.trimmed = 1 ∧ x.system.placed = [smallEntry, ⟨2, .operation (deleteKey [98])⟩] ∧ x.system.issued = 2 ∧
      Content x.system.wal.logFile [] := by
  obtain ⟨s, hs, hrest, hplaced, hissued, hlast, hflushed, bs, hcontent⟩ := rests_firstSession
  obtain ⟨d, hclear, hcontent'⟩ := run_clearLog hcontent
  obtain ⟨s', hs'⟩ : ∃ s' : System ListBuffer (StaticBufferAdapter ListBuffer 8192) keySchema Unit,
    s' = { s with wal := { s.wal with logFile := d } } := ⟨_, rfl⟩
  have hcleared : (⟨s, 0⟩ : TrimmedLog ListBuffer (StaticBufferAdapter ListBuffer 8192) keySchema Unit).step .clearLog =
      ⟨s', 1⟩ := by
    rw [step, System.clearLog, hclear, hs']
    exact congrArg (TrimmedLog.mk _) hflushed
  have hsteps : run step ⟨.opened .new "", 0⟩ (firstSession.labels.map .step) =
      (⟨s, 0⟩ : TrimmedLog ListBuffer (StaticBufferAdapter ListBuffer 8192) keySchema Unit) := by
    rw [run_steps, ← hs]
  have hrest' : s'.Resting () := by
    rw [hs']
    exact ⟨hrest.block, hrest.blockItemCount, hrest.idle, hrest.aborted⟩
  -- what the second deletion finds is an empty log
  have hlog : Content s'.wal.logFile [] := by
    rw [hs']
    exact hcontent'
  obtain ⟨b, -, hstep⟩ := hrest'.step_register (deleteKey [98]) 50 (size_deleteKey_le _ (by decide))
  refine ⟨⟨s'.step (.request () (.registerOperation (deleteKey [98]) 50)), 1⟩, ?_, ?_, rfl, ?_, ?_, ?_⟩
  · rw [clearedCalls, run_append, hsteps, run_cons, run_cons, run_nil, hcleared]
    rfl
  · refine Along.append_iff.2 ⟨along_firstSession, ?_⟩
    rw [hsteps]
    refine ⟨trivial, ?_, trivial⟩
    rw [hcleared]
    have hne : (.request () (.registerOperation (deleteKey [98]) 50) : Label keySchema Unit) ≠ .closeLogFile := by
      intro h
      cases h
    exact fits_of_content ⟨hne, size_deleteKey_le _ (by decide), deleteKey_overRecord _, deleteKey_short (by decide)⟩
      hlog
  · rw [hstep, hs', hplaced, hlast]
    rfl
  · rw [hstep, hs', hissued]
  · rw [hstep]
    exact hlog

end

open ByteSum in
/-- The deletion that was cleared is still pending, but not reported. -/
theorem verifyLog_after_clears_clearedCalls :
    ∃ x : TrimmedLog ListBuffer (StaticBufferAdapter ListBuffer 8192) keySchema Unit,
      x = run step ⟨.opened .new "", 0⟩ clearedCalls ∧ x.trimmed = 1 ∧ x.system.wal.pendingOperations = [1, 2] ∧
      ∃ closed reopened, DbWAL.closeLogFile.run x.system.wal = (.ret (), closed) ∧
        (DbWAL.openLogFile "").run closed = (.ret (), reopened) ∧
        ∀ fuel, (bytes reopened.logFile).length / BlockSize < fuel →
          (reopened.verifyLog keySchema fuel).1 = .ret () ∧
          (reopened.verifyLog keySchema fuel).2.2 = [deleteKey [98]] := by
  obtain ⟨x, hx, hfits, htrimmed, hplaced, hissued, hcontent⟩ := run_clearedCalls
  have hok : Ok (.new : StaticBufferAdapter ListBuffer 8192) := ⟨Nat.zero_le _, Nat.zero_le _⟩
  have hlast : ¬ AppendFails x.system.wal.logFile := by
    refine not_appendFails_of_fits hcontent.1 ?_
    rw [hcontent.2.1]
    exact (by decide : 0 + 4096 ≤ 8192)
  obtain ⟨hpending, closed, hclose, hreport⟩ :=
    verifyLog_after_clears keySchema_checkAssertions keySchema_byteIds hok rfl rfl "" hfits hx (by rw [hissued]; decide) hlast
  obtain ⟨reopened, hopen, hverify⟩ := hreport closed rfl ""
  rw [hplaced] at hpending hverify
  rw [htrimmed] at hverify
  exact ⟨x, hx, htrimmed, hpending, closed, reopened, hclose, hopen, hverify⟩

end TrimmedLog

end CppDb
