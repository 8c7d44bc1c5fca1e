import CppDb.BlockRoom
import CppDb.Completions

/-!
# Which operations are accepted

On a device that works, a registration gets an ID from an empty block if the space check lets its entry go
(`accepts_empty`), and from a block with entries if its entry fits a new block and the position is not in the last
bytes (`accepts_filled`). `sameAcceptance_iff`: when two states agree about an operation.
-/

namespace CppDb
open Embed

section
variable {B : ℕ → Type} [StaticDataBuffer B] {A : Type} [StorageAdapter A] [Wheathash] {S : Schema}

namespace DbWAL
variable {w : DbWAL B A} {op : Operation S} {timeElapsedMs : UInt64}

/-- `registerOperation` gets an ID, with which it goes on to wait and which it returns. -/
def Accepts (w : DbWAL B A) (op : Operation S) (timeElapsedMs : UInt64) : Prop :=
  ∃ l, ((registerOperation op timeElapsedMs).run w).1 = .ret l

theorem not_accepts_overflow (h : BlockSize < (EntryBody.operation op).size) : ¬ w.Accepts op timeElapsedMs := by
  rintro ⟨l, hl⟩
  rw [run_registerOperation_overflow h] at hl
  cases hl

theorem accepts_iff (h : w.Bounded) (hsize : (EntryBody.operation op).size ≤ BlockSize) :
    w.Accepts op timeElapsedMs ↔ ∃ w₁, (makeRoom false (EntryBody.operation op).size).run
      { w with lastOpId := w.lastOpId + 1 } = (.ret (), w₁) ∧
        w₁.block.pos + (EntryBody.operation op).size ≤ BlockSize := by
  have hperformed := Request.performed (r := .registerOperation op timeElapsedMs) h hsize
  change (∃ l, ((Request.registerOperation op timeElapsedMs).perform.run w).1 = .ret l) ↔ _
  generalize (Request.registerOperation op timeElapsedMs).perform.run w = x at hperformed ⊢
  cases hperformed with
  | noRoom hroom =>
    refine iff_of_false (fun ⟨l, hl⟩ => by cases hl) ?_
    rintro ⟨w₁, hrun, -⟩
    cases hroom.symm.trans hrun
  | written hroom hfit => exact iff_of_true ⟨_, rfl⟩ ⟨_, hroom, hfit⟩
  | tooLarge hroom hfit =>
    refine iff_of_false (fun ⟨l, hl⟩ => by cases hl) ?_
    rintro ⟨w₁, hrun, hle⟩
    cases hroom.symm.trans hrun
    exact Nat.not_le.2 hfit hle

theorem accepts_empty (h : w.Bounded) (hempty : w.blockItemCount = 0) (hpos : w.block.pos ≤ 2) :
    w.Accepts op timeElapsedMs ↔ w.block.pos + (EntryBody.operation op).size + 33 ≤ BlockSize := by
  by_cases hsize : (EntryBody.operation op).size ≤ BlockSize
  swap
  · exact iff_of_false (not_accepts_overflow (Nat.not_le.1 hsize)) (by omega)
  have h' : Bounded { w with lastOpId := w.lastOpId + 1 } := h
  have hmade := h'.roomMade (Nat.le_trans (Nat.add_le_add_right hpos 6) (by decide)) (EntryBody.operation op).size
  rw [accepts_iff h hsize]
  generalize (makeRoom (B := B) (A := A) false (EntryBody.operation op).size).run _ = x at hmade ⊢
  cases hmade with
  | here hfit =>
    have hfit : w.block.pos + (EntryBody.operation op).size + 33 ≤ BlockSize := hfit
    exact iff_of_true ⟨_, rfl, Nat.le_trans (Nat.le_add_right ..) hfit⟩ hfit
  | flushed hfull h0 => exact absurd hempty h0
  | empty hfull => exact iff_of_false (fun ⟨_, hrun, _⟩ => by cases hrun) (Nat.not_le.2 hfull)
  | failed hfull h0 => exact absurd hempty h0

/-- A block with entries is flushed for an entry that it has no room for, where the position lets the space check see
that. -/
theorem accepts_filled (h : w.Bounded) (hne : w.blockItemCount ≠ 0) (hworks : ¬ AppendFails w.logFile) :
    w.Accepts op timeElapsedMs ↔ w.block.pos + 6 ≤ BlockSize ∧ (EntryBody.operation op).size + 2 ≤ BlockSize := by
  by_cases hsize : (EntryBody.operation op).size ≤ BlockSize
  swap
  · exact iff_of_false (not_accepts_overflow (Nat.not_le.1 hsize)) (by omega)
  have h' : Bounded { w with lastOpId := w.lastOpId + 1 } := h
  rw [accepts_iff h hsize]
  by_cases hpos : w.block.pos + 6 ≤ BlockSize
  · have hmin : MinItemSize ≤ w.block.pos :=
      Nat.le_trans (Nat.le_mul_of_pos_left _ (Nat.pos_of_ne_zero hne)) h.count_le
    rw [MinItemSize] at hmin
    have hmade := h'.roomMade hpos (EntryBody.operation op).size
    generalize (makeRoom (B := B) (A := A) false (EntryBody.operation op).size).run _ = x at hmade ⊢
    cases hmade with
    | here hfit =>
      have hfit : w.block.pos + (EntryBody.operation op).size + 33 ≤ BlockSize := hfit
      exact iff_of_true ⟨_, rfl, Nat.le_trans (Nat.le_add_right ..) hfit⟩ ⟨hpos, by omega⟩
    | @flushed w₁ hfull h0 hflushes hfill =>
      rw [and_iff_right hpos, Nat.add_comm, ← hfill.pos]
      constructor
      · rintro ⟨_, hrun, hle⟩
        cases hrun
        exact hle
      · intro hle
        exact ⟨w₁, rfl, hle⟩
    | empty hfull h0 => exact absurd h0 hne
    | failed hfull h0 hfails =>
      exact absurd (fun body hb => append_of_not_fails hworks (length_blockImage hb.le)) hfails
  · refine iff_of_false ?_ fun hand => hpos hand.1
    rintro ⟨w₁, hrun, hle⟩
    have hend := Nat.not_le.1 hpos
    have hle' : w.block.pos ≤ BlockSize := Nat.le_trans h.pos_le h.size_le
    have hreq := newBlockRequired_of_gt (w := { w with lastOpId := w.lastOpId + 1 }) hend hle' hsize
    have hmin := EntryBody.minItemSize_le (.operation op)
    rw [run_makeRoom, hreq] at hrun
    cases hrun
    have hle : w.block.pos + (EntryBody.operation op).size ≤ BlockSize := hle
    rw [MinItemSize] at hmin
    omega

/-! ### Empty blocks -/

/-- An empty block has its position at the beginning or after the item count. -/
def EmptyAtStart (w : DbWAL B A) : Prop := w.blockItemCount = 0 → w.block.pos ≤ 2

theorem EmptyAtStart.finalize (h : w.Bounded) : EmptyAtStart (finalizeAndflushCurrentBlock.run w).2 := by
  intro hempty
  by_cases h0 : w.blockItemCount = 0
  · have hb : w.block.Shows w.block.size w.block.pos w.block.data := ⟨rfl, rfl, rfl⟩
    rw [run_finalize_empty h0]
    exact Nat.le_trans (Nat.le_of_eq (hb.seek (Nat.zero_le _)).pos) (Nat.zero_le 2)
  · rcases h.finalize_cases h0 with ⟨w', hrun, hfill, -⟩ | ⟨w', hrun, -, hcount, -⟩
    · rw [hrun]
      exact Nat.le_of_eq hfill.pos
    · rw [hrun] at hempty
      exact absurd (hcount.symm.trans hempty) h0

theorem EmptyAtStart.makeRoom (h : w.Bounded) (he : w.EmptyAtStart) (size : ℕ) :
    EmptyAtStart ((DbWAL.makeRoom false size).run w).2 := by
  rw [run_makeRoom]
  split
  · exact EmptyAtStart.finalize h
  · exact he

theorem EmptyAtStart.perform (h : w.Bounded) (he : w.EmptyAtStart) (r : Request S) :
    EmptyAtStart (r.perform.run w).2 := by
  by_cases htakes : r.TakesId w
  swap
  · rw [Request.run_refused htakes]
    exact he
  have hroom' := EmptyAtStart.makeRoom (w := { w with lastOpId := w.lastOpId + 1 }) h he r.body.size
  have hperformed := Request.performed h htakes
  generalize r.perform.run w = x at hperformed ⊢
  cases hperformed with
  | noRoom hroom =>
    rw [hroom] at hroom'
    exact hroom'
  | written hroom hfit hpos hcount => exact fun hempty => absurd (hcount.symm.trans hempty) (Nat.succ_ne_zero _)
  | tooLarge hroom hfit hpos hcount =>
    rw [hroom] at hroom'
    intro hempty
    rw [hpos]
    exact hroom' (hcount.symm.trans hempty)

theorem EmptyAtStart.flushOnTimeout (h : w.Bounded) (he : w.EmptyAtStart) (currentOpId : OpID) :
    EmptyAtStart ((DbWAL.flushOnTimeout currentOpId).run w).2 := by
  rw [DbWAL.flushOnTimeout, Proc.run_read_bind, Proc.run_ite]
  split
  · have hfinalize := EmptyAtStart.finalize h
    obtain ⟨w', -, ⟨hrun, -⟩ | ⟨hrun, -⟩⟩ := h.finalize
    · rw [hrun] at hfinalize
      rw [Proc.run_bind_of_ret (Proc.run_attempt_of_ret hrun)]
      exact hfinalize
    · rw [hrun] at hfinalize
      rw [Proc.run_bind_of_ret (Proc.run_attempt_of_fail hrun)]
      exact hfinalize
  · exact he

theorem EmptyAtStart.closeLogFile (h : w.Bounded) (he : w.EmptyAtStart) :
    EmptyAtStart (DbWAL.closeLogFile.run w).2 := by
  have hclose : ∀ w₁ : DbWAL B A, w₁.EmptyAtStart → EmptyAtStart ((onLogFile StorageIo.close).run w₁).2 := by
    intro w₁ hw₁
    rw [onLogFile, Proc.run_zoom]
    exact hw₁
  rw [run_closeLogFile]
  split
  · exact hclose w he
  · have hfinalize := EmptyAtStart.finalize h
    obtain ⟨w', -, ⟨hrun, -⟩ | ⟨hrun, -⟩⟩ := h.finalize
    · rw [hrun] at hfinalize
      rw [Proc.run_bind_of_ret hrun]
      exact hclose w' hfinalize
    · rw [hrun] at hfinalize
      rw [Proc.run_bind_of_fail hrun]
      exact hfinalize

end DbWAL

namespace System
variable {T : Type} [DecidableEq T] {s : System B A S T}

theorem emptyAtStart_timeout (h : s.wal.Bounded) (he : s.wal.EmptyAtStart) (t : T) :
    (s.timeout t).wal.EmptyAtStart := by
  rw [System.timeout]
  rcases ht : s.threads t with _ | l | l
  · exact he
  · exact he
  have hflush := he.flushOnTimeout h l.currentOpId
  rcases hrun : (DbWAL.flushOnTimeout l.currentOpId).run s.wal with ⟨u | _ | m | _, w⟩
  all_goals
    rw [hrun] at hflush
    simp only [Logged.onWal, hrun]
    exact hflush

theorem emptyAtStart_step (h : s.wal.Bounded) (he : s.wal.EmptyAtStart) (l : Label S T) :
    (s.step l).wal.EmptyAtStart := by
  rcases ha : s.aborted with _ | _
  swap
  · rw [step_of_aborted ha]
    exact he
  cases l with
  | request t r =>
    rcases ht : s.threads t with _ | l | l
    · rw [(step_perform h ha ht r).1]
      exact he.perform h r
    · rw [step_eq_request ha, System.request, ht]
      exact he
    · rw [step_eq_request ha, System.request, ht]
      exact he
  | poll t now =>
    rw [step_eq_poll ha, toLogged_poll]
    exact he
  | timeout t =>
    rw [step_eq_timeout ha]
    exact emptyAtStart_timeout h he t
  | closeLogFile =>
    rw [step_eq_closeLogFile ha]
    exact he.closeLogFile h

theorem reachable (d : A) (filePath : String) (ls : List (Label S T)) :
    (run step (opened d filePath : System B A S T) ls).wal.Bounded ∧
      (run step (opened d filePath : System B A S T) ls).wal.EmptyAtStart := by
  have hopened : (opened d filePath : System B A S T).wal.Bounded := (DbWAL.Bounded.openLogFile (.new d) filePath).1
  have hstart : (opened d filePath : System B A S T).wal.EmptyAtStart := by
    intro _
    rw [opened_wal, (filled_freshBlock _).pos]
  exact Along.invariant (C := fun _ _ => True)
    (P := fun s : System B A S T => s.wal.Bounded ∧ s.wal.EmptyAtStart)
    (fun s l h _ => ⟨bounded_step h.1 l, emptyAtStart_step h.1 h.2 l⟩) ⟨hopened, hstart⟩
    (Along.of_forall (Q := fun _ => True) fun _ _ => trivial)

/-- **Acceptance.** An empty block and one with entries agree about an operation exactly if its entry fits the one
and the other can be flushed for it, or fits neither. -/
theorem sameAcceptance_iff {d d' : A} {filePath filePath' : String} {ls ls' : List (Label S T)}
    {s s' : System B A S T} (hs : s = run step (opened d filePath) ls)
    (hs' : s' = run step (opened d' filePath') ls') (hempty : s.wal.blockItemCount = 0)
    (hne : s'.wal.blockItemCount ≠ 0) (hworks : ¬ AppendFails s'.wal.logFile) (op : Operation S)
    (timeElapsedMs timeElapsedMs' : UInt64) :
    (s.wal.Accepts op timeElapsedMs ↔ s'.wal.Accepts op timeElapsedMs') ↔
      if s'.wal.block.pos + 6 ≤ BlockSize then
        s.wal.block.pos + (EntryBody.operation op).size + 33 ≤ BlockSize ∨
          BlockSize < (EntryBody.operation op).size + 2
      else BlockSize < s.wal.block.pos + (EntryBody.operation op).size + 33 := by
  obtain ⟨hbounded, hstart⟩ := hs ▸ reachable d filePath ls
  obtain ⟨hbounded', -⟩ := hs' ▸ reachable d' filePath' ls'
  rw [DbWAL.accepts_empty hbounded hempty (hstart hempty), DbWAL.accepts_filled hbounded' hne hworks]
  split
  · next hpos =>
    rw [and_iff_right hpos]
    constructor
    · intro hiff
      by_cases hfit : (EntryBody.operation op).size + 2 ≤ BlockSize
      · exact .inl (hiff.2 hfit)
      · exact .inr (Nat.not_le.1 hfit)
    · rintro (hfit | hlarge)
      · exact iff_of_true hfit (by omega)
      · exact iff_of_false (by omega) (Nat.not_le.2 hlarge)
  · next hpos =>
    constructor
    · intro hiff
      exact Nat.not_le.1 fun hfit => hpos (hiff.1 hfit).1
    · intro hlarge
      exact iff_of_false (Nat.not_le.2 hlarge) fun hand => hpos hand.1

end System

end

theorem smallEntry_wal [Wheathash] : ∃ s : System ListBuffer VectorAdapter keySchema Unit,
    s = run System.step (System.opened {} "") oneCall ∧ s.wal.blockItemCount = 1 ∧
      s.wal.block.pos = 2 + smallEntry.bytes.length := by
  obtain ⟨b, hb, hstep⟩ := System.step_smallEntry (B := ListBuffer) ({} : VectorAdapter) "" ()
  refine ⟨_, rfl, ?_⟩
  rw [oneCall, run_cons, run_nil, hstep]
  exact ⟨rfl, hb.pos⟩

open ByteSum in
theorem sameAcceptance_iff_small :
    (System.opened {} "" : System ListBuffer VectorAdapter keySchema Unit).wal.Accepts (deleteKey [98]) 0 ↔
      (run System.step (System.opened {} "" : System ListBuffer VectorAdapter keySchema Unit) oneCall).wal.Accepts
        (deleteKey [98]) 0 := by
  obtain ⟨s, hs, hcount, hpos⟩ := smallEntry_wal
  have hsize : (EntryBody.operation (deleteKey [98])).size = 13 := size_deleteKey (by decide)
  have hopened : (System.opened {} "" : System ListBuffer VectorAdapter keySchema Unit) =
      run System.step (System.opened {} "") [] := rfl
  have hiff := System.sameAcceptance_iff hopened hs rfl (by rw [hcount]; decide) (not_appendFails_vector _)
    (deleteKey [98]) 0 0
  rw [← hs]
  refine hiff.2 ?_
  rw [hpos, length_smallEntry, if_pos (by decide), hsize, System.opened_wal]
  exact .inl (by decide)

/-- A key whose deletion takes an entry of 4080 bytes is accepted only if there is another thread's entry. -/
theorem not_sameAcceptance : ¬ ∃ hash : Wheathash, ∀ (ls ls' : List (Label keySchema Unit))
    (s s' : System ListBuffer VectorAdapter keySchema Unit) (op : Operation keySchema),
    s = run System.step (System.opened {} "") ls → s' = run System.step (System.opened {} "") ls' →
    s.wal.blockItemCount = 0 → s'.wal.blockItemCount ≠ 0 → s.issued < 2 ^ 32 → s'.issued < 2 ^ 32 →
    (s.wal.Accepts op 0 ↔ s'.wal.Accepts op 0) := by
  rintro ⟨hash, h⟩
  obtain ⟨s, hs, hcount, hpos⟩ := smallEntry_wal
  have hlen : (List.replicate 4068 (0 : UInt8)).length = 4068 := List.length_replicate ..
  have hsize : (EntryBody.operation (deleteKey (List.replicate 4068 0))).size = 4080 := by
    rw [size_deleteKey (by rw [hlen]; decide), hlen]
  have hopened : (System.opened {} "" : System ListBuffer VectorAdapter keySchema Unit).wal.block.pos = 2 := by
    rw [System.opened_wal, (filled_freshBlock _).pos]
  have hissued : s.issued < 2 ^ 32 := hs ▸ Nat.lt_of_le_of_lt (System.issued_run_le _ _) (by decide)
  have hgeneral := h [] oneCall _ s (deleteKey (List.replicate 4068 0)) rfl hs rfl (by rw [hcount]; decide)
    (Nat.zero_lt_succ _) hissued
  obtain ⟨hbounded, hstart⟩ := System.reachable (B := ListBuffer) (S := keySchema) (T := Unit)
    ({} : VectorAdapter) "" []
  have hbounded' : s.wal.Bounded := hs ▸ (System.reachable ({} : VectorAdapter) "" oneCall).1
  rw [DbWAL.accepts_empty hbounded rfl (hstart rfl),
    DbWAL.accepts_filled hbounded' (by rw [hcount]; decide) (not_appendFails_vector _), run_nil, hopened, hpos,
    length_smallEntry, hsize] at hgeneral
  exact absurd (hgeneral.2 (by decide)) (by decide)

end CppDb
