import CppDb.Completions
import CppDb.Flusher

/-!
# Every call returns

In an infinite run in which every thread gets its turns (`Fair`), a waiting call returns unless the device fails
(`calls_return`): the first writer of a block flushes it in the end, and with it the entries of all calls that
wait for it. Closing the log flushes it for all of them (`closeLogFile_releases`).
-/

namespace CppDb
open Embed
open Relation (ReflTransGen)

/-- The thread that takes the step. -/
def Label.thread? {S : Schema} {T : Type} : Label S T → Option T
  | .request t _ => some t
  | .poll t _ => some t
  | .timeout t => some t
  | .closeLogFile => none

namespace System

section
variable {B : ℕ → Type} [StaticDataBuffer B] {A : Type} [StorageAdapter A] [Wheathash] {S : Schema}
variable {T : Type} [DecidableEq T] {s : System B A S T} {t : T} {l : Locals}

/-- The call has returned. -/
def Returned (s : System B A S T) (t : T) (l : Locals) : Prop := s.threads t = .idle ∧ l ∈ s.returned

omit [StaticDataBuffer B] [StorageAdapter A] [Wheathash] in
theorem returned_finish (s : System B A S T) (t : T) (l : Locals) : (s.finish t l).Returned t l :=
  ⟨setThread_self .., List.mem_append_right _ (List.mem_singleton_self l)⟩

theorem threads_step_of_ne (s : System B A S T) {label : Label S T} (h : label.thread? ≠ some t) :
    (s.step label).threads t = s.threads t := by
  unfold step
  split
  · rfl
  cases label with
  | request t' r =>
    have hne : t ≠ t' := fun heq => h (congrArg some heq.symm)
    dsimp only
    rw [request]
    rcases s.threads t' with _ | l | l
    · rcases hreq : s.toLogged.request r with ⟨_ | _ | _ | _, logged⟩ <;> simp [setThread, hne]
    · rfl
    · rfl
  | poll t' now =>
    have hne : t ≠ t' := fun heq => h (congrArg some heq.symm)
    dsimp only
    rw [poll]
    rcases s.threads t' with _ | l | l
    · rfl
    · dsimp only
      split
      · split <;> simp [setThread, hne]
      · simp [finish, setThread, hne]
    · rfl
  | timeout t' =>
    have hne : t ≠ t' := fun heq => h (congrArg some heq.symm)
    dsimp only
    rw [timeout]
    rcases s.threads t' with _ | l | l
    · rfl
    · rfl
    · rcases hwal : s.toLogged.onWal (DbWAL.flushOnTimeout l.currentOpId) with ⟨_ | _ | _ | _, logged⟩ <;>
        simp [hwal, finish, setThread, hne]
  | closeLogFile => rfl

theorem step_waiting (ht : s.threads t = .waiting l) (label : Label S T) :
    (s.step label).threads t = .waiting l ∨ (s.step label).threads t = .atMutex l ∧ l.firstWriter = true ∨
      (s.step label).Returned t l := by
  by_cases hthread : label.thread? = some t
  swap; · exact .inl ((threads_step_of_ne s hthread).trans ht)
  rcases ha : s.aborted with _ | _
  swap
  · rw [step_of_aborted ha]
    exact .inl ht
  cases label with
  | request t' r =>
    cases hthread
    rw [step_eq_request ha, request, ht]
    exact .inl ht
  | poll t' now =>
    cases hthread
    rw [step_eq_poll ha, poll, ht]
    dsimp only
    split
    · split
      · next hfirst => exact .inr (.inl ⟨setThread_self .., hfirst.1⟩)
      · exact .inl ht
    · exact .inr (.inr (returned_finish ..))
  | timeout t' =>
    cases hthread
    rw [step_eq_timeout ha, timeout, ht]
    exact .inl ht
  | closeLogFile => cases hthread

theorem step_atMutex (ht : s.threads t = .atMutex l) (label : Label S T) :
    (s.step label).threads t = .atMutex l ∨ (s.step label).Returned t l := by
  by_cases hthread : label.thread? = some t
  swap; · exact .inl ((threads_step_of_ne s hthread).trans ht)
  rcases ha : s.aborted with _ | _
  swap
  · rw [step_of_aborted ha]
    exact .inl ht
  cases label with
  | request t' r =>
    cases hthread
    rw [step_eq_request ha, request, ht]
    exact .inl ht
  | poll t' now =>
    cases hthread
    rw [step_eq_poll ha, poll, ht]
    exact .inl ht
  | timeout t' =>
    cases hthread
    rw [step_eq_timeout ha, timeout, ht]
    dsimp only
    rcases s.toLogged.onWal (DbWAL.flushOnTimeout l.currentOpId) with ⟨_ | _ | _ | _, logged⟩
    · exact .inr (returned_finish ..)
    all_goals exact .inl ht
  | closeLogFile => cases hthread

theorem step_call (hl : (s.threads t).call = some l) (label : Label S T) :
    ((s.step label).threads t).call = some l ∨ (s.step label).Returned t l := by
  rcases ht : s.threads t with _ | l' | l'
  · rw [ht] at hl
    cases hl
  · rw [ht] at hl
    cases hl
    rcases step_waiting ht label with h | ⟨h, -⟩ | h
    · exact .inl (by rw [h]; rfl)
    · exact .inl (by rw [h]; rfl)
    · exact .inr h
  · rw [ht] at hl
    cases hl
    rcases step_atMutex ht label with h | h
    · exact .inl (by rw [h]; rfl)
    · exact .inr h

/-- At the mutex a call flushes the block if need be and returns, or the process ends. -/
theorem step_timeout_cases (h : s.Numbered) (ht : s.threads t = .atMutex l) :
    (s.step (.timeout t)).Returned t l ∨ (s.step (.timeout t)).aborted = true := by
  rcases ha : s.aborted with _ | _
  swap
  · rw [step_of_aborted ha]
    exact .inr ha
  rw [step_eq_timeout ha, timeout, ht]
  dsimp only
  obtain ⟨w, -, ⟨hrun, -⟩ | ⟨⟨m, hrun⟩, -⟩⟩ := h.bounded.flushOnTimeout l.currentOpId
  · rw [Logged.onWal, hrun]
    exact .inl (returned_finish ..)
  · rw [Logged.onWal, hrun]
    exact .inr rfl

/-- The process ends only where the block in progress cannot be flushed. -/
theorem Numbered.flush_fails (h : s.Numbered) (ha : s.aborted = false) {label : Label S T}
    (hstep : (s.step label).aborted = true) :
    s.wal.blockIsEmpty = false ∧ (DbWAL.finalizeAndflushCurrentBlock.run s.wal).1 = .fail := by
  obtain ⟨t, htimeout, hfull, -⟩ := h.aborts ha (e := .step label) hstep
  cases htimeout
  refine ⟨hfull, ?_⟩
  obtain ⟨w, -, ⟨hrun, -⟩ | ⟨hrun, -⟩⟩ := h.bounded.finalize
  swap
  · rw [hrun]
  -- after a flush that goes well the process goes on
  suffices hsame : (s.step (.timeout t)).aborted = s.aborted by
    exact absurd (ha.symm.trans (hsame.symm.trans hstep)) Bool.false_ne_true
  rcases ht : s.threads t with _ | l | l
  · rw [step_eq_timeout ha, timeout, ht]
  · rw [step_eq_timeout ha, timeout, ht]
  · by_cases hlt : s.wal.lastFlushedOpId < l.currentOpId
    · rw [step_timeout ha ht (flushOnTimeout_ret hlt hrun)]
      rfl
    · have hskip : (DbWAL.flushOnTimeout l.currentOpId).run s.wal = (.ret (), s.wal) := by
        rw [DbWAL.flushOnTimeout, Proc.run_read_bind, Proc.run_ite, if_neg hlt]
        rfl
      rw [step_timeout ha ht hskip]
      rfl

theorem step_poll_flushed (ha : s.aborted = false) (ht : s.threads t = .waiting l)
    (hflushed : ¬ s.wal.lastFlushedOpId < l.currentOpId) (now : UInt64) : (s.step (.poll t now)).Returned t l := by
  rw [step_eq_poll ha, poll, ht]
  dsimp only
  rw [if_neg hflushed]
  exact returned_finish ..

/-! ### Closing the log -/

/-- The turns of the calls that wait. -/
def IsTurn : Label S T → Prop
  | .poll .. => True
  | .timeout .. => True
  | _ => False

/-- With this label the call `l` of thread `t` does what is next for it. -/
def TakesTurn (s : System B A S T) (t : T) (l : Locals) : Label S T → Prop
  | .poll t' _ => t' = t ∧ s.threads t = .waiting l
  | .timeout t' => t' = t ∧ s.threads t = .atMutex l
  | _ => False

namespace TakesTurn
variable {label : Label S T}

omit [StaticDataBuffer B] [StorageAdapter A] [Wheathash] [DecidableEq T] in
theorem thread? (h : s.TakesTurn t l label) : label.thread? = some t := by
  cases label with
  | poll t' now => exact congrArg some h.1
  | timeout t' => exact congrArg some h.1
  | _ => exact h.elim

omit [StaticDataBuffer B] [StorageAdapter A] [Wheathash] [DecidableEq T] in
theorem call (h : s.TakesTurn t l label) : (s.threads t).call = some l := by
  cases label with
  | poll t' now => rw [h.2]; rfl
  | timeout t' => rw [h.2]; rfl
  | _ => exact h.elim

omit [StaticDataBuffer B] [StorageAdapter A] [Wheathash] [DecidableEq T] in
theorem congr {s' : System B A S T} (h : s.TakesTurn t l label) (hs' : s'.threads t = s.threads t) :
    s'.TakesTurn t l label := by
  cases label with
  | poll t' now => exact ⟨h.1, hs'.trans h.2⟩
  | timeout t' => exact ⟨h.1, hs'.trans h.2⟩
  | _ => exact h

end TakesTurn

theorem threads_turn {label : Label S T} (ht : s.threads t = .idle) (hturn : IsTurn label) :
    (s.step label).threads t = .idle := by
  by_cases hthread : label.thread? = some t
  swap; · exact (threads_step_of_ne s hthread).trans ht
  rcases ha : s.aborted with _ | _
  swap
  · rw [step_of_aborted ha]
    exact ht
  cases label with
  | request t' r => cases hturn
  | closeLogFile => cases hturn
  | poll t' now =>
    cases hthread
    rw [step_eq_poll ha, poll, ht]
    exact ht
  | timeout t' =>
    cases hthread
    rw [step_eq_timeout ha, timeout, ht]
    exact ht

omit [DecidableEq T] in
theorem callOf_turn (s : System B A S T) {label : Label S T} (hturn : IsTurn label) : s.callOf label = none := by
  cases label with
  | request t r => cases hturn
  | _ => rfl

/-- The log is as `closeLogFile` left it, and nobody waits for a flush. -/
structure Released (w : DbWAL B A) (s : System B A S T) : Prop where
  wal : s.wal = w
  aborted : s.aborted = false
  flushed : ∀ t l, (s.threads t).call = some l → ¬ w.lastFlushedOpId < l.currentOpId

namespace Released
variable {w : DbWAL B A} {label : Label S T} {ls : List (Label S T)}

omit [StaticDataBuffer B] [StorageAdapter A] [Wheathash] in
theorem finish (h : s.Released w) (t : T) (l : Locals) : (s.finish t l).Released w where
  wal := h.wal
  aborted := h.aborted
  flushed t' l' hl' := by
    rcases Thread.call_update hl' with hl' | hl'
    · cases hl'
    · exact h.flushed t' l' hl'

theorem turn (h : s.Released w) (hturn : IsTurn label) :
    s.step label = s ∧ (∀ t l, ¬ s.TakesTurn t l label) ∨ ∃ t l, s.TakesTurn t l label ∧ s.step label = s.finish t l := by
  have hwal := h.wal
  cases label with
  | request t r => cases hturn
  | closeLogFile => cases hturn
  | poll t now =>
    rw [step_eq_poll h.aborted, poll]
    rcases ht : s.threads t with _ | l | l
    · refine .inl ⟨rfl, ?_⟩
      rintro t' l' ⟨rfl, hl'⟩
      cases ht.symm.trans hl'
    · have hflushed := h.flushed t l (by rw [ht]; rfl)
      rw [← hwal] at hflushed
      exact .inr ⟨t, l, ⟨rfl, ht⟩, if_neg hflushed⟩
    · refine .inl ⟨rfl, ?_⟩
      rintro t' l' ⟨rfl, hl'⟩
      cases ht.symm.trans hl'
  | timeout t =>
    rw [step_eq_timeout h.aborted, timeout]
    rcases ht : s.threads t with _ | l | l
    · refine .inl ⟨rfl, ?_⟩
      rintro t' l' ⟨rfl, hl'⟩
      cases ht.symm.trans hl'
    · refine .inl ⟨rfl, ?_⟩
      rintro t' l' ⟨rfl, hl'⟩
      cases ht.symm.trans hl'
    · have hflushed := h.flushed t l (by rw [ht]; rfl)
      rw [← hwal] at hflushed
      have hrun : (DbWAL.flushOnTimeout l.currentOpId).run s.wal = (.ret (), s.wal) := by
        rw [DbWAL.flushOnTimeout, Proc.run_read_bind, Proc.run_ite, if_neg hflushed]
        rfl
      refine .inr ⟨t, l, ⟨rfl, ht⟩, ?_⟩
      dsimp only
      rw [Logged.onWal, hrun]
      rfl

theorem step (h : s.Released w) (hturn : IsTurn label) : (s.step label).Released w := by
  rcases h.turn hturn with ⟨hsame, -⟩ | ⟨t, l, -, hfinish⟩
  · rw [hsame]
    exact h
  · rw [hfinish]
    exact h.finish t l

theorem run (h : s.Released w) (hturns : ∀ label ∈ ls, IsTurn label) : (Embed.run System.step s ls).Released w := by
  induction ls generalizing s with
  | nil => exact h
  | cons label ls ih =>
    rw [List.forall_mem_cons] at hturns
    exact ih (h.step hturns.1) hturns.2

theorem returned_step (h : s.Released w) (hturn : IsTurn label) (hreturned : s.Returned t l) :
    (s.step label).Returned t l := by
  rcases h.turn hturn with ⟨hsame, -⟩ | ⟨t', l', -, hfinish⟩
  · rw [hsame]
    exact hreturned
  · rw [hfinish]
    refine ⟨?_, List.mem_append_left _ hreturned.2⟩
    by_cases ht : t = t'
    · subst ht
      exact setThread_self ..
    · exact (Function.update_of_ne ht ..).trans hreturned.1

theorem returned_run (h : s.Released w) (hturns : ∀ label ∈ ls, IsTurn label) (hreturned : s.Returned t l) :
    (Embed.run System.step s ls).Returned t l := by
  induction ls generalizing s with
  | nil => exact hreturned
  | cons label ls ih =>
    rw [List.forall_mem_cons] at hturns
    exact ih (h.step hturns.1) hturns.2 (h.returned_step hturns.1 hreturned)

theorem returns (h : s.Released w) (hturns : ∀ label ∈ ls, IsTurn label) (htakes : ∃ label ∈ ls, s.TakesTurn t l label) :
    (Embed.run System.step s ls).Returned t l := by
  induction ls generalizing s with
  | nil =>
    obtain ⟨label, hmem, -⟩ := htakes
    exact absurd hmem List.not_mem_nil
  | cons label ls ih =>
    rw [List.forall_mem_cons] at hturns
    have hrest := h.step hturns.1
    rcases h.turn hturns.1 with ⟨hsame, hnobody⟩ | ⟨t', l', htakes', hfinish⟩
    · obtain ⟨label', hmem, htakes⟩ := htakes
      rcases List.mem_cons.1 hmem with rfl | hmem
      · exact absurd htakes (hnobody t l)
      · exact ih hrest hturns.2 ⟨label', hmem, by rwa [hsame]⟩
    · obtain ⟨label', hmem, htakes⟩ := htakes
      by_cases ht : t' = t
      · subst ht
        cases htakes'.call.symm.trans htakes.call
        have hreturned : (s.step label).Returned t' l := by
          rw [hfinish]
          exact returned_finish ..
        exact hrest.returned_run hturns.2 hreturned
      · rcases List.mem_cons.1 hmem with rfl | hmem
        · exact absurd (Option.some_inj.1 (htakes'.thread?.symm.trans htakes.thread?)) ht
        · refine ih hrest hturns.2 ⟨label', hmem, htakes.congr ?_⟩
          rw [hfinish]
          exact Function.update_of_ne (Ne.symm ht) ..

end Released

theorem released_closeLogFile (h : s.Numbered) (ha : s.aborted = false) {w : DbWAL B A}
    (hclose : DbWAL.closeLogFile.run s.wal = (.ret (), w)) :
    w.blockIsEmpty = true ∧ (s.step .closeLogFile).Released w := by
  have hstep := step_closeLogFile ha hclose
  have hnumbered : (s.step .closeLogFile).Numbered := by
    refine h.step _ ?_
    rw [hstep]
    exact h.valid.lastOpId ▸ s.wal.lastOpId.toNat_lt
  have hempty : w.blockIsEmpty = true := by
    rw [DbWAL.run_closeLogFile] at hclose
    split at hclose
    · next h0 =>
      rw [DbWAL.onLogFile, Proc.run_zoom] at hclose
      rw [← (Prod.mk.inj hclose).2]
      exact beq_iff_eq.2 h0
    · obtain ⟨w', -, ⟨hrun, hn⟩ | ⟨hrun, -⟩⟩ := h.bounded.finalize
      · rw [Proc.run_bind_of_ret hrun, DbWAL.onLogFile, Proc.run_zoom] at hclose
        rw [← (Prod.mk.inj hclose).2]
        exact beq_iff_eq.2 (congrArg Numbers.blockItemCount hn)
      · rw [Proc.run_bind_of_fail hrun] at hclose
        cases hclose
  refine ⟨hempty, ?_⟩
  rw [hstep] at hnumbered ⊢
  exact ⟨rfl, ha, hnumbered.has_flusher.nobody hempty⟩

/-- **Closing releases every call.** After a `closeLogFile` that returned `true`, whatever the order in which the
waiting calls take their turns, nobody touches the log again, the process does not end, and every call
returns when it takes its turn. -/
theorem closeLogFile_releases {d : A} {es : List (Event S T)} (hs : s = Embed.run event (.started d) es)
    (hopen : Along event OpensEmpty (.started d : System B A S T) es) (hissued : s.issued < 2 ^ 32)
    (ha : s.aborted = false) {w : DbWAL B A} (hclose : DbWAL.closeLogFile.run s.wal = (.ret (), w))
    {ls : List (Label S T)} (hturns : ∀ label ∈ ls, IsTurn label) {s' : System B A S T}
    (hs' : s' = Embed.run System.step (s.step .closeLogFile) ls) :
    w.blockIsEmpty = true ∧ s'.wal = w ∧ s'.aborted = false ∧
      ∀ t l, (∃ label ∈ ls, s.TakesTurn t l label) → s'.Returned t l := by
  subst hs hs'
  obtain ⟨hempty, hreleased⟩ := released_closeLogFile (numbered_run (numbered_started d) hopen hissued) ha hclose
  have hrun := hreleased.run hturns
  refine ⟨hempty, hrun.wal, hrun.aborted, fun t l ⟨label, hmem, htakes⟩ => hreleased.returns hturns ⟨label, hmem, ?_⟩⟩
  refine htakes.congr ?_
  rw [step_closeLogFile ha hclose]

end

open ByteSum in
theorem closeLogFile_releases_openCall :
    (Embed.run System.step (System.step (Embed.run event (.started {}) openCall) .closeLogFile) [.poll () 0] :
      System ListBuffer VectorAdapter keySchema Unit).Returned () ⟨smallEntry.bytes, 1, true, 0⟩ := by
  obtain ⟨s, hs⟩ : ∃ s : System ListBuffer VectorAdapter keySchema Unit, s = Embed.run event (.started {}) openCall :=
    ⟨_, rfl⟩
  obtain ⟨b, -, hstep⟩ := step_smallEntry (B := ListBuffer) ({} : VectorAdapter) "" ()
  have hs' := hs.trans hstep
  have hissued : s.issued < 2 ^ 32 := by
    rw [hs']
    exact Nat.one_lt_two_pow (by decide)
  have hopen : Along event OpensEmpty (.started {} : System ListBuffer VectorAdapter keySchema Unit) openCall :=
    ⟨rfl, trivial, trivial⟩
  have hclose : DbWAL.closeLogFile.run s.wal = (.ret (), (DbWAL.closeLogFile.run s.wal).2) := by
    have hb := (numbered_run (numbered_started _) hopen (hs ▸ hissued)).bounded
    rw [← hs] at hb
    obtain ⟨w, -, ⟨hrun, -⟩ | ⟨-, -, hempty | hfails⟩⟩ := hb.finalize
    · obtain ⟨d, hd⟩ : ∃ d, StorageAdapter.close w.logFile = (some (), d) := by
        rcases ho : LogDevice.isOpen w.logFile with _ | _
        · exact ⟨_, LogDevice.close_closed ho⟩
        · obtain ⟨d, hd, -⟩ := LogDevice.close_some (d := w.logFile) trivial ho
          exact ⟨d, hd⟩
      have hclose : StorageIo.close.run w.logFile = (.ret (), d) := Proc.run_ofCall_some hd
      rw [DbWAL.run_closeLogFile, if_neg (by rw [hs']; exact Nat.one_ne_zero), Proc.run_bind_of_ret hrun,
        DbWAL.run_onLogFile hclose]
    · rw [hs'] at hempty
      cases hempty
    · exact absurd hfails (not_appendFails_vector _)
  have hreleases := closeLogFile_releases hs hopen hissued (by rw [hs']) hclose
    (show ∀ label ∈ [Label.poll () 0], IsTurn label by simp [IsTurn]) rfl
  rw [← hs]
  refine hreleases.2.2.2 () _ ⟨_, List.mem_singleton_self _, rfl, ?_⟩
  rw [hs']
  rfl

section
variable {B : ℕ → Type} [StaticDataBuffer B] {A : Type} [StorageAdapter A] [Wheathash] {S : Schema}
variable {T : Type} [DecidableEq T] {s : System B A S T} {t : T} {l : Locals}

omit [StorageAdapter A] [Wheathash] in
theorem Move.passes {s' : System B A S T} (hmove : Move s s') (h : s.Numbered) : s.batch.Passes s'.batch := by
  cases hmove with
  | flush aborted hb hroom => exact Batch.passes_of_steps (h.valid.steps hroom _)
  | takeId hbound => exact .refl _
  | setLastBlock hb hn =>
    rw [batch, batch, hn]
    exact .refl _
  | @place t r l w pending ht hb hn hpending hfresh hid hfirst hentry =>
    have hcommitted : w.numbers.lastFlushedOpId = s.wal.numbers.lastFlushedOpId := by rw [hn]; rfl
    refine ⟨Nat.le_of_eq (congrArg UInt32.toNat hcommitted.symm), .inl ?_⟩
    rw [batch, batch, hn, Numbers.batch, Numbers.batch, Numbers.inBlock_place, List.map_append]
    exact List.subset_append_left ..
  | goOn hx => exact ⟨Nat.le_refl _, .inl (List.Subset.refl _)⟩
  | finish hl hflushed => exact ⟨Nat.le_refl _, .inl (List.Subset.refl _)⟩

theorem passes_step (h : s.Numbered) (label : Label S T) (hbound : (s.step label).issued < 2 ^ 32) :
    s.batch.Passes (s.step label).batch :=
  (invariant_moves (P := fun s' => s'.Numbered ∧ s.batch.Passes s'.batch)
    (fun _ _ hmove hs => ⟨hmove.numbered hs.1, hs.2.trans (hmove.passes hs.1)⟩)
    (moves_step h label hbound) ⟨h, .refl _⟩).2

/-! ### Infinite runs -/

/-- Every call that has returned is flushed. -/
def ReturnedFlushed (s : System B A S T) : Prop := ∀ l ∈ s.returned, l.currentOpId.toNat ≤ s.batch.committed

omit [StorageAdapter A] [Wheathash] in
theorem Move.returnedFlushed {s' : System B A S T} (hmove : Move s s') (h : s.Numbered) (hs : s.ReturnedFlushed) :
    s'.ReturnedFlushed := by
  have hle := (hmove.passes h).le
  intro l hl
  cases hmove with
  | @finish t l' hl' hflushed =>
    rcases List.mem_append.1 hl with hl | hl
    · exact hs l hl
    · rw [List.mem_singleton.1 hl]
      exact Nat.le_of_not_lt hflushed
  | _ => exact Nat.le_trans (hs l hl) hle

/-- What a run with fewer than 2^32 IDs keeps. -/
structure Kempt (s : System B A S T) : Prop where
  numbered : s.Numbered
  returned : s.ReturnedFlushed

theorem Kempt.step (h : s.Kempt) (label : Label S T) (hbound : (s.step label).issued < 2 ^ 32) :
    (s.step label).Kempt :=
  invariant_moves (fun _ _ hmove hs => ⟨hmove.numbered hs.numbered, hmove.returnedFlushed hs.numbered hs.returned⟩)
    (moves_step h.numbered label hbound) h

theorem kempt_opened (d : A) (filePath : String) : (opened d filePath : System B A S T).Kempt where
  numbered := (numbered_started d).event (e := .openLogFile filePath) rfl (Nat.two_pow_pos 32)
  returned _ hl := absurd hl List.not_mem_nil

/-- Every thread polls again and again, also after the time of its wait is up, and gets the mutex again and again. -/
structure Fair (r : InfiniteRun (step : System B A S T → Label S T → System B A S T)) : Prop where
  polls (t : T) : Recurs fun n => ∃ now, r.labels n = .poll t now ∧ ∀ l, (r.states n).threads t = .waiting l →
    l.firstWriter = true → now - l.operationStartTimeStamp ≥ timeOut
  timeouts (t : T) : Recurs fun n => r.labels n = .timeout t

section
variable {r : InfiniteRun (step : System B A S T → Label S T → System B A S T)}

/-- The call has returned, or the process has ended. -/
def Over (r : InfiniteRun (step : System B A S T → Label S T → System B A S T)) (t : T) (l : Locals) (n : ℕ) : Prop :=
  (r.states n).Returned t l ∨ (r.states n).aborted = true

theorem kempt_run (hstart : (r.states 0).Kempt) (hissued : ∀ n, (r.states n).issued < 2 ^ 32) (n : ℕ) :
    (r.states n).Kempt :=
  r.invariant (C := fun s label => (System.step s label).issued < 2 ^ 32) (fun _ label hs hbound => hs.step label hbound)
    hstart (fun n => r.step_eq n ▸ hissued (n + 1)) n

theorem passes_run (hkempt : ∀ n, (r.states n).Kempt) (hissued : ∀ n, (r.states n).issued < 2 ^ 32) (n m : ℕ)
    (hle : n ≤ m) : (r.states n).batch.Passes (r.states m).batch := by
  refine r.related (R := fun s s' => s.batch.Passes s'.batch) (fun s => .refl _) (fun _ _ _ h h' => h.trans h')
    (fun n => ?_) hle
  rw [r.step_eq]
  exact passes_step (hkempt n).numbered _ (r.step_eq n ▸ hissued (n + 1))

theorem atMutex_leadsTo (hfair : Fair r) (hkempt : ∀ n, (r.states n).Kempt) (t : T) (l : Locals) :
    LeadsTo (fun n => (r.states n).threads t = .atMutex l) (Over r t l) := by
  refine .of_recurs (hfair.timeouts t) (fun n ht => ?_) (fun n ht hlabel => ?_)
  · rw [r.step_eq, Over, r.step_eq]
    exact (step_atMutex ht _).imp_right .inl
  · rw [Over, r.step_eq, hlabel]
    exact step_timeout_cases (hkempt n).numbered ht

theorem firstWriter_leadsTo (hfair : Fair r) (hkempt : ∀ n, (r.states n).Kempt) (t : T) {l : Locals}
    (hfirst : l.firstWriter = true) : LeadsTo (fun n => ((r.states n).threads t).call = some l) (Over r t l) := by
  have hwaiting : LeadsTo (fun n => (r.states n).threads t = .waiting l)
      fun n => (r.states n).threads t = .atMutex l ∨ Over r t l n := by
    refine .of_recurs (hfair.polls t) (fun n ht => ?_) (fun n ht hpoll => ?_)
    · rw [Over, r.step_eq]
      rcases step_waiting ht (r.labels n) with h | ⟨h, -⟩ | h
      · exact .inl h
      · exact .inr (.inl h)
      · exact .inr (.inr (.inl h))
    · obtain ⟨now, hlabel, htime⟩ := hpoll
      rw [Over, r.step_eq, hlabel]
      rcases ha : (r.states n).aborted with _ | _
      swap
      · rw [step_of_aborted ha]
        exact .inr (.inr ha)
      by_cases hlt : (r.states n).wal.lastFlushedOpId < l.currentOpId
      · rw [step_poll ha ht hlt hfirst (htime l ht hfirst)]
        exact .inl (setThread_self ..)
      · exact .inr (.inl (step_poll_flushed ha ht hlt now))
  have hover := (atMutex_leadsTo hfair hkempt t l).or (LeadsTo.of_imp fun _ (h : Over r t l _) => h)
  intro n hl
  rcases ht : (r.states n).threads t with _ | l' | l'
  · rw [ht] at hl
    cases hl
  · rw [ht] at hl
    cases hl
    exact (hwaiting.trans hover) n ht
  · rw [ht] at hl
    cases hl
    exact hover n (.inl ht)

/-- Every entry that a call waits for is flushed in the end, by the leader of its block. -/
theorem committed_leadsTo (hfair : Fair r) (hkempt : ∀ n, (r.states n).Kempt)
    (hissued : ∀ n, (r.states n).issued < 2 ^ 32) (t : T) (l : Locals) :
    LeadsTo (fun n => ((r.states n).threads t).call = some l)
      fun n => ¬ (r.states n).wal.lastFlushedOpId < l.currentOpId ∨ (r.states n).aborted = true := by
  have hleader : ∀ (t : T) (w : Waiter ℕ), w.leader = true →
      LeadsTo (fun n => (r.states n).batch.waiting t = some w)
        fun n => w.ticket ≤ (r.states n).batch.committed ∨ (r.states n).aborted = true := by
    intro t w hlead n hw
    obtain ⟨l, hl, rfl⟩ := Option.map_eq_some_iff.1 hw
    obtain ⟨m, hm, ⟨-, hreturned⟩ | haborted⟩ := firstWriter_leadsTo hfair hkempt t hlead n hl
    · exact ⟨m, hm, .inl ((hkempt m).returned l hreturned)⟩
    · exact ⟨m, hm, .inr haborted⟩
  intro n hl
  obtain ⟨m, hm, hcommitted⟩ := Batch.committed_of_leader (fun n => (hkempt n).numbered.led)
    (passes_run hkempt hissued) hleader t l.waiter n (congrArg (Option.map Locals.waiter) hl)
  exact ⟨m, hm, hcommitted.imp_left Nat.not_lt.2⟩

theorem call_until (t : T) (l : Locals) {n m : ℕ} (hle : n ≤ m) (hl : ((r.states n).threads t).call = some l) :
    ((r.states m).threads t).call = some l ∨ ∃ k, n ≤ k ∧ Over r t l k := by
  induction m, hle using Nat.le_induction with
  | base => exact .inl hl
  | succ m hm ih =>
    rcases ih with hcall | hover
    · rw [r.step_eq]
      refine (step_call hcall (r.labels m)).imp_right fun h => ⟨m + 1, Nat.le_succ_of_le hm, .inl ?_⟩
      rw [r.step_eq]
      exact h
    · exact .inr hover

theorem flushed_leadsTo (hfair : Fair r) (hkempt : ∀ n, (r.states n).Kempt)
    (hissued : ∀ n, (r.states n).issued < 2 ^ 32) (t : T) (l : Locals) :
    LeadsTo (fun n => ((r.states n).threads t).call = some l ∧ ¬ (r.states n).wal.lastFlushedOpId < l.currentOpId)
      (Over r t l) := by
  have hwaiting : LeadsTo
      (fun n => (r.states n).threads t = .waiting l ∧ ¬ (r.states n).wal.lastFlushedOpId < l.currentOpId)
      fun n => (r.states n).threads t = .atMutex l ∨ Over r t l n := by
    refine .of_recurs (hfair.polls t) (fun n hn => ?_) (fun n hn hpoll => ?_)
    · have hflushed : ¬ (r.states (n + 1)).wal.lastFlushedOpId < l.currentOpId := by
        have hle := (passes_run hkempt hissued n (n + 1) (Nat.le_succ n)).le
        exact Nat.not_lt.2 (Nat.le_trans (Nat.not_lt.1 hn.2) hle)
      rw [Over, r.step_eq] at *
      rcases step_waiting hn.1 (r.labels n) with h | ⟨h, -⟩ | h
      · exact .inl ⟨h, hflushed⟩
      · exact .inr (.inl h)
      · exact .inr (.inr (.inl h))
    · obtain ⟨now, hlabel, -⟩ := hpoll
      rw [Over, r.step_eq, hlabel]
      rcases ha : (r.states n).aborted with _ | _
      · exact .inr (.inl (step_poll_flushed ha hn.1 hn.2 now))
      · rw [step_of_aborted ha]
        exact .inr (.inr ha)
  have hover := (atMutex_leadsTo hfair hkempt t l).or (LeadsTo.of_imp fun _ (h : Over r t l _) => h)
  rintro n ⟨hl, hflushed⟩
  rcases ht : (r.states n).threads t with _ | l' | l'
  · rw [ht] at hl
    cases hl
  · rw [ht] at hl
    cases hl
    exact (hwaiting.trans hover) n ⟨ht, hflushed⟩
  · rw [ht] at hl
    cases hl
    exact hover n (.inl ht)

theorem exists_flush_fails (hkempt : ∀ n, (r.states n).Kempt)
    (hstart : (r.states 0).aborted = false) {n : ℕ} (haborted : (r.states n).aborted = true) :
    ∃ m, (r.states m).wal.blockIsEmpty = false ∧
      (DbWAL.finalizeAndflushCurrentBlock.run (r.states m).wal).1 = .fail := by
  induction n with
  | zero => exact absurd (hstart.symm.trans haborted) Bool.false_ne_true
  | succ n ih =>
    rcases ha : (r.states n).aborted with _ | _
    · rw [r.step_eq] at haborted
      exact ⟨n, (hkempt n).numbered.flush_fails ha haborted⟩
    · exact ih ha

/-- **Every call returns.** In a run for ever in which every thread gets its turns, a call that waits for its entry
to be flushed returns, unless at some point the block in progress cannot be flushed. -/
theorem calls_return {d : A} {filePath : String} (hopened : r.states 0 = opened d filePath) (hfair : Fair r)
    (hissued : ∀ n, (r.states n).issued < 2 ^ 32) (t : T) (l : Locals) :
    LeadsTo (fun n => ((r.states n).threads t).call = some l) (fun n => (r.states n).Returned t l) ∨
      ∃ m, (r.states m).wal.blockIsEmpty = false ∧
        (DbWAL.finalizeAndflushCurrentBlock.run (r.states m).wal).1 = .fail := by
  have hkempt : ∀ n, (r.states n).Kempt := kempt_run (by rw [hopened]; exact kempt_opened d filePath) hissued
  by_cases haborted : ∃ n, (r.states n).aborted = true
  · obtain ⟨n, hn⟩ := haborted
    exact .inr (exists_flush_fails hkempt (by rw [hopened]; rfl) hn)
  · have hover : ∀ n, Over r t l n → (r.states n).Returned t l := fun n h => h.resolve_right fun hn => haborted ⟨n, hn⟩
    refine .inl fun n hl => ?_
    obtain ⟨m, hm, hflushed⟩ := committed_leadsTo hfair hkempt hissued t l n hl
    have hflushed := hflushed.resolve_right fun hn => haborted ⟨m, hn⟩
    rcases call_until t l hm hl with hcall | ⟨k, hk, h⟩
    · obtain ⟨k, hk, h⟩ := flushed_leadsTo hfair hkempt hissued t l m ⟨hcall, hflushed⟩
      exact ⟨k, Nat.le_trans hm hk, hover k h⟩
    · exact ⟨k, hk, hover k h⟩

end

end

/-! ### A call on its own -/

/-- The call that deletes the key. -/
def deletion : Locals := ⟨smallEntry.bytes, 1, true, 0⟩

/-- A key is deleted, and the call is given its turns for ever. -/
def turns : ℕ → Label keySchema Unit
  | 0 => .request () (.registerOperation (deleteKey [97]) 0)
  | n + 1 => if n % 2 = 0 then .poll () 60 else .timeout ()

theorem isTurn_turns (n : ℕ) : IsTurn (turns (n + 1)) := by
  rw [turns]
  split <;> trivial

section
variable [Wheathash]

def deletionRun (d : VectorAdapter) : InfiniteRun (step : System ListBuffer VectorAdapter keySchema Unit → _ → _) :=
  .of step (opened d "") turns

variable (d : VectorAdapter)

theorem waits_deletion : (((deletionRun d).states 1).threads ()).call = some deletion := by
  obtain ⟨b, -, hstep⟩ := step_smallEntry (B := ListBuffer) d "" ()
  rw [(deletionRun d).step_eq 0]
  exact (congrArg (fun s => (s.threads ()).call) hstep).trans rfl

theorem deletion_or (n : ℕ) : (((deletionRun d).states (n + 1)).threads ()).call = some deletion ∨
    ((deletionRun d).states (n + 1)).threads () = .idle := by
  induction n with
  | zero => exact .inl (waits_deletion d)
  | succ n ih =>
    rw [(deletionRun d).step_eq]
    rcases ih with hcall | hidle
    · exact (step_call hcall _).imp_right And.left
    · exact .inr (threads_turn hidle (isTurn_turns n))

theorem issued_deletionRun (n : ℕ) : ((deletionRun d).states n).issued ≤ 1 := by
  cases n with
  | zero => exact Nat.zero_le 1
  | succ n =>
    induction n with
    | zero => exact (deletionRun d).step_eq 0 ▸ (issued_step _ _).2
    | succ n ih =>
      have hledger := callOf_none (callOf_turn ((deletionRun d).states (n + 1)) (isTurn_turns n))
      rw [(deletionRun d).step_eq]
      exact Nat.le_trans (Nat.le_of_eq (congrArg Ledger.issued hledger)) ih

theorem fair_deletionRun : Fair (deletionRun d) where
  polls := fun () n => by
    refine ⟨2 * n + 1, by omega, 60, if_pos (Nat.mul_mod_right 2 n), fun l ht _ => ?_⟩
    rcases deletion_or d (2 * n) with hcall | hidle
    · rw [ht] at hcall
      cases hcall
      decide
    · cases ht.symm.trans hidle
  timeouts := fun () n => ⟨2 * n + 2, by omega, if_neg (by omega)⟩

end

open ByteSum in
theorem calls_return_deletion : ∃ n, ((deletionRun {}).states n).Returned () deletion := by
  have hreturn := calls_return (r := deletionRun {}) rfl (fair_deletionRun {})
    (fun n => Nat.lt_of_le_of_lt (issued_deletionRun {} n) (by decide)) () deletion
  rcases hreturn with hreturn | ⟨m, hfull, hfails⟩
  · obtain ⟨n, -, hn⟩ := hreturn 1 (waits_deletion {})
    exact ⟨n, hn⟩
  · -- a block in memory can always be flushed
    have hkempt := kempt_run (r := deletionRun {}) (kempt_opened _ _)
      (fun n => Nat.lt_of_le_of_lt (issued_deletionRun {} n) (by decide)) m
    obtain ⟨w, -, ⟨hrun, -⟩ | ⟨-, -, hempty | happend⟩⟩ := hkempt.numbered.bounded.finalize
    · rw [hrun] at hfails
      cases hfails
    · rw [DbWAL.blockIsEmpty, hempty] at hfull
      cases hfull
    · exact absurd happend (not_appendFails_vector _)

end System

end CppDb
