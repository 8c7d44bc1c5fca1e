import CppDb.Moves

/-!
# Who flushes the block

A call that finds the block empty is its first writer, and flushes the block when nobody else has done
so in time. It is the leader of a batch, so a block with entries in it has exactly one call that will
flush it (`oneFlusher`), whatever the sizes of the entries, the clock and the device.
-/

namespace CppDb
open Embed

/-- A step, or `openLogFile`. -/
inductive Event (S : Schema) (T : Type) where
  | step (l : Label S T)
  | openLogFile (filePath : String)

namespace System
variable {B : ℕ → Type} [StaticDataBuffer B] {A : Type} [StorageAdapter A] [Wheathash] {S : Schema}
variable {T : Type} [DecidableEq T]

/-- A `DbWAL` that nobody has called. -/
def started (walIoDevice : A) : System B A S T := { wal := .new walIoDevice }

def openLogFile (filePath : String) (s : System B A S T) : System B A S T :=
  { s with toLogged := (s.toLogged.onWal (DbWAL.openLogFile filePath)).2 }

def event (s : System B A S T) : Event S T → System B A S T
  | .step l => s.step l
  | .openLogFile filePath => if s.aborted then s else s.openLogFile filePath

/-- `openLogFile` is called while the block is empty. -/
def OpensEmpty (s : System B A S T) : Event S T → Prop
  | .step _ => True
  | .openLogFile _ => s.wal.blockIsEmpty = true

/-- The call of thread `t` waits, and is the one to flush the block. -/
def Flushes (s : System B A S T) (t : T) (l : Locals) : Prop :=
  (s.threads t).call = some l ∧ l.firstWriter = true ∧ s.wal.lastFlushedOpId < l.currentOpId

/-- A block with entries in it has one call that will flush it, that of its oldest entry; with an empty
block nobody waits for a flush. -/
structure OneFlusher (s : System B A S T) : Prop where
  exists_unique : s.wal.blockIsEmpty = false → ∃! t, ∃ l, s.Flushes t l
  oldest : ∀ t l, s.Flushes t l →
    (∃ e ∈ s.inBlock, e.ticket = l.currentOpId) ∧ ∀ e ∈ s.inBlock, l.currentOpId ≤ e.ticket
  nobody : s.wal.blockIsEmpty = true → ∀ t l, (s.threads t).call = some l →
    ¬ s.wal.lastFlushedOpId < l.currentOpId

variable {s : System B A S T} {es : List (Event S T)}

omit [StaticDataBuffer B] [StorageAdapter A] [Wheathash] in
theorem aborted_poll (s : System B A S T) (t : T) (now : UInt64) : (s.poll t now).aborted = s.aborted := by
  rw [System.poll]
  rcases s.threads t with _ | l | l
  · rfl
  · dsimp only
    split
    · split <;> rfl
    · rfl
  · rfl

namespace Numbered

theorem event (h : s.Numbered) {e : Event S T} (hopen : s.OpensEmpty e)
    (hbound : (s.event e).issued < 2 ^ 32) : (s.event e).Numbered := by
  cases e with
  | step l => exact h.step l hbound
  | openLogFile filePath =>
    rw [System.event]
    split
    · exact h
    obtain ⟨hb, hn⟩ := DbWAL.Bounded.openLogFile s.wal filePath
    have h0 : s.wal.numbers.blockItemCount = 0 := beq_iff_eq.1 hopen
    rw [← h0] at hn
    exact Move.numbered (.flush s.aborted hb (.inl hn)) h

omit [StorageAdapter A] [Wheathash] [DecidableEq T] in
theorem has_flusher (h : s.Numbered) : s.OneFlusher where
  exists_unique hfull := by
    have hcount : s.wal.numbers.blockItemCount ≠ 0 := ne_of_beq_false hfull
    have hne : s.batch.tickets ≠ [] := by
      intro hnil
      exact Numbers.inBlock_ne_nil h.valid.count_le hcount (List.map_eq_nil_iff.1 hnil)
    obtain ⟨t, ⟨w, hw, hleader, hlt⟩, hunique⟩ := h.led.existsUnique_leader hne
    obtain ⟨l, hl, rfl⟩ := Option.map_eq_some_iff.1 hw
    refine ⟨t, ⟨l, hl, hleader, hlt⟩, ?_⟩
    rintro t' ⟨l', hl', hfirst, hlt'⟩
    exact hunique t' ⟨l'.waiter, congrArg (Option.map Locals.waiter) hl', hfirst, hlt'⟩
  oldest t l := by
    rintro ⟨hl, hfirst, hlt⟩
    have hw : s.batch.waiting t = some l.waiter := congrArg (Option.map Locals.waiter) hl
    obtain ⟨hmem, hleast⟩ := h.led.leader_least hw hfirst hlt
    obtain ⟨e, he, hticket⟩ := List.mem_map.1 hmem
    exact ⟨⟨e, he, UInt32.toNat_inj.1 hticket⟩, fun e he => hleast _ (List.mem_map.2 ⟨e, he, rfl⟩)⟩
  nobody hempty t l hl := by
    have h0 : s.wal.numbers.blockItemCount = 0 := beq_iff_eq.1 hempty
    have hnil : s.batch.tickets = [] := by
      rw [batch, Numbers.batch, Numbers.inBlock_zero h0]
      rfl
    have hw : s.batch.waiting t = some l.waiter := congrArg (Option.map Locals.waiter) hl
    exact Nat.not_lt.2 (h.led.committed_of_empty hnil hw)

theorem aborted_request (h : s.Numbered) (ha : s.aborted = false) (t : T) (r : Request S) :
    (s.step (.request t r)).aborted = false := by
  rcases ht : s.threads t with _ | l | l
  · rcases Request.numbers h.bounded r with ⟨-, hrun⟩ | ⟨-, hcall⟩
    · rw [step_request_fail ha ht hrun]
      exact ha
    · generalize hrun : r.perform.run s.wal = x at hcall
      cases hcall with
      | failed =>
        rw [step_request_fail ha ht hrun]
        exact ha
      | placed =>
        rw [step_request ha ht hrun]
        exact ha
  · rw [step_eq_request ha, System.request, ht]
    exact ha
  · rw [step_eq_request ha, System.request, ht]
    exact ha

/-- Only a flush that the device fails ends the process. -/
theorem aborts (h : s.Numbered) (ha : s.aborted = false) {e : Event S T} (hstep : (s.event e).aborted = true) :
    ∃ t, e = .step (.timeout t) ∧ s.wal.blockIsEmpty = false ∧ AppendFails s.wal.logFile := by
  cases e with
  | openLogFile filePath =>
    have hsame : (s.event (.openLogFile filePath)).aborted = s.aborted := by
      rw [System.event, ha]
      exact ha
    rw [hsame, ha] at hstep
    cases hstep
  | step l =>
    change (s.step l).aborted = true at hstep
    cases l with
    | request t r =>
      rw [h.aborted_request ha] at hstep
      cases hstep
    | poll t now =>
      rw [step_eq_poll ha, aborted_poll, ha] at hstep
      cases hstep
    | timeout t =>
      refine ⟨t, rfl, ?_⟩
      rw [step_eq_timeout ha, System.timeout] at hstep
      rcases ht : s.threads t with _ | l | l
      · rw [ht] at hstep
        exact absurd (ha.symm.trans hstep) Bool.false_ne_true
      · rw [ht] at hstep
        exact absurd (ha.symm.trans hstep) Bool.false_ne_true
      rw [ht] at hstep
      obtain ⟨w, hb, ⟨hrun, -⟩ | ⟨-, hlt, -, hwhy⟩⟩ := h.bounded.flushOnTimeout l.currentOpId
      · have hwal : s.toLogged.onWal (DbWAL.flushOnTimeout l.currentOpId) =
            (.ret (), { s.toLogged with wal := w }) := by
          rw [Logged.onWal, hrun]
        dsimp only at hstep
        rw [hwal] at hstep
        exact absurd (ha.symm.trans hstep) Bool.false_ne_true
      -- the call waits for its entry, so the block is not empty
      · have hfull : s.wal.blockIsEmpty = false := by
          rw [← Bool.not_eq_true]
          exact fun hempty => h.has_flusher.nobody hempty t l (by rw [ht]; rfl) hlt
        exact ⟨hfull, hwhy.resolve_left (ne_of_beq_false hfull)⟩
    | closeLogFile =>
      rw [step_eq_closeLogFile ha] at hstep
      exact absurd (ha.symm.trans hstep) Bool.false_ne_true

end Numbered

/-! ### Runs -/

theorem issued_event (s : System B A S T) (e : Event S T) :
    s.issued ≤ (s.event e).issued ∧ (s.event e).issued ≤ s.issued + 1 := by
  cases e with
  | step l => exact issued_step s l
  | openLogFile filePath =>
    rw [event]
    split <;> exact ⟨Nat.le_refl _, Nat.le_succ _⟩

theorem along_issued_event (hissued : (run event s es).issued < 2 ^ 32) :
    Along event (fun s e => (System.event s e).issued < 2 ^ 32) s es :=
  along_of_le_run (m := fun s : System B A S T => s.issued) (fun s e => (issued_event s e).1) hissued

theorem numbered_run (h : s.Numbered) (hopen : Along event OpensEmpty s es)
    (hissued : (run event s es).issued < 2 ^ 32) : (run event s es).Numbered :=
  Along.invariant (P := Numbered) (fun _ _ hs hc => hs.event hc.1 hc.2) h
    (hopen.and (along_issued_event hissued))

theorem aborted_run (h : s.Numbered) (ha : s.aborted = false) (hopen : Along event OpensEmpty s es)
    (hissued : (run event s es).issued < 2 ^ 32) (haborted : (run event s es).aborted = true) :
    ∃ es₁ t es₂, es = es₁ ++ .step (.timeout t) :: es₂ ∧
      (run event s es₁).wal.blockIsEmpty = false ∧ AppendFails (run event s es₁).wal.logFile := by
  induction es generalizing s with
  | nil => exact absurd (ha.symm.trans haborted) Bool.false_ne_true
  | cons e es ih =>
    have hbound := (along_issued_event hissued).1
    rcases hstep : (s.event e).aborted with _ | _
    · obtain ⟨es₁, t, es₂, rfl, hfail⟩ :=
        ih (h.event hopen.1 hbound) hstep hopen.2 hissued haborted
      exact ⟨e :: es₁, t, es₂, rfl, hfail⟩
    · obtain ⟨t, rfl, hfail⟩ := h.aborts ha hstep
      exact ⟨[], t, es, rfl, hfail⟩

omit [StorageAdapter A] [Wheathash] [DecidableEq T] in
theorem numbered_started (d : A) : (started d : System B A S T).Numbered where
  bounded := DbWAL.Bounded.new d
  valid := ⟨Nat.le_refl 0, rfl, Nat.le_refl 0, Nat.le_refl _, fun _ he => absurd he List.not_mem_nil⟩
  led := Batch.led_idle _

end System

section
variable {B : ℕ → Type} [StaticDataBuffer B] {A : Type} [StorageAdapter A] [Wheathash] {S : Schema}
variable {T : Type} [DecidableEq T]

/-- **No stranded entries**: in every run that opens the log only while the block is empty, a block with
entries in it has one call that will flush it and an empty block none that waits for a flush. A call
whose time is up finds entries in the block, and ends the process only when the device fails to store
them. -/
theorem oneFlusher {d : A} {es : List (Event S T)} {s : System B A S T}
    (hs : s = run System.event (.started d) es)
    (hopen : Along System.event System.OpensEmpty (.started d : System B A S T) es)
    (hissued : s.issued < 2 ^ 32) :
    s.OneFlusher ∧
      (∀ t l, s.threads t = .atMutex l → s.wal.lastFlushedOpId < l.currentOpId → s.wal.blockIsEmpty = false) ∧
      (s.aborted = true → ∃ es₁ t es₂, es = es₁ ++ .step (.timeout t) :: es₂ ∧
        (run System.event (.started d : System B A S T) es₁).wal.blockIsEmpty = false ∧
        AppendFails (run System.event (.started d : System B A S T) es₁).wal.logFile) := by
  subst hs
  have hnumbered := System.numbered_started (B := B) (S := S) (T := T) d
  have hone := (System.numbered_run hnumbered hopen hissued).has_flusher
  refine ⟨hone, fun t l ht hlt => ?_, System.aborted_run hnumbered rfl hopen hissued⟩
  rw [← Bool.not_eq_true]
  exact fun hempty => hone.nobody hempty t l (by rw [ht]; rfl) hlt

end

/-- The log is opened and a key is deleted. -/
def openCall : List (Event keySchema Unit) :=
  [.openLogFile "", .step (.request () (.registerOperation (deleteKey [97]) 0))]

open ByteSum in
theorem oneFlusher_openCall : (run System.event (.started {}) openCall :
    System ListBuffer VectorAdapter keySchema Unit).OneFlusher := by
  have hissued : (run System.event (.started {}) openCall :
      System ListBuffer VectorAdapter keySchema Unit).issued < 2 ^ 32 :=
    Nat.lt_of_le_of_lt (run_le_length (m := fun s : System ListBuffer VectorAdapter keySchema Unit => s.issued)
      (fun s e => (System.issued_event s e).2) _ _) (by decide)
  have hopen : Along System.event System.OpensEmpty
      (.started {} : System ListBuffer VectorAdapter keySchema Unit) openCall := ⟨rfl, trivial, trivial⟩
  exact (oneFlusher rfl hopen hissued).1

end CppDb
