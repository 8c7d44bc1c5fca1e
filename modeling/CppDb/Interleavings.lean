import CppDb.CheckedMutex
import CppDb.WalThreads

/-!
# Critical sections are atomic

`System` takes each critical section as one step. Here the threads go through `checked_mutex` step by step, and
`_lastFlushedOpId` is what it is in the program: an atomic that the loop of `waitForFlushAndHandleTimeout` reads without
the mutex, also while a section that has stored it is still at work. Every such interleaving is a run of
`System` (`sections_atomic`): a section counts as made when it stores `_lastFlushedOpId`.
-/

namespace CppDb
open Embed

/-- A critical section of thread `t`. -/
def Label.By {S : Schema} {T : Type} (t : T) : Label S T → Prop
  | request u _ => u = t
  | poll _ _ => False
  | timeout u => u = t
  | closeLogFile => True

instance {S : Schema} {T : Type} [DecidableEq T] (t : T) (l : Label S T) : Decidable (l.By t) := by
  cases l <;> unfold Label.By <;> infer_instance

namespace System
variable {B : ℕ → Type} [StaticDataBuffer B] {A : Type} [StorageAdapter A] [Wheathash] {S : Schema}
variable {T : Type} [DecidableEq T]

/-- A turn of the loop that reads this `_lastFlushedOpId`. -/
def turn (lastFlushedOpId : OpID) (t : T) (timeElapsedMs : UInt64) (s : System B A S T) : System B A S T :=
  match s.threads t with
  | .waiting l =>
    if lastFlushedOpId < l.currentOpId then
      let elapsed := timeElapsedMs - l.operationStartTimeStamp
      if l.firstWriter ∧ elapsed ≥ timeOut then s.setThread t (.atMutex l) else s
    else s.finish t l
  | _ => s

omit [StaticDataBuffer B] [StorageAdapter A] [Wheathash] in
theorem poll_eq_turn (t : T) (timeElapsedMs : UInt64) (s : System B A S T) :
    s.poll t timeElapsedMs = s.turn s.wal.lastFlushedOpId t timeElapsedMs := rfl

omit [StaticDataBuffer B] [StorageAdapter A] [Wheathash] in
theorem turn_effect (lastFlushedOpId : OpID) (t : T) (timeElapsedMs : UInt64) (x : Thread) : ∃ y new,
    ∀ s : System B A S T, s.threads t = x → s.turn lastFlushedOpId t timeElapsedMs =
      { s with threads := Function.update s.threads t y, returned := s.returned ++ new } := by
  have hsame : ∀ s : System B A S T, s.threads t = x →
      s = { s with threads := Function.update s.threads t x, returned := s.returned ++ [] } := by
    rintro s rfl
    rw [Function.update_eq_self, List.append_nil]
  rcases x with _ | l | l
  · exact ⟨.idle, [], fun s hs => by rw [turn, hs]; exact hsame s hs⟩
  · by_cases hlt : lastFlushedOpId < l.currentOpId
    · by_cases htime : l.firstWriter ∧ timeElapsedMs - l.operationStartTimeStamp ≥ timeOut
      · exact ⟨.atMutex l, [], fun s hs => by simp [turn, hs, hlt, htime, setThread]⟩
      · refine ⟨.waiting l, [], fun s hs => ?_⟩
        rw [turn, hs]
        dsimp only
        rw [if_pos hlt, if_neg htime]
        exact hsame s hs
    · exact ⟨.idle, [l], fun s hs => by simp [turn, hs, hlt, finish, setThread]⟩
  · exact ⟨.atMutex l, [], fun s hs => by rw [turn, hs]; exact hsame s hs⟩

omit [StaticDataBuffer B] [StorageAdapter A] [Wheathash] in
theorem turn_keeps (lastFlushedOpId : OpID) (t : T) (timeElapsedMs : UInt64) (s : System B A S T) :
    (s.turn lastFlushedOpId t timeElapsedMs).toLogged = s.toLogged ∧
      (s.turn lastFlushedOpId t timeElapsedMs).aborted = s.aborted := by
  obtain ⟨y, new, hturn⟩ := turn_effect (B := B) (A := A) (S := S) lastFlushedOpId t timeElapsedMs (s.threads t)
  rw [hturn s rfl]
  exact ⟨rfl, rfl⟩

/-- Alike for a critical section of thread `t`. -/
structure Agrees (t : T) (s s₀ : System B A S T) : Prop where
  logged : s.toLogged = s₀.toLogged
  thread : s.threads t = s₀.threads t
  aborted : s.aborted = s₀.aborted

/-- What `f` makes of a state depends on what a critical section of `t` works with: the log, the thread, and whether the
process goes on. It changes these, and the list of the calls that have returned. -/
def Works (t : T) (s₀ : System B A S T) (f : System B A S T → System B A S T) : Prop :=
  ∃ logged y new aborted, ∀ s, Agrees t s s₀ →
    f s = { toLogged := logged, threads := Function.update s.threads t y, returned := s.returned ++ new,
            aborted := aborted }

omit [StaticDataBuffer B] [StorageAdapter A] [Wheathash] in
theorem works_of_unchanged {t : T} {s₀ : System B A S T} {f : System B A S T → System B A S T}
    (h : ∀ s, Agrees t s s₀ → f s = s) : Works t s₀ f := by
  refine ⟨s₀.toLogged, s₀.threads t, [], s₀.aborted, fun s hs => ?_⟩
  rw [h s hs, ← hs.thread, Function.update_eq_self, List.append_nil, ← hs.logged, ← hs.aborted]

theorem works_request (t : T) (r : Request S) (s₀ : System B A S T) : Works t s₀ (request t r) := by
  rcases ht : s₀.threads t with _ | l | l
  · rcases hreq : s₀.toLogged.request r with ⟨l | _ | m | _, logged⟩
    · refine ⟨logged, .waiting l, [], s₀.aborted, fun s hs => ?_⟩
      rw [request, hs.thread, ht]
      simp only [hs.logged, hreq, setThread, hs.aborted, List.append_nil]
    · refine ⟨logged, .idle, [], s₀.aborted, fun s hs => ?_⟩
      rw [request, hs.thread, ht]
      simp only [hs.logged, hreq, hs.aborted, List.append_nil, ← hs.thread.trans ht, Function.update_eq_self]
    · refine ⟨logged, .idle, [], true, fun s hs => ?_⟩
      rw [request, hs.thread, ht]
      simp only [hs.logged, hreq, List.append_nil, ← hs.thread.trans ht, Function.update_eq_self]
    · refine ⟨logged, .idle, [], s₀.aborted, fun s hs => ?_⟩
      rw [request, hs.thread, ht]
      simp only [hs.logged, hreq, hs.aborted, List.append_nil, ← hs.thread.trans ht, Function.update_eq_self]
  all_goals exact works_of_unchanged fun s hs => by rw [request, hs.thread, ht]

theorem works_timeout (t : T) (s₀ : System B A S T) : Works t s₀ (timeout t) := by
  rcases ht : s₀.threads t with _ | l | l
  · exact works_of_unchanged fun s hs => by rw [timeout, hs.thread, ht]
  · exact works_of_unchanged fun s hs => by rw [timeout, hs.thread, ht]
  · rcases hflush : s₀.toLogged.onWal (DbWAL.flushOnTimeout l.currentOpId) with ⟨x, logged⟩
    by_cases hx : ∃ u, x = .ret u
    · obtain ⟨u, rfl⟩ := hx
      refine ⟨logged, .idle, [l], s₀.aborted, fun s hs => ?_⟩
      rw [timeout, hs.thread, ht]
      simp only [hs.logged, hflush, finish, setThread, hs.aborted]
    · refine ⟨logged, .atMutex l, [], true, fun s hs => ?_⟩
      rw [timeout, hs.thread, ht]
      rcases x with u | _ | m | _
      · exact absurd ⟨u, rfl⟩ hx
      all_goals simp only [hs.logged, hflush, List.append_nil, ← hs.thread.trans ht, Function.update_eq_self]

theorem works_section {t : T} {label : Label S T} (h : label.By t) (s₀ : System B A S T) :
    Works t s₀ fun s => s.step label := by
  rcases ha : s₀.aborted with _ | _
  · cases label with
    | request u r =>
      obtain rfl : u = t := h
      obtain ⟨logged, y, new, aborted, hworks⟩ := works_request u r s₀
      exact ⟨logged, y, new, aborted, fun s hs => (step_eq_request (hs.aborted.trans ha)).trans (hworks s hs)⟩
    | poll u timeElapsedMs => exact h.elim
    | timeout u =>
      obtain rfl : u = t := h
      obtain ⟨logged, y, new, aborted, hworks⟩ := works_timeout u s₀
      exact ⟨logged, y, new, aborted, fun s hs => (step_eq_timeout (hs.aborted.trans ha)).trans (hworks s hs)⟩
    | closeLogFile =>
      refine ⟨(s₀.toLogged.onWal DbWAL.closeLogFile).2, s₀.threads t, [], s₀.aborted, fun s hs => ?_⟩
      change s.step .closeLogFile = _
      rw [step_eq_closeLogFile (hs.aborted.trans ha), closeLogFile]
      simp only [hs.logged, hs.aborted, List.append_nil, ← hs.thread, Function.update_eq_self]
  · exact works_of_unchanged fun s hs => step_of_aborted (hs.aborted.trans ha) label

/-- The same, but for the order of the calls that have returned. -/
structure Alike (s s' : System B A S T) : Prop where
  logged : s.toLogged = s'.toLogged
  threads : s.threads = s'.threads
  aborted : s.aborted = s'.aborted
  returned : s.returned.Perm s'.returned

namespace Alike
variable {s s' s'' : System B A S T}

omit [StaticDataBuffer B] [StorageAdapter A] [Wheathash] [DecidableEq T] in
theorem refl (s : System B A S T) : Alike s s := ⟨rfl, rfl, rfl, List.Perm.refl _⟩

omit [StaticDataBuffer B] [StorageAdapter A] [Wheathash] [DecidableEq T] in
theorem trans (h : Alike s s') (h' : Alike s' s'') : Alike s s'' :=
  ⟨h.logged.trans h'.logged, h.threads.trans h'.threads, h.aborted.trans h'.aborted, h.returned.trans h'.returned⟩

omit [StaticDataBuffer B] [StorageAdapter A] [Wheathash] in
theorem turn (h : Alike s s') (lastFlushedOpId : OpID) (t : T) (timeElapsedMs : UInt64) :
    Alike (s.turn lastFlushedOpId t timeElapsedMs) (s'.turn lastFlushedOpId t timeElapsedMs) := by
  obtain ⟨y, new, hturn⟩ := turn_effect (B := B) (A := A) (S := S) lastFlushedOpId t timeElapsedMs (s'.threads t)
  rw [hturn s (by rw [h.threads]), hturn s' rfl]
  exact ⟨h.logged, by rw [h.threads], h.aborted, h.returned.append_right new⟩

theorem step (h : Alike s s') {t : T} {label : Label S T} (hby : label.By t) :
    Alike (s.step label) (s'.step label) := by
  obtain ⟨logged, y, new, aborted, hworks⟩ := works_section hby s'
  have hs := hworks s ⟨h.logged, by rw [h.threads], h.aborted⟩
  have hs' := hworks s' ⟨rfl, rfl, rfl⟩
  dsimp only at hs hs'
  rw [hs, hs']
  exact ⟨rfl, by rw [h.threads], rfl, h.returned.append_right new⟩

/-- A turn of another thread while the section is at work. -/
theorem comm {t u : T} {label : Label S T} (hby : label.By t) (hu : u ≠ t) (s : System B A S T)
    (lastFlushedOpId : OpID) (timeElapsedMs : UInt64) :
    Alike ((s.turn lastFlushedOpId u timeElapsedMs).step label) ((s.step label).turn lastFlushedOpId u timeElapsedMs) := by
  obtain ⟨logged, y, new, aborted, hworks⟩ := works_section hby s
  obtain ⟨z, new', hturn⟩ := turn_effect (B := B) (A := A) (S := S) lastFlushedOpId u timeElapsedMs (s.threads u)
  have hs := hworks s ⟨rfl, rfl, rfl⟩
  have hs' := hworks { s with threads := Function.update s.threads u z, returned := s.returned ++ new' }
    ⟨rfl, Function.update_of_ne hu.symm .., rfl⟩
  dsimp only at hs hs'
  rw [hturn s rfl, hs', hs, hturn _ (Function.update_of_ne hu ..)]
  refine ⟨rfl, Function.update_comm hu .., rfl, ?_⟩
  dsimp only
  rw [List.append_assoc, List.append_assoc]
  exact List.perm_append_comm.append_left s.returned

end Alike

end System

/-! ### The steps of the threads -/

/-- How far the critical section has come of the thread that has the mutex: it has not stored `_lastFlushedOpId`,
or it has and is still at work. -/
inductive Critical (S : Schema) (T : Type) where
  | none
  | ahead (label : Label S T)
  | stored (label : Label S T)

structure Interleaved (B : ℕ → Type) (A : Type) (S : Schema) (T : Type) where
  /-- What the mutex guards, as the last section has left it, and where the threads are outside the sections. -/
  system : System B A S T
  mtxBlock : Locking T := {}
  lastFlushedOpId : OpID
  critical : Critical S T := .none

inductive FineLabel (S : Schema) (T : Type) where
  /-- `std::mutex::lock()` returns, for this critical section. -/
  | lock (t : T) (label : Label S T)
  | storeHolder (t : T)
  /-- The section comes to its store of `_lastFlushedOpId`, or to where it ends the process. -/
  | store (t : T)
  /-- The rest of the section. -/
  | complete (t : T)
  | clearHolder (t : T)
  | unlock (t : T)
  /-- A turn of the loop in `waitForFlushAndHandleTimeout`. -/
  | poll (t : T) (timeElapsedMs : UInt64)

namespace Interleaved
variable {B : ℕ → Type} [StaticDataBuffer B] {A : Type} [StorageAdapter A] [Wheathash] {S : Schema}
variable {T : Type} [DecidableEq T]

def start (d : A) (filePath : String) : Interleaved B A S T where
  system := .opened d filePath
  lastFlushedOpId := (System.opened d filePath : System B A S T).wal.lastFlushedOpId

/-- A step that the thread is not at is not made. -/
def step (x : Interleaved B A S T) (l : FineLabel S T) : Interleaved B A S T :=
  if x.system.aborted then x
  else match l with
    | .lock t label =>
      if x.mtxBlock.place t = .outside ∧ x.mtxBlock.owner = none ∧ label.By t then
        { x with mtxBlock := x.mtxBlock.step (.lock t), critical := .ahead label }
      else x
    | .storeHolder t => { x with mtxBlock := x.mtxBlock.step (.storeHolder t) }
    | .store t =>
      match x.critical with
      | .ahead label =>
        if x.mtxBlock.place t = .holding then
          let done := x.system.step label
          if done.aborted then { x with system := done, lastFlushedOpId := done.wal.lastFlushedOpId, critical := .none }
          else { x with lastFlushedOpId := done.wal.lastFlushedOpId, critical := .stored label }
        else x
      | _ => x
    | .complete t =>
      match x.critical with
      | .stored label =>
        if x.mtxBlock.place t = .holding then { x with system := x.system.step label, critical := .none } else x
      | _ => x
    | .clearHolder t =>
      match x.critical with
      | .none => { x with mtxBlock := x.mtxBlock.step (.clearHolder t) }
      | _ => x
    | .unlock t => { x with mtxBlock := x.mtxBlock.step (.unlock t) }
    | .poll t timeElapsedMs =>
      if x.mtxBlock.place t = .outside then
        { x with system := x.system.turn x.lastFlushedOpId t timeElapsedMs }
      else x

/-- What the state comes to when the section that has stored `_lastFlushedOpId` is through. -/
def completed (x : Interleaved B A S T) : System B A S T :=
  match x.critical with
  | .stored label => x.system.step label
  | _ => x.system

/-- The section is one of a thread in it. -/
def Runs (x : Interleaved B A S T) (label : Label S T) : Prop :=
  ∃ t, (x.mtxBlock.place t = .locking ∨ x.mtxBlock.place t = .holding) ∧ label.By t

/-- The threads with their steps stand for the state `s` of `System`. -/
structure StandsFor (x : Interleaved B A S T) (s : System B A S T) : Prop where
  guarded : x.mtxBlock.Guarded
  ahead : ∀ label, x.critical = .ahead label → x.Runs label
  stored : ∀ label, x.critical = .stored label → x.Runs label ∧ x.completed.aborted = false
  alike : x.completed.Alike s
  lastFlushedOpId : x.lastFlushedOpId = x.completed.wal.lastFlushedOpId

theorem standsFor_start (d : A) (filePath : String) :
    (start d filePath : Interleaved B A S T).StandsFor (.opened d filePath) where
  guarded := Locking.guarded_new
  ahead _ h := nomatch h
  stored _ h := nomatch h
  alike := System.Alike.refl _
  lastFlushedOpId := rfl

section
variable {x : Interleaved B A S T} {s : System B A S T}

omit [StaticDataBuffer B] [StorageAdapter A] [Wheathash] [DecidableEq T] in
theorem Runs.not_free {label : Label S T} (h : x.Runs label) (hguarded : x.mtxBlock.Guarded) :
    x.mtxBlock.owner ≠ none := by
  obtain ⟨t, ht, -⟩ := h
  have howner := (hguarded.owner t).2 (by rcases ht with ht | ht <;> simp [ht])
  rw [howner]
  exact Option.some_ne_none t

omit [StaticDataBuffer B] [StorageAdapter A] [Wheathash] [DecidableEq T] in
theorem Runs.by {label : Label S T} (h : x.Runs label) (hguarded : x.mtxBlock.Guarded) {t : T}
    (ht : x.mtxBlock.place t ≠ .outside) :
    (x.mtxBlock.place t = .locking ∨ x.mtxBlock.place t = .holding) ∧ label.By t := by
  obtain ⟨u, hu, hby⟩ := h
  obtain rfl : u = t := hguarded.unique (by rcases hu with hu | hu <;> simp [hu]) ht
  exact ⟨hu, hby⟩

theorem StandsFor.critical_of_free (h : x.StandsFor s) (hfree : x.mtxBlock.owner = none) : x.critical = .none := by
  rcases hc : x.critical with _ | label | label
  · rfl
  · exact absurd hfree ((h.ahead label hc).not_free h.guarded)
  · exact absurd hfree ((h.stored label hc).1.not_free h.guarded)

theorem StandsFor.lock (h : x.StandsFor s) {t : T} {label : Label S T} (hplace : x.mtxBlock.place t = .outside)
    (hfree : x.mtxBlock.owner = none) (hby : label.By t) :
    StandsFor { x with mtxBlock := x.mtxBlock.step (.lock t), critical := .ahead label } s := by
  have hnone := h.critical_of_free hfree
  have hcompleted : x.completed = x.system := by rw [completed, hnone]
  have hlocked : (x.mtxBlock.step (.lock t)).place t = .locking := by
    simp [Locking.step, hplace, hfree, Locking.moveTo]
  refine ⟨h.guarded.step (.lock t), fun label' h' => ?_, fun _ h' => ?_, ?_, ?_⟩
  · cases h'
    exact ⟨t, .inl hlocked, hby⟩
  · cases h'
  · have halike := h.alike
    rwa [hcompleted] at halike
  · have hflushed := h.lastFlushedOpId
    rwa [hcompleted] at hflushed

theorem StandsFor.mutexStep (h : x.StandsFor s) {l : LockStep T}
    (hkeeps : ∀ label, x.critical ≠ .none → x.Runs label → Runs { x with mtxBlock := x.mtxBlock.step l } label) :
    StandsFor { x with mtxBlock := x.mtxBlock.step l } s where
  guarded := h.guarded.step l
  ahead label hc := hkeeps label (by simp [show x.critical = _ from hc]) (h.ahead label hc)
  stored label hc := ⟨hkeeps label (by simp [show x.critical = _ from hc]) (h.stored label hc).1, (h.stored label hc).2⟩
  alike := h.alike
  lastFlushedOpId := h.lastFlushedOpId

theorem StandsFor.storeHolder (h : x.StandsFor s) (t : T) :
    StandsFor { x with mtxBlock := x.mtxBlock.step (.storeHolder t) } s := by
  refine h.mutexStep fun label _ hruns => ?_
  by_cases ht : x.mtxBlock.place t = .locking
  · obtain ⟨-, hby⟩ := hruns.by h.guarded (t := t) (by simp [ht])
    exact ⟨t, .inr (by simp [Locking.step, ht, Locking.moveTo]), hby⟩
  · rwa [Locking.step, if_neg ht]

theorem StandsFor.unlock (h : x.StandsFor s) (t : T) :
    StandsFor { x with mtxBlock := x.mtxBlock.step (.unlock t) } s := by
  refine h.mutexStep fun label _ hruns => ?_
  by_cases ht : x.mtxBlock.place t = .unlocking
  · obtain ⟨hin, -⟩ := hruns.by h.guarded (t := t) (by simp [ht])
    simp [ht] at hin
  · rwa [Locking.step, if_neg ht]

/-- The section is made when it stores `_lastFlushedOpId`. -/
theorem StandsFor.store (h : x.StandsFor s) (ha : x.system.aborted = false) (t : T) :
    ∃ ls, StandsFor (x.step (.store t)) (run System.step s ls) := by
  rw [step, if_neg (by simp [ha])]
  dsimp only
  split
  · next label hc =>
    split
    · next ht =>
      have hruns := h.ahead label hc
      obtain ⟨-, hby⟩ := hruns.by h.guarded (t := t) (by simp [ht])
      have hcompleted : x.completed = x.system := by rw [completed, hc]
      have halike : x.system.Alike s := hcompleted ▸ h.alike
      have hmade := halike.step hby
      refine ⟨[label], ?_⟩
      rw [run_cons, run_nil]
      split
      · exact ⟨h.guarded, fun _ h' => (nomatch h'), fun _ h' => (nomatch h'), hmade, rfl⟩
      · next haborted =>
        refine ⟨h.guarded, fun _ h' => (nomatch h'), fun label' h' => ?_, hmade, rfl⟩
        cases h'
        exact ⟨hruns, Bool.eq_false_iff.2 haborted⟩
    · exact ⟨[], h⟩
  · exact ⟨[], h⟩

theorem StandsFor.complete (h : x.StandsFor s) (ha : x.system.aborted = false) (t : T) :
    StandsFor (x.step (.complete t)) s := by
  rw [step, if_neg (by simp [ha])]
  split
  · next label hc =>
    split
    · have hcompleted : x.completed = x.system.step label := by rw [completed, hc]
      have halike := h.alike
      have hflushed := h.lastFlushedOpId
      rw [hcompleted] at halike hflushed
      exact ⟨h.guarded, fun _ h' => (nomatch h'), fun _ h' => (nomatch h'), halike, hflushed⟩
    · exact h
  · exact h

/-- A thread outside sees the `_lastFlushedOpId` that the section has stored. -/
theorem StandsFor.poll (h : x.StandsFor s) (ha : x.system.aborted = false) {t : T}
    (hplace : x.mtxBlock.place t = .outside) (timeElapsedMs : UInt64) :
    StandsFor { x with system := x.system.turn x.lastFlushedOpId t timeElapsedMs } (s.step (.poll t timeElapsedMs)) := by
  have hgoes : s.aborted = false := by
    rw [← h.alike.aborted]
    rcases hc : x.critical with _ | label | label
    · rwa [completed, hc]
    · rwa [completed, hc]
    · exact (h.stored label hc).2
  have hpoll : s.step (.poll t timeElapsedMs) = s.turn x.lastFlushedOpId t timeElapsedMs := by
    rw [System.step_eq_poll hgoes, System.poll_eq_turn, h.lastFlushedOpId, h.alike.logged]
  have hmade : completed { x with system := x.system.turn x.lastFlushedOpId t timeElapsedMs } |>.Alike
      (x.completed.turn x.lastFlushedOpId t timeElapsedMs) := by
    rcases hc : x.critical with _ | label | label
    · rw [completed, completed, hc]
      exact System.Alike.refl _
    · rw [completed, completed, hc]
      exact System.Alike.refl _
    · obtain ⟨u, hu, hby⟩ := (h.stored label hc).1
      have hne : t ≠ u := by
        rintro rfl
        simp [hplace] at hu
      rw [completed, completed, hc]
      exact System.Alike.comm hby hne x.system x.lastFlushedOpId timeElapsedMs
  obtain ⟨hlogged, haborted⟩ := System.turn_keeps x.lastFlushedOpId t timeElapsedMs x.completed
  rw [hpoll]
  refine ⟨h.guarded, h.ahead, fun label hc => ⟨(h.stored label hc).1, ?_⟩,
    hmade.trans (h.alike.turn x.lastFlushedOpId t timeElapsedMs), ?_⟩
  · rw [hmade.aborted, haborted]
    exact (h.stored label hc).2
  · rw [hmade.logged, hlogged]
    exact h.lastFlushedOpId

theorem StandsFor.step (h : x.StandsFor s) (l : FineLabel S T) :
    ∃ ls, StandsFor (x.step l) (run System.step s ls) := by
  rcases ha : x.system.aborted with _ | _
  · cases l with
    | lock t label =>
      rw [Interleaved.step, if_neg (by simp [ha])]
      split
      · next hlock => exact ⟨[], h.lock hlock.1 hlock.2.1 hlock.2.2⟩
      · exact ⟨[], h⟩
    | storeHolder t =>
      rw [Interleaved.step, if_neg (by simp [ha])]
      exact ⟨[], h.storeHolder t⟩
    | store t => exact h.store ha t
    | complete t => exact ⟨[], h.complete ha t⟩
    | clearHolder t =>
      rw [Interleaved.step, if_neg (by simp [ha])]
      split
      · next hc => exact ⟨[], h.mutexStep fun _ hne => absurd hc hne⟩
      · exact ⟨[], h⟩
    | unlock t =>
      rw [Interleaved.step, if_neg (by simp [ha])]
      exact ⟨[], h.unlock t⟩
    | poll t timeElapsedMs =>
      rw [Interleaved.step, if_neg (by simp [ha])]
      split
      · next hplace => exact ⟨[.poll t timeElapsedMs], h.poll ha hplace timeElapsedMs⟩
      · exact ⟨[], h⟩
  · refine ⟨[], ?_⟩
    rwa [Interleaved.step.eq_def, if_pos ha]

theorem StandsFor.run (h : x.StandsFor s) (es : List (FineLabel S T)) :
    ∃ ls, StandsFor (run Interleaved.step x es) (Embed.run System.step s ls) := by
  induction es generalizing x s with
  | nil => exact ⟨[], h⟩
  | cons e es ih =>
    obtain ⟨ls, hstep⟩ := h.step e
    obtain ⟨ls', hrun⟩ := ih hstep
    refine ⟨ls ++ ls', ?_⟩
    rwa [run_append]

theorem StandsFor.completed_outside (h : x.StandsFor s) : (∀ t, x.mtxBlock.place t = .outside →
    x.completed.threads t = x.system.threads t) ∧ ∀ l ∈ x.system.returned, l ∈ x.completed.returned := by
  rcases hc : x.critical with _ | label | label
  · rw [completed, hc]
    exact ⟨fun _ _ => rfl, fun _ => id⟩
  · rw [completed, hc]
    exact ⟨fun _ _ => rfl, fun _ => id⟩
  · obtain ⟨u, hu, hby⟩ := (h.stored label hc).1
    obtain ⟨logged, y, new, aborted, hworks⟩ := System.works_section hby x.system
    have hmade : x.completed = { toLogged := logged, threads := Function.update x.system.threads u y,
                                 returned := x.system.returned ++ new, aborted := aborted } := by
      rw [completed, hc]
      exact hworks x.system ⟨rfl, rfl, rfl⟩
    rw [hmade]
    refine ⟨fun t ht => Function.update_of_ne ?_ .., fun l hl => List.mem_append_left new hl⟩
    rintro rfl
    simp [ht] at hu

end

/-- **Critical sections are atomic.** Whatever the threads do step by step, it is a run of `System`: when nobody has the
mutex it has come to the same, but for the order of the calls that have returned. At any moment the threads
outside the mutex are where they are there, and the calls that have returned have returned there. -/
theorem sections_atomic (d : A) (filePath : String) (es : List (FineLabel S T)) :
    ∃ (x : Interleaved B A S T) (s : System B A S T) (ls : List (Label S T)),
      x = run step (start d filePath) es ∧ s = run System.step (.opened d filePath) ls ∧
      (x.mtxBlock.owner = none → x.system.toLogged = s.toLogged ∧ x.system.threads = s.threads ∧
        x.system.aborted = s.aborted ∧ x.system.returned.Perm s.returned) ∧
      x.lastFlushedOpId = s.wal.lastFlushedOpId ∧
      (∀ t, x.mtxBlock.place t = .outside → x.system.threads t = s.threads t) ∧
      ∀ l ∈ x.system.returned, l ∈ s.returned := by
  obtain ⟨ls, h⟩ := (standsFor_start (B := B) (S := S) (T := T) d filePath).run es
  obtain ⟨hthreads, hreturned⟩ := h.completed_outside
  refine ⟨_, _, ls, rfl, rfl, fun hfree => ?_, ?_, fun t ht => ?_, fun l hl => ?_⟩
  · have halike := h.alike
    rw [completed, h.critical_of_free hfree] at halike
    exact ⟨halike.logged, halike.threads, halike.aborted, halike.returned⟩
  · rw [h.lastFlushedOpId, h.alike.logged]
  · rw [← hthreads t ht, h.alike.threads]
  · exact h.alike.returned.subset (hreturned l hl)

end Interleaved

end CppDb
