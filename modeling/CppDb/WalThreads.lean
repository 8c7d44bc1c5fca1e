import CppDb.Wal
import CppDb.LogFormat
import CppDb.Lib.Run

/-!
# The log and its threads

A `System` is a `DbWAL` and the threads that call it. A step (`System.step`) is one critical section
(of a call, of a waiting call whose time is up, of `closeLogFile`) or one turn of the loop in
`waitForFlushAndHandleTimeout`, which runs outside the mutex. The clock readings are part of the
labels, so they are arbitrary. A label that is not possible in a state changes nothing.

`Logged` adds to the `DbWAL` the `Ledger` of what has happened so far: the entries placed in a block, in
order, and how many IDs have been taken.
-/

namespace CppDb
open Embed

/-- The calls that log something, with what `timeElapsedMs()` tells them. -/
inductive Request (S : Schema) where
  | registerOperation (op : Operation S) (timeElapsedMs : UInt64)
  | updateOpStatus (opId : OpID) (status : OpStatus) (timeElapsedMs : UInt64)

structure Ledger (S : Schema) where
  placed : List (Entry S) := []
  issued : ℕ := 0

structure Logged (B : ℕ → Type) (A : Type) (S : Schema) extends Ledger S where
  wal : DbWAL B A

namespace Request
variable {B : ℕ → Type} [StaticDataBuffer B] {A : Type} {S : Schema}

/-- What the call wants in the log. -/
def body : Request S → EntryBody S
  | registerOperation op _ => .operation op
  | updateOpStatus opId status _ => .completion opId status

/-- The call up to the wait. -/
def perform [StorageAdapter A] [Wheathash] : Request S → Proc (DbWAL B A) Locals
  | registerOperation op timeElapsedMs => DbWAL.registerOperation op timeElapsedMs
  | updateOpStatus opId status timeElapsedMs => DbWAL.updateOpStatus opId status timeElapsedMs

/-- The call gets as far as `++_lastOpId`: the operation fits the entry buffer, the ID is pending. -/
def TakesId (w : DbWAL B A) : Request S → Prop
  | registerOperation op _ => (EntryBody.operation op).size ≤ BlockSize
  | updateOpStatus opId _ _ => opId ∈ w.pendingOperations

instance (w : DbWAL B A) (r : Request S) : Decidable (r.TakesId w) := by
  cases r <;> unfold TakesId <;> infer_instance

/-- The entry a call has placed, if it got to the wait. -/
def entries (r : Request S) : Exit Locals → List (Entry S)
  | .ret l => [⟨l.currentOpId, r.body⟩]
  | _ => []

end Request

namespace Logged
variable {B : ℕ → Type} [StaticDataBuffer B] {A : Type} [StorageAdapter A] [Wheathash] {S : Schema}

def request (r : Request S) (s : Logged B A S) : Exit Locals × Logged B A S :=
  let (exit, wal) := r.perform.run s.wal
  (exit, { wal := wal
           placed := s.placed ++ r.entries exit
           issued := s.issued + if r.TakesId s.wal then 1 else 0 })

/-- A critical section that logs nothing of its own. -/
def onWal (p : Proc (DbWAL B A) Unit) (s : Logged B A S) : Exit Unit × Logged B A S :=
  let (exit, wal) := p.run s.wal
  (exit, { s with wal := wal })

end Logged

/-- Where a thread is: outside the log, in the waiting loop, or in that loop's timeout branch. -/
inductive Thread where
  | idle
  | waiting (l : Locals)
  | atMutex (l : Locals)

structure System (B : ℕ → Type) (A : Type) (S : Schema) (T : Type) extends Logged B A S where
  threads : T → Thread := fun _ => .idle
  /-- The calls that have returned an ID or `true`. -/
  returned : List Locals := []
  /-- `fatalAbort` has ended the process. -/
  aborted : Bool := false

inductive Label (S : Schema) (T : Type) where
  | request (t : T) (r : Request S)
  | poll (t : T) (timeElapsedMs : UInt64)
  | timeout (t : T)
  | closeLogFile

/-- What a call wants in the log. Where `full` is set, the subtraction in its space check wraps around. -/
structure Asked (S : Schema) where
  body : EntryBody S
  full : Bool

/-- A call and its outcome: the ID it goes on with, if it goes on. -/
structure CallMade (S : Schema) extends Asked S where
  id : Option OpID

/-- The ID with which a call goes on to wait. -/
def outcome : Exit Locals → Option OpID
  | .ret l => some l.currentOpId
  | _ => none

namespace System
variable {B : ℕ → Type} [StaticDataBuffer B] {A : Type} [StorageAdapter A] [Wheathash] {S : Schema}
variable {T : Type} [DecidableEq T]

/-- `timeOut` of the waiting loop, in ms. -/
def timeOut : UInt64 := 50

/-- A new `DbWAL` that has opened its log. -/
def opened (walIoDevice : A) (filePath : String) : System B A S T :=
  { wal := ((DbWAL.openLogFile filePath).run (.new walIoDevice)).2 }

def setThread (t : T) (x : Thread) (s : System B A S T) : System B A S T :=
  { s with threads := Function.update s.threads t x }

omit [StaticDataBuffer B] [StorageAdapter A] [Wheathash] in
@[simp] theorem setThread_self (t : T) (x : Thread) (s : System B A S T) : (s.setThread t x).threads t = x :=
  Function.update_self ..

/-- The call of thread `t` returns successfully. -/
def finish (t : T) (l : Locals) (s : System B A S T) : System B A S T :=
  { s.setThread t .idle with returned := s.returned ++ [l] }

/-- A call that fails returns at once. -/
def request (t : T) (r : Request S) (s : System B A S T) : System B A S T :=
  match s.threads t with
  | .idle => match s.toLogged.request r with
    | (.ret l, logged) => { s.setThread t (.waiting l) with toLogged := logged }
    | (.abort _, logged) => { s with toLogged := logged, aborted := true }
    | (_, logged) => { s with toLogged := logged }
  | _ => s

/-- A turn of `while (_lastFlushedOpId < currentOpId)`. -/
def poll (t : T) (timeElapsedMs : UInt64) (s : System B A S T) : System B A S T :=
  match s.threads t with
  | .waiting l =>
    if s.wal.lastFlushedOpId < l.currentOpId then
      let elapsed := timeElapsedMs - l.operationStartTimeStamp
      if l.firstWriter ∧ elapsed ≥ timeOut then s.setThread t (.atMutex l) else s
    else s.finish t l
  | _ => s

def timeout (t : T) (s : System B A S T) : System B A S T :=
  match s.threads t with
  | .atMutex l => match s.toLogged.onWal (DbWAL.flushOnTimeout l.currentOpId) with
    | (.ret _, logged) => { s.finish t l with toLogged := logged }
    | (_, logged) => { s with toLogged := logged, aborted := true }
  | _ => s

def closeLogFile (s : System B A S T) : System B A S T :=
  { s with toLogged := (s.toLogged.onWal DbWAL.closeLogFile).2 }

def step (s : System B A S T) (l : Label S T) : System B A S T :=
  if s.aborted then s
  else match l with
    | .request t r => s.request t r
    | .poll t timeElapsedMs => s.poll t timeElapsedMs
    | .timeout t => s.timeout t
    | .closeLogFile => s.closeLogFile

/-! ### Calls -/

/-- The call that a step makes, if it makes one: the thread has to be outside the log. -/
def callOf (s : System B A S T) : Label S T → Option (CallMade S)
  | .request t r =>
    match s.aborted, s.threads t with
    | false, .idle => some { body := r.body
                             full := BlockSize < s.wal.block.pos + 6
                             id := outcome (r.perform.run s.wal).1 }
    | _, _ => none
  | _ => none

/-- The calls of a run. -/
def calls : System B A S T → List (Label S T) → List (CallMade S)
  | _, [] => []
  | s, l :: ls => (s.callOf l).toList ++ calls (s.step l) ls

/-! The steps that go on, as equations. -/

section Steps
variable {s : System B A S T} {t : T} {r : Request S} {l : Locals} {w : DbWAL B A}

theorem step_of_aborted (ha : s.aborted = true) (l : Label S T) : s.step l = s := by
  rw [step.eq_def, if_pos ha]

theorem step_eq_request (ha : s.aborted = false) : s.step (.request t r) = s.request t r := by
  simp [step, ha]

theorem step_eq_poll (ha : s.aborted = false) (timeElapsedMs : UInt64) :
    s.step (.poll t timeElapsedMs) = s.poll t timeElapsedMs := by
  simp [step, ha]

theorem step_eq_timeout (ha : s.aborted = false) : s.step (.timeout t) = s.timeout t := by
  simp [step, ha]

theorem step_eq_closeLogFile (ha : s.aborted = false) : s.step .closeLogFile = s.closeLogFile := by
  simp [step, ha]

theorem step_request (ha : s.aborted = false) (ht : s.threads t = .idle)
    (h : r.perform.run s.wal = (.ret l, w)) : s.step (.request t r) =
      { s with
        wal := w
        placed := s.placed ++ [⟨l.currentOpId, r.body⟩]
        issued := s.issued + if r.TakesId s.wal then 1 else 0
        threads := Function.update s.threads t (.waiting l) } := by
  simp [step, ha, request, ht, Logged.request, h, Request.entries, setThread]

theorem step_request_fail (ha : s.aborted = false) (ht : s.threads t = .idle)
    (h : r.perform.run s.wal = (.fail, w)) : s.step (.request t r) =
      { s with wal := w, issued := s.issued + if r.TakesId s.wal then 1 else 0 } := by
  simp [step, ha, request, ht, Logged.request, h, Request.entries]

theorem step_poll (ha : s.aborted = false) (ht : s.threads t = .waiting l)
    (hlt : s.wal.lastFlushedOpId < l.currentOpId) (hfirst : l.firstWriter = true) {timeElapsedMs : UInt64}
    (helapsed : timeElapsedMs - l.operationStartTimeStamp ≥ timeOut) :
    s.step (.poll t timeElapsedMs) = s.setThread t (.atMutex l) := by
  simp [step, ha, poll, ht, hlt, hfirst, helapsed]

theorem step_timeout (ha : s.aborted = false) (ht : s.threads t = .atMutex l)
    (h : (DbWAL.flushOnTimeout l.currentOpId).run s.wal = (.ret (), w)) :
    s.step (.timeout t) = { s.finish t l with wal := w } := by
  simp [step, ha, timeout, ht, Logged.onWal, h, finish, setThread]

theorem step_closeLogFile (ha : s.aborted = false) {x : Exit Unit} (h : DbWAL.closeLogFile.run s.wal = (x, w)) :
    s.step .closeLogFile = { s with wal := w } := by
  simp [step, ha, closeLogFile, Logged.onWal, h]

omit [DecidableEq T] in
theorem callOf_request (ha : s.aborted = false) (ht : s.threads t = .idle) : s.callOf (.request t r) =
    some { body := r.body, full := BlockSize < s.wal.block.pos + 6, id := outcome (r.perform.run s.wal).1 } := by
  simp only [callOf, ha, ht]

/-- Where a step makes a call, it does so to the log. -/
theorem callOf_some {label : Label S T} {c : CallMade S} (h : s.callOf label = some c) : ∃ t r,
    label = .request t r ∧ s.aborted = false ∧ s.threads t = .idle ∧ c.body = r.body ∧
      c.full = decide (BlockSize < s.wal.block.pos + 6) ∧ c.id = outcome (r.perform.run s.wal).1 ∧
      (s.step label).toLogged = (s.toLogged.request r).2 := by
  cases label with
  | request t r =>
    rw [callOf] at h
    split at h
    · next ha ht =>
      cases h
      refine ⟨t, r, rfl, ha, ht, rfl, rfl, rfl, ?_⟩
      rcases hrun : s.toLogged.request r with ⟨_ | _ | _ | _, logged⟩ <;> simp [step, ha, request, ht, hrun]
    · cases h
  | poll t timeElapsedMs => cases h
  | timeout t => cases h
  | closeLogFile => cases h

/-- A step that makes no call leaves the ledger alone. -/
theorem callOf_none {label : Label S T} (h : s.callOf label = none) :
    (s.step label).toLedger = s.toLedger := by
  unfold step
  split
  · rfl
  next ha =>
  cases label with
  | request t r =>
    have ha : s.aborted = false := by simpa using ha
    simp only [callOf, ha] at h
    dsimp only
    rw [request]
    rcases ht : s.threads t with _ | l | l
    · rw [ht] at h
      cases h
    · rfl
    · rfl
  | poll t timeElapsedMs =>
    dsimp only
    rw [poll]
    rcases s.threads t with _ | l | l
    · rfl
    · dsimp only
      split
      · split <;> rfl
      · rfl
    · rfl
  | timeout t =>
    dsimp only
    rw [timeout]
    rcases s.threads t with _ | l | l
    · rfl
    · rfl
    · rcases hwal : s.toLogged.onWal (DbWAL.flushOnTimeout l.currentOpId) with ⟨x, logged⟩
      have hledger : logged.toLedger = s.toLedger := (congrArg (fun p => p.2.toLedger) hwal).symm
      dsimp only
      rw [hwal]
      rcases x with u | _ | m | _ <;> exact hledger
  | closeLogFile => rfl

end Steps

end System

end CppDb
