import CppDb.BlockNumbers
import CppDb.Lib.GroupCommit

/-!
# What the threads do

A step of the system is made of `Move`s: the block is flushed, an ID is taken, an entry is placed, a call
goes on waiting or returns. What every move keeps, every step does (`System.moves_step`). A system is a
`Batch` in which the calls are the waiters and the first writer leads (`System.batch`), and what moves do to
it can happen to a batch; entries may have any size.
-/

namespace CppDb
open Embed Relation

namespace Numbers
variable {S : Schema} {T : Type} {n n' : Numbers} {placed : List (Entry S)} {issued : ℕ}

/-- The entries placed since the block was started. -/
def inBlock (n : Numbers) (placed : List (Entry S)) : List (Entry S) :=
  placed.drop (placed.length - n.blockItemCount)

def batch (n : Numbers) (placed : List (Entry S)) (waiting : T → Option (Waiter ℕ)) : Batch ℕ T where
  committed := n.lastFlushedOpId.toNat
  tickets := (n.inBlock placed).map fun e => e.ticket.toNat
  waiting := waiting

structure Valid (n : Numbers) (placed : List (Entry S)) (issued : ℕ) : Prop where
  count_le : n.blockItemCount ≤ placed.length
  lastOpId : n.lastOpId.toNat = issued
  lastBlock_le : n.lastBlockOpId.toNat ≤ issued
  lastFlushed_le : n.lastFlushedOpId.toNat ≤ n.lastBlockOpId.toNat
  ticket_le : ∀ e ∈ n.inBlock placed, e.ticket.toNat ≤ n.lastBlockOpId.toNat

theorem inBlock_zero (h : n.blockItemCount = 0) : n.inBlock placed = [] := by
  rw [inBlock, h, Nat.sub_zero, List.drop_length]

theorem inBlock_ne_nil (hcount : n.blockItemCount ≤ placed.length) (h : n.blockItemCount ≠ 0) :
    n.inBlock placed ≠ [] := by
  intro hnil
  have hlen := congrArg List.length hnil
  rw [inBlock, List.length_drop, List.length_nil] at hlen
  omega

theorem inBlock_place (e : Entry S) (pending : List OpID) : (n.place pending).inBlock (placed ++ [e]) =
      n.inBlock placed ++ [e] := by
  have hcount : (placed ++ [e]).length - (n.place pending).blockItemCount = placed.length - n.blockItemCount := by
    rw [List.length_append, List.length_singleton]
    exact Nat.add_sub_add_right ..
  rw [inBlock, hcount, List.drop_append_of_le_length (Nat.sub_le ..)]
  rfl

namespace Valid

theorem flush (h : n.Valid placed issued) : n.flush.Valid placed issued where
  count_le := Nat.zero_le _
  lastOpId := h.lastOpId
  lastBlock_le := h.lastBlock_le
  lastFlushed_le := Nat.le_refl _
  ticket_le e he := by
    rw [inBlock_zero rfl] at he
    exact absurd he List.not_mem_nil

theorem madeRoom (h : n.Valid placed issued) (hroom : n.MadeRoom n') : n'.Valid placed issued := by
  rcases hroom with rfl | rfl
  · exact h
  · exact h.flush

theorem steps (h : n.Valid placed issued) (hroom : n.MadeRoom n') (waiting : T → Option (Waiter ℕ))
    [DecidableEq T] : ReflTransGen Batch.Step (n.batch placed waiting) (n'.batch placed waiting) := by
  rcases hroom with rfl | rfl
  · exact .refl
  · have hcommit : n.flush.batch placed waiting = (n.batch placed waiting).commit n.lastBlockOpId.toNat := by
      rw [batch, inBlock_zero rfl]
      rfl
    rw [hcommit]
    refine .single (.commit h.lastFlushed_le fun m hm => ?_)
    obtain ⟨e, he, rfl⟩ := List.mem_map.1 hm
    exact h.ticket_le e he

theorem takeId (h : n.Valid placed issued) (hbound : issued + 1 < 2 ^ 32) :
    Valid { n with lastOpId := n.lastOpId + 1 } placed (issued + 1) where
  count_le := h.count_le
  lastOpId := by
    change (n.lastOpId + 1).toNat = issued + 1
    rw [UInt32.toNat_add, h.lastOpId]
    exact Nat.mod_eq_of_lt hbound
  lastBlock_le := Nat.le_succ_of_le h.lastBlock_le
  lastFlushed_le := h.lastFlushed_le
  ticket_le := h.ticket_le

theorem setLastBlock (h : n.Valid placed issued) : Valid { n with lastBlockOpId := n.lastOpId } placed issued := by
  have hle : n.lastBlockOpId.toNat ≤ n.lastOpId.toNat := by
    rw [h.lastOpId]
    exact h.lastBlock_le
  exact {
    count_le := h.count_le
    lastOpId := h.lastOpId
    lastBlock_le := Nat.le_of_eq h.lastOpId
    lastFlushed_le := Nat.le_trans h.lastFlushed_le hle
    ticket_le := fun e he => Nat.le_trans (h.ticket_le e he) hle }

theorem place (h : n.Valid placed issued) (body : EntryBody S) (pending : List OpID) :
    (n.place pending).Valid (placed ++ [⟨n.lastOpId, body⟩]) issued where
  count_le := by
    rw [List.length_append, List.length_singleton]
    exact Nat.succ_le_succ h.count_le
  lastOpId := h.lastOpId
  lastBlock_le := Nat.le_of_eq h.lastOpId
  lastFlushed_le := h.setLastBlock.lastFlushed_le
  ticket_le e he := by
    rw [inBlock_place] at he
    rcases List.mem_append.1 he with he | he
    · exact h.setLastBlock.ticket_le e he
    · rw [List.mem_singleton.1 he]
      exact Nat.le_refl _

theorem step_place (h : n.Valid placed issued) (hfresh : n.lastBlockOpId.toNat < n.lastOpId.toNat)
    (body : EntryBody S) (pending : List OpID) [DecidableEq T] (waiting : T → Option (Waiter ℕ)) {t : T}
    (hidle : waiting t = none) :
    Batch.Step (n.batch placed waiting)
      ((n.place pending).batch (placed ++ [⟨n.lastOpId, body⟩])
        (Function.update waiting t (some ⟨n.lastOpId.toNat, n.blockItemCount == 0⟩))) := by
  have hlt : ∀ m ∈ (n.batch placed waiting).tickets, m < n.lastOpId.toNat := by
    intro m hm
    obtain ⟨e, he, rfl⟩ := List.mem_map.1 hm
    exact Nat.lt_of_le_of_lt (h.ticket_le e he) hfresh
  have hempty : (n.blockItemCount == 0) = (n.batch placed waiting).tickets.isEmpty := by
    rw [batch, List.isEmpty_map]
    by_cases h0 : n.blockItemCount = 0
    · rw [inBlock_zero h0, h0]
      rfl
    · rw [List.isEmpty_eq_false_iff.2 (inBlock_ne_nil h.count_le h0)]
      exact beq_false_of_ne h0
  have heq : (n.place pending).batch (placed ++ [⟨n.lastOpId, body⟩])
      (Function.update waiting t (some ⟨n.lastOpId.toNat, n.blockItemCount == 0⟩)) =
      (n.batch placed waiting).place t n.lastOpId.toNat := by
    rw [batch, inBlock_place, List.map_append, hempty]
    rfl
  rw [heq]
  exact .place hidle (Nat.lt_of_le_of_lt h.lastFlushed_le hfresh) hlt

end Valid

end Numbers

/-- The call of the thread, if it is in its waiting phase. -/
def Thread.call : Thread → Option Locals
  | .idle => none
  | .waiting l => some l
  | .atMutex l => some l

theorem Thread.call_update {T : Type} [DecidableEq T] {threads : T → Thread} {t t' : T} {x : Thread} {l : Locals}
    (h : (Function.update threads t x t').call = some l) : x.call = some l ∨ (threads t').call = some l := by
  by_cases ht : t' = t
  · subst ht
    rw [Function.update_self] at h
    exact .inl h
  · rw [Function.update_of_ne ht] at h
    exact .inr h

def Locals.waiter (l : Locals) : Waiter ℕ := ⟨l.currentOpId.toNat, l.firstWriter⟩

namespace System
variable {B : ℕ → Type} [StaticDataBuffer B] {A : Type} [StorageAdapter A] [Wheathash] {S : Schema}
variable {T : Type} [DecidableEq T]

/-- The entries in the block. -/
def inBlock (s : System B A S T) : List (Entry S) := s.wal.numbers.inBlock s.placed

def batch (s : System B A S T) : Batch ℕ T :=
  s.wal.numbers.batch s.placed fun t => (s.threads t).call.map Locals.waiter

structure Numbered (s : System B A S T) : Prop where
  bounded : s.wal.Bounded
  valid : s.wal.numbers.Valid s.placed s.issued
  led : s.batch.Led

variable {s s' : System B A S T} {l : Label S T}

/-! ### One step -/

/-- What threads do, in its smallest parts. -/
inductive Move (s : System B A S T) : System B A S T → Prop
  /-- The block is flushed, or nothing happens that the numbers show. -/
  | flush {w : DbWAL B A} (aborted : Bool) (hb : w.Bounded) (hroom : s.wal.numbers.MadeRoom w.numbers) :
      Move s { s with wal := w, aborted := aborted }
  /-- `++_lastOpId`. -/
  | takeId (hbound : s.issued + 1 < 2 ^ 32) :
      Move s { s with wal := { s.wal with lastOpId := s.wal.lastOpId + 1 }, issued := s.issued + 1 }
  /-- `_lastBlockOpId = newOpId`, for an entry that is not placed. -/
  | setLastBlock {w : DbWAL B A} (hb : w.Bounded)
      (hn : w.numbers = { s.wal.numbers with lastBlockOpId := s.wal.lastOpId }) : Move s { s with wal := w }
  /-- A call places its entry and starts to wait. -/
  | place {t : T} {r : Request S} {l : Locals} {w : DbWAL B A} {pending : List OpID} (ht : s.threads t = .idle)
      (hb : w.Bounded) (hn : w.numbers = s.wal.numbers.place pending)
      (hpending : ∀ id ∈ pending, id ∈ s.wal.pendingOperations ∨ r.Registers ∧ id = s.wal.lastOpId)
      (hfresh : s.wal.lastBlockOpId.toNat < s.wal.lastOpId.toNat)
      (hid : l.currentOpId = s.wal.lastOpId) (hfirst : l.firstWriter = s.wal.blockIsEmpty)
      (hentry : l.entry = Entry.bytes ⟨l.currentOpId, r.body⟩) :
      Move s { s with
        wal := w, placed := s.placed ++ [⟨l.currentOpId, r.body⟩]
        threads := Function.update s.threads t (.waiting l) }
  /-- A waiting call goes on waiting. -/
  | goOn {t : T} {x : Thread} (hx : x.call = (s.threads t).call) : Move s (s.setThread t x)
  /-- A call whose entry is flushed returns. -/
  | finish {t : T} {l : Locals} (hl : (s.threads t).call = some l)
      (hflushed : ¬ s.wal.lastFlushedOpId < l.currentOpId) : Move s (s.finish t l)

omit [StaticDataBuffer B] [StorageAdapter A] [Wheathash] in
theorem waiting_update (threads : T → Thread) (t : T) (x : Thread) :
    (fun t' => (Function.update threads t x t').call.map Locals.waiter) =
      Function.update (fun t' => (threads t').call.map Locals.waiter) t (x.call.map Locals.waiter) :=
  Function.comp_update (fun x : Thread => x.call.map Locals.waiter) threads t x

omit [StorageAdapter A] [Wheathash] in
/-- What threads do is what can happen to a batch. -/
theorem Move.numbered (hmove : Move s s') (h : s.Numbered) : s'.Numbered := by
  obtain ⟨hbounded, hvalid, hled⟩ := h
  cases hmove with
  | flush aborted hb hroom =>
    exact ⟨hb, hvalid.madeRoom hroom, Batch.led_of_steps (hvalid.steps hroom _) hled⟩
  | takeId hbound => exact ⟨hbounded, hvalid.takeId hbound, hled⟩
  | @setLastBlock w hb hn =>
    have hvalid' : w.numbers.Valid s.placed s.issued := by
      rw [hn]
      exact hvalid.setLastBlock
    have hbatch : batch { s with wal := w } = s.batch := by
      rw [batch, hn]
      rfl
    exact ⟨hb, hvalid', hbatch ▸ hled⟩
  | @place t r l w pending ht hb hn hpending hfresh hid hfirst hentry =>
    refine ⟨hb, ?_, ?_⟩
    · change w.numbers.Valid (s.placed ++ [⟨l.currentOpId, r.body⟩]) s.issued
      rw [hn, hid]
      exact hvalid.place r.body pending
    · have hidle : (s.threads t).call.map Locals.waiter = none := by
        rw [ht]
        rfl
      have hwaiter : (Thread.waiting l).call.map Locals.waiter =
          some ⟨s.wal.numbers.lastOpId.toNat, s.wal.numbers.blockItemCount == 0⟩ := by
        change some (⟨l.currentOpId.toNat, l.firstWriter⟩ : Waiter ℕ) = _
        rw [hid, hfirst]
        rfl
      rw [batch, hn, hid, waiting_update, hwaiter]
      exact (hvalid.step_place hfresh r.body pending (fun t => (s.threads t).call.map Locals.waiter) hidle).led hled
  | @goOn t x hx =>
    have hbatch : (s.setThread t x).batch = s.batch := by
      rw [batch, System.setThread, waiting_update, hx, Function.update_eq_self]
      rfl
    exact ⟨hbounded, hvalid, hbatch ▸ hled⟩
  | @finish t l hl hflushed =>
    have hbatch : (s.finish t l).batch = s.batch.leave t := by
      rw [batch, System.finish, System.setThread, waiting_update]
      rfl
    have hw : s.batch.waiting t = some l.waiter := congrArg (Option.map Locals.waiter) hl
    refine ⟨hbounded, hvalid, ?_⟩
    rw [hbatch]
    exact hled.leave hw (Nat.le_of_not_lt hflushed)

theorem moves_request (h : s.Numbered) (ha : s.aborted = false) (t : T) (r : Request S)
    (hbound : (s.step (.request t r)).issued < 2 ^ 32) : ReflTransGen Move s (s.step (.request t r)) := by
  rcases ht : s.threads t with _ | l | l
  swap; · rw [step_eq_request ha, System.request, ht]
  swap; · rw [step_eq_request ha, System.request, ht]
  rcases Request.numbers h.bounded r with ⟨htakes, hrun⟩ | ⟨htakes, hcall⟩
  · rw [step_request_fail ha ht hrun, if_neg htakes]
    exact .refl
  rw [issued_request ha ht, if_pos htakes] at hbound
  have htaken := ReflTransGen.single (Move.takeId (s := s) hbound)
  generalize hrun : r.perform.run s.wal = x at hcall
  cases hcall with
  | failed hb₁ hroom hb hn =>
    rw [step_request_fail ha ht hrun, if_pos htakes]
    rcases hn with hn | hn
    · exact htaken.tail (.flush s.aborted hb (hn ▸ hroom))
    · exact (htaken.tail (.flush s.aborted hb₁ hroom)).tail (.setLastBlock hb hn)
  | @placed w₁ w' l pending hb₁ hroom hb hn hpending hid hfirst hentry =>
    rw [step_request ha ht hrun, if_pos htakes]
    have hlast : w₁.lastOpId = s.wal.lastOpId + 1 := hroom.lastOpId
    refine (htaken.tail (.flush s.aborted hb₁ hroom)).tail
      (.place ht hb hn hpending ?_ hid hfirst (hid ▸ hlast ▸ hentry))
    have hblock : w₁.lastBlockOpId = s.wal.lastBlockOpId := hroom.lastBlockOpId
    have hissued := (h.valid.takeId hbound).lastOpId
    change (s.wal.lastOpId + 1).toNat = s.issued + 1 at hissued
    change w₁.lastBlockOpId.toNat < w₁.lastOpId.toNat
    rw [hblock, hlast, hissued]
    exact Nat.lt_succ_of_le h.valid.lastBlock_le

omit [StorageAdapter A] [Wheathash] in
theorem moves_poll (s : System B A S T) (t : T) (now : UInt64) : ReflTransGen Move s (s.poll t now) := by
  rw [System.poll]
  rcases ht : s.threads t with _ | l | l
  · exact .refl
  · dsimp only
    split
    · split
      · exact .single (.goOn (by rw [ht]; rfl))
      · exact .refl
    · next hlt => exact .single (.finish (by rw [ht]; rfl) hlt)
  · exact .refl

/-- A call that flushes has its own entry in the block, so that it is done. -/
theorem moves_timeout (h : s.Numbered) (t : T) : ReflTransGen Move s (s.timeout t) := by
  rw [System.timeout]
  rcases ht : s.threads t with _ | l | l
  · exact .refl
  · exact .refl
  have hcall : (s.threads t).call = some l := by rw [ht]; rfl
  obtain ⟨w, hb, ⟨hrun, hn⟩ | ⟨⟨m, hrun⟩, -, hn, -⟩⟩ := h.bounded.flushOnTimeout l.currentOpId
  · have hwal : s.toLogged.onWal (DbWAL.flushOnTimeout l.currentOpId) = (.ret (), { s.toLogged with wal := w }) := by
      rw [Logged.onWal, hrun]
    have hflush := ReflTransGen.single (Move.flush (s := s) s.aborted hb (hn.imp And.right id))
    dsimp only
    rw [hwal]
    refine hflush.tail (.finish (s := { s with wal := w }) hcall ?_)
    rcases hn with ⟨hlt, hn⟩ | hn
    · rwa [show w.lastFlushedOpId = s.wal.lastFlushedOpId from congrArg Numbers.lastFlushedOpId hn]
    · rw [show w.lastFlushedOpId = s.wal.lastBlockOpId from congrArg Numbers.lastFlushedOpId hn]
      refine Nat.not_lt.2 ?_
      by_contra hlt
      have hw : s.batch.waiting t = some l.waiter := congrArg (Option.map Locals.waiter) hcall
      have hmem := h.led.mem t l.waiter hw
        (Nat.lt_of_le_of_lt h.valid.lastFlushed_le (Nat.not_le.1 hlt))
      obtain ⟨e, he, hticket⟩ := List.mem_map.1 hmem
      have hle := h.valid.ticket_le e he
      rw [hticket] at hle
      exact hlt hle
  · have hwal : s.toLogged.onWal (DbWAL.flushOnTimeout l.currentOpId) = (.abort m, { s.toLogged with wal := w }) := by
      rw [Logged.onWal, hrun]
    dsimp only
    rw [hwal]
    exact .single (.flush true hb (.inl hn))

/-- A step is made of moves. -/
theorem moves_step (h : s.Numbered) (l : Label S T) (hbound : (s.step l).issued < 2 ^ 32) :
    ReflTransGen Move s (s.step l) := by
  rcases ha : s.aborted with _ | _
  swap; · rw [step_of_aborted ha]
  cases l with
  | request t r => exact moves_request h ha t r hbound
  | poll t now =>
    rw [step_eq_poll ha]
    exact moves_poll s t now
  | timeout t =>
    rw [step_eq_timeout ha]
    exact moves_timeout h t
  | closeLogFile =>
    rw [step_eq_closeLogFile ha]
    obtain ⟨hb, hroom⟩ := h.bounded.closeLogFile
    exact .single (.flush s.aborted hb hroom)

omit [StorageAdapter A] [Wheathash] in
theorem invariant_moves {P : System B A S T → Prop} (hmove : ∀ s s', Move s s' → P s → P s')
    (hmoves : ReflTransGen Move s s') (h : P s) : P s' := by
  induction hmoves with
  | refl => exact h
  | tail _ hlast ih => exact hmove _ _ hlast ih

theorem Numbered.step (h : s.Numbered) (l : Label S T) (hbound : (s.step l).issued < 2 ^ 32) : (s.step l).Numbered :=
  invariant_moves (fun _ _ => Move.numbered) (moves_step h l hbound) h

end System

end CppDb
