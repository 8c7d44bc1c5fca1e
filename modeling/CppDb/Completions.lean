import Mathlib.Data.List.Nodup
import CppDb.LogDevice
import CppDb.WalRuns

/-!
# Completing operations

`Once es`: every completion marker among the entries `es` completes an operation that is unfinished
where the marker stands. The log keeps this up because `updateOpStatus` looks for the ID among the
pending ones, so an operation is completed at most once, and only after it was registered
(`completedOnce`). The device may be any that does not fail, and the log is what was appended to it
(`Appended`).
-/

namespace CppDb
open Embed
open MemoryAdapter (Fits)

section
variable {S : Schema} {es : List (Entry S)}

def Once (es : List (Entry S)) : Prop := ∀ l ticket opId status r,
  es = l ++ ⟨ticket, .completion opId status⟩ :: r → opId ∈ (unfinished l).map Prod.fst

theorem mem_completedIds {id : OpID} :
    id ∈ completedIds es ↔ ∃ ticket status, (⟨ticket, .completion id status⟩ : Entry S) ∈ es := by
  rw [completedIds, List.mem_filterMap]
  constructor
  · rintro ⟨⟨ticket, op | ⟨opId, status⟩⟩, he, hid⟩
    · cases hid
    · cases hid
      exact ⟨ticket, status, he⟩
  · rintro ⟨ticket, status, he⟩
    exact ⟨_, he, rfl⟩

theorem mem_pending {id : OpID} : id ∈ (unfinished es).map Prod.fst ↔
    (∃ op, (⟨id, .operation op⟩ : Entry S) ∈ es) ∧ id ∉ completedIds es := by
  rw [List.mem_map]
  constructor
  · rintro ⟨x, hx, rfl⟩
    obtain ⟨hop, hnot⟩ := mem_unfinished.1 hx
    exact ⟨⟨x.2, hop⟩, hnot⟩
  · rintro ⟨⟨op, hop⟩, hnot⟩
    exact ⟨(id, op), mem_unfinished.2 ⟨hop, hnot⟩, rfl⟩

namespace Once

theorem nil : Once ([] : List (Entry S)) := by
  intro l ticket opId status r h
  exact absurd h.symm (List.append_ne_nil_of_right_ne_nil _ (List.cons_ne_nil _ _))

theorem append (h : Once es) {e : Entry S}
    (he : ∀ ticket opId status, e = ⟨ticket, .completion opId status⟩ → opId ∈ (unfinished es).map Prod.fst) :
    Once (es ++ [e]) := by
  intro l ticket opId status r heq
  rcases List.eq_nil_or_concat' r with rfl | ⟨r, x, rfl⟩
  · obtain ⟨rfl, hlast⟩ := List.append_inj' heq rfl
    exact he ticket opId status (List.singleton_inj.1 hlast)
  · rw [← List.cons_append, ← List.append_assoc] at heq
    exact h l ticket opId status r (List.append_inj' heq rfl).1

/-- Before a marker its operation is registered and has no other marker; after it there is none. -/
theorem split (h : Once es) {l r : List (Entry S)} {ticket opId : OpID} {status : OpStatus}
    (heq : es = l ++ ⟨ticket, .completion opId status⟩ :: r) :
    (∃ op, (⟨opId, .operation op⟩ : Entry S) ∈ l) ∧ opId ∉ completedIds l ∧ opId ∉ completedIds r := by
  obtain ⟨hop, hbefore⟩ := mem_pending.1 (h l ticket opId status r heq)
  refine ⟨hop, hbefore, fun hafter => ?_⟩
  obtain ⟨ticket', status', hmem⟩ := mem_completedIds.1 hafter
  obtain ⟨m, r', rfl⟩ := List.append_of_mem hmem
  -- the second marker would find the first one
  have hsecond := h (l ++ ⟨ticket, .completion opId status⟩ :: m) ticket' opId status' r' (by
    rw [heq, List.append_assoc, List.cons_append])
  refine (mem_pending.1 hsecond).2 (mem_completedIds.2 ⟨ticket, status, ?_⟩)
  exact List.mem_append_right _ (List.mem_cons_self ..)

end Once

end

/-! ### Calls -/

namespace CallMade
variable {S : Schema}

/-- The entry that the call has placed. -/
def entry (c : CallMade S) : Option (Entry S) := c.id.map fun id => ⟨id, c.body⟩

/-- A registration that got the ID. -/
def Registers (opId : OpID) (c : CallMade S) : Prop := c.id = some opId ∧ ∃ op, c.body = .operation op

/-- A call of `updateOpStatus` for the ID that returns `true`, when it does return. -/
def Completes (opId : OpID) (c : CallMade S) : Prop := (∃ status, c.body = .completion opId status) ∧ c.id ≠ none

theorem Completes.entry {opId : OpID} {c : CallMade S} (h : c.Completes opId) :
    ∃ ticket status, c.entry = some ⟨ticket, .completion opId status⟩ := by
  obtain ⟨⟨status, hbody⟩, hid⟩ := h
  obtain ⟨ticket, hticket⟩ := Option.ne_none_iff_exists'.1 hid
  refine ⟨ticket, status, ?_⟩
  rw [CallMade.entry, hticket, hbody]
  rfl

theorem mem_entries {cs : List (CallMade S)} {e : Entry S} (h : e ∈ cs.filterMap entry) :
    ∃ c ∈ cs, c.id = some e.ticket ∧ c.body = e.body := by
  obtain ⟨c, hc, he⟩ := List.mem_filterMap.1 h
  obtain ⟨id, hid, rfl⟩ := Option.map_eq_some_iff.1 he
  exact ⟨c, hc, hid, rfl⟩

theorem completes_of_mem {cs : List (CallMade S)} {opId : OpID} (h : opId ∈ completedIds (cs.filterMap entry)) :
    ∃ c ∈ cs, c.Completes opId := by
  obtain ⟨ticket, status, he⟩ := mem_completedIds.1 h
  obtain ⟨c, hc, hid, hbody⟩ := mem_entries he
  refine ⟨c, hc, ⟨status, hbody⟩, ?_⟩
  rw [hid]
  exact Option.some_ne_none _

theorem mem_of_completes {cs : List (CallMade S)} {opId : OpID} {c : CallMade S} (hc : c ∈ cs)
    (h : c.Completes opId) : opId ∈ completedIds (cs.filterMap entry) := by
  obtain ⟨ticket, status, he⟩ := h.entry
  exact mem_completedIds.2 ⟨ticket, status, List.mem_filterMap.2 ⟨c, hc, he⟩⟩

end CallMade

theorem System.placed_run {B : ℕ → Type} [StaticDataBuffer B] {A : Type} [StorageAdapter A] [Wheathash]
    {S : Schema} {T : Type} [DecidableEq T] (s : System B A S T) (ls : List (Label S T)) :
    (run step s ls).placed = s.placed ++ (s.calls ls).filterMap CallMade.entry := by
  induction ls generalizing s with
  | nil => exact (List.append_nil _).symm
  | cons l ls ih =>
    rw [run_cons, ih, calls]
    rcases hcall : s.callOf l with _ | c
    · rw [show (s.step l).placed = s.placed from congrArg Ledger.placed (callOf_none hcall)]
      rfl
    · obtain ⟨t, r, -, -, -, hbody, -, hid, hlogged⟩ := callOf_some hcall
      have hplaced : (s.step l).placed = s.placed ++ r.entries (r.perform.run s.wal).1 :=
        congrArg (fun g : Logged B A S => g.placed) hlogged
      have hentry : c.entry.toList = r.entries (r.perform.run s.wal).1 := by
        rw [CallMade.entry, hid, hbody]
        rcases (r.perform.run s.wal).1 with locals | _ | _ | _ <;> rfl
      rw [hplaced, List.append_assoc, Option.toList_some, List.singleton_append, ← hentry]
      congr 1
      rw [List.filterMap_cons]
      rcases c.entry with _ | e <;> rfl

/-! ### Small entries on a device that does not fail -/

section
variable {B : ℕ → Type} [StaticDataBuffer B] {A : Type} [StorageAdapter A] [Wheathash] {S : Schema}
variable {D : A → List (List (Entry S)) → Prop} {w w' : DbWAL B A} {blocks : List (List (Entry S))}
variable {cur : List (Entry S)} {issued size : ℕ}

/-- The device after `blocks` were appended to it, with failed attempts and closes in between. -/
inductive Appended (d₀ : A) : A → List (List (Entry S)) → Prop
  | start : Appended d₀ d₀ []
  | append {d d' : A} {blocks : List (List (Entry S))} {es : List (Entry S)} (h : Appended d₀ d blocks)
      (hrun : (StorageIo.append (encodeBlock es)).run d = (.ret (), d')) : Appended d₀ d' (blocks ++ [es])
  | failed {d d' : A} {blocks : List (List (Entry S))} {es : List (Entry S)} (h : Appended d₀ d blocks)
      (hrun : (StorageIo.append (encodeBlock es)).run d = (.fail, d')) : Appended d₀ d' blocks
  | closed {d d' : A} {blocks : List (List (Entry S))} {x : Exit Unit} (h : Appended d₀ d blocks)
      (hrun : StorageIo.close.run d = (x, d')) : Appended d₀ d' blocks

theorem tracks_appended (d₀ : A) : Tracks (Appended (S := S) d₀) where
  append_ret h _ hrun := h.append hrun
  append_fail h _ hrun := h.failed hrun

/-- The position leaves the reserve that the space check keeps. -/
def DbWAL.Roomy (w : DbWAL B A) : Prop := 2 ≤ w.block.pos ∧ w.block.pos + 33 ≤ BlockSize

omit [StorageAdapter A] in
theorem length_encodeBlock (h : Inv D w blocks cur issued) : (encodeBlock cur).length = BlockSize :=
  length_blockImage (by have := h.room; omega)

omit [StorageAdapter A] in
theorem Inv.filled_of_roomy (h : Inv D w blocks cur issued) (hroomy : w.Roomy) :
    Filled w.block (entriesBytes cur) (2 + (entriesBytes cur).length) := by
  obtain ⟨h2, hend⟩ := hroomy
  cases h.block with
  | filling hb => exact hb
  | finished _ hb =>
    rw [hb.pos] at hend
    omega
  | rewound hb =>
    rw [hb.pos] at h2
    omega

theorem Inv.finalize_works (hD : Tracks D) (h : Inv D w blocks cur issued) (hne : cur ≠ [])
    (hdevice : ¬ AppendFails w.logFile) :
    ∃ w', DbWAL.finalizeAndflushCurrentBlock.run w = (.ret (), w') ∧ Filled w'.block [] 2 ∧
      w'.pendingOperations = w.pendingOperations := by
  obtain ⟨d, hd⟩ := append_of_not_fails hdevice (length_encodeBlock h)
  obtain ⟨w', hrun, hkeeps, -, -, hfill, -⟩ := h.finalize_ret hD hne hd
  exact ⟨w', hrun, hfill, hkeeps.pendingOperations⟩

theorem makeRoom_small {body : Bytes} (hfill : Filled w.block body (2 + body.length))
    (hend : 2 + body.length + 33 ≤ BlockSize) (hempty : w.blockItemCount = 0 → body = [])
    (hmax : w.blockItemCount ≤ 65535) (hsize : size ≤ MaxEntrySize) (hdevice : ¬ AppendFails w.logFile) :
    ∃ w' body', (DbWAL.makeRoom false size).run w = (.ret (), w') ∧
      Filled w'.block body' (2 + body'.length) ∧ 2 + body'.length + size + 33 ≤ BlockSize := by
  have hroom : 2 + size + 33 ≤ BlockSize := by
    simp only [MaxEntrySize, BlockSize] at hsize ⊢
    omega
  have hreq : w.newBlockRequiredForData size = true ↔ BlockSize < 2 + body.length + size + 33 := by
    rw [newBlockRequired_iff (by rw [hfill.pos]; omega), hfill.pos]
  rw [run_makeRoom]
  by_cases hlt : BlockSize < 2 + body.length + size + 33
  · rw [if_pos (hreq.2 hlt)]
    have h0 : 0 < w.blockItemCount := by
      refine Nat.pos_of_ne_zero fun h0 => ?_
      rw [hempty h0] at hlt
      exact Nat.not_le.2 hlt hroom
    obtain ⟨d, hd⟩ := append_of_not_fails hdevice
      (show (blockImage w.blockItemCount body).length = BlockSize from length_blockImage hfill.le)
    obtain ⟨b, hb, hrun⟩ := DbWAL.run_finalize_ret hfill h0 hmax hd
    exact ⟨_, [], hrun, hb, hroom⟩
  · rw [if_neg (mt hreq.1 hlt)]
    exact ⟨w, body, rfl, hfill, Nat.not_lt.1 hlt⟩

theorem Request.run_small (h : Inv D w blocks cur issued) (hroomy : w.Roomy) {r : Request S}
    (hsmall : r.body.size ≤ MaxEntrySize) (hdevice : ¬ AppendFails w.logFile) (htakes : r.TakesId w) :
    ∃ l w', r.perform.run w = (.ret l, w') ∧ w'.Roomy := by
  have hfill := h.filled_of_roomy hroomy
  have hempty : w.blockItemCount = 0 → entriesBytes cur = [] := fun h0 => by
    rw [h.count, List.length_eq_zero_iff] at h0
    rw [h0, entriesBytes_nil]
  have hmax : w.blockItemCount ≤ 65535 := by
    rw [h.count]
    rcases List.eq_nil_or_concat' cur with rfl | ⟨es, e, rfl⟩
    · exact Nat.zero_le _
    · exact Nat.le_trans (h.goodBlock (by simp)).length_le (by decide)
  have hpos := hroomy.2
  rw [hfill.pos] at hpos
  obtain ⟨w₁, body, hmake, hfill, hfit⟩ := makeRoom_small (w := { w with lastOpId := w.lastOpId + 1 })
    hfill hpos hempty hmax hsmall hdevice
  have hend : ∀ {b : StaticBufferAdapter B BlockSize} {e : Entry S}, e.body = r.body →
      Filled b (body ++ e.bytes) (2 + (body ++ e.bytes).length) → 2 ≤ b.pos ∧ b.pos + 33 ≤ BlockSize := by
    intro b e he hb
    rw [hb.pos, List.length_append, e.length_bytes, he]
    exact ⟨Nat.le_add_right .., by omega⟩
  cases r with
  | registerOperation op now =>
    obtain ⟨b, hrun, hb⟩ := registerOperation_ret htakes hmake hfill (Nat.le_trans (Nat.le_add_right _ 33) hfit) now
    exact ⟨_, _, hrun, hend rfl hb⟩
  | updateOpStatus opId status now =>
    have hentry : 2 + body.length + (Entry.bytes (S := S) ⟨w.lastOpId + 1, .completion opId status⟩).length ≤
        BlockSize := by
      rw [Entry.length_bytes]
      exact Nat.le_trans (Nat.le_add_right _ 33) hfit
    obtain ⟨b, hwrite, hb⟩ := hfill.write hentry
    exact ⟨_, _, (run_updateOpStatus (S := S) htakes status now).trans (updateEntry_ret hmake hwrite now),
      hend (e := ⟨w.lastOpId + 1, .completion opId status⟩) rfl hb⟩

theorem flushOnTimeout_works (hD : Tracks D) (h : Inv D w blocks cur issued) (hroomy : w.Roomy) {currentOpId : OpID}
    (hplaced : ∃ e ∈ blocks.flatten ++ cur, e.ticket = currentOpId) (hdevice : ¬ AppendFails w.logFile) :
    ((DbWAL.flushOnTimeout currentOpId).run w).2.Roomy := by
  obtain ⟨e, he, rfl⟩ := hplaced
  by_cases hlt : w.lastFlushedOpId < e.ticket
  · obtain ⟨w', hrun, hfill, -⟩ := h.finalize_works hD (h.cur_ne_nil he hlt) hdevice
    rw [flushOnTimeout_ret hlt hrun, DbWAL.Roomy, hfill.pos]
    decide
  · rw [DbWAL.flushOnTimeout, Proc.run_read_bind, Proc.run_ite, if_neg hlt]
    exact hroomy

theorem closeLogFile_works (hD : Tracks D) (h : Inv D w blocks cur issued) (hroomy : w.Roomy)
    (hdevice : ¬ AppendFails w.logFile) : (DbWAL.closeLogFile.run w).2.Roomy := by
  rw [DbWAL.run_closeLogFile]
  by_cases h0 : w.blockItemCount = 0
  · rw [if_pos h0, DbWAL.onLogFile, Proc.run_zoom]
    exact hroomy
  · have hne : cur ≠ [] := by
      rintro rfl
      exact h0 h.count
    obtain ⟨w', hrun, hfill, -⟩ := h.finalize_works hD hne hdevice
    rw [if_neg h0, Proc.run_bind_of_ret hrun, DbWAL.onLogFile, Proc.run_zoom]
    change 2 ≤ w'.block.pos ∧ w'.block.pos + 33 ≤ BlockSize
    rw [hfill.pos]
    decide

end

/-! ### Runs -/

section
variable {B : ℕ → Type} [StaticDataBuffer B] {A : Type} [StorageAdapter A] [Wheathash] {S : Schema}
variable {D : A → List (List (Entry S)) → Prop} {T : Type} [DecidableEq T]

namespace System
variable {s : System B A S T} {l : Label S T} {ls : List (Label S T)}

structure Working (D : A → List (List (Entry S)) → Prop) (s : System B A S T) : Prop where
  holds : s.Holds D
  roomy : s.wal.Roomy
  once : Once s.placed

/-- A step keeps the space check's reserve. -/
theorem Working.roomy_step (hD : Tracks D) (h : s.Working D) (hsmall : l.Small)
    (hdevice : ¬ AppendFails s.wal.logFile) : (s.step l).wal.Roomy := by
  rcases ha : s.aborted with _ | _
  swap
  · rw [step_of_aborted ha]
    exact h.roomy
  obtain ⟨blocks, cur, hplaced, hinv⟩ := h.holds.log
  cases l with
  | request t r =>
    rcases ht : s.threads t with _ | l | l
    · by_cases htakes : r.TakesId s.wal
      · obtain ⟨l, w', hrun, hroomy⟩ := Request.run_small hinv h.roomy hsmall hdevice htakes
        rw [step_request ha ht hrun]
        exact hroomy
      · rw [step_request_fail ha ht (Request.run_refused htakes)]
        exact h.roomy
    · rw [step_eq_request ha, System.request, ht]
      exact h.roomy
    · rw [step_eq_request ha, System.request, ht]
      exact h.roomy
  | poll t now =>
    have hwal : (s.step (.poll t now)).wal = s.wal := by
      rw [step_eq_poll ha, toLogged_poll]
    rw [hwal]
    exact h.roomy
  | timeout t =>
    rw [step_eq_timeout ha, System.timeout]
    rcases ht : s.threads t with _ | l | l
    · exact h.roomy
    · exact h.roomy
    obtain ⟨e, he, hticket, -⟩ := h.holds.waiting t l (.inr ht)
    rw [hplaced] at he
    have hroomy := flushOnTimeout_works hD hinv h.roomy ⟨e, he, hticket⟩ hdevice
    rcases hrun : (DbWAL.flushOnTimeout l.currentOpId).run s.wal with ⟨x, w'⟩
    rw [hrun] at hroomy
    have hwal : s.toLogged.onWal (DbWAL.flushOnTimeout l.currentOpId) = (x, { s.toLogged with wal := w' }) := by
      rw [Logged.onWal, hrun]
    dsimp only
    rw [hwal]
    rcases x with u | _ | m | _ <;> exact hroomy
  | closeLogFile =>
    rw [step_eq_closeLogFile ha]
    exact closeLogFile_works hD hinv h.roomy hdevice

/-- Only `updateOpStatus` of a pending ID places a marker. -/
theorem Working.once_step (hD : Tracks D) (h : s.Working D) (hfine : s.Fine l)
    (hbound : (s.step l).issued < 2 ^ 32) : Once (s.step l).placed := by
  rcases hcall : s.callOf l with _ | c
  · rw [show (s.step l).placed = s.placed from congrArg Ledger.placed (callOf_none hcall)]
    exact h.once
  obtain ⟨t, r, rfl, ha, ht, -, -, -, hlogged⟩ := callOf_some hcall
  obtain ⟨blocks, cur, hplaced, hinv⟩ := h.holds.log
  have hissued : r.TakesId s.wal → s.issued + 1 < 2 ^ 32 := fun htakes => by
    rwa [issued_request ha ht, if_pos htakes] at hbound
  have hspec := Request.spec hD hinv hissued hfine.1
  have hnew : (s.step (.request t r)).placed = s.placed ++ r.entries (r.perform.run s.wal).1 :=
    congrArg (fun g : Logged B A S => g.placed) hlogged
  rw [hnew]
  generalize hrun : r.perform.run s.wal = x at hspec
  cases hspec with
  | placed htakes =>
    refine h.once.append ?_
    rintro ticket opId status heq
    cases r with
    | registerOperation op now => cases heq
    | updateOpStatus opId' status' now =>
      cases heq
      rw [hplaced, ← hinv.pending]
      exact htakes
  | failed =>
    change Once (s.placed ++ [])
    rw [List.append_nil]
    exact h.once
  | refused =>
    change Once (s.placed ++ [])
    rw [List.append_nil]
    exact h.once

theorem Working.step (hD : Tracks D) (hclose : Closes D) (h : s.Working D) (hsmall : l.Small)
    (hdevice : ¬ AppendFails s.wal.logFile) (hbound : (s.step l).issued < 2 ^ 32) : (s.step l).Working D := by
  have hfine := fine_of_small h.roomy.1 hsmall
  have hholds := Holds.step_fine hD ⟨h.holds, h.roomy.1⟩ (fun _ => .inl hclose) hfine hbound
  exact ⟨hholds.1, h.roomy_step hD hsmall hdevice, h.once_step hD hfine hbound⟩

/-- The device does not fail. -/
def DeviceWorks (s : System B A S T) (_ : Label S T) : Prop := ¬ AppendFails s.wal.logFile

theorem working_run (hD : Tracks D) (hclose : Closes D) (h : s.Working D) (hsmall : ∀ l ∈ ls, l.Small)
    (hdevice : Along step DeviceWorks s ls) (hissued : (run step s ls).issued < 2 ^ 32) :
    (run step s ls).Working D :=
  Along.invariant (P := Working D) (fun _ _ hs hc => hs.step hD hclose hc.1 hc.2.1 hc.2.2) h
    ((Along.of_forall hsmall).and (hdevice.and (along_issued hissued)))

end System

/-- What the calls of a run have come to, on a device that was `d₀` when the log was opened. -/
structure CompletedOnce (d₀ : A) (calls : List (CallMade S)) (s : Logged B A S) : Prop where
  /-- What has been placed is in the log and the block. -/
  stored : ∃ blocks cur, s.placed = blocks.flatten ++ cur ∧ Appended d₀ s.wal.logFile blocks ∧
    Filled s.wal.block (entriesBytes cur) (2 + (entriesBytes cur).length) ∧ s.wal.blockItemCount = cur.length
  pending : s.wal.pendingOperations = (unfinished s.placed).map Prod.fst
  nodup : s.wal.pendingOperations.Nodup
  /-- A completed ID is that of an earlier registration and of no other call, and no other call completes it. -/
  once : ∀ l c r opId, calls = l ++ c :: r → c.Completes opId →
    (∃ c' ∈ l, c'.Registers opId) ∧ (∀ c' ∈ calls, c'.id = some opId → c'.Registers opId) ∧
      ∀ c' ∈ l ++ r, ¬ c'.Completes opId
  /-- A completed ID has one marker, which comes after the entry of its operation. -/
  marked : ∀ opId, (∃ c ∈ calls, c.Completes opId) → ∃ l ticket status r,
    s.placed = l ++ ⟨ticket, .completion opId status⟩ :: r ∧ (∃ op, (⟨opId, .operation op⟩ : Entry S) ∈ l) ∧
      opId ∉ completedIds l ∧ opId ∉ completedIds r
  unmarked : ∀ opId, (¬ ∃ c ∈ calls, c.Completes opId) → opId ∉ completedIds s.placed
  /-- A call that is rejected changes nothing. -/
  rejected : ¬ AppendFails s.wal.logFile → ∀ opId status timeElapsedMs,
    (DbWAL.updateOpStatus opId status timeElapsedMs).run s.wal = (.fail, s.wal) ∨
      ∃ l w, (DbWAL.updateOpStatus opId status timeElapsedMs).run s.wal = (.ret l, w)

namespace System
variable {s : System B A S T} {calls : List (CallMade S)} {d₀ : A}

omit [DecidableEq T] in
theorem Working.calls_completed (h : s.Working (Appended d₀)) (hcalls : s.placed = calls.filterMap CallMade.entry) :
    CompletedOnce d₀ calls s.toLogged := by
  obtain ⟨blocks, cur, hplaced, hinv⟩ := h.holds.log
  have hnodup : (s.placed.map Entry.ticket).Nodup := by
    rw [hplaced]
    exact hinv.tickets_nodup
  constructor
  case stored => exact ⟨blocks, cur, hplaced, hinv.device, hinv.filled_of_roomy h.roomy, hinv.count⟩
  case pending =>
    rw [hplaced]
    exact hinv.pending
  case nodup => exact hinv.pending_nodup
  case once =>
    intro l c r opId hsplit hc
    obtain ⟨ticket, status, hentry⟩ := hc.entry
    have heq : s.placed = l.filterMap CallMade.entry ++
        ⟨ticket, .completion opId status⟩ :: r.filterMap CallMade.entry := by
      rw [hcalls, hsplit, List.filterMap_append, List.filterMap_cons, hentry]
    obtain ⟨⟨op, hop⟩, hbefore, hafter⟩ := h.once.split heq
    obtain ⟨c', hc', hid, hbody⟩ := CallMade.mem_entries hop
    refine ⟨⟨c', hc', hid, op, hbody⟩, fun c₁ hc₁ hid₁ => ⟨hid₁, op, ?_⟩, fun c₁ hc₁ hcompletes => ?_⟩
    · have hmem : (⟨opId, c₁.body⟩ : Entry S) ∈ s.placed := by
        rw [hcalls]
        refine List.mem_filterMap.2 ⟨c₁, hc₁, ?_⟩
        rw [CallMade.entry, hid₁]
        rfl
      have hop : (⟨opId, .operation op⟩ : Entry S) ∈ s.placed := by
        rw [heq]
        exact List.mem_append_left _ hop
      exact congrArg Entry.body (List.inj_on_of_nodup_map hnodup hmem hop rfl)
    · rcases List.mem_append.1 hc₁ with hc₁ | hc₁
      · exact hbefore (CallMade.mem_of_completes hc₁ hcompletes)
      · exact hafter (CallMade.mem_of_completes hc₁ hcompletes)
  case marked =>
    rintro opId ⟨c, hc, hcompletes⟩
    have hmem : opId ∈ completedIds s.placed := by
      rw [hcalls]
      exact CallMade.mem_of_completes hc hcompletes
    obtain ⟨ticket, status, he⟩ := mem_completedIds.1 hmem
    obtain ⟨l, r, heq⟩ := List.append_of_mem he
    obtain ⟨hop, hbefore, hafter⟩ := h.once.split heq
    exact ⟨l, ticket, status, r, heq, hop, hbefore, hafter⟩
  case unmarked =>
    intro opId hnone hmem
    rw [hcalls] at hmem
    exact hnone (CallMade.completes_of_mem hmem)
  case rejected =>
    intro hdevice opId status now
    by_cases hpending : opId ∈ s.wal.pendingOperations
    · obtain ⟨l, w, hrun, -⟩ := Request.run_small (S := S) (r := .updateOpStatus opId status now) hinv h.roomy
        (Nat.le_of_ble_eq_true rfl) hdevice hpending
      exact .inr ⟨l, w, hrun⟩
    · exact .inl (run_updateOpStatus_refused hpending status now)

end System

/-- **Each operation is completed at most once**, in every run of small entries on a device that does not
fail. -/
theorem completedOnce (d : A) (filePath : String) {ls : List (Label S T)} {s : System B A S T}
    (hs : s = run System.step (.opened d filePath) ls) (hsmall : ∀ l ∈ ls, l.Small)
    (hdevice : Along System.step System.DeviceWorks (.opened d filePath : System B A S T) ls)
    (hissued : s.issued < 2 ^ 32) :
    CompletedOnce (StorageAdapter.open_ filePath .Write d).2
      ((System.opened d filePath : System B A S T).calls ls) s.toLogged := by
  subst hs
  obtain ⟨b, hb, hopened⟩ := System.opened_eq (B := B) (S := S) (T := T) d filePath
  have hroomy : (System.opened d filePath : System B A S T).wal.Roomy := by
    rw [hopened, DbWAL.Roomy, hb.pos]
    decide
  have hstart : (System.opened d filePath : System B A S T).Working
      (Appended (StorageAdapter.open_ filePath .Write d).2) :=
    ⟨(System.holds_opened .start).1, hroomy, Once.nil⟩
  have hrun := System.working_run (tracks_appended _) (fun _ _ _ _ h hrun => h.closed hrun) hstart hsmall hdevice
    hissued
  exact hrun.calls_completed (System.placed_run _ ls)

end

theorem not_appendFails_of_fits {A : Type} [StorageAdapter A] [LogDevice A] {d : A} (hok : ReadableAdapter.Ok d)
    (hfits : Fits A ((ReadableAdapter.bytes d).length + BlockSize)) : ¬ AppendFails d := by
  rintro ⟨block, d', hlen, hrun⟩
  rw [← hlen] at hfits
  obtain ⟨d₁, hret, -⟩ := LogDevice.append_ret hok hfits
  rw [hret] at hrun
  cases hrun

theorem not_appendFails_vector (d : VectorAdapter) : ¬ AppendFails d :=
  not_appendFails_of_fits (A := VectorAdapter) trivial trivial

open ByteSum in
theorem completedOnce_keyCalls :
    CompletedOnce (StorageAdapter.open_ "" .Write ({} : VectorAdapter)).2
      ((System.opened {} "" : System ListBuffer VectorAdapter keySchema Unit).calls keyCalls)
      (run System.step (System.opened {} "" : System ListBuffer VectorAdapter keySchema Unit) keyCalls).toLogged := by
  have hissued : (run System.step (System.opened {} "" : System ListBuffer VectorAdapter keySchema Unit)
      keyCalls).issued < 2 ^ 32 :=
    Nat.lt_of_le_of_lt (System.issued_run_le _ _) (by decide)
  have hdevice : Along System.step System.DeviceWorks
      (System.opened {} "" : System ListBuffer VectorAdapter keySchema Unit) keyCalls :=
    (Along.of_forall fun _ _ => trivial).mono fun s _ _ => not_appendFails_vector s.wal.logFile
  have hsmall : ∀ l ∈ keyCalls, l.Small := fun _ => keyCalls_small
  have hrun := completedOnce (B := ListBuffer) (S := keySchema) (T := Unit) ({} : VectorAdapter) ""
    (s := run System.step (System.opened {} "") keyCalls) rfl hsmall hdevice hissued
  exact hrun

end CppDb
