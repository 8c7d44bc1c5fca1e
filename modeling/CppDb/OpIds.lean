import CppDb.BlockContents
import CppDb.LogDevice
import CppDb.Moves
import CppDb.VerifyLogSpec

/-!
# Operation IDs in long runs

As long as `_lastOpId` has not come to its end, an ID that `registerOperation` returns differs from all that the
calls before it have taken; where it is not in the log from before either, it is new. The block with the entry is
written before the call returns (`idsRight_of_issued`). Nothing guards the end of the counter, after which the next ID
is 0, and a new `DbWAL` starts at 1 whatever is in the log (`not_idsRight`).
-/

namespace CppDb
open Embed Relation
open MemoryAdapter (Fits)
open ReadableAdapter (bytes)

/-- The IDs of the entries, up to `count` of them, that are not completion markers. -/
def entryIds : (count : ℕ) → Bytes → List OpID
  | 0, _ => []
  | n + 1, bs =>
    let wholeEntrySize := leNat (bs.take 2)
    if wholeEntrySize < MinItemSize ∨ bs.length < wholeEntrySize then []
    else if slice bs 6 1 = [markerID] then entryIds n (bs.drop wholeEntrySize)
    else UInt32.ofNat (leNat (slice bs 2 4)) :: entryIds n (bs.drop wholeEntrySize)

instance [Wheathash] : DecidablePred BadChecksum := fun _ => inferInstanceAs (Decidable (_ ≠ _))

/-- The same of up to `n` blocks. A block with a wrong checksum has no entries. -/
def blockIds [Wheathash] : (n : ℕ) → Bytes → List OpID
  | 0, _ => []
  | n + 1, log =>
    let block := log.take BlockSize
    let ids := if BadChecksum block then [] else entryIds (leNat (block.take 2)) (block.drop 2)
    ids ++ blockIds n (log.drop BlockSize)

/-- The IDs of the operations in a log. -/
def operationIds [Wheathash] (log : Bytes) : List OpID := blockIds (log.length / BlockSize) log

section
variable {S : Schema}

def operationTickets (es : List (Entry S)) : List OpID :=
  es.filterMap fun e => match e.body with
    | .operation _ => some e.ticket
    | .completion .. => none

theorem header_bytes (e : Entry S) (rest : Bytes) : ∃ code, slice (e.bytes ++ rest) 6 1 = [code] ∧
    (e.bytes ++ rest).take 2 = leBytes 2 e.body.size ∧ slice (e.bytes ++ rest) 2 4 = leBytes 4 e.id.toNat ∧
    (code = markerID ↔ ∃ opId status, e.body = .completion opId status) := by
  have htwo : (leBytes 2 e.body.size).length = 2 := length_leBytes ..
  have hfour : (leBytes 4 e.id.toNat).length = 4 := length_leBytes ..
  obtain ⟨code, payload, hpayload⟩ := List.exists_cons_of_length_pos e.body.payload_pos
  have hbytes : e.bytes ++ rest = leBytes 2 e.body.size ++ (leBytes 4 e.id.toNat ++ (code :: (payload ++ rest))) := by
    rw [Entry.bytes, hpayload, List.append_assoc, List.append_assoc]
    rfl
  have hsix : (e.bytes ++ rest).drop 6 = code :: (payload ++ rest) := by
    rw [hbytes, ← List.append_assoc, List.drop_left' (by rw [List.length_append, htwo, hfour])]
  refine ⟨code, ?_, ?_, ?_, ?_⟩
  · rw [slice, hsix]
    rfl
  · rw [hbytes, List.take_left' htwo]
  · rw [slice, hbytes, List.drop_left' htwo, List.take_left' hfour]
  · rcases e with ⟨ticket, op | ⟨opId, status⟩⟩
    · have hcode : code = op.opCode.toByte := (List.cons.inj hpayload).1.symm
      refine iff_of_false ?_ ?_
      · rw [hcode]
        cases op.opCode <;> decide
      · rintro ⟨opId, status, hbody⟩
        cases hbody
    · exact iff_of_true (List.cons.inj hpayload).1.symm ⟨opId, status, rfl⟩

theorem entryIds_entriesBytes {es : List (Entry S)} (hsize : ∀ e ∈ es, e.body.size < 65536) (rest : Bytes) :
    entryIds es.length (entriesBytes es ++ rest) = operationTickets es := by
  induction es with
  | nil => rfl
  | cons e es ih =>
    obtain ⟨he, hes⟩ := List.forall_mem_cons.1 hsize
    have hsize' : leNat (leBytes 2 e.body.size) = e.body.size := leNat_leBytes_of_lt he
    have hrest : (e.bytes ++ (entriesBytes es ++ rest)).drop e.body.size = entriesBytes es ++ rest :=
      List.drop_left' e.length_bytes
    have hcomplete : ¬ (e.body.size < MinItemSize ∨ (e.bytes ++ (entriesBytes es ++ rest)).length < e.body.size) := by
      rw [List.length_append, e.length_bytes]
      have hmin := e.body.minItemSize_le
      omega
    obtain ⟨code, hcode, htake, hid, hmarker⟩ := header_bytes e (entriesBytes es ++ rest)
    rw [entriesBytes_cons, List.append_assoc, List.length_cons, entryIds]
    simp only [htake, hsize', hcode, hid, hrest, ofNat_leNat_leBytes, if_neg hcomplete, ih hes]
    rcases e with ⟨ticket, op | ⟨opId, status⟩⟩
    · have hne : [code] ≠ [markerID] := fun h => nomatch hmarker.1 (List.cons.inj h).1
      rw [if_neg hne]
      rfl
    · rw [if_pos (congrArg (fun c => [c]) (hmarker.2 ⟨opId, status, rfl⟩))]
      rfl

variable [Wheathash]

/-- The operations of a log of good blocks are those of the entries. -/
theorem operationIds_blocks {blocks : List (List (Entry S))} (hblocks : ∀ es ∈ blocks, GoodBlock es) :
    operationIds (blocks.map encodeBlock).flatten = operationTickets blocks.flatten := by
  have hcount : (blocks.map encodeBlock).flatten.length / BlockSize = blocks.length := by
    rw [length_encodeBlocks hblocks]
    exact Nat.mul_div_cancel_left _ blockSize_pos
  rw [operationIds, hcount]
  clear hcount
  induction blocks with
  | nil => rfl
  | cons es blocks ih =>
    obtain ⟨hes, hrest⟩ := List.forall_mem_cons.1 hblocks
    have hroom := hes.room
    have hfit : 2 + (entriesBytes es).length ≤ BlockSize := by omega
    have hlen : (encodeBlock es).length = BlockSize := length_blockImage hfit
    have hsum : ¬ BadChecksum (encodeBlock es) := not_badChecksum_blockImage hfit
    have hcount : leNat ((encodeBlock es).take 2) = es.length := by
      rw [encodeBlock, count_blockImage hfit]
      exact leNat_leBytes_of_lt (Nat.lt_of_le_of_lt hes.length_le (by decide))
    have hbody : (encodeBlock es).drop 2 = entriesBytes es ++ (List.replicate (BlockSize - 6 - (entriesBytes es).length)
        0 ++ leBytes 4 (Wheathash.wheathash32 (unhashed es.length (entriesBytes es))).toNat) := by
      rw [encodeBlock, blockImage_eq hroom]
      exact List.drop_left' (length_leBytes ..)
    rw [List.map_cons, List.flatten_cons, List.length_cons, blockIds, List.take_left' hlen, List.drop_left' hlen,
      if_neg hsum, hcount, hbody, entryIds_entriesBytes hes.size_lt, ih hrest]
    exact List.filterMap_append.symm

end

namespace Numbers
variable {S : Schema} {n n' : Numbers} {placed : List (Entry S)}

/-- The entries placed before the block was started. -/
def beforeBlock (n : Numbers) (placed : List (Entry S)) : List (Entry S) :=
  placed.take (placed.length - n.blockItemCount)

theorem mem_beforeBlock_or {e : Entry S} (he : e ∈ placed) : e ∈ n.beforeBlock placed ∨ e ∈ n.inBlock placed := by
  rw [← List.mem_append, beforeBlock, inBlock, List.take_append_drop]
  exact he

theorem beforeBlock_madeRoom (hroom : n.MadeRoom n') {e : Entry S} (he : e ∈ n.beforeBlock placed) :
    e ∈ n'.beforeBlock placed := by
  rcases hroom with rfl | rfl
  · exact he
  · change e ∈ placed.take (placed.length - 0)
    rw [Nat.sub_zero, List.take_length]
    exact List.mem_of_mem_take he

theorem beforeBlock_place (pending : List OpID) (e : Entry S) :
    (n.place pending).beforeBlock (placed ++ [e]) = n.beforeBlock placed := by
  have hcount : (placed ++ [e]).length - (n.place pending).blockItemCount = placed.length - n.blockItemCount := by
    rw [List.length_append, List.length_singleton]
    exact Nat.add_sub_add_right ..
  rw [beforeBlock, hcount, List.take_append_of_le_length (Nat.sub_le ..)]
  rfl

end Numbers

theorem Request.takesId_operation {B : ℕ → Type} {A : Type} {S : Schema} {w : DbWAL B A} (r : Request S)
    {op : Operation S} (h : r.body = .operation op) : r.TakesId w ↔ (EntryBody.operation op).size ≤ BlockSize := by
  cases r with
  | registerOperation op' now =>
    cases h
    rfl
  | updateOpStatus opId status now => cases h

section
variable {B : ℕ → Type} [StaticDataBuffer B] {A : Type} [StorageAdapter A] [Wheathash] {S : Schema}
variable {T : Type} [DecidableEq T]

namespace System
variable {s s' : System B A S T} {l : Label S T} {ls : List (Label S T)}

/-- The entries placed before the block was started. -/
def beforeBlock (s : System B A S T) : List (Entry S) := s.wal.numbers.beforeBlock s.placed

/-- The entry of a call was placed before the block was started. -/
def PlacedBefore (s : System B A S T) (l : Locals) : Prop :=
  ∃ e ∈ s.beforeBlock, e.ticket = l.currentOpId ∧ e.bytes = l.entry

/-- Where the step is a registration that gets an ID, this is not 0, not the ID of a pending operation, and not that of
another operation that has been logged: those in `old` were in the log before. -/
def FreshId (old : List OpID) (s : System B A S T) (l : Label S T) : Prop :=
  ∀ c op id, s.callOf l = some c → c.body = .operation op → c.id = some id →
    id ≠ 0 ∧ id ∉ s.wal.pendingOperations ∧ id ∉ old ∧ ∀ op', (⟨id, .operation op'⟩ : Entry S) ∉ s.placed

/-- Where the step is a registration, the ID that it takes is not in the log from before. -/
def NewId (old : List OpID) (s : System B A S T) (l : Label S T) : Prop :=
  ∀ c op, s.callOf l = some c → c.body = .operation op → (EntryBody.operation op).size ≤ BlockSize →
    s.wal.lastOpId + 1 ∉ old

/-! ### Before the counter comes to its end -/

structure Ticketed (s : System B A S T) : Prop where
  numbered : s.Numbered
  tickets : ∀ e ∈ s.placed, 0 < e.ticket.toNat ∧ e.ticket.toNat ≤ s.wal.lastBlockOpId.toNat
  pending : ∀ id ∈ s.wal.pendingOperations, ∃ e ∈ s.placed, e.ticket = id
  waits : ∀ t l, (s.threads t).call = some l → s.Placed l
  returned : ∀ l ∈ s.returned, s.PlacedBefore l

namespace Ticketed

omit [StorageAdapter A] [Wheathash] [DecidableEq T] in
theorem setWal (h : s.Ticketed) {w : DbWAL B A} {aborted : Bool}
    (hnumbered : { s with wal := w, aborted := aborted }.Numbered)
    (hlast : s.wal.lastBlockOpId.toNat ≤ w.lastBlockOpId.toNat)
    (hpending : w.pendingOperations = s.wal.pendingOperations)
    (hbefore : ∀ e ∈ s.beforeBlock, e ∈ w.numbers.beforeBlock s.placed) :
    { s with wal := w, aborted := aborted }.Ticketed := by
  refine ⟨hnumbered, fun e he => ?_, ?_, h.waits, fun l hl => ?_⟩
  · obtain ⟨hpos, hle⟩ := h.tickets e he
    exact ⟨hpos, Nat.le_trans hle hlast⟩
  · change ∀ id ∈ w.pendingOperations, ∃ e ∈ s.placed, e.ticket = id
    rw [hpending]
    exact h.pending
  · obtain ⟨e, he, hsame⟩ := h.returned l hl
    exact ⟨e, hbefore e he, hsame⟩

omit [StorageAdapter A] [Wheathash] in
theorem waits_update (h : s.Ticketed) {t : T} {x : Thread} (hx : ∀ l, x.call = some l → s.Placed l) :
    ∀ t' l, (Function.update s.threads t x t').call = some l → s.Placed l := by
  intro t' l hl
  rcases Thread.call_update hl with hl | hl
  · exact hx l hl
  · exact h.waits t' l hl

omit [StorageAdapter A] [Wheathash] [DecidableEq T] in
theorem placedBefore_of_flushed (h : s.Ticketed) {t : T} {l : Locals} (hl : (s.threads t).call = some l)
    (hflushed : ¬ s.wal.lastFlushedOpId < l.currentOpId) : s.PlacedBefore l := by
  obtain ⟨e, he, hticket, hbytes⟩ := h.waits t l hl
  rcases Numbers.mem_beforeBlock_or (n := s.wal.numbers) he with he | he
  · exact ⟨e, he, hticket, hbytes⟩
  · have hlt := h.numbered.led.open_ _ (List.mem_map.2 ⟨e, he, rfl⟩)
    rw [hticket] at hlt
    exact absurd hlt hflushed

end Ticketed

omit [StorageAdapter A] [Wheathash] in
theorem Move.ticketed (hmove : Move s s') (h : s.Ticketed) : s'.Ticketed := by
  have hnumbered := hmove.numbered h.numbered
  cases hmove with
  | flush aborted hb hroom =>
    exact h.setWal hnumbered (Nat.le_of_eq (congrArg UInt32.toNat hroom.lastBlockOpId.symm)) hroom.pendingOperations
      fun e he => Numbers.beforeBlock_madeRoom hroom he
  | takeId => exact ⟨hnumbered, h.tickets, h.pending, h.waits, h.returned⟩
  | @setLastBlock w hb hn =>
    have hlast : w.lastBlockOpId = s.wal.lastOpId := congrArg Numbers.lastBlockOpId hn
    have hvalid := h.numbered.valid
    refine h.setWal hnumbered ?_ (congrArg Numbers.pendingOperations hn) fun e he => ?_
    · rw [hlast]
      exact Nat.le_trans hvalid.lastBlock_le (Nat.le_of_eq hvalid.lastOpId.symm)
    · rw [hn]
      exact he
  | @place t r l w pending ht hb hn hids hfresh hid hfirst hentry =>
    have hlast : w.lastBlockOpId = s.wal.lastOpId := congrArg Numbers.lastBlockOpId hn
    have hsame : w.pendingOperations = pending := congrArg Numbers.pendingOperations hn
    have hnew : (⟨l.currentOpId, r.body⟩ : Entry S) ∈ s.placed ++ [⟨l.currentOpId, r.body⟩] :=
      List.mem_append_right _ (List.mem_singleton_self _)
    have hsub : s.placed ⊆ s.placed ++ [⟨l.currentOpId, r.body⟩] := List.subset_append_left ..
    refine ⟨hnumbered, fun e he => ?_, fun id hmem => ?_, fun t' l' hl' => ?_, fun l' hl' => ?_⟩
    · change 0 < e.ticket.toNat ∧ e.ticket.toNat ≤ w.lastBlockOpId.toNat
      rw [hlast]
      rcases List.mem_append.1 he with he | he
      · obtain ⟨hpos, hle⟩ := h.tickets e he
        exact ⟨hpos, Nat.le_trans hle (Nat.le_of_lt hfresh)⟩
      · rw [List.mem_singleton.1 he, hid]
        exact ⟨Nat.lt_of_le_of_lt (Nat.zero_le _) hfresh, Nat.le_refl _⟩
    · change id ∈ w.pendingOperations at hmem
      rw [hsame] at hmem
      rcases hids id hmem with hmem | ⟨-, rfl⟩
      · obtain ⟨e, he, hticket⟩ := h.pending id hmem
        exact ⟨e, hsub he, hticket⟩
      · exact ⟨_, hnew, hid⟩
    · rcases Thread.call_update hl' with hl' | hl'
      · cases hl'
        exact ⟨_, hnew, rfl, hentry.symm⟩
      · obtain ⟨e, he, hsame⟩ := h.waits t' l' hl'
        exact ⟨e, hsub he, hsame⟩
    · change ∃ e ∈ w.numbers.beforeBlock (s.placed ++ [⟨l.currentOpId, r.body⟩]),
        e.ticket = l'.currentOpId ∧ e.bytes = l'.entry
      rw [hn, Numbers.beforeBlock_place]
      exact h.returned l' hl'
  | @goOn t x hx =>
    refine ⟨hnumbered, h.tickets, h.pending, h.waits_update fun l hl => ?_, h.returned⟩
    rw [hx] at hl
    exact h.waits t l hl
  | @finish t l hl hflushed =>
    refine ⟨hnumbered, h.tickets, h.pending, h.waits_update nofun, fun l' hl' => ?_⟩
    rcases List.mem_append.1 hl' with hl' | hl'
    · exact h.returned l' hl'
    · rw [List.mem_singleton.1 hl']
      exact h.placedBefore_of_flushed hl hflushed

theorem Ticketed.step (h : s.Ticketed) (l : Label S T) (hbound : (s.step l).issued < 2 ^ 32) : (s.step l).Ticketed :=
  invariant_moves (fun _ _ => Move.ticketed) (moves_step h.numbered l hbound) h

omit [Wheathash] [DecidableEq T] in
theorem ticketed_opened (d : A) (filePath : String) : (opened d filePath : System B A S T).Ticketed := by
  obtain ⟨b, hb, hopened⟩ := opened_eq (B := B) (S := S) (T := T) d filePath
  rw [hopened]
  have hvalid : Numbers.Valid (S := S) ⟨0, 0, 0, 0, []⟩ [] 0 :=
    ⟨Nat.le_refl 0, rfl, Nat.le_refl 0, Nat.le_refl _, fun _ he => absurd he List.not_mem_nil⟩
  exact {
    numbered := ⟨.of_filled hb (Nat.le_refl 2) (Nat.le_of_ble_eq_true rfl), hvalid, Batch.led_idle _⟩
    tickets := fun _ he => absurd he List.not_mem_nil
    pending := fun _ hid => absurd hid List.not_mem_nil
    waits := fun _ _ hl => nomatch hl
    returned := fun _ hl => absurd hl List.not_mem_nil }

/-- The IDs that a run takes are no larger than their number. -/
theorem Ticketed.along_newId (h : s.Ticketed) {old : List OpID} (hissued : (run System.step s ls).issued < 2 ^ 32)
    (hold : ∀ id ∈ old, (run System.step s ls).issued < id.toNat) : Along System.step (NewId old) s ls := by
  have hle := along_of_le_run (m := fun s : System B A S T => s.issued) (fun s l => (issued_step s l).1)
    (Nat.lt_succ_self (run System.step s ls).issued)
  refine Along.of_invariant (P := Ticketed) (fun s l hs hl => hs.step l hl.1) (fun s l hs hl c op hc hop hsize hmem => ?_)
    h ((along_issued hissued).and hle)
  obtain ⟨hbound, hl⟩ := hl
  obtain ⟨t, r, rfl, ha, ht, hbody, -⟩ := callOf_some hc
  rw [issued_request ha ht, if_pos ((r.takesId_operation (hbody.symm.trans hop)).2 hsize)] at hbound hl
  have hlast : (s.wal.lastOpId + 1).toNat = s.issued + 1 := (hs.numbered.valid.takeId hbound).lastOpId
  have hlt := hold _ hmem
  omega

/-- The ID of a registration is larger than all before it. -/
theorem Ticketed.freshId (h : s.Ticketed) {old : List OpID} {l : Label S T} (hnew : NewId old s l)
    (hbound : (s.step l).issued < 2 ^ 32) : FreshId old s l := by
  intro c op id hc hop hid
  obtain ⟨t, r, rfl, ha, ht, hbody, -, houtcome, -⟩ := callOf_some hc
  have hr : r.body = .operation op := hbody.symm.trans hop
  rcases Request.numbers h.numbered.bounded r with ⟨-, hrun⟩ | ⟨htakes, hcall⟩
  · rw [hid, hrun] at houtcome
    cases houtcome
  rw [issued_request ha ht, if_pos htakes] at hbound
  have hlast : (s.wal.lastOpId + 1).toNat = s.issued + 1 := (h.numbered.valid.takeId hbound).lastOpId
  generalize r.perform.run s.wal = x at hcall houtcome
  cases hcall with
  | failed =>
    rw [hid] at houtcome
    cases houtcome
  | @placed w₁ w' l pending hb₁ hroom hb hn hpending hticket =>
    have hsame : id = s.wal.lastOpId + 1 := by
      rw [hid] at houtcome
      exact (Option.some.inj houtcome).trans (hticket.trans hroom.lastOpId)
    subst hsame
    have hlt : ∀ e ∈ s.placed, e.ticket.toNat < (s.wal.lastOpId + 1).toNat := fun e he => by
      rw [hlast]
      exact Nat.lt_succ_of_le (Nat.le_trans (h.tickets e he).2 h.numbered.valid.lastBlock_le)
    refine ⟨fun h0 => ?_, fun hmem => ?_, hnew c op hc hop ((r.takesId_operation hr).1 htakes), fun op' hmem => ?_⟩
    · rw [h0] at hlast
      cases hlast
    · obtain ⟨e, he, hticket⟩ := h.pending _ hmem
      exact Nat.lt_irrefl _ (hticket ▸ hlt e he)
    · exact Nat.lt_irrefl _ (hlt _ hmem)

/-! ### With the log -/

variable {content : Traced A → Bytes}

/-- The entry of a call is in a block that was written to the log and flushed. -/
def Written (s : System B (Traced A) S T) (l : Locals) : Prop :=
  ∃ e ∈ s.placed, e.ticket = l.currentOpId ∧ e.bytes = l.entry ∧ BlockWritten s.wal.logFile.events e.bytes

/-- Every registration of the run gets a fresh ID, and when a call has returned, the block with its entry has been
written. `content` reads the log. -/
structure IdsRight (content : Traced A → Bytes) (s : System B (Traced A) S T) (ls : List (Label S T)) : Prop where
  fresh : Along step (FreshId (operationIds (content s.wal.logFile))) s ls
  returned : ∀ l ∈ (run step s ls).returned, (run step s ls).Written l

/-- What is known of the IDs and of the blocks. -/
structure Accounted (s : System B (Traced A) S T) : Prop where
  ticketed : s.Ticketed
  keeps : s.wal.Keeps s.placed

theorem Accounted.step {s : System B (Traced A) S T} (h : s.Accounted) (l : Label S T)
    (hbound : (s.step l).issued < 2 ^ 32) :
    (s.step l).Accounted :=
  ⟨h.ticketed.step l hbound, keeps_step h.keeps h.ticketed.numbered.bounded l⟩

omit [StorageAdapter A] [DecidableEq T] in
theorem Accounted.written {s : System B (Traced A) S T} (h : s.Accounted) {l : Locals} (hl : l ∈ s.returned) :
    s.Written l := by
  obtain ⟨e, he, hticket, hbytes⟩ := h.ticketed.returned l hl
  exact ⟨e, List.mem_of_mem_take he, hticket, hbytes, h.keeps.blockWritten he⟩

end System

/-- **Operation IDs**: in every run that takes fewer than `2 ^ 32` of them, and no registration one that is in the log
from before, a registration gets an ID that is not 0 and that no other operation has, and no call returns before the
block with its entry is written. -/
theorem idsRight_of_issued (content : Traced A → Bytes) (d : Traced A) (filePath : String) (ls : List (Label S T))
    {s : System B (Traced A) S T} (hs : s = .opened d filePath) (hissued : (run System.step s ls).issued < 2 ^ 32)
    (hnew : Along System.step (System.NewId (operationIds (content s.wal.logFile))) s ls) :
    s.IdsRight content ls := by
  have hopened : s.Accounted := by
    rw [hs]
    exact ⟨System.ticketed_opened d filePath, System.keeps_opened d filePath⟩
  have hbound := System.along_issued hissued
  exact {
    fresh := Along.of_invariant (P := System.Accounted) (fun s l hs hl => hs.step l hl.1)
      (fun s l hs hl => hs.ticketed.freshId hl.2 hl.1) hopened (hbound.and hnew)
    returned := fun l hl =>
      (Along.invariant (P := System.Accounted) (fun s l hs hl => hs.step l hl) hopened hbound).written hl }

end

/-- A log with one block, in which a deletion has the ID `id`. -/
def deleteLog [Wheathash] (id : OpID) : VectorAdapter :=
  { data := encodeBlock [⟨id, .operation (deleteKey [97])⟩] }

theorem operationIds_deleteLog [Wheathash] {id : OpID} (hid : id ≠ 0) : operationIds (bytes (deleteLog id)) = [id] := by
  have hgood : GoodBlock [(⟨id, .operation (deleteKey [97])⟩ : Entry keySchema)] := by
    refine ⟨List.cons_ne_nil _ _, ?_, fun e he => ?_⟩
    · have hsize := size_deleteKey_le [97] (by decide)
      rw [entriesBytes_cons, entriesBytes_nil, List.append_nil, Entry.length_bytes]
      exact Nat.le_trans (Nat.add_le_add_right hsize 6) (by decide)
    · cases List.mem_singleton.1 he
      exact hid
  have hblocks := operationIds_blocks (List.forall_mem_singleton.2 hgood)
  rwa [List.map_singleton, List.flatten_singleton] at hblocks

open ByteSum in
theorem idsRight_keyCalls :
    (System.opened { device := deleteLog 100 } "" : System ListBuffer (Traced VectorAdapter) keySchema Unit).IdsRight
      (fun t => bytes t.device) keyCalls := by
  obtain ⟨s, hs⟩ : ∃ s : System ListBuffer (Traced VectorAdapter) keySchema Unit,
    s = System.opened { device := deleteLog 100 } "" := ⟨_, rfl⟩
  have hissued : (run System.step s keyCalls).issued ≤ 7 := by
    rw [hs]
    exact System.issued_run_le _ _
  have hold : operationIds (bytes s.wal.logFile.device) = [100] := by
    rw [hs]
    exact operationIds_deleteLog (by decide)
  have hbound : (run System.step s keyCalls).issued < 2 ^ 32 := Nat.lt_of_le_of_lt hissued (by decide)
  have hopened : s.Ticketed := by
    rw [hs]
    exact System.ticketed_opened _ _
  have hright := idsRight_of_issued (fun t => bytes t.device) { device := deleteLog 100 } "" keyCalls hs hbound
    (hopened.along_newId hbound fun id hid => by
      rw [hold] at hid
      rw [List.mem_singleton.1 hid]
      exact Nat.lt_of_le_of_lt hissued (by decide))
  rw [hs] at hright
  exact hright

/-! ### The end of the counter -/

def deleteCall : Label keySchema Unit := .request () (.registerOperation (deleteKey [97]) 0)

/-- `k` registrations, each of which flushes its block and returns. -/
def flushedCalls (k : ℕ) : List (Label keySchema Unit) :=
  (List.replicate k [deleteCall, .poll () 50, .timeout ()]).flatten

section
variable {B : ℕ → Type} [StaticDataBuffer B] {s : System B (Traced VectorAdapter) keySchema Unit} {n k : ℕ}

/-- After `n` registrations have returned. -/
structure System.Rested (s : System B (Traced VectorAdapter) keySchema Unit) (n : ℕ) : Prop where
  resting : s.Resting ()
  lastFlushedOpId : s.wal.lastFlushedOpId = s.wal.lastOpId
  lastOpId : s.wal.lastOpId.toNat = n

theorem append_traced (data : Bytes) (t : Traced VectorAdapter) :
    ∃ t', (StorageIo.append data).run t = (.ret (), t') := by
  obtain ⟨d, hd, -⟩ := LogDevice.append_ret (A := VectorAdapter) (d := t.device) trivial
    (show Fits VectorAdapter (_ + data.length) from trivial)
  refine Proc.exists_run_eq ?_
  rw [Traced.exit_append, hd]

namespace System.Rested
variable [Wheathash]

theorem flushedCall (h : s.Rested n) (hn : n + 1 < 2 ^ 32) :
    (run System.step s [deleteCall, .poll () 50, .timeout ()]).Rested (n + 1) := by
  have hid : (s.wal.lastOpId + 1).toNat = n + 1 := by
    rw [UInt32.toNat_add, h.lastOpId]
    exact Nat.mod_eq_of_lt hn
  have hlt : s.wal.lastFlushedOpId < s.wal.lastOpId + 1 := by
    change s.wal.lastFlushedOpId.toNat < (s.wal.lastOpId + 1).toNat
    rw [h.lastFlushedOpId, hid, h.lastOpId]
    exact Nat.lt_succ_self n
  obtain ⟨d, hd⟩ := append_traced (blockImage 1 (Entry.bytes ⟨s.wal.lastOpId + 1, .operation (deleteKey [97])⟩))
    s.wal.logFile
  obtain ⟨b, hb, hrun⟩ := h.resting.run_registered _ 0 (size_deleteKey_le [97] (by decide)) hlt
    (show (50 : UInt64) - 0 ≥ System.timeOut by decide) hd
  rw [deleteCall, hrun]
  exact {
    resting := ⟨hb, rfl, rfl, h.resting.aborted⟩
    lastFlushedOpId := rfl
    lastOpId := hid }

theorem flushedCalls (h : s.Rested n) (hk : n + k < 2 ^ 32) : (run System.step s (flushedCalls k)).Rested (n + k) := by
  induction k with
  | zero => exact h
  | succ k ih =>
    rw [CppDb.flushedCalls, List.replicate_succ', List.flatten_append, List.flatten_singleton, run_append]
    exact (ih (Nat.lt_of_succ_lt hk)).flushedCall hk

theorem not_freshId (h : s.Rested n) {old : List OpID} (hid : s.wal.lastOpId + 1 = 0 ∨ s.wal.lastOpId + 1 ∈ old) :
    ¬ System.FreshId old s deleteCall := by
  obtain ⟨b, hrun, -⟩ := registerOperation_first (size_deleteKey_le [97] (by decide)) h.resting.block
    h.resting.blockItemCount 0
  intro hfresh
  have houtcome : outcome ((Request.registerOperation (deleteKey [97]) 0).perform.run s.wal).1 =
      some (s.wal.lastOpId + 1) := by
    rw [Request.perform, hrun]
    rfl
  obtain ⟨hne, -, hnew, -⟩ :=
    hfresh _ (deleteKey [97]) _ (System.callOf_request h.resting.aborted h.resting.idle) rfl houtcome
  rcases hid with hid | hid
  · exact hne hid
  · exact hnew hid

end System.Rested

theorem System.rested_opened (d : Traced VectorAdapter) :
    (System.opened d "" : System B (Traced VectorAdapter) keySchema Unit).Rested 0 := by
  obtain ⟨b, hb, hopened⟩ := System.opened_eq (B := B) (S := keySchema) (T := Unit) d ""
  rw [hopened]
  exact ⟨⟨hb, rfl, rfl, rfl⟩, rfl, rfl⟩

variable [Wheathash] {content : Traced VectorAdapter → Bytes}

theorem not_idsRight_of_wrap (d : Traced VectorAdapter) (hk : k + 1 = 2 ^ 32) :
    ¬ (System.opened d "" : System B (Traced VectorAdapter) keySchema Unit).IdsRight content
      (flushedCalls k ++ [deleteCall]) := by
  intro h
  have hrested := (System.rested_opened (B := B) d).flushedCalls (k := k) (by omega)
  rw [Nat.zero_add] at hrested
  refine hrested.not_freshId (.inl ?_) (Along.append_iff.1 h.fresh).2.1
  refine UInt32.toNat_inj.1 ?_
  rw [UInt32.toNat_add, hrested.lastOpId]
  change (k + 1) % 2 ^ 32 = 0
  rw [hk, Nat.mod_self]

end

open ByteSum in
/-- After `2 ^ 32 - 1` registrations that have returned, the next one gets the ID 0; the first one gets the ID 1 also
where the log has an operation with that ID. -/
theorem not_idsRight :
    ¬ (System.opened { device := {} } "" : System ListBuffer (Traced VectorAdapter) keySchema Unit).IdsRight
        (fun t => bytes t.device) (flushedCalls (2 ^ 32 - 1) ++ [deleteCall]) ∧
      ¬ (System.opened { device := deleteLog 1 } "" : System ListBuffer (Traced VectorAdapter) keySchema Unit).IdsRight
        (fun t => bytes t.device) [deleteCall] := by
  refine ⟨not_idsRight_of_wrap _ rfl, fun h => ?_⟩
  have hold : operationIds (bytes (deleteLog 1)) = [1] := operationIds_deleteLog (by decide)
  refine (System.rested_opened (B := ListBuffer) _).not_freshId (.inr ?_) h.fresh.1
  change (1 : OpID) ∈ operationIds (bytes (deleteLog 1))
  rw [hold]
  exact List.mem_singleton_self _

end CppDb
