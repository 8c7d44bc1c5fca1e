import CppDb.WalBlock

/-!
# The invariant of the log

`Inv D w blocks cur issued`: the WAL `w` has handed out `issued` IDs, flushed the entries `blocks` and
holds the entries `cur` in its block. `D` is what is known of the device after those blocks: it is a
parameter, so that the same lemmas serve devices that never fail, devices that do, and devices that
keep a record of their calls; `Tracks D` and, where the log is closed, `Closes D` are all that is asked
of it. There is a lemma for each thing
that a critical section does: take an ID, flush, place an entry.
-/

namespace CppDb
open Embed

/-- `D` follows the device through appends. -/
structure Tracks {A : Type} [StorageAdapter A] [Wheathash] {S : Schema}
    (D : A → List (List (Entry S)) → Prop) : Prop where
  append_ret {d d' : A} {blocks : List (List (Entry S))} {es : List (Entry S)} (h : D d blocks)
    (hes : GoodBlock es) (hrun : (StorageIo.append (encodeBlock es)).run d = (.ret (), d')) :
    D d' (blocks ++ [es])
  append_fail {d d' : A} {blocks : List (List (Entry S))} {es : List (Entry S)} (h : D d blocks)
    (hes : GoodBlock es) (hrun : (StorageIo.append (encodeBlock es)).run d = (.fail, d')) : D d' blocks

/-- `D` says nothing that closing the device changes. -/
def Closes {A : Type} [StorageAdapter A] {S : Schema} (D : A → List (List (Entry S)) → Prop) : Prop :=
  ∀ ⦃d d' : A⦄ ⦃blocks : List (List (Entry S))⦄ ⦃x : Exit Unit⦄, D d blocks →
    StorageIo.close.run d = (x, d') → D d' blocks

section
variable {B : ℕ → Type} [StaticDataBuffer B] {A : Type} [Wheathash] {S : Schema}

/-- The block buffer holds the entries `es`. -/
inductive BlockHolds (b : StaticBufferAdapter B BlockSize) : List (Entry S) → Prop
  | filling {es : List (Entry S)} (h : Filled b (entriesBytes es) (2 + (entriesBytes es).length))
      (room : (entriesBytes es).length + 6 ≤ BlockSize) : BlockHolds b es
  /-- After a failed append. -/
  | finished {es : List (Entry S)} (ne : es ≠ []) (h : Filled b ((encodeBlock es).drop 2) BlockSize)
      (room : (entriesBytes es).length + 6 ≤ BlockSize) : BlockHolds b es
  /-- After an attempt to flush an empty block: the next entry would go over the item count. -/
  | rewound (h : Filled b [] 0) : BlockHolds b []

structure Inv (D : A → List (List (Entry S)) → Prop) (w : DbWAL B A) (blocks : List (List (Entry S)))
    (cur : List (Entry S)) (issued : ℕ) : Prop where
  device : D w.logFile blocks
  good : ∀ es ∈ blocks, GoodBlock es
  block : BlockHolds w.block cur
  count : w.blockItemCount = cur.length
  lastOpId : w.lastOpId.toNat = issued
  lastBlock_le : w.lastBlockOpId.toNat ≤ issued
  lastFlushed_le : w.lastFlushedOpId.toNat ≤ w.lastBlockOpId.toNat
  sorted : (blocks.flatten ++ cur).Pairwise fun e f => e.ticket.toNat < f.ticket.toNat
  ticket_pos : ∀ e ∈ blocks.flatten ++ cur, 0 < e.ticket.toNat
  ticket_le : ∀ e ∈ blocks.flatten ++ cur, e.ticket.toNat ≤ w.lastBlockOpId.toNat
  flushed : ∀ e ∈ blocks.flatten, e.ticket.toNat ≤ w.lastFlushedOpId.toNat
  notFlushed : ∀ e ∈ cur, w.lastFlushedOpId.toNat < e.ticket.toNat
  pending : w.pendingOperations = (unfinished (blocks.flatten ++ cur)).map Prod.fst
  completed : ∀ id ∈ completedIds (blocks.flatten ++ cur),
    ∃ op, (⟨id, .operation op⟩ : Entry S) ∈ blocks.flatten ++ cur

section Entries
omit [Wheathash]

theorem unfinished_append_operation {es : List (Entry S)} {ticket : OpID} (op : Operation S)
    (h : ticket ∉ completedIds es) :
    unfinished (es ++ [⟨ticket, .operation op⟩]) = unfinished es ++ [(ticket, op)] := by
  have hcompleted : completedIds (es ++ [⟨ticket, .operation op⟩]) = completedIds es := by
    rw [completedIds_append]; simp [completedIds]
  rw [unfinished, hcompleted, operationsNotIn_append, operationsNotIn_operation h]
  rfl

theorem unfinished_append_completion (es : List (Entry S)) (ticket opId : OpID) (status : OpStatus) :
    unfinished (es ++ [⟨ticket, .completion opId status⟩]) = (unfinished es).filter (·.1 ≠ opId) := by
  have hcompleted : completedIds (es ++ [⟨ticket, .completion opId status⟩]) =
      completedIds es ++ [opId] := by
    rw [completedIds_append]; rfl
  have hnone : operationsNotIn (completedIds es ++ [opId])
      ([⟨ticket, .completion opId status⟩] : List (Entry S)) = [] := rfl
  rw [unfinished, hcompleted, operationsNotIn_append, hnone, List.append_nil, unfinished,
    operationsNotIn, operationsNotIn, List.filter_filterMap]
  refine List.filterMap_congr fun e _ => ?_
  rcases e with ⟨t, op | ⟨id, st⟩⟩
  · by_cases hmem : t ∈ completedIds es
    · simp [hmem]
    · by_cases hid : t = opId
      · subst hid; simp [hmem, Option.filter]
      · simp [hmem, hid, Option.filter]
  · rfl

theorem unfinished_sublist (es : List (Entry S)) :
    ((unfinished es).map Prod.fst).Sublist (es.map Entry.ticket) := by
  rw [unfinished]
  generalize completedIds es = completed
  induction es with
  | nil => exact List.Sublist.slnil
  | cons e es ih =>
    rw [show e :: es = [e] ++ es from rfl, operationsNotIn_append, List.map_append, List.map_append]
    refine List.Sublist.append ?_ ih
    rcases e with ⟨t, op | ⟨id, st⟩⟩
    · by_cases hmem : t ∈ completed <;> simp [operationsNotIn, hmem]
    · simp [operationsNotIn]

end Entries

section Position
omit [Wheathash]
variable {w : DbWAL B A} {d : ℕ}

theorem newBlockRequired_iff (h : w.block.pos + 6 ≤ BlockSize) :
    w.newBlockRequiredForData d = true ↔ BlockSize < w.block.pos + d + 33 := by
  have hrem : w.block.remainingCapacity = BlockSize - w.block.pos := rfl
  rw [DbWAL.newBlockRequiredForData, hrem, decide_eq_true_iff, subSizeT, subSizeT, MinItemSize]
  simp only [BlockSize] at h ⊢
  omega

/-- Near the end of the block the subtraction wraps around. -/
theorem newBlockRequired_of_gt (h : BlockSize < w.block.pos + 6) (hle : w.block.pos ≤ BlockSize)
    (hd : d ≤ BlockSize) : w.newBlockRequiredForData d = false := by
  have hrem : w.block.remainingCapacity = BlockSize - w.block.pos := rfl
  rw [DbWAL.newBlockRequiredForData, hrem, decide_eq_false_iff_not, subSizeT, subSizeT, MinItemSize]
  simp only [BlockSize] at h hle hd ⊢
  omega

end Position

/-! ### What keeps the invariant -/

namespace Inv
variable {D : A → List (List (Entry S)) → Prop} {w : DbWAL B A} {blocks : List (List (Entry S))}
variable {cur : List (Entry S)} {issued : ℕ}

theorem room (h : Inv D w blocks cur issued) : (entriesBytes cur).length + 6 ≤ BlockSize := by
  cases h.block with
  | filling _ room => exact room
  | finished _ _ room => exact room
  | rewound => exact Nat.le_of_ble_eq_true rfl

theorem filled (h : Inv D w blocks cur issued) :
    ∃ body p, Filled w.block body p ∧ blockImage cur.length body = encodeBlock cur := by
  have hroom := h.room
  cases h.block with
  | filling hb => exact ⟨_, _, hb, rfl⟩
  | finished _ hb => exact ⟨_, _, hb, blockImage_drop (by omega)⟩
  | rewound hb => exact ⟨_, _, hb, rfl⟩

theorem pos_le (h : Inv D w blocks cur issued) : w.block.pos ≤ BlockSize := by
  have hroom := h.room
  cases h.block with
  | filling hb => rw [hb.pos]; omega
  | finished _ hb => exact Nat.le_of_eq hb.pos
  | rewound hb => rw [hb.pos]; exact Nat.zero_le _

theorem id_mem (h : Inv D w blocks cur issued) {id : OpID}
    (hid : id ∈ completedIds (blocks.flatten ++ cur)) :
    0 < id.toNat ∧ id.toNat ≤ w.lastBlockOpId.toNat :=
  let ⟨_, hop⟩ := h.completed id hid
  ⟨h.ticket_pos _ hop, h.ticket_le _ hop⟩

theorem id_ne (h : Inv D w blocks cur issued) {e : Entry S} (he : e ∈ blocks.flatten ++ cur) : e.id ≠ 0 := by
  intro h0
  have hpos : 0 < e.id.toNat := by
    rcases e with ⟨ticket, op | ⟨opId, status⟩⟩
    · exact h.ticket_pos _ he
    · have hopId : opId ∈ completedIds (blocks.flatten ++ cur) := List.mem_filterMap.2 ⟨_, he, rfl⟩
      exact (h.id_mem hopId).1
  rw [h0] at hpos
  exact Nat.lt_irrefl 0 hpos

theorem goodBlock (h : Inv D w blocks cur issued) (hne : cur ≠ []) : GoodBlock cur where
  ne_nil := hne
  room := h.room
  id_ne _ he := h.id_ne (List.mem_append_right _ he)

theorem tickets_nodup (h : Inv D w blocks cur issued) : ((blocks.flatten ++ cur).map Entry.ticket).Nodup := by
  refine List.pairwise_map.2 (h.sorted.imp fun hlt heq => ?_)
  rw [heq] at hlt
  exact Nat.lt_irrefl _ hlt

theorem pending_nodup (h : Inv D w blocks cur issued) : w.pendingOperations.Nodup := by
  rw [h.pending]
  exact (unfinished_sublist _).nodup h.tickets_nodup

theorem setBlock (h : Inv D w blocks cur issued) {b : StaticBufferAdapter B BlockSize}
    (hb : BlockHolds b cur) : Inv D { w with block := b } blocks cur issued :=
  { h with block := hb }

theorem ticket (h : Inv D w blocks cur issued) (hbound : issued + 1 < 2 ^ 32) :
    Inv D { w with lastOpId := w.lastOpId + 1 } blocks cur (issued + 1) :=
  { h with
    lastOpId := by
      change (w.lastOpId + 1).toNat = issued + 1
      rw [UInt32.toNat_add, h.lastOpId]
      exact Nat.mod_eq_of_lt hbound
    lastBlock_le := Nat.le_succ_of_le h.lastBlock_le }

theorem lastBlock (h : Inv D w blocks cur issued) :
    Inv D { w with lastBlockOpId := w.lastOpId } blocks cur issued := by
  have hle : w.lastBlockOpId.toNat ≤ w.lastOpId.toNat := by rw [h.lastOpId]; exact h.lastBlock_le
  exact { h with
    lastBlock_le := Nat.le_of_eq h.lastOpId
    lastFlushed_le := Nat.le_trans h.lastFlushed_le hle
    ticket_le := fun e he => Nat.le_trans (h.ticket_le e he) hle }

/-! #### Flushing -/

/-- What a flush leaves alone; the last flushed ID only grows. -/
structure Keeps (w w' : DbWAL B A) : Prop where
  lastOpId : w'.lastOpId = w.lastOpId
  lastBlockOpId : w'.lastBlockOpId = w.lastBlockOpId
  pendingOperations : w'.pendingOperations = w.pendingOperations
  lastFlushed_le : w.lastFlushedOpId.toNat ≤ w'.lastFlushedOpId.toNat

variable [StorageAdapter A]

/-- The block went to the log. -/
theorem finalize_ret (hD : Tracks D) (h : Inv D w blocks cur issued) (hne : cur ≠ []) {d : A}
    (hd : (StorageIo.append (encodeBlock cur)).run w.logFile = (.ret (), d)) :
    ∃ w', DbWAL.finalizeAndflushCurrentBlock.run w = (.ret (), w') ∧ Keeps w w' ∧ w'.logFile = d ∧
      w'.lastFlushedOpId = w.lastBlockOpId ∧ Filled w'.block [] 2 ∧ Inv D w' (blocks ++ [cur]) [] issued := by
  obtain ⟨body, p, hb, himage⟩ := h.filled
  have hgood := h.goodBlock hne
  have hcount := h.count
  have hpos := List.length_pos_iff.2 hne
  have hlen : cur.length ≤ 585 := hgood.length_le
  obtain ⟨b, hb', hrun⟩ := DbWAL.run_finalize_ret hb (by omega) (by omega) (by rw [hcount, himage]; exact hd)
  have hflat : (blocks ++ [cur]).flatten ++ [] = blocks.flatten ++ cur := by simp
  refine ⟨_, hrun, ⟨rfl, rfl, rfl, h.lastFlushed_le⟩, rfl, rfl, hb', ?_⟩
  exact {
    device := hD.append_ret h.device hgood hd
    good := fun es hes => by
      rcases List.mem_append.1 hes with hes | hes
      · exact h.good es hes
      · rw [List.mem_singleton.1 hes]; exact hgood
    block := .filling hb' (Nat.le_of_ble_eq_true rfl)
    count := rfl
    lastOpId := h.lastOpId
    lastBlock_le := h.lastBlock_le
    lastFlushed_le := Nat.le_refl _
    sorted := by rw [hflat]; exact h.sorted
    ticket_pos := by rw [hflat]; exact h.ticket_pos
    ticket_le := by rw [hflat]; exact h.ticket_le
    flushed := fun e he => h.ticket_le e (by simpa using he)
    notFlushed := fun e he => absurd he List.not_mem_nil
    pending := by rw [hflat]; exact h.pending
    completed := by rw [hflat]; exact h.completed }

/-- The device failed: the block stays. -/
theorem finalize_fail (hD : Tracks D) (h : Inv D w blocks cur issued) (hne : cur ≠ []) {d : A}
    (hd : (StorageIo.append (encodeBlock cur)).run w.logFile = (.fail, d)) :
    ∃ w', DbWAL.finalizeAndflushCurrentBlock.run w = (.fail, w') ∧ Keeps w w' ∧ w'.logFile = d ∧
      w'.block.pos = BlockSize ∧ Inv D w' blocks cur issued := by
  obtain ⟨body, p, hb, himage⟩ := h.filled
  have hgood := h.goodBlock hne
  have hcount := h.count
  have hpos := List.length_pos_iff.2 hne
  have hlen : cur.length ≤ 585 := hgood.length_le
  obtain ⟨b, hb', hrun⟩ := DbWAL.run_finalize_fail hb (by omega) (by omega) (by rw [hcount, himage]; exact hd)
  refine ⟨_, hrun, ⟨rfl, rfl, rfl, Nat.le_refl _⟩, rfl, hb'.pos, ?_⟩
  rw [hcount, himage] at hb'
  exact { h with
    device := hD.append_fail h.device hgood hd
    block := .finished hne hb' h.room }

theorem finalize_empty (h : Inv D w blocks [] issued) :
    ∃ w', DbWAL.finalizeAndflushCurrentBlock.run w = (.fail, w') ∧ Keeps w w' ∧
      w'.block.pos = 0 ∧ Inv D w' blocks [] issued := by
  have hfill : Filled w.block [] w.block.pos := by
    have hroom := h.room
    rcases h.block with hb | ⟨hne, -, -⟩ | hb
    · rwa [hb.pos]
    · exact absurd rfl hne
    · rwa [hb.pos]
  have hb := hfill.seek (q := 0) (Nat.zero_le _)
  exact ⟨_, DbWAL.run_finalize_empty h.count, ⟨rfl, rfl, rfl, Nat.le_refl _⟩, hb.pos, h.setBlock (.rewound hb)⟩

/-! #### Placing an entry -/

omit [StorageAdapter A]

theorem sorted_place (h : Inv D w blocks cur issued) (hfresh : w.lastBlockOpId.toNat < w.lastOpId.toNat)
    (body : EntryBody S) :
    (blocks.flatten ++ (cur ++ [(⟨w.lastOpId, body⟩ : Entry S)])).Pairwise
      fun e f => e.ticket.toNat < f.ticket.toNat := by
  rw [← List.append_assoc, List.pairwise_append]
  refine ⟨h.sorted, List.pairwise_singleton _ _, fun e he f hf => ?_⟩
  rw [List.mem_singleton.1 hf]
  exact Nat.lt_of_le_of_lt (h.ticket_le e he) hfresh

/-- All that placing an entry has in common for the two kinds of calls. -/
theorem place (h : Inv D w blocks cur issued) (hfresh : w.lastBlockOpId.toNat < w.lastOpId.toNat)
    (body : EntryBody S) {b : StaticBufferAdapter B BlockSize}
    (hb : BlockHolds b (cur ++ [⟨w.lastOpId, body⟩])) {pending : List OpID} {processed : ℕ}
    (hpending : pending =
      (unfinished (blocks.flatten ++ (cur ++ [(⟨w.lastOpId, body⟩ : Entry S)]))).map Prod.fst)
    (hcompleted : ∀ id ∈ completedIds [(⟨w.lastOpId, body⟩ : Entry S)],
      ∃ op, (⟨id, .operation op⟩ : Entry S) ∈ blocks.flatten ++ cur) :
    Inv D { w with
      lastBlockOpId := w.lastOpId, block := b, blockItemCount := w.blockItemCount + 1
      pendingOperations := pending, operationsProcessed := processed }
      blocks (cur ++ [⟨w.lastOpId, body⟩]) issued where
  device := h.device
  good := h.good
  block := hb
  count := by simp [h.count]
  lastOpId := h.lastOpId
  lastBlock_le := Nat.le_of_eq h.lastOpId
  lastFlushed_le := Nat.le_trans h.lastFlushed_le (Nat.le_of_lt hfresh)
  sorted := h.sorted_place hfresh body
  ticket_pos e he := by
    rw [← List.append_assoc] at he
    rcases List.mem_append.1 he with he | he
    · exact h.ticket_pos e he
    · rw [List.mem_singleton.1 he]; exact Nat.lt_of_le_of_lt (Nat.zero_le _) hfresh
  ticket_le e he := by
    rw [← List.append_assoc] at he
    rcases List.mem_append.1 he with he | he
    · exact Nat.le_trans (h.ticket_le e he) (Nat.le_of_lt hfresh)
    · rw [List.mem_singleton.1 he]
  flushed := h.flushed
  notFlushed e he := by
    rcases List.mem_append.1 he with he | he
    · exact h.notFlushed e he
    · rw [List.mem_singleton.1 he]; exact Nat.lt_of_le_of_lt h.lastFlushed_le hfresh
  pending := hpending
  completed id hid := by
    rw [← List.append_assoc, completedIds_append] at hid
    rw [← List.append_assoc]
    rcases List.mem_append.1 hid with hid | hid
    · exact (h.completed id hid).imp fun _ hop => List.mem_append_left _ hop
    · exact (hcompleted id hid).imp fun _ hop => List.mem_append_left _ hop

theorem place_operation (h : Inv D w blocks cur issued)
    (hfresh : w.lastBlockOpId.toNat < w.lastOpId.toNat) {op : Operation S} {b : StaticBufferAdapter B BlockSize}
    (hb : BlockHolds b (cur ++ [⟨w.lastOpId, .operation op⟩])) {processed : ℕ} :
    Inv D { w with
      lastBlockOpId := w.lastOpId, block := b, blockItemCount := w.blockItemCount + 1
      pendingOperations := w.pendingOperations ++ [w.lastOpId], operationsProcessed := processed }
      blocks (cur ++ [⟨w.lastOpId, .operation op⟩]) issued := by
  refine h.place hfresh (.operation op) hb ?_ (fun id hid => absurd hid (by simp [completedIds]))
  have hnew : w.lastOpId ∉ completedIds (blocks.flatten ++ cur) :=
    fun hid => absurd (h.id_mem hid).2 (Nat.not_le.2 hfresh)
  rw [← List.append_assoc, unfinished_append_operation op hnew, List.map_append, ← h.pending]
  rfl

theorem place_completion (h : Inv D w blocks cur issued)
    (hfresh : w.lastBlockOpId.toNat < w.lastOpId.toNat) {opId : OpID} (hid : opId ∈ w.pendingOperations)
    (status : OpStatus) {b : StaticBufferAdapter B BlockSize}
    (hb : BlockHolds b (cur ++ [⟨w.lastOpId, .completion opId status⟩])) {processed : ℕ} :
    Inv D { w with
      lastBlockOpId := w.lastOpId, block := b, blockItemCount := w.blockItemCount + 1
      pendingOperations := w.pendingOperations.erase opId, operationsProcessed := processed }
      blocks (cur ++ [⟨w.lastOpId, .completion opId status⟩]) issued := by
  refine h.place hfresh (.completion opId status) hb ?_ fun id hmem => ?_
  · rw [← List.append_assoc, unfinished_append_completion, h.pending_nodup.erase_eq_filter, h.pending,
      List.filter_map]
    congr 1
    exact List.filter_congr fun x _ => by by_cases hx : x.1 = opId <;> simp [hx]
  · have heq : id = opId := by simpa [completedIds] using hmem
    rw [h.pending] at hid
    obtain ⟨x, hx, rfl⟩ := List.mem_map.1 hid
    exact ⟨x.2, heq ▸ (mem_unfinished.1 hx).1⟩

end Inv

end

end CppDb
