import CppDb.WalInv

/-!
# What the critical sections do

`CallSpec` lists what can come of a call that wants an entry in the log: the entry is placed, or the
call takes an ID and fails, or it is refused before it touches anything. `registerOperation_spec` and
`updateOpStatus_spec` say so of the two kinds of calls, under the one condition that the space check
lets the entry go where it can be read back (`RoomOk`).
-/

namespace CppDb
open Embed

section
variable {B : ℕ → Type} [StaticDataBuffer B] {A : Type} [StorageAdapter A] [Wheathash] {S : Schema}
variable {D : A → List (List (Entry S)) → Prop} {w : DbWAL B A} {blocks : List (List (Entry S))}
variable {cur : List (Entry S)} {issued size : ℕ}

/-- The entry does not end up under the item count or under the checksum: with a new block, either
there is nothing to flush, or the entry leaves room for the checksum, or it is too large to be
stored at all; without one, the position is past the item count. -/
def RoomOk (w : DbWAL B A) (size : ℕ) : Prop :=
  if w.newBlockRequiredForData size then
    w.blockItemCount = 0 ∨ size + 6 ≤ BlockSize ∨ BlockSize < size + 2
  else 2 ≤ w.block.pos

omit [StorageAdapter A] [Wheathash] in
theorem RoomOk.ticket (h : RoomOk w size) (id : OpID) : RoomOk { w with lastOpId := id } size := by
  have hreq : ({ w with lastOpId := id } : DbWAL B A).newBlockRequiredForData size =
      w.newBlockRequiredForData size := by
    rw [DbWAL.newBlockRequiredForData, DbWAL.newBlockRequiredForData]
  unfold RoomOk at h ⊢
  rw [hreq]
  exact h

/-- There is room for an entry of `size` bytes after the entries `cur`. -/
def FitsBlock (w : DbWAL B A) (cur : List (Entry S)) (size : ℕ) : Prop :=
  Filled w.block (entriesBytes cur) (2 + (entriesBytes cur).length) ∧
    (entriesBytes cur).length + size + 6 ≤ BlockSize

omit [StorageAdapter A] [Wheathash] in
theorem FitsBlock.size_le (h : FitsBlock w cur size) : size + 6 ≤ BlockSize :=
  Nat.le_trans (Nat.add_le_add_right (Nat.le_add_left ..) 6) h.2

theorem run_makeRoom (w : DbWAL B A) (size : ℕ) :
    (DbWAL.makeRoom false size).run w =
      if w.newBlockRequiredForData size then DbWAL.finalizeAndflushCurrentBlock.run w else (.ret (), w) := by
  rw [DbWAL.makeRoom, Proc.run_read_bind, Proc.run_ite]
  rfl

theorem makeRoom_here (h : w.block.pos + size + 33 ≤ BlockSize) :
    (DbWAL.makeRoom false size).run w = (.ret (), w) := by
  rw [run_makeRoom, if_neg]
  rw [newBlockRequired_iff (by omega)]
  omega

theorem makeRoom_flush (hpos : w.block.pos + 6 ≤ BlockSize) (h : BlockSize < w.block.pos + size + 33)
    {x : Exit Unit} {w' : DbWAL B A} (hrun : DbWAL.finalizeAndflushCurrentBlock.run w = (x, w')) :
    (DbWAL.makeRoom false size).run w = (x, w') := by
  rw [run_makeRoom, if_pos ((newBlockRequired_iff hpos).2 h), hrun]

omit [StorageAdapter A] in
theorem Inv.fits_of_not_required (h : Inv D w blocks cur issued) (hmin : MinItemSize ≤ size)
    (hreq : w.newBlockRequiredForData size = false) (hpos : 2 ≤ w.block.pos) :
    FitsBlock w cur size ∨ BlockSize < w.block.pos + size ∧ BlockSize < w.block.pos + 6 := by
  by_cases hle : w.block.pos + 6 ≤ BlockSize
  · have hroom : w.block.pos + size + 33 ≤ BlockSize := by
      have hnot := mt (newBlockRequired_iff (d := size) hle).2 (by rw [hreq]; exact Bool.false_ne_true)
      omega
    cases h.block with
    | filling hb room =>
      rw [hb.pos] at hroom
      exact .inl ⟨hb, by omega⟩
    | finished _ hb => rw [hb.pos] at hle; omega
    | rewound hb => rw [hb.pos] at hpos; omega
  · have hlt : BlockSize < w.block.pos + MinItemSize := by simp only [MinItemSize]; omega
    exact .inr ⟨by omega, Nat.not_le.1 hle⟩

/-- The largest entry that an empty block takes. -/
def MaxEntrySize : ℕ := BlockSize - 35

/-- Only an entry that is too large for an empty block rewinds one. -/
def NotRewound (w w' : DbWAL B A) (size : ℕ) : Prop :=
  2 ≤ w.block.pos → size ≤ MaxEntrySize ∨ w.blockItemCount ≠ 0 → 2 ≤ w'.block.pos

/-- There is room for an entry of `size` bytes, if need be after a flush that goes well. -/
def Admits (w : DbWAL B A) (cur : List (Entry S)) (size : ℕ) : Prop :=
  size + 6 ≤ BlockSize ∧ w.block.pos + 6 ≤ BlockSize ∧ (w.newBlockRequiredForData size = true →
    cur ≠ [] ∧ ∃ d, (StorageIo.append (encodeBlock cur)).run w.logFile = (.ret (), d))

theorem Admits.ticket (h : Admits w cur size) (id : OpID) : Admits { w with lastOpId := id } cur size := by
  unfold Admits DbWAL.newBlockRequiredForData at *
  exact h

omit [StorageAdapter A] in
theorem Inv.not_required_of_empty (h : Inv D w blocks [] issued) (hpos : 2 ≤ w.block.pos)
    (hsize : size ≤ MaxEntrySize) : w.newBlockRequiredForData size = false := by
  have hpos' : w.block.pos = 2 := by
    rcases h.block with hb | ⟨hne, -, -⟩ | hb
    · exact hb.pos
    · exact absurd rfl hne
    · rw [hb.pos] at hpos; omega
  rw [← Bool.not_eq_true, newBlockRequired_iff (by rw [hpos']; decide), hpos']
  simp only [MaxEntrySize, BlockSize] at hsize ⊢
  omega

/-- What `makeRoom` can come to. -/
inductive RoomSpec (D : A → List (List (Entry S)) → Prop) (w : DbWAL B A) (blocks : List (List (Entry S)))
    (cur : List (Entry S)) (issued size : ℕ) : Exit Unit × DbWAL B A → Prop
  | room {w' : DbWAL B A} {blocks' : List (List (Entry S))} {cur' : List (Entry S)}
      (hids : Inv.Keeps w w') (hsame : blocks'.flatten ++ cur' = blocks.flatten ++ cur)
      (hinv : Inv D w' blocks' cur' issued) (hpos : NotRewound w w' size)
      (hfits : FitsBlock w' cur' size ∧ w.block.pos + 6 ≤ BlockSize ∨
        BlockSize < w'.block.pos + size ∧ ¬ Admits w cur size) :
      RoomSpec D w blocks cur issued size (.ret (), w')
  | fail {w' : DbWAL B A} (hids : Inv.Keeps w w') (hinv : Inv D w' blocks cur issued)
      (hpos : NotRewound w w' size) (hwhy : ¬ Admits w cur size) :
      RoomSpec D w blocks cur issued size (.fail, w')

theorem makeRoom_spec (hD : Tracks D) (h : Inv D w blocks cur issued) (hmin : MinItemSize ≤ size)
    (hroom : RoomOk w size) :
    RoomSpec D w blocks cur issued size ((DbWAL.makeRoom false size).run w) := by
  rw [run_makeRoom]
  rw [RoomOk] at hroom
  by_cases hreq : w.newBlockRequiredForData size = true
  · rw [if_pos hreq] at hroom ⊢
    rcases List.eq_nil_or_concat' cur with rfl | ⟨es, e, rfl⟩
    · obtain ⟨w', hrun, hids, -, hinv⟩ := h.finalize_empty
      rw [hrun]
      refine .fail hids hinv (fun hpos hsize => ?_) fun hadmits => absurd rfl (hadmits.2.2 hreq).1
      rcases hsize with hsize | hcount
      · rw [h.not_required_of_empty hpos hsize] at hreq
        exact absurd hreq Bool.false_ne_true
      · exact absurd h.count hcount
    have hne : es ++ [e] ≠ [] := by simp
    rcases StorageIo.append_cases (encodeBlock (es ++ [e])) w.logFile with ⟨d, hd⟩ | ⟨d, hd⟩
    · obtain ⟨w', hrun, hids, -, -, hfill, hinv⟩ := h.finalize_ret hD hne hd
      rw [hrun]
      refine .room hids (by simp) hinv (fun _ _ => Nat.le_of_eq hfill.pos.symm) ?_
      rcases hroom with h0 | hsmall | hlarge
      · rw [h.count] at h0
        exact absurd (List.length_eq_zero_iff.1 h0) hne
      · refine .inl ⟨⟨hfill, by simp only [entriesBytes_nil, List.length_nil]; omega⟩, Nat.not_lt.1 fun hfull => ?_⟩
        rw [newBlockRequired_of_gt hfull h.pos_le (by omega)] at hreq
        exact absurd hreq Bool.false_ne_true
      · refine .inr ⟨by rw [hfill.pos]; omega, fun hadmits => ?_⟩
        have := hadmits.1
        omega
    · obtain ⟨w', hrun, hids, -, hpos, hinv⟩ := h.finalize_fail hD hne hd
      rw [hrun]
      refine .fail hids hinv (fun _ _ => by rw [hpos]; decide) fun hadmits => ?_
      obtain ⟨-, d', hd'⟩ := hadmits.2.2 hreq
      rw [hd] at hd'
      cases hd'
  · rw [if_neg hreq] at hroom ⊢
    refine .room ⟨rfl, rfl, rfl, Nat.le_refl _⟩ rfl h (fun h2 _ => h2) ?_
    rcases h.fits_of_not_required hmin (by simpa using hreq) hroom with hfits | ⟨hfull, hend⟩
    · have hpos := hfits.1.pos
      have hfit := hfits.2
      exact .inl ⟨hfits, by simp only [MinItemSize] at hmin; omega⟩
    · exact .inr ⟨hfull, fun hadmits => Nat.not_le.2 hend hadmits.2.1⟩

omit [StorageAdapter A] [Wheathash] in
theorem FitsBlock.write {e : Entry S} (h : FitsBlock w cur e.body.size) :
    ∃ b, (DbWAL.onBlock (StorageIo.write e.bytes)).run w = (.ret (), { w with block := b }) ∧
      Filled b (entriesBytes (cur ++ [e])) (2 + (entriesBytes (cur ++ [e])).length) ∧
      (entriesBytes (cur ++ [e])).length + 6 ≤ BlockSize := by
  obtain ⟨hb, hroom⟩ := h
  obtain ⟨b, hrun, hb'⟩ := hb.write (show 2 + (entriesBytes cur).length + e.bytes.length ≤ BlockSize by
    rw [e.length_bytes]; omega)
  have happ : entriesBytes (cur ++ [e]) = entriesBytes cur ++ e.bytes := by
    rw [entriesBytes_append, entriesBytes_cons, entriesBytes_nil, List.append_nil]
  refine ⟨b, DbWAL.run_onBlock hrun, by rw [happ]; exact hb', ?_⟩
  rw [happ, List.length_append, e.length_bytes]; omega

omit [StorageAdapter A] in
theorem Inv.write_fail (h : Inv D w blocks cur issued) {entry : Bytes}
    (hfit : BlockSize < w.block.pos + entry.length) :
    ∃ w', (DbWAL.onBlock (StorageIo.write entry)).run w = (.fail, w') ∧ Keeps w w' ∧
      w'.block.pos = w.block.pos ∧ Inv D w' blocks cur issued := by
  have hany : ∀ {body : Bytes} {p : ℕ}, Filled w.block body p →
      ∃ b, (StorageIo.write entry).run w.block = (.fail, b) ∧ Filled b body p :=
    fun hb => hb.write_fail (by rwa [← hb.pos])
  cases h.block with
  | filling hb room =>
    obtain ⟨b, hrun, hb'⟩ := hany hb
    exact ⟨_, DbWAL.run_onBlock hrun, ⟨rfl, rfl, rfl, Nat.le_refl _⟩, hb'.pos.trans hb.pos.symm,
      h.setBlock (.filling hb' room)⟩
  | finished hne hb room =>
    obtain ⟨b, hrun, hb'⟩ := hany hb
    exact ⟨_, DbWAL.run_onBlock hrun, ⟨rfl, rfl, rfl, Nat.le_refl _⟩, hb'.pos.trans hb.pos.symm,
      h.setBlock (.finished hne hb' room)⟩
  | rewound hb =>
    obtain ⟨b, hrun, hb'⟩ := hany hb
    exact ⟨_, DbWAL.run_onBlock hrun, ⟨rfl, rfl, rfl, Nat.le_refl _⟩, hb'.pos.trans hb.pos.symm,
      h.setBlock (.rewound hb')⟩

/-! ### The calls -/

/-- What can come of a call that wants an entry with `body` in the log, where `takes` says that the call
gets as far as `++_lastOpId`. -/
inductive CallSpec (D : A → List (List (Entry S)) → Prop) (w : DbWAL B A) (blocks : List (List (Entry S)))
    (cur : List (Entry S)) (issued : ℕ) (body : EntryBody S) (takes : Prop) :
    Exit Locals × DbWAL B A → Prop
  | placed {l : Locals} {w' : DbWAL B A} {blocks' : List (List (Entry S))} {cur' : List (Entry S)}
      (htakes : takes) (hsize : body.size + 6 ≤ BlockSize) (hnotFull : w.block.pos + 6 ≤ BlockSize)
      (hid : l.currentOpId = w'.lastOpId)
      (hentry : l.entry = Entry.bytes ⟨w'.lastOpId, body⟩)
      (hsame : blocks'.flatten ++ cur' = blocks.flatten ++ cur ++ [⟨w'.lastOpId, body⟩])
      (hflushed : w.lastFlushedOpId.toNat ≤ w'.lastFlushedOpId.toNat)
      (hpos : NotRewound w w' body.size) (hinv : Inv D w' blocks' cur' (issued + 1)) :
      CallSpec D w blocks cur issued body takes (.ret l, w')
  | failed {w' : DbWAL B A} {blocks' : List (List (Entry S))} {cur' : List (Entry S)}
      (htakes : takes) (hwhy : ¬ Admits w cur body.size)
      (hsame : blocks'.flatten ++ cur' = blocks.flatten ++ cur)
      (hflushed : w.lastFlushedOpId.toNat ≤ w'.lastFlushedOpId.toNat)
      (hpos : NotRewound w w' body.size) (hinv : Inv D w' blocks' cur' (issued + 1)) :
      CallSpec D w blocks cur issued body takes (.fail, w')
  | refused (htakes : ¬ takes) : CallSpec D w blocks cur issued body takes (.fail, w)

omit [StorageAdapter A] in
theorem Inv.fresh (h : Inv D w blocks cur issued) (hbound : issued + 1 < 2 ^ 32) :
    w.lastBlockOpId.toNat < (w.lastOpId + 1).toNat := by
  have h' := (h.ticket hbound).lastOpId
  have hle := h.lastBlock_le
  change (w.lastOpId + 1).toNat = issued + 1 at h'
  omega

theorem registerEntry_ret {w₁ : DbWAL B A} (id : OpID) {entry : Bytes} {b : StaticBufferAdapter B BlockSize}
    (hmake : (DbWAL.makeRoom false size).run w = (.ret (), w₁))
    (hwrite : (StorageIo.write entry).run w₁.block = (.ret (), b)) (timeElapsedMs : UInt64) :
    (DbWAL.registerEntry id entry size timeElapsedMs).run w =
      (.ret ⟨entry, id, w₁.blockIsEmpty, if w₁.blockIsEmpty then timeElapsedMs else 0⟩, { w₁ with
        lastBlockOpId := id, block := b, blockItemCount := w₁.blockItemCount + 1
        pendingOperations := w₁.pendingOperations ++ [id]
        operationsProcessed := w₁.operationsProcessed + 1 }) := by
  rw [DbWAL.registerEntry, Proc.run_bind_of_ret hmake, Proc.run_read_bind, Proc.run_modify_bind]
  have hwrite' := DbWAL.run_onBlock (A := A) (w := { w₁ with lastBlockOpId := id }) hwrite
  rw [Proc.run_bind_of_ret hwrite']
  rfl

theorem updateEntry_ret {w₁ : DbWAL B A} {id opId : OpID} {entry : Bytes}
    {b : StaticBufferAdapter B BlockSize} (hmake : (DbWAL.makeRoom false size).run w = (.ret (), w₁))
    (hwrite : (StorageIo.write entry).run w₁.block = (.ret (), b)) (timeElapsedMs : UInt64) :
    (DbWAL.updateEntry id entry size opId timeElapsedMs).run w =
      (.ret ⟨entry, id, w₁.blockIsEmpty, if w₁.blockIsEmpty then timeElapsedMs else 0⟩, { w₁ with
        block := b, blockItemCount := w₁.blockItemCount + 1, lastBlockOpId := id
        pendingOperations := w₁.pendingOperations.erase opId }) := by
  rw [DbWAL.updateEntry, Proc.run_bind_of_ret hmake, Proc.run_read_bind]
  rw [Proc.run_bind_of_ret (DbWAL.run_onBlock hwrite)]
  rfl

theorem run_registerOperation_overflow {op : Operation S} (h : BlockSize < (EntryBody.operation op).size)
    (timeElapsedMs : UInt64) (w : DbWAL B A) :
    (DbWAL.registerOperation op timeElapsedMs).run w = (.fail, w) := by
  obtain ⟨eb, hrun⟩ := composeOperation_fail (B := B) h
  rw [DbWAL.registerOperation, hrun]
  rfl

theorem run_registerOperation {op : Operation S} (h : (EntryBody.operation op).size ≤ BlockSize)
    (timeElapsedMs : UInt64) (w : DbWAL B A) :
    (DbWAL.registerOperation op timeElapsedMs).run w =
      (DbWAL.registerEntry (w.lastOpId + 1) (Entry.bytes ⟨w.lastOpId + 1, .operation op⟩)
        (EntryBody.operation op).size timeElapsedMs).run { w with lastOpId := w.lastOpId + 1 } := by
  obtain ⟨eb, hrun, hentry⟩ := composeOperation_ret (B := B) h
  rw [DbWAL.registerOperation, hrun]
  change (DbWAL.registerComposed eb _ timeElapsedMs).run w = _
  rw [DbWAL.registerComposed, Proc.run_modify_bind, Proc.run_read_bind]
  simp only [hentry]

/-- A registration whose space check comes out well and that finds enough room. -/
theorem registerOperation_ret {op : Operation S} (hsize : (EntryBody.operation op).size ≤ BlockSize)
    {w₁ : DbWAL B A} (hmake : (DbWAL.makeRoom false (EntryBody.operation op).size).run
      { w with lastOpId := w.lastOpId + 1 } = (.ret (), w₁))
    {body : Bytes} (hb : Filled w₁.block body (2 + body.length))
    (hfit : 2 + body.length + (EntryBody.operation op).size ≤ BlockSize) (timeElapsedMs : UInt64) :
    ∃ b, (DbWAL.registerOperation op timeElapsedMs).run w =
        (.ret ⟨Entry.bytes ⟨w.lastOpId + 1, .operation op⟩, w.lastOpId + 1, w₁.blockIsEmpty,
          if w₁.blockIsEmpty then timeElapsedMs else 0⟩, { w₁ with
            lastBlockOpId := w.lastOpId + 1, block := b, blockItemCount := w₁.blockItemCount + 1
            pendingOperations := w₁.pendingOperations ++ [w.lastOpId + 1]
            operationsProcessed := w₁.operationsProcessed + 1 }) ∧
      Filled b (body ++ Entry.bytes ⟨w.lastOpId + 1, .operation op⟩)
        (2 + (body ++ Entry.bytes ⟨w.lastOpId + 1, .operation op⟩).length) := by
  obtain ⟨b, hwrite, hb'⟩ := hb.write
    (show 2 + body.length + (Entry.bytes ⟨w.lastOpId + 1, .operation op⟩).length ≤ BlockSize by
      rw [Entry.length_bytes]; exact hfit)
  refine ⟨b, ?_, hb'⟩
  rw [run_registerOperation hsize]
  exact registerEntry_ret _ hmake hwrite timeElapsedMs

/-- The first registration of a block. -/
theorem registerOperation_first {op : Operation S} (hsize : (EntryBody.operation op).size ≤ MaxEntrySize)
    (hb : Filled w.block [] 2) (hcount : w.blockItemCount = 0) (timeElapsedMs : UInt64) :
    ∃ b, (DbWAL.registerOperation op timeElapsedMs).run w =
        (.ret ⟨Entry.bytes ⟨w.lastOpId + 1, .operation op⟩, w.lastOpId + 1, true, timeElapsedMs⟩, { w with
          lastOpId := w.lastOpId + 1, lastBlockOpId := w.lastOpId + 1, block := b, blockItemCount := 1
          pendingOperations := w.pendingOperations ++ [w.lastOpId + 1]
          operationsProcessed := w.operationsProcessed + 1 }) ∧
      Filled b (Entry.bytes ⟨w.lastOpId + 1, .operation op⟩)
        (2 + (Entry.bytes ⟨w.lastOpId + 1, .operation op⟩).length) := by
  have hpos : w.block.pos + (EntryBody.operation op).size + 33 ≤ BlockSize := by
    rw [hb.pos]
    simp only [MaxEntrySize, BlockSize] at hsize ⊢
    omega
  obtain ⟨b, hrun, hb'⟩ := registerOperation_ret (w := w) (Nat.le_trans hsize (by decide))
    (makeRoom_here (w := { w with lastOpId := w.lastOpId + 1 }) hpos) hb
    (by rw [List.length_nil]; simp only [MaxEntrySize, BlockSize] at hsize ⊢; omega) timeElapsedMs
  rw [List.nil_append] at hb'
  refine ⟨b, ?_, hb'⟩
  have hempty : DbWAL.blockIsEmpty { w with lastOpId := w.lastOpId + 1 } = true := beq_iff_eq.2 hcount
  rw [hrun, hempty, if_pos rfl]
  dsimp only
  rw [hcount]

/-- A registration that makes the entries before it go to the log. -/
theorem registerOperation_flush {op : Operation S} (hsize : 2 + (EntryBody.operation op).size ≤ BlockSize)
    {body : Bytes} {p : ℕ} (hb : Filled w.block body p) (h0 : 0 < w.blockItemCount) (h1 : w.blockItemCount ≤ 65535)
    (hpos : p + 6 ≤ BlockSize) (hlarge : BlockSize < p + (EntryBody.operation op).size + 33) {d : A}
    (hd : (StorageIo.append (blockImage w.blockItemCount body)).run w.logFile = (.ret (), d)) (timeElapsedMs : UInt64) :
    ∃ b, (DbWAL.registerOperation op timeElapsedMs).run w =
        (.ret ⟨Entry.bytes ⟨w.lastOpId + 1, .operation op⟩, w.lastOpId + 1, true, timeElapsedMs⟩, { w with
          lastOpId := w.lastOpId + 1, lastBlockOpId := w.lastOpId + 1, block := b, blockItemCount := 1
          logFile := d, lastFlushedOpId := w.lastBlockOpId
          pendingOperations := w.pendingOperations ++ [w.lastOpId + 1]
          operationsProcessed := w.operationsProcessed + 1 }) ∧
      Filled b (Entry.bytes ⟨w.lastOpId + 1, .operation op⟩)
        (2 + (Entry.bytes ⟨w.lastOpId + 1, .operation op⟩).length) := by
  obtain ⟨b₀, hb₀, hflush⟩ := DbWAL.run_finalize_ret (w := { w with lastOpId := w.lastOpId + 1 }) hb h0 h1 hd
  have hmake := makeRoom_flush (w := { w with lastOpId := w.lastOpId + 1 })
    (show w.block.pos + 6 ≤ BlockSize by rwa [hb.pos])
    (show BlockSize < w.block.pos + (EntryBody.operation op).size + 33 by rwa [hb.pos]) hflush
  obtain ⟨b, hrun, hb'⟩ := registerOperation_ret (Nat.le_trans (Nat.le_add_left _ 2) hsize) hmake hb₀ hsize timeElapsedMs
  exact ⟨b, hrun, hb'⟩

theorem registerOperation_room_fail {op : Operation S} (hsize : (EntryBody.operation op).size ≤ BlockSize)
    {w₁ : DbWAL B A} (hmake : (DbWAL.makeRoom false (EntryBody.operation op).size).run
      { w with lastOpId := w.lastOpId + 1 } = (.fail, w₁)) (timeElapsedMs : UInt64) :
    (DbWAL.registerOperation op timeElapsedMs).run w = (.fail, w₁) := by
  rw [run_registerOperation hsize, DbWAL.registerEntry]
  exact Proc.run_bind_of_fail hmake

theorem registerOperation_write_fail {op : Operation S} (hsize : (EntryBody.operation op).size ≤ BlockSize)
    {w₁ : DbWAL B A} (hmake : (DbWAL.makeRoom false (EntryBody.operation op).size).run
      { w with lastOpId := w.lastOpId + 1 } = (.ret (), w₁)) {b : StaticBufferAdapter B BlockSize}
    (hwrite : (StorageIo.write (Entry.bytes ⟨w.lastOpId + 1, .operation op⟩)).run w₁.block = (.fail, b))
    (timeElapsedMs : UInt64) : (DbWAL.registerOperation op timeElapsedMs).run w =
      (.fail, { w₁ with lastBlockOpId := w.lastOpId + 1, block := b }) := by
  rw [run_registerOperation hsize, DbWAL.registerEntry, Proc.run_bind_of_ret hmake, Proc.run_read_bind,
    Proc.run_modify_bind]
  exact Proc.run_bind_of_fail (DbWAL.run_onBlock (A := A) (w := { w₁ with lastBlockOpId := w.lastOpId + 1 }) hwrite)

theorem run_updateOpStatus_refused {opId : OpID} (h : opId ∉ w.pendingOperations) (status : OpStatus)
    (timeElapsedMs : UInt64) : (DbWAL.updateOpStatus opId status timeElapsedMs).run w = (.fail, w) := by
  obtain ⟨eb, hrun, -⟩ := composeMarker_ret (B := B) (S := keySchema) opId status
  rw [DbWAL.updateOpStatus, hrun]
  dsimp only
  rw [DbWAL.updateComposed, Proc.run_read_bind]
  exact Proc.run_bind_of_fail (Proc.run_require_neg h w)

theorem run_updateOpStatus {opId : OpID} (h : opId ∈ w.pendingOperations) (status : OpStatus)
    (timeElapsedMs : UInt64) : (DbWAL.updateOpStatus opId status timeElapsedMs).run w =
      (DbWAL.updateEntry (w.lastOpId + 1) (Entry.bytes (S := S) ⟨w.lastOpId + 1, .completion opId status⟩)
        (EntryBody.completion (S := S) opId status).size opId timeElapsedMs).run
          { w with lastOpId := w.lastOpId + 1 } := by
  obtain ⟨eb, hrun, hentry⟩ := composeMarker_ret (B := B) (S := S) opId status
  rw [DbWAL.updateOpStatus, hrun]
  dsimp only
  rw [DbWAL.updateComposed, Proc.run_read_bind, Proc.run_bind_of_ret (Proc.run_require_pos h w),
    Proc.run_modify_bind, Proc.run_read_bind]
  simp only [hentry (w.lastOpId + 1)]

theorem registerOperation_spec (hD : Tracks D) (h : Inv D w blocks cur issued) {op : Operation S}
    (hbound : (EntryBody.operation op).size ≤ BlockSize → issued + 1 < 2 ^ 32)
    (hroom : (EntryBody.operation op).size ≤ BlockSize → RoomOk w (EntryBody.operation op).size)
    (timeElapsedMs : UInt64) :
    CallSpec D w blocks cur issued (.operation op) ((EntryBody.operation op).size ≤ BlockSize)
      ((DbWAL.registerOperation op timeElapsedMs).run w) := by
  by_cases hsize : (EntryBody.operation op).size ≤ BlockSize
  swap
  · rw [run_registerOperation_overflow (Nat.lt_of_not_le hsize)]
    exact .refused hsize
  have hbound := hbound hsize
  rw [run_registerOperation hsize, DbWAL.registerEntry]
  have hspec := makeRoom_spec hD (h.ticket hbound) (EntryBody.minItemSize_le _)
    ((hroom hsize).ticket _)
  generalize hmake : (DbWAL.makeRoom false (EntryBody.operation op).size).run
    { w with lastOpId := w.lastOpId + 1 } = r at hspec
  cases hspec with
  | fail hids hinv hpos hwhy =>
    rw [Proc.run_bind_of_fail hmake]
    exact .failed hsize (fun hadmits => hwhy (hadmits.ticket _)) rfl hids.lastFlushed_le hpos hinv
  | @room w' blocks' cur' hids hsame hinv hpos hfits =>
    have hid : w.lastOpId + 1 = w'.lastOpId := hids.lastOpId.symm
    have hfresh : w'.lastBlockOpId.toNat < w'.lastOpId.toNat := by
      rw [hids.lastBlockOpId, ← hid]; exact h.fresh hbound
    rw [Proc.run_bind_of_ret hmake, Proc.run_read_bind, Proc.run_modify_bind, hid]
    rcases hfits with ⟨hfits, hnotFull⟩ | ⟨hfull, hwhy⟩
    · obtain ⟨b, hwrite, hb, hroom'⟩ := FitsBlock.write (w := { w' with lastBlockOpId := w'.lastOpId })
        (e := ⟨w'.lastOpId, .operation op⟩) hfits
      rw [Proc.run_bind_of_ret hwrite]
      exact .placed hsize hfits.size_le hnotFull rfl rfl
        (by rw [← hsame, List.append_assoc]) hids.lastFlushed_le
        (fun _ _ => by rw [hb.pos]; exact Nat.le_add_right ..)
        (hinv.place_operation hfresh (.filling hb hroom'))
    · obtain ⟨w'', hwrite, hids', hpos', hinv'⟩ := hinv.lastBlock.write_fail
        (show BlockSize < w'.block.pos + (Entry.bytes ⟨w'.lastOpId, .operation op⟩).length by
          rw [Entry.length_bytes]; exact hfull)
      rw [Proc.run_bind_of_fail hwrite]
      exact .failed hsize (fun hadmits => hwhy (hadmits.ticket _)) hsame
        (Nat.le_trans hids.lastFlushed_le hids'.lastFlushed_le)
        (fun h2 hs => by rw [hpos']; exact hpos h2 hs) hinv'

theorem updateOpStatus_spec (hD : Tracks D) (h : Inv D w blocks cur issued) {opId : OpID}
    {status : OpStatus} (hbound : opId ∈ w.pendingOperations → issued + 1 < 2 ^ 32)
    (hroom : opId ∈ w.pendingOperations → RoomOk w (EntryBody.completion (S := S) opId status).size)
    (timeElapsedMs : UInt64) :
    CallSpec D w blocks cur issued (.completion opId status) (opId ∈ w.pendingOperations)
      ((DbWAL.updateOpStatus opId status timeElapsedMs).run w) := by
  by_cases hpending : opId ∈ w.pendingOperations
  swap
  · rw [run_updateOpStatus_refused hpending]
    exact .refused hpending
  have hbound := hbound hpending
  rw [run_updateOpStatus (S := S) hpending, DbWAL.updateEntry]
  have hspec := makeRoom_spec hD (h.ticket hbound) (EntryBody.minItemSize_le _)
    ((hroom hpending).ticket _)
  generalize hmake : (DbWAL.makeRoom false (EntryBody.completion (S := S) opId status).size).run
    { w with lastOpId := w.lastOpId + 1 } = r at hspec
  cases hspec with
  | fail hids hinv hpos hwhy =>
    rw [Proc.run_bind_of_fail hmake]
    exact .failed hpending (fun hadmits => hwhy (hadmits.ticket _)) rfl hids.lastFlushed_le hpos hinv
  | @room w' blocks' cur' hids hsame hinv hpos hfits =>
    have hid : w.lastOpId + 1 = w'.lastOpId := hids.lastOpId.symm
    have hfresh : w'.lastBlockOpId.toNat < w'.lastOpId.toNat := by
      rw [hids.lastBlockOpId, ← hid]; exact h.fresh hbound
    rw [Proc.run_bind_of_ret hmake, Proc.run_read_bind, hid]
    rcases hfits with ⟨hfits, hnotFull⟩ | ⟨hfull, hwhy⟩
    · obtain ⟨b, hwrite, hb, hroom'⟩ := FitsBlock.write (w := w')
        (e := ⟨w'.lastOpId, .completion opId status⟩) hfits
      rw [Proc.run_bind_of_ret hwrite]
      exact .placed hpending hfits.size_le hnotFull rfl rfl
        (by rw [← hsame, List.append_assoc]) hids.lastFlushed_le
        (fun _ _ => by rw [hb.pos]; exact Nat.le_add_right ..)
        (hinv.place_completion hfresh (by rw [hids.pendingOperations]; exact hpending) status
          (.filling hb hroom'))
    · obtain ⟨w'', hwrite, hids', hpos', hinv'⟩ := hinv.write_fail
        (show BlockSize < w'.block.pos + (Entry.bytes (S := S) ⟨w'.lastOpId, .completion opId status⟩).length by
          rw [Entry.length_bytes]; exact hfull)
      rw [Proc.run_bind_of_fail hwrite]
      exact .failed hpending (fun hadmits => hwhy (hadmits.ticket _)) hsame
        (Nat.le_trans hids.lastFlushed_le hids'.lastFlushed_le)
        (fun h2 hs => by rw [hpos']; exact hpos h2 hs) hinv'

/-! ### The other critical sections -/

/-- What can come of a flush: entries only move to the log. -/
inductive FlushSpec (D : A → List (List (Entry S)) → Prop) (w : DbWAL B A) (blocks : List (List (Entry S)))
    (cur : List (Entry S)) (issued : ℕ) (done : DbWAL B A → List (Entry S) → Prop) :
    Exit Unit × DbWAL B A → Prop
  | ret {w' : DbWAL B A} {blocks' : List (List (Entry S))} {cur' : List (Entry S)} (hids : Inv.Keeps w w')
      (hsame : blocks'.flatten ++ cur' = blocks.flatten ++ cur) (hdone : done w' cur')
      (hpos : 2 ≤ w.block.pos → 2 ≤ w'.block.pos) (hinv : Inv D w' blocks' cur' issued) :
      FlushSpec D w blocks cur issued done (.ret (), w')
  | stop {x : Exit Unit} {w' : DbWAL B A} {blocks' : List (List (Entry S))} {cur' : List (Entry S)}
      (hx : x ≠ .ret ()) (hids : Inv.Keeps w w') (hsame : blocks'.flatten ++ cur' = blocks.flatten ++ cur)
      (hpos : 2 ≤ w.block.pos → 2 ≤ w'.block.pos) (hinv : Inv D w' blocks' cur' issued) :
      FlushSpec D w blocks cur issued done (x, w')

theorem flushOnTimeout_ret {w' : DbWAL B A} {currentOpId : OpID} (hlt : w.lastFlushedOpId < currentOpId)
    (h : DbWAL.finalizeAndflushCurrentBlock.run w = (.ret (), w')) :
    (DbWAL.flushOnTimeout currentOpId).run w = (.ret (), w') := by
  rw [DbWAL.flushOnTimeout, Proc.run_read_bind, Proc.run_ite, if_pos hlt,
    Proc.run_bind_of_ret (Proc.run_attempt_of_ret h)]
  rfl

omit [StorageAdapter A] in
theorem Inv.cur_ne_nil (h : Inv D w blocks cur issued) {e : Entry S} (he : e ∈ blocks.flatten ++ cur)
    (hlt : w.lastFlushedOpId < e.ticket) : cur ≠ [] := by
  rintro rfl
  rw [List.append_nil] at he
  exact absurd (h.flushed e he) (Nat.not_le.2 hlt)

/-- A call that waits for an entry in the log leaves with the entry flushed, or the process ends. -/
theorem flushOnTimeout_spec (hD : Tracks D) (h : Inv D w blocks cur issued) {currentOpId : OpID}
    (hplaced : ∃ e ∈ blocks.flatten ++ cur, e.ticket = currentOpId) :
    FlushSpec D w blocks cur issued (fun w' _ => currentOpId.toNat ≤ w'.lastFlushedOpId.toNat)
      ((DbWAL.flushOnTimeout currentOpId).run w) := by
  obtain ⟨e, he, rfl⟩ := hplaced
  rw [DbWAL.flushOnTimeout, Proc.run_read_bind, Proc.run_ite]
  by_cases hlt : w.lastFlushedOpId < e.ticket
  swap
  · rw [if_neg hlt]
    have hle : e.ticket.toNat ≤ w.lastFlushedOpId.toNat := Nat.le_of_not_lt hlt
    exact .ret ⟨rfl, rfl, rfl, Nat.le_refl _⟩ rfl hle id h
  rw [if_pos hlt]
  have hcur := h.cur_ne_nil he hlt
  rcases StorageIo.append_cases (encodeBlock cur) w.logFile with ⟨d, hd⟩ | ⟨d, hd⟩
  · obtain ⟨w', hrun, hids, -, hlast, hfill, hinv⟩ := h.finalize_ret hD hcur hd
    rw [Proc.run_bind_of_ret (Proc.run_attempt_of_ret hrun)]
    exact .ret hids (by simp) (by rw [hlast]; exact h.ticket_le e he)
      (fun _ => Nat.le_of_eq hfill.pos.symm) hinv
  · obtain ⟨w', hrun, hids, -, hpos, hinv⟩ := h.finalize_fail hD hcur hd
    rw [Proc.run_bind_of_ret (Proc.run_attempt_of_fail hrun)]
    exact .stop (by simp) hids rfl (fun _ => by rw [hpos]; decide) hinv

omit [StorageAdapter A] in
theorem Inv.blockIsEmpty (h : Inv D w blocks cur issued) : w.blockIsEmpty = true ↔ cur = [] := by
  rw [DbWAL.blockIsEmpty, h.count, beq_iff_eq, List.length_eq_zero_iff]

/-- `closeLogFile` flushes what is in the block and then closes the log, or fails before that. -/
theorem closeLogFile_cases (hD : Tracks D) (h : Inv D w blocks cur issued) :
    (∃ w' blocks', DbWAL.closeLogFile.run w = (DbWAL.onLogFile StorageIo.close).run w' ∧ Inv.Keeps w w' ∧
      blocks'.flatten ++ [] = blocks.flatten ++ cur ∧ (2 ≤ w.block.pos → 2 ≤ w'.block.pos) ∧
      Inv D w' blocks' [] issued) ∨
    ∃ w' d, cur ≠ [] ∧ (StorageIo.append (encodeBlock cur)).run w.logFile = (.fail, d) ∧
      DbWAL.closeLogFile.run w = (.fail, w') ∧ Inv.Keeps w w' ∧ (2 ≤ w.block.pos → 2 ≤ w'.block.pos) ∧
      Inv D w' blocks cur issued := by
  rw [DbWAL.closeLogFile, Proc.run_read_bind]
  by_cases hcur : cur = []
  · subst hcur
    rw [if_neg (not_not.2 (h.blockIsEmpty.2 rfl))]
    exact .inl ⟨w, blocks, rfl, ⟨rfl, rfl, rfl, Nat.le_refl _⟩, rfl, id, h⟩
  · rw [if_pos (mt h.blockIsEmpty.1 hcur)]
    rcases StorageIo.append_cases (encodeBlock cur) w.logFile with ⟨d, hd⟩ | ⟨d, hd⟩
    · obtain ⟨w', hrun, hids, -, -, hfill, hinv⟩ := h.finalize_ret hD hcur hd
      exact .inl ⟨w', _, Proc.run_bind_of_ret hrun, hids, by simp, fun _ => Nat.le_of_eq hfill.pos.symm, hinv⟩
    · obtain ⟨w', hrun, hids, -, hpos, hinv⟩ := h.finalize_fail hD hcur hd
      exact .inr ⟨w', d, hcur, hd, Proc.run_bind_of_fail hrun, hids, fun _ => by rw [hpos]; decide, hinv⟩

/-- Closing leaves what `D` says of the device, or the call does not get that far. -/
def ClosesWell (D : A → List (List (Entry S)) → Prop) (w : DbWAL B A) : Prop :=
  Closes D ∨ (DbWAL.closeLogFile.run w).1 = .fail ∧ ∀ d blocks, D d blocks → (StorageIo.close.run d).1 = .ret ()

theorem closeLogFile_spec (hD : Tracks D) (hclose : ClosesWell D w) (h : Inv D w blocks cur issued) :
    FlushSpec D w blocks cur issued (fun _ cur' => cur' = []) (DbWAL.closeLogFile.run w) := by
  rcases closeLogFile_cases hD h with ⟨w', blocks', hrun, hids, hsame, hpos, hinv⟩ |
    ⟨w', d, -, -, hrun, hids, hpos, hinv⟩
  · rcases hclose with hclose | ⟨hfail, hret⟩
    swap
    · rw [hrun] at hfail
      have hret := hret _ _ hinv.device
      rw [DbWAL.onLogFile, Proc.run_zoom, hret] at hfail
      cases hfail
    rw [hrun]
    rcases run_ofCall_cases StorageAdapter.close w'.logFile with ⟨_, d, hd⟩ | ⟨d, hd⟩
    · rw [DbWAL.run_onLogFile (p := StorageIo.close) hd]
      exact .ret ⟨hids.1, hids.2, hids.3, hids.4⟩ hsame rfl hpos
        { hinv with device := hclose hinv.device hd }
    · rw [DbWAL.run_onLogFile (p := StorageIo.close) hd]
      exact .stop (by simp) ⟨hids.1, hids.2, hids.3, hids.4⟩ hsame hpos
        { hinv with device := hclose hinv.device hd }
  · rw [hrun]
    exact .stop (by simp) hids rfl hpos hinv

end

end CppDb
