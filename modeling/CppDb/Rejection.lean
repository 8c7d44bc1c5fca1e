import CppDb.Sessions

/-!
# Rejected registrations

A registration that is rejected may have taken an ID and may have flushed the block. In the ledger that
is all: later calls have the same outcomes with the IDs moved up by one (`Ledger.calls_rename`). With
`System.calls_run` this goes over to the log (`harmless_of_smooth`): two runs that make the same calls
after it, one with and one without the rejected registration, report the same operations. It takes
space checks that go well; `not_harmless` has one that does not.
-/

namespace CppDb
open Embed
open StorageAdapter (pos)
open ReadableAdapter (Ok bytes)
open MemoryAdapter (Fits)

/-- The IDs after `k` are moved up by `n`. -/
def shiftId (k n : ℕ) (id : OpID) : OpID := if id.toNat ≤ k then id else id + UInt32.ofNat n

section
variable {S : Schema} {ρ : OpID → OpID}

def EntryBody.rename (ρ : OpID → OpID) : EntryBody S → EntryBody S
  | operation op => .operation op
  | completion opId status => .completion (ρ opId) status

def Entry.rename (ρ : OpID → OpID) (e : Entry S) : Entry S := ⟨ρ e.ticket, e.body.rename ρ⟩

def Asked.rename (ρ : OpID → OpID) (a : Asked S) : Asked S := { a with body := a.body.rename ρ }

@[simp] theorem EntryBody.size_rename (ρ : OpID → OpID) (body : EntryBody S) :
    (body.rename ρ).size = body.size := by
  cases body <;> rfl

theorem completedIds_rename (ρ : OpID → OpID) (es : List (Entry S)) :
    completedIds (es.map (Entry.rename ρ)) = (completedIds es).map ρ := by
  rw [completedIds, completedIds, List.filterMap_map, List.map_filterMap]
  refine List.filterMap_congr fun e _ => ?_
  rcases e with ⟨ticket, op | ⟨opId, status⟩⟩ <;> rfl

theorem unfinished_rename {es : List (Entry S)}
    (hinj : ∀ e ∈ es, ∀ id ∈ completedIds es, ρ e.ticket = ρ id → e.ticket = id) :
    unfinished (es.map (Entry.rename ρ)) = (unfinished es).map fun x => (ρ x.1, x.2) := by
  rw [unfinished, unfinished, completedIds_rename, operationsNotIn, operationsNotIn, List.filterMap_map,
    List.map_filterMap]
  refine List.filterMap_congr fun e he => ?_
  rcases e with ⟨ticket, op | ⟨opId, status⟩⟩
  · have hiff : ρ ticket ∈ (completedIds es).map ρ ↔ ticket ∈ completedIds es := by
      constructor
      · intro h
        obtain ⟨id, hid, heq⟩ := List.mem_map.1 h
        rwa [show ticket = id from hinj _ he id hid heq.symm]
      · exact List.mem_map_of_mem
    change (if ρ ticket ∈ (completedIds es).map ρ then none else some (ρ ticket, op)) =
      Option.map _ (if ticket ∈ completedIds es then none else some (ticket, op))
    by_cases h : ticket ∈ completedIds es
    · rw [if_pos h, if_pos (hiff.2 h)]
      rfl
    · rw [if_neg h, if_neg (mt hiff.1 h)]
      rfl
  · rfl

end

section
variable {k n : ℕ} {x y : OpID}

theorem shiftId_of_le (h : x.toNat ≤ k) : shiftId k n x = x := if_pos h

theorem shiftId_of_gt (h : k < x.toNat) : shiftId k n x = x + UInt32.ofNat n := if_neg (Nat.not_le.2 h)

theorem shiftId_inj (hn : n ≤ 1) (hpos : 0 < y.toNat) (hlt : y.toNat + n < 2 ^ 32)
    (h : shiftId k n x = shiftId k n y) : x = y := by
  have hn' : (UInt32.ofNat n).toNat = n := UInt32.toNat_ofNat_of_lt' (by change n < 2 ^ 32; omega)
  have hx := x.toNat_lt
  have h := congrArg UInt32.toNat h
  refine UInt32.toNat_inj.1 ?_
  rw [shiftId, shiftId] at h
  split at h
  · split at h
    · exact h
    · rw [UInt32.toNat_add, hn'] at h
      omega
  · split at h
    · rw [UInt32.toNat_add, hn'] at h
      omega
    · rw [UInt32.toNat_add, UInt32.toNat_add, hn'] at h
      omega

end

/-! ### Calls with renamed IDs -/

namespace Ledger
variable {S : Schema} {g g' : Ledger S} {k n : ℕ}

/-- The IDs in the ledger have been issued. -/
structure Valid (g : Ledger S) : Prop where
  ticket : ∀ e ∈ g.placed, 0 < e.ticket.toNat ∧ e.ticket.toNat ≤ g.issued
  completed : ∀ id ∈ completedIds g.placed, 0 < id.toNat ∧ id.toNat ≤ g.issued

/-- `g'` is `g` with the IDs after `k` moved up by `n`. -/
structure Shifted (k n : ℕ) (g g' : Ledger S) : Prop where
  placed : g'.placed = g.placed.map (Entry.rename (shiftId k n))
  issued : g'.issued = g.issued + n
  le : k ≤ g.issued

theorem issued_call (a : Asked S) (g : Ledger S) :
    g.issued ≤ (g.call a).2.issued ∧ (g.call a).2.issued ≤ g.issued + 1 := by
  rw [call]
  split
  · split <;> exact ⟨Nat.le_succ _, Nat.le_refl _⟩
  · exact ⟨Nat.le_refl _, Nat.le_succ _⟩

theorem issued_calls (as : List (Asked S)) (g : Ledger S) : g.issued ≤ (g.calls as).2.issued := by
  induction as generalizing g with
  | nil => exact Nat.le_refl _
  | cons a as ih => exact Nat.le_trans (issued_call a g).1 (ih _)

theorem toNat_nextId (h : g.issued + 1 < 2 ^ 32) : g.nextId.toNat = g.issued + 1 :=
  UInt32.toNat_ofNat_of_lt' h

theorem Valid.call (h : g.Valid) (a : Asked S) (hbound : (g.call a).2.issued < 2 ^ 32) : (g.call a).2.Valid := by
  have hup : ∀ {id : OpID}, 0 < id.toNat ∧ id.toNat ≤ g.issued → 0 < id.toNat ∧ id.toNat ≤ g.issued + 1 :=
    fun h => ⟨h.1, Nat.le_succ_of_le h.2⟩
  unfold Ledger.call at hbound ⊢
  split
  · next htakes =>
    rw [if_pos htakes] at hbound
    split
    · next hplaced =>
      rw [if_pos hplaced] at hbound
      have hnext := toNat_nextId hbound
      refine ⟨fun e he => ?_, fun id hid => ?_⟩
      · rcases List.mem_append.1 he with he | he
        · exact hup (h.ticket e he)
        · rw [List.mem_singleton.1 he]
          exact ⟨by rw [hnext]; exact Nat.succ_pos _, Nat.le_of_eq hnext⟩
      · change id ∈ completedIds (g.placed ++ [⟨g.nextId, a.body⟩]) at hid
        rw [completedIds_append] at hid
        rcases List.mem_append.1 hid with hid | hid
        · exact hup (h.completed id hid)
        · rcases hbody : a.body with op | ⟨opId, status⟩
          · rw [hbody] at hid
            cases hid
          · rw [hbody] at hid htakes
            rw [show id = opId from List.mem_singleton.1 hid]
            obtain ⟨x, hx, rfl⟩ := List.mem_map.1 htakes
            exact hup (h.ticket _ (mem_unfinished.1 hx).1)
    · exact ⟨fun e he => hup (h.ticket e he), fun id hid => hup (h.completed id hid)⟩
  · exact h

theorem Shifted.unfinished_eq (h : Shifted k n g g') (hg : g.Valid) (hn : n ≤ 1) (hbound : g'.issued < 2 ^ 32) :
    unfinished g'.placed = (unfinished g.placed).map fun x => (shiftId k n x.1, x.2) := by
  rw [h.placed]
  refine unfinished_rename fun e he id hid heq => ?_
  have hrange := hg.completed id hid
  exact shiftId_inj hn hrange.1 (by have := h.issued; omega) heq

theorem Shifted.takesId (h : Shifted k n g g') (hg : g.Valid) (hn : n ≤ 1) (hbound : g'.issued < 2 ^ 32)
    (body : EntryBody S) : g'.TakesId (body.rename (shiftId k n)) ↔ g.TakesId body := by
  cases body with
  | operation op => rfl
  | completion opId status =>
    have hpending : g'.pending = g.pending.map (shiftId k n) := by
      rw [pending, pending, h.unfinished_eq hg hn hbound, List.map_map, List.map_map]
      rfl
    change shiftId k n opId ∈ g'.pending ↔ opId ∈ g.pending
    rw [hpending]
    constructor
    · intro hmem
      obtain ⟨id, hid, heq⟩ := List.mem_map.1 hmem
      obtain ⟨x, hx, rfl⟩ := List.mem_map.1 hid
      have hrange := hg.ticket _ (mem_unfinished.1 hx).1
      rw [shiftId_inj hn hrange.1 (by have := h.issued; have := hrange.2; dsimp only at *; omega) heq.symm]
      exact hid
    · exact List.mem_map_of_mem

theorem call_rename (h : Shifted k n g g') (hg : g.Valid) (hn : n ≤ 1) (a : Asked S)
    (hbound : (g'.call (a.rename (shiftId k n))).2.issued < 2 ^ 32) :
    (g'.call (a.rename (shiftId k n))).1 = (g.call a).1.map (shiftId k n) ∧
      Shifted k n (g.call a).2 (g'.call (a.rename (shiftId k n))).2 := by
  have hlt := Nat.lt_of_le_of_lt (issued_call _ g').1 hbound
  have htakes := h.takesId hg hn hlt a.body
  have hissued := h.issued
  unfold Ledger.call at hbound ⊢
  by_cases ht : g.TakesId a.body
  · rw [if_pos ht, if_pos (show g'.TakesId (a.rename (shiftId k n)).body from htakes.2 ht)]
    rw [if_pos (show g'.TakesId (a.rename (shiftId k n)).body from htakes.2 ht)] at hbound
    have hsize : ((a.rename (shiftId k n)).body.size + 6 ≤ BlockSize ∧ (a.rename (shiftId k n)).full = false) ↔
        (a.body.size + 6 ≤ BlockSize ∧ a.full = false) := by
      rw [Asked.rename, EntryBody.size_rename]
    by_cases hp : a.body.size + 6 ≤ BlockSize ∧ a.full = false
    · rw [if_pos hp, if_pos (hsize.2 hp)]
      rw [if_pos (hsize.2 hp)] at hbound
      have hbound : g'.issued + 1 < 2 ^ 32 := hbound
      have hnext : g'.nextId = shiftId k n g.nextId := by
        rw [shiftId_of_gt (by rw [toNat_nextId (by omega)]; have := h.le; omega), nextId, nextId, ← UInt32.ofNat_add,
          hissued, Nat.add_right_comm]
      refine ⟨congrArg some hnext, ?_, ?_, ?_⟩
      · change g'.placed ++ [⟨g'.nextId, _⟩] = (g.placed ++ [_]).map _
        rw [h.placed, hnext, List.map_append]
        rfl
      · change g'.issued + 1 = g.issued + 1 + n
        rw [hissued, Nat.add_right_comm]
      · exact Nat.le_succ_of_le h.le
    · rw [if_neg hp, if_neg (mt hsize.1 hp)]
      refine ⟨rfl, h.placed, ?_, Nat.le_succ_of_le h.le⟩
      change g'.issued + 1 = g.issued + 1 + n
      rw [hissued, Nat.add_right_comm]
  · rw [if_neg ht, if_neg (show ¬ g'.TakesId (a.rename (shiftId k n)).body from mt htakes.1 ht)]
    exact ⟨rfl, h⟩

/-- **Renamed calls have the renamed outcomes.** -/
theorem calls_rename (h : Shifted k n g g') (hg : g.Valid) (hn : n ≤ 1) (as : List (Asked S))
    (hbound : (g'.calls (as.map (Asked.rename (shiftId k n)))).2.issued < 2 ^ 32) :
    (g'.calls (as.map (Asked.rename (shiftId k n)))).1 = (g.calls as).1.map (Option.map (shiftId k n)) ∧
      Shifted k n (g.calls as).2 (g'.calls (as.map (Asked.rename (shiftId k n)))).2 ∧ (g.calls as).2.Valid := by
  induction as generalizing g g' with
  | nil => exact ⟨rfl, h, hg⟩
  | cons a as ih =>
    have hbound' : (g'.call (a.rename (shiftId k n))).2.issued < 2 ^ 32 :=
      Nat.lt_of_le_of_lt (issued_calls _ _) hbound
    obtain ⟨hid, hstep⟩ := call_rename h hg hn a hbound'
    have hvalid := hg.call a (by have := hstep.issued; omega)
    obtain ⟨hids, hrest, hvalid'⟩ := ih hstep hvalid hbound
    refine ⟨?_, hrest, hvalid'⟩
    change _ :: _ = (_ :: _).map _
    rw [List.map_cons, hid, hids]

end Ledger

/-! ### With and without a rejected registration -/

section
variable {S : Schema}

/-- Neither log completes an ID that is unfinished in the other. -/
def Apart (es fs : List (Entry S)) : Prop :=
  (∀ x ∈ unfinished es, x.1 ∉ completedIds fs) ∧ ∀ x ∈ unfinished fs, x.1 ∉ completedIds es

theorem Apart.unfinished_append {es fs : List (Entry S)} (h : Apart es fs) :
    unfinished (es ++ fs) = unfinished es ++ unfinished fs := by
  rw [CppDb.unfinished_append, List.filter_eq_self]
  intro x hx
  rw [completedIds_append]
  rcases List.mem_append.1 hx with hx | hx
  · simpa using ⟨(mem_unfinished.1 hx).2, h.1 x hx⟩
  · simpa using ⟨h.2 x hx, (mem_unfinished.1 hx).2⟩

/-- The number of IDs that a rejected registration takes. -/
def idsTaken (op : Operation S) : ℕ := if (EntryBody.operation op).size ≤ BlockSize then 1 else 0

variable {B : ℕ → Type} [StaticDataBuffer B] {A : Type} [StorageAdapter A] [LogDevice A] [Wheathash]
variable {T : Type} [DecidableEq T] {base : Bytes} {s : System B A S T}

omit [DecidableEq T] in
theorem System.Live.valid (h : s.Live base) : s.toLedger.Valid := by
  obtain ⟨blocks, cur, hplaced, hinv⟩ := h.1.1.log
  refine ⟨fun e he => ?_, fun id hid => ?_⟩
  · have he : e ∈ blocks.flatten ++ cur := by rwa [← hplaced]
    exact ⟨hinv.ticket_pos e he, Nat.le_trans (hinv.ticket_le e he) hinv.lastBlock_le⟩
  · have hid : id ∈ completedIds (blocks.flatten ++ cur) := by rwa [← hplaced]
    exact ⟨(hinv.id_mem hid).1, Nat.le_trans (hinv.id_mem hid).2 hinv.lastBlock_le⟩

theorem System.shifted_of_rejected (h : s.Live base) {t : T} (hidle : s.threads t = .idle) {op : Operation S}
    {now : UInt64} (hreject : ((DbWAL.registerOperation op now).run s.wal).1 = .fail) :
    Ledger.Shifted s.issued (idsTaken op) s.toLedger
      (s.step (.request t (.registerOperation op now))).toLedger := by
  have hvalid := h.valid
  obtain ⟨w, hrun⟩ : ∃ w, (Request.registerOperation op now).perform.run s.wal = (.fail, w) :=
    ⟨_, Prod.ext hreject rfl⟩
  rw [System.step_request_fail h.2 hidle hrun]
  refine ⟨?_, rfl, Nat.le_refl _⟩
  change s.placed = s.placed.map _
  refine (List.map_id _).symm.trans (List.map_congr_left fun e he => ?_)
  have hticket := shiftId_of_le (k := s.issued) (n := idsTaken op) (hvalid.ticket e he).2
  rcases e with ⟨ticket, op' | ⟨opId, status⟩⟩
  · exact congrArg (Entry.mk · _) hticket.symm
  · have hid : opId ∈ completedIds s.placed := List.mem_filterMap.2 ⟨_, he, rfl⟩
    have hopId := shiftId_of_le (k := s.issued) (n := idsTaken op) (hvalid.completed opId hid).2
    rw [Entry.rename, EntryBody.rename, hopId]
    exact congrArg (Entry.mk · _) hticket.symm

/-- After a rejected registration that led to `s'` the same calls have the same outcomes as without it, and
leave the same operations unfinished. -/
theorem System.calls_rejected {s' : System B A S T} (h : s.Live base) (h' : s'.Live base) {op : Operation S}
    (hshift : Ledger.Shifted s.issued (idsTaken op) s.toLedger s'.toLedger) {ls₁ ls₂ : List (Label S T)}
    (hsmooth₁ : Along step Smooth s' ls₁) (hsmooth₂ : Along step Smooth s ls₂)
    (hissued₁ : (run step s' ls₁).issued < 2 ^ 32) (hissued₂ : (run step s ls₂).issued < 2 ^ 32)
    (hsame : (s'.calls ls₁).map CallMade.toAsked =
      (s.calls ls₂).map fun c => c.toAsked.rename (shiftId s.issued (idsTaken op))) :
    (s'.calls ls₁).map CallMade.id = (s.calls ls₂).map (fun c => c.id.map (shiftId s.issued (idsTaken op))) ∧
      unfinished (run step s' ls₁).placed =
        (unfinished (run step s ls₂).placed).map fun x => (shiftId s.issued (idsTaken op) x.1, x.2) := by
  have hn : idsTaken op ≤ 1 := by
    rw [idsTaken]
    split <;> decide
  have hcalls₁ := System.calls_run h' hsmooth₁ hissued₁
  have hcalls₂ := System.calls_run h hsmooth₂ hissued₂
  have hasked : (s'.calls ls₁).map CallMade.toAsked =
      ((s.calls ls₂).map CallMade.toAsked).map (Asked.rename (shiftId s.issued (idsTaken op))) := by
    rw [hsame, List.map_map]
    rfl
  rw [hasked] at hcalls₁
  obtain ⟨hout, hshift', hvalid'⟩ := Ledger.calls_rename hshift h.valid hn _ (by rw [hcalls₁]; exact hissued₁)
  rw [hcalls₁, hcalls₂] at hout hshift'
  rw [hcalls₂] at hvalid'
  refine ⟨?_, hshift'.unfinished_eq hvalid' hn hissued₁⟩
  rw [show (s'.calls ls₁).map CallMade.id = _ from hout, List.map_map]
  rfl

omit [DecidableEq T] in
theorem System.Live.reports (hS : S.checkAssertions = true) (hids : S.ByteIds) {d : A} {old : List (List (Entry S))}
    (h : s.Live (bytes d)) (hd : Stored d old) (hops : ∀ e ∈ s.placed, e.body.Ok)
    (hfits : Fits A ((bytes s.wal.logFile).length + BlockSize)) (hold : Apart old.flatten s.placed) :
    ∃ closed, DbWAL.closeLogFile.run s.wal = (.ret (), closed) ∧ ∀ filePath, ∃ reopened,
      (DbWAL.openLogFile filePath).run closed = (.ret (), reopened) ∧
      ∀ fuel, (bytes reopened.logFile).length / BlockSize < fuel → (reopened.verifyLog S fuel).1 = .ret () ∧
        (reopened.verifyLog S fuel).2.2 = (unfinished old.flatten ++ unfinished s.placed).map Prod.snd := by
  have hholds := h.1.1
  rw [hd.bytes_eq] at hholds
  obtain ⟨closed, blocks, hclose, hflat, hstored⟩ := closeLogFile_stored hd.readable hholds.log hops fun _ => hfits
  refine ⟨closed, hclose, fun filePath => ?_⟩
  obtain ⟨reopened, hopen, hverify⟩ := hstored.verifyLog hS hids filePath
  refine ⟨reopened, hopen, fun fuel hfuel => ?_⟩
  obtain ⟨hret, hreceived⟩ := hverify fuel hfuel
  refine ⟨hret, ?_⟩
  rw [hreceived, List.flatten_append, hflat, hold.unfinished_append]

/-- A rejected registration that leads from `s` to `s'` is harmless for the labels that follow it in either
case: the next entry goes behind the item count, the later calls have the same outcomes up to their IDs, and
when the logs are closed and opened again they report the same operations. -/
structure Harmless (ρ : OpID → OpID) (s' s : System B A S T) (ls' ls : List (Label S T)) : Prop where
  pos : 2 ≤ s'.wal.block.pos
  outcomes : (s'.calls ls').map CallMade.id = (s.calls ls).map fun c => c.id.map ρ
  reports : ∃ closed' closed, DbWAL.closeLogFile.run (run System.step s' ls').wal = (.ret (), closed') ∧
    DbWAL.closeLogFile.run (run System.step s ls).wal = (.ret (), closed) ∧
    ∀ filePath, ∃ reopened' reopened, (DbWAL.openLogFile filePath).run closed' = (.ret (), reopened') ∧
      (DbWAL.openLogFile filePath).run closed = (.ret (), reopened) ∧
      ∀ fuel, (bytes reopened'.logFile).length / BlockSize < fuel →
        (bytes reopened.logFile).length / BlockSize < fuel →
        (reopened'.verifyLog S fuel).1 = .ret () ∧ (reopened.verifyLog S fuel).1 = .ret () ∧
        (reopened'.verifyLog S fuel).2.2 = (reopened.verifyLog S fuel).2.2

end

/-! ### Rejected by a block with an entry in it -/

theorem registerOperation_flush_fail {B : ℕ → Type} [StaticDataBuffer B] {A : Type} [StorageAdapter A] [Wheathash]
    {S : Schema} {w : DbWAL B A} {op : Operation S} {body : Bytes} {p : ℕ} (hb : Filled w.block body p)
    (h0 : 0 < w.blockItemCount) (h1 : w.blockItemCount ≤ 65535) (hpos : 2 ≤ p ∧ p + 6 ≤ BlockSize)
    (hlarge : BlockSize < 2 + (EntryBody.operation op).size) (hsize : (EntryBody.operation op).size ≤ BlockSize) {d : A}
    (hd : (StorageIo.append (blockImage w.blockItemCount body)).run w.logFile = (.ret (), d)) (timeElapsedMs : UInt64) :
    ∃ w', Filled w'.block [] 2 ∧ (DbWAL.registerOperation op timeElapsedMs).run w = (.fail, w') := by
  obtain ⟨b, hb', hflush⟩ := DbWAL.run_finalize_ret (w := { w with lastOpId := w.lastOpId + 1 }) hb h0 h1 hd
  have hmake := makeRoom_flush (w := { w with lastOpId := w.lastOpId + 1 }) (by rw [hb.pos]; exact hpos.2)
    (show BlockSize < w.block.pos + (EntryBody.operation op).size + 33 by rw [hb.pos]; omega) hflush
  obtain ⟨b₁, hwrite, hb₁⟩ := hb'.write_fail
    (show BlockSize < 2 + (Entry.bytes ⟨w.lastOpId + 1, .operation op⟩).length by rwa [Entry.length_bytes])
  exact ⟨_, hb₁, registerOperation_write_fail hsize hmake hwrite timeElapsedMs⟩

theorem run_flushedCall [Wheathash] {op : Operation keySchema} (hsize : (EntryBody.operation op).size = 4095) :
    ∃ s s' : System ListBuffer VectorAdapter keySchema Bool,
      s = run System.step (System.opened {} "") [.request false (.registerOperation (deleteKey [97]) 0)] ∧
      ((DbWAL.registerOperation op 0).run s.wal).1 = .fail ∧ s' = s.step (.request true (.registerOperation op 0)) ∧
      (s.aborted = false ∧ s.threads true = .idle ∧ s.wal.block.pos = 15 ∧ s.wal.blockItemCount = 1 ∧ s.issued = 1) ∧
      s'.aborted = false ∧ s'.threads true = .idle ∧ s'.wal.block.pos = 2 ∧ s'.issued ≤ 2 := by
  obtain ⟨b₁, hb₁, step₁⟩ := System.step_smallEntry (B := ListBuffer) ({} : VectorAdapter) "" false
  obtain ⟨s, hs⟩ : ∃ s : System ListBuffer VectorAdapter keySchema Bool,
      s = run System.step (System.opened {} "") [.request false (.registerOperation (deleteKey [97]) 0)] := ⟨_, rfl⟩
  have hs' := hs
  rw [run_cons, run_nil, step₁] at hs'
  have hgo : s.aborted = false ∧ s.threads true = .idle ∧ s.wal.block.pos = 2 + smallEntry.bytes.length ∧
      s.wal.blockItemCount = 1 ∧ s.issued = 1 := by
    rw [hs']
    exact ⟨rfl, rfl, hb₁.pos, rfl, rfl⟩
  obtain ⟨ha, hidle, hpos, hcount, hissued⟩ := hgo
  rw [length_smallEntry] at hpos
  -- the registration flushes the block and then fails
  obtain ⟨d₁, hd₁, -⟩ := LogDevice.append_ret (A := VectorAdapter) (d := s.wal.logFile) trivial
    (show Fits VectorAdapter (_ + (blockImage 1 smallEntry.bytes).length) from trivial)
  obtain ⟨w', hb', hreject⟩ := registerOperation_flush_fail
    (show Filled s.wal.block smallEntry.bytes (2 + smallEntry.bytes.length) by rw [hs']; exact hb₁)
    (by rw [hcount]; decide) (by rw [hcount]; decide) (by rw [length_smallEntry]; decide) (by rw [hsize]; decide)
    (by rw [hsize]; decide) (by rw [hcount]; exact hd₁) 0
  have hstep := System.step_request_fail (t := true) (r := .registerOperation op 0) ha hidle hreject
  have hle := (System.issued_step s (.request true (.registerOperation op 0))).2
  rw [hissued] at hle
  refine ⟨s, _, hs, by rw [hreject], rfl, ⟨ha, hidle, hpos, hcount, hissued⟩, ?_, ?_, ?_, hle⟩
  · rw [hstep]
    exact ha
  · rw [hstep]
    exact hidle
  · rw [hstep]
    exact hb'.pos

section
variable [Wheathash] {s : System ListBuffer VectorAdapter keySchema Bool} {base : Bytes}

theorem issued_oneDeletion (hissued : s.issued ≤ 2) (t : Bool) (c : UInt8) :
    (run System.step s [.request t (.registerOperation (deleteKey [c]) 0)]).issued < 2 ^ 32 := by
  have hrun := System.issued_run_le s [.request t (.registerOperation (deleteKey [c]) 0)]
  rw [List.length_singleton] at hrun
  omega

theorem smooth_oneDeletion (h : s.Live base) (hissued : s.issued ≤ 2) (t : Bool) (c : UInt8) :
    Along System.step System.Smooth s [.request t (.registerOperation (deleteKey [c]) 0)] := by
  refine System.along_smooth_small h (fun _ => trivial) (by simp) (fun l hl => ?_) (issued_oneDeletion hissued t c)
  rw [List.mem_singleton.1 hl]
  exact size_deleteKey_le _ (Nat.le_of_ble_eq_true rfl)

omit [Wheathash] in
theorem smooth_flushedCall {op : Operation keySchema} (hsize : (EntryBody.operation op).size = 4095)
    (hpos : s.wal.block.pos = 15) (hcount : s.wal.blockItemCount = 1) :
    s.Smooth (.request true (.registerOperation op 0)) := by
  refine ⟨nofun, ⟨fun _ => ?_, fun _ => .inr (by rw [hcount]; decide)⟩, trivial⟩
  change RoomOk s.wal (EntryBody.operation op).size
  rw [RoomOk, hsize]
  split
  · exact .inr (.inr (by decide))
  · rw [hpos]
    decide

theorem calls_oneDeletion {t : Bool} (ha : s.aborted = false) (hidle : s.threads t = .idle)
    (hpos : s.wal.block.pos + 6 ≤ BlockSize) (c : UInt8) :
    (s.calls [.request t (.registerOperation (deleteKey [c]) 0)]).map CallMade.toAsked =
      [{ body := .operation (deleteKey [c]), full := false }] := by
  have hfull : decide (BlockSize < s.wal.block.pos + 6) = false := decide_eq_false (Nat.not_lt.2 hpos)
  rw [System.calls, System.calls, System.callOf_request ha hidle, hfull]
  rfl

end

theorem apart_nil {S : Schema} (es : List (Entry S)) : Apart [] es :=
  ⟨fun _ hx => absurd hx List.not_mem_nil, fun _ _ => List.not_mem_nil⟩

section
variable {B : ℕ → Type} [StaticDataBuffer B] {A : Type} [StorageAdapter A] [Wheathash] {S : Schema}
variable {w : DbWAL B A} {op : Operation S}

/-- An entry that is too large for an empty block: the position goes back to the item count. -/
theorem registerOperation_rewinds (hlarge : MaxEntrySize < (EntryBody.operation op).size)
    (hsize : (EntryBody.operation op).size ≤ BlockSize) (hb : Filled w.block [] 2) (hcount : w.blockItemCount = 0)
    (timeElapsedMs : UInt64) :
    ∃ b, Filled b [] 0 ∧ (DbWAL.registerOperation op timeElapsedMs).run w =
      (.fail, { w with lastOpId := w.lastOpId + 1, block := b }) := by
  refine ⟨_, hb.seek (Nat.zero_le _), registerOperation_room_fail hsize ?_ timeElapsedMs⟩
  refine makeRoom_flush (w := { w with lastOpId := w.lastOpId + 1 }) (by rw [hb.pos]; decide) ?_
    (DbWAL.run_finalize_empty (w := { w with lastOpId := w.lastOpId + 1 }) hcount)
  rw [hb.pos]
  simp only [MaxEntrySize, BlockSize] at hlarge ⊢
  omega

/-- There the next entry is stored over the item count, and up to two bytes more fit. -/
theorem registerOperation_over_count (hsize : (EntryBody.operation op).size ≤ MaxEntrySize + 2)
    (hb : Filled w.block [] 0) (timeElapsedMs : UInt64) : ∃ l w',
    (DbWAL.registerOperation op timeElapsedMs).run w = (.ret l, w') := by
  have hpos := hb.pos
  obtain ⟨count, rest, -, hshows⟩ := hb
  simp only [MaxEntrySize, BlockSize] at hsize
  obtain ⟨b, hwrite, -⟩ := hshows.write
    (show 0 + (Entry.bytes ⟨w.lastOpId + 1, .operation op⟩).length ≤ BlockSize by
      rw [Entry.length_bytes, BlockSize]
      change 0 + (EntryBody.operation op).size ≤ _
      omega)
  have hmake : (DbWAL.makeRoom false (EntryBody.operation op).size).run
      { w with lastOpId := w.lastOpId + 1 } = (.ret (), { w with lastOpId := w.lastOpId + 1 }) :=
    makeRoom_here (by rw [hpos, BlockSize]; omega)
  have hrun := registerEntry_ret (w.lastOpId + 1) hmake hwrite timeElapsedMs
  rw [← run_registerOperation (by rw [BlockSize]; omega)] at hrun
  exact ⟨_, _, hrun⟩

end

/-- A new log before and after it rejects an entry that is too large for an empty block: another thread finds the
position at the item count, or over it. -/
theorem run_rewound [Wheathash] (op : Operation keySchema) (hlarge : MaxEntrySize < (EntryBody.operation op).size)
    (hsize : (EntryBody.operation op).size ≤ BlockSize) : ∃ s s' : System ListBuffer VectorAdapter keySchema Bool,
      s = System.opened {} "" ∧ ((DbWAL.registerOperation op 0).run s.wal).1 = .fail ∧
      s' = s.step (.request false (.registerOperation op 0)) ∧ s.threads false = .idle ∧ s.Resting true ∧ s.issued = 0 ∧
      (Filled s'.wal.block [] 0 ∧ s'.aborted = false ∧ s'.threads true = .idle ∧ s'.issued ≤ 1) := by
  obtain ⟨b₀, hb₀, hopened⟩ := System.opened_eq (B := ListBuffer) (S := keySchema) (T := Bool) ({} : VectorAdapter) ""
  obtain ⟨s, hs⟩ : ∃ s, s = (System.opened {} "" : System ListBuffer VectorAdapter keySchema Bool) := ⟨_, rfl⟩
  have hs₀ := hs.trans hopened
  have hrest : s.threads false = .idle ∧ s.Resting true ∧ s.issued = 0 := by
    rw [hs₀]
    exact ⟨rfl, ⟨hb₀, rfl, rfl, rfl⟩, rfl⟩
  obtain ⟨b, hb, hreject⟩ := registerOperation_rewinds hlarge hsize hrest.2.1.block hrest.2.1.blockItemCount 0
  have hstep := System.step_request_fail (r := .registerOperation op 0) hrest.2.1.aborted hrest.1 hreject
  have hissued := (System.issued_step s (.request false (.registerOperation op 0))).2
  rw [hrest.2.2] at hissued
  refine ⟨s, _, hs, by rw [hreject], rfl, hrest.1, hrest.2.1, hrest.2.2, ?_, ?_, ?_, hissued⟩
  · rw [hstep]
    exact hb
  · rw [hstep]
    exact hrest.2.1.aborted
  · rw [hstep]
    exact hrest.2.1.idle

end CppDb
