import CppDb.LogDevice
import CppDb.WalRuns

/-!
# The log as its callers see it

`Ledger.call` says what a call does to a log without blocks, buffers or a device: it takes an ID or does
not, and places its entry or does not. `System.calls_run` connects it to the log: along every run that
is `Smooth` (the space checks go well, the device has room), the calls have the outcomes and leave the
ledger that `Ledger.calls` says. So what a log contains can be computed from the calls alone.
-/

namespace CppDb
open Embed
open ReadableAdapter (Ok bytes)
open MemoryAdapter (Fits)

namespace Ledger
variable {S : Schema}

def pending (g : Ledger S) : List OpID := (unfinished g.placed).map Prod.fst

def nextId (g : Ledger S) : OpID := UInt32.ofNat (g.issued + 1)

def TakesId (g : Ledger S) : EntryBody S → Prop
  | .operation op => (EntryBody.operation op).size ≤ BlockSize
  | .completion opId _ => opId ∈ g.pending

instance (g : Ledger S) (body : EntryBody S) : Decidable (g.TakesId body) := by
  cases body <;> unfold TakesId <;> infer_instance

/-- A call that takes an ID places its entry, unless that is too large for a block or the space check
wraps around. -/
def call (a : Asked S) (g : Ledger S) : Option OpID × Ledger S :=
  if g.TakesId a.body then
    if a.body.size + 6 ≤ BlockSize ∧ a.full = false then
      (some g.nextId, { placed := g.placed ++ [⟨g.nextId, a.body⟩], issued := g.issued + 1 })
    else (none, { g with issued := g.issued + 1 })
  else (none, g)

def calls : List (Asked S) → Ledger S → List (Option OpID) × Ledger S
  | [], g => ([], g)
  | a :: as, g => ((g.call a).1 :: (calls as (g.call a).2).1, (calls as (g.call a).2).2)

end Ledger

section
variable {B : ℕ → Type} [StaticDataBuffer B] {A : Type} [StorageAdapter A] [LogDevice A] [Wheathash]
variable {S : Schema} {base : Bytes}

omit [StorageAdapter A] [LogDevice A] in
theorem takesId_iff {D : A → List (List (Entry S)) → Prop} {s : Logged B A S}
    {blocks : List (List (Entry S))} {cur : List (Entry S)} (hplaced : s.placed = blocks.flatten ++ cur)
    (h : Inv D s.wal blocks cur s.issued) (r : Request S) : r.TakesId s.wal ↔ s.toLedger.TakesId r.body := by
  cases r with
  | registerOperation op now => rfl
  | updateOpStatus opId status now =>
    rw [Request.TakesId, Request.body, Ledger.TakesId, Ledger.pending, hplaced, ← h.pending]

/-- The block is not near its end and, where a flush is due, there is something to flush and room for it:
only the size of an entry can keep it out. -/
theorem admits_of_fine {w : DbWAL B A} {blocks : List (List (Entry S))} {cur : List (Entry S)}
    {issued size : ℕ} (h : Inv (OnOpenDevice base) w blocks cur issued) (hpos : 2 ≤ w.block.pos)
    (hlarge : size ≤ MaxEntrySize ∨ w.blockItemCount ≠ 0) (hfits : Fits A ((bytes w.logFile).length + BlockSize))
    (hsize : size + 6 ≤ BlockSize) (hfull : w.block.pos + 6 ≤ BlockSize) : Admits w cur size := by
  refine ⟨hsize, hfull, fun hreq => ?_⟩
  have hcur : cur ≠ [] := by
    rintro rfl
    rcases hlarge with hlarge | hcount
    · rw [h.not_required_of_empty hpos hlarge] at hreq
      exact absurd hreq Bool.false_ne_true
    · exact hcount h.count
  have hlen : (encodeBlock cur).length = BlockSize := length_blockImage (by have := h.room; omega)
  obtain ⟨d, hd, -⟩ := LogDevice.append_ret h.device.1.1
    (show Fits A (_ + (encodeBlock cur).length) by rwa [hlen])
  exact ⟨hcur, d, hd⟩

/-- **A call does what the ledger says.** -/
theorem Logged.request_ledger {s : Logged B A S} (h : s.Holds (OnOpenDevice base)) (hpos : 2 ≤ s.wal.block.pos)
    {r : Request S} (hbound : (s.request r).2.issued < 2 ^ 32) (hroom : r.RoomOk s.wal)
    (hlarge : r.NotTooLarge s.wal) (hfits : Fits A ((bytes s.wal.logFile).length + BlockSize)) :
    s.toLedger.call ⟨r.body, decide (BlockSize < s.wal.block.pos + 6)⟩ =
      (outcome (s.request r).1, (s.request r).2.toLedger) := by
  obtain ⟨blocks, cur, hplaced, hinv⟩ := h
  have htakes : r.TakesId s.wal → s.issued + 1 < 2 ^ 32 := by
    intro ht
    have hi : (s.request r).2.issued = s.issued + if r.TakesId s.wal then 1 else 0 := rfl
    rwa [hi, if_pos ht] at hbound
  have hspec := Request.spec (tracks_onOpenDevice base) hinv htakes hroom
  rcases hrun : r.perform.run s.wal with ⟨x, w'⟩
  have hreq : s.request r = (x, { wal := w', placed := s.placed ++ r.entries x
                                  issued := s.issued + if r.TakesId s.wal then 1 else 0 }) := by
    rw [request, hrun]
  rw [hrun] at hspec
  rw [hreq, Ledger.call]
  cases hspec with
  | @placed l w' blocks' cur' ht hsize hnotFull hid hentry hsame hflushed hpos hinv' =>
    have hid' : l.currentOpId = s.toLedger.nextId := by
      rw [hid, Ledger.nextId, ← hinv'.lastOpId, UInt32.ofNat_toNat]
    rw [if_pos ((takesId_iff hplaced hinv r).1 ht), if_pos ⟨hsize, by simpa using hnotFull⟩, if_pos ht]
    simp only [outcome, Request.entries, hid']
  | @failed w' blocks' cur' ht hwhy hsame hflushed hpos' hinv' =>
    have hno : ¬ (r.body.size + 6 ≤ BlockSize ∧ decide (BlockSize < s.wal.block.pos + 6) = false) := by
      rintro ⟨hsize, hnotFull⟩
      exact hwhy (admits_of_fine hinv hpos (hlarge ht) hfits hsize (by simpa using hnotFull))
    rw [if_pos ((takesId_iff hplaced hinv r).1 ht), if_neg hno, if_pos ht]
    simp only [outcome, Request.entries, List.append_nil]
  | refused ht =>
    rw [if_neg (mt (takesId_iff hplaced hinv r).2 ht), if_neg ht]
    simp only [outcome, Request.entries, List.append_nil, Nat.add_zero]

theorem flushOnTimeout_of_fits {w : DbWAL B A} {blocks : List (List (Entry S))} {cur : List (Entry S)}
    {issued : ℕ} (h : Inv (OnOpenDevice base) w blocks cur issued) {e : Entry S}
    (he : e ∈ blocks.flatten ++ cur) (hfits : Fits A ((bytes w.logFile).length + BlockSize)) :
    ∃ w', (DbWAL.flushOnTimeout e.ticket).run w = (.ret (), w') := by
  by_cases hlt : w.lastFlushedOpId < e.ticket
  · have hcur := h.cur_ne_nil he hlt
    have hlen : (encodeBlock cur).length = BlockSize := length_blockImage (by have := h.room; omega)
    obtain ⟨d, hd, -⟩ := LogDevice.append_ret h.device.1.1
      (show Fits A (_ + (encodeBlock cur).length) by rwa [hlen])
    obtain ⟨w', hrun, -⟩ := h.finalize_ret (tracks_onOpenDevice base) hcur hd
    exact ⟨w', flushOnTimeout_ret hlt hrun⟩
  · refine ⟨w, ?_⟩
    rw [DbWAL.flushOnTimeout, Proc.run_read_bind, Proc.run_ite, if_neg hlt]
    rfl

/-! ### Runs -/

variable {T : Type} [DecidableEq T]

namespace System
variable {s : System B A S T} {l : Label S T} {ls : List (Label S T)}

/-- The log stays open, a call finds room, and so does a block on the device. -/
def Smooth (s : System B A S T) (l : Label S T) : Prop :=
  l ≠ .closeLogFile ∧ s.Fine l ∧ Fits A ((bytes s.wal.logFile).length + BlockSize)

/-- A log in use. -/
def Live (base : Bytes) (s : System B A S T) : Prop :=
  (s.Holds (OnOpenDevice base) ∧ 2 ≤ s.wal.block.pos) ∧ s.aborted = false

theorem Live.step (h : s.Live base) (hsmooth : s.Smooth l) (hbound : (s.step l).issued < 2 ^ 32) :
    (s.step l).Live base := by
  obtain ⟨⟨hholds, hpos⟩, ha⟩ := h
  obtain ⟨hopen, hfine, hfits⟩ := hsmooth
  refine ⟨Holds.step_fine (tracks_onOpenDevice base) ⟨hholds, hpos⟩ (fun hl => absurd hl hopen) hfine hbound, ?_⟩
  unfold System.step at hbound ⊢
  rw [if_neg (by rw [ha]; exact Bool.false_ne_true)] at hbound ⊢
  cases l with
  | request t r =>
    change (s.request t r).issued < 2 ^ 32 at hbound
    change (s.request t r).aborted = false
    rw [System.request] at hbound ⊢
    rcases ht : s.threads t with _ | l | l
    · rw [ht] at hbound
      rcases hreq : s.toLogged.request r with ⟨x, logged⟩
      have hissued : (s.toLogged.request r).2.issued < 2 ^ 32 := by
        rw [hreq] at hbound ⊢
        rcases x with l | _ | m | _ <;> exact hbound
      obtain ⟨-, -, -, hout⟩ := Logged.request_cases (tracks_onOpenDevice base) hholds.log hissued hfine.1
      rw [hreq] at hout
      rcases hout with ⟨l, hx, -⟩ | ⟨hx, -⟩
      · have hx : x = .ret l := hx
        subst hx
        exact ha
      · have hx : x = .fail := hx
        subst hx
        exact ha
    · exact ha
    · exact ha
  | poll t now =>
    change (s.poll t now).aborted = false
    rw [System.poll]
    rcases s.threads t with _ | l | l
    · exact ha
    · dsimp only
      split
      · split <;> exact ha
      · exact ha
    · exact ha
  | timeout t =>
    change (s.timeout t).aborted = false
    rw [System.timeout]
    rcases ht : s.threads t with _ | l | l
    · exact ha
    · exact ha
    · obtain ⟨blocks, cur, hplaced, hinv⟩ := hholds.log
      obtain ⟨e, he, hticket, -⟩ := hholds.waiting t l (.inr ht)
      rw [hplaced] at he
      obtain ⟨w', hrun⟩ := flushOnTimeout_of_fits hinv he hfits
      rw [hticket] at hrun
      have hwal : s.toLogged.onWal (DbWAL.flushOnTimeout l.currentOpId) =
          (.ret (), { s.toLogged with wal := w' }) := by
        rw [Logged.onWal, hrun]
      dsimp only
      rw [hwal]
      exact ha
  | closeLogFile => exact absurd rfl hopen

theorem Live.step_ledger (h : s.Live base) (hsmooth : s.Smooth l) (hbound : (s.step l).issued < 2 ^ 32) :
    match s.callOf l with
    | some c => s.toLedger.call c.toAsked = (c.id, (s.step l).toLedger)
    | none => (s.step l).toLedger = s.toLedger := by
  rcases hcall : s.callOf l with _ | c
  · exact callOf_none hcall
  obtain ⟨t, r, rfl, -, -, hbody, hfull, hid, hlogged⟩ := callOf_some hcall
  obtain ⟨⟨hholds, hpos⟩, -⟩ := h
  obtain ⟨-, ⟨hroom, hlarge⟩, hfits⟩ := hsmooth
  have hledger := Logged.request_ledger (r := r) hholds.log hpos
    (by rw [← hlogged]; exact hbound) hroom hlarge hfits
  rw [← hfull, ← hbody] at hledger
  dsimp only
  rw [hledger, hid, ← hlogged]
  rfl

/-- **The calls of a run are those of the ledger.** -/
theorem calls_run (h : s.Live base) (hsmooth : Along step Smooth s ls)
    (hissued : (run step s ls).issued < 2 ^ 32) :
    s.toLedger.calls ((s.calls ls).map CallMade.toAsked) =
      ((s.calls ls).map CallMade.id, (run step s ls).toLedger) := by
  induction ls generalizing s with
  | nil => rfl
  | cons l ls ih =>
    have hbound := (along_issued hissued).1
    have hstep := h.step_ledger hsmooth.1 hbound
    have hrest := ih (h.step hsmooth.1 hbound) hsmooth.2 hissued
    rw [calls, run_cons]
    rcases hcall : s.callOf l with _ | c
    · rw [hcall] at hstep
      dsimp only at hstep
      rw [← hstep]
      exact hrest
    · rw [hcall] at hstep
      dsimp only at hstep
      simp only [Option.toList_some, List.singleton_append, List.map_cons, Ledger.calls, hstep, hrest]

omit [DecidableEq T] in
theorem live_opened {d : A} (h : Ok d) (hclosed : LogDevice.isOpen d = false) (filePath : String) :
    (opened d filePath : System B A S T).Live (bytes d) :=
  ⟨holds_opened (onOpenDevice_open h hclosed filePath), rfl⟩

theorem along_smooth_small (h : s.Live base) (hfits : ∀ n, Fits A n) (hopen : ∀ l ∈ ls, l ≠ .closeLogFile)
    (hsmall : ∀ l ∈ ls, l.Small) (hissued : (run step s ls).issued < 2 ^ 32) : Along step Smooth s ls :=
  Along.of_invariant (P := fun s : System B A S T => s.Live base)
    (fun _ _ hs hc => hs.step ⟨hc.1, fine_of_small hs.1.2 hc.2.1, hfits _⟩ hc.2.2)
    (fun _ _ hs hc => ⟨hc.1, fine_of_small hs.1.2 hc.2.1, hfits _⟩) h
    ((Along.of_forall hopen).and ((Along.of_forall hsmall).and (along_issued hissued)))

theorem live_run (h : s.Live base) (hsmooth : Along step Smooth s ls)
    (hissued : (run step s ls).issued < 2 ^ 32) : (run step s ls).Live base :=
  Along.invariant (fun _ _ hs hc => hs.step hc.1 hc.2) h (hsmooth.and (along_issued hissued))

end System

end

end CppDb
