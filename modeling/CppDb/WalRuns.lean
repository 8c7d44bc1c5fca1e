import CppDb.WalCalls
import CppDb.WalThreads

/-!
# Runs of the log

`System.Holds D` is the invariant of the whole system: that of the log (`Inv`), every waiting call has
its entry in a block, and every call that has returned has it in a flushed one. `System.holds_run`
carries it through every interleaving whose space checks go well (`System.RoomOk`), and
`System.holds_run_small` through every interleaving of entries of at most `MaxEntrySize` bytes.
-/

namespace CppDb
open Embed

section
variable {B : ℕ → Type} [StaticDataBuffer B] {A : Type} [StorageAdapter A] [Wheathash] {S : Schema}
variable {D : A → List (List (Entry S)) → Prop}

/-- Where the call takes an ID, the space check lets its entry go where it can be read back. -/
def Request.RoomOk (w : DbWAL B A) (r : Request S) : Prop := r.TakesId w → CppDb.RoomOk w r.body.size

/-- Where the call takes an ID, its entry is not too large for an empty block, or the block is not empty. -/
def Request.NotTooLarge (w : DbWAL B A) (r : Request S) : Prop :=
  r.TakesId w → r.body.size ≤ MaxEntrySize ∨ w.blockItemCount ≠ 0

theorem Request.run_refused {w : DbWAL B A} {r : Request S} (h : ¬ r.TakesId w) :
    r.perform.run w = (.fail, w) := by
  cases r with
  | registerOperation op now => exact run_registerOperation_overflow (Nat.not_le.1 h) now w
  | updateOpStatus opId status now => exact run_updateOpStatus_refused h status now

theorem Request.spec (hD : Tracks D) {w : DbWAL B A} {blocks : List (List (Entry S))} {cur : List (Entry S)}
    {issued : ℕ} (h : Inv D w blocks cur issued) {r : Request S}
    (hbound : r.TakesId w → issued + 1 < 2 ^ 32) (hroom : r.RoomOk w) :
    CallSpec D w blocks cur issued r.body (r.TakesId w) (r.perform.run w) := by
  cases r with
  | registerOperation op now => exact registerOperation_spec hD h hbound hroom now
  | updateOpStatus opId status now => exact updateOpStatus_spec hD h hbound hroom now

namespace Logged
variable {s s' : Logged B A S}

/-- What is placed is in the log or in the block. -/
def Holds (D : A → List (List (Entry S)) → Prop) (s : Logged B A S) : Prop :=
  ∃ blocks cur, s.placed = blocks.flatten ++ cur ∧ Inv D s.wal blocks cur s.issued

omit [StaticDataBuffer B] [StorageAdapter A] [Wheathash] in
/-- The entry of a call is in a block. -/
def Placed (s : Logged B A S) (l : Locals) : Prop :=
  ∃ e ∈ s.placed, e.ticket = l.currentOpId ∧ e.bytes = l.entry

omit [StaticDataBuffer B] [StorageAdapter A] [Wheathash] in
theorem Placed.mono {l : Locals} (h : s.Placed l) (hsub : s.placed ⊆ s'.placed) : s'.Placed l :=
  let ⟨e, he, h'⟩ := h; ⟨e, hsub he, h'⟩

/-- What a call comes to. -/
theorem request_cases (hD : Tracks D) (h : s.Holds D) {r : Request S}
    (hbound : (s.request r).2.issued < 2 ^ 32) (hroom : r.RoomOk s.wal) :
    (s.request r).2.Holds D ∧ s.wal.lastFlushedOpId.toNat ≤ (s.request r).2.wal.lastFlushedOpId.toNat ∧
      (2 ≤ s.wal.block.pos → r.NotTooLarge s.wal → 2 ≤ (s.request r).2.wal.block.pos) ∧
      ((∃ l, (s.request r).1 = .ret l ∧ l.entry = Entry.bytes ⟨l.currentOpId, r.body⟩ ∧
          (s.request r).2.placed = s.placed ++ [⟨l.currentOpId, r.body⟩]) ∨
        (s.request r).1 = .fail ∧ (s.request r).2.placed = s.placed) := by
  obtain ⟨blocks, cur, hplaced, hinv⟩ := h
  have htakes : r.TakesId s.wal → s.issued + 1 < 2 ^ 32 := by
    intro ht
    have hi : (s.request r).2.issued = s.issued + if r.TakesId s.wal then 1 else 0 := rfl
    rwa [hi, if_pos ht] at hbound
  have hspec := Request.spec hD hinv htakes hroom
  rcases hrun : r.perform.run s.wal with ⟨x, w'⟩
  have hreq : s.request r = (x, { wal := w', placed := s.placed ++ r.entries x
                                  issued := s.issued + if r.TakesId s.wal then 1 else 0 }) := by
    rw [request, hrun]
  rw [hrun] at hspec
  rw [hreq]
  cases hspec with
  | @placed l w' blocks' cur' ht hsize hnotFull hid hentry hsame hflushed hpos hinv' =>
    refine ⟨⟨blocks', cur', ?_, ?_⟩, hflushed, fun h2 hlarge => hpos h2 (hlarge ht), .inl ⟨l, rfl, ?_, rfl⟩⟩
    · rw [hsame, hplaced, ← hid]; rfl
    · rw [if_pos ht]; exact hinv'
    · rw [hid]; exact hentry
  | @failed w' blocks' cur' ht hwhy hsame hflushed hpos hinv' =>
    refine ⟨⟨blocks', cur', ?_, ?_⟩, hflushed, fun h2 hlarge => hpos h2 (hlarge ht),
      .inr ⟨rfl, List.append_nil _⟩⟩
    · rw [hsame, ← hplaced]; exact List.append_nil _
    · rw [if_pos ht]; exact hinv'
  | refused ht =>
    refine ⟨⟨blocks, cur, ?_, ?_⟩, Nat.le_refl _, fun h2 _ => h2, .inr ⟨rfl, List.append_nil _⟩⟩
    · rw [← hplaced]; exact List.append_nil _
    · rw [if_neg ht]; exact hinv

omit [StorageAdapter A] in
/-- What a flush comes to. -/
theorem onWal_cases {p : Proc (DbWAL B A) Unit} {blocks : List (List (Entry S))} {cur : List (Entry S)}
    {done : DbWAL B A → List (Entry S) → Prop} (hplaced : s.placed = blocks.flatten ++ cur)
    (h : FlushSpec D s.wal blocks cur s.issued done (p.run s.wal)) :
    (s.onWal p).2.Holds D ∧ (s.onWal p).2.placed = s.placed ∧
      s.wal.lastFlushedOpId.toNat ≤ (s.onWal p).2.wal.lastFlushedOpId.toNat ∧
      (2 ≤ s.wal.block.pos → 2 ≤ (s.onWal p).2.wal.block.pos) ∧
      ((s.onWal p).1 = .ret () → ∃ cur', done (s.onWal p).2.wal cur') := by
  rcases hrun : p.run s.wal with ⟨x, w'⟩
  have hwal : s.onWal p = (x, { s with wal := w' }) := by rw [onWal, hrun]
  rw [hrun] at h
  rw [hwal]
  cases h with
  | ret hids hsame hdone hpos hinv =>
    exact ⟨⟨_, _, hplaced.trans hsame.symm, hinv⟩, rfl, hids.lastFlushed_le, hpos, fun _ => ⟨_, hdone⟩⟩
  | stop hx hids hsame hpos hinv =>
    exact ⟨⟨_, _, hplaced.trans hsame.symm, hinv⟩, rfl, hids.lastFlushed_le, hpos, fun h => absurd h hx⟩

end Logged

/-! ### The whole system -/

variable {T : Type} [DecidableEq T]

/-- The operation in a call has the types of the record's operations. -/
def Label.Ok : Label S T → Prop
  | .request _ r => r.body.Ok
  | _ => True

/-- The entry of a call is not larger than what an empty block takes. -/
def Label.Small : Label S T → Prop
  | .request _ r => r.body.size ≤ MaxEntrySize
  | _ => True

namespace System
variable {s : System B A S T} {l : Label S T} {ls : List (Label S T)}

def RoomOk (s : System B A S T) : Label S T → Prop
  | .request _ r => r.RoomOk s.wal
  | _ => True

structure Holds (D : A → List (List (Entry S)) → Prop) (s : System B A S T) : Prop where
  log : s.toLogged.Holds D
  waiting : ∀ t l, s.threads t = .waiting l ∨ s.threads t = .atMutex l → s.Placed l
  returned : ∀ l ∈ s.returned, s.Placed l ∧ l.currentOpId.toNat ≤ s.wal.lastFlushedOpId.toNat

omit [StorageAdapter A] [DecidableEq T] in
theorem Holds.setLogged (h : s.Holds D) {logged : Logged B A S} (hlog : logged.Holds D)
    (hsub : s.placed ⊆ logged.placed)
    (hflushed : s.wal.lastFlushedOpId.toNat ≤ logged.wal.lastFlushedOpId.toNat) (aborted : Bool) :
    Holds D { s with toLogged := logged, aborted := aborted } where
  log := hlog
  waiting t l hl := (h.waiting t l hl).mono hsub
  returned l hl := ⟨(h.returned l hl).1.mono hsub, Nat.le_trans (h.returned l hl).2 hflushed⟩

omit [StorageAdapter A] in
theorem Holds.setThread (h : s.Holds D) (t : T) {x : Thread}
    (hx : ∀ l, x = .waiting l ∨ x = .atMutex l → s.Placed l) : (s.setThread t x).Holds D where
  log := h.log
  waiting t' l hl := by
    by_cases ht : t' = t
    · subst ht
      simp only [System.setThread, Function.update_self] at hl
      exact hx l hl
    · simp only [System.setThread, Function.update_of_ne ht] at hl
      exact h.waiting t' l hl
  returned := h.returned

omit [StorageAdapter A] in
theorem Holds.finish (h : s.Holds D) (t : T) {l : Locals} (hl : s.Placed l)
    (hflushed : l.currentOpId.toNat ≤ s.wal.lastFlushedOpId.toNat) : (s.finish t l).Holds D where
  log := h.log
  waiting := (h.setThread t (x := .idle) (by simp)).waiting
  returned l' hl' := by
    rcases List.mem_append.1 hl' with hl' | hl'
    · exact h.returned l' hl'
    · rw [List.mem_singleton.1 hl']; exact ⟨hl, hflushed⟩

def NotTooLarge (s : System B A S T) : Label S T → Prop
  | .request _ r => r.NotTooLarge s.wal
  | _ => True

/-- Where the log is closed, that goes well for `D`. -/
def ClosesOk (D : A → List (List (Entry S)) → Prop) (s : System B A S T) (l : Label S T) : Prop :=
  l = .closeLogFile → ClosesWell D s.wal

theorem along_closesOk (hclose : Closes D) : Along step (ClosesOk D) s ls :=
  (Along.of_forall fun _ _ => trivial).mono fun _ _ _ _ => .inl hclose

theorem along_closesOk_of_ne (hne : ∀ l ∈ ls, l ≠ .closeLogFile) : Along step (ClosesOk D) s ls :=
  (Along.of_forall hne).mono fun _ _ h hl => absurd hl h

/-- What a step from `s` to `s'` preserves. -/
def Kept (D : A → List (List (Entry S)) → Prop) (l : Label S T) (s s' : System B A S T) : Prop :=
  s'.Holds D ∧ (2 ≤ s.wal.block.pos → s.NotTooLarge l → 2 ≤ s'.wal.block.pos)

theorem Holds.request (hD : Tracks D) (h : s.Holds D) {t : T} {r : Request S}
    (hroom : r.RoomOk s.wal) (hbound : (s.request t r).issued < 2 ^ 32) :
    Kept D (.request t r) s (s.request t r) := by
  rw [System.request] at hbound ⊢
  rcases ht : s.threads t with _ | l | l
  · rw [ht] at hbound
    rcases hreq : s.toLogged.request r with ⟨x, logged⟩
    have hissued : (s.toLogged.request r).2.issued < 2 ^ 32 := by
      rw [hreq] at hbound ⊢
      rcases x with l | _ | m | _ <;> exact hbound
    obtain ⟨hlog, hflushed, hpos, hout⟩ := Logged.request_cases hD h.log hissued hroom
    rw [hreq] at hlog hflushed hpos hout
    dsimp only
    rcases hout with ⟨l, hx, hentry, hplaced⟩ | ⟨hx, hplaced⟩
    · have hx : x = .ret l := hx
      subst hx
      have hplaced : logged.placed = s.placed ++ [⟨l.currentOpId, r.body⟩] := hplaced
      have hsub : s.placed ⊆ logged.placed := by rw [hplaced]; exact List.subset_append_left ..
      refine ⟨?_, hpos⟩
      refine (h.setLogged hlog hsub hflushed s.aborted).setThread t fun l' hl' => ?_
      have hl' : l = l' := by simpa using hl'
      subst hl'
      refine ⟨⟨l.currentOpId, r.body⟩, ?_, rfl, hentry.symm⟩
      change _ ∈ logged.placed
      rw [hplaced]
      exact List.mem_append_right _ (List.mem_singleton_self _)
    · have hx : x = .fail := hx
      subst hx
      have hplaced : logged.placed = s.placed := hplaced
      exact ⟨h.setLogged hlog (by rw [hplaced]; exact List.Subset.refl _) hflushed s.aborted, hpos⟩
  · exact ⟨h, fun h2 _ => h2⟩
  · exact ⟨h, fun h2 _ => h2⟩

omit [StorageAdapter A] in
theorem Holds.poll (h : s.Holds D) (t : T) (now : UInt64) : Kept D (.poll t now) s (s.poll t now) := by
  rw [System.poll]
  rcases ht : s.threads t with _ | l | l
  · exact ⟨h, fun h2 _ => h2⟩
  · have hl := h.waiting t l (.inl ht)
    dsimp only
    split
    · split
      · exact ⟨h.setThread t (by simpa using hl), fun h2 _ => h2⟩
      · exact ⟨h, fun h2 _ => h2⟩
    · next hlt => exact ⟨h.finish t hl (Nat.le_of_not_lt hlt), fun h2 _ => h2⟩
  · exact ⟨h, fun h2 _ => h2⟩

theorem Holds.timeout (hD : Tracks D) (h : s.Holds D) (t : T) : Kept D (.timeout t) s (s.timeout t) := by
  rw [System.timeout]
  rcases ht : s.threads t with _ | l | l
  · exact ⟨h, fun h2 _ => h2⟩
  · exact ⟨h, fun h2 _ => h2⟩
  · have hl := h.waiting t l (.inr ht)
    obtain ⟨blocks, cur, hplaced, hinv⟩ := h.log
    obtain ⟨e, he, hticket, -⟩ := h.waiting t l (.inr ht)
    rw [hplaced] at he
    obtain ⟨hlog, hsame, hflushed, hpos, hdone⟩ :=
      Logged.onWal_cases hplaced (flushOnTimeout_spec hD hinv ⟨e, he, hticket⟩)
    rcases hwal : s.toLogged.onWal (DbWAL.flushOnTimeout l.currentOpId) with ⟨x, logged⟩
    rw [hwal] at hlog hsame hflushed hpos hdone
    have hsame : logged.placed = s.placed := hsame
    have hsub : s.placed ⊆ logged.placed := by rw [hsame]; exact List.Subset.refl _
    dsimp only
    rw [hwal]
    rcases x with u | _ | m | _
    · obtain ⟨-, hdone⟩ := hdone rfl
      exact ⟨(h.setLogged hlog hsub hflushed s.aborted).finish t (hl.mono hsub) hdone, fun h2 _ => hpos h2⟩
    · exact ⟨h.setLogged hlog hsub hflushed true, fun h2 _ => hpos h2⟩
    · exact ⟨h.setLogged hlog hsub hflushed true, fun h2 _ => hpos h2⟩
    · exact ⟨h.setLogged hlog hsub hflushed true, fun h2 _ => hpos h2⟩

omit [DecidableEq T] in
theorem Holds.closeLogFile (hD : Tracks D) (hclose : ClosesWell D s.wal) (h : s.Holds D) :
    Kept D .closeLogFile s s.closeLogFile := by
  obtain ⟨blocks, cur, hplaced, hinv⟩ := h.log
  obtain ⟨hlog, hsame, hflushed, hpos, -⟩ := Logged.onWal_cases hplaced (closeLogFile_spec hD hclose hinv)
  exact ⟨h.setLogged hlog (by rw [hsame]; exact List.Subset.refl _) hflushed s.aborted,
    fun h2 _ => hpos h2⟩

/-- A step, in each of its kinds. -/
theorem Holds.step (hD : Tracks D) (h : s.Holds D) (hclose : s.ClosesOk D l)
    (hroom : s.RoomOk l) (hbound : (s.step l).issued < 2 ^ 32) : Kept D l s (s.step l) := by
  unfold System.step at hbound ⊢
  by_cases haborted : s.aborted = true
  · rw [if_pos haborted]
    exact ⟨h, fun h2 _ => h2⟩
  rw [if_neg haborted] at hbound ⊢
  cases l with
  | request t r => exact h.request hD hroom hbound
  | poll t now => exact h.poll t now
  | timeout t => exact h.timeout hD t
  | closeLogFile => exact h.closeLogFile hD (hclose rfl)

/-! ### Runs -/

theorem issued_request (ha : s.aborted = false) {t : T} (ht : s.threads t = .idle) {r : Request S} :
    (s.step (.request t r)).issued = s.issued + if r.TakesId s.wal then 1 else 0 := by
  obtain ⟨t, r, hl, -, -, -, -, -, hlogged⟩ := callOf_some (callOf_request (r := r) ha ht)
  cases hl
  exact congrArg (fun g : Logged B A S => g.issued) hlogged

omit [StaticDataBuffer B] [StorageAdapter A] [Wheathash] in
theorem toLogged_poll (s : System B A S T) (t : T) (now : UInt64) : (s.poll t now).toLogged = s.toLogged := by
  rw [System.poll]
  rcases s.threads t with _ | l | l
  · rfl
  · dsimp only
    split
    · split <;> rfl
    · rfl
  · rfl

theorem issued_step (s : System B A S T) (l : Label S T) :
    s.issued ≤ (s.step l).issued ∧ (s.step l).issued ≤ s.issued + 1 := by
  rcases hcall : s.callOf l with _ | c
  · have hledger := callOf_none hcall
    rw [show (s.step l).issued = s.issued from congrArg Ledger.issued hledger]
    exact ⟨Nat.le_refl _, Nat.le_succ _⟩
  · obtain ⟨t, r, -, -, -, -, -, -, hlogged⟩ := callOf_some hcall
    have hissued : (s.step l).issued = s.issued + if r.TakesId s.wal then 1 else 0 :=
      congrArg (fun g : Logged B A S => g.issued) hlogged
    rw [hissued]
    split <;> omega

/-- Only a call places an entry, its own. -/
theorem placed_step (s : System B A S T) (l : Label S T) : (s.step l).placed = s.placed ∨
    ∃ t r ticket, l = .request t r ∧ (s.step l).placed = s.placed ++ [⟨ticket, r.body⟩] := by
  rcases hcall : s.callOf l with _ | c
  · exact .inl (congrArg Ledger.placed (callOf_none hcall))
  · obtain ⟨t, r, hl, -, -, -, -, -, hlogged⟩ := callOf_some hcall
    have hplaced : (s.step l).placed = s.placed ++ r.entries (r.perform.run s.wal).1 :=
      congrArg (fun g : Logged B A S => g.placed) hlogged
    rcases hrun : r.perform.run s.wal with ⟨locals | _ | _ | _, w⟩
    · rw [hrun] at hplaced
      exact .inr ⟨t, r, locals.currentOpId, hl, hplaced⟩
    all_goals
      rw [hrun] at hplaced
      exact .inl (hplaced.trans (List.append_nil _))

theorem ok_run (hs : ∀ e ∈ s.placed, e.body.Ok) (hok : ∀ l ∈ ls, l.Ok) :
    ∀ e ∈ (run step s ls).placed, e.body.Ok := by
  refine Along.invariant (P := fun s : System B A S T => ∀ e ∈ s.placed, e.body.Ok) (fun s l hs hl => ?_)
    hs (Along.of_forall hok)
  rcases placed_step s l with h | ⟨t, r, ticket, rfl, h⟩
  · rwa [h]
  · intro e he
    rw [h] at he
    rcases List.mem_append.1 he with he | he
    · exact hs e he
    · rw [List.mem_singleton.1 he]; exact hl

theorem along_issued (hids : (run step s ls).issued < 2 ^ 32) :
    Along step (fun s l => (System.step s l).issued < 2 ^ 32) s ls :=
  along_of_le_run (m := fun s : System B A S T => s.issued) (fun s l => (issued_step s l).1) hids

theorem issued_le_run (s : System B A S T) (ls : List (Label S T)) : s.issued ≤ (run step s ls).issued :=
  le_run (m := fun s : System B A S T => s.issued) (fun s l => (issued_step s l).1) s ls

theorem issued_run_le (s : System B A S T) (ls : List (Label S T)) :
    (run step s ls).issued ≤ s.issued + ls.length :=
  run_le_length (m := fun s : System B A S T => s.issued) (fun s l => (issued_step s l).2) s ls

/-- The invariant holds after every run whose space checks go well. -/
theorem holds_run (hD : Tracks D) (h : s.Holds D) (hclose : Along step (ClosesOk D) s ls)
    (hroom : Along step RoomOk s ls) (hids : (run step s ls).issued < 2 ^ 32) :
    (run step s ls).Holds D :=
  Along.invariant (fun _ _ hs hc => (hs.step hD hc.1 hc.2.1 hc.2.2).1) h
    (hclose.and (hroom.and (along_issued hids)))

omit [StorageAdapter A] [Wheathash] [DecidableEq T] [StaticDataBuffer B] in
theorem notTooLarge_of_small (hsmall : l.Small) : s.NotTooLarge l := by
  cases l with
  | request t r => exact fun _ => .inl hsmall
  | poll t now => trivial
  | timeout t => trivial
  | closeLogFile => trivial

omit [StorageAdapter A] [Wheathash] [DecidableEq T] in
theorem roomOk_of_small (hpos : 2 ≤ s.wal.block.pos) (hsmall : l.Small) : s.RoomOk l := by
  cases l with
  | request t r =>
    intro _
    have hsize : r.body.size ≤ MaxEntrySize := hsmall
    have hroom : r.body.size + 6 ≤ BlockSize := by simp only [MaxEntrySize, BlockSize] at hsize ⊢; omega
    rw [CppDb.RoomOk]
    split
    · exact .inr (.inl hroom)
    · exact hpos
  | poll t now => trivial
  | timeout t => trivial
  | closeLogFile => trivial

/-- A call finds room for its entry, or the entry is too large for any block that is not empty. -/
def Fine (s : System B A S T) (l : Label S T) : Prop := s.RoomOk l ∧ s.NotTooLarge l

omit [StorageAdapter A] [Wheathash] [DecidableEq T] in
theorem fine_of_small (hpos : 2 ≤ s.wal.block.pos) (hsmall : l.Small) : s.Fine l :=
  ⟨roomOk_of_small hpos hsmall, notTooLarge_of_small hsmall⟩

theorem Holds.step_fine (hD : Tracks D) (h : s.Holds D ∧ 2 ≤ s.wal.block.pos)
    (hclose : s.ClosesOk D l) (hfine : s.Fine l) (hbound : (s.step l).issued < 2 ^ 32) :
    (s.step l).Holds D ∧ 2 ≤ (s.step l).wal.block.pos := by
  obtain ⟨hholds, hpos⟩ := h.1.step hD hclose hfine.1 hbound
  exact ⟨hholds, hpos h.2 hfine.2⟩

theorem holds_run_fine (hD : Tracks D) (h : s.Holds D ∧ 2 ≤ s.wal.block.pos)
    (hclose : Along step (ClosesOk D) s ls) (hfine : Along step Fine s ls)
    (hids : (run step s ls).issued < 2 ^ 32) :
    (run step s ls).Holds D ∧ 2 ≤ (run step s ls).wal.block.pos :=
  Along.invariant (P := fun s : System B A S T => s.Holds D ∧ 2 ≤ s.wal.block.pos)
    (fun _ _ hs hc => Holds.step_fine hD hs hc.1 hc.2.1 hc.2.2) h
    (hclose.and (hfine.and (along_issued hids)))

/-- Entries of at most `MaxEntrySize` bytes are always fine. -/
theorem along_fine_small (hD : Tracks D) (h : s.Holds D ∧ 2 ≤ s.wal.block.pos)
    (hclose : Along step (ClosesOk D) s ls) (hsmall : ∀ l ∈ ls, l.Small)
    (hids : (run step s ls).issued < 2 ^ 32) : Along step Fine s ls :=
  Along.of_invariant (P := fun s : System B A S T => s.Holds D ∧ 2 ≤ s.wal.block.pos)
    (fun _ _ hs hc => Holds.step_fine hD hs hc.1 (fine_of_small hs.2 hc.2.1) hc.2.2)
    (fun _ _ hs hc => fine_of_small hs.2 hc.2.1) h
    (hclose.and ((Along.of_forall hsmall).and (along_issued hids)))

theorem holds_run_small (hD : Tracks D) (h : s.Holds D ∧ 2 ≤ s.wal.block.pos)
    (hclose : Along step (ClosesOk D) s ls) (hsmall : ∀ l ∈ ls, l.Small)
    (hids : (run step s ls).issued < 2 ^ 32) :
    (run step s ls).Holds D ∧ 2 ≤ (run step s ls).wal.block.pos :=
  holds_run_fine hD h hclose (along_fine_small hD h hclose hsmall hids) hids

/-- A first writer whose time is up flushes the block and returns. -/
theorem run_flush {t : T} {l : Locals} {w : DbWAL B A} (ha : s.aborted = false) (ht : s.threads t = .waiting l)
    (hlt : s.wal.lastFlushedOpId < l.currentOpId) (hfirst : l.firstWriter = true) {timeElapsedMs : UInt64}
    (helapsed : timeElapsedMs - l.operationStartTimeStamp ≥ timeOut)
    (hflush : DbWAL.finalizeAndflushCurrentBlock.run s.wal = (.ret (), w)) :
    run step s [.poll t timeElapsedMs, .timeout t] =
      { s with
        wal := w
        threads := Function.update s.threads t .idle
        returned := s.returned ++ [l] } := by
  rw [run_cons, run_cons, run_nil, step_poll ha ht hlt hfirst helapsed,
    step_timeout (s := s.setThread t (.atMutex l)) (l := l) ha (setThread_self ..) (flushOnTimeout_ret hlt hflush),
    finish, System.setThread, System.setThread]
  dsimp only
  rw [Function.update_idem]

/-- The block goes to the device then. -/
theorem run_flush_block {t : T} {l : Locals} {body : Bytes} {p : ℕ} {d : A} (ha : s.aborted = false)
    (ht : s.threads t = .waiting l) (hlt : s.wal.lastFlushedOpId < l.currentOpId) (hfirst : l.firstWriter = true)
    {timeElapsedMs : UInt64} (helapsed : timeElapsedMs - l.operationStartTimeStamp ≥ timeOut)
    (hb : Filled s.wal.block body p) (h0 : 0 < s.wal.blockItemCount) (h1 : s.wal.blockItemCount ≤ 65535)
    (hd : (StorageIo.append (blockImage s.wal.blockItemCount body)).run s.wal.logFile = (.ret (), d)) :
    ∃ b, Filled b [] 2 ∧ run step s [.poll t timeElapsedMs, .timeout t] =
      { s with
        wal := { s.wal with block := b, blockItemCount := 0, logFile := d, lastFlushedOpId := s.wal.lastBlockOpId }
        threads := Function.update s.threads t .idle
        returned := s.returned ++ [l] } := by
  obtain ⟨b, hb', hflush⟩ := DbWAL.run_finalize_ret hb h0 h1 hd
  exact ⟨b, hb', run_flush ha ht hlt hfirst helapsed hflush⟩

/-- The block is empty, and a thread may call. -/
structure Resting (s : System B A S T) (t : T) : Prop where
  block : Filled s.wal.block [] 2
  blockItemCount : s.wal.blockItemCount = 0
  idle : s.threads t = .idle
  aborted : s.aborted = false

section
variable {t : T}

theorem Resting.step_register (h : s.Resting t) (op : Operation S) (now : UInt64)
    (hsize : (EntryBody.operation op).size ≤ MaxEntrySize) :
    ∃ b, Filled b (Entry.bytes ⟨s.wal.lastOpId + 1, .operation op⟩)
        (2 + (Entry.bytes ⟨s.wal.lastOpId + 1, .operation op⟩).length) ∧
      s.step (.request t (.registerOperation op now)) =
        { s with
          wal := { s.wal with
            lastOpId := s.wal.lastOpId + 1, lastBlockOpId := s.wal.lastOpId + 1, block := b, blockItemCount := 1
            pendingOperations := s.wal.pendingOperations ++ [s.wal.lastOpId + 1]
            operationsProcessed := s.wal.operationsProcessed + 1 }
          placed := s.placed ++ [⟨s.wal.lastOpId + 1, .operation op⟩]
          issued := s.issued + 1
          threads := Function.update s.threads t (.waiting
            ⟨Entry.bytes ⟨s.wal.lastOpId + 1, .operation op⟩, s.wal.lastOpId + 1, true, now⟩) } := by
  obtain ⟨b, hrun, hb⟩ := registerOperation_first hsize h.block h.blockItemCount now
  have htakes : (Request.registerOperation op now).TakesId s.wal := Nat.le_trans hsize (by decide)
  have hstep := step_request (r := .registerOperation op now) h.aborted h.idle hrun
  rw [if_pos htakes] at hstep
  exact ⟨b, hb, hstep⟩

/-- The first registration of a block: it is flushed when its time is up, and the call returns. -/
theorem Resting.run_registered (h : s.Resting t) (op : Operation S) (now : UInt64)
    (hsize : (EntryBody.operation op).size ≤ MaxEntrySize)
    (hlt : s.wal.lastFlushedOpId < s.wal.lastOpId + 1) {timeElapsedMs : UInt64}
    (helapsed : timeElapsedMs - now ≥ timeOut)
    {d : A} (hd : (StorageIo.append (blockImage 1 (Entry.bytes ⟨s.wal.lastOpId + 1, .operation op⟩))).run
      s.wal.logFile = (.ret (), d)) :
    ∃ b, Filled b [] 2 ∧
      run step s [.request t (.registerOperation op now), .poll t timeElapsedMs, .timeout t] =
        { s with
          wal := { s.wal with
            lastOpId := s.wal.lastOpId + 1, lastBlockOpId := s.wal.lastOpId + 1, block := b, blockItemCount := 0
            lastFlushedOpId := s.wal.lastOpId + 1, logFile := d
            pendingOperations := s.wal.pendingOperations ++ [s.wal.lastOpId + 1]
            operationsProcessed := s.wal.operationsProcessed + 1 }
          placed := s.placed ++ [⟨s.wal.lastOpId + 1, .operation op⟩]
          issued := s.issued + 1
          threads := Function.update s.threads t .idle
          returned := s.returned ++
            [⟨Entry.bytes ⟨s.wal.lastOpId + 1, .operation op⟩, s.wal.lastOpId + 1, true, now⟩] } := by
  obtain ⟨b, hb, hstep⟩ := h.step_register op now hsize
  obtain ⟨s₁, hs₁⟩ : ∃ s₁, s₁ = s.step (.request t (.registerOperation op now)) := ⟨_, rfl⟩
  have hs₁' := hs₁.trans hstep
  have hgo : s₁.aborted = false ∧ s₁.threads t = .waiting
      ⟨Entry.bytes ⟨s.wal.lastOpId + 1, .operation op⟩, s.wal.lastOpId + 1, true, now⟩ := by
    rw [hs₁']
    exact ⟨h.aborted, Function.update_self ..⟩
  obtain ⟨b', hb', hflush⟩ := run_flush_block (d := d) hgo.1 hgo.2 (by rw [hs₁']; exact hlt) rfl helapsed
    (show Filled s₁.wal.block _ _ by rw [hs₁']; exact hb) (by rw [hs₁']; exact Nat.one_pos)
    (by rw [hs₁']; exact Nat.le_of_ble_eq_true rfl) (by rw [hs₁']; exact hd)
  refine ⟨b', hb', ?_⟩
  rw [run_cons, ← hs₁, hflush, hs₁']
  dsimp only
  rw [Function.update_idem]

end

omit [Wheathash] [DecidableEq T] in
theorem opened_wal (d : A) (filePath : String) :
    (opened d filePath : System B A S T).wal =
      { (DbWAL.new d : DbWAL B A) with
        block := freshBlock (DbWAL.new d : DbWAL B A).block
        logFile := (StorageAdapter.open_ filePath .Write d).2 } := by
  have hopen : ((StorageIo.open_ filePath .Write).run d).2 = (StorageAdapter.open_ filePath .Write d).2 := by
    rcases h : StorageAdapter.open_ filePath .Write d with ⟨_ | _, d'⟩
    · rw [StorageIo.open_, Proc.run_ofCall_none h]
    · rw [StorageIo.open_, Proc.run_ofCall_some h]
  rw [opened, DbWAL.openLogFile, Proc.run_modify_bind, DbWAL.onLogFile, Proc.run_zoom]
  dsimp only
  rw [← hopen]
  rfl

omit [Wheathash] [DecidableEq T] in
theorem opened_eq (d : A) (filePath : String) : ∃ b, Filled b [] 2 ∧
    (opened d filePath : System B A S T) =
      { wal := { block := b, logFile := (StorageAdapter.open_ filePath .Write d).2 } } := by
  refine ⟨_, filled_freshBlock (DbWAL.new d : DbWAL B A).block, ?_⟩
  have h : (opened d filePath : System B A S T) = { wal := (opened d filePath : System B A S T).wal } := rfl
  rw [h, opened_wal]
  rfl

omit [DecidableEq T] in
theorem holds_opened {d : A} {filePath : String} (h : D (StorageAdapter.open_ filePath .Write d).2 []) :
    (opened d filePath : System B A S T).Holds D ∧ 2 ≤ (opened d filePath : System B A S T).wal.block.pos := by
  have hb := filled_freshBlock (DbWAL.new d : DbWAL B A).block
  have hinv : Inv D (opened d filePath : System B A S T).wal [] [] 0 := by
    rw [opened_wal]
    exact {
      device := h
      good := fun _ he => absurd he List.not_mem_nil
      block := .filling hb (Nat.le_of_ble_eq_true rfl)
      count := rfl
      lastOpId := rfl
      lastBlock_le := Nat.le_refl _
      lastFlushed_le := Nat.le_refl _
      sorted := List.Pairwise.nil
      ticket_pos := fun _ he => absurd he List.not_mem_nil
      ticket_le := fun _ he => absurd he List.not_mem_nil
      flushed := fun _ he => absurd he List.not_mem_nil
      notFlushed := fun _ he => absurd he List.not_mem_nil
      pending := rfl
      completed := fun _ he => absurd he List.not_mem_nil }
  refine ⟨⟨⟨[], [], rfl, hinv⟩, fun t l hl => ?_, fun _ hl => absurd hl List.not_mem_nil⟩, ?_⟩
  · rcases hl with hl | hl <;> cases hl
  · rw [opened_wal]
    exact Nat.le_of_eq hb.pos.symm

end System

end

/-! ### Deleting keys -/

theorem size_deleteKey {key : Bytes} (h : key.length < 2 ^ 32) :
    (EntryBody.operation (deleteKey key)).size = 12 + key.length := by
  rw [EntryBody.size, EntryBody.payload, encode_deleteKey h]
  simp only [List.length_append, List.length_cons, List.length_nil, length_leBytes]
  omega

theorem size_deleteKey_le (key : Bytes) (h : 12 + key.length ≤ MaxEntrySize) :
    (EntryBody.operation (deleteKey key)).size ≤ MaxEntrySize := by
  have hkey : key.length < 2 ^ 32 := by
    simp only [MaxEntrySize, BlockSize] at h
    omega
  rwa [size_deleteKey hkey]

/-- The first entry of a log. -/
def smallEntry : Entry keySchema := ⟨1, .operation (deleteKey [97])⟩

theorem length_smallEntry : smallEntry.bytes.length = 13 :=
  smallEntry.length_bytes.trans (size_deleteKey (by decide))

theorem readableBlock_smallEntry : ReadableBlock [smallEntry] where
  ne_nil := List.cons_ne_nil _ _
  room := by rw [entriesBytes_cons, entriesBytes_nil, List.append_nil, length_smallEntry]; decide
  id_ne e he := by rw [List.mem_singleton.1 he]; exact (by decide : (1 : OpID) ≠ 0)
  ok e he := by
    rw [List.mem_singleton.1 he]
    exact ⟨deleteKey_overRecord _, deleteKey_short (by decide)⟩

theorem System.step_first {B : ℕ → Type} [StaticDataBuffer B] {A : Type} [StorageAdapter A] [Wheathash]
    {S : Schema} {T : Type} [DecidableEq T] (d : A) (filePath : String) (t : T) (op : Operation S)
    (hsize : (EntryBody.operation op).size ≤ MaxEntrySize) :
    ∃ b, Filled b (Entry.bytes ⟨1, .operation op⟩) (2 + (Entry.bytes ⟨1, .operation op⟩).length) ∧
      System.step (System.opened d filePath : System B A S T) (.request t (.registerOperation op 0)) =
        { wal := { block := b, blockItemCount := 1, lastBlockOpId := 1, pendingOperations := [1]
                   operationsProcessed := 1, lastOpId := 1, logFile := (StorageAdapter.open_ filePath .Write d).2 }
          placed := [⟨1, .operation op⟩]
          issued := 1
          threads := Function.update (fun _ => .idle) t
            (.waiting ⟨Entry.bytes ⟨1, .operation op⟩, 1, true, 0⟩) } := by
  obtain ⟨b₀, hb₀, hopened⟩ := System.opened_eq (B := B) (S := S) (T := T) d filePath
  obtain ⟨b, hb, hstep⟩ := System.Resting.step_register (t := t)
    (s := { wal := { block := b₀, logFile := (StorageAdapter.open_ filePath .Write d).2 } }) ⟨hb₀, rfl, rfl, rfl⟩
    op 0 hsize
  refine ⟨b, hb, ?_⟩
  rw [hopened, hstep]
  rfl

/-- The first call on a new log, up to its return. -/
theorem System.run_first {B : ℕ → Type} [StaticDataBuffer B] {A : Type} [StorageAdapter A] [Wheathash]
    {S : Schema} {T : Type} [DecidableEq T] (d : A) (filePath : String) (t : T) (op : Operation S)
    (hsize : (EntryBody.operation op).size ≤ MaxEntrySize) {timeElapsedMs : UInt64}
    (helapsed : timeElapsedMs - 0 ≥ System.timeOut) {d' : A}
    (hd : (StorageIo.append (blockImage 1 (Entry.bytes ⟨1, .operation op⟩))).run
      (StorageAdapter.open_ filePath .Write d).2 = (.ret (), d')) :
    ∃ b, Filled b [] 2 ∧
      run System.step (System.opened d filePath : System B A S T)
          [.request t (.registerOperation op 0), .poll t timeElapsedMs, .timeout t] =
        { wal := { block := b, lastBlockOpId := 1, lastFlushedOpId := 1, pendingOperations := [1]
                   operationsProcessed := 1, lastOpId := 1, logFile := d' }
          placed := [⟨1, .operation op⟩]
          issued := 1
          threads := Function.update (fun _ => .idle) t .idle
          returned := [⟨Entry.bytes ⟨1, .operation op⟩, 1, true, 0⟩] } := by
  obtain ⟨b₀, hb₀, hopened⟩ := System.opened_eq (B := B) (S := S) (T := T) d filePath
  obtain ⟨b, hb, hrun⟩ := System.Resting.run_registered (t := t)
    (s := { wal := { block := b₀, logFile := (StorageAdapter.open_ filePath .Write d).2 } }) ⟨hb₀, rfl, rfl, rfl⟩
    op 0 hsize (by decide : (0 : OpID) < 1) helapsed hd
  refine ⟨b, hb, ?_⟩
  rw [hopened, hrun]
  rfl

theorem System.step_smallEntry {B : ℕ → Type} [StaticDataBuffer B] {A : Type} [StorageAdapter A] [Wheathash]
    {T : Type} [DecidableEq T] (d : A) (filePath : String) (t : T) :
    ∃ b, Filled b smallEntry.bytes (2 + smallEntry.bytes.length) ∧
      System.step (System.opened d filePath : System B A keySchema T)
          (.request t (.registerOperation (deleteKey [97]) 0)) =
        { wal := { block := b, blockItemCount := 1, lastBlockOpId := 1, pendingOperations := [1]
                   operationsProcessed := 1, lastOpId := 1, logFile := (StorageAdapter.open_ filePath .Write d).2 }
          placed := [smallEntry]
          issued := 1
          threads := Function.update (fun _ => .idle) t (.waiting ⟨smallEntry.bytes, 1, true, 0⟩) } :=
  System.step_first d filePath t _ (size_deleteKey_le _ (by decide))

/-- A key is deleted. -/
def oneCall : List (Label keySchema Unit) := [.request () (.registerOperation (deleteKey [97]) 0)]

theorem oneCall_labels {l : Label keySchema Unit} (hl : l ∈ oneCall) : l ≠ .closeLogFile ∧ l.Small ∧ l.Ok := by
  rw [oneCall, List.mem_singleton] at hl
  subst hl
  exact ⟨nofun, size_deleteKey_le _ (by decide), deleteKey_overRecord _, deleteKey_short (by decide)⟩

/-- Two keys are deleted and the first of the deletions is completed. -/
def keyCalls : List (Label keySchema Unit) :=
  [.request () (.registerOperation (deleteKey [97]) 0), .poll () 60, .timeout (),
    .request () (.registerOperation (deleteKey [98]) 60), .poll () 120, .timeout (),
    .request () (.updateOpStatus 1 .Successful 120)]

theorem keyCalls_ok {l : Label keySchema Unit} (hl : l ∈ keyCalls) : l.Ok := by
  simp only [keyCalls, List.mem_cons, List.not_mem_nil, or_false] at hl
  rcases hl with rfl | rfl | rfl | rfl | rfl | rfl | rfl
  all_goals first
    | trivial
    | exact ⟨deleteKey_overRecord _, deleteKey_short (by decide)⟩

theorem keyCalls_small {l : Label keySchema Unit} (hl : l ∈ keyCalls) : l.Small := by
  simp only [keyCalls, List.mem_cons, List.not_mem_nil, or_false] at hl
  rcases hl with rfl | rfl | rfl | rfl | rfl | rfl | rfl
  all_goals first
    | trivial
    | exact size_deleteKey_le _ (by decide)
    | exact Nat.le_of_ble_eq_true rfl

end CppDb
