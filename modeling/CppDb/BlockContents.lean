import CppDb.BlockNumbers
import CppDb.Durability

/-!
# Where the entries are

Whatever their sizes, the entries of the calls are in the block, or in a block that was written to the log and
flushed (`DbWAL.Keeps`). An entry that is stored over the item count of a block loses its size there: the
first two bytes of a block are its count when it is written.
-/

namespace CppDb
open Embed

/-- The entry is in `body`, which is what a block has after its item count. -/
def InBody (entry body : Bytes) : Prop := entry <:+: body ∨ entry.drop 2 <+: body

theorem InBody.append {entry body : Bytes} (h : InBody entry body) (more : Bytes) : InBody entry (body ++ more) := by
  rcases h with h | h
  · exact .inl (h.trans (List.prefix_append body more).isInfix)
  · exact .inr (h.trans (List.prefix_append body more))

theorem inBody_end (entry body : Bytes) : InBody entry (body ++ entry) := .inl (List.suffix_append body entry).isInfix

variable {S : Schema}

theorem forall_inBody_append {es : List (Entry S)} {body : Bytes} (h : ∀ e ∈ es, InBody e.bytes body) (e : Entry S) :
    ∀ x ∈ es ++ [e], InBody x.bytes (body ++ e.bytes) := by
  intro x hx
  rcases List.mem_append.1 hx with hx | hx
  · exact (h x hx).append _
  · rw [List.mem_singleton.1 hx]
    exact inBody_end e.bytes body

section
variable [Wheathash]

/-- A block with the entry in it was written, and flushed after that. -/
def BlockWritten (events : List DeviceEvent) (entry : Bytes) : Prop :=
  ∃ count body, 2 + body.length ≤ BlockSize ∧ InBody entry body ∧ Durable events (blockImage count body)

theorem BlockWritten.append {events : List DeviceEvent} {entry : Bytes} (h : BlockWritten events entry)
    (later : List DeviceEvent) : BlockWritten (events ++ later) entry := by
  obtain ⟨count, body, hle, hin, hdurable⟩ := h
  exact ⟨count, body, hle, hin, hdurable.append later⟩

end

section
variable {B : ℕ → Type} [StaticDataBuffer B] [Wheathash] {b : StaticBufferAdapter B BlockSize} {es : List (Entry S)}

/-- The block buffer has the entries `es`, which may have any size. -/
inductive BlockKeeps (b : StaticBufferAdapter B BlockSize) : List (Entry S) → Prop
  | filling {es : List (Entry S)} {body : Bytes} (h : Filled b body (2 + body.length))
      (hin : ∀ e ∈ es, InBody e.bytes body) (hnil : es = [] → body = []) : BlockKeeps b es
  /-- After a failed append. -/
  | finished {es : List (Entry S)} {body : Bytes} (hne : es ≠ []) (hle : 2 + body.length ≤ BlockSize)
      (h : Filled b ((blockImage es.length body).drop 2) BlockSize) (hin : ∀ e ∈ es, InBody e.bytes body) :
      BlockKeeps b es
  /-- After an attempt to flush an empty block. -/
  | rewound (h : Filled b [] 0) : BlockKeeps b []

theorem BlockKeeps.rewind (h : BlockKeeps b ([] : List (Entry S))) :
    BlockKeeps (StaticBufferAdapter.seek 0 b).2 ([] : List (Entry S)) := by
  cases h with
  | filling h hin hnil =>
    obtain rfl := hnil rfl
    exact .rewound (h.seek (Nat.zero_le _))
  | finished hne => exact absurd rfl hne
  | rewound h => exact .rewound (h.seek (Nat.zero_le _))

/-- The block that is written has the entries in it, also when it is written again. -/
theorem BlockKeeps.filled (h : BlockKeeps b es) : ∃ body p image, Filled b body p ∧ 2 + image.length ≤ BlockSize ∧
    (∀ e ∈ es, InBody e.bytes image) ∧ blockImage es.length body = blockImage es.length image := by
  cases h with
  | @filling _ body h hin => exact ⟨body, _, body, h, h.le, hin, rfl⟩
  | @finished _ body hne hle h hin => exact ⟨_, _, body, h, hle, hin, blockImage_drop hle⟩
  | rewound h => exact ⟨[], _, [], h, h.le, fun _ he => absurd he List.not_mem_nil, rfl⟩

omit [Wheathash] in
/-- An entry at the beginning goes over the item count. -/
theorem Filled.write_first (h : Filled b [] 0) {entry : Bytes} (hmin : MinItemSize ≤ entry.length)
    (hfit : entry.length ≤ BlockSize) :
    ∃ b', (StorageIo.write entry).run b = (.ret (), b') ∧ Filled b' (entry.drop 2) (2 + (entry.drop 2).length) := by
  obtain ⟨count, rest, hcount, hb⟩ := h
  obtain ⟨b', hrun, hb'⟩ := hb.write (show 0 + entry.length ≤ BlockSize by rwa [Nat.zero_add])
  have hlen : 2 + (entry.drop 2).length = entry.length := by
    rw [List.length_drop]
    rw [MinItemSize] at hmin
    omega
  refine ⟨b', hrun, entry.take 2, (count ++ ([] ++ rest)).drop entry.length, ?_, ?_⟩
  · rw [List.length_take]
    rw [MinItemSize] at hmin
    omega
  · have hdata : overwrite (count ++ ([] ++ rest)) 0 entry =
        entry.take 2 ++ (entry.drop 2 ++ (count ++ ([] ++ rest)).drop entry.length) := by
      rw [overwrite, List.take_zero, List.nil_append, Nat.zero_add, ← List.append_assoc (entry.take 2),
        List.take_append_drop]
    rw [hdata, Nat.zero_add, List.length_nil, Nat.max_eq_right (by rw [MinItemSize] at hmin; omega)] at hb'
    rwa [hlen]

theorem BlockKeeps.write (h : BlockKeeps b es) (e : Entry S) :
    ∃ b', (StorageIo.write e.bytes).run b = (.ret (), b') ∧ BlockKeeps b' (es ++ [e]) ∨
      (StorageIo.write e.bytes).run b = (.fail, b') ∧ BlockKeeps b' es := by
  have hmin : MinItemSize ≤ e.bytes.length := by
    rw [e.length_bytes]
    exact e.body.minItemSize_le
  have hne : es ++ [e] ≠ [] := by simp
  cases h with
  | @filling _ body h hin hnil =>
    by_cases hfit : 2 + body.length + e.bytes.length ≤ BlockSize
    · obtain ⟨b', hrun, hb'⟩ := h.write hfit
      exact ⟨b', .inl ⟨hrun, .filling hb' (forall_inBody_append hin e) fun hnil => absurd hnil hne⟩⟩
    · obtain ⟨b', hrun, hb'⟩ := h.write_fail (Nat.not_le.1 hfit)
      exact ⟨b', .inr ⟨hrun, .filling hb' hin hnil⟩⟩
  | @finished _ body hne hle h hin =>
    obtain ⟨b', hrun, hb'⟩ := h.write_fail (show BlockSize < BlockSize + e.bytes.length by rw [MinItemSize] at hmin; omega)
    exact ⟨b', .inr ⟨hrun, .finished hne hle hb' hin⟩⟩
  | rewound h =>
    by_cases hfit : e.bytes.length ≤ BlockSize
    · obtain ⟨b', hrun, hb'⟩ := h.write_first hmin hfit
      refine ⟨b', .inl ⟨hrun, .filling hb' (fun x hx => ?_) fun hnil => absurd hnil hne⟩⟩
      rw [List.mem_singleton.1 hx]
      exact .inr (List.prefix_refl _)
    · obtain ⟨b', hrun, hb'⟩ := h.write_fail (show BlockSize < 0 + e.bytes.length by omega)
      exact ⟨b', .inr ⟨hrun, .rewound hb'⟩⟩

end

/-! ### The critical sections -/

section
variable {B : ℕ → Type} [StaticDataBuffer B] {A : Type} [StorageAdapter A] [Wheathash] {w : DbWAL B (Traced A)}
variable {placed : List (Entry S)}

/-- The entries are in the block, or in a block that was written. -/
def DbWAL.Keeps (w : DbWAL B (Traced A)) (placed : List (Entry S)) : Prop :=
  ∃ old cur, placed = old ++ cur ∧ BlockKeeps w.block cur ∧ w.blockItemCount = cur.length ∧
    ∀ e ∈ old, BlockWritten w.logFile.events e.bytes

namespace DbWAL.Keeps

theorem finalize (h : w.Keeps placed) (hb : w.Bounded) : (finalizeAndflushCurrentBlock.run w).2.Keeps placed := by
  obtain ⟨old, cur, rfl, hblock, hcount, hold⟩ := h
  rcases Nat.eq_zero_or_pos w.blockItemCount with h0 | h0
  · obtain rfl := List.eq_nil_of_length_eq_zero (hcount.symm.trans h0)
    rw [run_finalize_empty h0]
    exact ⟨old, [], rfl, hblock.rewind, hcount, hold⟩
  have hne : cur ≠ [] := List.ne_nil_of_length_pos (hcount ▸ h0)
  obtain ⟨body, p, image, hfilled, hle, hin, himage⟩ := hblock.filled
  have hmax := StaticBufferAdapter.Bounded.count_le_max hb
  rw [← hcount] at himage
  rcases StorageIo.append_cases (blockImage w.blockItemCount body) w.logFile with ⟨d, hd⟩ | ⟨d, hd⟩
  · obtain ⟨b, hb', hrun⟩ := run_finalize_ret hfilled h0 hmax hd
    rcases run_append_events hd with ⟨-, hevents⟩ | ⟨hx, -⟩
    swap
    · cases hx
    rw [hrun]
    refine ⟨old ++ cur, [], (List.append_nil _).symm, ?_, rfl, fun e he => ?_⟩
    · exact .filling hb' (fun _ he => absurd he List.not_mem_nil) fun _ => rfl
    · change BlockWritten d.events e.bytes
      rw [hevents]
      rcases List.mem_append.1 he with he | he
      · exact (hold e he).append _
      · refine ⟨w.blockItemCount, image, hle, hin e he, w.logFile.events, [.flush true], ?_, List.mem_singleton_self _⟩
        rw [himage]
  · obtain ⟨b, hb', hrun⟩ := run_finalize_fail hfilled h0 hmax hd
    rcases run_append_events hd with ⟨hx, -⟩ | ⟨-, later, hevents⟩
    · cases hx
    rw [hrun]
    rw [himage, hcount] at hb'
    refine ⟨old, cur, rfl, .finished hne hle hb' hin, hcount, fun e he => ?_⟩
    change BlockWritten d.events e.bytes
    rw [hevents]
    exact (hold e he).append later

theorem makeRoom (h : w.Keeps placed) (hb : w.Bounded) (size : ℕ) :
    ((DbWAL.makeRoom false size).run w).2.Keeps placed := by
  rw [run_makeRoom]
  split
  · exact h.finalize hb
  · exact h

omit [StorageAdapter A] in
/-- The next entry is stored, or the entries stay where they are. -/
theorem write (h : w.Keeps placed) (e : Entry S) :
    ∃ b, (StorageIo.write e.bytes).run w.block = (.ret (), b) ∧
        Keeps { w with block := b, blockItemCount := w.blockItemCount + 1 } (placed ++ [e]) ∨
      (StorageIo.write e.bytes).run w.block = (.fail, b) ∧ Keeps { w with block := b } placed := by
  obtain ⟨old, cur, rfl, hblock, hcount, hold⟩ := h
  obtain ⟨b, ⟨hrun, hb⟩ | ⟨hrun, hb⟩⟩ := hblock.write e
  · refine ⟨b, .inl ⟨hrun, old, cur ++ [e], List.append_assoc .., hb, ?_, hold⟩⟩
    rw [List.length_append, ← hcount]
    rfl
  · exact ⟨b, .inr ⟨hrun, old, cur, rfl, hb, hcount, hold⟩⟩

/-- What can come of a critical section that wants `e` in the log. -/
def Places (placed : List (Entry S)) (e : Entry S) (r : Exit Locals × DbWAL B (Traced A)) : Prop :=
  (∃ l, r.1 = .ret l ∧ l.currentOpId = e.ticket ∧ r.2.Keeps (placed ++ [e])) ∨ r.1 = .fail ∧ r.2.Keeps placed

theorem registerEntry (h : w.Keeps placed) (hb : w.Bounded) (e : Entry S) (size : ℕ) (timeElapsedMs : UInt64) :
    Places placed e ((DbWAL.registerEntry e.ticket e.bytes size timeElapsedMs).run w) := by
  have hroom := h.makeRoom hb size
  obtain ⟨w₁, -, ⟨hmake, -⟩ | ⟨hmake, -⟩⟩ := hb.makeRoom size
  · rw [hmake] at hroom
    obtain ⟨b, ⟨hwrite, hkeeps⟩ | ⟨hwrite, hkeeps⟩⟩ := hroom.write e
    · rw [registerEntry_ret _ hmake hwrite]
      exact .inl ⟨_, rfl, rfl, hkeeps⟩
    · rw [DbWAL.registerEntry, Proc.run_bind_of_ret hmake, Proc.run_read_bind, Proc.run_modify_bind,
        Proc.run_bind_of_fail (run_onBlock (w := { w₁ with lastBlockOpId := e.ticket }) hwrite)]
      exact .inr ⟨rfl, hkeeps⟩
  · rw [hmake] at hroom
    rw [DbWAL.registerEntry, Proc.run_bind_of_fail hmake]
    exact .inr ⟨rfl, hroom⟩

theorem updateEntry (h : w.Keeps placed) (hb : w.Bounded) (e : Entry S) (size : ℕ) (opId : OpID)
    (timeElapsedMs : UInt64) :
    Places placed e ((DbWAL.updateEntry e.ticket e.bytes size opId timeElapsedMs).run w) := by
  have hroom := h.makeRoom hb size
  obtain ⟨w₁, -, ⟨hmake, -⟩ | ⟨hmake, -⟩⟩ := hb.makeRoom size
  · rw [hmake] at hroom
    obtain ⟨b, ⟨hwrite, hkeeps⟩ | ⟨hwrite, hkeeps⟩⟩ := hroom.write e
    · rw [updateEntry_ret hmake hwrite]
      exact .inl ⟨_, rfl, rfl, hkeeps⟩
    · rw [DbWAL.updateEntry, Proc.run_bind_of_ret hmake, Proc.run_read_bind,
        Proc.run_bind_of_fail (run_onBlock hwrite)]
      exact .inr ⟨rfl, hkeeps⟩
  · rw [hmake] at hroom
    rw [DbWAL.updateEntry, Proc.run_bind_of_fail hmake]
    exact .inr ⟨rfl, hroom⟩

theorem perform (h : w.Keeps placed) (hb : w.Bounded) (r : Request S) :
    (r.perform.run w).2.Keeps (placed ++ r.entries (r.perform.run w).1) := by
  by_cases htakes : r.TakesId w
  swap
  · rw [Request.run_refused htakes]
    exact (List.append_nil placed).symm ▸ h
  have hplaces : Places placed ⟨w.lastOpId + 1, r.body⟩ (r.perform.run w) := by
    cases r with
    | registerOperation op now =>
      rw [Request.perform, run_registerOperation htakes]
      exact registerEntry (w := { w with lastOpId := w.lastOpId + 1 }) h hb ⟨_, .operation op⟩ _ _
    | updateOpStatus opId status now =>
      rw [Request.perform, run_updateOpStatus (S := S) htakes]
      exact updateEntry (w := { w with lastOpId := w.lastOpId + 1 }) h hb ⟨_, .completion opId status⟩ _ _ _
  generalize r.perform.run w = x at hplaces ⊢
  obtain ⟨exit, w'⟩ := x
  rcases hplaces with ⟨l, rfl, hid, hkeeps⟩ | ⟨rfl, hkeeps⟩
  · have hid : l.currentOpId = w.lastOpId + 1 := hid
    rw [← hid] at hkeeps
    exact hkeeps
  · exact (List.append_nil placed).symm ▸ hkeeps

theorem flushOnTimeout (h : w.Keeps placed) (hb : w.Bounded) (currentOpId : OpID) :
    ((DbWAL.flushOnTimeout currentOpId).run w).2.Keeps placed := by
  rw [DbWAL.flushOnTimeout, Proc.run_read_bind, Proc.run_ite]
  split
  · have hflushed := h.finalize hb
    obtain ⟨w', -, ⟨hrun, -⟩ | ⟨hrun, -, -⟩⟩ := hb.finalize
    · rw [hrun] at hflushed
      rw [Proc.run_bind_of_ret (Proc.run_attempt_of_ret hrun)]
      exact hflushed
    · rw [hrun] at hflushed
      rw [Proc.run_bind_of_ret (Proc.run_attempt_of_fail hrun)]
      exact hflushed
  · exact h

theorem closeLogFile (h : w.Keeps placed) (hb : w.Bounded) : (DbWAL.closeLogFile.run w).2.Keeps placed := by
  have hclose : ∀ w₁ : DbWAL B (Traced A), w₁.Keeps placed →
      ((onLogFile StorageIo.close).run w₁).2.Keeps placed := by
    rintro w₁ ⟨old, cur, hplaced, hblock, hcount, hold⟩
    rcases hrun : StorageIo.close.run w₁.logFile with ⟨x, d⟩
    have hevents : d.events = w₁.logFile.events := by
      rcases Traced.run_call hrun with ⟨-, -, he⟩ | ⟨-, he⟩ <;> exact he.trans (List.append_nil _)
    rw [run_onLogFile hrun]
    refine ⟨old, cur, hplaced, hblock, hcount, fun e he => ?_⟩
    change BlockWritten d.events e.bytes
    rw [hevents]
    exact hold e he
  rw [run_closeLogFile]
  split
  · exact hclose w h
  · have hflushed := h.finalize hb
    obtain ⟨w', -, ⟨hrun, -⟩ | ⟨hrun, -, -⟩⟩ := hb.finalize
    · rw [hrun] at hflushed
      rw [Proc.run_bind_of_ret hrun]
      exact hclose w' hflushed
    · rw [hrun] at hflushed
      rw [Proc.run_bind_of_fail hrun]
      exact hflushed

omit [StorageAdapter A] in
theorem blockWritten (h : w.Keeps placed) {e : Entry S} (he : e ∈ placed.take (placed.length - w.blockItemCount)) :
    BlockWritten w.logFile.events e.bytes := by
  obtain ⟨old, cur, rfl, -, hcount, hold⟩ := h
  rw [hcount, List.length_append, Nat.add_sub_cancel, List.take_left] at he
  exact hold e he

end DbWAL.Keeps

namespace System
variable {T : Type} [DecidableEq T] {s : System B (Traced A) S T}

theorem keeps_step (h : s.wal.Keeps s.placed) (hb : s.wal.Bounded) (l : Label S T) :
    (s.step l).wal.Keeps (s.step l).placed := by
  rcases ha : s.aborted with _ | _
  swap; · rwa [step_of_aborted ha]
  cases l with
  | request t r =>
    rw [step_eq_request ha, System.request]
    rcases s.threads t with _ | l | l
    · have hkeeps := h.perform hb r
      rcases hrun : r.perform.run s.wal with ⟨l | _ | m | _, w⟩ <;>
        simpa only [Logged.request, hrun] using hkeeps
    · exact h
    · exact h
  | poll t now =>
    rw [step_eq_poll ha, System.poll]
    rcases s.threads t with _ | l | l
    · exact h
    · dsimp only
      split
      · split <;> exact h
      · exact h
    · exact h
  | timeout t =>
    rw [step_eq_timeout ha, System.timeout]
    rcases s.threads t with _ | l | l
    · exact h
    · exact h
    · have hkeeps := h.flushOnTimeout hb l.currentOpId
      rcases hrun : (DbWAL.flushOnTimeout l.currentOpId).run s.wal with ⟨_ | _ | m | _, w⟩ <;>
        simpa only [Logged.onWal, hrun] using hkeeps
  | closeLogFile =>
    rw [step_eq_closeLogFile ha]
    exact h.closeLogFile hb

omit [DecidableEq T] in
theorem keeps_opened (d : Traced A) (filePath : String) :
    (System.opened d filePath : System B (Traced A) S T).wal.Keeps ([] : List (Entry S)) := by
  obtain ⟨b, hb, hopened⟩ := opened_eq (B := B) (S := S) (T := T) d filePath
  rw [hopened]
  exact ⟨[], [], rfl, .filling hb (fun _ he => absurd he List.not_mem_nil) fun _ => rfl, rfl,
    fun _ he => absurd he List.not_mem_nil⟩

end System

end

end CppDb
