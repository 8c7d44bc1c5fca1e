import CppDb.Lib.Relate
import CppDb.WalRuns

/-!
# Durability

`Traced A` is any adapter `A` that keeps a record of how its writes and flushes went. Nothing is asked of
`A`: its calls may fail whenever they like. A byte string is `Durable` when a write of it succeeded and
a flush succeeded later; that every flushed block is, is a predicate the log's invariant can be run with
(`tracks_durable`), and so an entry is durable when its call returns (`durable_of_returned`).
-/

namespace CppDb
open Embed

inductive DeviceEvent where
  | write (data : Bytes) (done : Bool)
  | flush (done : Bool)

structure Traced (A : Type) where
  device : A
  events : List DeviceEvent := []

namespace Traced
variable {A : Type}

/-- Let the device do it, and record the events that the outcome amounts to. -/
def call {α : Type} (c : Call A α) (events : Bool → List DeviceEvent) : Call (Traced A) α := fun t =>
  ((c t.device).1, ⟨(c t.device).2, t.events ++ events (c t.device).1.isSome⟩)

instance [StorageAdapter A] : StorageAdapter (Traced A) where
  open_ filePath mode := call (StorageAdapter.open_ filePath mode) fun _ => []
  close := call StorageAdapter.close fun _ => []
  read dataSize := call (StorageAdapter.read dataSize) fun _ => []
  write bs := call (StorageAdapter.write bs) fun done => [.write bs done]
  seek position := call (StorageAdapter.seek position) fun _ => []
  seekToEnd := call StorageAdapter.seekToEnd fun _ => []
  flush := call StorageAdapter.flush fun done => [.flush done]
  pos t := StorageAdapter.pos t.device
  size t := StorageAdapter.size t.device
  atEnd t := StorageAdapter.atEnd t.device

theorem run_call {α : Type} {c : Call A α} {events : Bool → List DeviceEvent} {t t' : Traced A}
    {x : Exit α} (h : (Proc.ofCall (call c events)).run t = (x, t')) :
    (∃ a, x = .ret a ∧ t'.events = t.events ++ events true) ∨
      x = .fail ∧ t'.events = t.events ++ events false := by
  rcases hc : c t.device with ⟨_ | a, d⟩
  · have hcall : call c events t = (none, ⟨d, t.events ++ events false⟩) := by simp [call, hc]
    rw [Proc.run_ofCall_none hcall] at h
    cases h
    exact .inr ⟨rfl, rfl⟩
  · have hcall : call c events t = (some a, ⟨d, t.events ++ events true⟩) := by simp [call, hc]
    rw [Proc.run_ofCall_some hcall] at h
    cases h
    exact .inl ⟨a, rfl, rfl⟩

end Traced

/-- A write of `data` succeeded, and later a flush did. -/
def Durable (events : List DeviceEvent) (data : Bytes) : Prop :=
  ∃ l r, events = l ++ .write data true :: r ∧ .flush true ∈ r

theorem Durable.append {events : List DeviceEvent} {data : Bytes} (h : Durable events data)
    (later : List DeviceEvent) : Durable (events ++ later) data := by
  obtain ⟨l, r, rfl, hflush⟩ := h
  exact ⟨l, r ++ later, by simp, List.mem_append_left _ hflush⟩

section
variable {A : Type} [StorageAdapter A]

/-- What an append leaves in the record. -/
theorem run_append_events {data : Bytes} {t t' : Traced A} {x : Exit Unit}
    (h : (StorageIo.append data).run t = (x, t')) :
    (x = .ret () ∧ t'.events = t.events ++ [.write data true, .flush true]) ∨
      x = .fail ∧ ∃ later, t'.events = t.events ++ later := by
  rcases h₁ : (StorageIo.seekToEnd).run t with ⟨x₁, t₁⟩
  rcases Traced.run_call h₁ with ⟨_, rfl, he₁⟩ | ⟨rfl, he₁⟩
  swap
  · rw [StorageIo.append, Proc.run_bind_of_fail h₁] at h
    cases h
    exact .inr ⟨rfl, _, he₁⟩
  rcases h₂ : (StorageIo.write data).run t₁ with ⟨x₂, t₂⟩
  rcases Traced.run_call h₂ with ⟨_, rfl, he₂⟩ | ⟨rfl, he₂⟩
  swap
  · rw [StorageIo.append, Proc.run_bind_of_ret h₁, Proc.run_bind_of_fail h₂] at h
    cases h
    exact .inr ⟨rfl, [.write data false], by simp [he₂, he₁]⟩
  rw [StorageIo.append, Proc.run_bind_of_ret h₁, Proc.run_bind_of_ret h₂] at h
  rcases Traced.run_call h with ⟨_, rfl, he⟩ | ⟨rfl, he⟩
  · left
    exact ⟨rfl, by simp [he, he₂, he₁]⟩
  · right
    exact ⟨rfl, [.write data true, .flush false], by simp [he, he₂, he₁]⟩

theorem Traced.exit_append (data : Bytes) (t : Traced A) :
    ((StorageIo.append data).run t).1 = ((StorageIo.append data).run t.device).1 := by
  have hcall : ∀ {α : Type} (c : Call A α) (events : Bool → List DeviceEvent),
      Proc.Relates (fun (t : Traced A) d => t.device = d) (Proc.ofCall (call c events)) (Proc.ofCall c) := by
    rintro α c events t _ rfl
    rcases hc : c t.device with ⟨_ | a, d⟩ <;> simp [Proc.RelatesAt, Proc.run, Proc.ofCall, call, hc]
  exact ((hcall _ _).bind (fun _ => (hcall _ _).bind fun _ => hcall _ _) rfl).1

variable [Wheathash] {S : Schema}

/-- All the blocks are durable. -/
def AllDurable (t : Traced A) (blocks : List (List (Entry S))) : Prop :=
  ∀ es ∈ blocks, Durable t.events (encodeBlock es)

theorem tracks_durable : Tracks (AllDurable (A := A) (S := S)) where
  append_ret := by
    intro t t' blocks es h _ hrun es' hes'
    rcases run_append_events hrun with ⟨-, he⟩ | ⟨hx, -⟩
    · rw [he]
      rcases List.mem_append.1 hes' with hes' | hes'
      · exact (h es' hes').append _
      · rw [List.mem_singleton.1 hes']
        exact ⟨t.events, [.flush true], rfl, by simp⟩
    · cases hx
  append_fail := by
    intro t t' blocks es h _ hrun es' hes'
    rcases run_append_events hrun with ⟨hx, -⟩ | ⟨-, later, he⟩
    · cases hx
    · rw [he]
      exact (h es' hes').append later

theorem closes_durable : Closes (AllDurable (A := A) (S := S)) := by
  intro t t' blocks x h hrun es hes
  rcases Traced.run_call hrun with ⟨_, -, he⟩ | ⟨-, he⟩
  · rw [he]
    exact (h es hes).append _
  · rw [he]
    exact (h es hes).append _

/-! ### Entries are durable when their calls return -/

omit [StorageAdapter A] in
theorem infix_encodeBlock {es : List (Entry S)} (hes : GoodBlock es) {e : Entry S} (he : e ∈ es) :
    e.bytes <:+: encodeBlock es := by
  obtain ⟨l, r, rfl⟩ := List.append_of_mem he
  rw [encodeBlock, blockImage_eq hes.room]
  generalize List.replicate _ (0 : UInt8) ++ _ = rest
  refine ⟨leBytes 2 (l ++ e :: r).length ++ entriesBytes l, entriesBytes r ++ rest, ?_⟩
  simp only [entriesBytes_append, entriesBytes_cons, List.append_assoc]

variable {B : ℕ → Type} [StaticDataBuffer B] {T : Type} [DecidableEq T]

omit [StorageAdapter A] [DecidableEq T] in
/-- Every placed entry with an ID up to `_lastFlushedOpId` is in a durable block. -/
theorem System.Holds.durable {s : System B (Traced A) S T} (h : s.Holds AllDurable) {e : Entry S}
    (he : e ∈ s.placed) (hflushed : e.ticket ≤ s.wal.lastFlushedOpId) :
    ∃ data, data.length = BlockSize ∧ e.bytes <:+: data ∧ Durable s.wal.logFile.events data := by
  obtain ⟨blocks, cur, hplaced, hinv⟩ := h.log
  rw [hplaced] at he
  rcases List.mem_append.1 he with he | he
  · obtain ⟨es, hes, he⟩ := List.mem_flatten.1 he
    have hgood := hinv.good es hes
    exact ⟨encodeBlock es, hgood.length_encodeBlock, infix_encodeBlock hgood he, hinv.device es hes⟩
  · exact absurd hflushed (Nat.not_le.2 (hinv.notFlushed e he))

/-- **Durability on return.** Whatever the device does, whatever the clock says and however the threads
interleave: when a call has returned its ID (or `true`), its entry is in a 4096-byte block that was
written and then flushed. So is every entry whose ID is at most `_lastFlushedOpId`. -/
theorem durable_of_returned (d : A) (filePath : String) {ls : List (Label S T)}
    (hsmall : ∀ l ∈ ls, l.Small) {s : System B (Traced A) S T}
    (hs : s = run System.step (System.opened { device := d } filePath) ls) (hissued : s.issued < 2 ^ 32) :
    (∀ l ∈ s.returned, (∃ e ∈ s.placed, e.ticket = l.currentOpId ∧ e.bytes = l.entry) ∧
      ∃ data, data.length = BlockSize ∧ l.entry <:+: data ∧ Durable s.wal.logFile.events data) ∧
    ∀ e ∈ s.placed, e.ticket ≤ s.wal.lastFlushedOpId →
      ∃ data, data.length = BlockSize ∧ e.bytes <:+: data ∧ Durable s.wal.logFile.events data := by
  subst hs
  have hopened : AllDurable (S := S) (StorageAdapter.open_ filePath .Write ({ device := d } : Traced A)).2 [] := by
    intro es hes
    exact absurd hes List.not_mem_nil
  obtain ⟨hrun, -⟩ := System.holds_run_small tracks_durable (System.holds_opened (B := B) (T := T) hopened)
    (System.along_closesOk closes_durable) hsmall hissued
  constructor
  · intro l hl
    obtain ⟨⟨e, he, hticket, hentry⟩, hflushed⟩ := hrun.returned l hl
    refine ⟨⟨e, he, hticket, hentry⟩, ?_⟩
    rw [← hentry]
    refine hrun.durable he ?_
    rw [hticket]
    exact hflushed
  · intro e he hflushed
    exact hrun.durable he hflushed

end

open ByteSum in
theorem durable_of_returned_keyCalls : ∃ s : System ListBuffer (Traced VectorAdapter) keySchema Unit,
    s = run System.step (System.opened {device := {}} "") keyCalls ∧
    (∀ l ∈ s.returned, (∃ e ∈ s.placed, e.ticket = l.currentOpId ∧ e.bytes = l.entry) ∧
      ∃ data, data.length = BlockSize ∧ l.entry <:+: data ∧ Durable s.wal.logFile.events data) ∧
    ∀ e ∈ s.placed, e.ticket ≤ s.wal.lastFlushedOpId →
      ∃ data, data.length = BlockSize ∧ e.bytes <:+: data ∧ Durable s.wal.logFile.events data := by
  refine ⟨_, rfl, ?_⟩
  exact durable_of_returned (B := ListBuffer) (T := Unit) ({} : VectorAdapter) "" (fun _ => keyCalls_small)
    rfl (Nat.lt_of_le_of_lt (System.issued_run_le _ _) (by decide))

end CppDb
