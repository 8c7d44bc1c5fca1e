import CppDb.Lib.Proc
import CppDb.Lib.Bytes

/-!
# Storage adapters and `StorageIo`

`StorageAdapter` is the interface `StorageIo` expects of its template argument
(`storage/storage_static_buffer.hpp`, `storage_std.hpp`, `storage_qt.hpp`): every member function
that returns `bool` is a `Call`, so `some` is `true` and `none` is `false`. `StorageIo` only forwards
to the adapter, with the positioned variants seeking first.

The classes below it say what a group of adapters promises. They are the assumptions of the proofs
about code that runs over "some adapter"; `MemoryAdapters.lean` proves them of the in-memory ones.
-/

namespace CppDb
open Embed

/-- `io::OpenMode`. -/
inductive OpenMode where
  | Read
  | Write
  | ReadWrite
deriving DecidableEq, Repr

/-- The object representation of a value of `n` bytes. -/
abbrev Raw (n : ℕ) : Type := { b : Bytes // b.length = n }

/-- The member functions of a storage adapter. -/
class StorageAdapter (A : Type) where
  open_ : String → OpenMode → Call A Unit
  close : Call A Unit
  read : (dataSize : ℕ) → Call A (Raw dataSize)
  write : Bytes → Call A Unit
  /-- Sets the absolute position from the beginning of the file. -/
  seek : ℕ → Call A Unit
  seekToEnd : Call A Unit
  flush : Call A Unit
  pos : A → ℕ
  size : A → ℕ
  atEnd : A → Bool

/-- An adapter that has `clear()` as well. -/
class ClearableAdapter (A : Type) [StorageAdapter A] where
  clear : Call A Unit

/-! ### `StorageIo` -/

namespace StorageIo
variable {A : Type} [StorageAdapter A]

def open_ (filePath : String) (mode : OpenMode) : Proc A Unit :=
  .ofCall (StorageAdapter.open_ filePath mode)

def close : Proc A Unit := .ofCall StorageAdapter.close

def read (size : ℕ) : Proc A (Raw size) := .ofCall (StorageAdapter.read size)

def write (data : Bytes) : Proc A Unit := .ofCall (StorageAdapter.write data)

def seek (location : ℕ) : Proc A Unit := .ofCall (StorageAdapter.seek location)

def seekToEnd : Proc A Unit := .ofCall StorageAdapter.seekToEnd

def flush : Proc A Unit := .ofCall StorageAdapter.flush

def clear [ClearableAdapter A] : Proc A Unit := .ofCall ClearableAdapter.clear

/-- `write(value, position)`: seek, then write. -/
def writeAt (data : Bytes) (position : ℕ) : Proc A Unit := do
  seek position
  write data

end StorageIo

/-- An adapter whose content can be read back: in a usable state (`Ok`) reads inside the content
succeed, return what is there and only move the position. -/
class ReadableAdapter (A : Type) [StorageAdapter A] where
  Ok : A → Prop
  bytes : A → Bytes
  pos_le {d : A} (h : Ok d) : StorageAdapter.pos d ≤ (bytes d).length
  size_eq {d : A} (h : Ok d) : StorageAdapter.size d = (bytes d).length
  atEnd_eq {d : A} (h : Ok d) :
    StorageAdapter.atEnd d = decide (StorageAdapter.pos d = (bytes d).length)
  read_some {d : A} (h : Ok d) {n : ℕ} (hn : StorageAdapter.pos d + n ≤ (bytes d).length) :
    ∃ d', StorageAdapter.read n d =
        (some ⟨slice (bytes d) (StorageAdapter.pos d) n, length_slice hn⟩, d') ∧
      Ok d' ∧ bytes d' = bytes d ∧ StorageAdapter.pos d' = StorageAdapter.pos d + n
  seek_some {d : A} (h : Ok d) {p : ℕ} (hp : p ≤ (bytes d).length) :
    ∃ d', StorageAdapter.seek p d = (some (), d') ∧
      Ok d' ∧ bytes d' = bytes d ∧ StorageAdapter.pos d' = p

/-- A readable adapter that stores what is written to it, at its position, as long as it has room
(`Fits`); a call it refuses changes nothing. -/
class MemoryAdapter (A : Type) [StorageAdapter A] extends ReadableAdapter A where
  Fits : ℕ → Prop
  fits_mono {m n : ℕ} (h : m ≤ n) (hn : Fits n) : Fits m
  fits_pos {d : A} (h : Ok d) : Fits (StorageAdapter.pos d)
  write_some {d : A} (h : Ok d) {bs : Bytes} (hf : Fits (StorageAdapter.pos d + bs.length)) :
    ∃ d', StorageAdapter.write bs d = (some (), d') ∧ Ok d' ∧
      bytes d' = overwrite (bytes d) (StorageAdapter.pos d) bs ∧
      StorageAdapter.pos d' = StorageAdapter.pos d + bs.length
  write_none {d : A} (h : Ok d) {bs : Bytes} (hf : ¬ Fits (StorageAdapter.pos d + bs.length)) :
    ∃ d', StorageAdapter.write bs d = (none, d') ∧ Ok d' ∧ bytes d' = bytes d ∧
      StorageAdapter.pos d' = StorageAdapter.pos d
  read_none {d : A} (h : Ok d) {n : ℕ} (hn : (bytes d).length < StorageAdapter.pos d + n) :
    ∃ d', StorageAdapter.read n d = (none, d') ∧ Ok d' ∧ bytes d' = bytes d ∧
      StorageAdapter.pos d' = StorageAdapter.pos d

/-! ### Writing and reading a known byte string -/

section Codec
variable {A : Type} [StorageAdapter A]

open StorageAdapter (pos)
open ReadableAdapter (Ok bytes)
open MemoryAdapter (Fits)

/-- `p` stores exactly `bs` at the position it is run at, and fails when there is no room for it. -/
structure Writes [MemoryAdapter A] (p : Proc A Unit) (bs : Bytes) : Prop where
  ret {d : A} (h : Ok d) (hf : Fits A (pos d + bs.length)) :
    ∃ d', p.run d = (.ret (), d') ∧ Ok d' ∧ bytes d' = overwrite (bytes d) (pos d) bs ∧
      pos d' = pos d + bs.length
  fail {d : A} (h : Ok d) (hf : ¬ Fits A (pos d + bs.length)) :
    ∃ d', p.run d = (.fail, d') ∧ Ok d'

/-- Where the content continues with `bs`, `p` returns `a` and moves past exactly `bs`. -/
def Reads [ReadableAdapter A] {α : Type} (p : Proc A α) (bs : Bytes) (a : α) : Prop :=
  ∀ ⦃d : A⦄ ⦃rest : Bytes⦄, Ok d → (bytes d).drop (pos d) = bs ++ rest →
    ∃ d', p.run d = (.ret a, d') ∧ Ok d' ∧ bytes d' = bytes d ∧ pos d' = pos d + bs.length

namespace Writes
variable [MemoryAdapter A] {p q : Proc A Unit} {bs cs : Bytes}

theorem write (bs : Bytes) : Writes (A := A) (StorageIo.write bs) bs where
  ret h hf := by
    obtain ⟨d', hw, hd'⟩ := MemoryAdapter.write_some h hf
    exact ⟨d', Proc.run_ofCall_some hw, hd'⟩
  fail h hf := by
    obtain ⟨d', hw, hok, -⟩ := MemoryAdapter.write_none h hf
    exact ⟨d', Proc.run_ofCall_none hw, hok⟩

theorem nil : Writes (A := A) (pure ()) [] where
  ret {d} h _ := ⟨d, rfl, h, by simp, by simp⟩
  fail {d} h hf := absurd (MemoryAdapter.fits_pos h) (by simpa using hf)

theorem bind (hp : Writes p bs) (hq : Writes q cs) : Writes (p >>= fun _ => q) (bs ++ cs) where
  ret {d} h hf := by
    rw [List.length_append, ← Nat.add_assoc] at hf
    obtain ⟨d₁, h₁, hok₁, hb₁, hp₁⟩ := hp.ret h (MemoryAdapter.fits_mono (Nat.le_add_right ..) hf)
    obtain ⟨d₂, h₂, hok₂, hb₂, hp₂⟩ := hq.ret hok₁ (by rwa [hp₁])
    refine ⟨d₂, by rw [Proc.run_bind_of_ret h₁, h₂], hok₂, ?_, ?_⟩
    · rw [hb₂, hb₁, hp₁, overwrite_overwrite bs cs (ReadableAdapter.pos_le h)]
    · rw [hp₂, hp₁, List.length_append, Nat.add_assoc]
  fail {d} h hf := by
    by_cases hf₁ : Fits A (pos d + bs.length)
    · obtain ⟨d₁, h₁, hok₁, -, hp₁⟩ := hp.ret h hf₁
      obtain ⟨d₂, h₂, hok₂⟩ := hq.fail hok₁ (by
        rwa [hp₁, Nat.add_assoc, ← List.length_append])
      exact ⟨d₂, by rw [Proc.run_bind_of_ret h₁, h₂], hok₂⟩
    · obtain ⟨d₁, h₁, hok₁⟩ := hp.fail h hf₁
      exact ⟨d₁, Proc.run_bind_of_fail h₁, hok₁⟩

theorem of_eq (hp : Writes p bs) (h : bs = cs) : Writes p cs := h ▸ hp

theorem forM {α : Type} {f : α → Proc A Unit} {enc : α → Bytes} (l : List α)
    (hf : ∀ a ∈ l, Writes (f a) (enc a)) : Writes (l.forM f) (l.map enc).flatten := by
  induction l with
  | nil => exact nil
  | cons a l ih =>
    rw [List.map_cons, List.flatten_cons]
    exact (hf a (List.mem_cons_self ..)).bind (ih fun b hb => hf b (List.mem_cons_of_mem _ hb))

end Writes

/-! Writing, whatever the adapter: `Has d bs` says what it holds, with the cursor at the end. -/

/-- What a successful write writes is added at the end. -/
def Takes (Has : A → Bytes → Prop) : Prop :=
  ∀ ⦃d d' : A⦄ ⦃old bs : Bytes⦄, Has d old → StorageAdapter.write bs d = (some (), d') → Has d' (old ++ bs)

/-- If `p` succeeds, it has added `bs`. -/
def Encodes (p : Proc A Unit) (bs : Bytes) : Prop :=
  ∀ ⦃Has : A → Bytes → Prop⦄, Takes Has → ∀ ⦃d d' : A⦄ ⦃old : Bytes⦄, Has d old → p.run d = (.ret (), d') →
    Has d' (old ++ bs)

namespace Encodes
variable {p q : Proc A Unit} {bs cs : Bytes}

theorem nil : Encodes (A := A) (pure ()) [] := by
  intro Has hHas d d' old h hrun
  cases hrun
  rwa [List.append_nil]

theorem write (bs : Bytes) : Encodes (A := A) (StorageIo.write bs) bs := by
  intro Has hHas d d' old h hrun
  rcases hcall : StorageAdapter.write bs d with ⟨_ | _, d₁⟩
  · rw [StorageIo.write, Proc.run_ofCall_none hcall] at hrun
    cases hrun
  · rw [StorageIo.write, Proc.run_ofCall_some hcall] at hrun
    cases hrun
    exact hHas h hcall

theorem bind (hp : Encodes p bs) (hq : Encodes q cs) : Encodes (p >>= fun _ => q) (bs ++ cs) := by
  intro Has hHas d d' old h hrun
  rcases hcall : p.run d with ⟨_ | _ | _ | _, d₁⟩
  · rw [Proc.run_bind_of_ret hcall] at hrun
    rw [← List.append_assoc]
    exact hq hHas (hp hHas h hcall) hrun
  · rw [Proc.run_bind_of_fail hcall] at hrun
    cases hrun
  · rw [Proc.run_bind_of_abort hcall] at hrun
    cases hrun
  · rw [Proc.run_bind_of_outOfFuel hcall] at hrun
    cases hrun

theorem forM {α : Type} {f : α → Proc A Unit} {enc : α → Bytes} (l : List α) (h : ∀ x ∈ l, Encodes (f x) (enc x)) :
    Encodes (l.forM f) (l.map enc).flatten := by
  induction l with
  | nil => exact nil
  | cons x l ih =>
    rw [List.forM, List.map_cons, List.flatten_cons]
    exact (h x (List.mem_cons_self ..)).bind (ih fun y hy => h y (List.mem_cons_of_mem _ hy))

end Encodes

/-! Reading, whatever the adapter: `At d rest` says which bytes are still to come. -/

/-- A read succeeds where there are enough bytes, and returns them. -/
def Follows (At : A → Bytes → Prop) : Prop :=
  ∀ ⦃d : A⦄ ⦃n : ℕ⦄ ⦃v : Raw n⦄ ⦃rest : Bytes⦄, At d (v.1 ++ rest) →
    ∃ d', StorageAdapter.read n d = (some v, d') ∧ At d' rest

/-- Wherever `bs` comes next, `p` returns `a` and leaves what comes after. -/
def Decodes {α : Type} (p : Proc A α) (bs : Bytes) (a : α) : Prop :=
  ∀ ⦃At : A → Bytes → Prop⦄, Follows At → ∀ ⦃d : A⦄ ⦃rest : Bytes⦄, At d (bs ++ rest) →
    ∃ d', p.run d = (.ret a, d') ∧ At d' rest

theorem pos_of_drop [ReadableAdapter A] {d d' : A} {consumed rest : Bytes} (hok : Ok d) (hok' : Ok d')
    (hb : bytes d' = bytes d) (hd : (bytes d).drop (pos d) = consumed ++ rest) (hd' : (bytes d).drop (pos d') = rest) :
    pos d' = pos d + consumed.length := by
  have hle := ReadableAdapter.pos_le hok
  have hle' := ReadableAdapter.pos_le hok'
  have hlen := congrArg List.length hd
  have hlen' := congrArg List.length hd'
  rw [List.length_drop, List.length_append] at hlen
  rw [List.length_drop] at hlen'
  rw [hb] at hle'
  omega

namespace Decodes
variable {α β : Type} {bs cs : Bytes} {a : α} {b : β}

theorem pure (a : α) : Decodes (A := A) (Pure.pure a) [] a :=
  fun _ _ d _ h => ⟨d, rfl, h⟩

theorem read {n : ℕ} (v : Raw n) : Decodes (A := A) (StorageIo.read n) v.1 v := by
  intro At hAt d rest h
  obtain ⟨d', hcall, h'⟩ := hAt h
  exact ⟨d', Proc.run_ofCall_some hcall, h'⟩

theorem bind {p : Proc A α} {f : α → Proc A β} (hp : Decodes p bs a) (hf : Decodes (f a) cs b) :
    Decodes (p >>= f) (bs ++ cs) b := by
  intro At hAt d rest h
  rw [List.append_assoc] at h
  obtain ⟨d₁, hrun₁, h₁⟩ := hp hAt h
  obtain ⟨d₂, hrun₂, h₂⟩ := hf hAt h₁
  exact ⟨d₂, by rw [Proc.run_bind_of_ret hrun₁, hrun₂], h₂⟩

theorem of_eq {p : Proc A α} (hp : Decodes p bs a) (h : bs = cs) : Decodes p cs a := h ▸ hp

theorem map {p : Proc A α} (f : α → β) (hp : Decodes p bs a) :
    Decodes (p >>= fun x => Pure.pure (f x)) bs (f a) :=
  (hp.bind (pure (f a))).of_eq (List.append_nil bs)

theorem times {p : Proc A α} {enc : α → Bytes} (l : List α) (hp : ∀ x ∈ l, Decodes p (enc x) x) :
    Decodes (p.times l.length) (l.map enc).flatten l := by
  induction l with
  | nil => exact pure []
  | cons x l ih =>
    rw [List.map_cons, List.flatten_cons, List.length_cons, Proc.times]
    exact (hp x (List.mem_cons_self ..)).bind
      ((ih fun y hy => hp y (List.mem_cons_of_mem _ hy)).map (x :: ·))

theorem follows_ok [ReadableAdapter A] (c : Bytes) :
    Follows fun (d : A) rest => Ok d ∧ bytes d = c ∧ c.drop (pos d) = rest := by
  rintro d n v rest ⟨hok, rfl, hd⟩
  have hle := ReadableAdapter.pos_le hok
  have hlen : pos d + n ≤ (bytes d).length := by
    have h := congrArg List.length hd
    rw [List.length_drop, List.length_append, v.2] at h
    omega
  obtain ⟨d', hr, hok', hb, hp⟩ := ReadableAdapter.read_some hok hlen
  have hv : slice (bytes d) (pos d) n = v.1 := by
    have h := slice_of_drop hd
    rwa [v.2] at h
  refine ⟨d', ?_, hok', hb, ?_⟩
  · rw [hr]
    simp only [hv]
  · have h := drop_of_drop hd
    rwa [v.2, ← hp] at h

theorem reads [ReadableAdapter A] {p : Proc A α} (hp : Decodes p bs a) : Reads p bs a := by
  intro d rest hok hd
  obtain ⟨d', hrun, hok', hb, hd'⟩ := hp (follows_ok (bytes d)) ⟨hok, rfl, hd⟩
  exact ⟨d', hrun, hok', hb, pos_of_drop hok hok' hb hd hd'⟩

end Decodes

namespace Reads
variable [ReadableAdapter A] {α β : Type} {bs cs : Bytes} {a : α} {b : β}

theorem read {n : ℕ} (v : Raw n) : Reads (A := A) (StorageIo.read n) v.1 v := (Decodes.read v).reads

theorem pure (a : α) : Reads (A := A) (Pure.pure a) [] a :=
  fun d _ hok _ => ⟨d, rfl, hok, rfl, by simp⟩

theorem bind {p : Proc A α} {f : α → Proc A β} (hp : Reads p bs a) (hf : Reads (f a) cs b) :
    Reads (p >>= f) (bs ++ cs) b := by
  intro d rest hok hd
  rw [List.append_assoc] at hd
  obtain ⟨d₁, h₁, hok₁, hb₁, hp₁⟩ := hp hok hd
  obtain ⟨d₂, h₂, hok₂, hb₂, hp₂⟩ := hf hok₁ (by rw [hb₁, hp₁]; exact drop_of_drop hd)
  refine ⟨d₂, by rw [Proc.run_bind_of_ret h₁, h₂], hok₂, by rw [hb₂, hb₁], ?_⟩
  rw [hp₂, hp₁, List.length_append, Nat.add_assoc]

theorem map {p : Proc A α} (f : α → β) (hp : Reads p bs a) :
    Reads (p >>= fun x => Pure.pure (f x)) bs (f a) := by
  have h : Reads (p >>= fun x => Pure.pure (f x)) (bs ++ []) (f a) := hp.bind (pure (f a))
  rwa [List.append_nil] at h

theorem of_eq {p : Proc A α} (hp : Reads p bs a) (h : bs = cs) : Reads p cs a := h ▸ hp

theorem times {p : Proc A α} {enc : α → Bytes} (l : List α) (hp : ∀ x ∈ l, Reads p (enc x) x) :
    Reads (p.times l.length) (l.map enc).flatten l := by
  induction l with
  | nil => exact pure []
  | cons x l ih =>
    rw [List.map_cons, List.flatten_cons, List.length_cons, Proc.times]
    exact (hp x (List.mem_cons_self ..)).bind
      ((ih fun y hy => hp y (List.mem_cons_of_mem _ hy)).map (x :: ·))

end Reads

end Codec

end CppDb
