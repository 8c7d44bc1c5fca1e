import CppDb.MemoryAdapters
import CppDb.WalInv

/-!
# Devices for the log

A `LogDevice` is an in-memory device as the log uses it: appending stores the bytes at the end while
there is room and changes nothing when there is none, closing keeps the bytes and goes to position 0,
and opening keeps them too. `OnDevice base` says that the device holds `base` and after it the blocks;
`tracks_onDevice` makes it a predicate to run the log's invariant with.
-/

namespace CppDb
open Embed
open StorageAdapter (pos)
open ReadableAdapter (Ok bytes)
open MemoryAdapter (Fits)

class LogDevice (A : Type) [StorageAdapter A] extends MemoryAdapter A where
  isOpen : A → Bool
  isOpen_write (d : A) (bs : Bytes) : isOpen (StorageAdapter.write bs d).2 = isOpen d
  isOpen_read (d : A) (n : ℕ) : isOpen (StorageAdapter.read n d).2 = isOpen d
  isOpen_seek (d : A) (p : ℕ) : isOpen (StorageAdapter.seek p d).2 = isOpen d
  seekToEnd_some {d : A} (h : Ok d) : ∃ d', StorageAdapter.seekToEnd d = (some (), d') ∧ Ok d' ∧
    bytes d' = bytes d ∧ pos d' = (bytes d).length ∧ isOpen d' = isOpen d
  flush_some {d : A} (h : Ok d) : ∃ d', StorageAdapter.flush d = (some (), d') ∧ Ok d' ∧
    bytes d' = bytes d ∧ isOpen d' = isOpen d
  open_some {d : A} (h : Ok d) (ho : isOpen d = false) (filePath : String) (mode : OpenMode) :
    ∃ d', StorageAdapter.open_ filePath mode d = (some (), d') ∧ Ok d' ∧ bytes d' = bytes d ∧
      pos d' = pos d ∧ isOpen d' = true
  close_some {d : A} (h : Ok d) (ho : isOpen d = true) : ∃ d', StorageAdapter.close d = (some (), d') ∧
    Ok d' ∧ bytes d' = bytes d ∧ pos d' = 0 ∧ isOpen d' = false
  close_closed {d : A} (ho : isOpen d = false) : StorageAdapter.close d = (some (), d)

instance : LogDevice VectorAdapter where
  isOpen := VectorAdapter.isOpen
  isOpen_write _ _ := rfl
  isOpen_read d n := by
    change (VectorAdapter.read n d).2.isOpen = d.isOpen
    unfold VectorAdapter.read
    split <;> rfl
  isOpen_seek d p := by
    change (VectorAdapter.seek p d).2.isOpen = d.isOpen
    unfold VectorAdapter.seek
    split <;> rfl
  seekToEnd_some {d} _ := ⟨_, dif_pos (Nat.le_refl d.data.length), trivial, rfl, rfl, rfl⟩
  flush_some {d} _ := ⟨d, rfl, trivial, rfl, rfl⟩
  open_some {d} _ ho _ _ := by
    refine ⟨{ d with isOpen := true }, ?_, trivial, rfl, rfl, rfl⟩
    have ho : d.isOpen = false := ho
    simp [StorageAdapter.open_, VectorAdapter.open_, ho]
  close_some {d} _ ho := by
    refine ⟨{ d with pos := 0, isOpen := false, pos_le := Nat.zero_le _ }, ?_, trivial, rfl, rfl, rfl⟩
    have ho : d.isOpen = true := ho
    simp [StorageAdapter.close, VectorAdapter.close, ho]
  close_closed {d} ho := by
    have ho : d.isOpen = false := ho
    simp [StorageAdapter.close, VectorAdapter.close, ho]

instance {B : ℕ → Type} [StaticDataBuffer B] {N : ℕ} : LogDevice (StaticBufferAdapter B N) where
  isOpen := StaticBufferAdapter.isOpen
  isOpen_write _ _ := rfl
  isOpen_read _ _ := rfl
  isOpen_seek _ _ := rfl
  seekToEnd_some {d} h := by
    have hd : d.Shows d.size d.pos d.data := ⟨rfl, rfl, rfl⟩
    have hend := hd.seekToEnd
    refine ⟨(StaticBufferAdapter.seekToEnd d).2, rfl, ⟨?_, ?_⟩, ?_, ?_, rfl⟩
    · exact Nat.le_of_eq (hend.pos.trans hend.size.symm)
    · exact Nat.le_trans (Nat.le_of_eq hend.size) h.2
    · change (StaticBufferAdapter.seekToEnd d).2.data.take _ = _
      rw [hend.data, hend.size]; rfl
    · exact hend.pos.trans (StaticBufferAdapter.length_bytes h.2).symm
  flush_some {d} h := ⟨d, rfl, h, rfl, rfl⟩
  open_some {d} h ho _ _ := by
    refine ⟨{ d with isOpen := true }, ?_, h, rfl, rfl, rfl⟩
    have ho : d.isOpen = false := ho
    simp [StorageAdapter.open_, StaticBufferAdapter.open_, ho]
  close_some {d} h ho := by
    have hd : d.Shows d.size d.pos d.data := ⟨rfl, rfl, rfl⟩
    have hseek := hd.seek (Nat.zero_le d.size)
    refine ⟨{ buffer := StaticDataBuffer.seek 0 d.buffer, isOpen := false }, ?_, ⟨?_, ?_⟩, ?_, hseek.pos, rfl⟩
    · have ho : d.isOpen = true := ho
      simp [StorageAdapter.close, StaticBufferAdapter.close, ho]
    · exact Nat.le_trans (Nat.le_of_eq hseek.pos) (Nat.zero_le _)
    · exact Nat.le_trans (Nat.le_of_eq hseek.size) h.2
    · change (StaticBufferAdapter.seek 0 d).2.data.take (StaticBufferAdapter.seek 0 d).2.size = _
      rw [hseek.data, hseek.size]; rfl
  close_closed {d} ho := by
    have ho : d.isOpen = false := ho
    simp [StorageAdapter.close, StaticBufferAdapter.close, ho]

namespace LogDevice
variable {A : Type} [StorageAdapter A] [LogDevice A] {d : A} {data : Bytes}

/-- Reading leaves the device open. -/
@[reducible] def whileOpen (A : Type) [StorageAdapter A] [LogDevice A] : ReadableAdapter A where
  Ok d := Ok d ∧ isOpen d = true
  bytes := bytes
  pos_le h := ReadableAdapter.pos_le h.1
  size_eq h := ReadableAdapter.size_eq h.1
  atEnd_eq h := ReadableAdapter.atEnd_eq h.1
  read_some {d} h n hn := by
    obtain ⟨d', hr, hok, hb, hp⟩ := ReadableAdapter.read_some h.1 hn
    have ho := isOpen_read d n
    rw [hr] at ho
    exact ⟨d', hr, ⟨hok, ho.trans h.2⟩, hb, hp⟩
  seek_some {d} h p hp := by
    obtain ⟨d', hs, hok, hb, hp⟩ := ReadableAdapter.seek_some h.1 hp
    have ho := isOpen_seek d p
    rw [hs] at ho
    exact ⟨d', hs, ⟨hok, ho.trans h.2⟩, hb, hp⟩

theorem append_ret (h : Ok d) (hfits : Fits A ((bytes d).length + data.length)) :
    ∃ d', (StorageIo.append data).run d = (.ret (), d') ∧ Ok d' ∧ bytes d' = bytes d ++ data ∧
      isOpen d' = isOpen d := by
  obtain ⟨d₁, h₁, hok₁, hb₁, hp₁, ho₁⟩ := seekToEnd_some h
  obtain ⟨d₂, h₂, hok₂, hb₂, -⟩ := MemoryAdapter.write_some hok₁
    (show Fits A (pos d₁ + data.length) by rwa [hp₁])
  obtain ⟨d₃, h₃, hok₃, hb₃, ho₃⟩ := flush_some hok₂
  have ho₂ : isOpen d₂ = isOpen d₁ := by
    have h := isOpen_write d₁ data
    rwa [h₂] at h
  refine ⟨d₃, ?_, hok₃, ?_, ho₃.trans (ho₂.trans ho₁)⟩
  · have hseek : StorageIo.seekToEnd.run d = (.ret (), d₁) := Proc.run_ofCall_some h₁
    have hwrite : (StorageIo.write data).run d₁ = (.ret (), d₂) := Proc.run_ofCall_some h₂
    rw [StorageIo.append, Proc.run_bind_of_ret hseek, Proc.run_bind_of_ret hwrite]
    exact Proc.run_ofCall_some h₃
  · rw [hb₃, hb₂, hb₁, hp₁, overwrite_end rfl]

theorem append_fail (h : Ok d) (hfits : ¬ Fits A ((bytes d).length + data.length)) :
    ∃ d', (StorageIo.append data).run d = (.fail, d') ∧ Ok d' ∧ bytes d' = bytes d ∧
      isOpen d' = isOpen d := by
  obtain ⟨d₁, h₁, hok₁, hb₁, hp₁, ho₁⟩ := seekToEnd_some h
  obtain ⟨d₂, h₂, hok₂, hb₂, -⟩ := MemoryAdapter.write_none hok₁
    (show ¬ Fits A (pos d₁ + data.length) by rwa [hp₁])
  have ho₂ : isOpen d₂ = isOpen d₁ := by
    have h := isOpen_write d₁ data
    rwa [h₂] at h
  refine ⟨d₂, ?_, hok₂, hb₂.trans hb₁, ho₂.trans ho₁⟩
  have hseek : StorageIo.seekToEnd.run d = (.ret (), d₁) := Proc.run_ofCall_some h₁
  rw [StorageIo.append, Proc.run_bind_of_ret hseek]
  exact Proc.run_bind_of_fail (Proc.run_ofCall_none h₂)

theorem append_cases {d' : A} {x : Exit Unit} (h : Ok d) (hrun : (StorageIo.append data).run d = (x, d')) :
    Ok d' ∧ isOpen d' = isOpen d ∧ (x = .ret () ∧ bytes d' = bytes d ++ data ∨ x = .fail ∧ bytes d' = bytes d) := by
  by_cases hfits : Fits A ((bytes d).length + data.length)
  · obtain ⟨d₁, h₁, hok₁, hb₁, ho₁⟩ := append_ret h hfits
    rw [h₁] at hrun
    cases hrun
    exact ⟨hok₁, ho₁, .inl ⟨rfl, hb₁⟩⟩
  · obtain ⟨d₁, h₁, hok₁, hb₁, ho₁⟩ := append_fail h hfits
    rw [h₁] at hrun
    cases hrun
    exact ⟨hok₁, ho₁, .inr ⟨rfl, hb₁⟩⟩

end LogDevice

/-! ### The blocks on the device -/

section OnDevice
variable {A : Type} [StorageAdapter A] [LogDevice A] [Wheathash] {S : Schema} {base : Bytes}

/-- The blocks are on the device, after what was there before. -/
def OnDevice (base : Bytes) (d : A) (blocks : List (List (Entry S))) : Prop :=
  Ok d ∧ bytes d = base ++ (blocks.map encodeBlock).flatten

theorem OnDevice.append_cases {d d' : A} {blocks : List (List (Entry S))} {es : List (Entry S)}
    {x : Exit Unit} (h : OnDevice base d blocks)
    (hrun : (StorageIo.append (encodeBlock es)).run d = (x, d')) :
    LogDevice.isOpen d' = LogDevice.isOpen d ∧
      (x = .ret () ∧ OnDevice base d' (blocks ++ [es]) ∨ x = .fail ∧ OnDevice base d' blocks) := by
  obtain ⟨hok, hopen, ⟨hx, hb⟩ | ⟨hx, hb⟩⟩ := LogDevice.append_cases h.1 hrun
  · refine ⟨hopen, .inl ⟨hx, hok, ?_⟩⟩
    rw [hb, h.2]
    simp
  · exact ⟨hopen, .inr ⟨hx, hok, hb.trans h.2⟩⟩

theorem tracks_onDevice (base : Bytes) : Tracks (OnDevice (A := A) (S := S) base) where
  append_ret h _ hrun := by
    rcases (h.append_cases hrun).2 with ⟨-, h'⟩ | ⟨hx, -⟩
    · exact h'
    · cases hx
  append_fail h _ hrun := by
    rcases (h.append_cases hrun).2 with ⟨hx, -⟩ | ⟨-, h'⟩
    · cases hx
    · exact h'

theorem closes_onDevice (base : Bytes) : Closes (OnDevice (A := A) (S := S) base) := by
  intro d d' blocks x h hrun
  by_cases ho : LogDevice.isOpen d = true
  · obtain ⟨d₁, h₁, hok₁, hb₁, -, -⟩ := LogDevice.close_some h.1 ho
    rw [StorageIo.close, Proc.run_ofCall_some h₁] at hrun
    cases hrun
    exact ⟨hok₁, hb₁.trans h.2⟩
  · rw [StorageIo.close, Proc.run_ofCall_some (LogDevice.close_closed (by simpa using ho))] at hrun
    cases hrun
    exact h

/-- The device is open besides. -/
def OnOpenDevice (base : Bytes) (d : A) (blocks : List (List (Entry S))) : Prop :=
  OnDevice base d blocks ∧ LogDevice.isOpen d = true

theorem tracks_onOpenDevice (base : Bytes) : Tracks (OnOpenDevice (A := A) (S := S) base) where
  append_ret h hes hrun :=
    ⟨(tracks_onDevice base).append_ret h.1 hes hrun, (h.1.append_cases hrun).1.trans h.2⟩
  append_fail h hes hrun :=
    ⟨(tracks_onDevice base).append_fail h.1 hes hrun, (h.1.append_cases hrun).1.trans h.2⟩

/-- What `openLogFile` makes of a closed device. -/
theorem onOpenDevice_open {d : A} (h : Ok d) (ho : LogDevice.isOpen d = false) (filePath : String) :
    OnOpenDevice (S := S) (bytes d) (StorageAdapter.open_ filePath .Write d).2 [] := by
  obtain ⟨d', hopen, hok, hb, -, ho'⟩ := LogDevice.open_some h ho filePath .Write
  rw [hopen]
  exact ⟨⟨hok, by simp [hb]⟩, ho'⟩

end OnDevice

end CppDb
