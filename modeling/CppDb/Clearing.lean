import CppDb.AdapterAgreement
import CppDb.LogDevice
import CppDb.Qt
import CppDb.WalRuns

/-!
# Clearing a device

`clear` on the adapters that have it, whatever was done with them before. `ClearWorks` says what it is for: an open
device is as if newly opened, and a log on it goes on. `clear_on_devices` says where that is so: always on the
static buffer, never on a file, whose path is gone by the time it is opened again, and on a `QBuffer` only when there
is nothing to clear.
-/

namespace CppDb
open Embed
open ReadableAdapter (Ok bytes)
open MemoryAdapter (Fits)

/-- What is done with a device before it is cleared. -/
inductive Use where
  | open_ (fileName : String) (mode : OpenMode)
  | flush
  | call (c : AdapterCall)

def Use.step {A : Type} [StorageAdapter A] (a : A) : Use → A
  | open_ fileName mode => (StorageAdapter.open_ fileName mode a).2
  | flush => (StorageAdapter.flush a).2
  | call c => c.step a

/-- What can be seen of a device that is cleared. -/
class ClearedAdapter (A : Type) [StorageAdapter A] [ClearableAdapter A] where
  /-- As the adapter is constructed. -/
  New : A → Prop
  IsOpen : A → Prop
  /-- On the same path and in the same mode, as far as the adapter keeps them. -/
  SameOpening : A → A → Prop
  /-- In a usable state, with this content. -/
  Content : A → Bytes → Prop
  /-- The calls whose effect the adapter determines. -/
  Covers : A → AdapterCall → Prop

/-- No seek goes beyond the end. -/
def AdapterCall.SeeksInside {A : Type} [StorageAdapter A] (a : A) : AdapterCall → Prop
  | seek position => position.toNat ≤ StorageAdapter.size a
  | _ => True

-- what `static_data_buffer` does with a position beyond its size is not known
instance {B : ℕ → Type} [StaticDataBuffer B] {N : ℕ} : ClearedAdapter (StaticBufferAdapter B N) where
  New a := a = .new
  IsOpen a := a.isOpen = true
  SameOpening a b := a.isOpen = b.isOpen
  Content a bs := Ok a ∧ bytes a = bs
  Covers := AdapterCall.SeeksInside

instance {bits : ℕ} : ClearedAdapter (FopenAdapter bits) where
  New a := ∃ files, a = { files := files }
  IsOpen a := a.handle.isSome = true
  SameOpening a b := a.filePath = b.filePath ∧ a.mode = b.mode
  Content a bs := ∃ f, a.handle = some f ∧ a.files.content f.path = bs
  Covers _ _ := True

instance : ClearedAdapter QMemoryDeviceAdapter where
  New a := a = {}
  IsOpen a := a.openMode.isSome = true
  SameOpening a b := a.openMode = b.openMode
  Content a bs := a.buffer = bs
  Covers _ _ := True

section
variable {B : ℕ → Type} [StaticDataBuffer B] {A : Type} [StorageAdapter A] [ClearableAdapter A] [Wheathash]
variable {S : Schema} {T : Type} [DecidableEq T]
open ClearedAdapter ClearableAdapter

/-- The device holds the blocks that were flushed after `old`. -/
def Since (Content : A → Bytes → Prop) (old : List (List (Entry S))) (d : A) (blocks : List (List (Entry S))) : Prop :=
  ∃ new, blocks = old ++ new ∧ Content d (new.map encodeBlock).flatten

/-- The system after `clearLog`. -/
def System.clearLog (s : System B A S T) : System B A S T := { s with wal := (DbWAL.clearLog.run s.wal).2 }

/-- An open device, after any use. -/
def Reached [ClearedAdapter A] (a : A) : Prop :=
  IsOpen a ∧ ∃ (new : A) (uses : List Use), New new ∧ a = run Use.step new uses

/-- A device with nothing on it that has just been opened. -/
def NewlyOpened [ClearedAdapter A] (a : A) : Prop :=
  ∃ (new : A) (fileName : String) (mode : OpenMode), New new ∧
    StorageAdapter.open_ fileName mode new = (some (), a) ∧ StorageAdapter.size a = 0

/-- `clear` succeeds and leaves the device open as it was, and empty: it answers as a new device does, and a log on
it goes on with what is flushed from then on. -/
structure ClearWorks (B : ℕ → Type) [StaticDataBuffer B] [ClearedAdapter A] (a : A) : Prop where
  succeeds : (clear a).1 = some ()
  isOpen : IsOpen (clear a).2
  opening : SameOpening a (clear a).2
  size : StorageAdapter.size (clear a).2 = 0
  answers (e : A) (he : NewlyOpened e) (hopening : SameOpening a e) (calls : List AdapterCall)
    (hcalls : Along AdapterCall.step Covers e calls) :
    AdapterCall.answers (clear a).2 calls = AdapterCall.answers e calls
  clearLog (w : DbWAL B A) (hw : w.logFile = a) :
    DbWAL.clearLog.run w = (.ret (), { w with logFile := (clear a).2 })
  logging {S : Schema} {T : Type} [DecidableEq T] (s : System B A S T) (D : A → List (List (Entry S)) → Prop)
    (hs : s.Holds D) (hw : s.wal.logFile = a) : ∃ old, ∀ ls, (∀ l ∈ ls, l ≠ .closeLogFile) →
      Along System.step System.RoomOk s.clearLog ls → (run System.step s.clearLog ls).issued < 2 ^ 32 →
      (run System.step s.clearLog ls).Holds (Since Content old)

/-! ### The log after `clearLog` -/

/-- Appending adds the data, or fails and leaves the content as it is. -/
structure Grows (Content : A → Bytes → Prop) : Prop where
  ret {d d' : A} {old data : Bytes} (h : Content d old) (hrun : (StorageIo.append data).run d = (.ret (), d')) :
    Content d' (old ++ data)
  fail {d d' : A} {old data : Bytes} (h : Content d old) (hrun : (StorageIo.append data).run d = (.fail, d')) :
    Content d' old

omit [StaticDataBuffer B] [ClearableAdapter A] [DecidableEq T] in
theorem tracks_since {Content : A → Bytes → Prop} (h : Grows Content) (old : List (List (Entry S))) :
    Tracks (Since Content old) where
  append_ret {d d' blocks es} hd _ hrun := by
    obtain ⟨new, rfl, hnew⟩ := hd
    refine ⟨new ++ [es], by rw [List.append_assoc], ?_⟩
    have hcontent := h.ret hnew hrun
    rwa [List.map_append, List.flatten_append, List.map_singleton, List.flatten_singleton]
  append_fail {d d' blocks es} hd _ hrun := by
    obtain ⟨new, rfl, hnew⟩ := hd
    exact ⟨new, rfl, h.fail hnew hrun⟩

omit [StorageAdapter A] [ClearableAdapter A] in
theorem Inv.setLogFile {D D' : A → List (List (Entry S)) → Prop} {w : DbWAL B A} {blocks : List (List (Entry S))}
    {cur : List (Entry S)} {issued : ℕ} (h : Inv D w blocks cur issued) {d : A} (hd : D' d blocks) :
    Inv D' { w with logFile := d } blocks cur issued :=
  { h with device := hd }

/-- A log goes on on a device that was left empty. -/
theorem System.holds_run_clearLog {Content : A → Bytes → Prop} (hgrows : Grows Content) {s : System B A S T}
    {D : A → List (List (Entry S)) → Prop} (hs : s.Holds D) {d : A}
    (hclear : DbWAL.clearLog.run s.wal = (.ret (), { s.wal with logFile := d })) (hd : Content d []) :
    ∃ old, ∀ ls, (∀ l ∈ ls, l ≠ .closeLogFile) → Along System.step System.RoomOk s.clearLog ls →
      (run System.step s.clearLog ls).issued < 2 ^ 32 →
      (run System.step s.clearLog ls).Holds (Since Content old) := by
  obtain ⟨blocks, cur, hplaced, hinv⟩ := hs.log
  refine ⟨blocks, fun ls hopen hroom hids => ?_⟩
  have hwal : s.clearLog = { s with wal := { s.wal with logFile := d } } := by rw [System.clearLog, hclear]
  have hsince : Since Content blocks d blocks := ⟨[], (List.append_nil _).symm, hd⟩
  have hcleared : s.clearLog.Holds (Since Content blocks) := by
    rw [hwal]
    exact ⟨⟨blocks, cur, hplaced, hinv.setLogFile hsince⟩, hs.waiting, hs.returned⟩
  exact System.holds_run (tracks_since hgrows blocks) hcleared (System.along_closesOk_of_ne hopen) hroom hids

omit [StaticDataBuffer B] [Wheathash] in
theorem run_clearLog {w : DbWAL B A} {d : A} (hclear : clear w.logFile = (some (), d))
    (hflush : StorageAdapter.flush d = (some (), d)) :
    DbWAL.clearLog.run w = (.ret (), { w with logFile := d }) := by
  have hrun : StorageIo.clear.run w.logFile = (.ret (), d) := Proc.run_ofCall_some hclear
  rw [DbWAL.clearLog, Proc.run_bind_of_ret (DbWAL.run_onLogFile hrun)]
  exact DbWAL.run_onLogFile (Proc.run_ofCall_some hflush)

end

/-! ### The static buffer -/

/-- Two devices with the same content and the same position. -/
structure Alike {A : Type} [StorageAdapter A] [LogDevice A] (d e : A) : Prop where
  ok : Ok d
  ok' : Ok e
  bytes : bytes d = bytes e
  pos : StorageAdapter.pos d = StorageAdapter.pos e

namespace Alike
variable {A : Type} [StorageAdapter A] [LogDevice A] {d e : A}

theorem step (h : Alike d e) {c : AdapterCall} (hc : c.SeeksInside e) :
    (c.on d).1 = (c.on e).1 ∧ Alike (c.step d) (c.step e) := by
  obtain ⟨hd, he, hbytes, hpos⟩ := h
  cases c with
  | write bs =>
    by_cases hfits : Fits A (StorageAdapter.pos d + bs.length)
    · obtain ⟨d', hwrite, hd', hbytes', hpos'⟩ := MemoryAdapter.write_some hd hfits
      obtain ⟨e', hwriteE, he', hbytesE, hposE⟩ := MemoryAdapter.write_some he (hpos ▸ hfits)
      simp only [AdapterCall.on, AdapterCall.step, hwrite, hwriteE]
      exact ⟨trivial, hd', he', by rw [hbytes', hbytesE, hbytes, hpos], by rw [hpos', hposE, hpos]⟩
    · obtain ⟨d', hwrite, hd', hbytes', hpos'⟩ := MemoryAdapter.write_none hd hfits
      obtain ⟨e', hwriteE, he', hbytesE, hposE⟩ := MemoryAdapter.write_none he (hpos ▸ hfits)
      simp only [AdapterCall.on, AdapterCall.step, hwrite, hwriteE]
      exact ⟨trivial, hd', he', by rw [hbytes', hbytesE, hbytes], by rw [hpos', hposE, hpos]⟩
  | seek position =>
    have hle : position.toNat ≤ (ReadableAdapter.bytes e).length := ReadableAdapter.size_eq he ▸ hc
    obtain ⟨d', hseek, hd', hbytes', hpos'⟩ := ReadableAdapter.seek_some hd (hbytes ▸ hle)
    obtain ⟨e', hseekE, he', hbytesE, hposE⟩ := ReadableAdapter.seek_some he hle
    simp only [AdapterCall.on, AdapterCall.step, hseek, hseekE]
    exact ⟨trivial, hd', he', by rw [hbytes', hbytesE, hbytes], by rw [hpos', hposE]⟩
  | seekToEnd =>
    obtain ⟨d', hseek, hd', hbytes', hpos', -⟩ := LogDevice.seekToEnd_some hd
    obtain ⟨e', hseekE, he', hbytesE, hposE, -⟩ := LogDevice.seekToEnd_some he
    simp only [AdapterCall.on, AdapterCall.step, hseek, hseekE]
    exact ⟨trivial, hd', he', by rw [hbytes', hbytesE, hbytes], by rw [hpos', hposE, hbytes]⟩
  | read n =>
    by_cases hn : StorageAdapter.pos d + n ≤ (ReadableAdapter.bytes d).length
    · have hn' : StorageAdapter.pos e + n ≤ (ReadableAdapter.bytes e).length := by rwa [← hpos, ← hbytes]
      obtain ⟨d', hread, hd', hbytes', hpos'⟩ := ReadableAdapter.read_some hd hn
      obtain ⟨e', hreadE, he', hbytesE, hposE⟩ := ReadableAdapter.read_some he hn'
      simp only [AdapterCall.on, AdapterCall.step, hread, hreadE]
      exact ⟨by simp only [Option.map_some, hbytes, hpos], hd', he', by rw [hbytes', hbytesE, hbytes],
        by rw [hpos', hposE, hpos]⟩
    · have hn' : (ReadableAdapter.bytes e).length < StorageAdapter.pos e + n := by
        rw [← hpos, ← hbytes]
        exact Nat.lt_of_not_le hn
      obtain ⟨d', hread, hd', hbytes', hpos'⟩ := MemoryAdapter.read_none hd (Nat.lt_of_not_le hn)
      obtain ⟨e', hreadE, he', hbytesE, hposE⟩ := MemoryAdapter.read_none he hn'
      simp only [AdapterCall.on, AdapterCall.step, hread, hreadE]
      exact ⟨trivial, hd', he', by rw [hbytes', hbytesE, hbytes], by rw [hpos', hposE, hpos]⟩
  | size =>
    exact ⟨congrArg Answer.number (by rw [ReadableAdapter.size_eq hd, ReadableAdapter.size_eq he, hbytes]),
      hd, he, hbytes, hpos⟩
  | pos => exact ⟨congrArg Answer.number hpos, hd, he, hbytes, hpos⟩
  | atEnd =>
    exact ⟨congrArg Answer.done (by rw [ReadableAdapter.atEnd_eq hd, ReadableAdapter.atEnd_eq he, hbytes, hpos]),
      hd, he, hbytes, hpos⟩

theorem answers (h : Alike d e) {calls : List AdapterCall}
    (hcalls : Along AdapterCall.step AdapterCall.SeeksInside e calls) :
    AdapterCall.answers d calls = AdapterCall.answers e calls := by
  induction calls generalizing d e with
  | nil => rfl
  | cons c calls ih =>
    obtain ⟨hanswer, hstep⟩ := h.step hcalls.1
    exact congrArg₂ List.cons hanswer (ih hstep hcalls.2)

end Alike

theorem grows_ok {A : Type} [StorageAdapter A] [LogDevice A] : Grows fun (d : A) bs => Ok d ∧ bytes d = bs where
  ret {d d' old data} h hrun := by
    obtain ⟨hok, rfl⟩ := h
    obtain ⟨hok', -, ⟨-, hbytes⟩ | ⟨hx, -⟩⟩ := LogDevice.append_cases hok hrun
    · exact ⟨hok', hbytes⟩
    · cases hx
  fail {d d' old data} h hrun := by
    obtain ⟨hok, rfl⟩ := h
    obtain ⟨hok', -, ⟨hx, -⟩ | ⟨-, hbytes⟩⟩ := LogDevice.append_cases hok hrun
    · cases hx
    · exact ⟨hok', hbytes⟩

namespace StaticBufferAdapter
variable {B : ℕ → Type} [StaticDataBuffer B] {N : ℕ} {a e : StaticBufferAdapter B N}

theorem shows_clear (a : StaticBufferAdapter B N) : ∃ data, Shows (clear a).2 0 0 data := by
  obtain ⟨data, hreserve, -⟩ := Shows.reserve (a := a) ⟨rfl, rfl, rfl⟩ (Nat.zero_le N)
  exact ⟨data, hreserve.seek (Nat.le_refl 0)⟩

theorem ok_of_shows_empty {data : Bytes} (h : Shows a 0 0 data) : Ok a ∧ bytes a = [] := by
  refine ⟨⟨?_, ?_⟩, ?_⟩
  · rw [h.pos, h.size]
  · rw [h.size]
    exact Nat.zero_le N
  · change a.data.take a.size = []
    rw [h.size, List.take_zero]

/-- A buffer that has just been opened is as `clear` leaves it. -/
theorem alike_clear (a : StaticBufferAdapter B N) (he : NewlyOpened e) : Alike (clear a).2 e := by
  obtain ⟨new, fileName, mode, rfl, hopen, -⟩ := he
  obtain ⟨data, hclear⟩ := shows_clear a
  obtain ⟨dataE, hnew⟩ := shows_new (B := B) (N := N)
  cases hopen
  have hshows : Shows ({ (.new : StaticBufferAdapter B N) with isOpen := true }) 0 0 dataE :=
    ⟨hnew.size, hnew.pos, hnew.data⟩
  obtain ⟨hok, hbytes⟩ := ok_of_shows_empty hclear
  obtain ⟨hokE, hbytesE⟩ := ok_of_shows_empty hshows
  exact ⟨hok, hokE, hbytes.trans hbytesE.symm, hclear.pos.trans hshows.pos.symm⟩

theorem clearWorks [Wheathash] (h : a.isOpen = true) : ClearWorks B a where
  succeeds := rfl
  isOpen := h
  opening := rfl
  size := by
    obtain ⟨data, hclear⟩ := shows_clear a
    exact hclear.size
  answers e he _ calls hcalls := (alike_clear a he).answers hcalls
  clearLog w hw := by
    subst hw
    exact run_clearLog rfl rfl
  logging s D hs hw := by
    subst hw
    obtain ⟨data, hclear⟩ := shows_clear s.wal.logFile
    exact System.holds_run_clearLog grows_ok hs (run_clearLog rfl rfl) (ok_of_shows_empty hclear)

end StaticBufferAdapter

namespace FopenAdapter
variable {bits : ℕ} {a : FopenAdapter bits}

theorem clear_fails (a : FopenAdapter bits) : (clear a).1 = none ∧ (clear a).2.handle = none := by
  rcases hhandle : a.handle with _ | f
  · have hclose : close a = (none, a) := by simp [close, hhandle]
    simp only [clear, hclose]
    exact ⟨trivial, hhandle⟩
  · have hclose : close a = (some (), { a with filePath := "", handle := none }) := by simp [close, hhandle]
    simp [clear, hclose, open_, Files.fopen]

/-- The log is closed, and its `DbWAL` still writes to it. -/
theorem clearLog_fails {B : ℕ → Type} (w : DbWAL B (FopenAdapter bits)) :
    ∃ d, DbWAL.clearLog.run w = (.fail, { w with logFile := d }) ∧ d.handle = none := by
  obtain ⟨hfail, hclosed⟩ := clear_fails w.logFile
  have hrun : StorageIo.clear.run w.logFile = (.fail, (clear w.logFile).2) := Proc.run_ofCall_none (Prod.ext hfail rfl)
  exact ⟨_, by rw [DbWAL.clearLog, Proc.run_bind_of_fail (DbWAL.run_onLogFile hrun)], hclosed⟩

theorem not_clearWorks [Wheathash] {B : ℕ → Type} [StaticDataBuffer B] (a : FopenAdapter bits) : ¬ ClearWorks B a := by
  intro h
  have hclear : (clear a).1 = some () := h.succeeds
  rw [(clear_fails a).1] at hclear
  cases hclear

end FopenAdapter

/-! ### `QBuffer` -/

namespace QMemoryDeviceAdapter
variable {a : QMemoryDeviceAdapter}

/-- What every call keeps: the position is inside the buffer, and `_dataBuffer` is empty. -/
structure Kept (a : QMemoryDeviceAdapter) : Prop where
  pos_le : a.position ≤ a.buffer.length
  dataBuffer : a.dataBuffer = []

theorem Kept.call (h : Kept a) (c : AdapterCall) : Kept (c.step a) := by
  obtain ⟨hpos, hdata⟩ := h
  cases c with
  | write bs =>
    simp only [AdapterCall.step, AdapterCall.on, StorageAdapter.write, write]
    split
    · refine ⟨?_, hdata⟩
      rw [length_overwrite hpos]
      exact Nat.le_max_right ..
    · exact ⟨hpos, hdata⟩
  | seek position =>
    simp only [AdapterCall.step, AdapterCall.on, StorageAdapter.seek, seek]
    generalize toQint64 position.toNat = offset
    split
    · refine ⟨?_, hdata⟩
      change offset.toNat ≤ (a.buffer ++ List.replicate (offset.toNat - a.buffer.length) 0).length
      rw [List.length_append, List.length_replicate]
      omega
    · exact ⟨hpos, hdata⟩
  | seekToEnd =>
    simp only [AdapterCall.step, AdapterCall.on, StorageAdapter.seekToEnd, seekToEnd]
    split
    · exact ⟨Nat.le_refl _, hdata⟩
    · exact ⟨hpos, hdata⟩
  | read n =>
    simp only [AdapterCall.step, AdapterCall.on, StorageAdapter.read, read]
    split
    · have hlen : (slice a.buffer a.position n).length ≤ a.buffer.length - a.position := by
        rw [slice, List.length_take, List.length_drop]
        exact Nat.min_le_right ..
      refine ⟨?_, hdata⟩
      change a.position + (slice a.buffer a.position n).length ≤ a.buffer.length
      omega
    · exact ⟨hpos, hdata⟩
  | size => exact ⟨hpos, hdata⟩
  | pos => exact ⟨hpos, hdata⟩
  | atEnd => exact ⟨hpos, hdata⟩

theorem Kept.step (h : Kept a) (u : Use) : Kept (u.step a) := by
  cases u with
  | open_ fileName mode => exact ⟨Nat.zero_le _, h.dataBuffer⟩
  | flush => exact h
  | call c => exact h.call c

theorem kept_of_reached (h : Reached a) : Kept a := by
  obtain ⟨-, new, uses, rfl, rfl⟩ := h
  exact Along.invariant (C := fun _ _ => True) (fun _ u h _ => h.step u) ⟨Nat.le_refl 0, rfl⟩
    (Along.of_forall fun _ _ => trivial)

theorem append_cases {a' : QMemoryDeviceAdapter} {data : Bytes} {x : Exit Unit}
    (hrun : (StorageIo.append data).run a = (x, a')) :
    x = .ret () ∧ a'.buffer = a.buffer ++ data ∨ x = .fail ∧ a'.buffer = a.buffer := by
  rw [StorageIo.append] at hrun
  by_cases hopen : a.openMode.isSome = true
  · have hseek : StorageIo.seekToEnd.run a = (.ret (), { a with position := a.buffer.length }) :=
      Proc.run_ofCall_some (if_pos hopen)
    rw [Proc.run_bind_of_ret hseek] at hrun
    by_cases hwritable : a.canWrite = true
    · have hwrite : (StorageIo.write data).run { a with position := a.buffer.length } =
          (.ret (), { a with
            buffer := overwrite a.buffer a.buffer.length data
            position := a.buffer.length + data.length }) := Proc.run_ofCall_some (if_pos hwritable)
      rw [Proc.run_bind_of_ret hwrite, overwrite_end rfl] at hrun
      cases hrun
      exact .inl ⟨rfl, rfl⟩
    · have hwrite : (StorageIo.write data).run { a with position := a.buffer.length } =
          (.fail, { a with position := a.buffer.length }) := Proc.run_ofCall_none (if_neg hwritable)
      rw [Proc.run_bind_of_fail hwrite] at hrun
      cases hrun
      exact .inr ⟨rfl, rfl⟩
  · have hseek : StorageIo.seekToEnd.run a = (.fail, a) := Proc.run_ofCall_none (if_neg hopen)
    rw [Proc.run_bind_of_fail hseek] at hrun
    cases hrun
    exact .inr ⟨rfl, rfl⟩

theorem grows_buffer : Grows fun (a : QMemoryDeviceAdapter) bs => a.buffer = bs where
  ret {d d' old data} h hrun := by
    subst h
    rcases append_cases hrun with ⟨-, hbuffer⟩ | ⟨hx, -⟩
    · exact hbuffer
    · cases hx
  fail {d d' old data} h hrun := by
    subst h
    rcases append_cases hrun with ⟨hx, -⟩ | ⟨-, hbuffer⟩
    · cases hx
    · exact hbuffer

/-- What is open and empty is as it was opened. -/
theorem clear_eq_of_newlyOpened (h : Kept a) (hempty : a.buffer = []) {e : QMemoryDeviceAdapter} (he : NewlyOpened e)
    (hopening : a.openMode = e.openMode) : (clear a).2 = e := by
  obtain ⟨new, fileName, mode, rfl, hopen, -⟩ := he
  obtain ⟨buffer, openMode, position, dataBuffer⟩ := a
  obtain ⟨hpos, hdata⟩ := h
  dsimp only at hempty hpos hopening
  subst hempty
  cases hopen
  dsimp only at hopening
  have hzero : position = 0 := Nat.le_zero.1 hpos
  rw [clear, hopening, hzero]

theorem clearWorks_iff [Wheathash] {B : ℕ → Type} [StaticDataBuffer B] (h : Reached a) :
    ClearWorks B a ↔ a.size = 0 := by
  have hkept := kept_of_reached h
  constructor
  · intro hworks
    exact hworks.size
  · intro hsize
    have hempty : a.buffer = [] := List.eq_nil_of_length_eq_zero hsize
    exact {
      succeeds := rfl
      isOpen := h.1
      opening := rfl
      size := hsize
      answers := fun e he hopening calls _ => by
        have hclear : (ClearableAdapter.clear a).2 = e := clear_eq_of_newlyOpened hkept hempty he hopening
        rw [hclear]
      clearLog := fun w hw => by
        subst hw
        exact run_clearLog rfl rfl
      logging := fun s D hs hw => by
        subst hw
        exact System.holds_run_clearLog grows_buffer hs (run_clearLog rfl rfl) hempty }

end QMemoryDeviceAdapter

/-- **Clearing works** on every open static buffer, on no open file, and on an open `QBuffer` exactly when it is
empty. -/
theorem clear_on_devices [Wheathash] {B : ℕ → Type} [StaticDataBuffer B] :
    (∀ (N : ℕ) (a : StaticBufferAdapter B N), Reached a → ClearWorks B a) ∧
    (∀ (bits : ℕ) (a : FopenAdapter bits), Reached a → ¬ ClearWorks B a) ∧
    ∀ a : QMemoryDeviceAdapter, Reached a → (ClearWorks B a ↔ a.size = 0) :=
  ⟨fun _ _ h => StaticBufferAdapter.clearWorks h.1, fun _ a _ => FopenAdapter.not_clearWorks a,
    fun _ h => QMemoryDeviceAdapter.clearWorks_iff h⟩

/-- A byte is written. -/
def oneByte : List Use := [.open_ "log" .Write, .call (.write [7])]

def oneByteStatic : StaticBufferAdapter ListBuffer 16 := run Use.step .new oneByte

def oneByteFile : FopenAdapter 64 := run Use.step { files := fun _ => none } oneByte

def oneByteQBuffer : QMemoryDeviceAdapter := run Use.step {} oneByte

theorem reached_static : Reached oneByteStatic := ⟨rfl, .new, oneByte, rfl, rfl⟩

theorem reached_file : Reached oneByteFile := ⟨rfl, { files := fun _ => none }, oneByte, ⟨fun _ => none, rfl⟩, rfl⟩

theorem reached_qBuffer : Reached oneByteQBuffer := ⟨rfl, {}, oneByte, rfl, rfl⟩

section
open ByteSum

theorem clear_on_devices_oneByte : ClearWorks ListBuffer oneByteStatic ∧ ¬ ClearWorks ListBuffer oneByteFile ∧
    (ClearWorks ListBuffer oneByteQBuffer ↔ oneByteQBuffer.size = 0) :=
  ⟨clear_on_devices.1 16 _ reached_static, clear_on_devices.2.1 64 _ reached_file,
    clear_on_devices.2.2 _ reached_qBuffer⟩

/-- The file is closed, and the byte stays in the `QBuffer`. -/
theorem not_cleared :
    (Reached oneByteFile ∧ oneByteFile.clear.1 = none ∧ ¬ ClearWorks ListBuffer oneByteFile) ∧
    Reached oneByteQBuffer ∧ oneByteQBuffer.clear.1 = some () ∧ oneByteQBuffer.clear.2.size = 1 ∧
      ¬ ClearWorks ListBuffer oneByteQBuffer := by
  refine ⟨⟨reached_file, (FopenAdapter.clear_fails _).1, FopenAdapter.not_clearWorks _⟩,
    reached_qBuffer, rfl, rfl, fun h => ?_⟩
  exact absurd ((QMemoryDeviceAdapter.clearWorks_iff reached_qBuffer).1 h) (by decide)

end

end CppDb
