import CppDb.Fopen

/-!
# Files and buffers through Qt (`storage/storage_qt.hpp`)

`QFile` and `QBuffer` as Qt documents them, and the adapters on top of them. `WriteOnly` truncates a file but not
a buffer, and neither can be read while it is open for writing only. A buffer belongs to its adapter.
-/

namespace CppDb
open Embed

/-- The flags of `QIODevice::OpenModeFlag` that are used. -/
inductive QtOpenMode where
  | ReadOnly
  | WriteOnly
  | ReadWrite
deriving DecidableEq, Repr

namespace QtOpenMode

def ofOpenMode : OpenMode → QtOpenMode
  | .Read => ReadOnly
  | .Write => WriteOnly
  | .ReadWrite => ReadWrite

def isReadable : QtOpenMode → Bool
  | WriteOnly => false
  | _ => true

def isWritable : QtOpenMode → Bool
  | ReadOnly => false
  | _ => true

end QtOpenMode

/-- `static_cast<qint64>(n)`. -/
def toQint64 (n : ℕ) : ℤ := Int.bmod n (2 ^ 64)

@[simp] theorem toQint64_zero : toQint64 0 = 0 := rfl

theorem toQint64_of_lt {n : ℕ} (h : n < 2 ^ 63) : toQint64 n = n := toLong_of_lt h

/-! ### `QFileAdapter` -/

/-- The adapter, with the file system it works on. -/
structure QFileAdapter where
  files : Files
  fileName : String := ""
  openMode : Option QtOpenMode := none
  position : ℕ := 0

namespace QFileAdapter

def content (a : QFileAdapter) : Bytes := a.files.content a.fileName

/-- `setFileName` closes a file that is open. -/
def open_ (fileName : String) (mode : OpenMode) : Call QFileAdapter Unit := fun a =>
  let closed : QFileAdapter := { files := a.files, fileName := fileName }
  if fileName = "" then (none, closed)
  else match QtOpenMode.ofOpenMode mode with
  | .ReadOnly =>
    match a.files fileName with
    | some _ => (some (), { closed with openMode := some .ReadOnly })
    | none => (none, closed)
  | .WriteOnly => (some (), { closed with
      openMode := some .WriteOnly
      files := Function.update a.files fileName (some []) })
  | .ReadWrite => (some (), { closed with
      openMode := some .ReadWrite
      files := Function.update a.files fileName (some (a.files.content fileName)) })

def close : Call QFileAdapter Unit := fun a => (some (), { a with openMode := none, position := 0 })

def canRead (a : QFileAdapter) : Bool := (a.openMode.map QtOpenMode.isReadable).getD false

def canWrite (a : QFileAdapter) : Bool := (a.openMode.map QtOpenMode.isWritable).getD false

def read (dataSize : ℕ) : Call QFileAdapter (Raw dataSize) := fun a =>
  if a.canRead then
    let bs := slice a.content a.position dataSize
    (if h : bs.length = dataSize then some ⟨bs, h⟩ else none, { a with position := a.position + bs.length })
  else (none, a)

def write (data : Bytes) : Call QFileAdapter Unit := fun a =>
  if a.canWrite then
    (some (), { a with
      files := Function.update a.files a.fileName (some (Files.store a.content a.position data))
      position := a.position + data.length })
  else (none, a)

def seek (position : ℕ) : Call QFileAdapter Unit := fun a =>
  if a.openMode.isSome ∧ 0 ≤ toQint64 position then (some (), { a with position := (toQint64 position).toNat })
  else (none, a)

def size (a : QFileAdapter) : ℕ := a.content.length

def seekToEnd : Call QFileAdapter Unit := fun a =>
  if a.openMode.isSome then (some (), { a with position := a.size }) else (none, a)

def pos (a : QFileAdapter) : ℕ := a.position

def atEnd (a : QFileAdapter) : Bool := a.openMode.isNone || decide (a.size ≤ a.position)

def flush : Call QFileAdapter Unit := fun a => (if a.openMode.isSome then some () else none, a)

instance : StorageAdapter QFileAdapter where
  open_ := open_
  close := close
  read := read
  write := write
  seek := seek
  seekToEnd := seekToEnd
  flush := flush
  pos := pos
  size := size
  atEnd := atEnd

end QFileAdapter

/-- A file opened for reading gives its bytes, one opened for writing takes them. -/
instance : FileAdapter QFileAdapter where
  Closed a := a.openMode = none
  file a path := if path = "" then none else a.files path
  Writing a path bs := path ≠ "" ∧ a.files path = some bs ∧ a.fileName = path ∧ a.openMode = some .WriteOnly ∧
    a.position = bs.length
  Reading a rest := ∃ content, a.fileName ≠ "" ∧ a.files a.fileName = some content ∧ a.position ≤ content.length ∧
    content.drop a.position = rest ∧ a.openMode = some .ReadOnly
  open_write {d d' path} h hopen := by
    simp only [StorageAdapter.open_, QFileAdapter.open_, QtOpenMode.ofOpenMode] at hopen
    by_cases hpath : path = ""
    · rw [if_pos hpath] at hopen
      cases hopen
    · rw [if_neg hpath] at hopen
      cases hopen
      refine ⟨⟨hpath, by simp, rfl, rfl, rfl⟩, fun q hq => ?_⟩
      simp [hq]
  write {d d' path old bs} h hwrite := by
    obtain ⟨hpath, hfile, hname, hmode, hpos⟩ := h
    have hwritable : d.canWrite = true := by rw [QFileAdapter.canWrite, hmode]; rfl
    have hcontent : d.content = old := by rw [QFileAdapter.content, hname, Files.content_of_some hfile]
    simp only [StorageAdapter.write, QFileAdapter.write, hwritable, if_true, hcontent, hpos, Files.store_end] at hwrite
    cases hwrite
    refine ⟨⟨hpath, by simp [hname], hname, hmode, by simp⟩, fun q hq => ?_⟩
    simp [hname, hq]
  flush {d d' path old x} h hflush := by
    cases hflush
    exact ⟨h, fun _ _ => rfl⟩
  close_write {d path bs} h := by
    obtain ⟨hpath, hfile, -⟩ := h
    refine ⟨rfl, ?_, fun _ _ => rfl⟩
    exact (if_neg hpath).trans hfile
  open_read {d path bs} h hfile := by
    have hpath : path ≠ "" := by
      rintro rfl
      simp at hfile
    rw [if_neg hpath] at hfile
    refine ⟨{ files := d.files, fileName := path, openMode := some .ReadOnly }, ?_, ?_, rfl⟩
    · simp [StorageAdapter.open_, QFileAdapter.open_, QtOpenMode.ofOpenMode, hpath, hfile]
    · exact ⟨bs, hpath, hfile, Nat.zero_le _, rfl, rfl⟩
  read {d n v rest} h := by
    obtain ⟨content, hname, hfile, hpos, hdrop, hmode⟩ := h
    obtain ⟨v, rfl⟩ := v
    dsimp only at hdrop
    have hreadable : d.canRead = true := by rw [QFileAdapter.canRead, hmode]; rfl
    have hcontent : d.content = content := Files.content_of_some hfile
    have hslice : slice content d.position v.length = v := slice_of_drop hdrop
    have hlen : d.position + v.length ≤ content.length := add_length_le_of_drop hpos hdrop
    refine ⟨{ d with position := d.position + v.length }, ?_, ?_, rfl⟩
    · simp only [StorageAdapter.read, QFileAdapter.read, hreadable, if_true, hcontent, hslice, dif_pos]
    · exact ⟨content, hname, hfile, hlen, drop_of_drop hdrop, hmode⟩
  close_read {d rest} _ := ⟨rfl, rfl⟩

/-! ### `QMemoryDeviceAdapter` -/

/-- The adapter with the contents of its `QBuffer`. -/
structure QMemoryDeviceAdapter where
  buffer : Bytes := []
  openMode : Option QtOpenMode := none
  position : ℕ := 0
  /-- `_dataBuffer`, which the `QBuffer` is never set to. -/
  dataBuffer : Bytes := []

namespace QMemoryDeviceAdapter

def open_ (_ : String) (mode : OpenMode) : Call QMemoryDeviceAdapter Unit := fun a =>
  (some (), { a with openMode := some (QtOpenMode.ofOpenMode mode), position := 0 })

def close : Call QMemoryDeviceAdapter Unit := fun a =>
  if a.openMode.isSome then (some (), { a with openMode := none, position := 0 }) else (none, a)

def canRead (a : QMemoryDeviceAdapter) : Bool := (a.openMode.map QtOpenMode.isReadable).getD false

def canWrite (a : QMemoryDeviceAdapter) : Bool := (a.openMode.map QtOpenMode.isWritable).getD false

def read (dataSize : ℕ) : Call QMemoryDeviceAdapter (Raw dataSize) := fun a =>
  if a.canRead then
    let bs := slice a.buffer a.position dataSize
    (if h : bs.length = dataSize then some ⟨bs, h⟩ else none, { a with position := a.position + bs.length })
  else (none, a)

def write (data : Bytes) : Call QMemoryDeviceAdapter Unit := fun a =>
  if a.canWrite then
    (some (), { a with buffer := overwrite a.buffer a.position data, position := a.position + data.length })
  else (none, a)

/-- Beyond its end a buffer open for writing is filled with zeros. -/
def seek (position : ℕ) : Call QMemoryDeviceAdapter Unit := fun a =>
  if a.openMode.isSome ∧ 0 ≤ toQint64 position ∧ (a.canWrite ∨ (toQint64 position).toNat ≤ a.buffer.length) then
    (some (), { a with
      buffer := a.buffer ++ List.replicate ((toQint64 position).toNat - a.buffer.length) 0
      position := (toQint64 position).toNat })
  else (none, a)

def size (a : QMemoryDeviceAdapter) : ℕ := a.buffer.length

def seekToEnd : Call QMemoryDeviceAdapter Unit := fun a =>
  if a.openMode.isSome then (some (), { a with position := a.size }) else (none, a)

def pos (a : QMemoryDeviceAdapter) : ℕ := a.position

def atEnd (a : QMemoryDeviceAdapter) : Bool := a.openMode.isNone || decide (a.size ≤ a.position)

def flush : Call QMemoryDeviceAdapter Unit := fun a => (some (), a)

def clear : Call QMemoryDeviceAdapter Unit := fun a => (some (), { a with dataBuffer := [] })

instance : StorageAdapter QMemoryDeviceAdapter where
  open_ := open_
  close := close
  read := read
  write := write
  seek := seek
  seekToEnd := seekToEnd
  flush := flush
  pos := pos
  size := size
  atEnd := atEnd

instance : ClearableAdapter QMemoryDeviceAdapter where
  clear := clear

end QMemoryDeviceAdapter

end CppDb
