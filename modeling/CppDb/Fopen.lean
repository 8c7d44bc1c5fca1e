import CppDb.FileAdapters
import CppDb.MemoryAdapters

/-!
# Files through C streams (`storage/storage_std.hpp`)

`fopen` and its companions as the C standard describes them on a file system that works, and `FopenAdapter` on
top of them. `bits` is the width of `long`, to which `seek` converts its position.
-/

namespace CppDb
open Embed

/-- The files there are, by their paths. -/
abbrev Files : Type := String → Option Bytes

/-- An open stream. -/
structure FILE where
  path : String
  readable : Bool
  writable : Bool
  /-- Every write goes to the end of the file. -/
  append : Bool
  pos : ℕ := 0
deriving DecidableEq, Repr

/-- The modes of `fopen` that are used. -/
inductive StreamMode where
  | rb
  | wb
  | ab_update
  | wb_update
deriving DecidableEq, Repr

namespace Files

def content (files : Files) (path : String) : Bytes := (files path).getD []

/-- There is no file of the empty path. -/
def fopen (path : String) (mode : StreamMode) (files : Files) : Option FILE × Files :=
  if path = "" then (none, files)
  else match mode with
  | .rb =>
    match files path with
    | some _ => (some ⟨path, true, false, false, 0⟩, files)
    | none => (none, files)
  | .wb => (some ⟨path, false, true, false, 0⟩, Function.update files path (some []))
  | .ab_update => (some ⟨path, true, true, true, 0⟩, Function.update files path (some (files.content path)))
  | .wb_update => (some ⟨path, true, true, false, 0⟩, Function.update files path (some []))

/-- The bytes read, at most `n`, and the stream after them. -/
def fread (files : Files) (n : ℕ) (f : FILE) : Bytes × FILE :=
  if f.readable then
    let bs := slice (files.content f.path) f.pos n
    (bs, { f with pos := f.pos + bs.length })
  else ([], f)

/-- What a write at `pos` makes of a file; a gap before it reads as zeros. -/
def store (old : Bytes) (pos : ℕ) (bs : Bytes) : Bytes :=
  overwrite (old ++ List.replicate (pos - old.length) 0) pos bs

/-- The number of bytes written, the stream and the files after them. -/
def fwrite (files : Files) (bs : Bytes) (f : FILE) : ℕ × FILE × Files :=
  if f.writable ∧ bs ≠ [] then
    let pos := if f.append then (files.content f.path).length else f.pos
    (bs.length, { f with pos := pos + bs.length },
      Function.update files f.path (some (store (files.content f.path) pos bs)))
  else (0, f, files)

end Files

/-- The adapter, with the file system it works on. -/
structure FopenAdapter (bits : ℕ) where
  files : Files
  filePath : String := ""
  handle : Option FILE := none
  mode : OpenMode := .Read

namespace FopenAdapter
variable {bits : ℕ}

/-- `(long)position`, for a position of 64 bits. -/
def toLong (bits position : ℕ) : ℤ := Int.bmod position (2 ^ bits)

/-- Calls on the stream; without one they are not made. -/
def onHandle {α : Type} (c : FILE → Files → Option α × FILE × Files) : Call (FopenAdapter bits) α := fun a =>
  match a.handle with
  | some f =>
    let (result, f', files') := c f a.files
    (result, { a with handle := some f', files := files' })
  | none => (none, a)

def seek (position : ℕ) : Call (FopenAdapter bits) Unit := onHandle fun f files =>
  if 0 ≤ toLong bits position then (some (), { f with pos := (toLong bits position).toNat }, files)
  else (none, f, files)

def seekToEnd : Call (FopenAdapter bits) Unit := onHandle fun f files =>
  (some (), { f with pos := (files.content f.path).length }, files)

def streamMode (truncate : Bool) : OpenMode → StreamMode
  | .Read => .rb
  | .Write => .wb
  | .ReadWrite => if truncate then .wb_update else .ab_update

/-- `a+` sets the cursor to the end, so `open` seeks to the start itself. -/
def open_ (fileName : String) (mode : OpenMode) (truncate : Bool) : Call (FopenAdapter bits) Unit := fun a =>
  if a.handle.isSome then (none, a)
  else
    let (handle, files) := Files.fopen fileName (streamMode truncate mode) a.files
    let a' := { a with files := files, filePath := fileName, handle := handle, mode := mode }
    let a'' := if mode = .ReadWrite ∧ truncate = false then (seek 0 a').2 else a'
    (if a''.handle.isSome then some () else none, a'')

def close : Call (FopenAdapter bits) Unit := fun a =>
  match a.handle with
  | some _ => (some (), { a with filePath := "", handle := none })
  | none => (none, a)

def read (dataSize : ℕ) : Call (FopenAdapter bits) (Raw dataSize) := onHandle fun f files =>
  let (bs, f') := files.fread dataSize f
  (if h : bs.length = dataSize then some ⟨bs, h⟩ else none, f', files)

def write (data : Bytes) : Call (FopenAdapter bits) Unit := onHandle fun f files =>
  let (n, f', files') := files.fwrite data f
  (if n = data.length then some () else none, f', files')

def flush : Call (FopenAdapter bits) Unit := onHandle fun f files => (some (), f, files)

/-- `_filePath`, as `close` leaves it, is what is opened again. -/
def clear : Call (FopenAdapter bits) Unit := fun a =>
  match close a with
  | (some _, a') => open_ a'.filePath a'.mode true a'
  | (none, a') => (none, a')

def pos (a : FopenAdapter bits) : ℕ := (a.handle.map FILE.pos).getD 0

/-- The position goes to the end and back. -/
def size (a : FopenAdapter bits) : ℕ := (a.handle.map fun f => (a.files.content f.path).length).getD 0

end FopenAdapter

instance {bits : ℕ} : StorageAdapter (FopenAdapter bits) where
  open_ fileName mode := FopenAdapter.open_ fileName mode false
  close := FopenAdapter.close
  read := FopenAdapter.read
  write := FopenAdapter.write
  seek := FopenAdapter.seek
  seekToEnd := FopenAdapter.seekToEnd
  flush := FopenAdapter.flush
  pos := FopenAdapter.pos
  size := FopenAdapter.size
  atEnd a := a.pos == a.size

instance {bits : ℕ} : ClearableAdapter (FopenAdapter bits) where
  clear := FopenAdapter.clear

namespace Files
variable {files : Files} {f : FILE} {bs : Bytes}

@[simp] theorem content_of_some {path : String} (h : files path = some bs) : files.content path = bs := by
  rw [content, h, Option.getD_some]

@[simp] theorem store_end (old bs : Bytes) : store old old.length bs = old ++ bs := by
  rw [store, Nat.sub_self, List.replicate_zero, List.append_nil, overwrite_end rfl]

theorem fwrite_nil : files.fwrite [] f = (0, f, files) := by
  simp [fwrite]

theorem fwrite_of_ne (h : f.writable = true) (hbs : bs ≠ []) : files.fwrite bs f =
    (bs.length,
      { f with pos := (if f.append then (files.content f.path).length else f.pos) + bs.length },
      Function.update files f.path (some (store (files.content f.path)
        (if f.append then (files.content f.path).length else f.pos) bs))) := by
  rw [fwrite, if_pos ⟨h, hbs⟩]

end Files

namespace FopenAdapter
variable {bits : ℕ} {f : FopenAdapter bits} {stream : FILE} {bs : Bytes}

theorem write_nil (h : f.handle = some stream) : StorageAdapter.write [] f = (some (), f) := by
  obtain ⟨files, filePath, handle, mode⟩ := f
  cases h
  simp [StorageAdapter.write, write, onHandle, Files.fwrite_nil]

theorem write_append (h : f.handle = some stream) (hwritable : stream.writable = true) (happend : stream.append = true)
    (hbs : bs ≠ []) : StorageAdapter.write bs f = (some (), { f with
      handle := some { stream with pos := (f.files.content stream.path).length + bs.length }
      files := Function.update f.files stream.path (some (f.files.content stream.path ++ bs)) }) := by
  simp only [StorageAdapter.write, write, onHandle, h]
  rw [Files.fwrite_of_ne hwritable hbs]
  simp only [happend, if_true, Files.store_end]

theorem seek_of_toLong (h : f.handle = some stream) {position reached : ℕ} (hlong : toLong bits position = reached) :
    StorageAdapter.seek position f = (some (), { f with handle := some { stream with pos := reached } }) := by
  simp [StorageAdapter.seek, seek, onHandle, h, hlong]

theorem seek_of_toLong_neg (h : f.handle = some stream) {position : ℕ} (hlong : toLong bits position < 0) :
    StorageAdapter.seek position f = (none, f) := by
  obtain ⟨files, filePath, handle, mode⟩ := f
  cases h
  simp [StorageAdapter.seek, seek, onHandle, hlong.not_ge]

end FopenAdapter

/-- The range of a `long` ends in the middle of the remainders. -/
theorem half_two_pow (width : ℕ) : (((2 ^ (width + 1) : ℕ) : ℤ) + 1) / 2 = ((2 ^ width : ℕ) : ℤ) := by
  rw [pow_succ]
  generalize 2 ^ width = half
  omega

theorem toLong_of_mod_lt {width position : ℕ} (h : position % 2 ^ (width + 1) < 2 ^ width) :
    FopenAdapter.toLong (width + 1) position = ((position % 2 ^ (width + 1) : ℕ) : ℤ) := by
  rw [FopenAdapter.toLong, Int.bmod_def, ← Int.natCast_mod, half_two_pow, if_pos (Int.ofNat_lt.2 h)]

theorem toLong_neg_of_le_mod {width position : ℕ} (h : 2 ^ width ≤ position % 2 ^ (width + 1)) :
    FopenAdapter.toLong (width + 1) position < 0 := by
  have hlt : position % 2 ^ (width + 1) < 2 ^ (width + 1) := Nat.mod_lt _ (Nat.two_pow_pos _)
  rw [FopenAdapter.toLong, Int.bmod_def, ← Int.natCast_mod, half_two_pow, if_neg (by omega)]
  omega

theorem toLong_of_lt {position : ℕ} (h : position < 2 ^ 63) : FopenAdapter.toLong 64 position = position := by
  have hmod : position % 2 ^ (63 + 1) = position := Nat.mod_eq_of_lt (Nat.lt_trans h (by decide))
  have hlong := toLong_of_mod_lt (hmod.symm ▸ h)
  rwa [hmod] at hlong

theorem toLong_neg {position : ℕ} (h : 2 ^ 63 ≤ position) (h' : position < 2 ^ 64) :
    FopenAdapter.toLong 64 position < 0 :=
  toLong_neg_of_le_mod (by rwa [Nat.mod_eq_of_lt h'])

/-- A stream opened for reading gives the bytes of its file, one opened for writing takes them. -/
instance {bits : ℕ} : FileAdapter (FopenAdapter bits) where
  Closed a := a.handle = none
  file a path := if path = "" then none else a.files path
  Writing a path bs := path ≠ "" ∧ a.files path = some bs ∧
    a.handle = some ⟨path, false, true, false, bs.length⟩
  Reading a rest := ∃ path content pos, path ≠ "" ∧ a.files path = some content ∧ pos ≤ content.length ∧
    content.drop pos = rest ∧ a.handle = some ⟨path, true, false, false, pos⟩
  open_write {d d' path} h hopen := by
    have hpath : path ≠ "" := by
      rintro rfl
      simp [StorageAdapter.open_, FopenAdapter.open_, Files.fopen, h] at hopen
    simp only [StorageAdapter.open_, FopenAdapter.open_, h, FopenAdapter.streamMode, Files.fopen, hpath] at hopen
    cases hopen
    refine ⟨⟨hpath, by simp, by simp⟩, fun q hq => ?_⟩
    simp [hq]
  write {d d' path old bs} h hwrite := by
    obtain ⟨hpath, hfile, hhandle⟩ := h
    simp only [StorageAdapter.write, FopenAdapter.write, FopenAdapter.onHandle, hhandle] at hwrite
    by_cases hbs : bs = []
    · subst hbs
      rw [Files.fwrite_nil] at hwrite
      cases hwrite
      rw [List.append_nil]
      exact ⟨⟨hpath, hfile, rfl⟩, fun _ _ => rfl⟩
    · rw [Files.fwrite_of_ne rfl hbs] at hwrite
      simp only [Files.content_of_some hfile, if_true] at hwrite
      cases hwrite
      refine ⟨⟨hpath, by simp, by simp⟩, fun q hq => ?_⟩
      simp [hq]
  flush {d d' path old x} h hflush := by
    obtain ⟨hpath, hfile, hhandle⟩ := h
    simp only [StorageAdapter.flush, FopenAdapter.flush, FopenAdapter.onHandle, hhandle] at hflush
    cases hflush
    exact ⟨⟨hpath, hfile, rfl⟩, fun _ _ => rfl⟩
  close_write {d path bs} h := by
    obtain ⟨hpath, hfile, hhandle⟩ := h
    simp only [StorageAdapter.close, FopenAdapter.close, hhandle]
    refine ⟨trivial, ?_, fun _ _ => trivial⟩
    rw [if_neg hpath, hfile]
  open_read {d path bs} h hfile := by
    have hpath : path ≠ "" := by
      rintro rfl
      simp at hfile
    rw [if_neg hpath] at hfile
    refine ⟨{ d with filePath := path, handle := some ⟨path, true, false, false, 0⟩, mode := .Read }, ?_, ?_, ?_⟩
    · simp [StorageAdapter.open_, FopenAdapter.open_, FopenAdapter.streamMode, Files.fopen, h, hpath, hfile]
    · exact ⟨path, bs, 0, hpath, hfile, Nat.zero_le _, rfl, rfl⟩
    · rfl
  read {d n v rest} h := by
    obtain ⟨path, content, pos, hpath, hfile, hpos, hdrop, hhandle⟩ := h
    obtain ⟨v, rfl⟩ := v
    dsimp only at hdrop
    have hslice : slice content pos v.length = v := slice_of_drop hdrop
    have hlen : pos + v.length ≤ content.length := add_length_le_of_drop hpos hdrop
    refine ⟨{ d with handle := some ⟨path, true, false, false, pos + v.length⟩ }, ?_, ?_, rfl⟩
    · simp only [StorageAdapter.read, FopenAdapter.read, FopenAdapter.onHandle, hhandle, Files.fread,
        Files.content_of_some hfile, hslice, if_true, dif_pos]
    · exact ⟨path, content, pos + v.length, hpath, hfile, hlen, drop_of_drop hdrop, rfl⟩
  close_read {d rest} h := by
    obtain ⟨path, content, pos, hpath, hfile, hpos, hdrop, hhandle⟩ := h
    simp only [StorageAdapter.close, FopenAdapter.close, hhandle]
    exact ⟨trivial, trivial⟩

end CppDb
