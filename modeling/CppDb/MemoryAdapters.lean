import CppDb.Adapter

/-!
# The in-memory adapters (`storage/storage_static_buffer.hpp`)

`StaticBufferAdapter` wraps `static_data_buffer<MaxSize>`, a class of another library. It is a
parameter here: `StaticDataBuffer` lists its members and what the adapter relies on. Its storage has
`MaxSize` bytes; `size` says how many of them count as content. `VectorAdapter` is translated whole.
Both are `MemoryAdapter`s.
-/

namespace CppDb
open Embed

/-- `static_data_buffer<MaxSize>`, for every `MaxSize`. Bytes above the size are unspecified, so
`reserve` promises nothing about the ones it uncovers. -/
class StaticDataBuffer (B : ℕ → Type) where
  empty {N : ℕ} : B N
  reserve {N : ℕ} : (nBytes : ℕ) → Call (B N) Unit
  read {N : ℕ} : (dataSize : ℕ) → Call (B N) (Raw dataSize)
  write {N : ℕ} : Bytes → Call (B N) Unit
  seek {N : ℕ} : ℕ → B N → B N
  pos {N : ℕ} : B N → ℕ
  size {N : ℕ} : B N → ℕ
  data {N : ℕ} : B N → Raw N
  /-- Bytes stored through the pointer `data() + offset`. -/
  store {N : ℕ} : (offset : ℕ) → Bytes → B N → B N
  size_empty {N : ℕ} : size (empty : B N) = 0
  pos_empty {N : ℕ} : pos (empty : B N) = 0
  reserve_some {N n : ℕ} (b : B N) (h : n ≤ N) : ∃ b', reserve n b = (some (), b') ∧
    size b' = n ∧ pos b' = pos b ∧ (data b').1.take (min (size b) n) = (data b).1.take (min (size b) n)
  read_some {N n : ℕ} (b : B N) (h : pos b + n ≤ size b) (hN : size b ≤ N) : ∃ b' v,
    read n b = (some v, b') ∧ v.1 = slice (data b).1 (pos b) n ∧
      size b' = size b ∧ pos b' = pos b + n ∧ data b' = data b
  read_none {N n : ℕ} (b : B N) (h : size b < pos b + n) : ∃ b', read n b = (none, b') ∧
    size b' = size b ∧ pos b' = pos b ∧ data b' = data b
  write_some {N : ℕ} (b : B N) {bs : Bytes} (h : pos b + bs.length ≤ N) : ∃ b',
    write bs b = (some (), b') ∧ size b' = max (size b) (pos b + bs.length) ∧
      pos b' = pos b + bs.length ∧ (data b').1 = overwrite (data b).1 (pos b) bs
  write_none {N : ℕ} (b : B N) {bs : Bytes} (h : N < pos b + bs.length) : ∃ b',
    write bs b = (none, b') ∧ size b' = size b ∧ pos b' = pos b ∧ data b' = data b
  size_seek {N p : ℕ} (b : B N) (h : p ≤ size b) : size (seek p b) = size b
  pos_seek {N p : ℕ} (b : B N) (h : p ≤ size b) : pos (seek p b) = p
  data_seek {N p : ℕ} (b : B N) (h : p ≤ size b) : data (seek p b) = data b
  size_store {N p : ℕ} {bs : Bytes} (b : B N) (h : p + bs.length ≤ N) : size (store p bs b) = size b
  pos_store {N p : ℕ} {bs : Bytes} (b : B N) (h : p + bs.length ≤ N) : pos (store p bs b) = pos b
  data_store {N p : ℕ} {bs : Bytes} (b : B N) (h : p + bs.length ≤ N) :
    (data (store p bs b)).1 = overwrite (data b).1 p bs

/-- The plainest buffer there is. -/
structure ListBuffer (N : ℕ) where
  data : Raw N := ⟨List.replicate N 0, List.length_replicate ..⟩
  size : ℕ := 0
  pos : ℕ := 0

namespace ListBuffer
variable {N : ℕ}

def reserve (nBytes : ℕ) : Call (ListBuffer N) Unit := fun b =>
  if nBytes ≤ N then (some (), { b with size := nBytes }) else (none, b)

def read (dataSize : ℕ) : Call (ListBuffer N) (Raw dataSize) := fun b =>
  if h : b.pos + dataSize ≤ b.data.1.length ∧ b.pos + dataSize ≤ b.size then
    (some ⟨slice b.data.1 b.pos dataSize, length_slice h.1⟩, { b with pos := b.pos + dataSize })
  else (none, b)

def store (offset : ℕ) (bs : Bytes) (b : ListBuffer N) : ListBuffer N :=
  if h : offset + bs.length ≤ b.data.1.length then
    { b with data := ⟨overwrite b.data.1 offset bs, (length_overwrite_of_le h).trans b.data.2⟩ }
  else b

def write (bs : Bytes) : Call (ListBuffer N) Unit := fun b =>
  if b.pos + bs.length ≤ N then
    (some (), { b.store b.pos bs with size := max b.size (b.pos + bs.length), pos := b.pos + bs.length })
  else (none, b)

theorem store_data {b : ListBuffer N} {p : ℕ} {bs : Bytes} (h : p + bs.length ≤ N) :
    (b.store p bs).data.1 = overwrite b.data.1 p bs ∧ (b.store p bs).size = b.size ∧
      (b.store p bs).pos = b.pos := by
  rw [store, dif_pos (by rw [b.data.2]; exact h)]
  exact ⟨rfl, rfl, rfl⟩

instance : StaticDataBuffer ListBuffer where
  empty := {}
  reserve := reserve
  read := read
  write := write
  seek p b := { b with pos := p }
  pos := pos
  size := size
  data := data
  store := store
  size_empty := rfl
  pos_empty := rfl
  reserve_some b h := ⟨{ b with size := _ }, if_pos h, rfl, rfl, rfl⟩
  read_some {N n} b h hN := by
    have hfit : b.pos + n ≤ b.data.1.length ∧ b.pos + n ≤ b.size :=
      ⟨by rw [b.data.2]; exact Nat.le_trans h hN, h⟩
    exact ⟨_, _, dif_pos hfit, rfl, rfl, rfl, rfl⟩
  read_none b h := ⟨b, dif_neg fun hfit => Nat.not_le.2 h hfit.2, rfl, rfl, rfl⟩
  write_some b _ h := ⟨_, if_pos h, rfl, rfl, (store_data h).1⟩
  write_none b _ h := ⟨b, if_neg (Nat.not_le.2 h), rfl, rfl, rfl⟩
  size_seek _ _ := rfl
  pos_seek _ _ := rfl
  data_seek _ _ := rfl
  size_store _ h := (store_data h).2.1
  pos_store _ h := (store_data h).2.2
  data_store _ h := (store_data h).1

end ListBuffer

/-! ### `StaticBufferAdapter` -/

/-- `io::StaticBufferAdapter<MaxSize>`. -/
structure StaticBufferAdapter (B : ℕ → Type) (MaxSize : ℕ) where
  buffer : B MaxSize
  isOpen : Bool := false

namespace StaticBufferAdapter
variable {B : ℕ → Type} [StaticDataBuffer B] {N : ℕ}

/-- Let the buffer do it. -/
def onBuffer {α : Type} (c : Call (B N) α) : Call (StaticBufferAdapter B N) α := fun a =>
  ((c a.buffer).1, { a with buffer := (c a.buffer).2 })

def new : StaticBufferAdapter B N := { buffer := StaticDataBuffer.empty }

def open_ (_ : String) (_ : OpenMode) : Call (StaticBufferAdapter B N) Unit := fun a =>
  if a.isOpen then (none, a) else (some (), { a with isOpen := true })

def close : Call (StaticBufferAdapter B N) Unit := fun a =>
  if a.isOpen then (some (), { buffer := StaticDataBuffer.seek 0 a.buffer, isOpen := false })
  else (some (), a)

def reserve (nBytes : ℕ) : Call (StaticBufferAdapter B N) Unit :=
  onBuffer (StaticDataBuffer.reserve nBytes)

def read (dataSize : ℕ) : Call (StaticBufferAdapter B N) (Raw dataSize) :=
  onBuffer (StaticDataBuffer.read dataSize)

def write (bs : Bytes) : Call (StaticBufferAdapter B N) Unit := onBuffer (StaticDataBuffer.write bs)

def seek (position : ℕ) : Call (StaticBufferAdapter B N) Unit := fun a =>
  (some (), { a with buffer := StaticDataBuffer.seek position a.buffer })

def size (a : StaticBufferAdapter B N) : ℕ := StaticDataBuffer.size a.buffer

def pos (a : StaticBufferAdapter B N) : ℕ := StaticDataBuffer.pos a.buffer

def seekToEnd : Call (StaticBufferAdapter B N) Unit := fun a => seek a.size a

def atEnd (a : StaticBufferAdapter B N) : Bool := a.pos == a.size

def flush : Call (StaticBufferAdapter B N) Unit := fun a => (some (), a)

def clear : Call (StaticBufferAdapter B N) Unit := fun a =>
  (some (), { a with buffer := StaticDataBuffer.seek 0 (StaticDataBuffer.reserve 0 a.buffer).2 })

/-- The bytes behind `data()`. -/
def data (a : StaticBufferAdapter B N) : Bytes := (StaticDataBuffer.data a.buffer).1

/-- `memset`, `memcpy` or a device read to `data() + offset`. -/
def store (offset : ℕ) (bs : Bytes) (a : StaticBufferAdapter B N) : StaticBufferAdapter B N :=
  { a with buffer := StaticDataBuffer.store offset bs a.buffer }

/-- `MaxSize - _buffer.pos()`. -/
def remainingCapacity (a : StaticBufferAdapter B N) : ℕ := N - a.pos

instance : StorageAdapter (StaticBufferAdapter B N) where
  open_ := open_
  close := close
  read := read
  write := write
  seek := seek
  seekToEnd := seekToEnd
  flush := flush
  pos := pos
  size := size
  atEnd := atEnd

instance : ClearableAdapter (StaticBufferAdapter B N) where
  clear := clear

@[simp] theorem length_data (a : StaticBufferAdapter B N) : a.data.length = N :=
  (StaticDataBuffer.data a.buffer).2

/-- The part of the storage that counts as content. -/
def bytes (a : StaticBufferAdapter B N) : Bytes := a.data.take a.size

theorem length_bytes {a : StaticBufferAdapter B N} (h : a.size ≤ N) : a.bytes.length = a.size := by
  simp [bytes, h]

theorem slice_bytes {a : StaticBufferAdapter B N} {n : ℕ} (hn : a.pos + n ≤ a.size) :
    slice a.bytes a.pos n = slice a.data a.pos n := by
  have hle : n ≤ a.size - a.pos := Nat.le_sub_of_add_le' hn
  rw [slice, slice, bytes, List.drop_take, List.take_take, Nat.min_eq_left hle]

instance : MemoryAdapter (StaticBufferAdapter B N) where
  Ok a := a.pos ≤ a.size ∧ a.size ≤ N
  bytes := bytes
  pos_le h := by rw [length_bytes h.2]; exact h.1
  size_eq h := (length_bytes h.2).symm
  atEnd_eq {d} h := by rw [length_bytes h.2]; rfl
  read_some {d} h n hn := by
    rw [length_bytes h.2] at hn
    obtain ⟨b', v, hr, hv, hs, hp, hd⟩ := StaticDataBuffer.read_some d.buffer hn h.2
    refine ⟨{ d with buffer := b' }, ?_, ⟨?_, ?_⟩, ?_, hp⟩
    · have hv' : v.1 = slice d.bytes d.pos n := by
        rw [slice_bytes hn]
        exact hv
      have hv : v = ⟨slice d.bytes d.pos n, hv' ▸ v.2⟩ := Subtype.ext hv'
      simp only [StorageAdapter.read, read, onBuffer, hr]
      rw [hv]
      rfl
    · simp only [pos, size, hp, hs]; exact hn
    · simp only [size, hs]; exact h.2
    · simp only [bytes, data, size, hd, hs]
  seek_some {d} h p hp := by
    rw [length_bytes h.2] at hp
    refine ⟨{ d with buffer := StaticDataBuffer.seek p d.buffer }, rfl, ⟨?_, ?_⟩, ?_, ?_⟩
    · simpa only [pos, size, StaticDataBuffer.pos_seek _ hp, StaticDataBuffer.size_seek _ hp] using hp
    · simpa only [size, StaticDataBuffer.size_seek _ hp] using h.2
    · simp only [bytes, data, size, StaticDataBuffer.size_seek _ hp, StaticDataBuffer.data_seek _ hp]
    · exact StaticDataBuffer.pos_seek _ hp
  Fits n := n ≤ N
  fits_mono h hn := Nat.le_trans h hn
  fits_pos h := Nat.le_trans h.1 h.2
  write_some {d} h bs hf := by
    obtain ⟨b', hw, hs, hp, hd⟩ := StaticDataBuffer.write_some d.buffer hf
    have hf : d.pos + bs.length ≤ N := hf
    refine ⟨{ d with buffer := b' }, by simp only [StorageAdapter.write, write, onBuffer, hw],
      ⟨?_, ?_⟩, ?_, hp⟩
    · simp only [pos, size, hp, hs]; exact Nat.le_max_right ..
    · simp only [size, hs]; exact Nat.max_le.2 ⟨h.2, hf⟩
    · simp only [bytes, data, size, hs, hd]
      exact take_overwrite_max h.1 (by rw [(StaticDataBuffer.data d.buffer).2]; exact h.2)
  write_none {d} h bs hf := by
    obtain ⟨b', hw, hs, hp, hd⟩ := StaticDataBuffer.write_none d.buffer (Nat.lt_of_not_le hf)
    refine ⟨{ d with buffer := b' }, by simp only [StorageAdapter.write, write, onBuffer, hw],
      ⟨?_, ?_⟩, ?_, hp⟩
    · simpa only [pos, size, hp, hs] using h.1
    · simpa only [size, hs] using h.2
    · simp only [bytes, data, size, hs, hd]
  read_none {d} h n hn := by
    rw [length_bytes h.2] at hn
    obtain ⟨b', hr, hs, hp, hd⟩ := StaticDataBuffer.read_none d.buffer hn
    refine ⟨{ d with buffer := b' }, by simp only [StorageAdapter.read, read, onBuffer, hr],
      ⟨?_, ?_⟩, ?_, hp⟩
    · simpa only [pos, size, hp, hs] using h.1
    · simpa only [size, hs] using h.2
    · simp only [bytes, data, size, hs, hd]

/-! The calls in terms of size, position and data. -/

/-- What a buffer looks like from outside. -/
structure Shows (a : StaticBufferAdapter B N) (size pos : ℕ) (data : Bytes) : Prop where
  size : a.size = size
  pos : a.pos = pos
  data : a.data = data

section Shows
variable {a : StaticBufferAdapter B N} {sz p q n : ℕ} {d bs : Bytes}

theorem Shows.length (h : Shows a sz p d) : d.length = N := by rw [← h.data, length_data]

theorem Shows.seek (h : Shows a sz p d) (hq : q ≤ sz) : Shows (seek q a).2 sz q d := by
  have hq' : q ≤ StaticDataBuffer.size a.buffer := by rw [← h.size] at hq; exact hq
  exact ⟨(StaticDataBuffer.size_seek _ hq').trans h.size, StaticDataBuffer.pos_seek _ hq',
    (congrArg Subtype.val (StaticDataBuffer.data_seek _ hq')).trans h.data⟩

theorem Shows.seekToEnd (h : Shows a sz p d) : Shows (seekToEnd a).2 sz sz d := by
  have hend := h.seek (q := a.size) (Nat.le_of_eq h.size)
  rw [h.size] at hend
  rwa [StaticBufferAdapter.seekToEnd, h.size]

theorem Shows.write (h : Shows a sz p d) (hfit : p + bs.length ≤ N) :
    ∃ a', (StorageIo.write bs).run a = (.ret (), a') ∧
      Shows a' (max sz (p + bs.length)) (p + bs.length) (overwrite d p bs) := by
  have hp : StaticDataBuffer.pos a.buffer = p := h.pos
  obtain ⟨b', hw, hs', hp', hd'⟩ := StaticDataBuffer.write_some a.buffer
    (show StaticDataBuffer.pos a.buffer + bs.length ≤ N by rwa [hp])
  have hcall : StorageAdapter.write bs a = (some (), { a with buffer := b' }) := by
    simp only [StorageAdapter.write, StaticBufferAdapter.write, onBuffer, hw]
  rw [← h.size, ← h.data, ← hp]
  exact ⟨_, Proc.run_ofCall_some hcall, ⟨hs', hp', hd'⟩⟩

theorem Shows.write_fail (h : Shows a sz p d) (hfit : N < p + bs.length) :
    ∃ a', (StorageIo.write bs).run a = (.fail, a') ∧ Shows a' sz p d := by
  have hp : StaticDataBuffer.pos a.buffer = p := h.pos
  obtain ⟨b', hw, hs', hp', hd'⟩ := StaticDataBuffer.write_none a.buffer
    (show N < StaticDataBuffer.pos a.buffer + bs.length by rwa [hp])
  have hcall : StorageAdapter.write bs a = (none, { a with buffer := b' }) := by
    simp only [StorageAdapter.write, StaticBufferAdapter.write, onBuffer, hw]
  exact ⟨_, Proc.run_ofCall_none hcall, ⟨hs'.trans h.size, hp'.trans h.pos,
    (congrArg Subtype.val hd').trans h.data⟩⟩

theorem Shows.reserve (h : Shows a sz p d) (hn : n ≤ N) :
    ∃ d', Shows (reserve n a).2 n p d' ∧ d'.take (min sz n) = d.take (min sz n) := by
  obtain ⟨b', hr, hs', hp', hd'⟩ := StaticDataBuffer.reserve_some a.buffer hn
  have ha : (StaticBufferAdapter.reserve n a).2 = { a with buffer := b' } := by
    simp only [StaticBufferAdapter.reserve, onBuffer, hr]
  rw [← h.size, ← h.data, ha]
  exact ⟨_, ⟨hs', hp'.trans h.pos, rfl⟩, hd'⟩

theorem Shows.store (h : Shows a sz p d) (hfit : q + bs.length ≤ N) :
    Shows (a.store q bs) sz p (overwrite d q bs) := by
  rw [← h.data]
  exact ⟨(StaticDataBuffer.size_store _ hfit).trans h.size, (StaticDataBuffer.pos_store _ hfit).trans h.pos,
    StaticDataBuffer.data_store _ hfit⟩

/-- A procedure that stores `bs`, run at the end of the content. -/
theorem Shows.writes {w : Proc (StaticBufferAdapter B N) Unit} (hw : Writes w bs) (h : Shows a n n d)
    (hfit : n + bs.length ≤ N) :
    ∃ a' d', w.run a = (.ret (), a') ∧ Shows a' (n + bs.length) (n + bs.length) d' ∧
      d'.take (n + bs.length) = d.take n ++ bs := by
  have hok : ReadableAdapter.Ok a := ⟨by rw [h.pos, h.size], by rw [h.size]; omega⟩
  have hbytes : ReadableAdapter.bytes a = d.take n := by
    rw [← h.data, ← h.size]; rfl
  have hpos : StorageAdapter.pos a = n := h.pos
  obtain ⟨a', hrun, hok', hb, hp⟩ := hw.ret hok (by rw [hpos]; exact hfit)
  have hlen : (d.take n).length = n := by rw [List.length_take, h.length]; omega
  rw [hbytes, hpos, overwrite_end hlen] at hb
  have hsize : a'.size = n + bs.length := by
    have := ReadableAdapter.size_eq hok'
    rw [hb, List.length_append, hlen] at this
    exact this
  refine ⟨a', a'.data, hrun, ⟨hsize, by rw [← hpos]; exact hp, rfl⟩, ?_⟩
  rw [← hb, ← hsize]
  rfl

theorem Shows.writes_fail {w : Proc (StaticBufferAdapter B N) Unit} (hw : Writes w bs) (h : Shows a n n d)
    (hn : n ≤ N) (hfit : N < n + bs.length) : ∃ a', w.run a = (.fail, a') := by
  have hok : ReadableAdapter.Ok a := ⟨by rw [h.pos, h.size], by rw [h.size]; exact hn⟩
  have hpos : StorageAdapter.pos a = n := h.pos
  obtain ⟨a', hrun, -⟩ := hw.fail hok (by rw [hpos]; exact Nat.not_le.2 hfit)
  exact ⟨a', hrun⟩

theorem shows_new : ∃ d, Shows (.new : StaticBufferAdapter B N) 0 0 d :=
  ⟨_, StaticDataBuffer.size_empty, StaticDataBuffer.pos_empty, rfl⟩

end Shows

end StaticBufferAdapter

/-! ### `VectorAdapter` -/

/-- `io::VectorAdapter`; no member function leaves the position outside the data. -/
structure VectorAdapter where
  data : Bytes := []
  pos : ℕ := 0
  isOpen : Bool := false
  pos_le : pos ≤ data.length := by simp

namespace VectorAdapter

def open_ (_ : String) (_ : OpenMode) : Call VectorAdapter Unit := fun a =>
  if a.isOpen then (none, a) else (some (), { a with isOpen := true })

def close : Call VectorAdapter Unit := fun a =>
  if a.isOpen then (some (), { a with pos := 0, isOpen := false, pos_le := Nat.zero_le _ })
  else (some (), a)

def size (a : VectorAdapter) : ℕ := a.data.length

def read (dataSize : ℕ) : Call VectorAdapter (Raw dataSize) := fun a =>
  if h : a.pos + dataSize ≤ a.data.length then
    (some ⟨slice a.data a.pos dataSize, length_slice h⟩, { a with pos := a.pos + dataSize, pos_le := h })
  else (none, a)

/-- The data after `resize(_pos + dataSize)`, when that is longer. -/
def resized (a : VectorAdapter) (dataSize : ℕ) : Bytes :=
  if a.pos + dataSize > a.size then a.data ++ List.replicate (a.pos + dataSize - a.size) 0 else a.data

theorem overwrite_resized (a : VectorAdapter) (bs : Bytes) :
    overwrite (a.resized bs.length) a.pos bs = overwrite a.data a.pos bs := by
  have hp := a.pos_le
  unfold resized
  split
  · next h =>
    change a.data.length < a.pos + bs.length at h
    rw [overwrite, overwrite, List.take_append_of_le_length hp, List.drop_eq_nil_of_le (by simp [size]; omega),
      List.drop_eq_nil_of_le (by omega)]
  · rfl

def write (bs : Bytes) : Call VectorAdapter Unit := fun a =>
  (some (), { a with
    data := overwrite (a.resized bs.length) a.pos bs
    pos := a.pos + bs.length
    pos_le := by rw [overwrite_resized, length_overwrite a.pos_le]; exact Nat.le_max_right .. })

def seek (position : ℕ) : Call VectorAdapter Unit := fun a =>
  if h : position ≤ a.data.length then (some (), { a with pos := position, pos_le := h })
  else (none, a)

def seekToEnd : Call VectorAdapter Unit := fun a => seek a.size a

def atEnd (a : VectorAdapter) : Bool := a.pos == a.size

def flush : Call VectorAdapter Unit := fun a => (some (), a)

instance : StorageAdapter VectorAdapter where
  open_ := open_
  close := close
  read := read
  write := write
  seek := seek
  seekToEnd := seekToEnd
  flush := flush
  pos := pos
  size := size
  atEnd := atEnd

instance : MemoryAdapter VectorAdapter where
  Ok _ := True
  bytes := data
  pos_le {d} _ := d.pos_le
  size_eq _ := rfl
  atEnd_eq _ := rfl
  read_some {_} _ _ hn := ⟨_, dif_pos hn, trivial, rfl, rfl⟩
  seek_some {_} _ _ hp := ⟨_, dif_pos hp, trivial, rfl, rfl⟩
  Fits _ := True
  fits_mono _ _ := trivial
  fits_pos _ := trivial
  write_some {d} _ bs _ := ⟨_, rfl, trivial, overwrite_resized d bs, rfl⟩
  write_none _ _ hf := absurd trivial hf
  read_none {_} _ _ hn := ⟨_, dif_neg (Nat.not_le.2 hn), trivial, rfl, rfl⟩

end VectorAdapter

end CppDb
