import CppDb.RecordPages

/-!
# The size of a record

`valueSize`, `fieldSize` and `totalSize` (`dbfield_size_helpers.hpp`, `dbfield.hpp`, `dbrecord.hpp`) compute sizes by
their own recursion over types and values. They are the lengths of the encodings (`length_encode`), so that records
that are written one after the other stand at the sums of the sizes before them.
-/

namespace CppDb
open Embed

/-- `valueSize`, of a string or an array; it is not there for the other types. Sizes are those of values in memory, so
they do not overflow a `size_t`. -/
def valueSize : (t : ValueType) → t.Value → ℕ
  | .trivial _ _, _ => 0
  | .string, value => 4 + List.length (α := UInt8) value
  | .vector t, v =>
    if t.isTrivial then 4 + List.length (α := t.Value) v * t.sizeOf
    else 4 + (List.map (valueSize t) v).foldl (· + ·) 0

def Field.fieldSize (f : Field) (value : f.Value) : ℕ :=
  if f.sizeKnownAtCompileTime then f.staticSize else valueSize f.valueType value

namespace DbRecord
variable {S : Schema}

/-- The sizes of the fields from index `n` on, added up. -/
def sizeFrom : {S : Schema} → DbRecord S → ℕ → ℕ
  | _, .nil, _ => 0
  | _, .cons (f := f) v r, 0 => f.fieldSize v + sizeFrom r 0
  | _, .cons _ r, n + 1 => sizeFrom r n

def totalSize (r : DbRecord S) : ℕ := S.staticFieldsSize + r.sizeFrom S.staticFieldsCount

end DbRecord

/-! ### Sizes are lengths -/

theorem length_encodeString {str : Bytes} (h : str.length < 2 ^ 32) : (encodeString str).length = 4 + str.length := by
  rw [encodeString, Nat.mod_eq_of_lt h, List.take_length, List.length_append, length_leBytes]

theorem length_encodeVector {α : Type} {enc : α → Bytes} {size : α → ℕ} {v : List α} (h : v.length < 2 ^ 32)
    (hsize : ∀ x ∈ v, (enc x).length = size x) : (encodeVector enc v).length = 4 + (v.map size).sum := by
  rw [encodeVector, Nat.mod_eq_of_lt h, List.take_length, List.length_append, length_leBytes, List.length_flatten,
    List.map_map]
  exact congrArg (4 + List.sum ·) (List.map_congr_left hsize)

theorem length_encodeVector_const {α : Type} {enc : α → Bytes} {c : ℕ} {v : List α} (h : v.length < 2 ^ 32)
    (hsize : ∀ x ∈ v, (enc x).length = c) : (encodeVector enc v).length = 4 + v.length * c := by
  rw [length_encodeVector h hsize, List.map_const', List.sum_replicate_nat]

theorem length_encodeValue_trivial {t : ValueType} (ht : t.isTrivial = true) (v : t.Value) :
    (encodeValue t v).length = t.sizeOf := by
  cases t with
  | trivial name n => exact v.2
  | _ => cases ht

theorem length_encodeValue {t : ValueType} (ht : ¬ t.isTrivial = true) {v : t.Value} (hv : t.Short v) :
    (encodeValue t v).length = valueSize t v := by
  induction t with
  | trivial name n => exact absurd rfl ht
  | string => exact length_encodeString hv.1
  | vector t ih =>
    obtain ⟨hlen, hitems⟩ := hv
    rw [valueSize]
    by_cases htrivial : t.isTrivial = true
    · rw [if_pos htrivial]
      exact length_encodeVector_const hlen fun x _ => length_encodeValue_trivial htrivial x
    · rw [if_neg htrivial, ← List.sum_eq_foldl]
      exact length_encodeVector hlen fun x hx => ih htrivial (hitems x hx)

theorem Field.not_isTrivial_of_dynamic {f : Field} (h : ¬ f.sizeKnownAtCompileTime = true) :
    ¬ f.valueType.isTrivial = true := by
  intro ht
  cases harray : f.isArray
  · exact h (by rw [sizeKnownAtCompileTime, harray, ht]; rfl)
  · rw [valueType, if_pos harray] at ht
    cases ht

theorem length_encodeValue_field {f : Field} {v : f.Value} (hv : f.valueType.Short v) :
    (encodeValue f.valueType v).length = f.fieldSize v := by
  unfold Field.fieldSize
  split
  · next hf => exact length_encodeValue_trivial (Field.isTrivial_of_static hf) v
  · next hf => exact length_encodeValue (Field.not_isTrivial_of_dynamic hf) hv

namespace DbRecordSerializer
variable {S : Schema} {r : DbRecord S}

theorem length_encodeFrom (hr : r.Short) (n : ℕ) : (encodeFrom r n).length = r.sizeFrom n := by
  induction r generalizing n with
  | nil => rfl
  | cons v r ih =>
    cases n with
    | zero => rw [encodeFrom, List.length_append, length_encodeValue_field hr.1, ih hr.2, DbRecord.sizeFrom]
    | succ n => exact ih hr.2 n

theorem length_encode (hS : S.StaticFirst) (hr : r.Short) : (encode r).length = r.totalSize := by
  rw [encode, List.length_append, length_staticBlock hS, length_encodeFrom hr, DbRecord.totalSize]

end DbRecordSerializer

/-! ### Records back to back -/

/-- A device that records are written to one after the other and that is read again from any position. -/
class RecordStream (A : Type) [StorageAdapter A] where
  /-- The content, with the cursor at its end. -/
  AtEnd : A → Bytes → Prop
  /-- The content, and what of it is still to come. -/
  At : Bytes → A → Bytes → Prop
  /-- The positions that `seek` has a number for. -/
  Seekable : ℕ → Prop
  takes : Takes AtEnd
  seek_some {d : A} {content : Bytes} {p : ℕ} (h : AtEnd d content) (hp : p ≤ content.length) (hs : Seekable p) :
    ∃ d', StorageAdapter.seek p d = (some (), d') ∧ At content d' (content.drop p)
  follows (content : Bytes) : Follows (At content)
  pos_eq {d : A} {content rest : Bytes} (h : At content d rest) :
    StorageAdapter.pos d + rest.length = content.length

instance {A : Type} [StorageAdapter A] [MemoryAdapter A] : RecordStream A where
  AtEnd d content := ReadableAdapter.Ok d ∧ ReadableAdapter.bytes d = content ∧ StorageAdapter.pos d = content.length
  At content d rest := ReadableAdapter.Ok d ∧ ReadableAdapter.bytes d = content ∧
    content.drop (StorageAdapter.pos d) = rest
  Seekable _ := True
  takes := by
    rintro d d' old bs ⟨hok, rfl, hpos⟩ hwrite
    by_cases hfits : MemoryAdapter.Fits A (StorageAdapter.pos d + bs.length)
    · obtain ⟨d₁, hwrite', hok', hbytes, hpos'⟩ := MemoryAdapter.write_some hok hfits
      rw [hwrite] at hwrite'
      cases hwrite'
      refine ⟨hok', by rw [hbytes, overwrite_end hpos.symm], ?_⟩
      rw [hpos', hpos, List.length_append]
    · obtain ⟨d₁, hwrite', -⟩ := MemoryAdapter.write_none hok hfits
      rw [hwrite] at hwrite'
      cases hwrite'
  seek_some := by
    rintro d content p ⟨hok, rfl, -⟩ hp -
    obtain ⟨d', hseek, hok', hbytes, hpos⟩ := ReadableAdapter.seek_some hok hp
    exact ⟨d', hseek, hok', hbytes, by rw [hpos]⟩
  follows := Decodes.follows_ok
  pos_eq := by
    rintro d content rest ⟨hok, rfl, rfl⟩
    exact add_length_drop (ReadableAdapter.pos_le hok)

theorem pos_add_length {pos n : ℕ} {v : Raw n} {content rest : Bytes}
    (h : pos + (v.1 ++ rest).length = content.length) : pos + n + rest.length = content.length := by
  rw [List.length_append, v.2] at h
  omega

instance : RecordStream (FopenAdapter 64) where
  AtEnd := RecordDevice.AtEnd
  At content a rest := ∃ path pos, a.handle = some ⟨path, true, true, true, pos⟩ ∧ a.files.content path = content ∧
    content.drop pos = rest ∧ pos + rest.length = content.length
  Seekable p := p < 2 ^ 63
  takes := RecordDevice.takes
  seek_some := by
    rintro d content p ⟨path, hhandle, hcontent⟩ hp hs
    exact ⟨_, FopenAdapter.seek_of_toLong hhandle (toLong_of_lt hs), path, p, rfl, hcontent, rfl, add_length_drop hp⟩
  follows := by
    rintro content d n v rest ⟨path, pos, hhandle, rfl, hdrop, hlength⟩
    obtain ⟨hread, hrest⟩ := FopenAdapter.read_of_drop hhandle hdrop
    exact ⟨_, hread, path, pos + n, rfl, rfl, hrest, pos_add_length hlength⟩
  pos_eq := by
    rintro d content rest ⟨path, pos, hhandle, -, -, hlength⟩
    change (d.handle.map FILE.pos).getD 0 + rest.length = content.length
    rw [hhandle]
    exact hlength

instance : RecordStream QFileAdapter where
  AtEnd := RecordDevice.AtEnd
  At content a rest := a.openMode = some .ReadWrite ∧ a.content = content ∧ content.drop a.position = rest ∧
    a.position + rest.length = content.length
  Seekable p := p < 2 ^ 63
  takes := RecordDevice.takes
  seek_some := by
    rintro d content p ⟨hmode, hcontent, -⟩ hp hs
    refine ⟨{ d with position := p }, ?_, hmode, hcontent, rfl, add_length_drop hp⟩
    simp [StorageAdapter.seek, QFileAdapter.seek, hmode, toQint64_of_lt hs]
  follows := by
    rintro content d n v rest ⟨hmode, rfl, hdrop, hlength⟩
    obtain ⟨hread, hrest⟩ := QFileAdapter.read_of_drop hmode hdrop
    exact ⟨_, hread, hmode, rfl, hrest, pos_add_length hlength⟩
  pos_eq h := h.2.2.2

instance : RecordStream QMemoryDeviceAdapter where
  AtEnd := RecordDevice.AtEnd
  At content a rest := a.openMode = some .ReadWrite ∧ a.buffer = content ∧ content.drop a.position = rest ∧
    a.position + rest.length = content.length
  Seekable p := p < 2 ^ 63
  takes := RecordDevice.takes
  seek_some := by
    rintro d content p ⟨hmode, rfl, -⟩ hp hs
    refine ⟨{ d with position := p }, ?_, hmode, rfl, rfl, add_length_drop hp⟩
    simp [StorageAdapter.seek, QMemoryDeviceAdapter.seek, QMemoryDeviceAdapter.canWrite, hmode, toQint64_of_lt hs, hp]
  follows := by
    rintro content d n v rest ⟨hmode, rfl, hdrop, hlength⟩
    obtain ⟨hread, hrest⟩ := QMemoryDeviceAdapter.read_of_drop hmode hdrop
    exact ⟨_, hread, hmode, rfl, hrest, pos_add_length hlength⟩
  pos_eq h := h.2.2.2

section
variable {A : Type} [StorageAdapter A] [RecordStream A] {S : Schema} {d d' : A} {old content : Bytes}
  {records : List (DbRecord S)}
open DbRecordSerializer RecordStream

theorem atEnd_serialize_forM (hd : AtEnd d old) (hrun : (records.forM serialize).run d = (.ret (), d')) :
    AtEnd d' (old ++ (records.map encode).flatten) :=
  Encodes.forM records (fun r _ => encodes_serialize r) takes hd hrun

/-- What `deserialize` returns at the encoding of a record. -/
theorem deserialize_at (hS : S.StaticFirst) {pre suf : Bytes} {r : DbRecord S} (hr : r.Short)
    (hd : AtEnd d content) (hcontent : content = pre ++ (encode r ++ suf)) (hs : Seekable A pre.length) :
    ∃ d₁ d₂, (StorageIo.seek pre.length).run d = (.ret (), d₁) ∧ (deserialize S).run d₁ = (.ret r, d₂) ∧
      StorageAdapter.pos d₂ = pre.length + r.totalSize := by
  have hle : pre.length ≤ content.length := by
    rw [hcontent, List.length_append]
    exact Nat.le_add_right ..
  obtain ⟨d₁, hseek, hat⟩ := seek_some hd hle hs
  rw [hcontent, List.drop_left, ← hcontent] at hat
  obtain ⟨d₂, hrun, hat₂⟩ := decodes_deserialize hS hr (follows content) hat
  refine ⟨d₁, d₂, Proc.run_ofCall_some hseek, hrun, ?_⟩
  have hpos := pos_eq hat₂
  rw [hcontent, List.length_append, List.length_append, length_encode hS hr] at hpos
  omega

end

/-- Where the record at index `i` starts. -/
def recordOffset {S : Schema} (records : List (DbRecord S)) (i : ℕ) : ℕ := ((records.take i).map DbRecord.totalSize).sum

theorem recordOffset_succ {S : Schema} {records : List (DbRecord S)} {i : ℕ} (hi : i < records.length) :
    recordOffset records (i + 1) = recordOffset records i + records[i].totalSize := by
  rw [recordOffset, recordOffset, List.take_succ_eq_append_getElem hi, List.map_append, List.sum_append,
    List.map_singleton, List.sum_singleton]

theorem length_flatten_encode {S : Schema} (hS : S.StaticFirst) {records : List (DbRecord S)}
    (hshort : ∀ r ∈ records, r.Short) :
    (records.map DbRecordSerializer.encode).flatten.length = (records.map DbRecord.totalSize).sum := by
  rw [List.length_flatten, List.map_map]
  exact congrArg List.sum (List.map_congr_left fun r hr => DbRecordSerializer.length_encode hS (hshort r hr))

theorem flatten_encode_split {S : Schema} {records : List (DbRecord S)} {i : ℕ} (hi : i < records.length) :
    (records.map DbRecordSerializer.encode).flatten =
      ((records.take i).map DbRecordSerializer.encode).flatten ++
        (DbRecordSerializer.encode records[i] ++ ((records.drop (i + 1)).map DbRecordSerializer.encode).flatten) := by
  conv_lhs => rw [← List.take_append_drop i records, List.drop_eq_getElem_cons hi]
  rw [List.map_append, List.map_cons, List.flatten_append, List.flatten_cons]

/-- **Sizes agree with encodings.** `serialize` adds exactly `totalSize()` bytes for each record, and each record of
a sequence is found again at the sum of the sizes before it, with the next one right behind it. -/
theorem deserialize_at_totalSizes {A : Type} [StorageAdapter A] [RecordStream A] {S : Schema}
    (hS : S.checkAssertions = true) {records : List (DbRecord S)} (hshort : ∀ r ∈ records, r.Short) :
    (∀ r ∈ records, ∀ (d d' : A) (old : Bytes), RecordStream.AtEnd d old →
      (DbRecordSerializer.serialize r).run d = (.ret (), d') →
      ∃ added, RecordStream.AtEnd d' (old ++ added) ∧ added.length = r.totalSize) ∧
    ∀ (d d' : A), RecordStream.AtEnd d [] → (records.forM DbRecordSerializer.serialize).run d = (.ret (), d') →
      ∀ i (hi : i < records.length), RecordStream.Seekable A (recordOffset records i) →
        ∃ d₁ d₂, (StorageIo.seek (recordOffset records i)).run d' = (.ret (), d₁) ∧
          (DbRecordSerializer.deserialize S).run d₁ = (.ret records[i], d₂) ∧
          StorageAdapter.pos d₂ = recordOffset records (i + 1) := by
  have hfirst := Schema.staticFirst_of_checkAssertions hS
  constructor
  · intro r hr d d' old hd hrun
    refine ⟨DbRecordSerializer.encode r, ?_, DbRecordSerializer.length_encode hfirst (hshort r hr)⟩
    exact DbRecordSerializer.encodes_serialize r RecordStream.takes hd hrun
  · intro d d' hd hrun i hi hseekable
    have hat := atEnd_serialize_forM hd hrun
    have hoffset : ((records.take i).map DbRecordSerializer.encode).flatten.length = recordOffset records i :=
      length_flatten_encode hfirst fun r hr => hshort r (List.mem_of_mem_take hr)
    rw [← hoffset] at hseekable
    obtain ⟨d₁, d₂, hseek, hread, hpos⟩ := deserialize_at hfirst (hshort _ (List.getElem_mem hi)) hat
      (by rw [List.nil_append]; exact flatten_encode_split hi) hseekable
    rw [hoffset] at hseek hpos
    exact ⟨d₁, d₂, hseek, hread, by rw [hpos, recordOffset_succ hi]⟩

/-- Two records of a number and a list of strings. -/
def notes : List (DbRecord
    [{ type := .trivial "uint8_t" 1, id := 1 }, { type := .string, id := 2, isArray := true }]) :=
  [.cons ⟨[7], rfl⟩ (.cons ([[97], [98, 99]] : List Bytes) .nil), .cons ⟨[8], rfl⟩ (.cons ([] : List Bytes) .nil)]

theorem deserialize_at_totalSizes_notes : ∃ (d d₁ d₂ : VectorAdapter),
    (notes.forM DbRecordSerializer.serialize).run ({} : VectorAdapter) = (.ret (), d) ∧
    (StorageIo.seek 16).run d = (.ret (), d₁) ∧
    (DbRecordSerializer.deserialize _).run d₁ = (.ret (notes[1]), d₂) ∧ StorageAdapter.pos d₂ = 21 := by
  have hshort : ∀ r ∈ notes, r.Short := by
    intro r hr
    simp only [notes, List.mem_cons, List.not_mem_nil, or_false] at hr
    rcases hr with rfl | rfl
    · refine ⟨trivial, ⟨by decide, fun x hx => ⟨?_, fun _ _ => trivial⟩⟩, trivial⟩
      have short : ∀ str ∈ ([[97], [98, 99]] : List Bytes), str.length < 2 ^ 32 := by simp
      exact short x hx
    · exact ⟨trivial, ⟨by decide, fun x hx => absurd hx List.not_mem_nil⟩, trivial⟩
  obtain ⟨d, hrun, -⟩ := (Writes.forM notes fun r _ => DbRecordSerializer.writes_serialize r).ret
    (d := ({} : VectorAdapter)) trivial trivial
  obtain ⟨d₁, d₂, hseek, hread, hpos⟩ :=
    (deserialize_at_totalSizes (A := VectorAdapter) (by decide) hshort).2 {} d ⟨trivial, rfl, rfl⟩ hrun 1 (by decide)
      trivial
  exact ⟨d, d₁, d₂, hrun, hseek, hread, hpos⟩

end CppDb
