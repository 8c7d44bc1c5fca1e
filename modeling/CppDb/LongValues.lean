import CppDb.RecordSize

/-!
# Strings and arrays of 2^32 items and more

A length is stored as a `uint32_t`, and as many items follow as the stored length says. `stored` is what is left of
a value: writing it is writing the value, and reading it back gives it (`readValue_written`), so that a value comes
back exactly when its strings and arrays are short (`written_iff_short`).
-/

namespace CppDb
open Embed

section
variable {α : Type} {l : List α} {P : α → Prop} {f : α → α}

/-- What the encoder keeps of a string or an array. -/
def kept (l : List α) : List α := l.take (l.length % 2 ^ 32)

theorem length_kept : (kept l).length = l.length % 2 ^ 32 := by
  rw [kept, List.length_take, Nat.min_eq_left (Nat.mod_le ..)]

theorem length_kept_lt : (kept l).length < 2 ^ 32 := by
  rw [length_kept]
  exact Nat.mod_lt _ (by decide)

theorem kept_of_lt (h : l.length < 2 ^ 32) : kept l = l := by
  rw [kept, Nat.mod_eq_of_lt h, List.take_length]

theorem shortList_map_kept (h : ∀ x, P (f x)) : ValueType.ShortList P ((kept l).map f) := by
  constructor
  · rw [List.length_map]
    exact length_kept_lt
  · intro y hy
    obtain ⟨x, -, rfl⟩ := List.mem_map.1 hy
    exact h x

theorem map_kept_of_short (h : ValueType.ShortList P l) (hf : ∀ x, P x → f x = x) : (kept l).map f = l := by
  rw [kept_of_lt h.1]
  exact (List.map_congr_left fun x hx => hf x (h.2 x hx)).trans (List.map_id l)

theorem leBytes_length_kept : leBytes 4 (kept l).length = leBytes 4 l.length := by
  rw [length_kept]
  exact leBytes_mod 4 l.length

theorem encodeString_kept (str : Bytes) : encodeString (kept str) = encodeString str := by
  rw [encodeString, leBytes_length_kept, Nat.mod_eq_of_lt length_kept_lt, List.take_length, encodeString, kept]

theorem encodeVector_map_kept {enc : α → Bytes} (hf : ∀ x, enc (f x) = enc x) :
    encodeVector enc ((kept l).map f) = encodeVector enc l := by
  have hall : ((kept l).map f).take (kept l).length = (kept l).map f :=
    List.take_of_length_le (Nat.le_of_eq (List.length_map f))
  have hitems : ((kept l).map f).map enc = (kept l).map enc := by
    rw [List.map_map]
    exact List.map_congr_left fun x _ => hf x
  rw [encodeVector, List.length_map, leBytes_length_kept, Nat.mod_eq_of_lt length_kept_lt, hall, hitems,
    encodeVector, kept]

end

namespace ValueType

/-- What the encoder stores of a value. -/
def stored : (t : ValueType) → t.Value → t.Value
  | trivial _ _, v => v
  | string, str => kept (α := UInt8) str
  | vector t, v => (kept v).map t.stored

theorem short_stored (t : ValueType) (v : t.Value) : t.Short (t.stored v) := by
  induction t with
  | trivial name n => exact True.intro
  | string => exact ⟨length_kept_lt, fun _ _ => True.intro⟩
  | vector t ih => exact shortList_map_kept ih

theorem stored_of_short (t : ValueType) (v : t.Value) (h : t.Short v) : t.stored v = v := by
  induction t with
  | trivial name n => rfl
  | string => exact kept_of_lt h.1
  | vector t ih => exact map_kept_of_short h ih

theorem stored_eq_iff {t : ValueType} {v : t.Value} : t.stored v = v ↔ t.Short v :=
  ⟨fun h => h ▸ short_stored t v, stored_of_short t v⟩

theorem encodeValue_stored (t : ValueType) (v : t.Value) : encodeValue t (t.stored v) = encodeValue t v := by
  induction t with
  | trivial name n => rfl
  | string => exact encodeString_kept v
  | vector t ih => exact encodeVector_map_kept ih

theorem toRaw_stored (t : ValueType) (v : t.Value) : t.toRaw (t.stored v) = t.toRaw v := by
  cases t <;> rfl

end ValueType

namespace DbRecord
variable {S : Schema}

/-- What `serialize` stores of a record. -/
def stored : {S : Schema} → DbRecord S → DbRecord S
  | _, nil => nil
  | _, cons (f := f) v r => cons (f.valueType.stored v) r.stored

theorem short_stored (r : DbRecord S) : r.stored.Short := by
  induction r with
  | nil => trivial
  | cons v r ih => exact ⟨ValueType.short_stored _ v, ih⟩

theorem stored_of_short {r : DbRecord S} (h : r.Short) : r.stored = r := by
  induction r with
  | nil => rfl
  | cons v r ih => rw [stored, ValueType.stored_of_short _ v h.1, ih h.2]

theorem stored_eq_iff {r : DbRecord S} : r.stored = r ↔ r.Short :=
  ⟨fun h => h ▸ short_stored r, stored_of_short⟩

open DbRecordSerializer

theorem staticBlock_stored (r : DbRecord S) (n : ℕ) : staticBlock r.stored n = staticBlock r n := by
  induction r generalizing n with
  | nil => rfl
  | cons v r ih =>
    cases n with
    | zero => rfl
    | succ n => rw [stored, staticBlock, staticBlock, ValueType.toRaw_stored, ih]

theorem encodeFrom_stored (r : DbRecord S) (n : ℕ) : encodeFrom r.stored n = encodeFrom r n := by
  induction r generalizing n with
  | nil => rfl
  | cons v r ih =>
    cases n with
    | zero => rw [stored, encodeFrom, encodeFrom, ValueType.encodeValue_stored, ih]
    | succ n => exact ih n

theorem encode_stored (r : DbRecord S) : encode r.stored = encode r := by
  rw [encode, encode, staticBlock_stored, encodeFrom_stored]

end DbRecord

/-! ### Reading back what was written -/

/-- A device that stores all bytes it accepts, at its position, and that is read again from there. -/
class StoringDevice (A : Type) [StorageAdapter A] where
  /-- `bs` was stored from `position` on, and the cursor is behind it. -/
  Wrote : A → ℕ → Bytes → Prop
  /-- The bytes still to come. -/
  At : A → Bytes → Prop
  takes (position : ℕ) : Takes fun d bs => Wrote d position bs
  seek_back {d : A} {position : ℕ} {bs : Bytes} (h : Wrote d position bs) :
    ∃ d' rest, StorageAdapter.seek position d = (some (), d') ∧ At d' (bs ++ rest)
  follows : Follows At

theorem drop_overwrite_behind {l old rest bs : Bytes} {p : ℕ} (h : l.drop p = old ++ rest)
    (hle : p + old.length ≤ l.length) :
    (overwrite l (p + old.length) bs).drop p = old ++ bs ++ l.drop (p + old.length + bs.length) := by
  have htake : l.take (p + old.length) = l.take p ++ old := by rw [List.take_add, h, List.take_left]
  have hlen : (l.take p).length = p := by
    rw [List.length_take]
    omega
  rw [overwrite, htake, List.append_assoc, List.append_assoc, List.drop_left' hlen, List.append_assoc]

instance {A : Type} [StorageAdapter A] [MemoryAdapter A] : StoringDevice A where
  Wrote d position bs := ReadableAdapter.Ok d ∧ StorageAdapter.pos d = position + bs.length ∧
    ∃ rest, (ReadableAdapter.bytes d).drop position = bs ++ rest
  At d rest := ReadableAdapter.Ok d ∧ (ReadableAdapter.bytes d).drop (StorageAdapter.pos d) = rest
  takes := by
    rintro p d d' old bs ⟨hok, hpos, rest, hrest⟩ hwrite
    have hle : p + old.length ≤ (ReadableAdapter.bytes d).length := hpos ▸ ReadableAdapter.pos_le hok
    by_cases hfits : MemoryAdapter.Fits A (StorageAdapter.pos d + bs.length)
    · obtain ⟨d₁, hwrite', hok', hbytes, hpos'⟩ := MemoryAdapter.write_some hok hfits
      rw [hwrite] at hwrite'
      cases hwrite'
      refine ⟨hok', ?_, (ReadableAdapter.bytes d).drop (p + old.length + bs.length), ?_⟩
      · rw [hpos', hpos, List.length_append, Nat.add_assoc]
      · rw [hbytes, hpos]
        exact drop_overwrite_behind hrest hle
    · obtain ⟨d₁, hwrite', -⟩ := MemoryAdapter.write_none hok hfits
      rw [hwrite] at hwrite'
      cases hwrite'
  seek_back := by
    rintro d p bs ⟨hok, hpos, rest, hrest⟩
    have hle : p ≤ (ReadableAdapter.bytes d).length :=
      Nat.le_trans (Nat.le_add_right p bs.length) (hpos ▸ ReadableAdapter.pos_le hok)
    obtain ⟨d', hseek, hok', hbytes, hpos'⟩ := ReadableAdapter.seek_some hok hle
    exact ⟨d', rest, hseek, hok', by rw [hbytes, hpos', hrest]⟩
  follows := by
    rintro d n v rest ⟨hok, hrest⟩
    obtain ⟨d', hread, hok', hbytes, hrest'⟩ := Decodes.follows_ok (ReadableAdapter.bytes d) ⟨hok, rfl, hrest⟩
    exact ⟨d', hread, hok', by rw [hbytes]; exact hrest'⟩

/-- What is written at the end of a file. -/
@[reducible] def StoringDevice.ofRecordStream (A : Type) [StorageAdapter A] [RecordStream A] : StoringDevice A where
  Wrote d position bs := RecordStream.Seekable A position ∧
    ∃ old, old.length = position ∧ RecordStream.AtEnd d (old ++ bs)
  At d rest := ∃ content, RecordStream.At content d rest
  takes := by
    rintro p d d' old bs ⟨hseekable, before, hlen, hend⟩ hwrite
    refine ⟨hseekable, before, hlen, ?_⟩
    rw [← List.append_assoc]
    exact RecordStream.takes hend hwrite
  seek_back := by
    rintro d p bs ⟨hseekable, before, rfl, hend⟩
    have hle : before.length ≤ (before ++ bs).length := by
      rw [List.length_append]
      exact Nat.le_add_right ..
    obtain ⟨d', hseek, hat⟩ := RecordStream.seek_some hend hle hseekable
    rw [List.drop_left] at hat
    exact ⟨d', [], hseek, _, by rw [List.append_nil]; exact hat⟩
  follows := by
    rintro d n v rest ⟨content, hat⟩
    obtain ⟨d', hread, hat'⟩ := RecordStream.follows content hat
    exact ⟨d', hread, content, hat'⟩

instance : StoringDevice (FopenAdapter 64) := StoringDevice.ofRecordStream _

instance : StoringDevice QFileAdapter := StoringDevice.ofRecordStream _

instance : StoringDevice QMemoryDeviceAdapter := StoringDevice.ofRecordStream _

section
variable {A : Type} [StorageAdapter A] [StoringDevice A] {S : Schema} {d d' : A} {position : ℕ}
open DbRecordSerializer StoringDevice

theorem readBack {α : Type} {w : Proc A Unit} {r : Proc A α} {bs : Bytes} {a : α} (hd : Wrote d position [])
    (hw : Encodes w bs) (hr : Decodes r bs a) (hwrite : w.run d = (.ret (), d')) :
    ∃ d₂, (StorageIo.seek position >>= fun _ => r).run d' = (.ret a, d₂) := by
  have hwrote := hw (takes position) hd hwrite
  rw [List.nil_append] at hwrote
  obtain ⟨d₁, rest, hseek, hat⟩ := seek_back hwrote
  obtain ⟨d₂, hread, -⟩ := hr follows hat
  have hstart : (StorageIo.seek position).run d' = (.ret (), d₁) := Proc.run_ofCall_some hseek
  exact ⟨d₂, by rw [Proc.run_bind_of_ret hstart, hread]⟩

theorem readValue_written {t : ValueType} {v : t.Value} (hd : Wrote d position [])
    (hwrite : (StorageIo.writeValue t v).run d = (.ret (), d')) :
    ∃ d₂, (StorageIo.seek position >>= fun _ => StorageIo.readValue t).run d' = (.ret (t.stored v), d₂) := by
  refine readBack hd (encodes_writeValue t v) ?_ hwrite
  rw [← ValueType.encodeValue_stored]
  exact decodes_readValue t _ (ValueType.short_stored t v)

theorem deserialize_written (hS : S.StaticFirst) {r : DbRecord S} (hd : Wrote d position [])
    (hwrite : (serialize r).run d = (.ret (), d')) :
    ∃ d₂, (StorageIo.seek position >>= fun _ => deserialize S).run d' = (.ret r.stored, d₂) := by
  refine readBack hd (encodes_serialize r) ?_ hwrite
  rw [← DbRecord.encode_stored]
  exact decodes_deserialize hS (DbRecord.short_stored r)

/-- **Success means stored** exactly for the values and records whose strings and arrays, at every level, have fewer
than 2^32 items: any other is read back without an error as something else. -/
theorem written_iff_short (hd : Wrote d position []) :
    (∀ (t : ValueType) (v : t.Value) (d' : A), (StorageIo.writeValue t v).run d = (.ret (), d') →
      ((∃ d₂, (StorageIo.seek position >>= fun _ => StorageIo.readValue t).run d' = (.ret v, d₂)) ↔ t.Short v)) ∧
    ∀ S : Schema, S.checkAssertions = true → ∀ (r : DbRecord S) (d' : A), (serialize r).run d = (.ret (), d') →
      ((∃ d₂, (StorageIo.seek position >>= fun _ => deserialize S).run d' = (.ret r, d₂)) ↔ r.Short) := by
  constructor
  · intro t v d' hwrite
    obtain ⟨d₂, hread⟩ := readValue_written hd hwrite
    rw [Proc.exists_ret_iff hread, ValueType.stored_eq_iff]
  · intro S hS r d' hwrite
    obtain ⟨d₂, hread⟩ := deserialize_written (Schema.staticFirst_of_checkAssertions hS) hd hwrite
    rw [Proc.exists_ret_iff hread, DbRecord.stored_eq_iff]

end

theorem wrote_new : StoringDevice.Wrote ({} : VectorAdapter) 0 [] := ⟨True.intro, rfl, [], rfl⟩

theorem written_iff_short_note : ∃ d' : VectorAdapter,
    (DbRecordSerializer.serialize (notes[0])).run {} = (.ret (), d') ∧
    ((∃ d₂, (StorageIo.seek 0 >>= fun _ => DbRecordSerializer.deserialize _).run d' = (.ret (notes[0]), d₂)) ↔
      (notes[0]).Short) := by
  obtain ⟨d', hrun, -⟩ := (DbRecordSerializer.writes_serialize (notes[0])).ret (d := ({} : VectorAdapter)) trivial trivial
  exact ⟨d', hrun, (written_iff_short wrote_new).2 _ (by decide) _ d' hrun⟩

/-- A string of 2^32 characters is stored as the empty one. -/
theorem written_empty {str : Bytes} (h : str.length = 2 ^ 32) : ∃ d₁ d₂ : VectorAdapter,
    (StorageIo.writeValue .string str).run {} = (.ret (), d₁) ∧
    (StorageIo.seek 0 >>= fun _ => StorageIo.readValue .string).run d₁ = (.ret ([] : Bytes), d₂) := by
  obtain ⟨d₁, hrun, -⟩ := (writes_writeValue .string str).ret (d := ({} : VectorAdapter)) trivial trivial
  obtain ⟨d₂, hread⟩ := readValue_written wrote_new hrun
  have hempty : ValueType.stored .string str = ([] : Bytes) := by
    change kept str = []
    rw [kept, h, Nat.mod_self, List.take_zero]
  rw [hempty] at hread
  exact ⟨d₁, d₂, hrun, hread⟩

theorem written_lost : ∃ d₁ d₂ : VectorAdapter,
    (StorageIo.writeValue .string (List.replicate (2 ^ 32) 97 : Bytes)).run {} = (.ret (), d₁) ∧
    (StorageIo.seek 0 >>= fun _ => StorageIo.readValue .string).run d₁ = (.ret ([] : Bytes), d₂) ∧
    ([] : Bytes) ≠ List.replicate (2 ^ 32) 97 := by
  have hlen : (List.replicate (2 ^ 32) 97 : Bytes).length = 2 ^ 32 := List.length_replicate ..
  obtain ⟨d₁, d₂, hrun, hread⟩ := written_empty hlen
  refine ⟨d₁, d₂, hrun, hread, fun h => ?_⟩
  rw [← h] at hlen
  exact absurd hlen (by decide)

end CppDb
