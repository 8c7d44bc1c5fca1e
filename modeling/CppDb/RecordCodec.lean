import CppDb.Record
import Mathlib.Data.List.Chain
import Mathlib.Data.List.Nodup

/-!
# The byte format of values and records

`encodeValue` and `DbRecord.encode` are the byte strings the writing functions of `Record.lean`
produce (`writes_writeValue`, `writes_serialize`), and the reading functions give back what they
encode (`decodes_readValue`, `decodes_deserialize`). A record is decoded from the block of its static
fields and the stream of the dynamic ones; that these are the first fields and the rest follows from
`checkAssertions`, which only looks at neighbours.
-/

namespace CppDb
open Embed

def encodeString (str : Bytes) : Bytes :=
  leBytes 4 str.length ++ str.take (str.length % 2 ^ 32)

def encodeVector {α : Type} (enc : α → Bytes) (v : List α) : Bytes :=
  leBytes 4 v.length ++ ((v.take (v.length % 2 ^ 32)).map enc).flatten

/-- What `StorageIo::write` stores for a value. -/
def encodeValue : (t : ValueType) → t.Value → Bytes
  | .trivial _ _, v => v.1
  | .string, str => encodeString str
  | .vector t, v => encodeVector (encodeValue t) v

section
variable {A : Type} [StorageAdapter A]

theorem writes_writeValue [MemoryAdapter A] (t : ValueType) (v : t.Value) :
    Writes (A := A) (StorageIo.writeValue t v) (encodeValue t v) := by
  induction t with
  | trivial name n => exact Writes.write v.1
  | string => exact (Writes.write _).bind (Writes.write _)
  | vector t ih => exact (Writes.write _).bind (Writes.forM _ fun x _ => ih x)

theorem encodes_writeValue (t : ValueType) (v : t.Value) :
    Encodes (A := A) (StorageIo.writeValue t v) (encodeValue t v) := by
  induction t with
  | trivial name n => exact Encodes.write v.1
  | string => exact (Encodes.write _).bind (Encodes.write _)
  | vector t ih => exact (Encodes.write _).bind (Encodes.forM _ fun x _ => ih x)

/-- A length below 2^32 survives the 32-bit prefix. -/
theorem decodes_prefix {n : ℕ} (h : n < 2 ^ 32) {α : Type} {f : ℕ → Proc A α} {bs : Bytes} {a : α}
    (hf : Decodes (f n) bs a) :
    Decodes (StorageIo.read 4 >>= fun size => f (leNat size.1)) (leBytes 4 n ++ bs) a := by
  have hn : leNat (leBytes 4 n) = n := leNat_leBytes_of_lt (by simpa using h)
  exact (Decodes.read ⟨leBytes 4 n, length_leBytes 4 n⟩).bind (by rw [hn]; exact hf)

theorem decodes_readString {str : Bytes} (h : str.length < 2 ^ 32) :
    Decodes (A := A) StorageIo.readString (encodeString str) str := by
  rw [encodeString, Nat.mod_eq_of_lt h, List.take_length]
  exact decodes_prefix (f := fun n => StorageIo.read n >>= fun s => pure s.1) h
    ((Decodes.read ⟨str, rfl⟩).map fun s => s.1)

theorem decodes_readVector {α : Type} {readItem : Proc A α} {enc : α → Bytes} {v : List α}
    (h : v.length < 2 ^ 32) (hv : ∀ x ∈ v, Decodes readItem (enc x) x) :
    Decodes (StorageIo.readVector readItem) (encodeVector enc v) v := by
  rw [encodeVector, Nat.mod_eq_of_lt h, List.take_length]
  exact decodes_prefix h (Decodes.times v hv)

theorem decodes_readValue (t : ValueType) (v : t.Value) (hv : t.Short v) :
    Decodes (A := A) (StorageIo.readValue t) (encodeValue t v) v := by
  induction t with
  | trivial name n => exact Decodes.read v
  | string => exact decodes_readString hv.1
  | vector t ih => exact decodes_readVector hv.1 fun x hx => ih x (hv.2 x hx)

theorem reads_readValue [ReadableAdapter A] (t : ValueType) (v : t.Value) (hv : t.Short v) :
    Reads (A := A) (StorageIo.readValue t) (encodeValue t v) v :=
  (decodes_readValue t v hv).reads

end

namespace ValueType
variable {t : ValueType}

theorem length_toRaw (h : t.isTrivial = true) (v : t.Value) : (t.toRaw v).length = t.sizeOf := by
  cases t with
  | trivial name n => exact v.2
  | _ => cases h

theorem ofRaw_toRaw (h : t.isTrivial = true) (v : t.Value) : t.ofRaw (t.toRaw v) = v := by
  cases t with
  | trivial name n =>
    have hv : List.length (α := UInt8) v.1 = n := v.2
    exact Subtype.ext ((List.takeD_eq_take _ hv.ge).trans (List.take_of_length_le hv.le))
  | _ => cases h

end ValueType

theorem Field.isTrivial_of_static {f : Field} (h : f.sizeKnownAtCompileTime = true) :
    f.valueType.isTrivial = true := by
  simp only [sizeKnownAtCompileTime, Bool.and_eq_true] at h; exact h.2

/-! ### What the compile-time checks give -/

namespace Schema
variable {S : Schema} {f : Field}

/-- Fields of static size come first. -/
def StaticFirst (S : Schema) : Prop :=
  S.Pairwise fun f g => g.sizeKnownAtCompileTime = true → f.sizeKnownAtCompileTime = true

theorem checkAssertions_neighbours (h : S.checkAssertions = true) {i : ℕ} (hi : i + 1 < S.length) :
    (S[i + 1].sizeKnownAtCompileTime = true → S[i].sizeKnownAtCompileTime = true) ∧
      S.count S[i] = 1 ∧ S.count S[i + 1] = 1 ∧ S[i].id ≠ S[i + 1].id := by
  simp only [checkAssertions, Bool.and_eq_true, List.all_eq_true] at h
  have hi' := h.2 (i + 1) (List.mem_range'_1.2 (by omega))
  rw [Nat.add_sub_cancel, List.getElem?_eq_getElem (by omega), List.getElem?_eq_getElem hi] at hi'
  simp only [Bool.and_eq_true, beq_iff_eq, bne_iff_ne, Bool.not_eq_true', Bool.and_eq_false_iff,
    beq_eq_false_iff_ne, ne_eq, Bool.not_eq_false, Bool.not_eq_true] at hi'
  obtain ⟨⟨hs, hc₁, hc₂⟩, hid⟩ := hi'
  refine ⟨fun h₂ => ?_, hc₁, hc₂, hid⟩
  rcases hs with hs | hs
  · exact hs
  · rw [hs] at h₂; cases h₂

theorem staticFirst_of_checkAssertions (h : S.checkAssertions = true) : S.StaticFirst := by
  have : Trans (fun f g : Field => g.sizeKnownAtCompileTime = true → f.sizeKnownAtCompileTime = true)
      (fun f g : Field => g.sizeKnownAtCompileTime = true → f.sizeKnownAtCompileTime = true)
      (fun f g : Field => g.sizeKnownAtCompileTime = true → f.sizeKnownAtCompileTime = true) :=
    ⟨fun hab hbc hc => hab (hbc hc)⟩
  exact (List.isChain_iff_getElem.2 fun i hi => (checkAssertions_neighbours h hi).1).pairwise

theorem nodup_of_checkAssertions (h : S.checkAssertions = true) : S.Nodup := by
  refine List.nodup_iff_count_le_one.2 fun f => ?_
  by_cases hf : f ∈ S
  swap; · exact Nat.le_trans (Nat.le_of_eq (List.count_eq_zero.2 hf)) (Nat.zero_le 1)
  obtain ⟨i, hi, rfl⟩ := List.mem_iff_getElem.1 hf
  rcases i with _ | i
  · by_cases h1 : 0 + 1 < S.length
    · exact Nat.le_of_eq (checkAssertions_neighbours h h1).2.1
    · exact Nat.le_trans List.count_le_length (Nat.not_lt.1 h1)
  · exact Nat.le_of_eq (checkAssertions_neighbours h hi).2.2.1

theorem StaticFirst.tail (h : StaticFirst (f :: S)) : StaticFirst S := h.of_cons

theorem StaticFirst.count_eq_zero (h : StaticFirst (f :: S))
    (hf : ¬ f.sizeKnownAtCompileTime = true) : S.staticFieldsCount = 0 :=
  List.countP_eq_zero.2 fun g hg hs => hf ((List.pairwise_cons.1 h).1 g hg hs)

theorem staticFieldsCount_static (hf : f.sizeKnownAtCompileTime = true) :
    staticFieldsCount (f :: S) = S.staticFieldsCount + 1 := List.countP_cons_of_pos hf

theorem staticFieldsSize_static (hf : f.sizeKnownAtCompileTime = true) :
    staticFieldsSize (f :: S) = f.staticSize + staticFieldsSize S := by
  rw [staticFieldsSize, staticFieldsSize, staticFieldsCount_static hf, List.take_succ_cons, List.map_cons,
    List.sum_cons]

theorem staticFieldsSize_of_count (h : staticFieldsCount S = 0) : staticFieldsSize S = 0 := by
  rw [staticFieldsSize, h]
  rfl

theorem staticFieldsCount_dynamic (hf : ¬ f.sizeKnownAtCompileTime = true) :
    staticFieldsCount (f :: S) = S.staticFieldsCount := List.countP_cons_of_neg hf

end Schema

/-! ### Records -/

namespace DbRecordSerializer

/-- The encodings of the fields from index `n` on. -/
def encodeFrom : {S : Schema} → DbRecord S → ℕ → Bytes
  | _, .nil, _ => []
  | _, .cons (f := f) v r, 0 => encodeValue f.valueType v ++ encodeFrom r 0
  | _, .cons _ r, n + 1 => encodeFrom r n

/-- What `serialize` stores for a record. -/
def encode {S : Schema} (record : DbRecord S) : Bytes :=
  staticBlock record S.staticFieldsCount ++ encodeFrom record S.staticFieldsCount

section
variable {A : Type} [StorageAdapter A] {S : Schema}

theorem writes_writeFrom [MemoryAdapter A] (r : DbRecord S) (n : ℕ) :
    Writes (A := A) (writeFrom r n) (encodeFrom r n) := by
  induction r generalizing n with
  | nil => exact Writes.nil
  | cons v r ih =>
    cases n with
    | zero => exact (writes_writeValue _ v).bind (ih 0)
    | succ n => exact ih n

theorem writes_serialize [MemoryAdapter A] (r : DbRecord S) :
    Writes (A := A) (serialize r) (encode r) :=
  (Writes.write _).bind (writes_writeFrom r _)

theorem encodes_writeFrom (r : DbRecord S) (n : ℕ) : Encodes (A := A) (writeFrom r n) (encodeFrom r n) := by
  induction r generalizing n with
  | nil => exact Encodes.nil
  | cons v r ih =>
    cases n with
    | zero => exact (encodes_writeValue _ v).bind (ih 0)
    | succ n => exact ih n

theorem encodes_serialize (r : DbRecord S) : Encodes (A := A) (serialize r) (encode r) :=
  (Encodes.write _).bind (encodes_writeFrom r _)

theorem length_staticBlock (hS : S.StaticFirst) (r : DbRecord S) :
    (staticBlock r S.staticFieldsCount).length = S.staticFieldsSize := by
  induction r with
  | nil => rfl
  | @cons f S v r ih =>
    by_cases hf : f.sizeKnownAtCompileTime = true
    · rw [Schema.staticFieldsSize_static hf, Schema.staticFieldsCount_static hf, staticBlock, List.length_append,
        ih hS.tail, ValueType.length_toRaw (Field.isTrivial_of_static hf), Field.staticSize]
    · have h0 : Schema.staticFieldsCount (f :: S) = 0 := by
        rw [Schema.staticFieldsCount_dynamic hf, hS.count_eq_zero hf]
      rw [Schema.staticFieldsSize_of_count h0, h0]
      rfl

theorem decodes_readFields (hS : S.StaticFirst) {r : DbRecord S} (hr : r.Short) :
    Decodes (A := A) (readFields S (staticBlock r S.staticFieldsCount))
      (encodeFrom r S.staticFieldsCount) r := by
  induction r with
  | nil => exact Decodes.pure _
  | @cons f S v r ih =>
    by_cases hf : f.sizeKnownAtCompileTime = true
    · have ht := Field.isTrivial_of_static hf
      rw [Schema.staticFieldsCount_static hf, staticBlock, readFields, if_pos hf, Field.staticSize,
        ← ValueType.length_toRaw ht v, List.take_left, List.drop_left, ValueType.ofRaw_toRaw ht]
      exact (ih hS.tail hr.2).map (DbRecord.cons v)
    · have h0 := hS.count_eq_zero hf
      have hr' := ih hS.tail hr.2
      have hnil : staticBlock r 0 = [] := by cases r <;> rfl
      rw [h0, hnil] at hr'
      rw [Schema.staticFieldsCount_dynamic hf, h0, readFields, if_neg hf]
      exact (decodes_readValue f.valueType v hr.1).bind (hr'.map (DbRecord.cons v))

theorem decodes_deserialize (hS : S.StaticFirst) {r : DbRecord S} (hr : r.Short) :
    Decodes (A := A) (deserialize S) (encode r) r :=
  (Decodes.read ⟨_, length_staticBlock hS r⟩).bind (decodes_readFields hS hr)

theorem reads_deserialize [ReadableAdapter A] (hS : S.StaticFirst) {r : DbRecord S} (hr : r.Short) :
    Reads (A := A) (deserialize S) (encode r) r :=
  (decodes_deserialize hS hr).reads

end

end DbRecordSerializer

end CppDb
