import CppDb.AdapterAgreement
import CppDb.PageAddressing

/-!
# `HashingAdapter` (`storage/io_with_hashing.hpp`)

An adapter over another one, that hashes what goes through it: what was read, once the read has succeeded, and what
is to be written, whether or not the write succeeds. It answers as the other one does, and after a record was written,
or read, the hash is that of the encoding of the record (`hash_of_record`).
-/

namespace CppDb
open Embed

/-- `FNV_1a_32_hasher`: it takes the bytes one after the other. -/
class Fnv1aHasher (H : Type) where
  reset : H
  updateHash : Bytes → H → H
  calculatedHash : H → UInt32
  updateHash_nil (h : H) : updateHash [] h = h
  updateHash_append (bs cs : Bytes) (h : H) : updateHash (bs ++ cs) h = updateHash cs (updateHash bs h)

def fnv1a (h : UInt32) (b : UInt8) : UInt32 := (h ^^^ b.toUInt32) * 16777619

/-- The hash itself is all that FNV-1a keeps. -/
instance : Fnv1aHasher UInt32 where
  reset := 2166136261
  updateHash bs h := bs.foldl fnv1a h
  calculatedHash h := h
  updateHash_nil _ := rfl
  updateHash_append _ _ _ := List.foldl_append ..

open Fnv1aHasher (updateHash)

structure HashingAdapter (H A : Type) where
  base : A
  hasher : H

namespace HashingAdapter
variable {H A : Type} [Fnv1aHasher H] [StorageAdapter A]

/-- A member function that is inherited. -/
def inherited {α : Type} (c : Call A α) : Call (HashingAdapter H A) α := fun a =>
  ((c a.base).1, { a with base := (c a.base).2 })

def read (dataSize : ℕ) : Call (HashingAdapter H A) (Raw dataSize) := fun a =>
  match StorageAdapter.read dataSize a.base with
  | (none, base) => (none, { a with base := base })
  | (some data, base) => (some data, { base := base, hasher := updateHash data.1 a.hasher })

def write (data : Bytes) : Call (HashingAdapter H A) Unit := fun a =>
  ((StorageAdapter.write data a.base).1,
    { base := (StorageAdapter.write data a.base).2, hasher := updateHash data a.hasher })

def calculatedHash (a : HashingAdapter H A) : UInt32 := Fnv1aHasher.calculatedHash a.hasher

def resetHash (a : HashingAdapter H A) : HashingAdapter H A := { a with hasher := Fnv1aHasher.reset }

instance : StorageAdapter (HashingAdapter H A) where
  open_ fileName mode := inherited (StorageAdapter.open_ fileName mode)
  close := inherited StorageAdapter.close
  read := read
  write := write
  seek position := inherited (StorageAdapter.seek position)
  seekToEnd := inherited StorageAdapter.seekToEnd
  flush := inherited StorageAdapter.flush
  pos a := StorageAdapter.pos a.base
  size a := StorageAdapter.size a.base
  atEnd a := StorageAdapter.atEnd a.base

/-- The bytes that a call puts into the hash. -/
def hashed (d : A) : AdapterCall → Bytes
  | .write bs => bs
  | .read dataSize => ((StorageAdapter.read dataSize d).1.map Subtype.val).getD []
  | _ => []

theorem on_eq (a : HashingAdapter H A) (c : AdapterCall) :
    c.on a = ((c.on a.base).1, ⟨(c.on a.base).2, updateHash (hashed a.base c) a.hasher⟩) := by
  cases c with
  | write bs => rfl
  | read dataSize =>
    rcases hread : StorageAdapter.read dataSize a.base with ⟨_ | data, d⟩
    · simp only [AdapterCall.on, hashed, StorageAdapter.read, read, hread]
      simp [Fnv1aHasher.updateHash_nil]
    · simp only [AdapterCall.on, hashed, StorageAdapter.read, read, hread]
      simp
  | _ => simp [AdapterCall.on, hashed, Fnv1aHasher.updateHash_nil, StorageAdapter.seek, StorageAdapter.seekToEnd, inherited,
    StorageAdapter.size, StorageAdapter.pos, StorageAdapter.atEnd]

/-- What a sequence of calls puts into the hash. -/
def transferred : A → List AdapterCall → Bytes
  | _, [] => []
  | d, c :: cs => hashed d c ++ transferred (c.step d) cs

/-- The adapter answers as the one under it, which has the same calls made to it. -/
theorem run_calls (a : HashingAdapter H A) (calls : List AdapterCall) :
    AdapterCall.answers a calls = AdapterCall.answers a.base calls ∧
      run AdapterCall.step a calls =
        ⟨run AdapterCall.step a.base calls, updateHash (transferred a.base calls) a.hasher⟩ := by
  induction calls generalizing a with
  | nil => exact ⟨rfl, by rw [run_nil, run_nil, transferred, Fnv1aHasher.updateHash_nil]⟩
  | cons c calls ih =>
    have hstep : c.step a = ⟨c.step a.base, updateHash (hashed a.base c) a.hasher⟩ := congrArg Prod.snd (on_eq a c)
    obtain ⟨hanswers, hrun⟩ := ih (c.step a)
    rw [hstep] at hanswers hrun
    constructor
    · rw [AdapterCall.answers, AdapterCall.answers, on_eq, hstep, hanswers]
    · rw [run_cons, run_cons, hstep, hrun, transferred, Fnv1aHasher.updateHash_append]

theorem takes_hashed (h₀ : H) : Takes fun (a : HashingAdapter H A) old => a.hasher = updateHash old h₀ := by
  rintro a a' old bs h hwrite
  have ha' : a'.hasher = updateHash bs a.hasher := congrArg (fun r => r.2.hasher) hwrite.symm
  rw [ha', h, Fnv1aHasher.updateHash_append]

/-- Bytes are still to come from the adapter under this one, and the others of `all` are in the hash. -/
def HashedUpTo (At : A → Bytes → Prop) (all : Bytes) (h₀ : H) (a : HashingAdapter H A) (rest : Bytes) : Prop :=
  At a.base rest ∧ ∃ consumed, all = consumed ++ rest ∧ a.hasher = updateHash consumed h₀

theorem faithful_hashedUpTo {At : A → Bytes → Prop} (hAt : Faithful At) (all : Bytes) (h₀ : H) :
    Faithful (HashedUpTo At all h₀) := by
  rintro a a' n v rest ⟨hrest, consumed, hall, hhash⟩ hread
  rcases hcall : StorageAdapter.read n a.base with ⟨_ | v', d⟩
  · simp [StorageAdapter.read, read, hcall] at hread
  · simp only [StorageAdapter.read, read, hcall] at hread
    cases hread
    obtain ⟨rest', hsplit, hrest'⟩ := hAt hrest hcall
    refine ⟨rest', hsplit, hrest', consumed ++ v.1, ?_, ?_⟩
    · rw [hall, hsplit, List.append_assoc]
    · rw [Fnv1aHasher.updateHash_append, hhash]

open DbRecordSerializer

theorem hash_serialize {S : Schema} {r : DbRecord S} {a a' : HashingAdapter H A}
    (hrun : (serialize r).run a = (.ret (), a')) : a'.hasher = updateHash (encode r) a.hasher :=
  have hnone : a.hasher = updateHash [] a.hasher := (Fnv1aHasher.updateHash_nil _).symm
  encodes_serialize r (takes_hashed a.hasher) hnone hrun

theorem hash_deserialize {S : Schema} (hS : S.StaticFirst) {At : A → Bytes → Prop} (hAt : Faithful At) {r : DbRecord S}
    {a a' : HashingAdapter H A} {rest : Bytes} (h : At a.base rest) (hrun : (deserialize S).run a = (.ret r, a')) :
    a'.hasher = updateHash (encode r) a.hasher := by
  obtain ⟨-, rest', hrest, -, consumed, hall, hhash⟩ := parses_deserialize hS (faithful_hashedUpTo hAt rest a.hasher)
    ⟨h, [], rfl, (Fnv1aHasher.updateHash_nil _).symm⟩ hrun
  rw [hhash, List.append_cancel_right (hall.symm.trans hrest)]

variable [RecordDevice A]

/-- **The hash of a record** is the same whether it is written or read, in however many pieces: that of its encoding.
Whatever went through the adapter before, it has answered as the adapter under it answers. -/
theorem hash_of_record {S : Schema} (hS : S.checkAssertions = true) (a : HashingAdapter H A) (calls : List AdapterCall) :
    AdapterCall.answers a calls = AdapterCall.answers a.base calls ∧
    (run AdapterCall.step a calls).base = run AdapterCall.step a.base calls ∧
    (∀ (r : DbRecord S) a', (serialize r).run (resetHash (run AdapterCall.step a calls)) = (.ret (), a') →
      a'.calculatedHash = Fnv1aHasher.calculatedHash (updateHash (encode r) (Fnv1aHasher.reset : H))) ∧
    ∀ (r : DbRecord S) a' rest, RecordDevice.At (run AdapterCall.step a.base calls) rest →
      (deserialize S).run (resetHash (run AdapterCall.step a calls)) = (.ret r, a') →
      a'.calculatedHash = Fnv1aHasher.calculatedHash (updateHash (encode r) (Fnv1aHasher.reset : H)) := by
  obtain ⟨hanswers, hrun⟩ := run_calls a calls
  refine ⟨hanswers, by rw [hrun], fun r a' h => ?_, fun r a' rest hrest h => ?_⟩
  · rw [calculatedHash, hash_serialize h]
    rfl
  · rw [calculatedHash, hash_deserialize (Schema.staticFirst_of_checkAssertions hS) RecordDevice.faithful
      (show RecordDevice.At _ rest by rw [resetHash, hrun]; exact hrest) h]
    rfl

end HashingAdapter

namespace HashingAdapter
open DbStorage DbRecordSerializer

theorem hash_of_record_number : ∃ a' : HashingAdapter UInt32 VectorAdapter,
    (serialize (number 1)).run (resetHash (run AdapterCall.step ⟨{}, Fnv1aHasher.reset⟩ [.write [7]])) = (.ret (), a') ∧
    a'.calculatedHash = updateHash (leBytes 4 1) (Fnv1aHasher.reset : UInt32) := by
  obtain ⟨a, ha⟩ : ∃ a : HashingAdapter UInt32 VectorAdapter, a = ⟨{}, Fnv1aHasher.reset⟩ := ⟨_, rfl⟩
  have hwritten : ((serialize (number 1)).run (resetHash (run AdapterCall.step a [.write [7]]))).1 = .ret () := by
    rw [ha]
    decide
  obtain ⟨a', hwrite⟩ := Proc.exists_run_eq hwritten
  obtain ⟨-, -, hhash, -⟩ := hash_of_record (S := numberSchema) (by decide) a [.write [7]]
  refine ⟨a', by rw [← ha, hwrite], ?_⟩
  rw [hhash _ a' hwrite, encode_number]
  rfl

end HashingAdapter

end CppDb
