import CppDb.DbStorage
import CppDb.FileAdapters
import Mathlib.Order.Comparable

/-!
# Indices and their files (`index/dbindex.hpp`, `index/dbindices.hpp`, `index/index_persistence.hpp`)

An index maps the keys of a field to the pages of its records. `std::map` is the list of its entries in the
order of their keys.
-/

namespace CppDb
open Embed

namespace ValueType

/-- The types that can be a key: strings and trivial types. -/
def isKey : ValueType → Bool
  | trivial .. => true
  | string => true
  | vector _ => false

/-- The bytes `Sha3_Hasher::update` takes from a key. -/
def updateBytes : (t : ValueType) → t.Value → Bytes
  | trivial _ _, v => v.1
  | string, v => v
  | vector _, _ => []

end ValueType

/-- A field type with an index; `lt` is `operator<` of its values. -/
structure IndexedField where
  field : Field
  lt : field.Value → field.Value → Bool
  irrefl : ∀ a, lt a a = false
  trans : ∀ a b c, lt a b = true → lt b c = true → lt a c = true
  isKey : field.valueType.isKey = true

namespace IndexedField

/-- `key_type`. -/
def Key (F : IndexedField) : Type := F.field.Value

variable {F : IndexedField} {a b : F.Key}

instance : IsStrictOrder F.Key fun a b => F.lt a b = true where
  irrefl a h := Bool.false_ne_true ((F.irrefl a).symm.trans h)
  trans := F.trans

instance : PartialOrder F.Key := partialOrderOfSO fun a b => F.lt a b = true

instance : DecidableLT F.Key := fun a b => inferInstanceAs (Decidable (F.lt a b = true))

/-- Neither is less than the other: equal keys, -0 and 0, and NaN with any number. `std::map` takes them for one. -/
abbrev Key.Equivalent (a b : F.Key) : Prop := IncompRel (· < ·) a b

theorem Key.not_equivalent (h : a < b) : ¬ a.Equivalent b := fun heq => heq.1 h

theorem Key.lt_of_not_equivalent (h : ¬ a.Equivalent b) (hlt : ¬ b < a) : a < b := by
  by_contra hnot
  exact h ⟨hnot, hlt⟩

end IndexedField

/-! ### `DbIndex` -/

structure DbIndex (F : IndexedField) where
  entries : List (F.Key × PageNumber)
  sorted : entries.Pairwise fun a b => a.1 < b.1

namespace DbIndex
variable {F : IndexedField}

def new : DbIndex F := ⟨[], List.Pairwise.nil⟩

def size (index : DbIndex F) : ℕ := index.entries.length

def findKey (value : F.Key) (index : DbIndex F) : Option PageNumber :=
  (index.entries.find? fun e => e.1.Equivalent value).map Prod.snd

/-- `std::map::emplace` where no key is equivalent: before the first entry with a greater key. -/
def insertEntry (e : F.Key × PageNumber) : List (F.Key × PageNumber) → List (F.Key × PageNumber)
  | [] => [e]
  | x :: xs => if e.1 < x.1 then e :: x :: xs else x :: insertEntry e xs

theorem mem_insertEntry {e x : F.Key × PageNumber} {es : List (F.Key × PageNumber)} :
    x ∈ insertEntry e es ↔ x = e ∨ x ∈ es := by
  induction es with
  | nil => simp [insertEntry]
  | cons y ys ih =>
    unfold insertEntry
    split_ifs with h
    · simp
    · simp [ih, or_left_comm]

theorem sorted_insertEntry {e : F.Key × PageNumber} {es : List (F.Key × PageNumber)}
    (hes : es.Pairwise fun a b => a.1 < b.1) (hnew : ∀ x ∈ es, ¬ x.1.Equivalent e.1) :
    (insertEntry e es).Pairwise fun a b => a.1 < b.1 := by
  induction es with
  | nil => exact List.pairwise_singleton ..
  | cons y ys ih =>
    obtain ⟨hy, hys⟩ := List.pairwise_cons.1 hes
    unfold insertEntry
    split_ifs with h
    · refine List.pairwise_cons.2 ⟨fun x hx => ?_, hes⟩
      rcases List.mem_cons.1 hx with rfl | hx
      · exact h
      · exact h.trans (hy x hx)
    · have hlt : y.1 < e.1 := IndexedField.Key.lt_of_not_equivalent (hnew y (List.mem_cons_self ..)) h
      refine List.pairwise_cons.2 ⟨fun x hx => ?_, ih hys fun x hx => hnew x (List.mem_cons_of_mem _ hx)⟩
      rcases mem_insertEntry.1 hx with rfl | hx
      · exact hlt
      · exact hy x hx

/-- Whether the key was new, and the index after the call. -/
def addLocationForKey (value : F.Key) (pgN : PageNumber) (index : DbIndex F) : Bool × DbIndex F :=
  if h : ∀ x ∈ index.entries, ¬ x.1.Equivalent value then
    (true, ⟨insertEntry (value, pgN) index.entries, sorted_insertEntry index.sorted h⟩)
  else (false, index)

end DbIndex

/-! ### The file of an index -/

namespace Index

def normalizedFileName (name : String) : String :=
  String.ofList (name.toList.map fun ch =>
    if ch.isAlphanum || ch == ' ' || ch == ',' || ch == '_' then ch
    else if ch == '<' then '['
    else if ch == '>' then ']'
    else '-')

section
variable {F : IndexedField} {A : Type} [StorageAdapter A] [Sha3Hasher]

/-- `typeName` is `typeid(index).name()` of the index of a field. -/
def filePath (typeName : Field → String) (F : IndexedField) (indexStorageFolder : String) : String :=
  indexStorageFolder ++ "/" ++ normalizedFileName (typeName F.field) ++ ".index"

/-- The loop of `store`. -/
def storeEntries : List (F.Key × PageNumber) → (hasher : List Bytes) → Proc A (List Bytes)
  | [], hasher => pure hasher
  | (key, location) :: entries, hasher => do
    StorageIo.writeValue F.field.valueType key
    StorageIo.write location.1
    storeEntries entries (hasher ++ [F.field.valueType.updateBytes key, location.1])

/-- On success, returns the full path to the stored file. -/
def store (typeName : Field → String) (index : DbIndex F) (indexStorageFolder : String) : Proc A String :=
  StorageIo.closing do
    StorageIo.open_ (filePath typeName F indexStorageFolder) .Write
    StorageIo.write (leBytes 8 index.size)
    let hasher ← storeEntries index.entries [leBytes 8 index.size]
    StorageIo.write (uint64Bytes (Sha3Hasher.get64BitHash hasher))
    return filePath typeName F indexStorageFolder

def addOrAbort (key : F.Key) (location : PageNumber) : Proc (DbIndex F) Unit := do
  let index ← .read
  let (emplacementSuccess, index') := index.addLocationForKey key location
  .modify fun _ => index'
  if emplacementSuccess then pure () else .abort "Failed to add key to index!"

/-- The loop of `load`. -/
def loadEntries : ℕ → (hasher : List Bytes) → Proc (Loading (DbIndex F) A) (List Bytes)
  | 0, hasher => pure hasher
  | n + 1, hasher => do
    let key ← Loading.onStorage (StorageIo.readValue F.field.valueType)
    let location ← Loading.onStorage (StorageIo.read 5)
    Loading.onTarget (addOrAbort key location)
    loadEntries n (hasher ++ [F.field.valueType.updateBytes key, location.1])

/-- On success, returns the full path to the stored file. -/
def load (typeName : Field → String) (F : IndexedField) (indexStorageFolder : String) :
    Proc (Loading (DbIndex F) A) String :=
  Loading.closing do
    Loading.onStorage (StorageIo.open_ (filePath typeName F indexStorageFolder) .Read)
    let numIndexEntries ← Loading.onStorage (StorageIo.read 8)
    let hasher ← loadEntries (leNat numIndexEntries.1) [numIndexEntries.1]
    let hash ← Loading.onStorage (StorageIo.read 8)
    .require (Sha3Hasher.get64BitHash hasher = Raw.toUInt64 hash)
    return filePath typeName F indexStorageFolder

end

end Index

/-! ### `Indices` -/

/-- `Indices<IndexedFields...>`: one index for each field. -/
inductive Indices : List IndexedField → Type where
  | nil : Indices []
  | cons {F : IndexedField} {Fs : List IndexedField} (index : DbIndex F) (rest : Indices Fs) : Indices (F :: Fs)

namespace Indices

def head {F : IndexedField} {Fs : List IndexedField} : Indices (F :: Fs) → DbIndex F
  | cons index _ => index

def tail {F : IndexedField} {Fs : List IndexedField} : Indices (F :: Fs) → Indices Fs
  | cons _ rest => rest

def new : (Fs : List IndexedField) → Indices Fs
  | [] => nil
  | _ :: Fs => cons .new (new Fs)

/-- `sanityCheck()`: no field type twice. -/
def sanityCheck (Fs : List IndexedField) : Bool :=
  Fs.all fun F => (Fs.map IndexedField.field).count F.field == 1

/-- The index of the `i`-th field. -/
def indexForField : {Fs : List IndexedField} → Indices Fs → (i : Fin Fs.length) → DbIndex (Fs.get i)
  | _ :: _, indices, ⟨0, _⟩ => indices.head
  | _ :: _, indices, ⟨i + 1, h⟩ => indices.tail.indexForField ⟨i, Nat.lt_of_succ_lt_succ h⟩

def findKey {Fs : List IndexedField} (i : Fin Fs.length) (key : (Fs.get i).Key) (indices : Indices Fs) :
    Option PageNumber :=
  (indices.indexForField i).findKey key

section
variable {A : Type} [StorageAdapter A] [Sha3Hasher]

/-- The loop of `store`: the others are stored also when one fails. -/
def storeEach (typeName : Field → String) (indexStorageFolder : String) :
    {Fs : List IndexedField} → Indices Fs → (success : Bool) → Proc A Bool
  | _, nil, success => pure success
  | _, cons index rest, success => do
    let stored ← (Index.store typeName index indexStorageFolder).attempt
    storeEach typeName indexStorageFolder rest (success && stored.isSome)

def store (typeName : Field → String) {Fs : List IndexedField} (indices : Indices Fs)
    (indexStorageFolder : String) : Proc A Unit := do
  let success ← storeEach typeName indexStorageFolder indices true
  .require (success = true)

/-- Work on the first index. -/
def onHead {α : Type} {F : IndexedField} {Fs : List IndexedField} (p : Proc (Loading (DbIndex F) A) α) :
    Proc (Loading (Indices (F :: Fs)) A) α :=
  p.zoom (fun l => ⟨l.target.head, l.storage⟩) fun l' l => ⟨cons l'.target l.target.tail, l'.storage⟩

def onTail {α : Type} {F : IndexedField} {Fs : List IndexedField} (p : Proc (Loading (Indices Fs) A) α) :
    Proc (Loading (Indices (F :: Fs)) A) α :=
  p.zoom (fun l => ⟨l.target.tail, l.storage⟩) fun l' l => ⟨cons l.target.head l'.target, l'.storage⟩

/-- The loop of `load`. -/
def loadEach (typeName : Field → String) (indexStorageFolder : String) :
    (Fs : List IndexedField) → (success : Bool) → Proc (Loading (Indices Fs) A) Bool
  | [], success => pure success
  | F :: Fs, success => do
    let loaded ← onHead (Index.load typeName F indexStorageFolder).attempt
    onTail (loadEach typeName indexStorageFolder Fs (success && loaded.isSome))

def load (typeName : Field → String) (Fs : List IndexedField) (indexStorageFolder : String) :
    Proc (Loading (Indices Fs) A) Unit := do
  let success ← loadEach typeName indexStorageFolder Fs true
  .require (success = true)

end

end Indices

end CppDb
