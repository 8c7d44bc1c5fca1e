import CppDb.Index
import CppDb.Fopen
import Mathlib.Data.List.Nodup

/-!
# Stored indices are loaded again

The entries of an index are stored in the order of their keys, so that loading adds each one at the end.
`Indices.load_store`: what was stored is what an empty `Indices` holds after loading it.
-/

namespace CppDb
open Embed

namespace DbIndex
variable {F : IndexedField} {index : DbIndex F} {key : F.Key} {location : PageNumber}

theorem ext {index index' : DbIndex F} (h : index.entries = index'.entries) : index = index' := by
  cases index
  cases index'
  cases h
  rfl

theorem insertEntry_append {e : F.Key × PageNumber} {es : List (F.Key × PageNumber)} (h : ∀ x ∈ es, x.1 < e.1) :
    insertEntry e es = es ++ [e] := by
  induction es with
  | nil => rfl
  | cons y ys ih =>
    have hy : ¬ e.1 < y.1 := (h y (List.mem_cons_self ..)).not_gt
    rw [insertEntry, if_neg hy, ih fun x hx => h x (List.mem_cons_of_mem _ hx), List.cons_append]

theorem addLocationForKey_last (location : PageNumber) (h : ∀ x ∈ index.entries, x.1 < key) :
    (index.addLocationForKey key location).1 = true ∧
      (index.addLocationForKey key location).2.entries = index.entries ++ [(key, location)] := by
  have hnew : ∀ x ∈ index.entries, ¬ x.1.Equivalent key := fun x hx => IndexedField.Key.not_equivalent (h x hx)
  unfold addLocationForKey
  rw [dif_pos hnew]
  exact ⟨rfl, insertEntry_append h⟩

theorem addLocationForKey_new (location : PageNumber) (h : ∀ x ∈ index.entries, ¬ x.1.Equivalent key) :
    (index.addLocationForKey key location).1 = true ∧
      ∀ x, x ∈ (index.addLocationForKey key location).2.entries ↔ x = (key, location) ∨ x ∈ index.entries := by
  unfold addLocationForKey
  rw [dif_pos h]
  exact ⟨rfl, fun _ => mem_insertEntry⟩

/-- The index with more entries. -/
def addAll (es : List (F.Key × PageNumber)) (index : DbIndex F) : DbIndex F :=
  es.foldl (fun index e => (index.addLocationForKey e.1 e.2).2) index

/-- No equivalent key is there when a key is added. -/
def Fresh : DbIndex F → List (F.Key × PageNumber) → Prop
  | _, [] => True
  | index, e :: es => (∀ x ∈ index.entries, ¬ x.1.Equivalent e.1) ∧ Fresh (index.addLocationForKey e.1 e.2).2 es

theorem fresh_of_sorted {es : List (F.Key × PageNumber)} (index index' : DbIndex F)
    (hes : index'.entries = index.entries ++ es) : index.Fresh es ∧ index.addAll es = index' := by
  induction es generalizing index with
  | nil =>
    have hsame : index = index' := ext (by rw [hes, List.append_nil])
    exact ⟨trivial, hsame⟩
  | cons e es ih =>
    have hsorted := index'.sorted
    rw [hes] at hsorted
    have hlast : ∀ x ∈ index.entries, x.1 < e.1 :=
      fun x hx => (List.pairwise_append.1 hsorted).2.2 x hx e (List.mem_cons_self ..)
    obtain ⟨hfresh, hadd⟩ := ih (index.addLocationForKey e.1 e.2).2 (by
      rw [(addLocationForKey_last e.2 hlast).2, hes, List.append_assoc]
      rfl)
    exact ⟨⟨fun x hx => IndexedField.Key.not_equivalent (hlast x hx), hfresh⟩, hadd⟩

/-- What fits into the format: a count of 64 bits and short keys. -/
structure Fits (index : DbIndex F) : Prop where
  size_lt : index.size < 2 ^ 64
  short : ∀ e ∈ index.entries, F.field.valueType.Short e.1

end DbIndex

/-! ### The file of an index -/

namespace Index
variable {F : IndexedField}

def encodeEntry (e : F.Key × PageNumber) : Bytes := encodeValue F.field.valueType e.1 ++ e.2.1

def entryUpdates (es : List (F.Key × PageNumber)) : List Bytes :=
  (es.map fun e => [F.field.valueType.updateBytes e.1, e.2.1]).flatten

theorem entryUpdates_cons (e : F.Key × PageNumber) (es : List (F.Key × PageNumber)) :
    entryUpdates (e :: es) = [F.field.valueType.updateBytes e.1, e.2.1] ++ entryUpdates es := rfl

section
variable [Sha3Hasher]

def indexHash (index : DbIndex F) : UInt64 :=
  Sha3Hasher.get64BitHash ([leBytes 8 index.size] ++ entryUpdates index.entries)

/-- The file of an index. -/
def encodeIndex (index : DbIndex F) : Bytes :=
  leBytes 8 index.size ++ ((index.entries.map encodeEntry).flatten ++ uint64Bytes (indexHash index))

def entriesHash (es : List (F.Key × PageNumber)) : UInt64 :=
  Sha3Hasher.get64BitHash ([leBytes 8 es.length] ++ entryUpdates es)

/-- The file of any entries. -/
def encodeEntries (es : List (F.Key × PageNumber)) : Bytes :=
  leBytes 8 es.length ++ ((es.map encodeEntry).flatten ++ uint64Bytes (entriesHash es))

theorem encodeIndex_eq (index : DbIndex F) : encodeIndex index = encodeEntries index.entries := rfl

end

section
variable {A : Type} [StorageAdapter A] [FileAdapter A]
open FileAdapter (Closed file)

theorem stores_storeEntries (es : List (F.Key × PageNumber)) (hasher : List Bytes) :
    Stores (A := A) (storeEntries es hasher) (es.map encodeEntry).flatten (hasher ++ entryUpdates es) := by
  induction es generalizing hasher with
  | nil =>
    have hnone : hasher ++ entryUpdates ([] : List (F.Key × PageNumber)) = hasher := List.append_nil hasher
    rw [hnone]
    exact Stores.pure hasher
  | cons e es ih =>
    have h := ih (hasher ++ [F.field.valueType.updateBytes e.1, e.2.1])
    rw [List.append_assoc, ← entryUpdates_cons] at h
    rw [List.map_cons, List.flatten_cons, encodeEntry, List.append_assoc]
    exact (Stores.of_encodes (encodes_writeValue _ e.1)).bind ((Stores.write _).bind h)

theorem run_addOrAbort {index index' : DbIndex F} {key : F.Key} {location : PageNumber}
    (h : index.addLocationForKey key location = (true, index')) :
    (addOrAbort key location).run index = (.ret (), index') := by
  rw [addOrAbort, Proc.run_read_bind, h]
  rfl

theorem loads_loadEntries {es : List (F.Key × PageNumber)} (hasher : List Bytes) {index : DbIndex F}
    (hfresh : index.Fresh es) (hshort : ∀ e ∈ es, F.field.valueType.Short e.1) :
    Loads (A := A) (loadEntries es.length hasher) (es.map encodeEntry).flatten index (index.addAll es)
      (hasher ++ entryUpdates es) := by
  induction es generalizing hasher index with
  | nil =>
    have hnone : hasher ++ entryUpdates ([] : List (F.Key × PageNumber)) = hasher := List.append_nil hasher
    rw [hnone]
    exact Loads.pure hasher
  | cons e es ih =>
    obtain ⟨key, location⟩ := e
    have hadded := (DbIndex.addLocationForKey_new location hfresh.1).1
    have hrun := run_addOrAbort (Prod.ext hadded rfl : index.addLocationForKey key location = (true, _))
    have h := ih (hasher ++ [F.field.valueType.updateBytes key, location.1]) hfresh.2
      fun e he => hshort e (List.mem_cons_of_mem _ he)
    rw [List.append_assoc, ← entryUpdates_cons (key, location)] at h
    have hkey : F.field.valueType.Short key := hshort (key, location) (List.mem_cons_self ..)
    rw [List.map_cons, List.flatten_cons, encodeEntry, List.append_assoc]
    exact (Loads.onStorage (decodes_readValue _ key hkey)).bind (Loads.read location ((Loads.onTarget hrun).bind h))

variable [Sha3Hasher] {typeName : Field → String} {folder : String}

theorem store_ret {index : DbIndex F} {d d' : A} {path : String} (hd : Closed d)
    (hstore : (store typeName index folder).run d = (.ret path, d')) :
    Closed d' ∧ file d' (filePath typeName F folder) = some (encodeIndex index) ∧
      ∀ q ≠ filePath typeName F folder, file d' q = file d q := by
  have hbody : Stores (A := A) (do
      StorageIo.write (leBytes 8 index.size)
      let hasher ← storeEntries index.entries [leBytes 8 index.size]
      StorageIo.write (uint64Bytes (Sha3Hasher.get64BitHash hasher))
      return filePath typeName F folder) (encodeIndex index) (filePath typeName F folder) := by
    refine Stores.of_eq ((Stores.write _).bind ((stores_storeEntries index.entries _).bind
      ((Stores.write _).bind (Stores.pure _)))) ?_
    rw [List.append_nil]
    rfl
  exact (closing_store hbody hd hstore).2

/-- Loading a file of entries with keys that are all new, whatever follows the hash. -/
theorem load_entries {es : List (F.Key × PageNumber)} (hsize : es.length < 2 ^ 64)
    (hshort : ∀ e ∈ es, F.field.valueType.Short e.1) (hfresh : DbIndex.new.Fresh es) {tail : Bytes} {d : A}
    (hd : Closed d) (hfile : file d (filePath typeName F folder) = some (encodeEntries es ++ tail)) :
    ∃ d', (load typeName F folder).run ⟨.new, d⟩ = (.ret (filePath typeName F folder), ⟨DbIndex.new.addAll es, d'⟩) ∧
      Closed d' ∧ file d' = file d := by
  have hcount : leNat (leBytes 8 es.length) = es.length := leNat_leBytes_of_lt hsize
  refine closing_load_append ?_ hd hfile
  refine Loads.read ⟨leBytes 8 es.length, length_leBytes ..⟩ ?_
  rw [hcount]
  refine (loads_loadEntries _ hfresh hshort).bind ?_
  refine Loads.of_eq (Loads.read (rawUInt64 (entriesHash es))
    ((Loads.require (toUInt64_rawUInt64 _).symm).bind (Loads.pure _))) (List.append_nil _)

theorem load_ret {index : DbIndex F} (hfits : index.Fits) {d : A} (hd : Closed d)
    (hfile : file d (filePath typeName F folder) = some (encodeIndex index)) :
    ∃ d', (load typeName F folder).run ⟨.new, d⟩ = (.ret (filePath typeName F folder), ⟨index, d'⟩) ∧
      Closed d' ∧ file d' = file d := by
  obtain ⟨hfresh, hadd⟩ := DbIndex.fresh_of_sorted .new index rfl
  have hcontent : file d (filePath typeName F folder) = some (encodeEntries index.entries ++ []) := by
    rw [List.append_nil, ← encodeIndex_eq]
    exact hfile
  have h := load_entries hfits.size_lt hfits.short hfresh hd hcontent
  rwa [hadd] at h

end

end Index

/-! ### All indices -/

namespace Indices
variable {F : IndexedField} {Fs : List IndexedField}

/-- `P` of every index. -/
def All (P : (F : IndexedField) → DbIndex F → Prop) (indices : Indices Fs) : Prop :=
  ∀ i, P (Fs.get i) (indices.indexForField i)

theorem all_cons {P : (F : IndexedField) → DbIndex F → Prop} {index : DbIndex F} {rest : Indices Fs} :
    (cons index rest).All P ↔ P F index ∧ rest.All P := by
  constructor
  · intro h
    exact ⟨h ⟨0, Nat.succ_pos _⟩, fun i => h i.succ⟩
  · rintro ⟨hindex, hrest⟩ ⟨_ | i, hi⟩
    · exact hindex
    · exact hrest ⟨i, Nat.lt_of_succ_lt_succ hi⟩

/-- Every index fits into its file. -/
def Fits (indices : Indices Fs) : Prop := indices.All fun _ index => index.Fits

theorem nodup_of_sanityCheck (h : sanityCheck Fs = true) : (Fs.map IndexedField.field).Nodup := by
  simp only [sanityCheck, List.all_eq_true, beq_iff_eq] at h
  refine List.nodup_iff_count_eq_one.2 fun f hf => ?_
  obtain ⟨F, hF, rfl⟩ := List.mem_map.1 hf
  exact h F hF

/-- Different index types have different normalized names. -/
def NamesDiffer (typeName : Field → String) (Fs : List IndexedField) : Prop :=
  ∀ F ∈ Fs, ∀ G ∈ Fs, F.field ≠ G.field →
    Index.normalizedFileName (typeName F.field) ≠ Index.normalizedFileName (typeName G.field)

theorem filePath_inj {typeName : Field → String} {folder : String} {G : IndexedField}
    (h : Index.filePath typeName F folder = Index.filePath typeName G folder) :
    Index.normalizedFileName (typeName F.field) = Index.normalizedFileName (typeName G.field) :=
  (String.append_right_inj _).1 ((String.append_left_inj _).1 h)

theorem nodup_filePath {typeName : Field → String} (hcheck : sanityCheck Fs = true)
    (hnames : NamesDiffer typeName Fs) (folder : String) :
    (Fs.map fun F => Index.filePath typeName F folder).Nodup := by
  refine List.pairwise_map.2 (((List.pairwise_map.1 (nodup_of_sanityCheck hcheck))).imp_of_mem ?_)
  intro F G hF hG hne heq
  exact hnames F hF G hG hne (filePath_inj heq)

section
variable {A : Type} [StorageAdapter A] [FileAdapter A] [Sha3Hasher] {typeName : Field → String} {folder : String}
open FileAdapter (Closed file)

/-- Every index has its file. -/
def Stored (typeName : Field → String) (folder : String) (d : A) (indices : Indices Fs) : Prop :=
  indices.All fun F index => file d (Index.filePath typeName F folder) = some (Index.encodeIndex index)

omit [FileAdapter A] in
theorem storeEach_false (indices : Indices Fs) (d : A) :
    ((storeEach typeName folder indices false).run d).1 ≠ .ret true := by
  induction indices generalizing d with
  | nil =>
    intro h
    cases h
  | cons index rest ih =>
    rw [storeEach]
    rcases hstore : (Index.store typeName index folder).run d with ⟨path | _ | m | _, d₁⟩
    · rw [Proc.run_bind_of_ret (Proc.run_attempt_of_ret hstore)]
      exact ih d₁
    · rw [Proc.run_bind_of_ret (Proc.run_attempt_of_fail hstore)]
      exact ih d₁
    · rw [Proc.run_bind_of_abort (Proc.run_attempt_of_abort hstore)]
      intro h
      cases h
    · rw [Proc.run_bind_of_outOfFuel (Proc.run_attempt_of_outOfFuel hstore)]
      intro h
      cases h

theorem storeEach_true {indices : Indices Fs} (hpaths : (Fs.map fun F => Index.filePath typeName F folder).Nodup)
    {d d' : A} (hd : Closed d) (hrun : (storeEach typeName folder indices true).run d = (.ret true, d')) :
    Closed d' ∧ indices.Stored typeName folder d' ∧
      ∀ q ∉ Fs.map fun F => Index.filePath typeName F folder, file d' q = file d q := by
  induction indices generalizing d with
  | nil =>
    cases hrun
    exact ⟨hd, fun i => i.elim0, fun _ _ => rfl⟩
  | @cons F Fs index rest ih =>
    obtain ⟨hnot, hpaths'⟩ := List.nodup_cons.1 hpaths
    rw [storeEach] at hrun
    rcases hstore : (Index.store typeName index folder).run d with ⟨path | _ | m | _, d₁⟩
    · rw [Proc.run_bind_of_ret (Proc.run_attempt_of_ret hstore)] at hrun
      obtain ⟨hclosed₁, hfile₁, hother₁⟩ := Index.store_ret hd hstore
      obtain ⟨hclosed, hrest, hother⟩ := ih hpaths' hclosed₁ hrun
      refine ⟨hclosed, all_cons.2 ⟨?_, hrest⟩, fun q hq => ?_⟩
      · rw [hother _ hnot, hfile₁]
      · obtain ⟨hne, hq'⟩ := not_or.1 (List.mem_cons.not.1 hq)
        rw [hother q hq', hother₁ q hne]
    · rw [Proc.run_bind_of_ret (Proc.run_attempt_of_fail hstore)] at hrun
      exact absurd (congrArg Prod.fst hrun) (storeEach_false rest d₁)
    · rw [Proc.run_bind_of_abort (Proc.run_attempt_of_abort hstore)] at hrun
      cases hrun
    · rw [Proc.run_bind_of_outOfFuel (Proc.run_attempt_of_outOfFuel hstore)] at hrun
      cases hrun

theorem store_ret {indices : Indices Fs} (hpaths : (Fs.map fun F => Index.filePath typeName F folder).Nodup)
    {d d' : A} (hd : Closed d) (hrun : (indices.store typeName folder).run d = (.ret (), d')) :
    Closed d' ∧ indices.Stored typeName folder d' := by
  rw [store] at hrun
  rcases heach : (storeEach typeName folder indices true).run d with ⟨success | _ | m | _, d₁⟩
  · rw [Proc.run_bind_of_ret heach] at hrun
    cases success with
    | false =>
      rw [Proc.run_require_neg Bool.false_ne_true] at hrun
      cases hrun
    | true =>
      rw [Proc.run_require_pos rfl] at hrun
      cases hrun
      obtain ⟨hclosed, hstored, -⟩ := storeEach_true hpaths hd heach
      exact ⟨hclosed, hstored⟩
  · rw [Proc.run_bind_of_fail heach] at hrun
    cases hrun
  · rw [Proc.run_bind_of_abort heach] at hrun
    cases hrun
  · rw [Proc.run_bind_of_outOfFuel heach] at hrun
    cases hrun

theorem loadEach_ret {indices : Indices Fs} (hfits : indices.Fits) {d : A} (hd : Closed d)
    (hstored : indices.Stored typeName folder d) :
    ∃ d', (loadEach typeName folder Fs true).run ⟨.new Fs, d⟩ = (.ret true, ⟨indices, d'⟩) := by
  induction indices generalizing d with
  | nil => exact ⟨d, rfl⟩
  | @cons F Fs index rest ih =>
    obtain ⟨hindex, hrest⟩ := all_cons.1 hfits
    obtain ⟨hfile, hfiles⟩ := all_cons.1 hstored
    obtain ⟨d₁, hload, hclosed₁, hsame⟩ := Index.load_ret hindex hd hfile
    obtain ⟨d₂, hloads⟩ := ih hrest hclosed₁ (fun i => by rw [hsame]; exact hfiles i)
    have hhead : (onHead (Index.load typeName F folder).attempt).run ⟨.new (F :: Fs), d⟩ =
        (.ret (some (Index.filePath typeName F folder)), ⟨cons index (.new Fs), d₁⟩) := by
      rw [onHead, Proc.run_zoom]
      simp only [new, head, tail, Proc.run_attempt_of_ret hload]
    refine ⟨d₂, ?_⟩
    rw [loadEach, Proc.run_bind_of_ret hhead, onTail, Proc.run_zoom]
    simp only [head, tail, Option.isSome_some, Bool.and_self, hloads]

/-- **Index persistence round trip.** -/
theorem load_store (indices : Indices Fs) (hcheck : sanityCheck Fs = true) (hnames : NamesDiffer typeName Fs)
    (hfits : indices.Fits) {d d' : A} (hd : Closed d)
    (hstore : (indices.store typeName folder).run d = (.ret (), d')) {reader : A} (hreader : Closed reader)
    (hfiles : file reader = file d') :
    ∃ l, (load typeName Fs folder).run ⟨.new Fs, reader⟩ = (.ret (), l) ∧ l.target = indices ∧
      ∀ i key, l.target.findKey i key = indices.findKey i key := by
  obtain ⟨-, hstored⟩ := store_ret (nodup_filePath hcheck hnames folder) hd hstore
  obtain ⟨d₁, hload⟩ := loadEach_ret hfits hreader (fun i => by rw [hfiles]; exact hstored i)
  refine ⟨⟨indices, d₁⟩, ?_, rfl, fun _ _ => rfl⟩
  rw [load, Proc.run_bind_of_ret hload, Proc.run_require_pos rfl]

end

/-- The order of the values that have a rank; one without is neither less nor greater than any. -/
def lessBy {α β : Type} [LT β] [DecidableLT β] (rank : α → Option β) (a b : α) : Bool :=
  match rank a, rank b with
  | some x, some y => x < y
  | _, _ => false

theorem lessBy_eq_true {α β : Type} [LT β] [DecidableLT β] {rank : α → Option β} {a b : α} :
    lessBy rank a b = true ↔ ∃ x y, rank a = some x ∧ rank b = some y ∧ x < y := by
  unfold lessBy
  cases rank a <;> cases rank b <;> simp

theorem lessBy_irrefl {α β : Type} [Preorder β] [DecidableLT β] (rank : α → Option β) (a : α) :
    lessBy rank a a = false := by
  refine Bool.eq_false_iff.2 fun h => ?_
  obtain ⟨x, y, hx, hy, hlt⟩ := lessBy_eq_true.1 h
  exact hlt.ne (Option.some.inj (hx.symm.trans hy))

theorem lessBy_trans {α β : Type} [Preorder β] [DecidableLT β] (rank : α → Option β) (a b c : α)
    (hab : lessBy rank a b = true) (hbc : lessBy rank b c = true) : lessBy rank a c = true := by
  obtain ⟨x, y, hx, hy, hxy⟩ := lessBy_eq_true.1 hab
  obtain ⟨y', z, hy', hz, hyz⟩ := lessBy_eq_true.1 hbc
  cases hy.symm.trans hy'
  exact lessBy_eq_true.2 ⟨x, z, hx, hz, hxy.trans hyz⟩

/-- Numbers of a byte. -/
def byteField : IndexedField where
  field := ⟨.trivial "uint8_t" 1, 1, false⟩
  lt := lessBy fun v : Raw 1 => some (leNat v.1)
  irrefl := lessBy_irrefl _
  trans := lessBy_trans _
  isKey := rfl

/-- Strings, in the order of their characters. -/
def stringField : IndexedField where
  field := ⟨.string, 0, false⟩
  lt := lessBy fun s : Bytes => some (s.map UInt8.toNat)
  irrefl := lessBy_irrefl _
  trans := lessBy_trans _
  isKey := rfl

/-- The numbers that the bytes of a `float` stand for, in the order of the numbers; NaN has no rank. -/
def floatRank (v : Raw 4) : Option ℤ :=
  let magnitude : ℕ := leNat v.1 % 2 ^ 31
  if 0x7F800000 < magnitude then none
  else if leNat v.1 < 2 ^ 31 then some magnitude
  else some (-magnitude)

def floatField : IndexedField where
  field := ⟨.trivial "float" 4, 2, false⟩
  lt := lessBy floatRank
  irrefl := lessBy_irrefl _
  trans := lessBy_trans _
  isKey := rfl

def twoIndices : Indices [byteField, stringField] :=
  cons ⟨[(⟨[1], rfl⟩, ⟨leBytes 5 7, rfl⟩), (⟨[2], rfl⟩, ⟨leBytes 5 3, rfl⟩)], by decide⟩
    (cons ⟨[([97, 98], ⟨leBytes 5 300, rfl⟩)], List.pairwise_singleton ..⟩ nil)

open ByteSum in
theorem load_store_twoIndices : ∃ d : FopenAdapter 64,
    (twoIndices.store (fun field => if field.type = .string then "Fs" else "F1") ".").run
      { files := fun _ => none } = (.ret (), d) ∧
    ∃ l, (load (fun field => if field.type = .string then "Fs" else "F1") [byteField, stringField] ".").run
        ⟨.new _, d⟩ = (.ret (), l) ∧ l.target = twoIndices ∧
      ∀ i key, l.target.findKey i key = twoIndices.findKey i key := by
  have hcheck : sanityCheck [byteField, stringField] = true := by decide
  have hnames : NamesDiffer (fun field => if field.type = .string then "Fs" else "F1") [byteField, stringField] := by
    intro F hF G hG
    simp only [List.mem_cons, List.not_mem_nil, or_false] at hF hG
    rcases hF with rfl | rfl <;> rcases hG with rfl | rfl <;> decide
  have hfits : twoIndices.Fits := by
    refine all_cons.2 ⟨⟨by decide, fun e he => trivial⟩, all_cons.2 ⟨⟨by decide, ?_⟩, fun i => i.elim0⟩⟩
    intro e he
    cases List.mem_singleton.1 he
    exact ⟨by decide, fun _ _ => trivial⟩
  have hret : ((twoIndices.store (fun field => if field.type = .string then "Fs" else "F1") ".").run
      ({ files := fun _ => none } : FopenAdapter 64)).1 = .ret () := by decide +kernel
  obtain ⟨d, hstore⟩ := Proc.exists_run_eq hret
  refine ⟨d, hstore, ?_⟩
  have hempty : FileAdapter.Closed ({ files := fun _ => none } : FopenAdapter 64) := rfl
  have hclosed := (store_ret (nodup_filePath hcheck hnames ".") hempty hstore).1
  exact load_store twoIndices hcheck hnames hfits hempty hstore hclosed rfl

end Indices

end CppDb
