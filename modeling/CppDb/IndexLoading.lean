import CppDb.IndexPersistence
import CppDb.MapLoading

/-!
# Loading indices whose files may be damaged

`Index::load` adds each entry as it reads it, aborts at a key that is equivalent to one that is there, and compares the
hash at the end; `Indices::load` goes on after an index that failed. `Index.load_spec` says what one index comes to for
any content of its file, `Indices.loadEach_spec` what they all come to.
-/

namespace CppDb
open Embed

namespace DbIndex
variable {F : IndexedField} {index : DbIndex F} {es : List (F.Key × PageNumber)}

theorem mem_addAll (h : index.Fresh es) (x : F.Key × PageNumber) :
    x ∈ (index.addAll es).entries ↔ x ∈ index.entries ∨ x ∈ es := by
  induction es generalizing index with
  | nil => simp [addAll]
  | cons e es ih =>
    have hmem := (addLocationForKey_new e.2 h.1).2 x
    refine (ih h.2).trans ?_
    rw [hmem, List.mem_cons, or_comm (a := x = (e.1, e.2)), or_assoc]

theorem addAll_new_eq_nil (h : DbIndex.new.Fresh es) : (DbIndex.new.addAll es).entries = [] ↔ es = [] := by
  rw [List.eq_nil_iff_forall_not_mem, List.eq_nil_iff_forall_not_mem]
  refine forall_congr' fun x => not_congr ?_
  rw [mem_addAll h]
  exact or_iff_right List.not_mem_nil

theorem fresh_iff : index.Fresh es ↔ es.Pairwise (fun x y => ¬ x.1.Equivalent y.1) ∧
    ∀ e ∈ es, ∀ x ∈ index.entries, ¬ x.1.Equivalent e.1 := by
  induction es generalizing index with
  | nil => simp [Fresh]
  | cons e es ih =>
    rw [List.pairwise_cons, List.forall_mem_cons]
    constructor
    · rintro ⟨hnew, hfresh⟩
      obtain ⟨hpairs, hothers⟩ := ih.1 hfresh
      have hmem := (addLocationForKey_new e.2 hnew).2
      exact ⟨⟨fun q hq => hothers q hq (e.1, e.2) ((hmem _).2 (.inl rfl)), hpairs⟩, hnew,
        fun q hq x hx => hothers q hq x ((hmem x).2 (.inr hx))⟩
    · rintro ⟨⟨he, hpairs⟩, hnew, hothers⟩
      have hmem := (addLocationForKey_new e.2 hnew).2
      refine ⟨hnew, ih.2 ⟨hpairs, fun q hq x hx => ?_⟩⟩
      rcases (hmem x).1 hx with rfl | hx
      · exact he q hq
      · exact hothers q hq x hx

theorem fresh_new_iff : DbIndex.new.Fresh es ↔ es.Pairwise fun x y => ¬ x.1.Equivalent y.1 := by
  rw [fresh_iff]
  exact and_iff_left fun _ _ _ hx => absurd hx List.not_mem_nil

end DbIndex

namespace Index
variable {F : IndexedField}

/-! ### Entries in bytes -/

/-- A complete entry comes first. -/
def Starts (F : IndexedField) (bs : Bytes) : Prop :=
  ∃ (e : F.Key × PageNumber) (rest : Bytes), F.field.valueType.Short e.1 ∧ bs = encodeEntry e ++ rest

/-- Up to `n` entries with new keys come first: all of them, or those before the end of the complete ones, or those
before a key that is equivalent to one that is there. -/
theorem exists_entries (n : ℕ) (bs : Bytes) (index : DbIndex F) :
    ∃ (es : List (F.Key × PageNumber)) (tail : Bytes), bs = (es.map encodeEntry).flatten ++ tail ∧ index.Fresh es ∧
      (∀ e ∈ es, F.field.valueType.Short e.1) ∧ (es.length = n ∨ es.length < n ∧ (¬ Starts F tail ∨
        ∃ (e : F.Key × PageNumber) (rest : Bytes), F.field.valueType.Short e.1 ∧ tail = encodeEntry e ++ rest ∧
          ∃ x ∈ (index.addAll es).entries, x.1.Equivalent e.1)) := by
  induction n generalizing bs index with
  | zero => exact ⟨[], bs, rfl, trivial, fun _ he => absurd he List.not_mem_nil, .inl rfl⟩
  | succ n ih =>
    by_cases hstarts : Starts F bs
    · obtain ⟨e, rest, he, rfl⟩ := hstarts
      by_cases hnew : ∀ x ∈ index.entries, ¬ x.1.Equivalent e.1
      · obtain ⟨es, tail, rfl, hfresh, hshort, hcase⟩ := ih rest (index.addLocationForKey e.1 e.2).2
        refine ⟨e :: es, tail, ?_, ⟨hnew, hfresh⟩, List.forall_mem_cons.2 ⟨he, hshort⟩, ?_⟩
        · rw [List.map_cons, List.flatten_cons, List.append_assoc]
        · rw [List.length_cons, Nat.add_right_cancel_iff, Nat.add_lt_add_iff_right]
          exact hcase
      · push Not at hnew
        exact ⟨[], _, rfl, trivial, fun _ he => absurd he List.not_mem_nil,
          .inr ⟨Nat.succ_pos n, .inr ⟨e, rest, he, rfl, hnew⟩⟩⟩
    · exact ⟨[], bs, rfl, trivial, fun _ he => absurd he List.not_mem_nil, .inr ⟨Nat.succ_pos n, .inl hstarts⟩⟩

section
variable {A : Type} [StorageAdapter A] [FileReader A] {es : List (F.Key × PageNumber)} {tail : Bytes} {n : ℕ}
  {index : DbIndex F}
open FileAdapter (Closed Reading file)

theorem run_readString_fail {d : A} (hd : Reading d tail) (h : ¬ ∃ (str rest : Bytes), str.length < 2 ^ 32 ∧
    tail = encodeString str ++ rest) :
    ∃ d' rest, StorageIo.readString.run d = (.fail, d') ∧ Reading d' rest ∧ file d' = file d := by
  by_cases hlength : tail.length < 4
  · obtain ⟨d', hcall, hd'⟩ := FileReader.read_none hd hlength
    exact ⟨d', [], Proc.run_bind_of_fail (Proc.run_ofCall_none hcall), hd'⟩
  · obtain ⟨size, rest, rfl⟩ := exists_raw (Nat.not_lt.1 hlength)
    obtain ⟨d₁, hcall, hd₁, hfile₁⟩ := FileAdapter.read hd
    have hshort : rest.length < leNat size.1 := by
      refine Nat.not_le.1 fun hle => h ?_
      obtain ⟨str, rest, rfl⟩ := exists_raw hle
      have hlt : str.1.length < 2 ^ 32 := by
        rw [str.2]
        exact leNat_raw_lt size
      refine ⟨str.1, rest, hlt, ?_⟩
      rw [encodeString, Nat.mod_eq_of_lt hlt, List.take_length, str.2, leBytes_of_raw, List.append_assoc]
    obtain ⟨d₂, hcall₂, hd₂, hfile₂⟩ := FileReader.read_none hd₁ hshort
    refine ⟨d₂, [], ?_, hd₂, hfile₂.trans hfile₁⟩
    have hread : (StorageIo.read 4).run d = (.ret size, d₁) := Proc.run_ofCall_some hcall
    rw [StorageIo.readString, Proc.run_bind_of_ret hread]
    exact Proc.run_bind_of_fail (Proc.run_ofCall_none hcall₂)

theorem stops_readKey {T : Type} {t : T} (h : ¬ ∃ (key : F.Key) (rest : Bytes), F.field.valueType.Short key ∧
    tail = encodeValue F.field.valueType key ++ rest) :
    Stops (A := A) (Loading.onStorage (StorageIo.readValue F.field.valueType)) tail t t none := by
  have hread : ∀ type : ValueType, type.isKey = true → (¬ ∃ (v : type.Value) (rest : Bytes), type.Short v ∧
      tail = encodeValue type v ++ rest) →
      Stops (A := A) (Loading.onStorage (StorageIo.readValue type)) tail t t none := by
    intro type htype hnone
    cases type with
    | trivial name size =>
      refine Stops.read (Nat.not_le.1 fun hle => hnone ?_)
      obtain ⟨v, rest, hsplit⟩ := exists_raw hle
      exact ⟨v, rest, trivial, hsplit⟩
    | string =>
      refine Stops.onStorage fun d hd => run_readString_fail hd ?_
      rintro ⟨str, rest, hlt, hsplit⟩
      exact hnone ⟨str, rest, ⟨hlt, fun _ _ => trivial⟩, hsplit⟩
    | vector item => cases htype
  exact hread _ F.isKey h

theorem stops_after_entries {index' : DbIndex F} {message : Option String} (hasher : List Bytes)
    (hfresh : index.Fresh es) (hshort : ∀ e ∈ es, F.field.valueType.Short e.1)
    (hrest : ∀ hasher, Stops (A := A) (loadEntries n hasher) tail (index.addAll es) index' message) :
    Stops (A := A) (loadEntries (es.length + n) hasher) ((es.map encodeEntry).flatten ++ tail) index index'
      message := by
  induction es generalizing hasher index with
  | nil =>
    rw [List.length_nil, Nat.zero_add]
    exact hrest hasher
  | cons e es ih =>
    obtain ⟨key, location⟩ := e
    have hadded := (DbIndex.addLocationForKey_new location hfresh.1).1
    have hrun := run_addOrAbort (Prod.ext hadded rfl : index.addLocationForKey key location = (true, _))
    have h := ih (hasher ++ [F.field.valueType.updateBytes key, location.1]) hfresh.2
      (fun e he => hshort e (List.mem_cons_of_mem _ he)) hrest
    have hkey : F.field.valueType.Short key := hshort (key, location) (List.mem_cons_self ..)
    rw [List.length_cons, Nat.add_right_comm, List.map_cons, List.flatten_cons, encodeEntry, List.append_assoc,
      List.append_assoc]
    exact Stops.after (Loads.onStorage (decodes_readValue _ key hkey))
      (Stops.after (Loads.onStorage (Decodes.read location)) (Stops.of_eq (Stops.after (Loads.onTarget hrun) h) rfl))

theorem stops_incomplete (hasher : List Bytes) (h : ¬ Starts F tail) :
    Stops (A := A) (loadEntries (n + 1) hasher) tail index index none := by
  by_cases hkey : ∃ (key : F.Key) (rest : Bytes), F.field.valueType.Short key ∧
      tail = encodeValue F.field.valueType key ++ rest
  · obtain ⟨key, rest, hshort, rfl⟩ := hkey
    have hlength : rest.length < 5 := by
      refine Nat.not_le.1 fun hle => h ?_
      obtain ⟨location, rest, rfl⟩ := exists_raw hle
      exact ⟨(key, location), rest, hshort, (List.append_assoc ..).symm⟩
    exact Stops.after (Loads.onStorage (decodes_readValue _ key hshort)) (Stops.read hlength).bind
  · exact (stops_readKey hkey).bind

theorem stops_duplicate {e : F.Key × PageNumber} (hasher : List Bytes) (rest : Bytes)
    (hshort : F.field.valueType.Short e.1) (hdup : ∃ x ∈ index.entries, x.1.Equivalent e.1) :
    Stops (A := A) (loadEntries (n + 1) hasher) (encodeEntry e ++ rest) index index
      (some "Failed to add key to index!") := by
  have hsame : index.addLocationForKey e.1 e.2 = (false, index) := by
    unfold DbIndex.addLocationForKey
    rw [dif_neg]
    push Not
    exact hdup
  have hrun : (addOrAbort e.1 e.2).run index = (.abort "Failed to add key to index!", index) := by
    rw [addOrAbort, Proc.run_read_bind, hsame]
    rfl
  rw [encodeEntry, List.append_assoc]
  exact Stops.after (Loads.onStorage (decodes_readValue _ e.1 hshort))
    (Stops.after (Loads.onStorage (Decodes.read e.2)) (Stops.onTarget hrun rfl).bind)

variable [Sha3Hasher]

omit [FileReader A] in
/-- `load` once the file is open. -/
def loadOpened (typeName : Field → String) (F : IndexedField) (folder : String) :
    Proc (Loading (DbIndex F) A) String := do
  let numIndexEntries ← Loading.onStorage (StorageIo.read 8)
  let hasher ← loadEntries (leNat numIndexEntries.1) [numIndexEntries.1]
  let hash ← Loading.onStorage (StorageIo.read 8)
  .require (Sha3Hasher.get64BitHash hasher = Raw.toUInt64 hash)
  return filePath typeName F folder

omit [StorageAdapter A] [FileReader A] in
/-- The file of entries no two of which have equivalent keys, and perhaps more bytes. -/
def Good (F : IndexedField) (content : Option Bytes) : Prop :=
  ∃ (es : List (F.Key × PageNumber)) (tail : Bytes), es.length < 2 ^ 64 ∧ (∀ e ∈ es, F.field.valueType.Short e.1) ∧
    es.Pairwise (fun x y => ¬ x.1.Equivalent y.1) ∧ content = some (encodeEntries es ++ tail)

omit [StorageAdapter A] [FileReader A] in
/-- The index has the entries of the file, and their hash is there. -/
def Holds (content : Option Bytes) (index : DbIndex F) : Prop :=
  ∃ (es : List (F.Key × PageNumber)) (tail : Bytes), es.length < 2 ^ 64 ∧ (∀ e ∈ es, F.field.valueType.Short e.1) ∧
    content = some (encodeEntries es ++ tail) ∧ ∀ e, e ∈ index.entries ↔ e ∈ es

/-- No entry is read: there is no file or no count, or the count is 0, or the first entry is not complete. -/
def Blank (F : IndexedField) (content : Option Bytes) : Prop :=
  ∀ bs ∈ content, bs.length < 8 ∨ leNat (bs.take 8) = 0 ∨ ¬ Starts F (bs.drop 8)

/-- What loading one index comes to: whether it returned, and the index. -/
structure Loaded (content : Option Bytes) (x : Exit String) (index : DbIndex F) : Prop where
  result : (∃ path, x = .ret path) ∧ Good F content ∧ Holds content index ∨
    ∃ message, x = stopped message ∧ ¬ Good F content ∧ (message ≠ none → ¬ Blank F content)
  empty_iff : index.entries = [] ↔ Blank F content

omit [StorageAdapter A] [FileReader A] [Sha3Hasher] in
theorem starts_entries (hshort : ∀ e ∈ es, F.field.valueType.Short e.1) (hne : es ≠ []) (tail : Bytes) :
    Starts F ((es.map encodeEntry).flatten ++ tail) := by
  obtain ⟨e, es, rfl⟩ := List.exists_cons_of_ne_nil hne
  refine ⟨e, (es.map encodeEntry).flatten ++ tail, hshort e (List.mem_cons_self ..), ?_⟩
  rw [List.map_cons, List.flatten_cons, List.append_assoc]

omit [StorageAdapter A] [FileReader A] [Sha3Hasher] in
theorem blank_iff {n : ℕ} (tail : Bytes) (hn : n < 2 ^ 64) (hshort : ∀ e ∈ es, F.field.valueType.Short e.1)
    (hle : es.length ≤ n) (hnone : es = [] → n = 0 ∨ ¬ Starts F tail) :
    Blank F (some (leBytes 8 n ++ ((es.map encodeEntry).flatten ++ tail))) ↔ es = [] := by
  have hlength : (leBytes 8 n).length = 8 := length_leBytes 8 n
  have hcount : leNat (leBytes 8 n) = n := leNat_leBytes_of_lt hn
  unfold Blank
  simp only [Option.mem_def, Option.some.injEq, forall_eq', List.take_left' hlength, List.drop_left' hlength, hcount]
  constructor
  · intro h
    by_contra hne
    rcases h with hlt | hzero | hstarts
    · rw [List.length_append, hlength] at hlt
      omega
    · exact hne (List.eq_nil_of_length_eq_zero (by omega))
    · exact hstarts (starts_entries hshort hne tail)
  · rintro rfl
    exact .inr (hnone rfl)

variable {typeName : Field → String} {folder : String} {d : A}

theorem not_good_of_run {message : Option String} {l : Loading (DbIndex F) A} (hd : Closed d)
    (hrun : (load typeName F folder).run ⟨.new, d⟩ = (stopped message, l)) :
    ¬ Good F (file d (filePath typeName F folder)) := by
  rintro ⟨es, tail, hsize, hshort, hpairs, hfile⟩
  obtain ⟨d', hret, -⟩ := load_entries hsize hshort (DbIndex.fresh_new_iff.2 hpairs) hd hfile
  rw [hret] at hrun
  cases message <;> cases hrun

theorem exists_loaded_of_stops {bs : Bytes} {index : DbIndex F} {message : Option String}
    (hbody : Stops (A := A) (loadOpened typeName F folder) bs DbIndex.new index message)
    (hempty : index.entries = [] ↔ Blank F (some bs)) (hmessage : message ≠ none → ¬ Blank F (some bs))
    (hd : Closed d) (hfile : file d (filePath typeName F folder) = some bs) :
    ∃ x index d', (load typeName F folder).run ⟨.new, d⟩ = (x, ⟨index, d'⟩) ∧ Closed d' ∧ file d' = file d ∧
      Loaded (file d (filePath typeName F folder)) x index := by
  obtain ⟨d', hrun, hclosed, hsame⟩ := closing_stops hbody hd hfile
  have hload : (load typeName F folder).run ⟨.new, d⟩ = (stopped message, ⟨index, d'⟩) := hrun
  have hbad := not_good_of_run hd hload
  rw [hfile] at hbad ⊢
  exact ⟨_, index, d', hload, hclosed, hsame, .inr ⟨message, rfl, hbad, hmessage⟩, hempty⟩

theorem exists_loaded_of_entries (count : Raw 8) (hfresh : DbIndex.new.Fresh es)
    (hshort : ∀ e ∈ es, F.field.valueType.Short e.1) (hall : es.length = leNat count.1) (hd : Closed d)
    (hfile : file d (filePath typeName F folder) = some (count.1 ++ ((es.map encodeEntry).flatten ++ tail))) :
    ∃ x index d', (load typeName F folder).run ⟨.new, d⟩ = (x, ⟨index, d'⟩) ∧ Closed d' ∧ file d' = file d ∧
      Loaded (file d (filePath typeName F folder)) x index := by
  have hsize : es.length < 2 ^ 64 := by
    rw [hall]
    exact leNat_raw_lt count
  have hback : leBytes 8 es.length = count.1 := by
    rw [hall]
    exact leBytes_of_raw count
  have hblank := blank_iff tail hsize hshort Nat.le.refl fun hnil => .inl (congrArg List.length hnil)
  rw [hback] at hblank
  have hempty := (DbIndex.addAll_new_eq_nil hfresh).trans hblank.symm
  have hloop := loads_loadEntries (A := A) [count.1] hfresh hshort
  rw [hall] at hloop
  by_cases htail : tail.length < 8
  · exact exists_loaded_of_stops (Stops.after (Loads.onStorage (Decodes.read count))
      (Stops.after hloop (Stops.read htail).bind)) hempty (fun hne => absurd rfl hne) hd hfile
  obtain ⟨hash, tail, rfl⟩ := exists_raw (Nat.not_lt.1 htail)
  by_cases hhash : Sha3Hasher.get64BitHash ([count.1] ++ entryUpdates es) = hash.toUInt64
  · have hsame : entriesHash es = hash.toUInt64 := by rw [entriesHash, hback, hhash]
    have hcontent : file d (filePath typeName F folder) = some (encodeEntries es ++ tail) := by
      rw [hfile, encodeEntries, hsame, hback, uint64Bytes_toUInt64, List.append_assoc, List.append_assoc]
    obtain ⟨d', hrun, hclosed, hfiles⟩ := load_entries hsize hshort hfresh hd hcontent
    have hmem : ∀ e, e ∈ (DbIndex.new.addAll es).entries ↔ e ∈ es := fun e =>
      (DbIndex.mem_addAll hfresh e).trans (or_iff_right List.not_mem_nil)
    refine ⟨_, _, d', hrun, hclosed, hfiles, .inl ⟨⟨_, rfl⟩, ?_, ?_⟩, ?_⟩
    · exact ⟨es, tail, hsize, hshort, DbIndex.fresh_new_iff.1 hfresh, hcontent⟩
    · exact ⟨es, tail, hsize, hshort, hcontent, hmem⟩
    · rw [hfile]
      exact hempty
  · exact exists_loaded_of_stops (Stops.after (Loads.onStorage (Decodes.read count))
      (Stops.after hloop (Stops.after (Loads.onStorage (Decodes.read hash)) (Stops.require hhash).bind)))
      hempty (fun hne => absurd rfl hne) hd hfile

/-- A count and fewer entries with new keys: no complete entry follows, or one whose key is equivalent to
one that is there. -/
theorem exists_loaded_of_fewer (count : Raw 8) (hfresh : DbIndex.new.Fresh es)
    (hshort : ∀ e ∈ es, F.field.valueType.Short e.1) (hlt : es.length < leNat count.1)
    (hrest : ¬ Starts F tail ∨ ∃ (e : F.Key × PageNumber) (rest : Bytes), F.field.valueType.Short e.1 ∧
      tail = encodeEntry e ++ rest ∧ ∃ x ∈ (DbIndex.new.addAll es).entries, x.1.Equivalent e.1) (hd : Closed d)
    (hfile : file d (filePath typeName F folder) = some (count.1 ++ ((es.map encodeEntry).flatten ++ tail))) :
    ∃ x index d', (load typeName F folder).run ⟨.new, d⟩ = (x, ⟨index, d'⟩) ∧ Closed d' ∧ file d' = file d ∧
      Loaded (file d (filePath typeName F folder)) x index := by
  obtain ⟨n, hcount⟩ : ∃ n, leNat count.1 = es.length + (n + 1) := Nat.exists_eq_add_of_lt hlt
  have hnil : es = [] → leNat count.1 = 0 ∨ ¬ Starts F tail := by
    intro hnil
    rcases hrest with hstarts | ⟨e, rest, -, -, x, hx, -⟩
    · exact .inr hstarts
    · subst hnil
      exact absurd hx List.not_mem_nil
  have hblank := blank_iff tail (leNat_raw_lt count) hshort (Nat.le_of_lt hlt) hnil
  rw [leBytes_of_raw count] at hblank
  have hempty := (DbIndex.addAll_new_eq_nil hfresh).trans hblank.symm
  rcases hrest with hstarts | ⟨e, rest, he, rfl, hdup⟩
  · have hloop := stops_after_entries (A := A) (n := n + 1) [count.1] hfresh hshort
      fun hasher => stops_incomplete hasher hstarts
    rw [← hcount] at hloop
    exact exists_loaded_of_stops (Stops.after (Loads.onStorage (Decodes.read count)) hloop.bind) hempty
      (fun hne => absurd rfl hne) hd hfile
  · have hloop := stops_after_entries (A := A) (n := n + 1) [count.1] hfresh hshort
      fun hasher => stops_duplicate hasher rest he hdup
    rw [← hcount] at hloop
    refine exists_loaded_of_stops (Stops.after (Loads.onStorage (Decodes.read count)) hloop.bind) hempty
      (fun _ hnone => ?_) hd hfile
    obtain rfl := hblank.1 hnone
    obtain ⟨x, hx, -⟩ := hdup
    exact List.not_mem_nil hx

/-- Loading one index, whatever its file holds. -/
theorem load_spec (typeName : Field → String) (F : IndexedField) (folder : String) (hd : Closed d) :
    ∃ x index d', (load typeName F folder).run ⟨.new, d⟩ = (x, ⟨index, d'⟩) ∧ Closed d' ∧ file d' = file d ∧
      Loaded (file d (filePath typeName F folder)) x index := by
  rcases hfile : file d (filePath typeName F folder) with _ | bs
  · obtain ⟨d', hrun, hclosed, hsame⟩ :=
      closing_missing (t := DbIndex.new (F := F)) (p := loadOpened typeName F folder) hd hfile
    have hload : (load typeName F folder).run ⟨.new, d⟩ = (stopped none, ⟨.new, d'⟩) := hrun
    have hbad := not_good_of_run hd hload
    have hblank : Blank F none := fun bs hbs => by cases hbs
    rw [hfile] at hbad
    exact ⟨_, .new, d', hload, hclosed, hsame, .inr ⟨none, rfl, hbad, fun hne => absurd rfl hne⟩,
      iff_of_true rfl hblank⟩
  rw [← hfile]
  by_cases hlength : bs.length < 8
  · have hblank : Blank F (some bs) := by
      intro bs' hbs'
      cases hbs'
      exact .inl hlength
    exact exists_loaded_of_stops (Stops.read hlength).bind (iff_of_true rfl hblank) (fun hne => absurd rfl hne) hd hfile
  obtain ⟨count, bs, rfl⟩ := exists_raw (Nat.not_lt.1 hlength)
  obtain ⟨es, tail, rfl, hfresh, hshort, hall | ⟨hlt, hrest⟩⟩ :=
    exists_entries (leNat count.1) bs (DbIndex.new (F := F))
  · exact exists_loaded_of_entries count hfresh hshort hall hd hfile
  · exact exists_loaded_of_fewer count hfresh hshort hlt hrest hd hfile

end

end Index

/-! ### All indices -/

namespace Indices
variable {F : IndexedField} {Fs : List IndexedField} {A : Type}

theorem run_onHead {α : Type} {p : Proc (Loading (DbIndex F) A) α} {index index' : DbIndex F} (rest : Indices Fs)
    {d d' : A} {x : Exit α} (h : p.run ⟨index, d⟩ = (x, ⟨index', d'⟩)) :
    (onHead p).run ⟨cons index rest, d⟩ = (x, ⟨cons index' rest, d'⟩) := by
  rw [onHead, Proc.run_zoom]
  simp only [head, tail, h]

theorem run_onTail {α : Type} {p : Proc (Loading (Indices Fs) A) α} {index : DbIndex F} {rest rest' : Indices Fs}
    {d d' : A} {x : Exit α} (h : p.run ⟨rest, d⟩ = (x, ⟨rest', d'⟩)) :
    (onTail p).run ⟨cons index rest, d⟩ = (x, ⟨cons index rest', d'⟩) := by
  rw [onTail, Proc.run_zoom]
  simp only [head, tail, h]

section
variable [StorageAdapter A] [FileReader A] [Sha3Hasher] {typeName : Field → String} {folder : String}
open FileAdapter (Closed file)

/-- What the loop comes to where `content` has the files: it aborts, or its flag says whether all files were good. -/
def LoadedAll (content : IndexedField → Option Bytes) (success : Bool) (x : Exit Bool) (indices : Indices Fs) : Prop :=
  (∃ m, x = .abort m) ∧ (∃ F ∈ Fs, ¬ Index.Good F (content F) ∧ ¬ Index.Blank F (content F)) ∨
    ∃ b, x = .ret b ∧ (b = true ↔ success = true ∧ ∀ F ∈ Fs, Index.Good F (content F)) ∧
      (b = true → indices.All fun F index => Index.Holds (content F) index) ∧
      (indices.All (fun _ index => index.entries = []) ↔ ∀ F ∈ Fs, Index.Blank F (content F))

omit [StorageAdapter A] [FileReader A] in
theorem loadedAll_cons {content : IndexedField → Option Bytes} {success loaded : Bool} {x : Exit Bool}
    {index : DbIndex F} {rest : Indices Fs} (hgood : loaded = true ↔ Index.Good F (content F))
    (hholds : loaded = true → Index.Holds (content F) index)
    (hempty : index.entries = [] ↔ Index.Blank F (content F)) (hrest : LoadedAll content (success && loaded) x rest) :
    LoadedAll content success x (cons index rest) := by
  rcases hrest with ⟨habort, G, hG, hbad⟩ | ⟨b, rfl, hflag, hall, hblank⟩
  · exact .inl ⟨habort, G, List.mem_cons_of_mem _ hG, hbad⟩
  · refine .inr ⟨b, rfl, ?_, fun hb => ?_, ?_⟩
    · rw [hflag, Bool.and_eq_true, hgood, List.forall_mem_cons, and_assoc]
    · exact all_cons.2 ⟨hholds (Bool.and_eq_true_iff.1 (hflag.1 hb).1).2, hall hb⟩
    · rw [all_cons, List.forall_mem_cons, hempty, hblank]

theorem loadEach_spec (typeName : Field → String) (folder : String) (Fs : List IndexedField) (success : Bool) {d : A}
    (hd : Closed d) :
    ∃ x indices d', (loadEach typeName folder Fs success).run ⟨.new Fs, d⟩ = (x, ⟨indices, d'⟩) ∧
      LoadedAll (fun F => file d (Index.filePath typeName F folder)) success x indices := by
  induction Fs generalizing success d with
  | nil =>
    refine ⟨.ret success, nil, d, rfl, .inr ⟨success, rfl, by simp, fun _ i => i.elim0, ?_⟩⟩
    exact iff_of_true (fun i => i.elim0) fun F hF => absurd hF List.not_mem_nil
  | cons F Fs ih =>
    obtain ⟨x, index, d₁, hload, hclosed, hsame, hresult, hempty⟩ := Index.load_spec typeName F folder hd
    rcases hresult with ⟨⟨path, rfl⟩, hgood, hholds⟩ | ⟨_ | m, rfl, hbad, hblank⟩
    · have hhead := run_onHead (.new Fs) (Proc.run_attempt_of_ret hload)
      obtain ⟨x, rest, d₂, htail, hrest⟩ := ih (success && true) hclosed
      rw [hsame] at hrest
      refine ⟨x, cons index rest, d₂, ?_, loadedAll_cons (iff_of_true rfl hgood) (fun _ => hholds) hempty hrest⟩
      exact (Proc.run_bind_of_ret hhead).trans (run_onTail htail)
    · have hhead := run_onHead (.new Fs) (Proc.run_attempt_of_fail hload)
      obtain ⟨x, rest, d₂, htail, hrest⟩ := ih (success && false) hclosed
      rw [hsame] at hrest
      refine ⟨x, cons index rest, d₂, ?_, loadedAll_cons (iff_of_false Bool.false_ne_true hbad)
        (fun h => absurd h Bool.false_ne_true) hempty hrest⟩
      exact (Proc.run_bind_of_ret hhead).trans (run_onTail htail)
    · have hhead := run_onHead (.new Fs) (Proc.run_attempt_of_abort hload)
      refine ⟨.abort m, cons index (.new Fs), d₁, Proc.run_bind_of_abort hhead, ?_⟩
      exact .inl ⟨⟨m, rfl⟩, F, List.mem_cons_self .., hbad, hblank nofun⟩

omit [StorageAdapter A] [FileReader A] in
/-- Loading ended as a caller counts on: with `true` and the entries of all files, or with `false` and no entries. -/
def LoadSafe (content : IndexedField → Option Bytes) (x : Exit Unit) (indices : Indices Fs) : Prop :=
  (x = .ret () ∧ indices.All fun F index => Index.Holds (content F) index) ∨
    (x = .fail ∧ indices.All fun _ index => index.entries = [])

omit [StorageAdapter A] [FileReader A] [Sha3Hasher] in
theorem eq_new {indices : Indices Fs} (h : indices.All fun _ index => index.entries = []) : indices = new Fs := by
  induction indices with
  | nil => rfl
  | cons index rest ih =>
    obtain ⟨hindex, hrest⟩ := all_cons.1 h
    have hsame : index = .new := DbIndex.ext hindex
    rw [ih hrest, new, hsame]

/-- **Failed index loads.** Loading into indices without entries ends safely exactly if all files are good, or no entry
is read from any. -/
theorem load_safe_iff {indices : Indices Fs} (hnone : indices.All fun _ index => index.entries = []) {d : A}
    (hd : Closed d) :
    LoadSafe (fun F => file d (Index.filePath typeName F folder)) ((load typeName Fs folder).run ⟨indices, d⟩).1
        ((load typeName Fs folder).run ⟨indices, d⟩).2.target ↔
      (∀ F ∈ Fs, Index.Good F (file d (Index.filePath typeName F folder))) ∨
        ∀ F ∈ Fs, Index.Blank F (file d (Index.filePath typeName F folder)) := by
  obtain rfl := eq_new hnone
  obtain ⟨x, indices, d', heach, hall⟩ := loadEach_spec typeName folder Fs true hd
  rcases hall with ⟨⟨m, rfl⟩, F, hF, hbad, hblank⟩ | ⟨_ | _, rfl, hflag, hholds, hempty⟩
  · rw [load, Proc.run_bind_of_abort heach]
    constructor
    · rintro (⟨hret, -⟩ | ⟨hfail, -⟩)
      · cases hret
      · cases hfail
    · rintro (hgood | hblanks)
      · exact absurd (hgood F hF) hbad
      · exact absurd (hblanks F hF) hblank
  · rw [load, Proc.run_bind_of_ret heach, Proc.run_require_neg Bool.false_ne_true]
    constructor
    · rintro (⟨hret, -⟩ | ⟨-, hentries⟩)
      · cases hret
      · exact .inr (hempty.1 hentries)
    · rintro (hgood | hblanks)
      · exact absurd (hflag.2 ⟨rfl, hgood⟩) Bool.false_ne_true
      · exact .inr ⟨rfl, hempty.2 hblanks⟩
  · rw [load, Proc.run_bind_of_ret heach, Proc.run_require_pos rfl]
    exact iff_of_true (.inl ⟨rfl, hholds rfl⟩) (.inl (hflag.1 rfl).2)

end

open ByteSum

/-- The only file of the folder. -/
def indexFile (bs : Bytes) : FopenAdapter 64 :=
  { files := fun path => if path = "./F1.index" then some bs else none }

theorem load_safe_iff_truncated :
    ((load (fun _ => "F1") [byteField] ".").run ⟨.new _, indexFile [1, 2, 3]⟩).1 = .fail := by
  have hempty : (new [byteField]).All fun _ index => index.entries = [] := all_cons.2 ⟨rfl, fun i => i.elim0⟩
  have hclosed : FileAdapter.Closed (indexFile [1, 2, 3]) := rfl
  have hfile : FileAdapter.file (indexFile [1, 2, 3]) (Index.filePath (fun _ => "F1") byteField ".") =
      some [1, 2, 3] := by decide +kernel
  have hblank : ∀ F ∈ [byteField],
      Index.Blank F (FileAdapter.file (indexFile [1, 2, 3]) (Index.filePath (fun _ => "F1") F ".")) := by
    intro F hF bs hbs
    cases List.mem_singleton.1 hF
    rw [hfile] at hbs
    cases hbs
    exact .inl (by decide)
  rcases (load_safe_iff hempty hclosed).2 (.inr hblank) with ⟨hret, hholds⟩ | ⟨hfail, -⟩
  · obtain ⟨es, tail, -, -, hcontent, -⟩ := (all_cons.1 hholds).1
    have hlength := congrArg List.length (Option.some.inj (hfile.symm.trans hcontent))
    simp only [Index.encodeEntries, List.length_append, length_leBytes, List.length_cons, List.length_nil] at hlength
    omega
  · exact hfail

/-- The same key twice. -/
def duplicateKeys : Bytes := leBytes 8 2 ++ ([5] ++ leBytes 5 7 ++ ([5] ++ leBytes 5 9))

/-- The process aborts. -/
theorem not_load_safe : ¬ ∀ (Fs : List IndexedField) (indices : Indices Fs) (typeName : Field → String)
    (folder : String) (d : FopenAdapter 64), (indices.All fun _ index => index.entries = []) → FileAdapter.Closed d →
    LoadSafe (fun F => FileAdapter.file d (Index.filePath typeName F folder))
      ((load typeName Fs folder).run ⟨indices, d⟩).1 ((load typeName Fs folder).run ⟨indices, d⟩).2.target := by
  intro h
  have hsafe := h [byteField] (new _) (fun _ => "F1") "." (indexFile duplicateKeys)
    (all_cons.2 ⟨rfl, fun i => i.elim0⟩) rfl
  have habort : ((load (fun _ => "F1") [byteField] ".").run ⟨.new _, indexFile duplicateKeys⟩).1 =
      .abort "Failed to add key to index!" := by
    decide +kernel
  rw [habort] at hsafe
  rcases hsafe with ⟨hret, -⟩ | ⟨hfail, -⟩
  · cases hret
  · cases hfail

/-- 1 and NaN: `std::map` does not tell them apart, and what follows the entries is their hash. -/
def oneAndNan : List (floatField.Key × PageNumber) :=
  [((⟨[0, 0, 0x80, 0x3F], rfl⟩ : Raw 4), DbStorage.page 7),
    ((⟨[0, 0, 0xC0, 0x7F], rfl⟩ : Raw 4), DbStorage.page 9)]

example : ((load (fun _ => "F1") [floatField] ".").run ⟨.new _, indexFile (Index.encodeEntries oneAndNan)⟩).1 =
    .abort "Failed to add key to index!" := by
  decide +kernel

end Indices

end CppDb
