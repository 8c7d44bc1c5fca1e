import CppDb.IndexLoading
import CppDb.Lib.Checkpoint

/-!
# Indices over sessions

`Indices` as the maps they stand for: a key of a field has at most one location, which stays until the key is
removed. The indices are stored from time to time, and the next program loads them. What it finds is what the calls
before the last `store` made of no entries at all (`Indices.sessions`).
-/

namespace CppDb
open Embed

namespace KeyMap
variable {K V : Type} [Preorder K]

/-- The value of a key that is neither less nor greater: of the least one where there are more. -/
def Finds (m : K → Option V) (key : K) : Option V → Prop
  | some value => ∃ key', IncompRel (· < ·) key' key ∧ m key' = some value ∧
      ∀ other, IncompRel (· < ·) other key → (m other).isSome → ¬ other < key'
  | none => ∀ key', IncompRel (· < ·) key' key → m key' = none

def Has (m : K → Option V) (key : K) : Prop := ∃ key', IncompRel (· < ·) key' key ∧ (m key').isSome

open Classical in
/-- A key that is there keeps its value. -/
noncomputable def add (key : K) (value : V) (m : K → Option V) : Bool × (K → Option V) :=
  if Has m key then (false, m) else (true, Function.update m key (some value))

open Classical in
noncomputable def remove (key : K) (m : K → Option V) : Bool × (K → Option V) :=
  (decide (Has m key), fun key' => if IncompRel (· < ·) key' key then none else m key')

variable {m : K → Option V} {key : K} {value : V}

open Classical in
theorem add_new (h : ¬ Has m key) : add key value m = (true, Function.update m key (some value)) := if_neg h

open Classical in
theorem add_there (h : Has m key) : add key value m = (false, m) := if_pos h

open Classical in
theorem remove_fst : (remove key m).1 = true ↔ Has m key := decide_eq_true_iff

theorem finds_iff (hK : ∀ a b : K, IncompRel (· < ·) a b → a = b) {o : Option V} :
    Finds m key o ↔ m key = o := by
  cases o with
  | none =>
    refine ⟨fun h => h key .rfl, fun h key' heq => ?_⟩
    rw [hK _ _ heq, h]
  | some value =>
    constructor
    · rintro ⟨key', heq, hvalue, -⟩
      rw [← hK _ _ heq, hvalue]
    · intro h
      refine ⟨key, .rfl, h, fun other heq _ hlt => ?_⟩
      exact heq.1 hlt

open Classical in
theorem eq_some_of_finds {key' : K} (heq : IncompRel (· < ·) key' key) {o : Option V}
    (h : Finds (Function.update (fun _ => none) key' (some value)) key o) : o = some value := by
  cases o with
  | none =>
    have hnone := h key' heq
    rw [Function.update_self] at hnone
    cases hnone
  | some value' =>
    obtain ⟨other, -, hvalue, -⟩ := h
    rw [Function.update_apply] at hvalue
    split_ifs at hvalue
    exact hvalue.symm

end KeyMap

/-! ### One index -/

namespace DbIndex
variable {F : IndexedField} {index : DbIndex F} {value key : F.Key} {pgN : PageNumber}

/-- `std::map::erase`: how many entries were removed, and the index after the call. -/
def removeKey (value : F.Key) (index : DbIndex F) : ℕ × DbIndex F :=
  ((index.entries.filter fun e => e.1.Equivalent value).length,
    ⟨index.entries.filter fun e => ¬ e.1.Equivalent value, index.sorted.filter _⟩)

open Classical in
noncomputable def map (index : DbIndex F) : F.Key → Option PageNumber := fun key =>
  (index.entries.find? fun e => e.1 = key).map Prod.snd

theorem eq_of_key {x y : F.Key × PageNumber} (hx : x ∈ index.entries) (hy : y ∈ index.entries) (h : x.1 = y.1) :
    x = y := by
  have hne : index.entries.Pairwise fun x y => x.1 ≠ y.1 := index.sorted.imp ne_of_lt
  have : Std.Symm fun x y : F.Key × PageNumber => x.1 ≠ y.1 := ⟨fun _ _ h => h.symm⟩
  by_contra hxy
  exact hne.forall hx hy hxy h

open Classical in
theorem map_eq_some : index.map key = some pgN ↔ (key, pgN) ∈ index.entries := by
  rw [map, Option.map_eq_some_iff]
  constructor
  · rintro ⟨e, he, rfl⟩
    have hkey : e.1 = key := by simpa using List.find?_some he
    rw [← hkey]
    exact List.mem_of_find?_eq_some he
  · intro h
    rcases hfind : index.entries.find? fun e => e.1 = key with _ | e
    · have hnone := List.find?_eq_none.1 hfind _ h
      exact absurd (decide_eq_true rfl) hnone
    · have hkey : e.1 = key := by simpa using List.find?_some hfind
      exact ⟨e, hfind, congrArg Prod.snd (eq_of_key (List.mem_of_find?_eq_some hfind) h hkey)⟩

theorem isSome_map : (index.map key).isSome ↔ ∃ pgN, (key, pgN) ∈ index.entries := by
  rw [Option.isSome_iff_exists]
  exact exists_congr fun _ => map_eq_some

theorem has_map : KeyMap.Has index.map value ↔ ∃ e ∈ index.entries, e.1.Equivalent value := by
  constructor
  · rintro ⟨key, heq, hsome⟩
    obtain ⟨pgN, he⟩ := isSome_map.1 hsome
    exact ⟨_, he, heq⟩
  · rintro ⟨e, he, heq⟩
    exact ⟨e.1, heq, isSome_map.2 ⟨e.2, he⟩⟩

theorem map_eq {m : F.Key → Option PageNumber} (h : ∀ key pgN, (key, pgN) ∈ index.entries ↔ m key = some pgN) :
    index.map = m := by
  funext key
  refine Option.ext fun pgN => ?_
  rw [map_eq_some, h]

/-- `std::map::find` answers with the first entry that has an equivalent key. -/
theorem findKey_map (value : F.Key) (index : DbIndex F) : KeyMap.Finds index.map value (index.findKey value) := by
  rcases hfind : index.entries.find? fun e => e.1.Equivalent value with _ | e
  · rw [findKey, hfind]
    intro key heq
    refine Option.eq_none_iff_forall_ne_some.2 fun pgN hsome => ?_
    exact List.find?_eq_none.1 hfind _ (map_eq_some.1 hsome) (decide_eq_true heq)
  · obtain ⟨heq, before, after, hentries, hbefore⟩ := List.find?_eq_some_iff_append.1 hfind
    have hmem : e ∈ index.entries := List.mem_of_find?_eq_some hfind
    rw [findKey, hfind]
    refine ⟨e.1, of_decide_eq_true heq, map_eq_some.2 hmem, fun other hother hsome hlt => ?_⟩
    obtain ⟨pgN, hin⟩ := isSome_map.1 hsome
    have hsorted := index.sorted
    rw [hentries] at hin hsorted
    obtain ⟨hkeys, -⟩ := List.pairwise_cons.1 (List.pairwise_append.1 hsorted).2.1
    rcases List.mem_append.1 hin with hin | hin
    · have hnot := hbefore _ hin
      simp only [hother, decide_true, Bool.not_true, Bool.false_eq_true] at hnot
    · rcases List.mem_cons.1 hin with hin | hin
      · exact hlt.ne (congrArg Prod.fst hin)
      · exact hlt.asymm (hkeys _ hin)

open Classical in
theorem addLocationForKey_map (value : F.Key) (pgN : PageNumber) (index : DbIndex F) :
    (index.addLocationForKey value pgN).1 = (KeyMap.add value pgN index.map).1 ∧
      (index.addLocationForKey value pgN).2.map = (KeyMap.add value pgN index.map).2 := by
  by_cases hnew : ∀ x ∈ index.entries, ¬ x.1.Equivalent value
  · obtain ⟨hadded, hmem⟩ := addLocationForKey_new pgN hnew
    have hhas : ¬ KeyMap.Has index.map value := by
      rw [has_map]
      push Not
      exact hnew
    rw [KeyMap.add_new hhas]
    refine ⟨hadded, map_eq fun key pgN' => ?_⟩
    change (key, pgN') ∈ _ ↔ Function.update index.map value (some pgN) key = some pgN'
    rw [hmem]
    by_cases hkey : key = value
    · subst hkey
      rw [Function.update_self, Option.some_inj]
      constructor
      · rintro (heq | he)
        · exact (congrArg Prod.snd heq).symm
        · exact absurd .rfl (hnew _ he)
      · rintro rfl
        exact .inl rfl
    · rw [Function.update_of_ne hkey, map_eq_some]
      exact or_iff_right fun heq => hkey (congrArg Prod.fst heq)
  · have hsame : index.addLocationForKey value pgN = (false, index) := dif_neg hnew
    push Not at hnew
    rw [hsame, KeyMap.add_there (has_map.2 hnew)]
    exact ⟨rfl, rfl⟩

theorem removeKey_map (value : F.Key) (index : DbIndex F) :
    ((index.removeKey value).1 != 0) = (KeyMap.remove value index.map).1 ∧
      (index.removeKey value).2.map = (KeyMap.remove value index.map).2 := by
  constructor
  · have hnone : (index.removeKey value).1 = 0 ↔ ∀ e ∈ index.entries, ¬ e.1.Equivalent value := by
      simp only [removeKey, List.length_eq_zero_iff, List.filter_eq_nil_iff, decide_eq_true_iff]
    rw [Bool.eq_iff_iff, bne_iff_ne, KeyMap.remove_fst, has_map, Ne, hnone]
    push Not
    rfl
  · refine map_eq fun key pgN => ?_
    simp only [removeKey, KeyMap.remove, List.mem_filter, decide_eq_true_iff]
    by_cases heq : key.Equivalent value
    · rw [if_pos heq]
      exact iff_of_false (fun h => h.2 heq) (Option.some_ne_none pgN).symm
    · rw [if_neg heq, map_eq_some]
      exact and_iff_left heq

end DbIndex

/-! ### All indices -/

/-- The calls that change an index. -/
inductive IndexCall (Fs : List IndexedField) where
  | addLocationForKey (i : Fin Fs.length) (key : (Fs.get i).Key) (location : PageNumber)
  | removeKey (i : Fin Fs.length) (key : (Fs.get i).Key)

/-- What the indices of the fields stand for. -/
abbrev KeyMaps (Fs : List IndexedField) : Type := (i : Fin Fs.length) → (Fs.get i).Key → Option PageNumber

namespace KeyMaps
variable {Fs : List IndexedField}

noncomputable def call (maps : KeyMaps Fs) : IndexCall Fs → Bool × KeyMaps Fs
  | .addLocationForKey i key location =>
    let (added, map) := KeyMap.add key location (maps i)
    (added, Function.update maps i map)
  | .removeKey i key =>
    let (removed, map) := KeyMap.remove key (maps i)
    (removed, Function.update maps i map)

/-- What the calls make of no entries. -/
noncomputable def after (calls : List (IndexCall Fs)) : KeyMaps Fs :=
  run (fun maps c => (call maps c).2) (fun _ _ => none) calls

end KeyMaps

namespace Indices
variable {F : IndexedField} {Fs : List IndexedField}

/-- Another index in the place of the `i`-th one. -/
def setIndex : {Fs : List IndexedField} → (i : Fin Fs.length) → DbIndex (Fs.get i) → Indices Fs → Indices Fs
  | _ :: _, ⟨0, _⟩, index, indices => cons index indices.tail
  | _ :: _, ⟨i + 1, h⟩, index, indices =>
    cons indices.head (setIndex ⟨i, Nat.lt_of_succ_lt_succ h⟩ index indices.tail)

def addLocationForKey (i : Fin Fs.length) (key : (Fs.get i).Key) (location : PageNumber) (indices : Indices Fs) :
    Bool × Indices Fs :=
  let (added, index) := (indices.indexForField i).addLocationForKey key location
  (added, indices.setIndex i index)

/-- The number of removed entries is taken for a `bool`. -/
def removeKey (i : Fin Fs.length) (key : (Fs.get i).Key) (indices : Indices Fs) : Bool × Indices Fs :=
  let (removed, index) := (indices.indexForField i).removeKey key
  (removed != 0, indices.setIndex i index)

def call (indices : Indices Fs) : IndexCall Fs → Bool × Indices Fs
  | .addLocationForKey i key location => indices.addLocationForKey i key location
  | .removeKey i key => indices.removeKey i key

noncomputable def maps (indices : Indices Fs) : KeyMaps Fs := fun i => (indices.indexForField i).map

theorem indexForField_setIndex_self : {Fs : List IndexedField} → (i : Fin Fs.length) → (index : DbIndex (Fs.get i)) →
    (indices : Indices Fs) → (indices.setIndex i index).indexForField i = index
  | _ :: _, ⟨0, _⟩, _, _ => rfl
  | _ :: _, ⟨i + 1, h⟩, index, indices =>
    indexForField_setIndex_self ⟨i, Nat.lt_of_succ_lt_succ h⟩ index indices.tail

theorem indexForField_setIndex_of_ne : {Fs : List IndexedField} → {i j : Fin Fs.length} → (h : j ≠ i) →
    (index : DbIndex (Fs.get i)) → (indices : Indices Fs) →
    (indices.setIndex i index).indexForField j = indices.indexForField j
  | _ :: _, ⟨0, _⟩, ⟨0, _⟩, h, _, _ => absurd rfl h
  | _ :: _, ⟨0, _⟩, ⟨_ + 1, _⟩, _, _, _ => rfl
  | _ :: _, ⟨_ + 1, _⟩, ⟨0, _⟩, _, _, _ => rfl
  | _ :: _, ⟨_ + 1, hi⟩, ⟨_ + 1, hj⟩, h, index, indices =>
    indexForField_setIndex_of_ne (i := ⟨_, Nat.lt_of_succ_lt_succ hi⟩) (j := ⟨_, Nat.lt_of_succ_lt_succ hj⟩)
      (fun heq => h (Fin.succ_inj.2 heq)) index indices.tail

theorem maps_setIndex (i : Fin Fs.length) (index : DbIndex (Fs.get i)) (indices : Indices Fs) :
    (indices.setIndex i index).maps = Function.update indices.maps i index.map := by
  funext j
  by_cases h : j = i
  · subst h
    rw [Function.update_self, maps, indexForField_setIndex_self]
  · rw [Function.update_of_ne h, maps, maps, indexForField_setIndex_of_ne h]

theorem maps_new : (new Fs).maps = fun _ _ => none := by
  induction Fs with
  | nil => exact funext fun i => i.elim0
  | cons F Fs ih =>
    funext i
    obtain ⟨_ | i, hi⟩ := i
    · rfl
    · exact congrFun ih ⟨i, Nat.lt_of_succ_lt_succ hi⟩

/-- The calls do to the indices what they do to maps. -/
theorem call_maps (indices : Indices Fs) (c : IndexCall Fs) :
    (indices.call c).1 = (indices.maps.call c).1 ∧ (indices.call c).2.maps = (indices.maps.call c).2 := by
  cases c with
  | addLocationForKey i key location =>
    obtain ⟨hadded, hmap⟩ := (indices.indexForField i).addLocationForKey_map key location
    exact ⟨hadded, (maps_setIndex ..).trans (congrArg (Function.update indices.maps i) hmap)⟩
  | removeKey i key =>
    obtain ⟨hremoved, hmap⟩ := (indices.indexForField i).removeKey_map key
    exact ⟨hremoved, (maps_setIndex ..).trans (congrArg (Function.update indices.maps i) hmap)⟩

end Indices

/-! ### Sessions -/

/-- The indices of the program that runs, and the storage. -/
structure IndexProgram (Fs : List IndexedField) (A : Type) where
  indices : Indices Fs
  storage : A

namespace IndexProgram
variable {Fs : List IndexedField} {A : Type} [StorageAdapter A] [Sha3Hasher]

def step (typeName : Field → String) (folder : String) (p : IndexProgram Fs A) :
    SessionEvent (IndexCall Fs) → IndexProgram Fs A
  | .act c => { p with indices := (p.indices.call c).2 }
  | .save => { p with storage := ((p.indices.store typeName folder).run p.storage).2 }
  | .restart =>
    let l := ((Indices.load typeName Fs folder).run ⟨.new Fs, p.storage⟩).2
    { indices := l.target, storage := l.storage }

/-- `store` returns `true`, and what it stores fits into the files. -/
def Stores (typeName : Field → String) (folder : String) (p : IndexProgram Fs A) : SessionEvent (IndexCall Fs) → Prop
  | .save => ((p.indices.store typeName folder).run p.storage).1 = .ret () ∧ p.indices.Fits
  | _ => True

end IndexProgram

section
variable {F : IndexedField} {Fs : List IndexedField} {A : Type} [StorageAdapter A] [FileReader A] [Sha3Hasher]
  {typeName : Field → String} {folder : String} {d : A}
open FileAdapter (Closed file)

/-- A program that starts now has this index: it is in its file, or it is new and there is no file. -/
def DbIndex.Kept (content : Option Bytes) (index : DbIndex F) : Prop :=
  content = some (Index.encodeIndex index) ∧ index.Fits ∨ content = none ∧ index = .new

theorem Index.load_kept {index : DbIndex F} (hd : Closed d)
    (h : index.Kept (file d (filePath typeName F folder))) :
    ∃ path d', (load typeName F folder).attempt.run ⟨.new, d⟩ = (.ret path, ⟨index, d'⟩) ∧ Closed d' ∧
      file d' = file d := by
  rcases h with ⟨hfile, hfits⟩ | ⟨hfile, rfl⟩
  · obtain ⟨d', hload, h'⟩ := load_ret hfits hd hfile
    exact ⟨_, d', Proc.run_attempt_of_ret hload, h'⟩
  · obtain ⟨d', hload, h'⟩ :=
      closing_missing (t := DbIndex.new (F := F)) (p := loadOpened typeName F folder) hd hfile
    exact ⟨none, d', Proc.run_attempt_of_fail hload, h'⟩

namespace Indices

/-- The same of all indices. -/
def Kept (typeName : Field → String) (folder : String) (d : A) (indices : Indices Fs) : Prop :=
  indices.All fun F index => index.Kept (file d (Index.filePath typeName F folder))

omit [StorageAdapter A] [FileReader A] [Sha3Hasher] in
theorem all_new {P : (F : IndexedField) → DbIndex F → Prop} (h : ∀ F ∈ Fs, P F .new) : (new Fs).All P := by
  induction Fs with
  | nil => exact fun i => i.elim0
  | cons F Fs ih =>
    obtain ⟨hF, hFs⟩ := List.forall_mem_cons.1 h
    exact all_cons.2 ⟨hF, ih hFs⟩

theorem loadEach_kept {indices : Indices Fs} (success : Bool) (hd : Closed d) (h : indices.Kept typeName folder d) :
    ∃ loaded d', (loadEach typeName folder Fs success).run ⟨.new Fs, d⟩ = (.ret loaded, ⟨indices, d'⟩) ∧ Closed d' ∧
      file d' = file d := by
  induction indices generalizing success d with
  | nil => exact ⟨success, d, rfl, hd, rfl⟩
  | @cons F Fs index rest ih =>
    obtain ⟨hindex, hrest⟩ := all_cons.1 h
    obtain ⟨path, d₁, hload, hclosed₁, hsame₁⟩ := Index.load_kept hd hindex
    obtain ⟨loaded, d₂, htail, hclosed₂, hsame₂⟩ := ih (success && path.isSome) hclosed₁
      (fun i => by rw [hsame₁]; exact hrest i)
    refine ⟨loaded, d₂, ?_, hclosed₂, hsame₂.trans hsame₁⟩
    exact (Proc.run_bind_of_ret (run_onHead (.new Fs) hload)).trans (run_onTail htail)

theorem load_kept {indices : Indices Fs} (hd : Closed d) (h : indices.Kept typeName folder d) :
    ∃ x d', (load typeName Fs folder).run ⟨.new Fs, d⟩ = (x, ⟨indices, d'⟩) ∧ Closed d' ∧ file d' = file d := by
  obtain ⟨loaded, d', hrun, h'⟩ := loadEach_kept true hd h
  rw [load, Proc.run_bind_of_ret hrun]
  by_cases hloaded : loaded = true
  · exact ⟨_, d', Proc.run_require_pos hloaded _, h'⟩
  · exact ⟨_, d', Proc.run_require_neg hloaded _, h'⟩

/-- The program does what the maps with their copy do. -/
structure Represents (typeName : Field → String) (folder : String) (p : IndexProgram Fs A)
    (c : Checkpointed (KeyMaps Fs)) : Prop where
  closed : Closed p.storage
  current : p.indices.maps = c.current
  saved : ∃ kept : Indices Fs, kept.Kept typeName folder p.storage ∧ kept.maps = c.saved

theorem Represents.step (hpaths : (Fs.map fun F => Index.filePath typeName F folder).Nodup) {p : IndexProgram Fs A}
    {c : Checkpointed (KeyMaps Fs)} {e : SessionEvent (IndexCall Fs)} (h : Represents typeName folder p c)
    (he : p.Stores typeName folder e) :
    Represents typeName folder (p.step typeName folder e) (c.step (fun maps c => (maps.call c).2) e) := by
  obtain ⟨hclosed, hcurrent, kept, hkept, hsaved⟩ := h
  cases e with
  | act call =>
    have hcall := (call_maps p.indices call).2
    rw [hcurrent] at hcall
    exact ⟨hclosed, hcall, kept, hkept, hsaved⟩
  | save =>
    obtain ⟨hclosed', hstored⟩ := store_ret hpaths hclosed (Prod.ext he.1 rfl)
    exact ⟨hclosed', hcurrent, p.indices, fun i => .inl ⟨hstored i, he.2 i⟩, hcurrent⟩
  | restart =>
    obtain ⟨x, d', hload, hclosed', hsame⟩ := load_kept hclosed hkept
    refine ⟨?_, ?_, kept, ?_, hsaved⟩
    · rw [IndexProgram.step, hload]
      exact hclosed'
    · rw [IndexProgram.step, hload]
      exact hsaved
    · rw [IndexProgram.step, hload]
      intro i
      rw [hsame]
      exact hkept i

/-- **Indices over sessions.** Whatever is added, removed, stored and loaded in whatever order, the indices answer as
the maps that the calls make which are not lost: those up to the last `store` that the program has loaded, and its
own. -/
theorem sessions (hcheck : sanityCheck Fs = true) (hnames : NamesDiffer typeName Fs) (hd : Closed d)
    (hnone : ∀ F ∈ Fs, file d (Index.filePath typeName F folder) = none) {es : List (SessionEvent (IndexCall Fs))}
    (hes : Along (IndexProgram.step typeName folder) (IndexProgram.Stores typeName folder) ⟨new Fs, d⟩ es)
    {p : IndexProgram Fs A} (hp : p = run (IndexProgram.step typeName folder) ⟨new Fs, d⟩ es) :
    (∀ i key, KeyMap.Finds (KeyMaps.after (Checkpointed.surviving es).current i) key (p.indices.findKey i key)) ∧
      (∀ i, (∀ a b : (Fs.get i).Key, a.Equivalent b → a = b) →
        ∀ key, p.indices.findKey i key = KeyMaps.after (Checkpointed.surviving es).current i key) ∧
      ∀ c, (p.indices.call c).1 = ((KeyMaps.after (Checkpointed.surviving es).current).call c).1 := by
  have hstart : Represents typeName folder (⟨new Fs, d⟩ : IndexProgram Fs A) ⟨fun _ _ => none, fun _ _ => none⟩ :=
    ⟨hd, maps_new, new Fs, all_new fun F hF => .inr ⟨hnone F hF, rfl⟩, maps_new⟩
  have hrun := Along.simulates (fun p c e h he => h.step (nodup_filePath hcheck hnames folder) he) hstart hes
  rw [← hp, Checkpointed.run_step] at hrun
  have hmaps : p.indices.maps = KeyMaps.after (Checkpointed.surviving es).current := hrun.current
  have hfinds : ∀ i key, KeyMap.Finds (KeyMaps.after (Checkpointed.surviving es).current i) key
      (p.indices.findKey i key) := by
    rw [← hmaps]
    exact fun i key => DbIndex.findKey_map key (p.indices.indexForField i)
  refine ⟨hfinds, fun i hK key => ((KeyMap.finds_iff hK).1 (hfinds i key)).symm, fun c => ?_⟩
  rw [(call_maps p.indices c).1, hmaps]

end Indices

end

namespace Indices

def positiveZero : floatField.Key := (⟨[0, 0, 0, 0], rfl⟩ : Raw 4)

def negativeZero : floatField.Key := (⟨[0, 0, 0, 0x80], rfl⟩ : Raw 4)

/-- The location of -0 is added and stored; then that of 0 is removed, and the program starts again. -/
def removedAfterStore : List (SessionEvent (IndexCall [floatField])) :=
  [.act (.addLocationForKey ⟨0, Nat.one_pos⟩ negativeZero (DbStorage.page 7)), .save,
    .act (.removeKey ⟨0, Nat.one_pos⟩ positiveZero), .restart]

open ByteSum in
/-- The location is found, with 0. -/
theorem sessions_removedAfterStore :
    (run (IndexProgram.step (fun _ => "F2") ".") ⟨new [floatField], { files := fun _ => none }⟩ removedAfterStore :
        IndexProgram [floatField] (FopenAdapter 64)).indices.findKey
          (⟨0, Nat.one_pos⟩ : Fin [floatField].length) positiveZero = some (DbStorage.page 7) := by
  have hnames : NamesDiffer (fun _ => "F2") [floatField] := by
    intro F hF G hG hne
    cases List.mem_singleton.1 hF
    cases List.mem_singleton.1 hG
    exact absurd rfl hne
  have hnone : ∀ F ∈ [floatField], FileAdapter.file ({ files := fun _ => none } : FopenAdapter 64)
      (Index.filePath (fun _ => "F2") F ".") = none := by
    intro F hF
    cases List.mem_singleton.1 hF
    decide +kernel
  have hstores : Along (IndexProgram.step (fun _ => "F2") ".") (IndexProgram.Stores (fun _ => "F2") ".")
      ⟨new [floatField], ({ files := fun _ => none } : FopenAdapter 64)⟩ removedAfterStore := by
    refine ⟨trivial, ⟨by decide +kernel, all_cons.2 ⟨⟨by decide +kernel, fun _ _ => trivial⟩, fun i => i.elim0⟩⟩,
      trivial, trivial, trivial⟩
  have hfinds := (sessions (by decide) hnames rfl hnone hstores rfl).1 ⟨0, Nat.one_pos⟩ positiveZero
  have hempty : ¬ KeyMap.Has (fun _ => (none : Option PageNumber)) negativeZero :=
    fun ⟨_, _, hsome⟩ => Bool.false_ne_true hsome
  have hafter : KeyMaps.after (Checkpointed.surviving removedAfterStore).current ⟨0, Nat.one_pos⟩ =
      (KeyMap.add negativeZero (DbStorage.page 7) fun _ => none).2 := rfl
  rw [hafter, KeyMap.add_new hempty] at hfinds
  have hequivalent : negativeZero.Equivalent positiveZero := by decide +kernel
  exact KeyMap.eq_some_of_finds hequivalent hfinds

end Indices

end CppDb
