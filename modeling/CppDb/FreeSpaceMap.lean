import CppDb.Fopen
import CppDb.FreeSpaceRuns

/-!
# The file of the free-space map

`saveToFile` and `loadFromFile` of `FileAllocationManager`. The declaration `StorageIO<StorageAdapter> storage`
is a `StorageIO` over an adapter of its own, closed at the end of the function whatever it returns.
-/

namespace CppDb
open Embed

namespace FileAllocationManager
variable {M : Type} [GapSet M] {A : Type} [StorageAdapter A] [Sha3Hasher]

/-- The loop of `saveToFile`. -/
def writeGaps : List Gap → (hasher : List Bytes) → Proc A (List Bytes)
  | [], hasher => pure hasher
  | gap :: gaps, hasher => do
    StorageIo.write (uint64Bytes gap.length)
    StorageIo.write (uint64Bytes gap.location)
    writeGaps gaps (hasher ++ [uint64Bytes gap.length, uint64Bytes gap.location])

def saveToFile (filePath : String) (s : FileAllocationManager M) : Proc A Unit :=
  StorageIo.closing do
    StorageIo.open_ filePath .Write
    StorageIo.flushIgnored
    StorageIo.write (leBytes 8 s.gaps.length)
    let hasher ← writeGaps s.gaps []
    StorageIo.write (uint64Bytes (Sha3Hasher.get64BitHash hasher))
    StorageIo.flush

/-- The loop of `loadFromFile`. -/
def readGaps : ℕ → (hasher : List Bytes) → Proc (Loading (FileAllocationManager M) A) (List Bytes)
  | 0, hasher => pure hasher
  | n + 1, hasher => do
    let length ← Loading.onStorage (StorageIo.read 8)
    let location ← Loading.onStorage (StorageIo.read 8)
    let gap : Gap := ⟨Raw.toUInt64 location, Raw.toUInt64 length⟩
    Loading.onTarget (.modify fun s => { s with gapLocations := GapSet.emplace gap s.gapLocations })
    readGaps n (hasher ++ [uint64Bytes gap.length, uint64Bytes gap.location])

def loadFromFile (filePath : String) : Proc (Loading (FileAllocationManager M) A) Unit := do
  Loading.onTarget (.modify clear)
  Loading.closing do
    Loading.onStorage (StorageIo.open_ filePath .Read)
    let size ← Loading.onStorage (StorageIo.read 8)
    let hasher ← readGaps (leNat size.1) []
    let hash ← Loading.onStorage (StorageIo.read 8)
    .require (Raw.toUInt64 hash = Sha3Hasher.get64BitHash hasher)

/-- `loadFromFile` after the loop. -/
def checkHash (hasher : List Bytes) : Proc (Loading (FileAllocationManager M) A) Unit := do
  let hash ← Loading.onStorage (StorageIo.read 8)
  .require (Raw.toUInt64 hash = Sha3Hasher.get64BitHash hasher)

/-- `loadFromFile` once the file is open. -/
def loadGaps : Proc (Loading (FileAllocationManager M) A) Unit := do
  let size ← Loading.onStorage (StorageIo.read 8)
  checkHash (← readGaps (leNat size.1) [])

/-! ### The format -/

def encodeGap (g : Gap) : Bytes := uint64Bytes g.length ++ uint64Bytes g.location

def gapUpdates (gs : List Gap) : List Bytes :=
  (gs.map fun g => [uint64Bytes g.length, uint64Bytes g.location]).flatten

/-- The file of the gaps `gs`. -/
def encodeGaps (gs : List Gap) : Bytes :=
  leBytes 8 gs.length ++ ((gs.map encodeGap).flatten ++ uint64Bytes (Sha3Hasher.get64BitHash (gapUpdates gs)))

omit [Sha3Hasher] in
theorem gapUpdates_cons (g : Gap) (gs : List Gap) :
    gapUpdates (g :: gs) = [uint64Bytes g.length, uint64Bytes g.location] ++ gapUpdates gs := rfl

section
variable [FileAdapter A]
open FileAdapter (Closed Reading file)

omit [Sha3Hasher] in
theorem stores_writeGaps (gs : List Gap) (hasher : List Bytes) :
    Stores (A := A) (writeGaps gs hasher) (gs.map encodeGap).flatten (hasher ++ gapUpdates gs) := by
  induction gs generalizing hasher with
  | nil =>
    have hnone : hasher ++ gapUpdates [] = hasher := List.append_nil hasher
    rw [hnone]
    exact Stores.pure hasher
  | cons g gs ih =>
    have h := ih (hasher ++ [uint64Bytes g.length, uint64Bytes g.location])
    rw [List.append_assoc, ← gapUpdates_cons] at h
    rw [List.map_cons, List.flatten_cons, encodeGap, List.append_assoc]
    exact (Stores.write _).bind ((Stores.write _).bind h)

theorem saveToFile_file {s : FileAllocationManager M} {filePath : String} {d d' : A} (hd : Closed d)
    (hsave : (s.saveToFile filePath).run d = (.ret (), d')) :
    Closed d' ∧ file d' filePath = some (encodeGaps s.gaps) := by
  have hbody : Stores (A := A) (do
      StorageIo.flushIgnored
      StorageIo.write (leBytes 8 s.gaps.length)
      let hasher ← writeGaps s.gaps []
      StorageIo.write (uint64Bytes (Sha3Hasher.get64BitHash hasher))
      StorageIo.flush) (encodeGaps s.gaps) () := by
    refine Stores.of_eq (Stores.flushIgnored.bind ((Stores.write _).bind ((stores_writeGaps s.gaps []).bind
      ((Stores.write _).bind Stores.flush)))) ?_
    rw [List.nil_append, List.nil_append, List.append_nil]
    rfl
  obtain ⟨-, hclosed, hfile, -⟩ := closing_store hbody hd hsave
  exact ⟨hclosed, hfile⟩

/-- The manager with more gaps in its map. -/
def emplaceAll (s : FileAllocationManager M) (gs : List Gap) : FileAllocationManager M :=
  { s with gapLocations := gs.foldl (fun m g => GapSet.emplace g m) s.gapLocations }

omit [Sha3Hasher] in
theorem loads_readGaps (gs : List Gap) (hasher : List Bytes) (s : FileAllocationManager M) :
    Loads (A := A) (readGaps gs.length hasher) (gs.map encodeGap).flatten s (s.emplaceAll gs)
      (hasher ++ gapUpdates gs) := by
  induction gs generalizing hasher s with
  | nil =>
    have hnone : hasher ++ gapUpdates [] = hasher := List.append_nil hasher
    rw [hnone]
    exact Loads.pure hasher
  | cons g gs ih =>
    have h := ih (hasher ++ [uint64Bytes g.length, uint64Bytes g.location]) (s.emplaceAll [g])
    rw [List.append_assoc, ← gapUpdates_cons] at h
    rw [List.map_cons, List.flatten_cons, encodeGap, List.append_assoc]
    refine Loads.read (rawUInt64 g.length) (Loads.read (rawUInt64 g.location) ?_)
    simp only [toUInt64_rawUInt64]
    exact (Loads.onTarget rfl).bind h

theorem loads_loadGaps {gs : List Gap} (hlength : gs.length < 2 ^ 64) (s : FileAllocationManager M) :
    Loads (A := A) loadGaps (encodeGaps gs) s (s.emplaceAll gs) () := by
  have hnumber : leNat (leBytes 8 gs.length) = gs.length := leNat_leBytes_of_lt hlength
  refine Loads.read ⟨leBytes 8 gs.length, length_leBytes ..⟩ ?_
  rw [hnumber]
  refine (loads_readGaps gs [] _).bind ?_
  exact Loads.of_eq (Loads.read (rawUInt64 (Sha3Hasher.get64BitHash (gapUpdates gs)))
    (Loads.require (toUInt64_rawUInt64 _))) (List.append_nil _)

/-- Loading the file of fewer than 2^64 gaps, which may go on after the hash. -/
theorem loadFromFile_append {gs : List Gap} (hlength : gs.length < 2 ^ 64) {filePath : String} {tail : Bytes}
    {d : A} (hd : Closed d) (hfile : file d filePath = some (encodeGaps gs ++ tail))
    (target : FileAllocationManager M) :
    ∃ d', (loadFromFile filePath).run ⟨target, d⟩ = (.ret (), ⟨target.clear.emplaceAll gs, d'⟩) := by
  obtain ⟨d', hload, -⟩ := closing_load_append (loads_loadGaps hlength target.clear) hd hfile
  exact ⟨d', hload⟩

theorem loadFromFile_run {gs : List Gap} (hlength : gs.length < 2 ^ 64) {filePath : String}
    {d : A} (hd : Closed d) (hfile : file d filePath = some (encodeGaps gs)) (target : FileAllocationManager M) :
    ∃ d', (loadFromFile filePath).run ⟨target, d⟩ = (.ret (), ⟨target.clear.emplaceAll gs, d'⟩) :=
  loadFromFile_append hlength hd (by rw [List.append_nil]; exact hfile) target

omit [StorageAdapter A] [Sha3Hasher] [FileAdapter A] in
theorem mem_emplaceAll_clear {gs : List Gap} (hloc : ∀ g ∈ gs, ∀ g' ∈ gs, g.location = g'.location → g = g')
    (s : FileAllocationManager M) {x : Gap} : x ∈ (s.clear.emplaceAll gs).gaps ↔ x ∈ gs := by
  change x ∈ GapSet.toList (gs.foldl (fun m g => GapSet.emplace g m) (GapSet.empty : M)) ↔ x ∈ gs
  rw [GapSet.mem_emplaceAll, GapSet.toList_empty]
  · simp
  · intro g hg y hy heq
    rw [GapSet.toList_empty] at hy
    exact hloc y (by simpa using hy) g hg heq

omit [StorageAdapter A] [Sha3Hasher] [FileAdapter A] in
theorem gaps_emplaceAll_clear {gs : List Gap} (hsorted : Gap.Sorted gs) (s : FileAllocationManager M) :
    (s.clear.emplaceAll gs).gaps = gs :=
  Gap.Sorted.eq_of_mem_iff (GapSet.sorted _) hsorted fun _ =>
    mem_emplaceAll_clear (fun _ hg _ hg' => hsorted.eq_of_location hg hg') s

omit [StorageAdapter A] [Sha3Hasher] [FileAdapter A] in
theorem Valid.length_lt {s : FileAllocationManager M} (h : s.Valid) : s.gaps.length < 2 ^ 64 := by
  have hnodup : (s.gaps.map fun g => g.location.toNat).Nodup := by
    refine List.Pairwise.imp (fun hlt => Nat.ne_of_lt hlt) (List.pairwise_map.2 (GapSet.sorted s.gapLocations))
  have hsubset : (s.gaps.map fun g => g.location.toNat) ⊆ List.range (2 ^ 64 - 1) := by
    intro x hx
    obtain ⟨g, hg, rfl⟩ := List.mem_map.1 hx
    have hok := h.ok g hg
    have hpos := hok.pos
    have hstop := hok.stop_lt
    exact List.mem_range.2 (by omega)
  have hle := (List.subperm_of_subset hnodup hsubset).length_le
  rw [List.length_map, List.length_range] at hle
  omega

/-- **Free-space map round trip.** A map that was saved is what any manager holds after loading it. -/
theorem loadFromFile_saveToFile {calls : List FreeSpaceCall}
    (hcalls : Along call Allowed (new : FileAllocationManager M) calls) {s : FileAllocationManager M}
    (hs : s = run call new calls) {filePath : String} {d d' : A} (hd : Closed d)
    (hsave : (s.saveToFile filePath).run d = (.ret (), d')) {reader : A} (hreader : Closed reader)
    (hfile : file reader filePath = file d' filePath) (target : FileAllocationManager M) :
    ∃ l : Loading (FileAllocationManager M) A, (loadFromFile filePath).run ⟨target, reader⟩ = (.ret (), l) ∧
      l.target.gaps = s.gaps := by
  have hvalid : s.Valid := hs ▸ (valid_run valid_new hcalls).1
  obtain ⟨-, hsaved⟩ := saveToFile_file hd hsave
  obtain ⟨r, hload⟩ := loadFromFile_run hvalid.length_lt hreader (hfile.trans hsaved) target
  exact ⟨_, hload, gaps_emplaceAll_clear (GapSet.sorted _) target⟩

end

end FileAllocationManager

open ByteSum in
theorem FileAllocationManager.loadFromFile_saveToFile_oneGap : ∃ d : FopenAdapter 64,
    ((new.registerGap 100 10 : FileAllocationManager GapList).saveToFile "gaps").run { files := fun _ => none } =
      (.ret (), d) ∧
    ∃ l : Loading (FileAllocationManager GapList) (FopenAdapter 64),
      (loadFromFile "gaps").run ⟨new.registerGap 7 7, d⟩ = (.ret (), l) ∧ l.target.gaps = [⟨100, 10⟩] := by
  have hallowed : (new : FileAllocationManager GapList).Allowed (.registerGap 100 10) := by
    refine ⟨by decide, by decide, ?_⟩
    rw [free_new]
    exact Set.empty_disjoint _
  have hcalls : Along call Allowed (new : FileAllocationManager GapList) [.registerGap 100 10] := ⟨hallowed, trivial⟩
  obtain ⟨d, hsave⟩ : ∃ d : FopenAdapter 64, ((new.registerGap 100 10 : FileAllocationManager GapList).saveToFile
      "gaps").run { files := fun _ => none } = (.ret (), d) := ⟨_, rfl⟩
  refine ⟨d, hsave, ?_⟩
  have hclosed := (saveToFile_file (show FileAdapter.Closed _ from rfl) hsave).1
  obtain ⟨l, hload, hgaps⟩ := loadFromFile_saveToFile hcalls rfl (show FileAdapter.Closed _ from rfl) hsave hclosed rfl
    (new.registerGap 7 7)
  exact ⟨l, hload, hgaps.trans (by decide)⟩

end CppDb
