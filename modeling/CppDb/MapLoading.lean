import CppDb.FileReaders
import CppDb.FreeSpaceMap
import CppDb.RecordInverse

/-!
# Loading a free-space map that may be damaged

`loadFromFile` puts each gap into the map as it reads it and compares the hash at the end. `loadFromFile_of_file`
says what it does with any content: the target holds the gaps that were complete, whatever the result.
-/

namespace CppDb
open Embed

theorem uint64Bytes_toUInt64 (v : Raw 8) : uint64Bytes v.toUInt64 = v.1 := by
  rw [uint64Bytes, Raw.toUInt64, UInt64.toNat_ofNat_of_lt' (leNat_raw_lt v), leBytes_of_raw]

theorem exists_raw {n : ℕ} {bs : Bytes} (h : n ≤ bs.length) : ∃ (v : Raw n) (rest : Bytes), bs = v.1 ++ rest :=
  ⟨⟨bs.take n, List.length_take_of_le h⟩, bs.drop n, (List.take_append_drop n bs).symm⟩

namespace FileAllocationManager
variable {M : Type} [GapSet M] {s : FileAllocationManager M}

theorem length_encodeGap (g : Gap) : (encodeGap g).length = 16 := by
  rw [encodeGap, List.length_append, uint64Bytes, uint64Bytes, length_leBytes, length_leBytes]

theorem length_flatten_encodeGap (gs : List Gap) : ((gs.map encodeGap).flatten).length = gs.length * 16 := by
  induction gs with
  | nil => rfl
  | cons g gs ih =>
    rw [List.map_cons, List.flatten_cons, List.length_append, length_encodeGap, ih, List.length_cons]
    omega

theorem exists_gaps (n : ℕ) {bs : Bytes} (h : n * 16 ≤ bs.length) :
    ∃ (gs : List Gap) (rest : Bytes), gs.length = n ∧ bs = (gs.map encodeGap).flatten ++ rest := by
  induction n generalizing bs with
  | zero => exact ⟨[], bs, rfl, rfl⟩
  | succ n ih =>
    obtain ⟨length, bs₁, rfl⟩ := exists_raw (show 8 ≤ bs.length by omega)
    rw [List.length_append, length.2] at h
    obtain ⟨location, bs₂, rfl⟩ := exists_raw (show 8 ≤ bs₁.length by omega)
    rw [List.length_append, location.2] at h
    obtain ⟨gs, rest, hlen, rfl⟩ := ih (show n * 16 ≤ bs₂.length by omega)
    refine ⟨⟨location.toUInt64, length.toUInt64⟩ :: gs, rest, by rw [List.length_cons, hlen], ?_⟩
    rw [List.map_cons, List.flatten_cons, encodeGap, uint64Bytes_toUInt64, uint64Bytes_toUInt64, List.append_assoc,
      List.append_assoc]

theorem exists_gaps_short (bs : Bytes) :
    ∃ (gs : List Gap) (rest : Bytes), gs.length = bs.length / 16 ∧ rest.length < 16 ∧
      bs = (gs.map encodeGap).flatten ++ rest := by
  obtain ⟨gs, rest, hlen, hbs⟩ := exists_gaps _ (Nat.div_mul_le_self bs.length 16)
  have hlength := congrArg List.length hbs
  rw [List.length_append, length_flatten_encodeGap] at hlength
  exact ⟨gs, rest, hlen, by omega, hbs⟩

theorem gaps_emplaceAll_ne_nil {gs : List Gap} (h : s.gaps ≠ [] ∨ gs ≠ []) : (s.emplaceAll gs).gaps ≠ [] := by
  induction gs generalizing s with
  | nil => exact h.resolve_right fun hne => hne rfl
  | cons g gs ih =>
    refine ih (s := s.emplaceAll [g]) (.inl fun hnone => ?_)
    have hmem : ∀ x, x ∉ GapSet.toList (GapSet.emplace g s.gapLocations) := by
      intro x hx
      have hx : x ∈ (s.emplaceAll [g]).gaps := hx
      rw [hnone] at hx
      exact List.not_mem_nil hx
    refine hmem g (GapSet.mem_emplace.2 (.inr ⟨rfl, fun y hy _ => ?_⟩))
    exact hmem y (GapSet.mem_emplace.2 (.inl hy))

theorem gaps_clear : s.clear.gaps = [] := GapSet.toList_empty

theorem gaps_emplaceAll_clear_eq_nil {gs : List Gap} : (s.clear.emplaceAll gs).gaps = [] ↔ gs = [] := by
  constructor
  · intro h
    by_contra hne
    exact gaps_emplaceAll_ne_nil (.inr hne) h
  · rintro rfl
    exact gaps_clear (s := s)

section
variable {A : Type} [StorageAdapter A] [FileReader A]
open FileAdapter (Closed file)

theorem stops_readGaps {n : ℕ} {gs : List Gap} {tail : Bytes} (hn : gs.length < n) (htail : tail.length < 16)
    (hasher : List Bytes) (s : FileAllocationManager M) :
    Stops (A := A) (readGaps n hasher) ((gs.map encodeGap).flatten ++ tail) s (s.emplaceAll gs) none := by
  induction gs generalizing n hasher s with
  | nil =>
    obtain _ | n := n
    · exact absurd hn (Nat.not_lt_zero _)
    by_cases hlength : tail.length < 8
    · exact (Stops.read hlength).bind
    · obtain ⟨length, rest, rfl⟩ := exists_raw (Nat.not_lt.1 hlength)
      rw [List.length_append, length.2] at htail
      have hrest : rest.length < 8 := by omega
      exact Stops.of_eq (Stops.after (Loads.onStorage (Decodes.read length)) (Stops.read hrest).bind) rfl
  | cons g gs ih =>
    obtain _ | n := n
    · exact absurd hn (Nat.not_lt_zero _)
    have h := ih (Nat.lt_of_succ_lt_succ hn) (hasher ++ [uint64Bytes g.length, uint64Bytes g.location])
      (s.emplaceAll [g])
    rw [List.map_cons, List.flatten_cons, encodeGap, List.append_assoc, List.append_assoc]
    refine Stops.after (Loads.onStorage (Decodes.read (rawUInt64 g.length)))
      (Stops.after (Loads.onStorage (Decodes.read (rawUInt64 g.location))) ?_)
    simp only [toUInt64_rawUInt64]
    exact Stops.of_eq (Stops.after (Loads.onTarget rfl) h) rfl

variable [Sha3Hasher]

/-- What is done with a file that is there, after `clear`. -/
inductive LoadsFile (bs : Bytes) : List Gap → Bool → Prop where
  /-- There is no count. -/
  | noCount (h : bs.length < 8) : LoadsFile bs [] false
  /-- Not all gaps are there. -/
  | noGaps {n : ℕ} {gs : List Gap} {tail : Bytes} (hn : n < 2 ^ 64) (hlen : gs.length < n) (htail : tail.length < 16)
      (h : bs = leBytes 8 n ++ ((gs.map encodeGap).flatten ++ tail)) : LoadsFile bs gs false
  /-- There is no hash. -/
  | noHash {gs : List Gap} {tail : Bytes} (hn : gs.length < 2 ^ 64) (htail : tail.length < 8)
      (h : bs = leBytes 8 gs.length ++ ((gs.map encodeGap).flatten ++ tail)) : LoadsFile bs gs false
  /-- The hash is compared, and nobody looks at what follows it. -/
  | hash {gs : List Gap} {hash : UInt64} {tail : Bytes} (hn : gs.length < 2 ^ 64)
      (h : bs = leBytes 8 gs.length ++ ((gs.map encodeGap).flatten ++ (uint64Bytes hash ++ tail))) :
      LoadsFile bs gs (hash = Sha3Hasher.get64BitHash (gapUpdates gs))

omit [FileReader A] [StorageAdapter A] in
theorem exists_loadsFile (bs : Bytes) : ∃ gs success, LoadsFile bs gs success := by
  by_cases hcount : bs.length < 8
  · exact ⟨[], false, .noCount hcount⟩
  obtain ⟨count, bs₁, rfl⟩ := exists_raw (Nat.not_lt.1 hcount)
  have hn := leNat_raw_lt count
  have hback := leBytes_of_raw count
  by_cases hgaps : leNat count.1 * 16 ≤ bs₁.length
  · obtain ⟨gs, rest, hlen, rfl⟩ := exists_gaps _ hgaps
    rw [← hlen] at hn hback
    by_cases hhash : rest.length < 8
    · exact ⟨gs, false, .noHash hn hhash (by rw [hback])⟩
    · obtain ⟨hash, tail, rfl⟩ := exists_raw (Nat.not_lt.1 hhash)
      have hbytes : hash.1 = uint64Bytes hash.toUInt64 := (uint64Bytes_toUInt64 hash).symm
      exact ⟨gs, _, .hash hn (by rw [hback, hbytes])⟩
  · obtain ⟨gs, rest, hlen, hrest, hbs⟩ := exists_gaps_short bs₁
    exact ⟨gs, false, .noGaps hn (by omega) hrest (by rw [hback, hbs])⟩

omit [StorageAdapter A] [FileReader A] in
theorem LoadsFile.accepted {bs : Bytes} {gs : List Gap} (h : LoadsFile bs gs true) :
    gs.length < 2 ^ 64 ∧ ∃ tail, bs = encodeGaps gs ++ tail := by
  generalize hsuccess : true = success at h
  cases h with
  | noCount | noGaps | noHash => cases hsuccess
  | @hash _ hash tail hn hbs =>
    obtain rfl := of_decide_eq_true hsuccess.symm
    exact ⟨hn, tail, by rw [hbs, encodeGaps, List.append_assoc, List.append_assoc]⟩

theorem stops_after_count {n : ℕ} {cs : Bytes} {s' : FileAllocationManager M} (hn : n < 2 ^ 64)
    (h : Stops (A := A) (readGaps n [] >>= checkHash) cs s s' none) :
    Stops (A := A) loadGaps (leBytes 8 n ++ cs) s s' none := by
  refine Stops.after (Loads.onStorage (Decodes.read ⟨leBytes 8 n, length_leBytes ..⟩)) ?_
  rwa [show leNat (leBytes 8 n) = n from leNat_leBytes_of_lt hn]

theorem LoadsFile.stops {bs : Bytes} {gs : List Gap} (h : LoadsFile bs gs false) (s : FileAllocationManager M) :
    Stops (A := A) loadGaps bs s (s.emplaceAll gs) none := by
  generalize hsuccess : false = success at h
  cases h with
  | noCount hlen => exact (Stops.read hlen).bind
  | noGaps hn hlen htail hbs =>
    rw [hbs]
    exact stops_after_count hn (stops_readGaps hlen htail _ _).bind
  | noHash hn htail hbs =>
    rw [hbs]
    exact stops_after_count hn (Stops.after (loads_readGaps gs [] s) (Stops.read htail).bind)
  | hash hn hbs =>
    have hdiffers := of_decide_eq_false hsuccess.symm
    rw [hbs]
    refine stops_after_count hn (Stops.after (loads_readGaps gs [] s)
      (Stops.after (Loads.onStorage (Decodes.read (rawUInt64 _))) (Stops.require ?_)))
    rwa [toUInt64_rawUInt64, List.nil_append]

/-- What `loadFromFile` does with a file. -/
theorem loadFromFile_of_file {bs : Bytes} {gs : List Gap} {success : Bool} (h : LoadsFile bs gs success)
    {filePath : String} {d : A} (hd : Closed d) (hfile : file d filePath = some bs)
    (target : FileAllocationManager M) :
    ∃ d', (loadFromFile filePath).run ⟨target, d⟩ =
      (if success then .ret () else .fail, ⟨target.clear.emplaceAll gs, d'⟩) := by
  cases success with
  | true =>
    obtain ⟨hlength, tail, hbs⟩ := h.accepted
    exact loadFromFile_append hlength hd (hbs ▸ hfile) target
  | false =>
    obtain ⟨d', hrun, -⟩ := closing_stops (h.stops target.clear) hd hfile
    exact ⟨d', hrun⟩

/-! ### The result and the gaps -/

omit [StorageAdapter A] [FileReader A] in
/-- Loading ended as a caller counts on: with `true` for the file of some gaps, or else with `false` and no gaps. -/
def LoadSafe (content : Option Bytes) (result : Exit Unit) (s : FileAllocationManager M) : Prop :=
  (result = .ret () ∧ ∃ gs, gs.length < 2 ^ 64 ∧ content = some (encodeGaps gs)) ∨ (result = .fail ∧ s.gaps = [])

/-- No gap is read from the file and it is rejected: the count or the first gap is not complete, or the count is 0 and
its hash does not follow. -/
def NothingRead (bs : Bytes) : Prop :=
  bs.length < 8 ∨ (leNat (bs.take 8) ≠ 0 ∧ bs.length < 24) ∨
    (leNat (bs.take 8) = 0 ∧ slice bs 8 8 ≠ uint64Bytes (Sha3Hasher.get64BitHash []))

omit [StorageAdapter A] [FileReader A] [Sha3Hasher] in
theorem count_eq {n : ℕ} (hn : n < 2 ^ 64) (cs : Bytes) : leNat ((leBytes 8 n ++ cs).take 8) = n := by
  rw [List.take_left' (length_leBytes 8 n), leNat_leBytes_of_lt hn]

omit [StorageAdapter A] [FileReader A] [Sha3Hasher] in
theorem slice_count (n : ℕ) (cs : Bytes) : slice (leBytes 8 n ++ cs) 8 8 = cs.take 8 := by
  rw [slice, List.drop_left' (length_leBytes 8 n)]

omit [StorageAdapter A] [FileReader A] [Sha3Hasher] in
theorem length_count (n : ℕ) (gs : List Gap) (cs : Bytes) :
    (leBytes 8 n ++ ((gs.map encodeGap).flatten ++ cs)).length = 8 + gs.length * 16 + cs.length := by
  rw [List.length_append, List.length_append, length_leBytes, length_flatten_encodeGap, Nat.add_assoc]

omit [StorageAdapter A] [FileReader A] in
theorem LoadsFile.nothingRead_iff {bs : Bytes} {gs : List Gap} {success : Bool} (h : LoadsFile bs gs success) :
    NothingRead bs ↔ success = false ∧ gs = [] := by
  unfold NothingRead
  cases h with
  | noCount hlen => exact ⟨fun _ => ⟨rfl, rfl⟩, fun _ => .inl hlen⟩
  | @noGaps n _ tail hn hlen htail hbs =>
    rw [hbs, count_eq hn, length_count]
    constructor
    · rintro (hlt | ⟨-, hlt⟩ | ⟨hzero, -⟩)
      · omega
      · exact ⟨rfl, List.eq_nil_of_length_eq_zero (by omega)⟩
      · omega
    · rintro ⟨-, rfl⟩
      exact .inr (.inl ⟨Nat.ne_of_gt hlen, by simp only [List.length_nil]; omega⟩)
  | @noHash _ tail hn htail hbs =>
    rw [hbs, count_eq hn, length_count]
    constructor
    · rintro (hlt | ⟨hne, hlt⟩ | ⟨hzero, -⟩)
      · omega
      · omega
      · exact ⟨rfl, List.eq_nil_of_length_eq_zero hzero⟩
    · rintro ⟨-, rfl⟩
      refine .inr (.inr ⟨rfl, fun heq => ?_⟩)
      have hlength := congrArg List.length heq
      rw [slice_count, uint64Bytes, length_leBytes, List.length_take] at hlength
      simp only [List.map_nil, List.flatten_nil, List.nil_append] at hlength
      omega
  | @hash _ hash tail hn hbs =>
    have hlength : (uint64Bytes hash ++ tail).length = 8 + tail.length := by
      rw [List.length_append, uint64Bytes, length_leBytes]
    rw [hbs, count_eq hn, length_count, hlength, decide_eq_false_iff_not]
    constructor
    · rintro (hlt | ⟨hne, hlt⟩ | ⟨hzero, hdiffers⟩)
      · omega
      · omega
      · obtain rfl := List.eq_nil_of_length_eq_zero hzero
        refine ⟨fun heq => hdiffers ?_, rfl⟩
        rw [slice_count, List.map_nil, List.flatten_nil, List.nil_append, heq]
        exact List.take_left' (length_leBytes ..)
    · rintro ⟨hdiffers, rfl⟩
      refine .inr (.inr ⟨rfl, fun heq => hdiffers ?_⟩)
      rw [slice_count, List.map_nil, List.flatten_nil, List.nil_append,
        List.take_left' (show (uint64Bytes hash).length = 8 from length_leBytes ..)] at heq
      have hnat := congrArg leNat heq
      rw [uint64Bytes, uint64Bytes, leNat_leBytes_of_lt hash.toNat_lt, leNat_leBytes_of_lt (UInt64.toNat_lt _)] at hnat
      exact UInt64.toNat_inj.1 hnat

/-- **Rejected maps.** Loading ends safely exactly for the file of some gaps, for a file that is not there, and for one
from which no gap is read. -/
theorem loadFromFile_safe_iff {filePath : String} {d : A} (hd : Closed d) (target : FileAllocationManager M) :
    LoadSafe (file d filePath) ((loadFromFile filePath).run ⟨target, d⟩).1
        ((loadFromFile filePath).run ⟨target, d⟩).2.target ↔
      (∃ gs, gs.length < 2 ^ 64 ∧ file d filePath = some (encodeGaps gs)) ∨ file d filePath = none ∨
        ∃ bs, file d filePath = some bs ∧ NothingRead bs := by
  rcases hfile : file d filePath with _ | bs
  · obtain ⟨d', hrun, -⟩ := closing_missing (t := target.clear) (p := loadGaps) hd hfile
    have hload : (loadFromFile filePath).run ⟨target, d⟩ = (.fail, ⟨target.clear, d'⟩) := hrun
    rw [hload]
    exact ⟨fun _ => .inr (.inl rfl), fun _ => .inr ⟨rfl, gaps_clear (s := target)⟩⟩
  · obtain ⟨gs, success, hcase⟩ := exists_loadsFile bs
    obtain ⟨d', hload⟩ := loadFromFile_of_file hcase hd hfile target
    rw [hload]
    constructor
    · rintro (⟨-, hgood⟩ | ⟨hfail, hempty⟩)
      · exact .inl hgood
      · refine .inr (.inr ⟨bs, rfl, hcase.nothingRead_iff.2 ⟨?_, gaps_emplaceAll_clear_eq_nil.1 hempty⟩⟩)
        cases success
        · rfl
        · cases hfail
    · rintro (⟨gs', hlen, hgood⟩ | hnone | ⟨bs', hsame, hnothing⟩)
      · obtain ⟨d'', hret⟩ := loadFromFile_run hlen hd (hfile.trans hgood) target
        rw [hload] at hret
        exact .inl ⟨congrArg Prod.fst hret, gs', hlen, hgood⟩
      · cases hnone
      · cases hsame
        obtain ⟨rfl, rfl⟩ := hcase.nothingRead_iff.1 hnothing
        exact .inr ⟨rfl, gaps_clear (s := target)⟩

end

/-- One gap, whose hash is off by one. -/
def damagedMap : Bytes := leBytes 8 1 ++ (encodeGap ⟨0, 10⟩ ++ leBytes 8 11)

/-- The only file. -/
def mapFile (bs : Bytes) : FopenAdapter 64 := { files := fun path => if path = "gaps" then some bs else none }

/-- Two gaps and their count; the hash is missing. -/
def cutMap : Bytes := leBytes 8 2 ++ (encodeGap ⟨0, 10⟩ ++ encodeGap ⟨20, 5⟩)

open ByteSum

/-- A whole map, one that is cut off inside its first gap, and one that is cut off inside its second. -/
theorem loadFromFile_safe_iff_maps :
    LoadSafe (some (encodeGaps [⟨0, 10⟩]))
        ((loadFromFile "gaps").run ⟨(new : FileAllocationManager GapList), mapFile (encodeGaps [⟨0, 10⟩])⟩).1
        ((loadFromFile "gaps").run ⟨(new : FileAllocationManager GapList), mapFile (encodeGaps [⟨0, 10⟩])⟩).2.target ∧
      ((loadFromFile "gaps").run ⟨(new : FileAllocationManager GapList), mapFile (cutMap.take 20)⟩).2.target.gaps = [] ∧
      ¬ LoadSafe (some (cutMap.take 30))
        ((loadFromFile "gaps").run ⟨(new : FileAllocationManager GapList), mapFile (cutMap.take 30)⟩).1
        ((loadFromFile "gaps").run ⟨(new : FileAllocationManager GapList), mapFile (cutMap.take 30)⟩).2.target := by
  have hmap : ∀ bs, FileAdapter.file (mapFile bs) "gaps" = some bs := fun _ => rfl
  have hnot : ∀ (n : ℕ) (gs : List Gap), n % 16 ≠ 0 → n ≤ 40 → cutMap.take n ≠ encodeGaps gs := by
    intro n gs hn hle heq
    have hlength := congrArg List.length heq
    have hcut : cutMap.length = 40 := by decide
    rw [encodeGaps, length_count, uint64Bytes, length_leBytes, List.length_take, hcut, Nat.min_eq_left hle] at hlength
    omega
  refine ⟨?_, ?_, fun hsafe => ?_⟩
  · exact (loadFromFile_safe_iff (show FileAdapter.Closed (mapFile (encodeGaps [⟨0, 10⟩])) from rfl)
      (new : FileAllocationManager GapList)).2 (.inl ⟨_, Nat.one_lt_two_pow (by decide), hmap _⟩)
  · have hsafe := (loadFromFile_safe_iff (show FileAdapter.Closed (mapFile (cutMap.take 20)) from rfl)
      (new : FileAllocationManager GapList)).2 (.inr (.inr ⟨_, hmap _, .inr (.inl (by decide))⟩))
    rcases hsafe with ⟨-, gs, -, hgood⟩ | ⟨-, hempty⟩
    · exact absurd (Option.some.inj hgood) (hnot 20 gs (by decide) (by decide))
    · exact hempty
  · rcases (loadFromFile_safe_iff (show FileAdapter.Closed (mapFile (cutMap.take 30)) from rfl)
      (new : FileAllocationManager GapList)).1 hsafe with ⟨gs, -, hgood⟩ | hnone | ⟨bs, hsame, hnothing⟩
    · exact hnot 30 gs (by decide) (by decide) (Option.some.inj hgood)
    · cases hnone
    · cases hsame
      revert hnothing
      unfold NothingRead
      decide

/-- The gap of the rejected file stays. -/
theorem not_loadFromFile_safe : ¬ ∀ (d : FopenAdapter 64) (filePath : String) (target : FileAllocationManager GapList),
    FileAdapter.Closed d → LoadSafe (FileAdapter.file d filePath) ((loadFromFile filePath).run ⟨target, d⟩).1
      ((loadFromFile filePath).run ⟨target, d⟩).2.target := by
  intro h
  have hsafe := h (mapFile damagedMap) "gaps" new rfl
  have hfail : ((loadFromFile "gaps").run ⟨(new : FileAllocationManager GapList), mapFile damagedMap⟩).1 = .fail := by
    decide +kernel
  have hgaps : ((loadFromFile "gaps").run ⟨(new : FileAllocationManager GapList), mapFile damagedMap⟩).2.target.gaps =
      [⟨0, 10⟩] := by
    decide +kernel
  rcases hsafe with ⟨hret, -⟩ | ⟨-, hempty⟩
  · rw [hfail] at hret
    cases hret
  · rw [hgaps] at hempty
    cases hempty

end FileAllocationManager

end CppDb
