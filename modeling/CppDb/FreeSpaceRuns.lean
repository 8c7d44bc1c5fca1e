import CppDb.Consolidation

/-!
# Runs of the free-space manager

Whatever is registered, taken and consolidated in whatever order: `Sound` holds after every run of calls that
are `Allowed`. Seen from outside a run is a sequence of transfers into and out of the free bytes.
-/

namespace CppDb
open Embed Range

/-- The calls of a run. -/
inductive FreeSpaceCall where
  | registerGap (gapOffset gapLength : UInt64)
  | takeSuitableGap (requestedGapLength : UInt64)
  | consolidateGaps
deriving DecidableEq

namespace FileAllocationManager
variable {M : Type} [GapSet M] {s : FileAllocationManager M} {n : UInt64}

def bytesAt (offset length : UInt64) : Set ℕ := Set.Ico offset.toNat (offset.toNat + length.toNat)

def call (s : FileAllocationManager M) : FreeSpaceCall → FileAllocationManager M
  | .registerGap gapOffset gapLength => s.registerGap gapOffset gapLength
  | .takeSuitableGap requestedGapLength => (s.takeSuitableGap requestedGapLength).2
  | .consolidateGaps => s.consolidateGaps

/-- What the callers keep to: only bytes that are not free are registered. -/
def Allowed (s : FileAllocationManager M) : FreeSpaceCall → Prop
  | .registerGap gapOffset gapLength =>
    0 < gapLength.toNat ∧ gapOffset.toNat + gapLength.toNat < 2 ^ 64 ∧ Disjoint s.free (bytesAt gapOffset gapLength)
  | .takeSuitableGap requestedGapLength => 0 < requestedGapLength.toNat
  | .consolidateGaps => True

/-- What the call says it gives or takes. -/
def transfer (s : FileAllocationManager M) : FreeSpaceCall → List (Transfer ℕ)
  | .registerGap gapOffset gapLength => [.give (bytesAt gapOffset gapLength)]
  | .takeSuitableGap requestedGapLength =>
    if (s.takeSuitableGap requestedGapLength).1 = NoGap then []
    else [.take (bytesAt (s.takeSuitableGap requestedGapLength).1 requestedGapLength)]
  | .consolidateGaps => []

def transfers : FileAllocationManager M → List FreeSpaceCall → List (Transfer ℕ)
  | _, [] => []
  | s, c :: cs => s.transfer c ++ transfers (s.call c) cs

theorem Valid.registerGap (h : s.Valid) {gapOffset gapLength : UInt64}
    (hallowed : s.Allowed (.registerGap gapOffset gapLength)) :
    (s.registerGap gapOffset gapLength).Valid ∧
      (s.registerGap gapOffset gapLength).free = s.free ∪ bytesAt gapOffset gapLength :=
  GapSet.Valid.emplace h ⟨hallowed.1, hallowed.2.1⟩ hallowed.2.2

/-- What `takeSuitableGap` may return: nothing, or bytes that were free. -/
structure Taken (s : FileAllocationManager M) (n : UInt64) (result : UInt64 × FileAllocationManager M) : Prop where
  valid : result.2.Valid
  free : result.1 = NoGap ∧ result.2.free = s.free ∨
    result.1 ≠ NoGap ∧ bytesAt result.1 n ⊆ s.free ∧ result.2.free = s.free \ bytesAt result.1 n

omit [GapSet M] in
theorem range_remaining {gap : Gap} (hok : gap.Ok) (hle : n.toNat ≤ gap.length.toNat) :
    Gap.range ⟨gap.location + n, gap.length - n⟩ =
      ⟨gap.location.toNat + n.toNat, gap.location.toNat + gap.length.toNat⟩ := by
  have hstop := hok.stop_lt
  have hlocation : (gap.location + n).toNat = gap.location.toNat + n.toNat := by
    rw [UInt64.toNat_add, Nat.mod_eq_of_lt (by omega)]
  have hrest : (gap.length - n).toNat = gap.length.toNat - n.toNat :=
    UInt64.toNat_sub_of_le _ _ (UInt64.le_iff_toNat_le.2 hle)
  simp only [Gap.range, hlocation, hrest, Range.mk.injEq, true_and]
  omega

theorem Valid.location_ne (h : s.Valid) {gap : Gap} (hgap : gap ∈ s.gaps) : gap.location ≠ NoGap := by
  intro heq
  have hok := h.ok gap hgap
  have hpos := hok.pos
  have hstop := hok.stop_lt
  rw [heq] at hstop
  have hno : NoGap.toNat = 2 ^ 64 - 1 := rfl
  omega

theorem Valid.take (h : s.Valid) (hn : 0 < n.toNat) {gap : Gap} (hgap : gap ∈ s.gaps) (hle : n ≤ gap.length) :
    Taken s n (gap.location, { s with
      gapLocations :=
        if gap.length ≠ n then
          GapSet.emplace ⟨gap.location + n, gap.length - n⟩ (GapSet.erase gap.location s.gapLocations)
        else GapSet.erase gap.location s.gapLocations }) := by
  have hok := h.ok gap hgap
  have hpos := hok.pos
  have hstop := hok.stop_lt
  have hle : n.toNat ≤ gap.length.toNat := UInt64.le_iff_toNat_le.1 hle
  obtain ⟨hvalid, hfree⟩ := GapSet.Valid.erase h hgap
  have hsubset : gap.range.points ⊆ s.free := fun x hx => GapSet.mem_free.2 ⟨gap, hgap, hx⟩
  have hne := h.location_ne hgap
  by_cases hlength : gap.length = n
  · rw [if_neg (not_not.2 hlength)]
    refine ⟨hvalid, .inr ⟨hne, ?_, ?_⟩⟩
    · rw [← hlength]
      exact hsubset
    · rw [← hlength]
      exact hfree
  · rw [if_pos hlength]
    have hlt : n.toNat < gap.length.toNat := lt_of_le_of_ne hle fun heq => hlength (UInt64.toNat_inj.1 heq.symm)
    have hpoints := range_remaining hok hle
    have hrange : gap.range = ⟨gap.location.toNat, gap.location.toNat + gap.length.toNat⟩ := rfl
    obtain ⟨hvalid', hfree'⟩ := hvalid.emplace (g := ⟨gap.location + n, gap.length - n⟩)
      (by rw [Gap.ok_iff, hpoints]; exact ⟨by dsimp only; omega, hstop⟩)
      (by
        rw [hfree, hpoints]
        refine Set.disjoint_left.2 fun x hx hx' => hx.2 ?_
        rw [hrange]
        exact ⟨le_trans (Nat.le_add_right ..) hx'.1, hx'.2⟩)
    refine ⟨hvalid', .inr ⟨hne, ?_, ?_⟩⟩
    · refine fun x hx => hsubset ⟨hx.1, ?_⟩
      have hx2 : x < gap.location.toNat + n.toNat := hx.2
      rw [hrange]
      dsimp only
      omega
    · refine hfree'.trans ?_
      rw [hfree, hpoints, hrange]
      ext x
      simp only [points, bytesAt, Set.mem_union, Set.mem_sdiff, Set.mem_Ico, free]
      constructor
      · rintro (⟨hx, hnot⟩ | hx)
        · exact ⟨hx, by omega⟩
        · exact ⟨hsubset ⟨by rw [hrange]; dsimp only; omega, hx.2⟩, by omega⟩
      · rintro ⟨hx, hnot⟩
        by_cases hin : gap.location.toNat + n.toNat ≤ x ∧ x < gap.location.toNat + gap.length.toNat
        · exact .inr hin
        · exact .inl ⟨hx, by omega⟩

theorem Valid.takeSuitableGap (h : s.Valid) (hn : 0 < n.toNat) : Taken s n (s.takeSuitableGap n) := by
  fun_induction FileAllocationManager.takeSuitableGap n s with
  | case1 s hnone hfew => exact ⟨h, .inl ⟨rfl, rfl⟩⟩
  | case2 s hnone hfew ih =>
    obtain ⟨hvalid, hfree⟩ := h.consolidateGaps
    obtain ⟨hvalid', hres⟩ := ih hvalid
    rw [hfree] at hres
    exact ⟨hvalid', hres⟩
  | case3 s gap rest hfound erased =>
    have hmem : gap ∈ GapSet.findSecondaryInRange n 0xFFFFFFFFFFFFFFFF s.gapLocations := by
      rw [hfound]
      exact List.mem_cons_self ..
    obtain ⟨hgap, hle, -⟩ := GapSet.mem_findSecondaryInRange.1 hmem
    exact h.take hn hgap hle

/-! ### Runs -/

/-- The gaps are in order, and whatever is called next does what it should. -/
structure Sound (s : FileAllocationManager M) : Prop where
  ok : ∀ g ∈ s.gaps, 0 < g.length.toNat ∧ g.endOffset.toNat = g.location.toNat + g.length.toNat
  disjoint : ∀ g ∈ s.gaps, ∀ g' ∈ s.gaps, g ≠ g' → Disjoint g.range.points g'.range.points
  /-- The assertion in `consolidateGaps`. -/
  asserts : ∀ pre current next post, s.gaps = pre ++ current :: next :: post →
    current.endOffset ≥ next.location → current.endOffset = next.location
  registerGap : ∀ gapOffset gapLength, s.Allowed (.registerGap gapOffset gapLength) →
    (s.registerGap gapOffset gapLength).free = s.free ∪ bytesAt gapOffset gapLength
  consolidateGaps : s.consolidateGaps.free = s.free
  takeSuitableGap : ∀ n, 0 < n.toNat → Taken s n (s.takeSuitableGap n)

theorem Valid.sound (h : s.Valid) : s.Sound where
  ok g hg := ⟨(h.ok g hg).pos, (h.ok g hg).toNat_endOffset⟩
  disjoint := h.disjoint
  asserts pre current next post hgaps hge := by
    have hcurrent : current ∈ s.gaps := by simp [hgaps]
    have hpair := (GapSet.Valid.ordered h).before
    rw [show GapSet.toList s.gapLocations = _ from hgaps, List.map_append, List.pairwise_append] at hpair
    have hle : current.range.stop ≤ next.range.start := (List.pairwise_cons.1 hpair.2.1).1 _ (by simp)
    rw [ge_iff_le, UInt64.le_iff_toNat_le, (h.ok current hcurrent).toNat_endOffset] at hge
    refine UInt64.toNat_inj.1 ?_
    rw [(h.ok current hcurrent).toNat_endOffset]
    exact le_antisymm hle hge
  registerGap _ _ hallowed := (h.registerGap hallowed).2
  consolidateGaps := h.consolidateGaps.2
  takeSuitableGap _ hn := h.takeSuitableGap hn

theorem valid_new : (new : FileAllocationManager M).Valid := by
  have hnone : ∀ g, g ∉ GapSet.toList (GapSet.empty : M) := by simp [GapSet.toList_empty]
  exact ⟨fun g hg => absurd hg (hnone g), fun g hg => absurd hg (hnone g)⟩

theorem free_new : (new : FileAllocationManager M).free = ∅ := by
  simp [free, GapSet.free, new, GapSet.toList_empty]

/-- One call: the gaps stay valid, and the free bytes change by what the call says. -/
theorem valid_call (h : s.Valid) {c : FreeSpaceCall} (hc : s.Allowed c) :
    (s.call c).Valid ∧ (s.call c).free = run Transfer.apply s.free (s.transfer c) ∧
      Along Transfer.apply Transfer.Proper s.free (s.transfer c) := by
  cases c with
  | registerGap gapOffset gapLength =>
    obtain ⟨hvalid, hfree⟩ := h.registerGap hc
    exact ⟨hvalid, hfree, hc.2.2, trivial⟩
  | takeSuitableGap n =>
    obtain ⟨hvalid, ⟨hno, hfree⟩ | ⟨hne, hsubset, hfree⟩⟩ := h.takeSuitableGap hc
    · rw [transfer, if_pos hno]
      exact ⟨hvalid, hfree, trivial⟩
    · rw [transfer, if_neg hne]
      exact ⟨hvalid, hfree, hsubset, trivial⟩
  | consolidateGaps =>
    obtain ⟨hvalid, hfree⟩ := h.consolidateGaps
    exact ⟨hvalid, hfree, trivial⟩

theorem valid_run (h : s.Valid) {calls : List FreeSpaceCall} (hcalls : Along call Allowed s calls) :
    (run call s calls).Valid ∧ (run call s calls).free = run Transfer.apply s.free (s.transfers calls) ∧
      Along Transfer.apply Transfer.Proper s.free (s.transfers calls) := by
  induction calls generalizing s with
  | nil => exact ⟨h, rfl, trivial⟩
  | cons c calls ih =>
    obtain ⟨hvalid, hfree, hproper⟩ := valid_call h hcalls.1
    obtain ⟨hvalid', hfree', hproper'⟩ := ih hvalid hcalls.2
    refine ⟨hvalid', ?_, ?_⟩
    · rw [run_cons, transfers, run_append, ← hfree, hfree']
    · rw [transfers, Along.append_iff, ← hfree]
      exact ⟨hproper, hproper'⟩

/-- **Free-space safety.** After every run the manager is `Sound`, and the free bytes are what was registered
and not handed out: between two times that a byte is handed out it is registered again, and a byte that was
registered is free or was handed out since. -/
theorem freeSpace_sound {calls : List FreeSpaceCall}
    (hcalls : Along call Allowed (new : FileAllocationManager M) calls) :
    (run call (new : FileAllocationManager M) calls).Sound ∧
      (run call (new : FileAllocationManager M) calls).free =
        run Transfer.apply ∅ ((new : FileAllocationManager M).transfers calls) ∧
      Along Transfer.apply Transfer.Proper ∅ ((new : FileAllocationManager M).transfers calls) ∧
      (∀ pre mid post bytes bytes' b, (new : FileAllocationManager M).transfers calls =
          pre ++ .take bytes :: (mid ++ .take bytes' :: post) → b ∈ bytes → b ∈ bytes' →
        ∃ given, .give given ∈ mid ∧ b ∈ given) ∧
      ∀ pre post bytes b, (new : FileAllocationManager M).transfers calls = pre ++ .give bytes :: post →
        b ∈ bytes → b ∈ (run call (new : FileAllocationManager M) calls).free ∨
          ∃ taken, .take taken ∈ post ∧ b ∈ taken := by
  obtain ⟨hvalid, hfree, hproper⟩ := valid_run valid_new hcalls
  rw [free_new] at hfree hproper
  refine ⟨hvalid.sound, hfree, hproper, ?_, ?_⟩
  · intro pre mid post bytes bytes' b htransfers hb hb'
    rw [htransfers] at hproper
    exact Transfer.given_between hproper hb hb'
  · intro pre post bytes b htransfers hb
    rw [hfree, htransfers]
    exact Transfer.mem_run_or_taken hb

/-- Two gaps of ten bytes that touch, of which fifteen bytes are taken. -/
def fifteenBytes : List FreeSpaceCall :=
  [.registerGap 100 10, .registerGap 110 10, .consolidateGaps, .takeSuitableGap 15]

theorem freeSpace_sound_fifteenBytes : (run call (new : FileAllocationManager GapList) fifteenBytes).Sound := by
  have hfirst : (new : FileAllocationManager GapList).Allowed (.registerGap 100 10) := by
    refine ⟨by decide, by decide, ?_⟩
    rw [free_new]
    exact Set.empty_disjoint _
  have hsecond : ((new : FileAllocationManager GapList).registerGap 100 10).Allowed (.registerGap 110 10) := by
    refine ⟨by decide, by decide, ?_⟩
    rw [(valid_new.registerGap hfirst).2, free_new, Set.empty_union, bytesAt, bytesAt, Set.Ico_disjoint_Ico]
    decide
  have hcalls : Along call Allowed (new : FileAllocationManager GapList) fifteenBytes :=
    ⟨hfirst, hsecond, trivial, by change 0 < 15; decide, trivial⟩
  exact (freeSpace_sound hcalls).1

end FileAllocationManager

end CppDb
