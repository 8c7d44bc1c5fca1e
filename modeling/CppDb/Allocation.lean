import CppDb.FreeSpaceMap

/-!
# Allocation is best-fit

`takeSuitableGap` searches once, or once more after a consolidation (`takeSuitableGap_eq`). One search finds a gap
of minimal length wherever there is one (`Valid.search`), and after a consolidation there is one exactly when there
are enough free bytes in a row (`exists_gap_iff`). Whether it may consolidate depends on a counter that `clear`, and
with it `loadFromFile`, sets back.
-/

namespace CppDb
open Embed Range

namespace FileAllocationManager
variable {M : Type} [GapSet M] {s : FileAllocationManager M} {n : UInt64}
open GapSet (toList emplace erase findSecondaryInRange)

/-- `takeSuitableGap` up to where it would consolidate. -/
def search (requestedGapLength : UInt64) (s : FileAllocationManager M) : UInt64 × FileAllocationManager M :=
  match findSecondaryInRange requestedGapLength 0xFFFFFFFFFFFFFFFF s.gapLocations with
  | [] => (NoGap, s)
  | gap :: _ =>
    (gap.location, { s with
      gapLocations :=
        if gap.length ≠ requestedGapLength then
          emplace ⟨gap.location + requestedGapLength, gap.length - requestedGapLength⟩
            (erase gap.location s.gapLocations)
        else erase gap.location s.gapLocations })

/-- The first search finds nothing, and there were insertions enough. -/
def consolidates (s : FileAllocationManager M) (requestedGapLength : UInt64) : Bool :=
  (findSecondaryInRange requestedGapLength 0xFFFFFFFFFFFFFFFF s.gapLocations).isEmpty &&
    !decide (s.insertionsSinceLastConsolidation < 1000)

theorem takeSuitableGap_of_not (h : s.consolidates n = false) : s.takeSuitableGap n = search n s := by
  unfold takeSuitableGap search
  unfold consolidates at h
  cases hfound : findSecondaryInRange n 0xFFFFFFFFFFFFFFFF s.gapLocations with
  | nil =>
    rw [hfound] at h
    have hfew : s.insertionsSinceLastConsolidation < 1000 := by simpa using h
    exact if_pos hfew
  | cons gap rest => rfl

theorem takeSuitableGap_eq (n : UInt64) (s : FileAllocationManager M) :
    s.takeSuitableGap n = search n (if s.consolidates n then s.consolidateGaps else s) := by
  cases hc : s.consolidates n
  · exact takeSuitableGap_of_not hc
  · have hagain : s.consolidateGaps.consolidates n = false := by
      simp [consolidates, consolidateGaps]
    rw [if_pos rfl, ← takeSuitableGap_of_not hagain]
    conv_lhs => unfold takeSuitableGap
    simp only [consolidates, Bool.and_eq_true, List.isEmpty_iff, Bool.not_eq_true', decide_eq_false_iff_not] at hc
    split
    · rw [if_neg hc.2]
    · next hfound =>
      rw [hc.1] at hfound
      cases hfound

/-- Of the gaps that are long enough one of the shortest. -/
structure BestFit (gs : List Gap) (n : UInt64) (gap : Gap) : Prop where
  mem : gap ∈ gs
  fits : n ≤ gap.length
  least : ∀ g ∈ gs, n ≤ g.length → gap.length ≤ g.length

/-- The start of a best fit among `gs` is returned, and what remains of it is one gap behind the allocated bytes. -/
def TakesBest (gs : List Gap) (n : UInt64) (result : UInt64 × FileAllocationManager M) : Prop :=
  ∃ gap, BestFit gs n gap ∧ result.1 = gap.location ∧
    ∀ x, x ∈ result.2.gaps ↔ x ∈ gs ∧ x ≠ gap ∨
      gap.length ≠ n ∧ x.range = ⟨gap.location.toNat + n.toNat, gap.location.toNat + gap.length.toNat⟩

theorem findSecondaryInRange_eq_nil {m : M} :
    findSecondaryInRange n 0xFFFFFFFFFFFFFFFF m = [] ↔ ∀ g ∈ toList m, g.length < n := by
  have hmax : ∀ g : Gap, g.length ≤ 0xFFFFFFFFFFFFFFFF := fun g =>
    UInt64.le_iff_toNat_le.2 (Nat.le_of_lt_succ g.length.toNat_lt)
  rw [List.eq_nil_iff_forall_not_mem]
  constructor
  · intro h g hg
    by_contra hlt
    exact h g (GapSet.mem_findSecondaryInRange.2 ⟨hg, UInt64.not_lt.1 hlt, hmax g⟩)
  · intro h g hg
    obtain ⟨hmem, hle, -⟩ := GapSet.mem_findSecondaryInRange.1 hg
    exact absurd (h g hmem) (UInt64.not_lt.2 hle)

theorem bestFit_of_found {gap : Gap} {rest : List Gap}
    (h : findSecondaryInRange n 0xFFFFFFFFFFFFFFFF s.gapLocations = gap :: rest) : BestFit s.gaps n gap := by
  have hmem : gap ∈ findSecondaryInRange n 0xFFFFFFFFFFFFFFFF s.gapLocations := by
    rw [h]
    exact List.mem_cons_self ..
  obtain ⟨hgap, hfits, -⟩ := GapSet.mem_findSecondaryInRange.1 hmem
  refine ⟨hgap, hfits, fun g hg hle => ?_⟩
  have hg : g ∈ findSecondaryInRange n 0xFFFFFFFFFFFFFFFF s.gapLocations :=
    GapSet.mem_findSecondaryInRange.2 ⟨hg, hle, UInt64.le_iff_toNat_le.2 (Nat.le_of_lt_succ g.length.toNat_lt)⟩
  have hsorted := GapSet.findSecondaryInRange_sorted n 0xFFFFFFFFFFFFFFFF s.gapLocations
  rw [h] at hg hsorted
  rcases List.mem_cons.1 hg with rfl | hg
  · exact UInt64.le_refl _
  · exact (List.pairwise_cons.1 hsorted).1 g hg

theorem Valid.remaining_fresh (h : s.Valid) (hn : 0 < n.toNat) {gap y : Gap} (hgap : gap ∈ s.gaps)
    (hlt : n.toNat < gap.length.toNat) (hy : y ∈ s.gaps) : y.location ≠ gap.location + n := by
  intro heq
  have hstop := (h.ok gap hgap).stop_lt
  have hpos := (h.ok y hy).pos
  have hlocation : y.location.toNat = gap.location.toNat + n.toNat := by
    rw [heq, UInt64.toNat_add, Nat.mod_eq_of_lt (by omega)]
  have hne : y ≠ gap := by
    rintro rfl
    omega
  have hfirst : y.location.toNat ∈ y.range.points := ⟨le_rfl, Nat.lt_add_of_pos_right hpos⟩
  refine Set.disjoint_left.1 (h.disjoint y hy gap hgap hne) hfirst ?_
  change gap.location.toNat ≤ y.location.toNat ∧ y.location.toNat < gap.location.toNat + gap.length.toNat
  omega

/-- One search: nothing, when no gap is long enough, or a best fit. -/
theorem Valid.search (h : s.Valid) (hn : 0 < n.toNat) :
    ((search n s).1 = NoGap ↔ ∀ g ∈ s.gaps, g.length < n) ∧
      ((search n s).1 ≠ NoGap → TakesBest s.gaps n (search n s)) := by
  unfold FileAllocationManager.search
  split
  · next hnone => exact ⟨⟨fun _ => findSecondaryInRange_eq_nil.1 hnone, fun _ => rfl⟩, fun hne => absurd rfl hne⟩
  · next gap rest hfound =>
    have hbest := bestFit_of_found hfound
    have hok := h.ok gap hbest.mem
    refine ⟨⟨fun heq => absurd heq (h.location_ne hbest.mem), fun hshort => ?_⟩, fun _ => ?_⟩
    · exact absurd (hshort gap hbest.mem) (UInt64.not_lt.2 hbest.fits)
    · refine ⟨gap, hbest, rfl, fun x => ?_⟩
      have hrest := range_remaining hok (UInt64.le_iff_toNat_le.1 hbest.fits)
      have herase : x ∈ toList (erase gap.location s.gapLocations) ↔ x ∈ s.gaps ∧ x ≠ gap := by
        rw [GapSet.mem_erase]
        refine and_congr_right fun hx => not_congr ⟨GapSet.eq_of_location hx hbest.mem, congrArg Gap.location⟩
      by_cases hlength : gap.length = n
      · simp only [gaps, hlength, ne_eq, not_true_eq_false, if_false, false_and, or_false]
        exact herase
      · have hlt : n.toNat < gap.length.toNat :=
          lt_of_le_of_ne (UInt64.le_iff_toNat_le.1 hbest.fits) fun heq => hlength (UInt64.toNat_inj.1 heq.symm)
        simp only [gaps, ne_eq, hlength, not_false_eq_true, if_true, true_and]
        rw [GapSet.mem_emplace, herase, ← hrest]
        refine or_congr_right ⟨fun hx => congrArg Gap.range hx.1, fun hx => ⟨Gap.range_inj hx, fun y hy => ?_⟩⟩
        exact h.remaining_fresh hn hbest.mem hlt (GapSet.mem_erase.1 hy).1

/-- After a consolidation a gap is long enough exactly when there are so many free bytes in a row. -/
theorem Valid.exists_gap_iff (h : s.Valid) (hn : 0 < n.toNat) :
    (∃ g ∈ s.consolidateGaps.gaps, n ≤ g.length) ↔ ∃ offset, Set.Ico offset (offset + n.toNat) ⊆ s.free := by
  have hfree : s.consolidateGaps.free = s.free := h.consolidateGaps.2
  constructor
  · rintro ⟨g, hg, hle⟩
    refine ⟨g.location.toNat, fun x hx => ?_⟩
    have hle : n.toNat ≤ g.length.toNat := UInt64.le_iff_toNat_le.1 hle
    rw [← hfree]
    refine GapSet.mem_free.2 ⟨g, hg, hx.1, hx.2.trans_le ?_⟩
    exact Nat.add_le_add_left hle _
  · rintro ⟨offset, hsubset⟩
    rw [← hfree] at hsubset
    obtain ⟨r, hr, hin⟩ := (separated_consolidateGaps h).exists_subset (Nat.lt_add_of_pos_right hn) hsubset
    obtain ⟨g, hg, rfl⟩ := List.mem_map.1 hr
    refine ⟨g, hg, UInt64.le_iff_toNat_le.2 ?_⟩
    have hfirst := hin ⟨le_rfl, Nat.lt_add_of_pos_right hn⟩
    have hlast := hin (a := offset + n.toNat - 1) ⟨by omega, by omega⟩
    have hstart : g.location.toNat ≤ offset := hfirst.1
    have hstop : offset + n.toNat - 1 < g.location.toNat + g.length.toNat := hlast.2
    omega

theorem subset_free_of_gap {g : Gap} (hg : g ∈ s.gaps) (hle : n ≤ g.length) :
    ∃ offset, Set.Ico offset (offset + n.toNat) ⊆ s.free := by
  have hle : n.toNat ≤ g.length.toNat := UInt64.le_iff_toNat_le.1 hle
  refine ⟨g.location.toNat, fun x hx => GapSet.mem_free.2 ⟨g, hg, hx.1, hx.2.trans_le ?_⟩⟩
  exact Nat.add_le_add_left hle _

/-- What `takeSuitableGap(n)` does in a state; `often` says that there were insertions enough. -/
structure Allocates (s : FileAllocationManager M) (often : Prop) (n : UInt64) : Prop where
  /-- At most one consolidation. -/
  once : s.takeSuitableGap n = search n s ∨ s.takeSuitableGap n = search n s.consolidateGaps
  none_iff : (s.takeSuitableGap n).1 = NoGap ↔ (∀ g ∈ s.gaps, g.length < n) ∧
    (often → ∀ offset, ¬ Set.Ico offset (offset + n.toNat) ⊆ s.free)
  best : (s.takeSuitableGap n).1 ≠ NoGap → TakesBest s.gaps n (s.takeSuitableGap n) ∨
    (∀ g ∈ s.gaps, g.length < n) ∧ TakesBest s.consolidateGaps.gaps n (s.takeSuitableGap n)
  /-- A real offset is not `NoGap`. -/
  real : ∀ gap, gap ∈ s.gaps ∨ gap ∈ s.consolidateGaps.gaps → gap.location ≠ NoGap

theorem consolidates_iff : s.consolidates n = true ↔
    (∀ g ∈ s.gaps, g.length < n) ∧ 1000 ≤ s.insertionsSinceLastConsolidation.toNat := by
  simp only [consolidates, Bool.and_eq_true, List.isEmpty_iff, Bool.not_eq_true', decide_eq_false_iff_not,
    findSecondaryInRange_eq_nil, UInt64.not_lt, UInt64.le_iff_toNat_le]
  exact Iff.rfl

theorem Valid.allocates (h : s.Valid) (hn : 0 < n.toNat) :
    s.Allocates (1000 ≤ s.insertionsSinceLastConsolidation.toNat) n := by
  have hrow : (∀ g ∈ s.consolidateGaps.gaps, g.length < n) ↔
      ∀ offset, ¬ Set.Ico offset (offset + n.toNat) ⊆ s.free := by
    have hiff := not_congr (h.exists_gap_iff hn)
    push Not at hiff
    simpa only [UInt64.not_le] using hiff
  have heq := takeSuitableGap_eq n s
  have hreal : ∀ gap, gap ∈ s.gaps ∨ gap ∈ s.consolidateGaps.gaps → gap.location ≠ NoGap := by
    rintro gap (hgap | hgap)
    · exact h.location_ne hgap
    · exact h.consolidateGaps.1.location_ne hgap
  cases hc : s.consolidates n
  · -- the first search decides
    rw [hc, if_neg Bool.false_ne_true] at heq
    obtain ⟨hnone, hbest⟩ := h.search hn
    refine ⟨.inl heq, ?_, ?_, hreal⟩
    · rw [heq, hnone]
      constructor
      · intro hshort
        refine ⟨hshort, fun hoften => ?_⟩
        rw [consolidates_iff.2 ⟨hshort, hoften⟩] at hc
        cases hc
      · exact And.left
    · intro hne
      rw [heq] at hne ⊢
      exact .inl (hbest hne)
  · obtain ⟨hshort, hoften⟩ := consolidates_iff.1 hc
    rw [hc, if_pos rfl] at heq
    obtain ⟨hnone, hbest⟩ := h.consolidateGaps.1.search hn
    refine ⟨.inr heq, ?_, ?_, hreal⟩
    · rw [heq, hnone, hrow]
      exact ⟨fun hfree => ⟨hshort, fun _ => hfree⟩, fun hfree => hfree.2 hoften⟩
    · intro hne
      rw [heq] at hne ⊢
      exact .inr ⟨hshort, hbest hne⟩

/-! ### Runs -/

/-- The calls of a run; a file that is loaded is the one of these gaps. -/
inductive ManagerCall where
  | freeSpace (c : FreeSpaceCall)
  | clear
  | loadFromFile (gaps : List Gap)

def manage (s : FileAllocationManager M) : ManagerCall → FileAllocationManager M
  | .freeSpace c => s.call c
  | .clear => s.clear
  | .loadFromFile gaps => s.clear.emplaceAll gaps

/-- What the callers keep to; the gaps in a file are not empty, do not overlap and end below 2^64. -/
def Permitted (s : FileAllocationManager M) : ManagerCall → Prop
  | .freeSpace c => s.Allowed c
  | .clear => True
  | .loadFromFile gaps => (∀ g ∈ gaps, g.Ok) ∧
      ∀ g ∈ gaps, ∀ g' ∈ gaps, g ≠ g' → Disjoint g.range.points g'.range.points

/-- How many calls of `registerGap` there were since the last consolidation, `k` of them before this call. What
becomes of the number where the manager is cleared is told by `atClear`. -/
def recount (atClear : ℕ → ℕ) (s : FileAllocationManager M) (k : ℕ) : ManagerCall → ℕ
  | .freeSpace (.registerGap _ _) => k + 1
  | .freeSpace (.takeSuitableGap n) => if s.consolidates n then 0 else k
  | .freeSpace .consolidateGaps => 0
  | .clear => atClear k
  | .loadFromFile _ => atClear k

/-- A manager, with the number. -/
def manageCounted (atClear : ℕ → ℕ) (c : FileAllocationManager M × ℕ) (l : ManagerCall) : FileAllocationManager M × ℕ :=
  (c.1.manage l, c.1.recount atClear c.2 l)

def PermittedCounted (c : FileAllocationManager M × ℕ) (l : ManagerCall) : Prop := c.1.Permitted l

theorem valid_loaded {gs : List Gap} (hok : ∀ g ∈ gs, g.Ok)
    (hdisjoint : ∀ g ∈ gs, ∀ g' ∈ gs, g ≠ g' → Disjoint g.range.points g'.range.points) :
    (s.clear.emplaceAll gs).Valid := by
  have hloc : ∀ g ∈ gs, ∀ g' ∈ gs, g.location = g'.location → g = g' := by
    intro g hg g' hg' heq
    by_contra hne
    have hstart : g.location.toNat = g'.location.toNat := congrArg UInt64.toNat heq
    have hfirst : g.range.start ∈ g.range.points := ⟨le_rfl, (Gap.ok_iff.1 (hok g hg)).1⟩
    refine Set.disjoint_left.1 (hdisjoint g hg g' hg' hne) hfirst ⟨hstart.ge, ?_⟩
    rw [show g.range.start = g'.range.start from hstart]
    exact (Gap.ok_iff.1 (hok g' hg')).1
  constructor
  · intro g hg
    exact hok g ((mem_emplaceAll_clear hloc s).1 hg)
  · intro g hg g' hg'
    exact hdisjoint g ((mem_emplaceAll_clear hloc s).1 hg) g' ((mem_emplaceAll_clear hloc s).1 hg')

theorem valid_manage (h : s.Valid) {l : ManagerCall} (hl : s.Permitted l) : (s.manage l).Valid := by
  cases l with
  | freeSpace c => exact (valid_call h hl).1
  | clear => exact valid_new
  | loadFromFile gaps => exact valid_loaded hl.1 hl.2

theorem insertions_manage {k : ℕ} (h : s.insertionsSinceLastConsolidation.toNat = k % 2 ^ 64) (l : ManagerCall) :
    (s.manage l).insertionsSinceLastConsolidation.toNat = s.recount (fun _ => 0) k l % 2 ^ 64 := by
  cases l with
  | freeSpace c =>
    cases c with
    | registerGap gapOffset gapLength =>
      change (s.insertionsSinceLastConsolidation + 1).toNat = (k + 1) % 2 ^ 64
      rw [UInt64.toNat_add, h]
      simp
    | takeSuitableGap n =>
      have hsearch : ∀ t : FileAllocationManager M,
          (search n t).2.insertionsSinceLastConsolidation = t.insertionsSinceLastConsolidation := by
        intro t
        unfold search
        split <;> rfl
      change (s.takeSuitableGap n).2.insertionsSinceLastConsolidation.toNat =
        (if s.consolidates n then 0 else k) % 2 ^ 64
      rw [takeSuitableGap_eq, hsearch]
      split
      · rfl
      · exact h
    | consolidateGaps => rfl
  | clear => rfl
  | loadFromFile gaps => rfl

theorem manageCounted_run {calls : List ManagerCall}
    (hcalls : Along (manageCounted fun _ => 0) PermittedCounted ((new : FileAllocationManager M), 0) calls)
    {c : FileAllocationManager M × ℕ} (hc : c = run (manageCounted fun _ => 0) (new, 0) calls) :
    c.1.Valid ∧ c.1.insertionsSinceLastConsolidation.toNat = c.2 % 2 ^ 64 := by
  subst hc
  refine Along.invariant (P := fun c => c.1.Valid ∧ c.1.insertionsSinceLastConsolidation.toNat = c.2 % 2 ^ 64)
    (fun c l hc hl => ?_) ⟨valid_new, rfl⟩ hcalls
  exact ⟨valid_manage hc.1 hl, insertions_manage hc.2 l⟩

/-- **Best fit.** After every run `takeSuitableGap(n)` consolidates at most once. It returns `NoGap` exactly when no
gap is long enough and, if its counter of the insertions since the last consolidation or clearing has reached 1000,
there are not so many free bytes in a row; else it returns the start of a best fit and keeps what remains of it. -/
theorem takeSuitableGap_bestFit {calls : List ManagerCall}
    (hcalls : Along (manageCounted fun _ => 0) PermittedCounted ((new : FileAllocationManager M), 0) calls)
    {s : FileAllocationManager M} {k : ℕ} (hs : (s, k) = run (manageCounted fun _ => 0) (new, 0) calls)
    {n : UInt64} (hn : 0 < n.toNat) : s.Allocates (1000 ≤ k % 2 ^ 64) n := by
  obtain ⟨hvalid, hcount⟩ := manageCounted_run hcalls hs
  rw [← hcount]
  exact hvalid.allocates hn

/-- Two gaps of ten bytes that touch. -/
def twoGaps : List ManagerCall := [.freeSpace (.registerGap 0 10), .freeSpace (.registerGap 10 10)]

theorem permitted_twoGaps {M : Type} [GapSet M] {s : FileAllocationManager M} (hs : s.Valid) (hfree : s.free = ∅) :
    s.Permitted (.freeSpace (.registerGap 0 10)) ∧
      (s.registerGap 0 10).Permitted (.freeSpace (.registerGap 10 10)) := by
  have hfirst : s.Allowed (.registerGap 0 10) := by
    refine ⟨by decide, by decide, ?_⟩
    rw [hfree]
    exact Set.empty_disjoint _
  refine ⟨hfirst, by decide, by decide, ?_⟩
  rw [(hs.registerGap hfirst).2, hfree, Set.empty_union, bytesAt, bytesAt, Set.Ico_disjoint_Ico]
  decide

theorem takeSuitableGap_bestFit_twoGaps :
    (run manage (new : FileAllocationManager GapList) twoGaps).Allocates (1000 ≤ 2 % 2 ^ 64) 15 := by
  obtain ⟨hfirst, hsecond⟩ := permitted_twoGaps (valid_new (M := GapList)) free_new
  have hcalls : Along (manageCounted fun _ => 0) PermittedCounted ((new : FileAllocationManager GapList), 0) twoGaps :=
    ⟨hfirst, hsecond, trivial⟩
  exact takeSuitableGap_bestFit hcalls rfl (by decide)

/-- A gap is registered and everything cleared, `k` times. -/
def clearings (k : ℕ) : List ManagerCall := (List.replicate k [.freeSpace (.registerGap 0 1), .clear]).flatten

theorem run_clearings (k j : ℕ) :
    Along (manageCounted id) PermittedCounted ((new : FileAllocationManager GapList), j) (clearings k) ∧
      run (manageCounted id) ((new : FileAllocationManager GapList), j) (clearings k) = (new, j + k) := by
  induction k generalizing j with
  | zero => exact ⟨trivial, rfl⟩
  | succ k ih =>
    have hregister : (new : FileAllocationManager GapList).Permitted (.freeSpace (.registerGap 0 1)) := by
      refine ⟨by decide, by decide, ?_⟩
      rw [free_new]
      exact Set.empty_disjoint _
    obtain ⟨halong, hrun⟩ := ih (j + 1)
    rw [clearings, List.replicate_succ, List.flatten_cons]
    refine ⟨⟨hregister, trivial, halong⟩, ?_⟩
    rw [Nat.add_right_comm, Nat.add_assoc] at hrun
    exact hrun

theorem free_twoGaps {s : FileAllocationManager M} (hs : s.Valid) (hfree : s.free = ∅) :
    Set.Ico 0 (0 + (15 : UInt64).toNat) ⊆ (run manage s twoGaps).free := by
  obtain ⟨hfirst, hsecond⟩ := permitted_twoGaps hs hfree
  obtain ⟨hvalid, hfree₁⟩ := hs.registerGap hfirst
  change _ ⊆ ((s.registerGap 0 10).registerGap 10 10).free
  rw [(hvalid.registerGap hsecond).2, hfree₁, hfree, Set.empty_union]
  intro x hx
  have hlt : x < 15 := hx.2
  rcases Nat.lt_or_ge x 10 with hx' | hx'
  · exact .inl ⟨Nat.zero_le x, hx'⟩
  · exact .inr ⟨hx', show x < 20 by omega⟩

/-- With the insertions counted across `clear`: there were 1002 of them, but the counter of the code is at 2. -/
theorem not_takeSuitableGap_bestFit : ¬ ∀ (calls : List ManagerCall) (s : FileAllocationManager GapList) (k : ℕ)
    (n : UInt64), Along (manageCounted id) PermittedCounted ((new : FileAllocationManager GapList), 0) calls →
    (s, k) = run (manageCounted id) (new, 0) calls → 0 < n.toNat → s.Allocates (1000 ≤ k) n := by
  intro h
  obtain ⟨halong, hrun⟩ := run_clearings 1000 0
  obtain ⟨hfirst, hsecond⟩ := permitted_twoGaps (valid_new (M := GapList)) free_new
  have hvalid : (run manage (new : FileAllocationManager GapList) twoGaps).Valid :=
    valid_manage (valid_manage valid_new hfirst) hsecond
  have hall : Along (manageCounted id) PermittedCounted ((new : FileAllocationManager GapList), 0)
      (clearings 1000 ++ twoGaps) := by
    rw [Along.append_iff, hrun]
    exact ⟨halong, hfirst, hsecond, trivial⟩
  have hgeneral := h (clearings 1000 ++ twoGaps) (run manage new twoGaps) 1002 15 hall
    (by rw [run_append, hrun]; rfl) (by decide)
  have hnone := (hvalid.allocates (n := 15) (by decide)).none_iff.2
    ⟨by decide, fun hoften => absurd hoften (by decide)⟩
  exact (hgeneral.none_iff.1 hnone).2 (by decide) 0 (free_twoGaps valid_new free_new)

/-! ### After a reload -/

theorem valid_run_manage {calls : List ManagerCall}
    (hcalls : Along manage Permitted (new : FileAllocationManager M) calls) :
    (run manage (new : FileAllocationManager M) calls).Valid :=
  hcalls.invariant (P := Valid) (fun _ _ hs hl => valid_manage hs hl) valid_new

theorem Valid.takeSuitableGap_few (h : s.Valid) (hn : 0 < n.toNat)
    (hfew : s.insertionsSinceLastConsolidation.toNat < 1000) :
    (s.takeSuitableGap n).1 ≠ NoGap ↔ ∃ g ∈ s.gaps, n ≤ g.length := by
  rw [ne_eq, (h.allocates hn).none_iff]
  simp only [hfew.not_ge, false_implies, and_true, not_forall, UInt64.not_lt, exists_prop]

theorem Valid.exists_of_taken (h : s.Valid) (hn : 0 < n.toNat) (htake : (s.takeSuitableGap n).1 ≠ NoGap) :
    ∃ offset, Set.Ico offset (offset + n.toNat) ⊆ s.free := by
  rcases (h.allocates hn).best htake with ⟨gap, hbest, -⟩ | ⟨-, gap, hbest, -⟩
  · exact subset_free_of_gap hbest.mem hbest.fits
  · exact (h.exists_gap_iff hn).1 ⟨gap, hbest.mem, hbest.fits⟩

section
variable {A : Type} [StorageAdapter A] [Sha3Hasher] [FileAdapter A]
open FileAdapter (Closed file)

/-- **After saving and loading.** What the manager could take, the reloaded one can take at once exactly when one gap
is long enough, and in any case after a consolidation. -/
theorem takeSuitableGap_reload {calls : List ManagerCall}
    (hcalls : Along manage Permitted (new : FileAllocationManager M) calls) {s : FileAllocationManager M}
    (hs : s = run manage new calls) {filePath : String} {d d' : A} (hd : Closed d)
    (hsave : (s.saveToFile filePath).run d = (.ret (), d')) {reader : A} (hreader : Closed reader)
    (hfile : file reader filePath = file d' filePath) {target : FileAllocationManager M}
    {l : Loading (FileAllocationManager M) A} (hload : (loadFromFile filePath).run ⟨target, reader⟩ = (.ret (), l))
    {n : UInt64} (hn : 0 < n.toNat) (htake : (s.takeSuitableGap n).1 ≠ NoGap) :
    ((l.target.takeSuitableGap n).1 ≠ NoGap ↔ ∃ g ∈ s.gaps, n ≤ g.length) ∧
      (l.target.consolidateGaps.takeSuitableGap n).1 ≠ NoGap := by
  have hvalid : s.Valid := hs ▸ valid_run_manage hcalls
  obtain ⟨r, hrun⟩ := loadFromFile_run hvalid.length_lt hreader (hfile.trans (saveToFile_file hd hsave).2)
    target
  rw [hload] at hrun
  cases hrun
  have hgaps : (target.clear.emplaceAll s.gaps).gaps = s.gaps := gaps_emplaceAll_clear (GapSet.sorted _) target
  have hloaded : (target.clear.emplaceAll s.gaps).Valid := valid_loaded hvalid.ok hvalid.disjoint
  have hfree : (target.clear.emplaceAll s.gaps).free = s.free :=
    congrArg (fun gs : List Gap => covered (gs.map Gap.range)) hgaps
  constructor
  · have hfew := hloaded.takeSuitableGap_few hn (show 0 < 1000 by decide)
    rwa [hgaps] at hfew
  · have hrow := hvalid.exists_of_taken hn htake
    rw [← hfree, ← hloaded.exists_gap_iff hn] at hrow
    exact (hloaded.consolidateGaps.1.takeSuitableGap_few hn (show 0 < 1000 by decide)).2 hrow

end

/-- A gap is registered and taken, `k` times. -/
def takings (k : ℕ) : List ManagerCall :=
  (List.replicate k [.freeSpace (.registerGap 0 1), .freeSpace (.takeSuitableGap 1)]).flatten

/-- No gaps, and a counter. -/
def insertions (k : UInt64) : FileAllocationManager GapList :=
  { gapLocations := GapSet.empty, insertionsSinceLastConsolidation := k }

theorem take_insertions (k : UInt64) :
    ((insertions k).registerGap 0 1).takeSuitableGap 1 = (0, insertions (k + 1)) := by
  have hfound : findSecondaryInRange 1 0xFFFFFFFFFFFFFFFF ((insertions k).registerGap 0 1).gapLocations =
      [⟨0, 1⟩] := by
    simp [findSecondaryInRange, registerGap, emplace, insertions, GapSet.empty, GapList.insertGap]
  rw [takeSuitableGap_of_not (by rw [consolidates, hfound]; rfl), search, hfound]
  rfl

theorem run_takings (k : ℕ) (j : UInt64) : Along manage Permitted (insertions j) (takings k) ∧
    run manage (insertions j) (takings k) = insertions (j + UInt64.ofNat k) := by
  induction k generalizing j with
  | zero => exact ⟨trivial, by simp [takings]⟩
  | succ k ih =>
    have hregister : (insertions j).Permitted (.freeSpace (.registerGap 0 1)) := by
      refine ⟨by decide, by decide, ?_⟩
      rw [show (insertions j).free = ∅ from free_new]
      exact Set.empty_disjoint _
    obtain ⟨halong, hrun⟩ := ih (j + 1)
    have hstep : manage (manage (insertions j) (.freeSpace (.registerGap 0 1))) (.freeSpace (.takeSuitableGap 1)) =
        insertions (j + 1) := congrArg Prod.snd (take_insertions j)
    rw [takings, List.replicate_succ, List.flatten_cons]
    refine ⟨⟨hregister, by change 0 < 1; decide, ?_⟩, ?_⟩
    · rw [hstep]
      exact halong
    · rw [List.cons_append, List.cons_append, List.nil_append, run_cons, run_cons, hstep]
      refine hrun.trans ?_
      rw [UInt64.ofNat_add, UInt64.add_assoc, UInt64.add_comm 1]
      rfl

/-- The state of the two gaps after 1000 insertions. -/
def loose : FileAllocationManager GapList := run manage (insertions 998) twoGaps

theorem loose_eq : ∃ calls, Along manage Permitted (new : FileAllocationManager GapList) calls ∧
    run manage (new : FileAllocationManager GapList) calls = loose := by
  obtain ⟨halong, hrun⟩ := run_takings 998 0
  obtain ⟨hfirst, hsecond⟩ := permitted_twoGaps (s := insertions 998) valid_new free_new
  refine ⟨takings 998 ++ twoGaps, ?_, ?_⟩
  · refine Along.append_iff.2 ⟨halong, ?_⟩
    rw [show (new : FileAllocationManager GapList) = insertions 0 from rfl, hrun]
    exact ⟨hfirst, hsecond, trivial⟩
  · rw [run_append, show (new : FileAllocationManager GapList) = insertions 0 from rfl, hrun]
    rfl

theorem take_loose : loose.Valid ∧ (loose.takeSuitableGap 15).1 ≠ NoGap := by
  obtain ⟨calls, hcalls, hrun⟩ := loose_eq
  have hvalid : loose.Valid := hrun ▸ valid_run_manage hcalls
  refine ⟨hvalid, fun hnone => ?_⟩
  have hrow := ((hvalid.allocates (n := 15) (by decide)).none_iff.1 hnone).2 (by decide) 0
  exact hrow (free_twoGaps (s := insertions 998) valid_new free_new)

section
open ByteSum

theorem save_loose : ∃ d : FopenAdapter 64,
    (loose.saveToFile "gaps").run ({ files := fun _ => none } : FopenAdapter 64) = (.ret (), d) := ⟨_, rfl⟩

theorem takeSuitableGap_reload_loose :
    ∃ (d : FopenAdapter 64) (l : Loading (FileAllocationManager GapList) (FopenAdapter 64)),
    (loose.saveToFile "gaps").run ({ files := fun _ => none } : FopenAdapter 64) = (.ret (), d) ∧
    (loadFromFile "gaps").run ⟨(new : FileAllocationManager GapList), d⟩ = (.ret (), l) ∧
    (l.target.takeSuitableGap 10).1 ≠ NoGap ∧ (l.target.consolidateGaps.takeSuitableGap 15).1 ≠ NoGap := by
  obtain ⟨d, hsave⟩ := save_loose
  obtain ⟨calls, hcalls, hrun⟩ := loose_eq
  obtain ⟨hvalid, htake⟩ := take_loose
  obtain ⟨hclosed, hfile⟩ := saveToFile_file (show FileAdapter.Closed _ from rfl) hsave
  obtain ⟨r, hload⟩ := loadFromFile_run hvalid.length_lt hclosed hfile (new : FileAllocationManager GapList)
  have hten : (loose.takeSuitableGap 10).1 ≠ NoGap := by
    intro hnone
    have hshort := ((hvalid.allocates (n := 10) (by decide)).none_iff.1 hnone).1
    exact absurd (hshort ⟨0, 10⟩ (by decide)) (by decide)
  refine ⟨d, _, hsave, hload, ?_, ?_⟩
  · exact (takeSuitableGap_reload hcalls hrun.symm (show FileAdapter.Closed _ from rfl) hsave hclosed rfl hload
      (n := 10) (by decide) hten).1.2 ⟨⟨0, 10⟩, by decide, by decide⟩
  · exact (takeSuitableGap_reload hcalls hrun.symm (show FileAdapter.Closed _ from rfl) hsave hclosed rfl hload
      (n := 15) (by decide) htake).2

/-- Fifteen bytes cannot be taken after saving and loading. -/
theorem not_takeSuitableGap_reload : ¬ ∀ (calls : List ManagerCall) (s : FileAllocationManager GapList)
    (d d' : FopenAdapter 64) (l : Loading (FileAllocationManager GapList) (FopenAdapter 64)) (n : UInt64),
    Along manage Permitted (new : FileAllocationManager GapList) calls → s = run manage new calls →
    FileAdapter.Closed d → (s.saveToFile "gaps").run d = (.ret (), d') →
    (loadFromFile "gaps").run ⟨new, d'⟩ = (.ret (), l) → 0 < n.toNat →
    (s.takeSuitableGap n).1 ≠ NoGap → (l.target.takeSuitableGap n).1 ≠ NoGap := by
  intro h
  obtain ⟨d, hsave⟩ := save_loose
  obtain ⟨calls, hcalls, hrun⟩ := loose_eq
  obtain ⟨hvalid, htake⟩ := take_loose
  obtain ⟨hclosed, hfile⟩ := saveToFile_file (show FileAdapter.Closed _ from rfl) hsave
  obtain ⟨r, hload⟩ := loadFromFile_run hvalid.length_lt hclosed hfile (new : FileAllocationManager GapList)
  have hgeneral := h calls loose _ d _ 15 hcalls hrun.symm (show FileAdapter.Closed _ from rfl) hsave hload (by decide)
    htake
  have hloaded : (new.clear.emplaceAll loose.gaps : FileAllocationManager GapList).Valid :=
    valid_loaded hvalid.ok hvalid.disjoint
  obtain ⟨g, hg, hle⟩ := (hloaded.takeSuitableGap_few (by decide) (show 0 < 1000 by decide)).1 hgeneral
  have hgaps : (new.clear.emplaceAll loose.gaps : FileAllocationManager GapList).gaps = loose.gaps :=
    gaps_emplaceAll_clear (GapSet.sorted _) new
  rw [hgaps] at hg
  have hshort : ∀ g ∈ loose.gaps, g.length < 15 := by decide
  exact absurd (hshort g hg) (UInt64.not_lt.2 hle)

end

end FileAllocationManager

end CppDb
