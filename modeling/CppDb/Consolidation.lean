import CppDb.FreeSpace

/-!
# Consolidation of the gaps

`consolidateGaps` makes `Range.join` of the ranges of the gaps. `Consolidation.Inv` is the invariant of its
loop: every gap looked at so far is erased, put in again as it is, or the current one, and the merged gaps with
the accumulated one are what joining has made so far.
-/

namespace CppDb
open Embed Range

namespace Consolidation
variable {seen rest : List Gap} {c : Consolidation} {next : Gap}

/-- The loop has looked at the gaps `seen`. -/
structure Inv (seen : List Gap) (c : Consolidation) : Prop where
  current : c.current ∈ seen
  stop : c.accumulatedGap.range.stop = c.current.range.stop
  ok : c.accumulatedGap.Ok
  merged_ok : ∀ g ∈ c.mergedGaps, g.Ok
  kept : ∀ g ∈ seen, g ∈ c.gapsToErase ∨ g ∈ c.mergedGaps ∨ g = c.current
  erased : ∀ g ∈ c.gapsToErase, g ∈ seen ∧ g ≠ c.current
  single : c.accumulationOccurred = false → c.accumulatedGap = c.current

theorem inv_first {g : Gap} (hg : g.Ok) : Inv [g] { current := g, accumulatedGap := g } where
  current := List.mem_singleton_self g
  stop := rfl
  ok := hg
  merged_ok _ h := absurd h List.not_mem_nil
  kept _ h := .inr (.inr (List.mem_singleton.1 h))
  erased _ h := absurd h List.not_mem_nil
  single _ := rfl

theorem range_accumulate {acc next : Gap} (hnext : next.Ok)
    (htouch : acc.range.stop = next.range.start) :
    Gap.range { acc with length := acc.length + next.length } = ⟨acc.range.start, next.range.stop⟩ := by
  have hstop := (Gap.ok_iff.1 hnext).2
  have hsum : (acc.length + next.length).toNat = acc.length.toNat + next.length.toNat := by
    rw [UInt64.toNat_add, Nat.mod_eq_of_lt]
    simp only [Gap.range] at htouch hstop
    omega
  simp only [Gap.range, Range.mk.injEq, true_and] at htouch ⊢
  omega

theorem Inv.touches_iff (h : Inv seen c) (hcurrent : c.current.Ok) (hle : c.current.range.stop ≤ next.range.start) :
    c.current.endOffset ≥ next.location ↔ c.accumulatedGap.range.stop = next.range.start := by
  rw [ge_iff_le, UInt64.le_iff_toNat_le, hcurrent.toNat_endOffset, h.stop]
  exact ⟨fun hge => le_antisymm hle hge, fun heq => heq.ge⟩

theorem Inv.step_touching (h : Inv seen c) (hnext : next.Ok) (hnew : next ∉ seen)
    (htest : c.current.endOffset ≥ next.location) (htouch : c.accumulatedGap.range.stop = next.range.start) :
    Inv (seen ++ [next]) (c.step next) := by
  have hne : ∀ g ∈ seen, g ≠ next := fun g hg heq => hnew (heq ▸ hg)
  have hmem : ∀ {g}, g ∈ seen ++ [next] ↔ g ∈ seen ∨ g = next := by simp
  have hrange := range_accumulate hnext htouch
  rw [Consolidation.step, if_pos htest]
  refine ⟨hmem.2 (.inr rfl), ?_, ?_, h.merged_ok, ?_, ?_, fun hfalse => Bool.noConfusion hfalse⟩
  · rw [hrange]
  · rw [Gap.ok_iff, hrange]
    have hlt := (Gap.ok_iff.1 h.ok).1
    have hok := Gap.ok_iff.1 hnext
    exact ⟨by dsimp only; omega, hok.2⟩
  · intro g hg
    rcases hmem.1 hg with hg | rfl
    · rcases h.kept g hg with herase | hmerged | rfl
      · exact .inl (List.mem_append_left _ herase)
      · exact .inr (.inl hmerged)
      · exact .inl (by simp)
    · exact .inr (.inr rfl)
  · intro g hg
    have hseen : g ∈ seen := by
      rcases List.mem_append.1 hg with hg | hg
      · exact (h.erased g hg).1
      · rw [List.mem_singleton.1 hg]
        exact h.current
    exact ⟨hmem.2 (.inl hseen), hne g hseen⟩

theorem Inv.step_apart (h : Inv seen c) (hnext : next.Ok) (hnew : next ∉ seen)
    (htest : ¬ c.current.endOffset ≥ next.location) : Inv (seen ++ [next]) (c.step next) := by
  have hne : ∀ g ∈ seen, g ≠ next := fun g hg heq => hnew (heq ▸ hg)
  have hmem : ∀ {g}, g ∈ seen ++ [next] ↔ g ∈ seen ∨ g = next := by simp
  rw [Consolidation.step, if_neg htest]
  refine ⟨hmem.2 (.inr rfl), rfl, hnext, ?_, ?_, ?_, fun _ => rfl⟩
  · intro g hg
    rcases List.mem_append.1 hg with hg | hg
    · exact h.merged_ok g hg
    · rw [List.mem_singleton.1 hg]
      exact h.ok
  · intro g hg
    rcases hmem.1 hg with hg | rfl
    · rcases h.kept g hg with herase | hmerged | rfl
      · refine .inl ?_
        dsimp only
        split
        · exact List.mem_append_left _ herase
        · exact herase
      · exact .inr (.inl (List.mem_append_left _ hmerged))
      · -- the last one of its run, or the whole run
        rcases hoccurred : c.accumulationOccurred with _ | _
        · exact .inr (.inl (by simp [h.single hoccurred]))
        · exact .inl (by simp)
    · exact .inr (.inr rfl)
  · intro g hg
    have hseen : g ∈ seen := by
      dsimp only at hg
      split at hg
      · rcases List.mem_append.1 hg with hg | hg
        · exact (h.erased g hg).1
        · rw [List.mem_singleton.1 hg]
          exact h.current
      · exact (h.erased g hg).1
    exact ⟨hmem.2 (.inl hseen), hne g hseen⟩

theorem Inv.step (h : Inv seen c) (hcurrent : c.current.Ok) (hnext : next.Ok)
    (hle : c.current.range.stop ≤ next.range.start) (hnew : next ∉ seen) :
    Inv (seen ++ [next]) (c.step next) ∧
      ∀ rs, (c.step next).mergedGaps.map Gap.range ++ joinFrom (c.step next).accumulatedGap.range rs =
        c.mergedGaps.map Gap.range ++ joinFrom c.accumulatedGap.range (next.range :: rs) := by
  have htest := h.touches_iff hcurrent hle
  by_cases htouch : c.accumulatedGap.range.stop = next.range.start
  · refine ⟨h.step_touching hnext hnew (htest.2 htouch) htouch, fun rs => ?_⟩
    rw [Consolidation.step, if_pos (htest.2 htouch), range_accumulate hnext htouch, joinFrom, if_pos htouch]
  · refine ⟨h.step_apart hnext hnew (mt htest.1 htouch), fun rs => ?_⟩
    rw [Consolidation.step, if_neg (mt htest.1 htouch), joinFrom, if_neg htouch, List.map_append, List.append_assoc]
    rfl

/-- The loop over the gaps `rest`. -/
theorem Inv.loop (h : Inv seen c) (hok : ∀ g ∈ seen ++ rest, g.Ok)
    (hordered : Ordered ((seen ++ rest).map Gap.range)) :
    Inv (seen ++ rest) (rest.foldl Consolidation.step c) ∧
      (rest.foldl Consolidation.step c).mergedGaps.map Gap.range ++
          [(rest.foldl Consolidation.step c).accumulatedGap.range] =
        c.mergedGaps.map Gap.range ++ joinFrom c.accumulatedGap.range (rest.map Gap.range) := by
  induction rest generalizing seen c with
  | nil => exact ⟨by rwa [List.append_nil], rfl⟩
  | cons next rest ih =>
    have hnext : next ∈ seen ++ next :: rest := by simp
    have hbefore : ∀ g ∈ seen, g.range.stop ≤ next.range.start := by
      intro g hg
      have hpair := hordered.before
      rw [List.map_append, List.pairwise_append] at hpair
      exact hpair.2.2 _ (List.mem_map_of_mem hg) _ (by simp)
    have hnew : next ∉ seen := by
      intro hmem
      have hlt := (Gap.ok_iff.1 (hok next hnext)).1
      exact absurd (hbefore next hmem) (by omega)
    obtain ⟨hstep, hjoin⟩ := h.step (hok _ (List.mem_append_left _ h.current)) (hok next hnext)
      (hbefore _ h.current) hnew
    have hsplit : seen ++ next :: rest = (seen ++ [next]) ++ rest := by simp
    rw [hsplit] at hok hordered ⊢
    obtain ⟨hinv, hloop⟩ := ih hstep hok hordered
    exact ⟨hinv, hloop.trans (hjoin _)⟩

end Consolidation

namespace GapSet
variable {M : Type} [GapSet M] {m : M}

/-- Erasing and putting in what a finished loop says leaves the merged gaps with the accumulated one. -/
theorem mem_replace {c : Consolidation} (h : c.Inv (toList m))
    (hinj : ∀ g ∈ c.mergedGaps ++ [c.accumulatedGap], ∀ g' ∈ c.mergedGaps ++ [c.accumulatedGap],
      g.location = g'.location → g = g') {x : Gap} :
    x ∈ toList (FileAllocationManager.replace c.finish.gapsToErase c.finish.mergedGaps m) ↔
      x ∈ c.mergedGaps ++ [c.accumulatedGap] := by
  -- a gap that stays is one of the result already
  have hstay : ∀ y ∈ toList m, (∀ g ∈ c.finish.gapsToErase, y.location ≠ g.location) →
      y ∈ c.mergedGaps ++ [c.accumulatedGap] := by
    intro y hy hnot
    have hnot' : y ∉ c.finish.gapsToErase := fun hmem => hnot y hmem rfl
    rw [Consolidation.finish] at hnot'
    rcases hoccurred : c.accumulationOccurred with _ | _
    · rw [hoccurred] at hnot'
      rcases h.kept y hy with herase | hmerged | rfl
      · exact absurd herase hnot'
      · exact List.mem_append_left _ hmerged
      · simp [h.single hoccurred]
    · simp only [hoccurred, if_true, List.mem_append, List.mem_singleton, not_or] at hnot'
      rcases h.kept y hy with herase | hmerged | rfl
      · exact absurd herase hnot'.1
      · exact List.mem_append_left _ hmerged
      · exact absurd rfl hnot'.2
  have hmerged : ∀ g ∈ c.finish.mergedGaps, g ∈ c.mergedGaps ++ [c.accumulatedGap] := by
    intro g hg
    rw [Consolidation.finish] at hg
    split at hg
    · exact hg
    · exact List.mem_append_left _ hg
  rw [FileAllocationManager.replace, mem_emplaceAll, mem_eraseAll]
  · constructor
    · rintro (⟨hx, hnot⟩ | hx)
      · exact hstay x hx hnot
      · exact hmerged x hx
    · intro hx
      rw [Consolidation.finish]
      rcases hoccurred : c.accumulationOccurred with _ | _
      · -- the last gap touches none and stays
        rcases List.mem_append.1 hx with hx | hx
        · exact .inr hx
        · rw [List.mem_singleton.1 hx, h.single hoccurred]
          refine .inl ⟨h.current, fun g hg heq => ?_⟩
          obtain ⟨hg, hne⟩ := h.erased g hg
          exact hne (eq_of_location hg h.current heq.symm)
      · exact .inr hx
  · intro g hg y hy heq
    refine hinj y ?_ g (hmerged g hg) heq
    rcases hy with hy | hy
    · obtain ⟨hy, hnot⟩ := mem_eraseAll.1 hy
      exact hstay y hy hnot
    · exact hmerged y hy

end GapSet

namespace FileAllocationManager
variable {M : Type} [GapSet M] {s s' : FileAllocationManager M}

def Valid (s : FileAllocationManager M) : Prop := GapSet.Valid s.gapLocations

/-- The free bytes. -/
def free (s : FileAllocationManager M) : Set ℕ := GapSet.free s.gapLocations

theorem consolidateGaps_range (h : s.Valid) :
    (∀ g ∈ s.consolidateGaps.gaps, g.Ok) ∧
      s.consolidateGaps.gaps.map Gap.range = join (s.gaps.map Gap.range) := by
  have hok : ∀ g ∈ s.gaps, g.Ok := h.ok
  have hordered : Ordered (s.gaps.map Gap.range) := h.ordered
  rcases hgaps : s.gaps with _ | ⟨current, _ | ⟨next, rest⟩⟩
  · have hsame : s.consolidateGaps.gaps = [] := by
      rw [gaps, consolidateGaps, hgaps]
      exact hgaps
    rw [hsame]
    exact ⟨fun g hg => absurd hg List.not_mem_nil, rfl⟩
  · have hsame : s.consolidateGaps.gaps = [current] := by
      rw [gaps, consolidateGaps, hgaps]
      exact hgaps
    rw [hsame]
    exact ⟨by rwa [hgaps] at hok, rfl⟩
  · rw [hgaps] at hok hordered
    obtain ⟨hinv, hjoin⟩ := (Consolidation.inv_first (hok current (List.mem_cons_self ..))).loop
      hok hordered
    generalize hc : (next :: rest).foldl Consolidation.step { current := current, accumulatedGap := current } = c
      at hinv hjoin
    have hjoin : (c.mergedGaps ++ [c.accumulatedGap]).map Gap.range =
        join ((current :: next :: rest).map Gap.range) := by
      rw [List.map_append]
      exact hjoin
    have hseparated := separated_join hordered
    rw [← hjoin] at hseparated
    have hok' : ∀ g ∈ c.mergedGaps ++ [c.accumulatedGap], g.Ok := by
      intro g hg
      rcases List.mem_append.1 hg with hg | hg
      · exact hinv.merged_ok g hg
      · rw [List.mem_singleton.1 hg]
        exact hinv.ok
    have hsorted : (c.mergedGaps ++ [c.accumulatedGap]).Pairwise fun g g' => g.location < g'.location := by
      refine List.Pairwise.imp_of_mem (fun {g g'} hg _ hlt => ?_) (List.pairwise_map.1 hseparated.apart)
      exact (Gap.ok_iff.1 (hok' g hg)).1.trans hlt
    have hinj : ∀ g ∈ c.mergedGaps ++ [c.accumulatedGap], ∀ g' ∈ c.mergedGaps ++ [c.accumulatedGap],
        g.location = g'.location → g = g' := fun g hg g' hg' => Gap.Sorted.eq_of_location hsorted hg hg'
    have hreplace : s.consolidateGaps.gaps = c.mergedGaps ++ [c.accumulatedGap] := by
      rw [gaps, consolidateGaps, hgaps]
      dsimp only
      rw [hc]
      have hinv : c.Inv (GapSet.toList s.gapLocations) := by
        rw [show GapSet.toList s.gapLocations = current :: next :: rest from hgaps]
        exact hinv
      exact Gap.Sorted.eq_of_mem_iff (GapSet.sorted _) hsorted fun x => GapSet.mem_replace hinv hinj
    rw [hreplace]
    exact ⟨hok', hjoin⟩

theorem separated_consolidateGaps (h : s.Valid) : Separated (s.consolidateGaps.gaps.map Gap.range) := by
  rw [(consolidateGaps_range h).2]
  exact separated_join h.ordered

theorem Valid.consolidateGaps (h : s.Valid) : s.consolidateGaps.Valid ∧ s.consolidateGaps.free = s.free := by
  obtain ⟨hok, hrange⟩ := consolidateGaps_range h
  refine ⟨GapSet.valid_of_ordered hok (separated_consolidateGaps h).ordered, ?_⟩
  change covered (s.consolidateGaps.gaps.map Gap.range) = covered (s.gaps.map Gap.range)
  rw [hrange]
  exact covered_join h.ordered

/-- Separated gaps are determined by the free bytes. -/
theorem gaps_eq_of_separated (h : Separated (s.gaps.map Gap.range)) (h' : Separated (s'.gaps.map Gap.range))
    (hfree : s.free = s'.free) : s.gaps = s'.gaps :=
  List.map_injective_iff.2 (fun _ _ => Gap.range_inj) (h.eq h' hfree)

/-- **Consolidation is exact and canonical.** It leaves the free bytes; what it leaves are the maximal runs of
them, one gap each; it keeps a gap that touches no other; its result depends on the free bytes only; and
doing it again changes nothing. -/
theorem consolidateGaps_canonical (h : s.Valid) :
    s.consolidateGaps.free = s.free ∧
      (∀ g ∈ s.consolidateGaps.gaps, MaximalRun s.free g.range) ∧
      (∀ r, MaximalRun s.free r → ∃! g, g ∈ s.consolidateGaps.gaps ∧ g.range = r) ∧
      (s.consolidateGaps.gaps.Pairwise fun g g' => g.range.stop < g'.range.start) ∧
      (∀ g ∈ s.gaps, (∀ g' ∈ s.gaps, g'.range.stop ≠ g.range.start ∧ g.range.stop ≠ g'.range.start) →
        g ∈ s.consolidateGaps.gaps) ∧
      (∀ s' : FileAllocationManager M, s'.Valid → s'.free = s.free →
        s'.consolidateGaps.gaps = s.consolidateGaps.gaps) ∧
      s.consolidateGaps.consolidateGaps.gaps = s.consolidateGaps.gaps := by
  obtain ⟨hvalid, hfree⟩ := h.consolidateGaps
  have hseparated := separated_consolidateGaps h
  have hmax : ∀ r, r ∈ s.consolidateGaps.gaps.map Gap.range ↔ MaximalRun s.free r := by
    intro r
    rw [hseparated.mem_iff, ← hfree]
    rfl
  refine ⟨hfree, fun g hg => (hmax _).1 (List.mem_map_of_mem hg), ?_, List.pairwise_map.1 hseparated.apart, ?_, ?_, ?_⟩
  · intro r hr
    obtain ⟨g, hg, rfl⟩ := List.mem_map.1 ((hmax r).2 hr)
    exact ⟨g, ⟨hg, rfl⟩, fun g' hg' => Gap.range_inj hg'.2⟩
  · -- a gap that touches no other is a maximal run
    intro g hg halone
    have hrun : MaximalRun s.free g.range := by
      refine Ordered.maximalRun (GapSet.Valid.ordered h) (List.mem_map_of_mem hg) fun q hq => ?_
      obtain ⟨g', hg', rfl⟩ := List.mem_map.1 hq
      exact halone g' hg'
    obtain ⟨g', hg', hsame⟩ := List.mem_map.1 ((hmax _).2 hrun)
    rwa [← Gap.range_inj hsame]
  · intro s' h' hsame
    refine gaps_eq_of_separated (separated_consolidateGaps h') hseparated ?_
    rw [h'.consolidateGaps.2, hfree, hsame]
  · refine gaps_eq_of_separated (separated_consolidateGaps hvalid) hseparated ?_
    exact hvalid.consolidateGaps.2

/-- Two gaps that touch and one on its own. -/
def threeGaps : FileAllocationManager GapList :=
  ((new.registerGap 0 10).registerGap 30 10).registerGap 10 10

theorem valid_threeGaps : threeGaps.Valid := by
  refine GapSet.valid_of_ordered ?_ ⟨?_, ?_⟩
  · rintro g (_ | ⟨_, _ | ⟨_, _ | ⟨_, hg⟩⟩⟩)
    · exact ⟨by decide, by decide⟩
    · exact ⟨by decide, by decide⟩
    · exact ⟨by decide, by decide⟩
    · cases hg
  · change ∀ r ∈ [(⟨0, 10⟩ : Range ℕ), ⟨10, 20⟩, ⟨30, 40⟩], r.start < r.stop
    simp
  · change [(⟨0, 10⟩ : Range ℕ), ⟨10, 20⟩, ⟨30, 40⟩].Pairwise fun r r' => r.stop ≤ r'.start
    simp

theorem consolidateGaps_threeGaps : threeGaps.consolidateGaps.gaps = [⟨0, 20⟩, ⟨30, 10⟩] ∧
    threeGaps.consolidateGaps.free = threeGaps.free ∧
    threeGaps.consolidateGaps.consolidateGaps.gaps = threeGaps.consolidateGaps.gaps := by
  have h := consolidateGaps_canonical valid_threeGaps
  exact ⟨by decide, h.1, h.2.2.2.2.2.2⟩

end FileAllocationManager

end CppDb
