import CppDb.FileAllocation
import CppDb.Lib.Transfers
import Mathlib.Data.List.Pairwise

/-!
# The free space is exact

The bytes that the gaps of a `FileAllocationManager` cover, and what its calls make of them. The invariant is
`Valid`: the gaps are `Ok` and no two have a byte in common. `consolidateGaps` is `Range.join` on the ranges of
the gaps (`consolidateGaps_range`); from that its result depends on the free bytes only.
-/

namespace CppDb
open Embed Range

namespace Gap
variable {g g' : Gap}

theorem range_inj (h : g.range = g'.range) : g = g' := by
  have hstart : g.location.toNat = g'.location.toNat := congrArg Range.start h
  have hstop : g.location.toNat + g.length.toNat = g'.location.toNat + g'.length.toNat := congrArg Range.stop h
  obtain ⟨location, length⟩ := g
  obtain ⟨location', length'⟩ := g'
  congr 1
  · exact UInt64.toNat_inj.1 hstart
  · exact UInt64.toNat_inj.1 (by dsimp only at hstart hstop; omega)

theorem ok_iff : g.Ok ↔ g.range.start < g.range.stop ∧ g.range.stop < 2 ^ 64 := by
  constructor
  · intro h
    exact ⟨Nat.lt_add_of_pos_right h.pos, h.stop_lt⟩
  · rintro ⟨hlt, hstop⟩
    exact ⟨by simpa [range] using hlt, hstop⟩

/-- In order of their locations. -/
def Sorted (gs : List Gap) : Prop := gs.Pairwise fun g g' => g.location < g'.location

theorem Sorted.eq_of_location {gs : List Gap} (h : Sorted gs) (hg : g ∈ gs) (hg' : g' ∈ gs)
    (heq : g.location = g'.location) : g = g' := by
  obtain ⟨i, hi, rfl⟩ := List.getElem_of_mem hg
  obtain ⟨j, hj, rfl⟩ := List.getElem_of_mem hg'
  have hsorted := List.pairwise_iff_getElem.1 h
  rcases Nat.lt_trichotomy i j with hlt | rfl | hlt
  · exact absurd (heq ▸ hsorted i j hi hj hlt) (UInt64.lt_irrefl _)
  · rfl
  · exact absurd (heq ▸ hsorted j i hj hi hlt) (UInt64.lt_irrefl _)

theorem Sorted.eq_of_mem_iff {gs gs' : List Gap} (h : Sorted gs) (h' : Sorted gs')
    (hmem : ∀ x, x ∈ gs ↔ x ∈ gs') : gs = gs' := by
  have : Std.Irrefl fun g g' : Gap => g.location < g'.location := ⟨fun g => UInt64.lt_irrefl g.location⟩
  have : Std.Antisymm fun g g' : Gap => g.location < g'.location :=
    ⟨fun _ _ hlt hgt => absurd hgt (UInt64.lt_asymm hlt)⟩
  exact List.Pairwise.eq_of_mem_iff h h' hmem

theorem mem_covered {gs : List Gap} {x : ℕ} : x ∈ covered (gs.map range) ↔ ∃ g ∈ gs, x ∈ g.range.points := by
  simp [covered]

end Gap

namespace GapSet
variable {M : Type} [GapSet M] {m : M} {g g' : Gap}

/-- The bytes that the gaps cover. -/
def free (m : M) : Set ℕ := covered ((toList m).map Gap.range)

/-- No gap is empty, no end offset wraps around, no two gaps have a byte in common. -/
structure Valid (m : M) : Prop where
  ok : ∀ g ∈ toList m, g.Ok
  disjoint : ∀ g ∈ toList m, ∀ g' ∈ toList m, g ≠ g' → Disjoint g.range.points g'.range.points

theorem mem_free {x : ℕ} : x ∈ free m ↔ ∃ g ∈ toList m, x ∈ g.range.points := Gap.mem_covered

theorem eq_of_location (hg : g ∈ toList m) (hg' : g' ∈ toList m) (h : g.location = g'.location) : g = g' :=
  Gap.Sorted.eq_of_location (sorted m) hg hg' h

/-- Gaps without a common byte, in order of their locations, stand one behind the other. -/
theorem Valid.ordered (h : Valid m) : Ordered ((toList m).map Gap.range) := by
  constructor
  · intro r hr
    obtain ⟨g, hg, rfl⟩ := List.mem_map.1 hr
    exact (Gap.ok_iff.1 (h.ok g hg)).1
  · refine List.pairwise_map.2 (List.Pairwise.imp_of_mem (fun {g g'} hg hg' hlt => ?_) (sorted m))
    have hne : g ≠ g' := fun heq => UInt64.lt_irrefl _ (heq ▸ hlt)
    have hdisjoint := h.disjoint g hg g' hg' hne
    rw [points, points, Set.Ico_disjoint_Ico] at hdisjoint
    have hlt : g.range.start < g'.range.start := hlt
    have hpos' := (Gap.ok_iff.1 (h.ok g' hg')).1
    omega

theorem valid_of_ordered (hok : ∀ g ∈ toList m, g.Ok) (h : Ordered ((toList m).map Gap.range)) : Valid m := by
  refine ⟨hok, fun g hg g' hg' hne => ?_⟩
  have hpair : (toList m).Pairwise fun g g' => Disjoint g.range.points g'.range.points :=
    (List.pairwise_map.1 h.before).imp fun hle => by
      rw [points, points, Set.Ico_disjoint_Ico]
      omega
  have : Std.Symm fun g g' : Gap => Disjoint g.range.points g'.range.points := ⟨fun _ _ h => h.symm⟩
  exact hpair.forall hg hg' hne

theorem Valid.emplace (h : Valid m) (hg : g.Ok) (hdisjoint : Disjoint (free m) g.range.points) :
    Valid (emplace g m) ∧ free (emplace g m) = free m ∪ g.range.points := by
  have hfresh : ∀ y ∈ toList m, y.location ≠ g.location := by
    intro y hy heq
    have hmem : g.range.start ∈ g.range.points := ⟨le_rfl, (Gap.ok_iff.1 hg).1⟩
    refine Set.disjoint_left.1 hdisjoint (mem_free.2 ⟨y, hy, ?_⟩) hmem
    have hstart : y.range.start = g.range.start := congrArg UInt64.toNat heq
    rw [← hstart]
    exact ⟨le_rfl, (Gap.ok_iff.1 (h.ok y hy)).1⟩
  have hmem : ∀ {x}, x ∈ toList (GapSet.emplace g m) ↔ x ∈ toList m ∨ x = g := by
    intro x
    rw [mem_emplace]
    exact or_congr_right (and_iff_left hfresh)
  have hapart : ∀ y ∈ toList m, Disjoint y.range.points g.range.points := fun y hy =>
    Set.disjoint_of_subset_left (fun x hx => mem_free.2 ⟨y, hy, hx⟩) hdisjoint
  refine ⟨⟨fun x hx => ?_, fun x hx y hy hne => ?_⟩, ?_⟩
  · rcases hmem.1 hx with hx' | rfl
    · exact h.ok x hx'
    · exact hg
  · rcases hmem.1 hx with hx' | rfl <;> rcases hmem.1 hy with hy' | rfl
    · exact h.disjoint x hx' y hy' hne
    · exact hapart x hx'
    · exact (hapart y hy').symm
    · exact absurd rfl hne
  · ext x
    rw [Set.mem_union, mem_free, mem_free]
    constructor
    · rintro ⟨y, hy, hx⟩
      rcases hmem.1 hy with hy | rfl
      · exact .inl ⟨y, hy, hx⟩
      · exact .inr hx
    · rintro (⟨y, hy, hx⟩ | hx)
      · exact ⟨y, hmem.2 (.inl hy), hx⟩
      · exact ⟨g, hmem.2 (.inr rfl), hx⟩

theorem Valid.erase (h : Valid m) (hg : g ∈ toList m) :
    Valid (erase g.location m) ∧ free (erase g.location m) = free m \ g.range.points := by
  have hmem : ∀ {x}, x ∈ toList (GapSet.erase g.location m) ↔ x ∈ toList m ∧ x ≠ g := by
    intro x
    rw [mem_erase]
    refine and_congr_right fun hx => not_congr ⟨eq_of_location hx hg, congrArg Gap.location⟩
  refine ⟨⟨fun x hx => h.ok x (hmem.1 hx).1, fun x hx y hy => h.disjoint x (hmem.1 hx).1 y (hmem.1 hy).1⟩, ?_⟩
  ext x
  rw [Set.mem_sdiff, mem_free, mem_free]
  constructor
  · rintro ⟨y, hy, hx⟩
    obtain ⟨hy, hne⟩ := hmem.1 hy
    exact ⟨⟨y, hy, hx⟩, Set.disjoint_left.1 (h.disjoint y hy g hg hne) hx⟩
  · rintro ⟨⟨y, hy, hx⟩, hnot⟩
    exact ⟨y, hmem.2 ⟨hy, fun heq => hnot (heq ▸ hx)⟩, hx⟩

theorem mem_eraseAll {gs : List Gap} {x : Gap} :
    x ∈ toList (gs.foldl (fun m g => erase g.location m) m) ↔
      x ∈ toList m ∧ ∀ g ∈ gs, x.location ≠ g.location := by
  induction gs generalizing m with
  | nil => simp
  | cons g gs ih => rw [List.foldl_cons, ih, mem_erase, List.forall_mem_cons, and_assoc]

/-- Gaps are put in that clash with none that is there, nor with each other. -/
theorem mem_emplaceAll {gs : List Gap} (h : ∀ g ∈ gs, ∀ y, y ∈ toList m ∨ y ∈ gs → y.location = g.location → y = g)
    {x : Gap} : x ∈ toList (gs.foldl (fun m g => emplace g m) m) ↔ x ∈ toList m ∨ x ∈ gs := by
  induction gs generalizing m with
  | nil => simp
  | cons g gs ih =>
    have hmem : ∀ {y}, y ∈ toList (GapSet.emplace g m) ↔ y ∈ toList m ∨ y = g := by
      intro y
      rw [mem_emplace]
      constructor
      · exact Or.imp_right And.left
      · rintro (hy | rfl)
        · exact .inl hy
        · by_cases hy : y ∈ toList m
          · exact .inl hy
          · refine .inr ⟨rfl, fun z hz heq => hy ?_⟩
            rwa [← h y (List.mem_cons_self ..) z (.inl hz) heq]
    rw [List.foldl_cons, ih, hmem, List.mem_cons, or_assoc]
    intro q hq y hy
    refine h q (List.mem_cons_of_mem _ hq) y ?_
    rcases hy with hy | hy
    · rcases hmem.1 hy with hy | rfl
      · exact .inl hy
      · exact .inr (List.mem_cons_self ..)
    · exact .inr (List.mem_cons_of_mem _ hy)

end GapSet

end CppDb
