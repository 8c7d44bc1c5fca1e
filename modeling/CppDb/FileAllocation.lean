import CppDb.Lib.Ranges
import Mathlib.Algebra.Order.Ring.Nat

/-!
# The free space of a file

`FileAllocationManager` (`fileallocationmanager.hpp`). Its `MultiIndexSet<Gap, &Gap::location,
&Gap::length>` is any `GapSet`: a set of gaps ordered and unique by location, with the gaps of a range of
lengths in increasing order of their length. An iterator stands for the gap it points to.
-/

namespace CppDb
open Embed

structure Gap where
  location : UInt64
  length : UInt64
deriving DecidableEq, Repr

namespace Gap

def endOffset (g : Gap) : UInt64 := g.location + g.length

/-- The bytes of the gap. -/
def range (g : Gap) : Range ℕ := ⟨g.location.toNat, g.location.toNat + g.length.toNat⟩

/-- A gap that is not empty and whose `endOffset` does not wrap around. -/
structure Ok (g : Gap) : Prop where
  pos : 0 < g.length.toNat
  stop_lt : g.location.toNat + g.length.toNat < 2 ^ 64

theorem Ok.toNat_endOffset {g : Gap} (h : g.Ok) : g.endOffset.toNat = g.range.stop := by
  rw [endOffset, UInt64.toNat_add, Nat.mod_eq_of_lt h.stop_lt, range]

end Gap

/-- `MultiIndexSet<Gap, &Gap::location, &Gap::length>`. -/
class GapSet (M : Type) where
  empty : M
  /-- From `begin()` to `end()`. -/
  toList : M → List Gap
  emplace : Gap → M → M
  erase : (location : UInt64) → M → M
  findSecondaryInRange : (lower upper : UInt64) → M → List Gap
  toList_empty : toList empty = []
  sorted (m : M) : (toList m).Pairwise fun g g' => g.location < g'.location
  mem_emplace {m : M} {g x : Gap} :
    x ∈ toList (emplace g m) ↔ x ∈ toList m ∨ x = g ∧ ∀ y ∈ toList m, y.location ≠ g.location
  mem_erase {m : M} {location : UInt64} {x : Gap} :
    x ∈ toList (erase location m) ↔ x ∈ toList m ∧ x.location ≠ location
  mem_findSecondaryInRange {m : M} {lower upper : UInt64} {x : Gap} :
    x ∈ findSecondaryInRange lower upper m ↔ x ∈ toList m ∧ lower ≤ x.length ∧ x.length ≤ upper
  findSecondaryInRange_sorted (lower upper : UInt64) (m : M) :
    (findSecondaryInRange lower upper m).Pairwise fun g g' => g.length ≤ g'.length

structure FileAllocationManager (M : Type) where
  gapLocations : M
  insertionsSinceLastConsolidation : UInt64 := 0

/-- The variables of the loop in `consolidateGaps`. -/
structure Consolidation where
  current : Gap
  accumulatedGap : Gap
  accumulationOccurred : Bool := false
  mergedGaps : List Gap := []
  gapsToErase : List Gap := []

namespace Consolidation

/-- The body of the loop. -/
def step (c : Consolidation) (next : Gap) : Consolidation :=
  if c.current.endOffset ≥ next.location then
    { current := next
      accumulatedGap := { c.accumulatedGap with length := c.accumulatedGap.length + next.length }
      accumulationOccurred := true
      mergedGaps := c.mergedGaps
      gapsToErase := c.gapsToErase ++ [c.current] }
  else
    { current := next
      accumulatedGap := next
      accumulationOccurred := false
      mergedGaps := c.mergedGaps ++ [c.accumulatedGap]
      -- the current item was consumed on the previous iteration
      gapsToErase := if c.accumulationOccurred then c.gapsToErase ++ [c.current] else c.gapsToErase }

/-- What follows the loop. -/
def finish (c : Consolidation) : Consolidation :=
  if c.accumulationOccurred then
    { c with
      mergedGaps := c.mergedGaps ++ [c.accumulatedGap]
      gapsToErase := c.gapsToErase ++ [c.current] }
  else c

end Consolidation

namespace FileAllocationManager
variable {M : Type} [GapSet M]
open GapSet (toList emplace erase findSecondaryInRange)

def NoGap : UInt64 := 0xFFFFFFFFFFFFFFFF

def new : FileAllocationManager M := { gapLocations := GapSet.empty }

def gaps (s : FileAllocationManager M) : List Gap := toList s.gapLocations

def clear (_ : FileAllocationManager M) : FileAllocationManager M :=
  { gapLocations := GapSet.empty, insertionsSinceLastConsolidation := 0 }

def registerGap (gapOffset gapLength : UInt64) (s : FileAllocationManager M) : FileAllocationManager M :=
  { gapLocations := emplace ⟨gapOffset, gapLength⟩ s.gapLocations
    insertionsSinceLastConsolidation := s.insertionsSinceLastConsolidation + 1 }

/-- Erase the items subject to merging, put the merged items back in. -/
def replace (gapsToErase mergedGaps : List Gap) (m : M) : M :=
  mergedGaps.foldl (fun m g => emplace g m) (gapsToErase.foldl (fun m g => erase g.location m) m)

def consolidateGaps (s : FileAllocationManager M) : FileAllocationManager M :=
  { gapLocations :=
      match s.gaps with
      | current :: next :: rest =>
        let c := ((next :: rest).foldl Consolidation.step { current := current, accumulatedGap := current }).finish
        replace c.gapsToErase c.mergedGaps s.gapLocations
      | _ => s.gapLocations
    insertionsSinceLastConsolidation := 0 }

/-- The offset taken, and the state after it. -/
def takeSuitableGap (requestedGapLength : UInt64) (s : FileAllocationManager M) :
    UInt64 × FileAllocationManager M :=
  match findSecondaryInRange requestedGapLength 0xFFFFFFFFFFFFFFFF s.gapLocations with
  | [] =>
    if s.insertionsSinceLastConsolidation < 1000 then (NoGap, s)
    else takeSuitableGap requestedGapLength s.consolidateGaps
  | gap :: _ =>
    let erased := erase gap.location s.gapLocations
    (gap.location, { s with
      gapLocations :=
        if gap.length ≠ requestedGapLength then
          emplace ⟨gap.location + requestedGapLength, gap.length - requestedGapLength⟩ erased
        else erased })
termination_by s.insertionsSinceLastConsolidation.toNat
decreasing_by
  next h =>
  change 0 < s.insertionsSinceLastConsolidation.toNat
  rw [UInt64.lt_iff_toNat_lt] at h
  exact Nat.lt_of_lt_of_le (by decide) (Nat.not_lt.1 h)

end FileAllocationManager

/-! ### A sorted list of gaps -/

/-- Gaps in order of their locations. -/
abbrev GapList : Type := { gaps : List Gap // gaps.Pairwise fun g g' => g.location < g'.location }

namespace GapList

/-- `g` before the first gap of a higher location, unless there is one at its own. -/
def insertGap (g : Gap) : List Gap → List Gap
  | [] => [g]
  | x :: xs =>
    if g.location < x.location then g :: x :: xs
    else if g.location = x.location then x :: xs
    else x :: insertGap g xs

theorem mem_insertGap {g x : Gap} {l : List Gap} (h : l.Pairwise fun g g' => g.location < g'.location) :
    x ∈ insertGap g l ↔ x ∈ l ∨ x = g ∧ ∀ y ∈ l, y.location ≠ g.location := by
  induction l with
  | nil => simp [insertGap]
  | cons y l ih =>
    have hy := (List.pairwise_cons.1 h).1
    unfold insertGap
    split
    · next hlt =>
      have hne : ∀ z ∈ y :: l, z.location ≠ g.location := by
        intro z hz heq
        rcases List.mem_cons.1 hz with rfl | hz
        · exact UInt64.lt_irrefl _ (heq ▸ hlt)
        · exact UInt64.lt_irrefl _ (heq ▸ UInt64.lt_trans hlt (hy z hz))
      rw [List.mem_cons]
      constructor
      · rintro (rfl | hx)
        · exact .inr ⟨rfl, hne⟩
        · exact .inl hx
      · rintro (hx | ⟨rfl, -⟩)
        · exact .inr hx
        · exact .inl rfl
    · split
      · next heq =>
        constructor
        · exact .inl
        · rintro (hx | ⟨-, hne⟩)
          · exact hx
          · exact absurd heq.symm (hne y (List.mem_cons_self ..))
      · next hne =>
        rw [List.mem_cons, List.mem_cons, ih h.of_cons]
        constructor
        · rintro (rfl | hx | ⟨rfl, hx⟩)
          · exact .inl (.inl rfl)
          · exact .inl (.inr hx)
          · refine .inr ⟨rfl, ?_⟩
            rintro z (_ | ⟨_, hz⟩)
            · exact fun heq => hne heq.symm
            · exact hx z hz
        · rintro ((rfl | hx) | ⟨rfl, hx⟩)
          · exact .inl rfl
          · exact .inr (.inl hx)
          · exact .inr (.inr ⟨rfl, fun z hz => hx z (List.mem_cons_of_mem _ hz)⟩)

theorem pairwise_insertGap (g : Gap) {l : List Gap} (h : l.Pairwise fun g g' => g.location < g'.location) :
    (insertGap g l).Pairwise fun g g' => g.location < g'.location := by
  induction l with
  | nil => exact List.pairwise_singleton ..
  | cons y l ih =>
    have hy := (List.pairwise_cons.1 h).1
    unfold insertGap
    split
    · next hlt =>
      refine List.pairwise_cons.2 ⟨fun z hz => ?_, h⟩
      rcases List.mem_cons.1 hz with rfl | hz
      · exact hlt
      · exact UInt64.lt_trans hlt (hy z hz)
    · split
      · exact h
      · next hge hne =>
        refine List.pairwise_cons.2 ⟨fun z hz => ?_, ih h.of_cons⟩
        rcases (mem_insertGap h.of_cons).1 hz with hz | ⟨rfl, -⟩
        · exact hy z hz
        · exact UInt64.lt_of_le_of_ne (UInt64.not_lt.1 hge) fun heq => hne heq.symm

end GapList

instance : GapSet GapList where
  empty := ⟨[], .nil⟩
  toList := Subtype.val
  emplace g m := ⟨GapList.insertGap g m.1, GapList.pairwise_insertGap g m.2⟩
  erase location m := ⟨m.1.filter fun g => g.location ≠ location, m.2.filter _⟩
  findSecondaryInRange lower upper m :=
    (m.1.filter fun g => lower ≤ g.length ∧ g.length ≤ upper).mergeSort fun g g' => g.length ≤ g'.length
  toList_empty := rfl
  sorted m := m.2
  mem_emplace {m} := GapList.mem_insertGap m.2
  mem_erase := by simp [List.mem_filter]
  mem_findSecondaryInRange := by simp [List.mem_filter]
  findSecondaryInRange_sorted lower upper m := by
    refine List.Pairwise.imp (fun h => by simpa using h) (List.pairwise_mergeSort ?_ ?_ _)
    · intro a b c hab hbc
      simp only [decide_eq_true_eq] at hab hbc ⊢
      exact UInt64.le_trans hab hbc
    · intro a b
      simp only [Bool.or_eq_true, decide_eq_true_eq]
      exact UInt64.le_total ..

end CppDb
