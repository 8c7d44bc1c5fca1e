import Mathlib.Data.List.Pairwise
import Mathlib.Data.List.Sort
import Mathlib.Order.CompletePartialOrder
import Mathlib.Order.Interval.Set.Disjoint

/-!
# Lists of half-open ranges

A set of points given by ranges in order. `join` makes one range of each run of ranges that touch. Its
result is `Separated`, and a separated list is determined by the points it covers: its ranges are the
maximal runs of them.
-/

namespace Embed
variable {α : Type*} [LinearOrder α]

/-- The points from `start` on and before `stop`. -/
@[ext] structure Range (α : Type*) where
  start : α
  stop : α
deriving DecidableEq, Repr

namespace Range
variable {r r' q : Range α} {rs rs' : List (Range α)} {F : Set α} {x : α}

def points (r : Range α) : Set α := Set.Ico r.start r.stop

def covered (rs : List (Range α)) : Set α := {x | ∃ r ∈ rs, x ∈ r.points}

@[simp] theorem covered_nil : covered ([] : List (Range α)) = ∅ := by
  ext x
  simp [covered]

@[simp] theorem covered_cons : covered (r :: rs) = r.points ∪ covered rs := by
  ext x
  simp [covered]

/-- None is empty, and they stand in order; neighbours may touch. -/
structure Ordered (rs : List (Range α)) : Prop where
  lt : ∀ r ∈ rs, r.start < r.stop
  before : rs.Pairwise fun r r' => r.stop ≤ r'.start

/-- No two of them touch. -/
structure Separated (rs : List (Range α)) : Prop where
  lt : ∀ r ∈ rs, r.start < r.stop
  apart : rs.Pairwise fun r r' => r.stop < r'.start

theorem Ordered.tail (h : Ordered (r :: rs)) : Ordered rs :=
  ⟨fun q hq => h.lt q (List.mem_cons_of_mem _ hq), h.before.of_cons⟩

theorem Separated.ordered (h : Separated rs) : Ordered rs :=
  ⟨h.lt, h.apart.imp le_of_lt⟩

/-- `acc` and the ranges after it, with what touches `acc` joined to it. -/
def joinFrom : Range α → List (Range α) → List (Range α)
  | acc, [] => [acc]
  | acc, r :: rs => if acc.stop = r.start then joinFrom ⟨acc.start, r.stop⟩ rs else acc :: joinFrom r rs

def join : List (Range α) → List (Range α)
  | [] => []
  | r :: rs => joinFrom r rs

theorem Ordered.join_head (h : Ordered (r :: q :: rs)) (htouch : r.stop = q.start) :
    Ordered (⟨r.start, q.stop⟩ :: rs) := by
  have hr := h.lt r (List.mem_cons_self ..)
  have hq := h.tail.lt q (List.mem_cons_self ..)
  constructor
  · intro p hp
    rcases List.mem_cons.1 hp with rfl | hp
    · exact hr.trans (htouch ▸ hq)
    · exact h.tail.tail.lt p hp
  · exact List.pairwise_cons.2 ⟨(List.pairwise_cons.1 h.tail.before).1, h.tail.tail.before⟩

theorem points_join_head (hr : r.start ≤ r.stop) (hq : q.start ≤ q.stop) (htouch : r.stop = q.start) :
    points ⟨r.start, q.stop⟩ = r.points ∪ q.points := by
  rw [points, points, points, ← htouch, Set.Ico_union_Ico_eq_Ico hr (htouch ▸ hq)]

theorem covered_joinFrom (h : Ordered (r :: rs)) : covered (joinFrom r rs) = covered (r :: rs) := by
  induction rs generalizing r with
  | nil => rfl
  | cons q rs ih =>
    unfold joinFrom
    split
    · next htouch =>
      have hr := h.lt r (List.mem_cons_self ..)
      have hq := h.tail.lt q (List.mem_cons_self ..)
      rw [ih (h.join_head htouch)]
      simp only [covered_cons, points_join_head hr.le hq.le htouch, Set.union_assoc]
    · rw [covered_cons, ih h.tail, covered_cons (r := r)]

theorem covered_join (h : Ordered rs) : covered (join rs) = covered rs := by
  cases rs with
  | nil => rfl
  | cons r rs => exact covered_joinFrom h

theorem start_le_of_mem_joinFrom (h : Ordered (r :: rs)) (hq : q ∈ joinFrom r rs) : r.start ≤ q.start := by
  induction rs generalizing r with
  | nil => rw [List.mem_singleton.1 hq]
  | cons p rs ih =>
    unfold joinFrom at hq
    split at hq
    · next htouch =>
      have hle := ih (h.join_head htouch) hq
      exact hle
    · rcases List.mem_cons.1 hq with rfl | hq
      · exact le_rfl
      · have hp := (List.pairwise_cons.1 h.before).1 p (List.mem_cons_self ..)
        exact ((h.lt r (List.mem_cons_self ..)).le.trans hp).trans (ih h.tail hq)

theorem separated_joinFrom (h : Ordered (r :: rs)) : Separated (joinFrom r rs) := by
  induction rs generalizing r with
  | nil => exact ⟨h.lt, List.pairwise_singleton ..⟩
  | cons q rs ih =>
    unfold joinFrom
    split
    · next htouch => exact ih (h.join_head htouch)
    · next htouch =>
      have hle := (List.pairwise_cons.1 h.before).1 q (List.mem_cons_self ..)
      constructor
      · intro p hp
        rcases List.mem_cons.1 hp with rfl | hp
        · exact h.lt p (List.mem_cons_self ..)
        · exact (ih h.tail).lt p hp
      · refine List.pairwise_cons.2 ⟨fun p hp => ?_, (ih h.tail).apart⟩
        exact (lt_of_le_of_ne hle htouch).trans_le (start_le_of_mem_joinFrom h.tail hp)

theorem separated_join (h : Ordered rs) : Separated (join rs) := by
  cases rs with
  | nil => exact ⟨h.lt, .nil⟩
  | cons r rs => exact separated_joinFrom h

/-! ### Maximal runs -/

/-- The points of `r` are in `F`, and `r` cannot be extended on either side. -/
structure MaximalRun (F : Set α) (r : Range α) : Prop where
  lt : r.start < r.stop
  subset : r.points ⊆ F
  stop : r.stop ∉ F
  start : ∀ x < r.start, ∃ y, x ≤ y ∧ y < r.start ∧ y ∉ F

theorem MaximalRun.eq (h : MaximalRun F r) (h' : MaximalRun F q) (hr : x ∈ r.points) (hq : x ∈ q.points) :
    r = q := by
  have hstart : ∀ {r q : Range α}, MaximalRun F r → MaximalRun F q → x ∈ r.points → x ∈ q.points →
      q.start ≤ r.start := by
    intro r q h h' hr hq
    by_contra hlt
    obtain ⟨y, hy, hyq, hF⟩ := h'.start r.start (not_le.1 hlt)
    exact hF (h.subset ⟨hy, hyq.trans_le (hq.1.trans hr.2.le)⟩)
  have hstop : ∀ {r q : Range α}, MaximalRun F r → MaximalRun F q → x ∈ r.points → x ∈ q.points →
      q.stop ≤ r.stop := by
    intro r q h h' hr hq
    by_contra hlt
    exact h.stop (h'.subset ⟨hq.1.trans hr.2.le, not_le.1 hlt⟩)
  ext
  · exact le_antisymm (hstart h' h hq hr) (hstart h h' hr hq)
  · exact le_antisymm (hstop h' h hq hr) (hstop h h' hr hq)

theorem Ordered.maximalRun (h : Ordered rs) (hr : r ∈ rs)
    (halone : ∀ q ∈ rs, q.stop ≠ r.start ∧ r.stop ≠ q.start) : MaximalRun (covered rs) r := by
  obtain ⟨pre, post, rfl⟩ := List.append_of_mem hr
  have hlt := h.lt r hr
  obtain ⟨hpre, hpost, hcross⟩ := List.pairwise_append.1 h.before
  have hafter : ∀ q ∈ post, r.stop < q.start := fun q hq =>
    lt_of_le_of_ne ((List.pairwise_cons.1 hpost).1 q hq) (halone q (by simp [hq])).2
  have hbefore : ∀ q ∈ pre, q.stop < r.start := fun q hq =>
    lt_of_le_of_ne (hcross q hq r (List.mem_cons_self ..)) (halone q (by simp [hq])).1
  refine ⟨hlt, fun x hx => ⟨r, hr, hx⟩, ?_, ?_⟩
  · rintro ⟨q, hq, hmem⟩
    rcases List.mem_append.1 hq with hq | hq
    · exact absurd hmem.2 (not_lt.2 ((hbefore q hq).le.trans hlt.le))
    · rcases List.mem_cons.1 hq with rfl | hq
      · exact lt_irrefl _ hmem.2
      · exact absurd hmem.1 (not_le.2 (hafter q hq))
  · -- `x`, or the end of the range before `r` where that is later
    intro x hx
    have hfree : ∀ y < r.start, (∀ q ∈ pre, q.stop ≤ y ∨ y < q.start) → y ∉ covered (pre ++ r :: post) := by
      rintro y hy hgap ⟨q, hq, hmem⟩
      rcases List.mem_append.1 hq with hq | hq
      · rcases hgap q hq with hle | hlt
        · exact absurd hmem.2 (not_lt.2 hle)
        · exact absurd hmem.1 (not_le.2 hlt)
      · rcases List.mem_cons.1 hq with rfl | hq
        · exact absurd hmem.1 (not_le.2 hy)
        · exact absurd (hy.trans (hlt.trans (hafter q hq))) (not_lt.2 hmem.1)
    rcases List.eq_nil_or_concat pre with rfl | ⟨pre', p, rfl⟩
    · exact ⟨x, le_rfl, hx, hfree x hx fun q hq => absurd hq List.not_mem_nil⟩
    · rw [List.concat_eq_append] at *
      have hp := hbefore p (by simp)
      refine ⟨max x p.stop, le_max_left .., max_lt hx hp, hfree _ (max_lt hx hp) fun q hq => .inl ?_⟩
      refine le_trans ?_ (le_max_right ..)
      rcases List.mem_append.1 hq with hq | hq
      · have hqp := (List.pairwise_append.1 hpre).2.2 q hq p (List.mem_singleton_self _)
        exact hqp.trans (h.lt p (by simp)).le
      · rw [List.mem_singleton.1 hq]

theorem Separated.maximalRun (h : Separated rs) (hr : r ∈ rs) : MaximalRun (covered rs) r := by
  refine h.ordered.maximalRun hr fun q hq => ?_
  by_cases heq : q = r
  · subst heq
    exact ⟨(h.lt q hq).ne', (h.lt q hq).ne'⟩
  · have : Std.Symm fun q r : Range α => q.stop ≠ r.start ∧ r.stop ≠ q.start := ⟨fun _ _ hne => hne.symm⟩
    have hpair : rs.Pairwise fun q r => q.stop ≠ r.start ∧ r.stop ≠ q.start := by
      refine List.Pairwise.imp_of_mem (fun {p p'} hp hp' hlt => ⟨hlt.ne, ?_⟩) h.apart
      exact ((h.lt p hp).trans (hlt.trans (h.lt p' hp'))).ne'
    exact hpair.forall hq hr heq

/-- The ranges of a separated list are the maximal runs of its points. -/
theorem Separated.mem_iff (h : Separated rs) : r ∈ rs ↔ MaximalRun (covered rs) r := by
  constructor
  · exact h.maximalRun
  · intro hr
    obtain ⟨q, hq, hmem⟩ := hr.subset ⟨le_rfl, hr.lt⟩
    rwa [hr.eq (h.maximalRun hq) ⟨le_rfl, hr.lt⟩ hmem]

/-- Points without a hole between them are in one range of a separated list. -/
theorem Separated.exists_subset (h : Separated rs) {y : α} (hxy : x < y) (hsubset : Set.Ico x y ⊆ covered rs) :
    ∃ r ∈ rs, Set.Ico x y ⊆ r.points := by
  obtain ⟨r, hr, hx⟩ := hsubset ⟨le_rfl, hxy⟩
  have hle : y ≤ r.stop := by
    by_contra hlt
    exact (h.maximalRun hr).stop (hsubset ⟨hx.2.le, not_le.1 hlt⟩)
  exact ⟨r, hr, fun z hz => ⟨hx.1.trans hz.1, hz.2.trans_le hle⟩⟩

/-- A separated list is determined by its points. -/
theorem Separated.eq (h : Separated rs) (h' : Separated rs') (hcovered : covered rs = covered rs') : rs = rs' := by
  have hsorted : ∀ {rs : List (Range α)}, Separated rs → rs.Pairwise fun r r' => r.start < r'.start := by
    intro rs h
    refine List.Pairwise.imp_of_mem (fun hr _ hlt => ?_) h.apart
    exact (h.lt _ hr).trans hlt
  have : Std.Irrefl fun r r' : Range α => r.start < r'.start := ⟨fun r => lt_irrefl r.start⟩
  have : Std.Antisymm fun r r' : Range α => r.start < r'.start := ⟨fun _ _ hlt hgt => absurd hlt hgt.asymm⟩
  exact (hsorted h).eq_of_mem_iff (hsorted h') fun r => by rw [h.mem_iff, h'.mem_iff, hcovered]

end Range

end Embed
