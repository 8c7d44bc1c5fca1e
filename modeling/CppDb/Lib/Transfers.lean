import CppDb.Lib.Run
import Mathlib.Data.Set.BooleanAlgebra
import Mathlib.Data.Set.Disjoint
import Mathlib.Order.CompletePartialOrder

/-!
# Transfers into and out of a pool

A pool of points that sets of points are given to and taken from. In a `Proper` sequence of transfers only
points outside the pool are given and only points of the pool are taken; then between two takings of a point
it is given again, and a point that was given is in the pool or was taken since.
-/

namespace Embed
variable {α : Type*}

inductive Transfer (α : Type*) where
  | give (s : Set α)
  | take (s : Set α)

namespace Transfer
variable {F : Set α} {ts pre mid post : List (Transfer α)} {s s' : Set α} {x : α}

def apply (F : Set α) : Transfer α → Set α
  | give s => F ∪ s
  | take s => F \ s

/-- The transfer is possible. -/
def Proper (F : Set α) : Transfer α → Prop
  | give s => Disjoint F s
  | take s => s ⊆ F

theorem mem_run (hx : x ∈ F) (h : ∀ s, take s ∈ ts → x ∉ s) : x ∈ run apply F ts := by
  induction ts generalizing F with
  | nil => exact hx
  | cons t ts ih =>
    refine ih ?_ fun s hs => h s (List.mem_cons_of_mem _ hs)
    cases t with
    | give s => exact .inl hx
    | take s => exact ⟨hx, h s (List.mem_cons_self ..)⟩

theorem not_mem_run (hx : x ∉ F) (h : ∀ s, give s ∈ ts → x ∉ s) : x ∉ run apply F ts := by
  induction ts generalizing F with
  | nil => exact hx
  | cons t ts ih =>
    refine ih ?_ fun s hs => h s (List.mem_cons_of_mem _ hs)
    cases t with
    | give s =>
      rintro (hF | hs)
      · exact hx hF
      · exact h s (List.mem_cons_self ..) hs
    | take s => exact fun hF => hx hF.1

/-- What was given is there, or was taken since. -/
theorem mem_run_or_taken (hs : x ∈ s) :
    x ∈ run apply F (pre ++ give s :: post) ∨ ∃ s', take s' ∈ post ∧ x ∈ s' := by
  by_cases h : ∃ s', take s' ∈ post ∧ x ∈ s'
  · exact .inr h
  · refine .inl ?_
    rw [run_append, run_cons]
    exact mem_run (.inr hs) fun s' hs' hx => h ⟨s', hs', hx⟩

/-- Between two takings of a point it is given. -/
theorem given_between (h : Along apply Proper F (pre ++ take s :: (mid ++ take s' :: post))) (hs : x ∈ s)
    (hs' : x ∈ s') : ∃ q, give q ∈ mid ∧ x ∈ q := by
  by_contra hnone
  have hrest := (Along.append_iff.1 h).2.2
  have hproper := (Along.append_iff.1 hrest).2.1
  refine not_mem_run (fun hmem => hmem.2 hs) (fun q hq hx => hnone ⟨q, hq, hx⟩) (hproper hs')

end Transfer

end Embed
