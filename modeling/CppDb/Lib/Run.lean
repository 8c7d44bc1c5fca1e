import Mathlib.Data.List.Basic

/-!
# Runs of a total step function

`Embed.run step s ls` takes the labels `ls` one after the other. `Along step C s ls` says that every step of
that run meets `C`, a condition on the state before the step and its label.
-/

namespace Embed
variable {σ ι : Type*} {step : σ → ι → σ} {s : σ} {ls : List ι}

/-- The state after the labels `ls`. -/
def run (step : σ → ι → σ) (s : σ) (ls : List ι) : σ := ls.foldl step s

@[simp] theorem run_nil : run step s [] = s := rfl

@[simp] theorem run_cons (l : ι) (ls : List ι) : run step s (l :: ls) = run step (step s l) ls := rfl

theorem run_append (ls ms : List ι) : run step s (ls ++ ms) = run step (run step s ls) ms :=
  List.foldl_append ..

/-- Every step of the run meets `C`. -/
def Along (step : σ → ι → σ) (C : σ → ι → Prop) : σ → List ι → Prop
  | _, [] => True
  | s, l :: ls => C s l ∧ Along step C (step s l) ls

namespace Along
variable {C C' : σ → ι → Prop} {P : σ → Prop}

theorem mono (h : ∀ s l, C s l → C' s l) (hrun : Along step C s ls) : Along step C' s ls := by
  induction ls generalizing s with
  | nil => trivial
  | cons l ls ih => exact ⟨h s l hrun.1, ih hrun.2⟩

theorem and (h : Along step C s ls) (h' : Along step C' s ls) :
    Along step (fun s l => C s l ∧ C' s l) s ls := by
  induction ls generalizing s with
  | nil => trivial
  | cons l ls ih => exact ⟨⟨h.1, h'.1⟩, ih h.2 h'.2⟩

theorem append_iff {C : σ → ι → Prop} {ms : List ι} :
    Along step C s (ls ++ ms) ↔ Along step C s ls ∧ Along step C (run step s ls) ms := by
  induction ls generalizing s with
  | nil => exact ⟨fun h => ⟨trivial, h⟩, And.right⟩
  | cons l ls ih =>
    constructor
    · rintro ⟨hl, h⟩
      exact ⟨⟨hl, (ih.1 h).1⟩, (ih.1 h).2⟩
    · rintro ⟨⟨hl, h⟩, h'⟩
      exact ⟨hl, ih.2 ⟨h, h'⟩⟩

theorem of_forall {Q : ι → Prop} (h : ∀ l ∈ ls, Q l) : Along step (fun _ l => Q l) s ls := by
  induction ls generalizing s with
  | nil => trivial
  | cons l ls ih =>
    exact ⟨h l (List.mem_cons_self ..), ih fun m hm => h m (List.mem_cons_of_mem _ hm)⟩

/-- What every step that meets the condition preserves holds at the end of the run. -/
theorem invariant (hstep : ∀ s l, P s → C s l → P (step s l)) (hs : P s) (h : Along step C s ls) :
    P (run step s ls) := by
  induction ls generalizing s with
  | nil => exact hs
  | cons l ls ih => exact ih (hstep s l hs h.1) h.2

theorem of_invariant (hstep : ∀ s l, P s → C s l → P (step s l)) (hC : ∀ s l, P s → C s l → C' s l)
    (hs : P s) (h : Along step C s ls) : Along step C' s ls := by
  induction ls generalizing s with
  | nil => trivial
  | cons l ls ih => exact ⟨hC s l hs h.1, ih (hstep s l hs h.1) h.2⟩

/-- Where exactly the steps that meet the condition preserve `P`, it holds all along a run if all steps meet it. -/
theorem iff_invariant (hstep : ∀ s l, P s → (P (step s l) ↔ C s l)) (hs : P s) :
    (∀ n, P (run step s (ls.take n))) ↔ Along step C s ls := by
  induction ls generalizing s with
  | nil => exact iff_of_true (fun n => by rw [List.take_nil]; exact hs) trivial
  | cons l ls ih =>
    constructor
    · intro h
      have hl : P (step s l) := h 1
      exact ⟨(hstep s l hs).1 hl, (ih hl).1 fun n => h (n + 1)⟩
    · rintro ⟨hl, h⟩ n
      cases n with
      | zero => exact hs
      | succ n => exact (ih ((hstep s l hs).2 hl)).2 h n

end Along

section Measure
variable {m : σ → ℕ} (hm : ∀ s l, m s ≤ m (step s l))
include hm

theorem le_run (s : σ) (ls : List ι) : m s ≤ m (run step s ls) := by
  induction ls generalizing s with
  | nil => exact Nat.le_refl _
  | cons l ls ih => exact Nat.le_trans (hm s l) (ih (step s l))

/-- A bound on a growing quantity at the end holds after every step. -/
theorem along_of_le_run {N : ℕ} (h : m (run step s ls) < N) :
    Along step (fun s l => m (step s l) < N) s ls := by
  induction ls generalizing s with
  | nil => trivial
  | cons l ls ih => exact ⟨Nat.lt_of_le_of_lt (le_run hm _ ls) h, ih h⟩

end Measure

theorem run_le_length {m : σ → ℕ} (hm : ∀ s l, m (step s l) ≤ m s + 1) (s : σ) (ls : List ι) :
    m (run step s ls) ≤ m s + ls.length := by
  induction ls generalizing s with
  | nil => exact Nat.le_refl _
  | cons l ls ih =>
    have h := ih (step s l)
    have h' := hm s l
    rw [run_cons, List.length_cons]
    omega

end Embed
