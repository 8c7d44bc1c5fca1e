import CppDb.Lib.Run
import Mathlib.Algebra.Order.Group.Nat

/-!
# Infinite runs

What happens for ever (`InfiniteRun.invariant`) and what happens eventually (`LeadsTo`). A condition that holds
until it is acted upon, and is acted upon again and again, leads to what the action brings (`LeadsTo.of_recurs`).
-/

namespace Embed
variable {σ ι : Type*} {step : σ → ι → σ}

structure InfiniteRun (step : σ → ι → σ) where
  states : ℕ → σ
  labels : ℕ → ι
  step_eq (n : ℕ) : states (n + 1) = step (states n) (labels n)

namespace InfiniteRun

/-- The run from `s` that takes the labels `ls`. -/
def of (step : σ → ι → σ) (s : σ) (ls : ℕ → ι) : InfiniteRun step where
  states n := Nat.rec s (fun n s => step s (ls n)) n
  labels := ls
  step_eq _ := rfl

theorem invariant (r : InfiniteRun step) {P : σ → Prop} {C : σ → ι → Prop}
    (hstep : ∀ s l, P s → C s l → P (step s l)) (hstart : P (r.states 0))
    (hC : ∀ n, C (r.states n) (r.labels n)) (n : ℕ) : P (r.states n) := by
  induction n with
  | zero => exact hstart
  | succ n ih =>
    rw [r.step_eq]
    exact hstep _ _ ih (hC n)

/-- What every step of a run relates, all earlier states are related by to all later ones. -/
theorem related (r : InfiniteRun step) {R : σ → σ → Prop} (hrefl : ∀ s, R s s)
    (htrans : ∀ a b c, R a b → R b c → R a c) (hstep : ∀ n, R (r.states n) (r.states (n + 1))) {n m : ℕ} (hle : n ≤ m) :
    R (r.states n) (r.states m) := by
  induction m, hle using Nat.le_induction with
  | base => exact hrefl _
  | succ m _ ih => exact htrans _ _ _ ih (hstep m)

end InfiniteRun

variable {P P' Q R : ℕ → Prop}

/-- `P` happens again and again. -/
def Recurs (P : ℕ → Prop) : Prop := ∀ n, ∃ m, n ≤ m ∧ P m

/-- Whenever `P` holds, `Q` holds then or later. -/
def LeadsTo (P Q : ℕ → Prop) : Prop := ∀ n, P n → ∃ m, n ≤ m ∧ Q m

namespace LeadsTo

theorem of_imp (h : ∀ n, P n → Q n) : LeadsTo P Q := fun n hn => ⟨n, Nat.le_refl n, h n hn⟩

theorem trans (h : LeadsTo P Q) (h' : LeadsTo Q R) : LeadsTo P R := by
  intro n hn
  obtain ⟨m, hm, hQ⟩ := h n hn
  obtain ⟨k, hk, hR⟩ := h' m hQ
  exact ⟨k, Nat.le_trans hm hk, hR⟩

theorem or (h : LeadsTo P R) (h' : LeadsTo P' R) : LeadsTo (fun n => P n ∨ P' n) R := by
  rintro n (hn | hn)
  · exact h n hn
  · exact h' n hn

/-- `P` holds until `Q` does, and where the action `R` meets it, `Q` follows. -/
theorem of_recurs (hR : Recurs R) (hstay : ∀ n, P n → P (n + 1) ∨ Q (n + 1)) (hact : ∀ n, P n → R n → Q (n + 1)) :
    LeadsTo P Q := by
  intro n hn
  have huntil : ∀ m, n ≤ m → P m ∨ ∃ k, n ≤ k ∧ Q k := by
    intro m hm
    induction m, hm using Nat.le_induction with
    | base => exact .inl hn
    | succ m hm ih =>
      rcases ih with hP | hQ
      · exact (hstay m hP).imp_right fun hQ => ⟨m + 1, Nat.le_succ_of_le hm, hQ⟩
      · exact .inr hQ
  obtain ⟨m, hm, hRm⟩ := hR n
  rcases huntil m hm with hP | hQ
  · exact ⟨m + 1, Nat.le_succ_of_le hm, hact m hP hRm⟩
  · exact hQ

end LeadsTo

end Embed
