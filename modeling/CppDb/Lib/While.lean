import CppDb.Lib.Proc
import Mathlib.Logic.Relation

/-!
# Loops with fuel

A `while` loop of a procedure, made total by a bound on its turns, and when a procedure with such a bound halts:
whatever the bound is, once it is large enough (`Halts`). For a loop whose body ends, this is accessibility
along its turns (`whileLoop_halts_iff`), and a sequence halts if each part does (`halts_bind_iff`).
-/

namespace Embed.Proc
variable {σ α β : Type}

/-- `while (c) body`, with at most `fuel` turns. -/
def whileLoop (c : σ → Prop) [DecidablePred c] (body : Proc σ Unit) : (fuel : ℕ) → Proc σ Unit
  | 0 => outOfFuel
  | fuel + 1 => do
    let s ← read
    if c s then
      body
      whileLoop c body fuel
    else pure ()

/-- From some bound on, there is enough fuel. -/
def Halts (p : ℕ → Proc σ α) (s : σ) : Prop := ∃ bound, ∀ fuel, bound < fuel → ((p fuel).run s).1 ≠ .outOfFuel

/-- More fuel does not change what happens. -/
def Steady (p : ℕ → Proc σ α) : Prop :=
  ∀ ⦃fuel s x s'⦄, (p fuel).run s = (x, s') → x ≠ .outOfFuel → ∀ k, (p (fuel + k)).run s = (x, s')

theorem Steady.const (p : Proc σ α) : Steady fun _ => p := fun _ _ _ _ h _ _ => h

theorem Ends.halts {mayAbort : Prop} {p : Proc σ α} (hp : Ends mayAbort p) (s : σ) : Halts (fun _ => p) s := by
  refine ⟨0, fun _ _ h => ?_⟩
  have hs := hp s
  rw [h] at hs
  exact hs

theorem Steady.bind {p : ℕ → Proc σ α} {q : ℕ → α → Proc σ β} (hp : Steady p) (hq : ∀ a, Steady fun fuel => q fuel a) :
    Steady fun fuel => p fuel >>= q fuel := by
  intro fuel s x s' hrun hx k
  rcases h : (p fuel).run s with ⟨a | _ | m | _, s₁⟩
  · rw [run_bind_of_ret h] at hrun
    rw [run_bind_of_ret (hp h (fun h => nomatch h) k)]
    exact hq a hrun hx k
  · rw [run_bind_of_fail h] at hrun
    rwa [run_bind_of_fail (hp h (fun h => nomatch h) k)]
  · rw [run_bind_of_abort h] at hrun
    rwa [run_bind_of_abort (hp h (fun h => nomatch h) k)]
  · rw [run_bind_of_outOfFuel h] at hrun
    cases hrun
    exact absurd rfl hx

/-- The first part halts, and the second does from wherever the first can come to. -/
theorem halts_bind_iff {p : ℕ → Proc σ α} {q : ℕ → α → Proc σ β} (hp : Steady p) {s : σ} :
    Halts (fun fuel => p fuel >>= q fuel) s ↔
      Halts p s ∧ ∀ fuel a s', (p fuel).run s = (.ret a, s') → Halts (fun fuel => q fuel a) s' := by
  constructor
  · rintro ⟨bound, h⟩
    refine ⟨⟨bound, fun fuel hfuel hout => ?_⟩, fun fuel a s' hrun => ⟨bound + fuel, fun fuel' hfuel' => ?_⟩⟩
    · obtain ⟨s', hrun⟩ := exists_run_eq hout
      refine h fuel hfuel ?_
      rw [run_bind_of_outOfFuel hrun]
    · have hmore := hp hrun (fun h => nomatch h) (fuel' - fuel)
      rw [Nat.add_sub_cancel' (by omega)] at hmore
      have hq := h fuel' (by omega)
      rwa [run_bind_of_ret hmore] at hq
  · rintro ⟨⟨bound, h⟩, hq⟩
    rcases hrun : (p (bound + 1)).run s with ⟨x, s'⟩
    have hx : x ≠ .outOfFuel := by
      have := h (bound + 1) (Nat.lt_succ_self bound)
      rwa [hrun] at this
    have hmore : ∀ fuel, bound < fuel → (p fuel).run s = (x, s') := by
      intro fuel hfuel
      have := hp hrun hx (fuel - (bound + 1))
      rwa [Nat.add_sub_cancel' (by omega)] at this
    cases x with
    | ret a =>
      obtain ⟨bound', h'⟩ := hq _ a s' hrun
      refine ⟨bound + bound', fun fuel hfuel => ?_⟩
      rw [run_bind_of_ret (hmore fuel (by omega))]
      exact h' fuel (by omega)
    | fail =>
      refine ⟨bound, fun fuel hfuel => ?_⟩
      rw [run_bind_of_fail (hmore fuel hfuel)]
      exact fun h => nomatch h
    | abort m =>
      refine ⟨bound, fun fuel hfuel => ?_⟩
      rw [run_bind_of_abort (hmore fuel hfuel)]
      exact fun h => nomatch h
    | outOfFuel => exact absurd rfl hx

/-! ### Turns of a loop -/

/-- The loop goes round once. -/
def Turn (c : σ → Prop) (body : Proc σ Unit) (s s' : σ) : Prop := c s ∧ body.run s = (.ret (), s')

/-- The loop comes to `s'`, at the start of a turn or where it stops. -/
def Comes (c : σ → Prop) (body : Proc σ Unit) : σ → σ → Prop := Relation.ReflTransGen (Turn c body)

section
variable {c : σ → Prop} [DecidablePred c] {body : Proc σ Unit} {s s' : σ} {fuel : ℕ}

theorem run_whileLoop_stop (h : ¬ c s) : (whileLoop c body (fuel + 1)).run s = (.ret (), s) := by
  rw [whileLoop, run_read_bind, if_neg h, run_pure]

omit [DecidablePred c] in
theorem Turn.unique {s₁ s₂ : σ} (h₁ : Turn c body s s₁) (h₂ : Turn c body s s₂) : s₁ = s₂ :=
  congrArg Prod.snd (h₁.2.symm.trans h₂.2)

theorem run_whileLoop_turn (h : Turn c body s s') :
    (whileLoop c body (fuel + 1)).run s = (whileLoop c body fuel).run s' := by
  rw [whileLoop, run_read_bind, if_pos h.1, run_bind_of_ret h.2]

theorem run_whileLoop_exit {x : Exit Unit} (h : c s) (hx : x ≠ .ret ()) (hrun : body.run s = (x, s')) :
    (whileLoop c body (fuel + 1)).run s = (x, s') := by
  rw [whileLoop, run_read_bind, if_pos h]
  cases x with
  | ret a => exact absurd rfl hx
  | fail => exact run_bind_of_fail hrun
  | abort m => exact run_bind_of_abort hrun
  | outOfFuel => exact run_bind_of_outOfFuel hrun

theorem whileLoop_cases (c : σ → Prop) [DecidablePred c] (body : Proc σ Unit) (s : σ) :
    ¬ c s ∨ (∃ s', Turn c body s s') ∨ c s ∧ ∃ x s', x ≠ .ret () ∧ body.run s = (x, s') := by
  by_cases hc : c s
  · rcases hrun : body.run s with ⟨x, s'⟩
    by_cases hx : x = .ret ()
    · subst hx
      exact Or.inr (Or.inl ⟨s', hc, hrun⟩)
    · exact Or.inr (Or.inr ⟨hc, x, s', hx, rfl⟩)
  · exact Or.inl hc

theorem steady_whileLoop (c : σ → Prop) [DecidablePred c] (body : Proc σ Unit) : Steady (whileLoop c body) := by
  intro fuel
  induction fuel with
  | zero =>
    intro s x s' hrun hx
    cases hrun
    exact absurd rfl hx
  | succ fuel ih =>
    intro s x s' hrun hx k
    rw [Nat.add_right_comm]
    rcases whileLoop_cases c body s with hc | ⟨s₁, hturn⟩ | ⟨hc, y, s₁, hy, hbody⟩
    · rw [run_whileLoop_stop hc] at hrun ⊢
      exact hrun
    · rw [run_whileLoop_turn hturn] at hrun ⊢
      exact ih hrun hx k
    · rw [run_whileLoop_exit hc hy hbody] at hrun ⊢
      exact hrun

/-- The loop returns where it comes to a state that stops it. -/
theorem run_whileLoop_ret_iff : (∃ fuel, (whileLoop c body fuel).run s = (.ret (), s')) ↔
    Comes c body s s' ∧ ¬ c s' := by
  constructor
  · rintro ⟨fuel, hrun⟩
    induction fuel generalizing s with
    | zero => cases hrun
    | succ fuel ih =>
      rcases whileLoop_cases c body s with hc | ⟨s₁, hturn⟩ | ⟨hc, y, s₁, hy, hbody⟩
      · rw [run_whileLoop_stop hc] at hrun
        cases hrun
        exact ⟨Relation.ReflTransGen.refl, hc⟩
      · rw [run_whileLoop_turn hturn] at hrun
        obtain ⟨hcomes, hstop⟩ := ih hrun
        exact ⟨Relation.ReflTransGen.head hturn hcomes, hstop⟩
      · rw [run_whileLoop_exit hc hy hbody] at hrun
        cases hrun
        exact absurd rfl hy
  · rintro ⟨hcomes, hstop⟩
    induction hcomes using Relation.ReflTransGen.head_induction_on with
    | refl => exact ⟨1, run_whileLoop_stop hstop⟩
    | head hturn _ ih =>
      obtain ⟨fuel, hrun⟩ := ih
      exact ⟨fuel + 1, (run_whileLoop_turn hturn).trans hrun⟩

/-- The loop halts where there is no infinite sequence of turns. -/
theorem whileLoop_halts_iff (hbody : body.Ends True) :
    Halts (whileLoop c body) s ↔ Acc (fun s' s => Turn c body s s') s := by
  constructor
  · rintro ⟨bound, h⟩
    induction bound generalizing s with
    | zero =>
      refine Acc.intro s fun s' hturn => absurd ?_ (h 1 Nat.one_pos)
      rw [run_whileLoop_turn hturn]
      rfl
    | succ bound ih =>
      refine Acc.intro s fun s' hturn => ih fun fuel hfuel => ?_
      have hmore := h (fuel + 1) (Nat.succ_lt_succ hfuel)
      rwa [run_whileLoop_turn hturn] at hmore
  · intro hacc
    induction hacc with
    | intro s _ ih =>
      rcases whileLoop_cases c body s with hc | ⟨s₁, hturn⟩ | ⟨hc, y, s₁, hy, hrun⟩
      · refine ⟨0, fun fuel hfuel => ?_⟩
        obtain ⟨fuel, rfl⟩ := Nat.exists_eq_add_one_of_ne_zero (Nat.ne_of_gt hfuel)
        rw [run_whileLoop_stop hc]
        exact fun h => nomatch h
      · obtain ⟨bound, h⟩ := ih s₁ hturn
        refine ⟨bound + 1, fun fuel hfuel => ?_⟩
        obtain ⟨fuel, rfl⟩ := Nat.exists_eq_add_one_of_ne_zero (show fuel ≠ 0 by omega)
        rw [run_whileLoop_turn hturn]
        exact h fuel (by omega)
      · refine ⟨0, fun fuel hfuel hout => ?_⟩
        obtain ⟨fuel, rfl⟩ := Nat.exists_eq_add_one_of_ne_zero (Nat.ne_of_gt hfuel)
        rw [run_whileLoop_exit hc hy hrun] at hout
        have hends := hbody s
        rw [hrun, hout] at hends
        exact hends

end

end Embed.Proc
