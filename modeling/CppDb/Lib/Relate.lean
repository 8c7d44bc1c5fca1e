import CppDb.Lib.Proc

/-!
# Two runs side by side

`Relates R p q`: run in states that `R` relates, `p` and `q` end alike, and `R` relates the states they leave. The rules
go along the structure that both procedures share.
-/

namespace Embed.Proc
variable {σ τ σ' τ' α β : Type} {R : σ → τ → Prop}

/-- From `s` and from `t`. -/
def RelatesAt (R : σ → τ → Prop) (p : Proc σ α) (q : Proc τ α) (s : σ) (t : τ) : Prop :=
  (p.run s).1 = (q.run t).1 ∧ R (p.run s).2 (q.run t).2

def Relates (R : σ → τ → Prop) (p : Proc σ α) (q : Proc τ α) : Prop := ∀ ⦃s t⦄, R s t → RelatesAt R p q s t

namespace RelatesAt
variable {s : σ} {t : τ}

theorem bind {p : Proc σ α} {q : Proc τ α} {f : α → Proc σ β} {g : α → Proc τ β} (hp : RelatesAt R p q s t)
    (hf : ∀ a, Relates R (f a) (g a)) : RelatesAt R (p >>= f) (q >>= g) s t := by
  obtain ⟨hexit, hR'⟩ := hp
  rcases hs : p.run s with ⟨a | _ | m | _, s'⟩
  all_goals
    rcases ht : q.run t with ⟨x, t'⟩
    rw [hs, ht] at hexit hR'
    cases hexit
  · rw [RelatesAt, run_bind_of_ret hs, run_bind_of_ret ht]
    exact hf a hR'
  · rw [RelatesAt, run_bind_of_fail hs, run_bind_of_fail ht]
    exact ⟨rfl, hR'⟩
  · rw [RelatesAt, run_bind_of_abort hs, run_bind_of_abort ht]
    exact ⟨rfl, hR'⟩
  · rw [RelatesAt, run_bind_of_outOfFuel hs, run_bind_of_outOfFuel ht]
    exact ⟨rfl, hR'⟩

theorem read_bind {f : σ → Proc σ β} {g : τ → Proc τ β} (h : RelatesAt R (f s) (g t) s t) :
    RelatesAt R (read >>= f) (read >>= g) s t := h

theorem attempt {p : Proc σ α} {q : Proc τ α} (hp : RelatesAt R p q s t) : RelatesAt R p.attempt q.attempt s t := by
  obtain ⟨hexit, hR'⟩ := hp
  rcases hs : p.run s with ⟨a | _ | m | _, s'⟩
  all_goals
    rcases ht : q.run t with ⟨x, t'⟩
    rw [hs, ht] at hexit hR'
    cases hexit
  · rw [RelatesAt, run_attempt_of_ret hs, run_attempt_of_ret ht]
    exact ⟨rfl, hR'⟩
  · rw [RelatesAt, run_attempt_of_fail hs, run_attempt_of_fail ht]
    exact ⟨rfl, hR'⟩
  · rw [RelatesAt, run_attempt_of_abort hs, run_attempt_of_abort ht]
    exact ⟨rfl, hR'⟩
  · rw [RelatesAt, run_attempt_of_outOfFuel hs, run_attempt_of_outOfFuel ht]
    exact ⟨rfl, hR'⟩

end RelatesAt

namespace Relates

theorem refl (p : Proc σ α) : Relates Eq p p := by
  rintro s _ rfl
  exact ⟨rfl, rfl⟩

theorem pure (a : α) : Relates R (Pure.pure a) (Pure.pure a) := fun _ _ h => ⟨rfl, h⟩

theorem fail : Relates R (fail : Proc σ α) fail := fun _ _ h => ⟨rfl, h⟩

theorem abort (message : String) : Relates R (abort message : Proc σ α) (abort message) := fun _ _ h => ⟨rfl, h⟩

theorem outOfFuel : Relates R (outOfFuel : Proc σ α) outOfFuel := fun _ _ h => ⟨rfl, h⟩

theorem require (c : Prop) [Decidable c] : Relates R (require c) (require c) := by
  unfold Proc.require
  split
  · exact pure ()
  · exact fail

theorem ite {c : Prop} [Decidable c] {p₁ p₂ : Proc σ α} {q₁ q₂ : Proc τ α} (h₁ : Relates R p₁ q₁) (h₂ : Relates R p₂ q₂) :
    Relates R (if c then p₁ else p₂) (if c then q₁ else q₂) := by
  split
  · exact h₁
  · exact h₂

theorem modify {f : σ → σ} {g : τ → τ} (h : ∀ s t, R s t → R (f s) (g t)) : Relates R (modify f) (modify g) :=
  fun s t hR => ⟨rfl, h s t hR⟩

theorem bind {p : Proc σ α} {q : Proc τ α} {f : α → Proc σ β} {g : α → Proc τ β} (hp : Relates R p q)
    (hf : ∀ a, Relates R (f a) (g a)) : Relates R (p >>= f) (q >>= g) := fun _ _ hR => (hp hR).bind hf

theorem read_bind {f : σ → Proc σ β} {g : τ → Proc τ β} (h : ∀ s t, R s t → Relates R (f s) (g t)) :
    Relates R (read >>= f) (read >>= g) := fun s t hR => .read_bind (h s t hR hR)

/-- Components that `Q` relates. -/
theorem zoom {get : σ → σ'} {put : σ' → σ → σ} {get' : τ → τ'} {put' : τ' → τ → τ} {Q : σ' → τ' → Prop}
    {p : Proc σ' α} {q : Proc τ' α} (hget : ∀ s t, R s t → Q (get s) (get' t))
    (hput : ∀ s t x y, R s t → Q x y → R (put x s) (put' y t)) (hp : Relates Q p q) :
    Relates R (zoom get put p) (zoom get' put' q) := by
  intro s t hR
  obtain ⟨hexit, hR'⟩ := hp (hget s t hR)
  exact ⟨hexit, hput s t _ _ hR hR'⟩

end Relates

end Embed.Proc
