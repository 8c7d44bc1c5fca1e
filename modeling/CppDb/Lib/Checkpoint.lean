import CppDb.Lib.Run

/-!
# States with a saved copy

A state that is saved now and then, and that starts again from its copy. `surviving` are the actions that are not
lost: the state and its copy are what these make of the initial state (`run_step`). What implements such a state is
related to it by a relation that every event keeps (`Along.simulates`).
-/

namespace Embed
variable {α σ τ ι : Type*}

/-- A run and the run that it stands for. -/
theorem Along.simulates {step : σ → ι → σ} {step' : τ → ι → τ} {C : σ → ι → Prop} {R : σ → τ → Prop}
    (hstep : ∀ s t i, R s t → C s i → R (step s i) (step' t i)) {s : σ} {t : τ} (h : R s t) {is : List ι}
    (his : Along step C s is) : R (run step s is) (run step' t is) := by
  induction is generalizing s t with
  | nil => exact h
  | cons i is ih => exact ih (hstep s t i h his.1) his.2

/-- What happens to a state that is saved. -/
inductive SessionEvent (ι : Type*) where
  | act (i : ι)
  | save
  | restart

structure Checkpointed (α : Type*) where
  current : α
  saved : α

namespace Checkpointed
variable {f : α → ι → α}

def step (f : α → ι → α) (c : Checkpointed α) : SessionEvent ι → Checkpointed α
  | .act i => ⟨f c.current i, c.saved⟩
  | .save => ⟨c.current, c.current⟩
  | .restart => ⟨c.saved, c.saved⟩

/-- The actions that are not lost, and those of them that are saved. -/
def surviving (es : List (SessionEvent ι)) : Checkpointed (List ι) := run (step fun is i => is ++ [i]) ⟨[], []⟩ es

theorem run_step (s : α) (es : List (SessionEvent ι)) : run (step f) ⟨s, s⟩ es =
    ⟨run f s (surviving es).current, run f s (surviving es).saved⟩ := by
  have hstep : ∀ (c : Checkpointed α) (is : Checkpointed (List ι)) (e : SessionEvent ι),
      c = ⟨run f s is.current, run f s is.saved⟩ → True →
        c.step f e = ⟨run f s (is.step (fun is i => is ++ [i]) e).current,
          run f s (is.step (fun is i => is ++ [i]) e).saved⟩ := by
    rintro c is (i | _ | _) rfl -
    · have hact : run f s (is.current ++ [i]) = f (run f s is.current) i := run_append ..
      exact congrArg (Checkpointed.mk · (run f s is.saved)) hact.symm
    · rfl
    · rfl
  exact Along.simulates hstep (rfl : (⟨s, s⟩ : Checkpointed α) = ⟨run f s [], run f s []⟩)
    (Along.of_forall fun _ _ => trivial)

end Checkpointed

end Embed
