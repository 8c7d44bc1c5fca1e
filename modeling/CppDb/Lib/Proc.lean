import Mathlib.Tactic.Common
import Mathlib.Logic.Function.Basic

/-!
# Procedures with early return

A member function of an imperative program runs over a state `σ` and ends in one of four ways
(`Exit`): with a value, by returning failure early, by ending the process, or, in the model only,
because the bound given to a loop was used up. Whichever way it ends, the state it leaves is kept:
a function that gives up half way leaves its half-done work behind. `Proc` is the state-passing
monad of such functions, `Call` the smaller one of device calls, which only succeed or fail.
-/

namespace Embed

/-- How a procedure ends. -/
inductive Exit (α : Type) where
  | ret (a : α)
  | fail
  | abort (message : String)
  | outOfFuel
deriving DecidableEq, Repr

/-- Not out of fuel, and with the end of the process only if `mayAbort`. -/
def Exit.Proper {α : Type} (mayAbort : Prop) : Exit α → Prop
  | .ret _ | .fail => True
  | .abort _ => mayAbort
  | .outOfFuel => False

/-- A device call: it returns a value or reports failure, and always leaves a state. -/
abbrev Call (σ α : Type) : Type := σ → Option α × σ

/-- A procedure over the state `σ`. -/
def Proc (σ α : Type) : Type := σ → Exit α × σ

namespace Proc
variable {σ τ α β : Type}

def run (p : Proc σ α) (s : σ) : Exit α × σ := p s

instance : Monad (Proc σ) where
  pure a := fun s => (.ret a, s)
  bind p f := fun s =>
    match p s with
    | (.ret a, s') => (f a).run s'
    | (.fail, s') => (.fail, s')
    | (.abort m, s') => (.abort m, s')
    | (.outOfFuel, s') => (.outOfFuel, s')

instance : LawfulMonad (Proc σ) := LawfulMonad.mk' (Proc σ)
  (fun p => by
    funext s; simp only [Functor.map, run]
    rcases p s with ⟨_ | _ | _ | _, _⟩ <;> rfl)
  (fun _ _ => rfl)
  (fun p _ _ => by
    funext s; simp only [bind, run]
    rcases p s with ⟨_ | _ | _ | _, _⟩ <;> rfl)

/-- `return false`, `return {}`. -/
def fail : Proc σ α := fun s => (.fail, s)

def abort (message : String) : Proc σ α := fun s => (.abort message, s)

def outOfFuel : Proc σ α := fun s => (.outOfFuel, s)

/-- Return failure unless `c` holds. -/
def require (c : Prop) [Decidable c] : Proc σ Unit := if c then pure () else fail

def read : Proc σ σ := fun s => (.ret s, s)

def modify (f : σ → σ) : Proc σ Unit := fun s => (.ret (), f s)

/-- Run `p` and look at its success flag instead of returning with it. -/
def attempt (p : Proc σ α) : Proc σ (Option α) := fun s =>
  match p s with
  | (.ret a, s') => (.ret (some a), s')
  | (.fail, s') => (.ret none, s')
  | (.abort m, s') => (.abort m, s')
  | (.outOfFuel, s') => (.outOfFuel, s')

def ofCall (c : Call σ α) : Proc σ α := fun s =>
  match c s with
  | (some a, s') => (.ret a, s')
  | (none, s') => (.fail, s')

/-- Run a procedure of a component `τ` of the state. -/
def zoom (get : σ → τ) (put : τ → σ → σ) (p : Proc τ α) : Proc σ α := fun s =>
  ((p (get s)).1, put (p (get s)).2 s)

/-- `p`, `n` times over, collecting what it returns. -/
def times (p : Proc σ α) : ℕ → Proc σ (List α)
  | 0 => pure []
  | n + 1 => do
    let a ← p
    let as ← times p n
    return a :: as

/-! ### Running -/

@[simp] theorem run_pure (a : α) (s : σ) : (pure a : Proc σ α).run s = (.ret a, s) := rfl
@[simp] theorem run_fail (s : σ) : (fail : Proc σ α).run s = (.fail, s) := rfl
@[simp] theorem run_abort (m : String) (s : σ) : (abort m : Proc σ α).run s = (.abort m, s) := rfl
@[simp] theorem run_outOfFuel (s : σ) : (outOfFuel : Proc σ α).run s = (.outOfFuel, s) := rfl
@[simp] theorem run_read (s : σ) : (read : Proc σ σ).run s = (.ret s, s) := rfl
@[simp] theorem run_modify (f : σ → σ) (s : σ) : (modify f).run s = (.ret (), f s) := rfl

@[simp] theorem run_zoom (get : σ → τ) (put : τ → σ → σ) (p : Proc τ α) (s : σ) :
    (zoom get put p).run s = ((p.run (get s)).1, put (p.run (get s)).2 s) := rfl

theorem run_require_pos {c : Prop} [Decidable c] (h : c) (s : σ) :
    (require c : Proc σ Unit).run s = (.ret (), s) := by
  rw [require, if_pos h, run_pure]

theorem run_require_neg {c : Prop} [Decidable c] (h : ¬ c) (s : σ) :
    (require c : Proc σ Unit).run s = (.fail, s) := by
  rw [require, if_neg h, run_fail]

theorem run_ite {c : Prop} [Decidable c] (p q : Proc σ α) (s : σ) :
    (if c then p else q).run s = if c then p.run s else q.run s := by
  split <;> rfl

theorem run_ofCall_some {c : Call σ α} {s s' : σ} {a : α} (h : c s = (some a, s')) :
    (ofCall c).run s = (.ret a, s') := by
  simp only [run, ofCall, h]

theorem run_ofCall_none {c : Call σ α} {s s' : σ} (h : c s = (none, s')) :
    (ofCall c).run s = (.fail, s') := by
  simp only [run, ofCall, h]

section Bind
variable {p : Proc σ α} {f : α → Proc σ β} {s s' : σ}

theorem run_bind_of_ret {a : α} (h : p.run s = (.ret a, s')) :
    (p >>= f).run s = (f a).run s' := by
  simp only [run, bind] at h ⊢; rw [h]

theorem run_bind_of_fail (h : p.run s = (.fail, s')) : (p >>= f).run s = (.fail, s') := by
  simp only [run, bind] at h ⊢; rw [h]

theorem run_bind_of_abort {m : String} (h : p.run s = (.abort m, s')) :
    (p >>= f).run s = (.abort m, s') := by
  simp only [run, bind] at h ⊢; rw [h]

theorem run_bind_of_outOfFuel (h : p.run s = (.outOfFuel, s')) :
    (p >>= f).run s = (.outOfFuel, s') := by
  simp only [run, bind] at h ⊢; rw [h]

theorem run_bind_ne_ret (h : ∀ a, (p.run s).1 ≠ .ret a) (b : β) : ((p >>= f).run s).1 ≠ .ret b := by
  rcases hp : p.run s with ⟨a | _ | m | _, s'⟩
  · exact absurd (congrArg Prod.fst hp) (h a)
  · rw [run_bind_of_fail hp]
    intro h
    cases h
  · rw [run_bind_of_abort hp]
    intro h
    cases h
  · rw [run_bind_of_outOfFuel hp]
    intro h
    cases h

@[simp] theorem run_pure_bind (a : α) : ((pure a : Proc σ α) >>= f).run s = (f a).run s := rfl

@[simp] theorem run_read_bind {f : σ → Proc σ β} : (read >>= f).run s = (f s).run s := rfl

@[simp] theorem run_modify_bind {g : σ → σ} {f : Unit → Proc σ β} :
    (modify g >>= f).run s = (f ()).run (g s) := rfl

end Bind

theorem run_attempt_of_ret {p : Proc σ α} {s s' : σ} {a : α} (h : p.run s = (.ret a, s')) :
    (attempt p).run s = (.ret (some a), s') := by
  simp only [run, attempt] at h ⊢; rw [h]

theorem run_attempt_of_fail {p : Proc σ α} {s s' : σ} (h : p.run s = (.fail, s')) :
    (attempt p).run s = (.ret none, s') := by
  simp only [run, attempt] at h ⊢; rw [h]

theorem run_attempt_of_abort {p : Proc σ α} {s s' : σ} {m : String} (h : p.run s = (.abort m, s')) :
    (attempt p).run s = (.abort m, s') := by
  simp only [run, attempt] at h ⊢; rw [h]

theorem run_attempt_of_outOfFuel {p : Proc σ α} {s s' : σ} (h : p.run s = (.outOfFuel, s')) :
    (attempt p).run s = (.outOfFuel, s') := by
  simp only [run, attempt] at h ⊢; rw [h]

theorem run_zoom_of {get : σ → τ} {put : τ → σ → σ} {p : Proc τ α} {s : σ} {x : Exit α} {t : τ}
    (h : p.run (get s) = (x, t)) : (zoom get put p).run s = (x, put t s) := by
  rw [run_zoom, h]

theorem exists_run_eq {p : Proc σ α} {s : σ} {x : Exit α} (h : (p.run s).1 = x) : ∃ s', p.run s = (x, s') :=
  ⟨_, Prod.ext h rfl⟩

theorem exists_ret_iff {p : Proc σ α} {s s' : σ} {a b : α} (h : p.run s = (.ret b, s')) :
    (∃ s'', p.run s = (.ret a, s'')) ↔ b = a := by
  constructor
  · rintro ⟨s'', hrun⟩
    rw [h] at hrun
    cases hrun
    rfl
  · rintro rfl
    exact ⟨s', h⟩

theorem ext {p q : Proc σ α} (h : ∀ s, p.run s = q.run s) : p = q := funext h

theorem zoom_bind (get : σ → τ) (put : τ → σ → σ) (hget : ∀ t s, get (put t s) = t)
    (hput : ∀ t t' s, put t (put t' s) = put t s) (p : Proc τ α) (f : α → Proc τ β) :
    zoom get put (p >>= f) = zoom get put p >>= fun a => zoom get put (f a) := by
  refine ext fun s => ?_
  rcases h : p.run (get s) with ⟨a | _ | m | _, t⟩
  · rw [run_zoom, run_bind_of_ret h, run_bind_of_ret (run_zoom_of h), run_zoom, hget, hput]
  · rw [run_zoom, run_bind_of_fail h, run_bind_of_fail (run_zoom_of h)]
  · rw [run_zoom, run_bind_of_abort h, run_bind_of_abort (run_zoom_of h)]
  · rw [run_zoom, run_bind_of_outOfFuel h, run_bind_of_outOfFuel (run_zoom_of h)]

theorem forM_skip {ι : Type} {k : ι → Proc σ Unit} {l : List ι} (h : ∀ x ∈ l, k x = pure ()) :
    l.forM k = pure () := by
  induction l with
  | nil => rfl
  | cons x l ih =>
    rw [List.forM, h x (List.mem_cons_self ..), LawfulMonad.pure_bind,
      ih fun y hy => h y (List.mem_cons_of_mem _ hy)]

/-- A loop that does something for one of its items only. -/
theorem forM_one {ι : Type} {k : ι → Proc σ Unit} {l r : List ι} {x : ι} (hl : ∀ y ∈ l, k y = pure ())
    (hr : ∀ y ∈ r, k y = pure ()) : (l ++ x :: r).forM k = k x := by
  induction l with
  | nil =>
    have h : ((x :: r).forM k : Proc σ Unit) = k x >>= fun _ => pure () := by
      rw [List.forM, forM_skip hr]
    rw [List.nil_append, h]
    exact bind_pure (k x)
  | cons y l ih =>
    rw [List.cons_append, List.forM, hl y (List.mem_cons_self ..), LawfulMonad.pure_bind,
      ih fun z hz => hl z (List.mem_cons_of_mem _ hz)]

/-! ### What every run keeps -/

/-- However `p` ends, it keeps `P`, and a value that it returns is as `Q` says. -/
def Keeps (P : σ → Prop) (p : Proc σ α) (Q : α → Prop) : Prop :=
  ∀ s, P s → P (p.run s).2 ∧ ∀ a, (p.run s).1 = .ret a → Q a

namespace Keeps
variable {P : σ → Prop} {Q : α → Prop} {R : β → Prop} {p : Proc σ α}

theorem mono {Q' : α → Prop} (h : ∀ a, Q a → Q' a) (hp : Keeps P p Q) : Keeps P p Q' :=
  fun s hs => ⟨(hp s hs).1, fun a ha => h a ((hp s hs).2 a ha)⟩

theorem any (p : Proc σ α) : Keeps (fun _ => True) p fun _ => True :=
  fun _ _ => ⟨trivial, fun _ _ => trivial⟩

theorem pure {a : α} (h : Q a) : Keeps P (Pure.pure a) Q := by
  intro s hs
  refine ⟨hs, fun b hb => ?_⟩
  cases hb
  exact h

theorem fail : Keeps P (fail : Proc σ α) Q := fun _ hs => ⟨hs, fun _ ha => nomatch ha⟩

theorem abort (message : String) : Keeps P (abort message : Proc σ α) Q :=
  fun _ hs => ⟨hs, fun _ ha => nomatch ha⟩

theorem outOfFuel : Keeps P (outOfFuel : Proc σ α) Q := fun _ hs => ⟨hs, fun _ ha => nomatch ha⟩

theorem require (c : Prop) [Decidable c] : Keeps P (require c) fun _ => c := by
  unfold Proc.require
  split
  · next h => exact pure h
  · exact fail

theorem read : Keeps P read P := by
  intro s hs
  refine ⟨hs, fun a ha => ?_⟩
  cases ha
  exact hs

theorem modify {f : σ → σ} (h : ∀ s, P s → P (f s)) : Keeps P (modify f) fun _ => True :=
  fun s hs => ⟨h s hs, fun _ _ => trivial⟩

theorem bind {f : α → Proc σ β} (hp : Keeps P p Q) (hf : ∀ a, Q a → Keeps P (f a) R) : Keeps P (p >>= f) R := by
  intro s hs
  obtain ⟨hs', hQ⟩ := hp s hs
  rcases h : p.run s with ⟨a | _ | m | _, s'⟩
  all_goals rw [h] at hs' hQ
  · rw [run_bind_of_ret h]
    exact hf a (hQ a rfl) s' hs'
  · rw [run_bind_of_fail h]
    exact ⟨hs', fun _ hb => nomatch hb⟩
  · rw [run_bind_of_abort h]
    exact ⟨hs', fun _ hb => nomatch hb⟩
  · rw [run_bind_of_outOfFuel h]
    exact ⟨hs', fun _ hb => nomatch hb⟩

theorem attempt (hp : Keeps P p Q) : Keeps P p.attempt fun o => ∀ a, o = some a → Q a := by
  intro s hs
  obtain ⟨hs', hQ⟩ := hp s hs
  rcases h : p.run s with ⟨a | _ | m | _, s'⟩
  all_goals rw [h] at hs' hQ
  · rw [run_attempt_of_ret h]
    refine ⟨hs', fun o ho b hb => ?_⟩
    cases ho
    cases hb
    exact hQ a rfl
  · rw [run_attempt_of_fail h]
    refine ⟨hs', fun o ho b hb => ?_⟩
    cases ho
    cases hb
  · rw [run_attempt_of_abort h]
    exact ⟨hs', fun _ ho => nomatch ho⟩
  · rw [run_attempt_of_outOfFuel h]
    exact ⟨hs', fun _ ho => nomatch ho⟩

theorem zoom {get : σ → τ} {put : τ → σ → σ} {P' : τ → Prop} {p : Proc τ α} (hget : ∀ s, P s → P' (get s))
    (hput : ∀ s t, P s → P' t → P (put t s)) (hp : Keeps P' p Q) : Keeps P (zoom get put p) Q := by
  intro s hs
  obtain ⟨ht, hQ⟩ := hp (get s) (hget s hs)
  exact ⟨hput s _ hs ht, hQ⟩

theorem times (hp : Keeps P p Q) (n : ℕ) : Keeps P (p.times n) fun as => as.length = n ∧ ∀ a ∈ as, Q a := by
  induction n with
  | zero => exact pure ⟨rfl, fun _ ha => absurd ha List.not_mem_nil⟩
  | succ n ih =>
    refine hp.bind fun a ha => ih.bind fun as has => pure ⟨congrArg Nat.succ has.1, fun b hb => ?_⟩
    rcases List.mem_cons.1 hb with rfl | hb
    · exact ha
    · exact has.2 b hb

theorem forM {ι : Type} {k : ι → Proc σ Unit} {l : List ι} (h : ∀ x ∈ l, Keeps P (k x) fun _ => True) :
    Keeps P (l.forM k) fun _ => True := by
  induction l with
  | nil => exact pure trivial
  | cons x l ih =>
    exact (h x (List.mem_cons_self ..)).bind fun _ _ => ih fun y hy => h y (List.mem_cons_of_mem _ hy)

theorem foldlM {ι : Type} {k : β → ι → Proc σ β} {l : List ι} (h : ∀ x ∈ l, ∀ b, Keeps P (k b x) fun _ => True)
    (b : β) : Keeps P (l.foldlM k b) fun _ => True := by
  induction l generalizing b with
  | nil => exact pure trivial
  | cons x l ih =>
    rw [List.foldlM_cons]
    exact (h x (List.mem_cons_self ..) b).bind fun _ _ => ih (fun y hy => h y (List.mem_cons_of_mem _ hy)) _

end Keeps

/-! ### How a run can end -/

/-- `p` never runs out of fuel, and ends the process only if `mayAbort`. -/
def Ends (mayAbort : Prop) (p : Proc σ α) : Prop := ∀ s, (p.run s).1.Proper mayAbort

namespace Ends
variable {mayAbort : Prop} {p : Proc σ α}

theorem pure (a : α) : Ends mayAbort (Pure.pure a : Proc σ α) := fun _ => trivial

theorem fail : Ends mayAbort (fail : Proc σ α) := fun _ => trivial

theorem abort (h : mayAbort) (message : String) : Ends mayAbort (abort message : Proc σ α) := fun _ => h

theorem require (c : Prop) [Decidable c] : Ends mayAbort (require c : Proc σ Unit) := by
  unfold Proc.require
  split
  · exact pure ()
  · exact fail

theorem read : Ends mayAbort (read : Proc σ σ) := fun _ => trivial

theorem modify (f : σ → σ) : Ends mayAbort (modify f) := fun _ => trivial

theorem ofCall (c : Call σ α) : Ends mayAbort (ofCall c) := by
  intro s
  rcases h : c s with ⟨_ | a, s'⟩
  · rw [run_ofCall_none h]
    trivial
  · rw [run_ofCall_some h]
    trivial

theorem bind {f : α → Proc σ β} (hp : Ends mayAbort p) (hf : ∀ a, Ends mayAbort (f a)) : Ends mayAbort (p >>= f) := by
  intro s
  have hs := hp s
  rcases h : p.run s with ⟨a | _ | m | _, s'⟩
  all_goals rw [h] at hs
  · rw [run_bind_of_ret h]
    exact hf a s'
  · rw [run_bind_of_fail h]
    trivial
  · rw [run_bind_of_abort h]
    exact hs
  · exact hs.elim

theorem attempt (hp : Ends mayAbort p) : Ends mayAbort p.attempt := by
  intro s
  have hs := hp s
  rcases h : p.run s with ⟨a | _ | m | _, s'⟩
  all_goals rw [h] at hs
  · rw [run_attempt_of_ret h]
    trivial
  · rw [run_attempt_of_fail h]
    trivial
  · rw [run_attempt_of_abort h]
    exact hs
  · exact hs.elim

theorem zoom {get : σ → τ} {put : τ → σ → σ} {p : Proc τ α} (hp : Ends mayAbort p) :
    Ends mayAbort (zoom get put p) := fun s => hp (get s)

theorem times (hp : Ends mayAbort p) (n : ℕ) : Ends mayAbort (p.times n) := by
  induction n with
  | zero => exact pure []
  | succ n ih => exact hp.bind fun a => ih.bind fun as => pure (a :: as)

theorem forM {ι : Type} {k : ι → Proc σ Unit} {l : List ι} (h : ∀ x ∈ l, Ends mayAbort (k x)) :
    Ends mayAbort (l.forM k) := by
  induction l with
  | nil => exact pure ()
  | cons x l ih =>
    exact (h x (List.mem_cons_self ..)).bind fun _ => ih fun y hy => h y (List.mem_cons_of_mem _ hy)

theorem foldlM {ι : Type} {k : β → ι → Proc σ β} {l : List ι} (h : ∀ x ∈ l, ∀ b, Ends mayAbort (k b x)) (b : β) :
    Ends mayAbort (l.foldlM k b) := by
  induction l generalizing b with
  | nil => exact pure b
  | cons x l ih =>
    rw [List.foldlM_cons]
    exact (h x (List.mem_cons_self ..) b).bind fun _ => ih (fun y hy => h y (List.mem_cons_of_mem _ hy)) _

/-- What can happen when the process is not ended. -/
theorem run_cases (hp : Ends False p) (s : σ) : (∃ a s', p.run s = (.ret a, s')) ∨ ∃ s', p.run s = (.fail, s') := by
  have hs := hp s
  rcases h : p.run s with ⟨a | _ | m | _, s'⟩
  all_goals rw [h] at hs
  · exact Or.inl ⟨a, s', rfl⟩
  · exact Or.inr ⟨s', rfl⟩
  · exact hs.elim
  · exact hs.elim

end Ends

end Proc

end Embed
