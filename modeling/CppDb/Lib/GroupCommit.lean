import CppDb.Lib.Forever
import Mathlib.Data.List.Basic
import Mathlib.Logic.Function.Basic
import Mathlib.Logic.Relation
import Mathlib.Order.Lattice

/-!
# Group commit

Callers draw tickets in increasing order, add them to the open batch and wait until a commit has passed
them. A caller that finds the batch empty is its leader: the one that commits the batch if nobody else
does. `Batch.Led` is the invariant, and `Batch.Led.existsUnique_leader` what it is good for: a batch with
tickets in it has one leader, whose ticket is the least. So it is enough that every leader sees its own
ticket committed, and everybody does (`Batch.committed_of_leader`).
-/

namespace Embed

/-- A caller that waits. -/
structure Waiter (α : Type*) where
  ticket : α
  leader : Bool

/-- The last ticket committed, the tickets since then, and who waits. -/
structure Batch (α T : Type*) where
  committed : α
  tickets : List α
  waiting : T → Option (Waiter α)

namespace Batch
variable {α T : Type*} [DecidableEq T]

def place (t : T) (n : α) (b : Batch α T) : Batch α T :=
  { b with
    tickets := b.tickets ++ [n]
    waiting := Function.update b.waiting t (some ⟨n, b.tickets.isEmpty⟩) }

def commit (n : α) (b : Batch α T) : Batch α T := { b with committed := n, tickets := [] }

def leave (t : T) (b : Batch α T) : Batch α T := { b with waiting := Function.update b.waiting t none }

section
variable {b : Batch α T} {t t' : T} {n : α}

@[simp] theorem place_self : (b.place t n).waiting t = some ⟨n, b.tickets.isEmpty⟩ := Function.update_self ..

theorem place_of_ne (h : t' ≠ t) : (b.place t n).waiting t' = b.waiting t' := Function.update_of_ne h ..

theorem waiting_place {w : Waiter α} (h : (b.place t n).waiting t' = some w) :
    t' = t ∧ w = ⟨n, b.tickets.isEmpty⟩ ∨ b.waiting t' = some w := by
  by_cases ht : t' = t
  · subst ht
    rw [place_self] at h
    cases h
    exact .inl ⟨rfl, rfl⟩
  · rw [place_of_ne ht] at h
    exact .inr h

@[simp] theorem leave_self : (b.leave t).waiting t = none := Function.update_self ..

theorem leave_of_ne (h : t' ≠ t) : (b.leave t).waiting t' = b.waiting t' := Function.update_of_ne h ..

theorem waiting_leave {w : Waiter α} (h : (b.leave t).waiting t' = some w) : b.waiting t' = some w := by
  by_cases ht : t' = t
  · subst ht
    rw [leave_self] at h
    cases h
  · rwa [leave_of_ne ht] at h

end

variable [LinearOrder α] {b b' : Batch α T}

/-- What can happen to a batch. -/
inductive Step : Batch α T → Batch α T → Prop
  | place {b : Batch α T} {t : T} {n : α} (hidle : b.waiting t = none) (hcommitted : b.committed < n)
      (hfresh : ∀ m ∈ b.tickets, m < n) : Step b (b.place t n)
  | commit {b : Batch α T} {n : α} (hcommitted : b.committed ≤ n) (htickets : ∀ m ∈ b.tickets, m ≤ n) :
      Step b (b.commit n)
  | leave {b : Batch α T} {t : T} {w : Waiter α} (hw : b.waiting t = some w)
      (hcommitted : w.ticket ≤ b.committed) : Step b (b.leave t)

/-- Every ticket of the batch has its own caller waiting, and every caller that waits for a commit has its
ticket in the batch; the leader has the first. -/
structure Led (b : Batch α T) : Prop where
  sorted : b.tickets.Pairwise (· < ·)
  open_ : ∀ m ∈ b.tickets, b.committed < m
  waits : ∀ m ∈ b.tickets, ∃ t w, b.waiting t = some w ∧ w.ticket = m
  mem : ∀ t w, b.waiting t = some w → b.committed < w.ticket → w.ticket ∈ b.tickets
  leads : ∀ t w, b.waiting t = some w → b.committed < w.ticket →
    (w.leader = true ↔ b.tickets.head? = some w.ticket)
  unique : ∀ t t' w w', b.waiting t = some w → b.waiting t' = some w' → b.committed < w.ticket →
    w.ticket = w'.ticket → t = t'

namespace Led

theorem place (h : b.Led) {t : T} {n : α} (hidle : b.waiting t = none) (hcommitted : b.committed < n)
    (hfresh : ∀ m ∈ b.tickets, m < n) : (b.place t n).Led := by
  -- whoever waited before has an older ticket
  have hold : ∀ {t' w}, b.waiting t' = some w → b.committed < w.ticket → w.ticket < n :=
    fun hw hlt => hfresh _ (h.mem _ _ hw hlt)
  constructor
  case sorted =>
    refine List.pairwise_append.2 ⟨h.sorted, List.pairwise_singleton _ _, fun m hm k hk => ?_⟩
    rw [List.mem_singleton.1 hk]
    exact hfresh m hm
  case open_ =>
    intro m hm
    rcases List.mem_append.1 hm with hm | hm
    · exact h.open_ m hm
    · rw [List.mem_singleton.1 hm]
      exact hcommitted
  case waits =>
    intro m hm
    rcases List.mem_append.1 hm with hm | hm
    · obtain ⟨t', w, hw, hticket⟩ := h.waits m hm
      have hne : t' ≠ t := by
        rintro rfl
        rw [hidle] at hw
        cases hw
      exact ⟨t', w, (place_of_ne hne).trans hw, hticket⟩
    · exact ⟨t, _, place_self, (List.mem_singleton.1 hm).symm⟩
  case mem =>
    intro t' w hw hlt
    rcases waiting_place hw with ⟨rfl, rfl⟩ | hw
    · exact List.mem_append_right _ (List.mem_singleton_self n)
    · exact List.mem_append_left _ (h.mem t' w hw hlt)
  case leads =>
    intro t' w hw hlt
    rcases waiting_place hw with ⟨rfl, rfl⟩ | hw
    · change b.tickets.isEmpty = true ↔ (b.tickets ++ [n]).head? = some n
      rcases hb : b.tickets with _ | ⟨m, ms⟩
      · simp
      · have hm : m < n := hfresh m (by rw [hb]; exact List.mem_cons_self ..)
        simp [ne_of_lt hm]
    · rw [h.leads t' w hw hlt]
      change b.tickets.head? = some w.ticket ↔ (b.tickets ++ [n]).head? = some w.ticket
      rcases hb : b.tickets with _ | ⟨m, ms⟩
      · have hmem := h.mem t' w hw hlt
        rw [hb] at hmem
        exact absurd hmem List.not_mem_nil
      · simp
  case unique =>
    intro t₁ t₂ w₁ w₂ h₁ h₂ hlt heq
    rcases waiting_place h₁ with ⟨rfl, rfl⟩ | h₁ <;> rcases waiting_place h₂ with ⟨ht₂, rfl⟩ | h₂
    · exact ht₂.symm
    · have hn : n = w₂.ticket := heq
      have hlt' := hold h₂ (by rw [← hn]; exact hcommitted)
      exact absurd hn (ne_of_gt hlt')
    · have hn : w₁.ticket = n := heq
      exact absurd hn (ne_of_lt (hold h₁ hlt))
    · exact h.unique t₁ t₂ w₁ w₂ h₁ h₂ hlt heq

omit [DecidableEq T] in
theorem commit (h : b.Led) {n : α} (hcommitted : b.committed ≤ n) (htickets : ∀ m ∈ b.tickets, m ≤ n) :
    (b.commit n).Led := by
  have hnone : ∀ t w, b.waiting t = some w → ¬ n < w.ticket := fun t w hw hlt =>
    not_lt.2 (htickets _ (h.mem t w hw (lt_of_le_of_lt hcommitted hlt))) hlt
  constructor
  case sorted => exact List.Pairwise.nil
  case open_ => exact fun m hm => absurd hm List.not_mem_nil
  case waits => exact fun m hm => absurd hm List.not_mem_nil
  case mem => exact fun t w hw hlt => absurd hlt (hnone t w hw)
  case leads => exact fun t w hw hlt => absurd hlt (hnone t w hw)
  case unique => exact fun t t' w w' hw hw' hlt => absurd hlt (hnone t w hw)

theorem leave (h : b.Led) {t : T} {w : Waiter α} (hw : b.waiting t = some w)
    (hcommitted : w.ticket ≤ b.committed) : (b.leave t).Led := by
  constructor
  case sorted => exact h.sorted
  case open_ => exact h.open_
  case waits =>
    intro m hm
    obtain ⟨t', w', hw', rfl⟩ := h.waits m hm
    have hne : t' ≠ t := by
      rintro rfl
      rw [hw] at hw'
      cases hw'
      exact not_lt.2 hcommitted (h.open_ _ hm)
    exact ⟨t', w', (leave_of_ne hne).trans hw', rfl⟩
  case mem => exact fun t' w' hw' hlt => h.mem t' w' (waiting_leave hw') hlt
  case leads => exact fun t' w' hw' hlt => h.leads t' w' (waiting_leave hw') hlt
  case unique =>
    exact fun t₁ t₂ w₁ w₂ h₁ h₂ hlt heq => h.unique t₁ t₂ w₁ w₂ (waiting_leave h₁) (waiting_leave h₂) hlt heq

end Led

/-- A step keeps the batch led. -/
theorem Step.led (hstep : Step b b') (h : b.Led) : b'.Led := by
  cases hstep with
  | place hidle hcommitted hfresh => exact h.place hidle hcommitted hfresh
  | commit hcommitted htickets => exact h.commit hcommitted htickets
  | leave hw hcommitted => exact h.leave hw hcommitted

theorem led_of_steps (hsteps : Relation.ReflTransGen Step b b') (h : b.Led) : b'.Led := by
  induction hsteps with
  | refl => exact h
  | tail _ hstep ih => exact hstep.led ih

namespace Led
omit [DecidableEq T]

/-- **A batch that is not empty has exactly one leader.** -/
theorem existsUnique_leader (h : b.Led) (hne : b.tickets ≠ []) :
    ∃! t, ∃ w, b.waiting t = some w ∧ w.leader = true ∧ b.committed < w.ticket := by
  obtain ⟨n, ns, hb⟩ := List.exists_cons_of_ne_nil hne
  have hn : n ∈ b.tickets := by rw [hb]; exact List.mem_cons_self ..
  obtain ⟨t, w, hw, rfl⟩ := h.waits n hn
  have hlt := h.open_ _ hn
  refine ⟨t, ⟨w, hw, (h.leads t w hw hlt).2 (by rw [hb]; rfl), hlt⟩, ?_⟩
  rintro t' ⟨w', hw', hleader, hlt'⟩
  have hfirst := (h.leads t' w' hw' hlt').1 hleader
  rw [hb, List.head?_cons, Option.some.injEq] at hfirst
  exact h.unique t' t w' w hw' hw hlt' hfirst.symm

theorem leader_least (h : b.Led) {t : T} {w : Waiter α} (hw : b.waiting t = some w)
    (hleader : w.leader = true) (hlt : b.committed < w.ticket) :
    w.ticket ∈ b.tickets ∧ ∀ m ∈ b.tickets, w.ticket ≤ m := by
  refine ⟨h.mem t w hw hlt, ?_⟩
  have hfirst := (h.leads t w hw hlt).1 hleader
  have hsorted := h.sorted
  rcases hb : b.tickets with _ | ⟨n, ns⟩
  · exact fun m hm => absurd hm List.not_mem_nil
  · rw [hb] at hfirst hsorted
    rw [List.head?_cons, Option.some.injEq] at hfirst
    intro m hm
    rw [← hfirst]
    rcases List.mem_cons.1 hm with rfl | hm
    · exact le_refl _
    · exact le_of_lt ((List.pairwise_cons.1 hsorted).1 m hm)

theorem committed_of_empty (h : b.Led) (hempty : b.tickets = []) {t : T} {w : Waiter α}
    (hw : b.waiting t = some w) : w.ticket ≤ b.committed := by
  by_contra hlt
  have hmem := h.mem t w hw (not_le.1 hlt)
  rw [hempty] at hmem
  exact absurd hmem List.not_mem_nil

end Led

omit [DecidableEq T] in
theorem led_idle (n : α) : (⟨n, [], fun _ => none⟩ : Batch α T).Led := by
  constructor
  case sorted => exact List.Pairwise.nil
  all_goals simp

omit [DecidableEq T]

/-- The tickets stay, or a commit has passed them all. -/
structure Passes (b b' : Batch α T) : Prop where
  le : b.committed ≤ b'.committed
  tickets : b.tickets ⊆ b'.tickets ∨ ∀ m ∈ b.tickets, m ≤ b'.committed

theorem Passes.refl (b : Batch α T) : b.Passes b := ⟨le_rfl, .inl (List.Subset.refl _)⟩

theorem Passes.trans {b'' : Batch α T} (h : b.Passes b') (h' : b'.Passes b'') : b.Passes b'' := by
  refine ⟨h.le.trans h'.le, ?_⟩
  rcases h.tickets with hsub | hall
  · rcases h'.tickets with hsub' | hall'
    · exact .inl (List.Subset.trans hsub hsub')
    · exact .inr fun m hm => hall' m (hsub hm)
  · exact .inr fun m hm => (hall m hm).trans h'.le

theorem Step.passes [DecidableEq T] (hstep : Step b b') : b.Passes b' := by
  cases hstep with
  | place hidle hcommitted hfresh => exact ⟨le_rfl, .inl (List.subset_append_left ..)⟩
  | commit hcommitted htickets => exact ⟨hcommitted, .inr htickets⟩
  | leave hw hcommitted => exact ⟨le_rfl, .inl (List.Subset.refl _)⟩

theorem passes_of_steps [DecidableEq T] (hsteps : Relation.ReflTransGen Step b b') : b.Passes b' := by
  induction hsteps with
  | refl => exact .refl b
  | tail _ hstep ih => exact ih.trans hstep.passes

/-- Where every leader that waits sees its ticket committed, unless everything stops, every caller does. -/
theorem committed_of_leader {b : ℕ → Batch α T} (hled : ∀ n, (b n).Led) (hpasses : ∀ n m, n ≤ m → (b n).Passes (b m))
    {stop : ℕ → Prop} (hleader : ∀ t w, w.leader = true →
      LeadsTo (fun n => (b n).waiting t = some w) fun n => w.ticket ≤ (b n).committed ∨ stop n) (t : T) (w : Waiter α) :
    LeadsTo (fun n => (b n).waiting t = some w) fun n => w.ticket ≤ (b n).committed ∨ stop n := by
  intro n hw
  rcases le_or_gt w.ticket (b n).committed with hle | hlt
  · exact ⟨n, le_rfl, .inl hle⟩
  have hmem := (hled n).mem t w hw hlt
  obtain ⟨t', ⟨w', hw', hlead, hlt'⟩, -⟩ := (hled n).existsUnique_leader (List.ne_nil_of_mem hmem)
  have hmem' := ((hled n).leader_least hw' hlead hlt').1
  obtain ⟨m, hm, hcommitted | hstop⟩ := hleader t' w' hlead n hw'
  · refine ⟨m, hm, .inl ?_⟩
    rcases (hpasses n m hm).tickets with hsub | hall
    -- the leader's ticket is not in the batch any more
    · exact absurd ((hled m).open_ _ (hsub hmem')) (not_lt.2 hcommitted)
    · exact hall _ hmem
  · exact ⟨m, hm, .inr hstop⟩

end Batch

end Embed
