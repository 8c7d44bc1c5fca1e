import CppDb.Lib.Run
import Mathlib.Logic.Function.Basic

/-!
# `checked_mutex` (`utils/mutex_checked.hpp`)

A `std::mutex` that remembers its holder, one atomic step at a time: `lock()` stores the holder when it has the
mutex, `unlock()` clears it while it still has it. Between these steps any other thread can take its own, so
that `locked_by_caller()` can be asked at any moment (`lockedByCaller_iff`).
-/

namespace CppDb
open Embed

/-- Who has the `std::mutex`, and `m_holder`, which is `none` for `std::thread::id()`. -/
structure CheckedMutex (T : Type) where
  owner : Option T := none
  holder : Option T := none

/-- Where a thread is: in `lock()` behind `std::mutex::lock()`, between the calls, or in `unlock()` before
`std::mutex::unlock()`. -/
inductive Place where
  | outside
  | locking
  | holding
  | unlocking
deriving DecidableEq

structure Locking (T : Type) extends CheckedMutex T where
  place : T → Place := fun _ => .outside

/-- The steps of `lock()`, then those of `unlock()`. -/
inductive LockStep (T : Type) where
  | lock (t : T)
  | storeHolder (t : T)
  | clearHolder (t : T)
  | unlock (t : T)

namespace Locking
variable {T : Type} [DecidableEq T]

def moveTo (t : T) (p : Place) (m : Locking T) : Locking T := { m with place := Function.update m.place t p }

/-- A step that the thread is not at is not made; `std::mutex::lock()` waits until nobody has the mutex. -/
def step (m : Locking T) : LockStep T → Locking T
  | .lock t => if m.place t = .outside ∧ m.owner = none then { m.moveTo t .locking with owner := some t } else m
  | .storeHolder t => if m.place t = .locking then { m.moveTo t .holding with holder := some t } else m
  | .clearHolder t => if m.place t = .holding then { m.moveTo t .unlocking with holder := none } else m
  | .unlock t => if m.place t = .unlocking then { m.moveTo t .outside with owner := none } else m

/-- `locked_by_caller()`, called by `t`. -/
def lockedByCaller (m : Locking T) (t : T) : Bool := m.holder == some t

/-- The mutex is had by the thread that is not outside, and the stored holder is the one that holds it. -/
structure Guarded (m : Locking T) : Prop where
  owner : ∀ t, m.owner = some t ↔ m.place t ≠ .outside
  holder : ∀ t, m.holder = some t ↔ m.place t = .holding

omit [DecidableEq T] in
theorem guarded_new : Guarded (T := T) {} where
  owner t := by simp
  holder t := by simp

section
variable {m : Locking T} {t u : T}

omit [DecidableEq T] in
theorem Guarded.unique (h : m.Guarded) (ht : m.place t ≠ .outside) (hu : m.place u ≠ .outside) : t = u := by
  have ht := (h.owner t).2 ht
  have hu := (h.owner u).2 hu
  exact Option.some.inj (ht.symm.trans hu)

omit [DecidableEq T] in
theorem Guarded.outside (h : m.Guarded) (ht : m.place t ≠ .outside) (u : T) (hu : u ≠ t) : m.place u = .outside := by
  by_contra hne
  exact hu (h.unique hne ht)

theorem guarded_moveTo (ht : ∀ u ≠ t, m.place u = .outside) {p : Place} {owner holder : Option T}
    (howner : owner = if p = .outside then none else some t)
    (hholder : holder = if p = .holding then some t else none) :
    Guarded { m.moveTo t p with owner := owner, holder := holder } := by
  subst howner hholder
  constructor
  all_goals
    intro u
    by_cases hu : u = t
    · subst hu
      cases p <;> simp [moveTo]
    · cases p <;> simp [moveTo, hu, ht u hu, Ne.symm hu]

omit [DecidableEq T] in
theorem Guarded.holder_eq_none (h : m.Guarded) (hnone : ∀ t, m.place t ≠ .holding) : m.holder = none := by
  rcases hm : m.holder with _ | u
  · rfl
  · exact absurd ((h.holder u).1 hm) (hnone u)

theorem Guarded.step (h : m.Guarded) (l : LockStep T) : (m.step l).Guarded := by
  cases l with
  | lock t =>
    rw [Locking.step]
    split
    · next hfree =>
      have hplace : ∀ u, m.place u = .outside := fun u => by
        by_contra hne
        have hu := (h.owner u).2 hne
        rw [hfree.2] at hu
        cases hu
      exact guarded_moveTo (fun u _ => hplace u) rfl
        (h.holder_eq_none fun u hu => nomatch (hplace u).symm.trans hu)
    · exact h
  | storeHolder t =>
    rw [Locking.step]
    split
    · next hplace =>
      have hin : m.place t ≠ .outside := by simp [hplace]
      exact guarded_moveTo (h.outside hin) ((h.owner t).2 hin) rfl
    · exact h
  | clearHolder t =>
    rw [Locking.step]
    split
    · next hplace =>
      have hin : m.place t ≠ .outside := by simp [hplace]
      exact guarded_moveTo (h.outside hin) ((h.owner t).2 hin) rfl
    · exact h
  | unlock t =>
    rw [Locking.step]
    split
    · next hplace =>
      have hin : m.place t ≠ .outside := by simp [hplace]
      refine guarded_moveTo (h.outside hin) rfl (h.holder_eq_none fun u hu => ?_)
      have hut : u = t := h.unique (by simp [hu]) hin
      rw [hut, hplace] at hu
      cases hu
    · exact h

theorem guarded_run (h : m.Guarded) (ls : List (LockStep T)) : (run step m ls).Guarded :=
  Along.invariant (fun _ l hm _ => hm.step l) h (Along.of_forall (Q := fun _ => True) fun _ _ => trivial)

theorem Guarded.lockedByCaller (h : m.Guarded) (t : T) : m.lockedByCaller t = true ↔ m.place t = .holding := by
  rw [Locking.lockedByCaller, beq_iff_eq]
  exact h.holder t

/-- **`locked_by_caller()` is true iff the mutex is locked by its caller**, whatever the threads do at the same time:
a caller is in neither `lock()` nor `unlock()`. And no two threads have the mutex. -/
theorem lockedByCaller_iff {ls : List (LockStep T)} (hm : m = run step {} ls) (t : T) :
    (m.place t ≠ .locking → m.place t ≠ .unlocking → (m.lockedByCaller t = true ↔ m.owner = some t)) ∧
      ∀ u, m.place t ≠ .outside → m.place u ≠ .outside → t = u := by
  have h : m.Guarded := hm ▸ guarded_run guarded_new ls
  refine ⟨fun hlock hunlock => ?_, fun u => h.unique⟩
  rw [h.lockedByCaller, h.owner]
  rcases hp : m.place t with _ | _ | _ | _ <;> simp_all

/-- Thread 1 waits for the mutex while thread 0 has it. -/
theorem lockedByCaller_iff_twoThreads :
    ∃ m : Locking (Fin 2), m = run step {} [.lock 0, .storeHolder 0, .lock 1, .clearHolder 0, .unlock 0, .lock 1,
      .storeHolder 1] ∧ (m.lockedByCaller 1 = true ↔ m.owner = some 1) ∧ (m.lockedByCaller 0 = true ↔ m.owner = some 0) :=
  ⟨_, rfl, (lockedByCaller_iff rfl 1).1 (by decide) (by decide), (lockedByCaller_iff rfl 0).1 (by decide) (by decide)⟩

end

end Locking

end CppDb
