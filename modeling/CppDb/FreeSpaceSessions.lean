import CppDb.FileReaders
import CppDb.MapLoading
import CppDb.Lib.Checkpoint

/-!
# Free space over sessions

The free-space map is saved from time to time, and the next program loads it. The `ledger` of the transfers that are
not lost says what is free (`freeSpace_sessions`): a byte that was handed out and saved is not handed out by a later
program before it is registered again.
-/

namespace CppDb
open Embed Range

/-- The manager of the program that runs, the storage, and the transfers that are not lost. -/
structure FreeSpaceProgram (M A : Type) where
  manager : FileAllocationManager M
  storage : A
  ledger : Checkpointed (List (Transfer ℕ)) := ⟨[], []⟩

namespace FreeSpaceProgram
variable {M : Type} [GapSet M] {A : Type} [StorageAdapter A] [Sha3Hasher]

def step (filePath : String) (p : FreeSpaceProgram M A) : SessionEvent FreeSpaceCall → FreeSpaceProgram M A
  | .act c =>
    { p with
      manager := p.manager.call c
      ledger := p.ledger.step (· ++ ·) (.act (p.manager.transfer c)) }
  | .save =>
    { p with
      storage := ((p.manager.saveToFile filePath).run p.storage).2
      ledger := p.ledger.step (· ++ ·) .save }
  | .restart =>
    let l := ((FileAllocationManager.loadFromFile filePath).run ⟨.new, p.storage⟩).2
    { manager := l.target, storage := l.storage, ledger := p.ledger.step (· ++ ·) .restart }

/-- The calls are allowed, and `saveToFile` returns `true`. -/
def Works (filePath : String) (p : FreeSpaceProgram M A) : SessionEvent FreeSpaceCall → Prop
  | .act c => p.manager.Allowed c
  | .save => ((p.manager.saveToFile filePath).run p.storage).1 = .ret ()
  | .restart => True

end FreeSpaceProgram

namespace FileAllocationManager
variable {M : Type} [GapSet M] {s s' : FileAllocationManager M} {ts : List (Transfer ℕ)}

/-- What is free was given and not taken. -/
structure Accounts (s : FileAllocationManager M) (ts : List (Transfer ℕ)) : Prop where
  valid : s.Valid
  free : s.free = run Transfer.apply ∅ ts
  proper : Along Transfer.apply Transfer.Proper ∅ ts

theorem accounts_new : (new : FileAllocationManager M).Accounts [] := ⟨valid_new, free_new, trivial⟩

theorem Accounts.call (h : s.Accounts ts) {c : FreeSpaceCall} (hc : s.Allowed c) :
    (s.call c).Accounts (ts ++ s.transfer c) := by
  obtain ⟨hvalid, hfree, hproper⟩ := valid_call h.valid hc
  rw [h.free] at hfree hproper
  refine ⟨hvalid, ?_, Along.append_iff.2 ⟨h.proper, hproper⟩⟩
  rw [run_append, hfree]

theorem Accounts.congr (h : s.Accounts ts) (hgaps : s'.gaps = s.gaps) : s'.Accounts ts := by
  have hlist : GapSet.toList s'.gapLocations = GapSet.toList s.gapLocations := hgaps
  obtain ⟨⟨hok, hdisjoint⟩, hfree, hproper⟩ := h
  rw [← hlist] at hok hdisjoint
  refine ⟨⟨hok, hdisjoint⟩, ?_, hproper⟩
  rw [← hfree]
  exact congrArg (fun gs => covered (gs.map Gap.range)) hlist

section
variable {A : Type} [StorageAdapter A] [FileReader A] [Sha3Hasher] {filePath : String} {d : A}
open FileAdapter (Closed file)

/-- The file has the gaps, or there are none and no file. -/
def Kept (s : FileAllocationManager M) (content : Option Bytes) : Prop :=
  content = some (encodeGaps s.gaps) ∨ content = none ∧ s.gaps = []

theorem loadFromFile_kept (hvalid : s.Valid) (hd : Closed d) (h : s.Kept (file d filePath)) :
    ∃ x target d', (loadFromFile filePath).run ⟨(new : FileAllocationManager M), d⟩ = (x, ⟨target, d'⟩) ∧
      target.gaps = s.gaps ∧ Closed d' ∧ file d' = file d := by
  rcases h with hfile | ⟨hfile, hnone⟩
  · rw [← List.append_nil (encodeGaps _)] at hfile
    obtain ⟨d', hload, h'⟩ := closing_load_append
      (loads_loadGaps hvalid.length_lt (clear (new : FileAllocationManager M))) hd hfile
    exact ⟨_, _, d', hload, gaps_emplaceAll_clear (GapSet.sorted _) new, h'⟩
  · obtain ⟨d', hload, h'⟩ := closing_missing (t := clear (new : FileAllocationManager M)) (p := loadGaps) hd hfile
    exact ⟨_, _, d', hload, gaps_clear.trans hnone.symm, h'⟩

/-- The manager accounts for the transfers that are not lost, and the file for those that are saved. -/
structure Represents (filePath : String) (p : FreeSpaceProgram M A) : Prop where
  closed : Closed p.storage
  current : p.manager.Accounts p.ledger.current
  saved : ∃ kept : FileAllocationManager M, kept.Accounts p.ledger.saved ∧ kept.Kept (file p.storage filePath)

theorem Represents.step {p : FreeSpaceProgram M A} {e : SessionEvent FreeSpaceCall} (h : Represents filePath p)
    (he : p.Works filePath e) : Represents filePath (p.step filePath e) := by
  obtain ⟨hclosed, hcurrent, kept, haccounts, hkept⟩ := h
  cases e with
  | act c => exact ⟨hclosed, hcurrent.call he, kept, haccounts, hkept⟩
  | save =>
    obtain ⟨hclosed', hsaved⟩ := saveToFile_file hclosed (Prod.ext he rfl)
    exact ⟨hclosed', hcurrent, p.manager, hcurrent, .inl hsaved⟩
  | restart =>
    obtain ⟨x, target, d', hload, hgaps, hclosed', hsame⟩ := loadFromFile_kept haccounts.valid hclosed hkept
    refine ⟨?_, ?_, kept, haccounts, ?_⟩
    · rw [FreeSpaceProgram.step, hload]
      exact hclosed'
    · rw [FreeSpaceProgram.step, hload]
      exact haccounts.congr hgaps
    · rw [FreeSpaceProgram.step, hload]
      change kept.Kept (file d' filePath)
      rw [hsame]
      exact hkept

/-- **Free-space safety over sessions.** However often the map is saved and loaded by the next program, the manager is
`Sound` and the free bytes are what was registered and not handed out, as far as it is not lost; of the transfers that
are not lost, two that hand out the same byte have one between them that registers it. -/
theorem freeSpace_sessions (hd : Closed d) (hnone : file d filePath = none) {es : List (SessionEvent FreeSpaceCall)}
    (hes : Along (FreeSpaceProgram.step filePath) (FreeSpaceProgram.Works filePath)
      (⟨new, d, ⟨[], []⟩⟩ : FreeSpaceProgram M A) es) {p : FreeSpaceProgram M A}
    (hp : p = run (FreeSpaceProgram.step filePath) ⟨new, d, ⟨[], []⟩⟩ es) :
    p.manager.Sound ∧ p.manager.free = run Transfer.apply ∅ p.ledger.current ∧
      (∀ pre mid post bytes bytes' b, p.ledger.current = pre ++ .take bytes :: (mid ++ .take bytes' :: post) →
        b ∈ bytes → b ∈ bytes' → ∃ given, .give given ∈ mid ∧ b ∈ given) ∧
      ∀ pre post bytes b, p.ledger.current = pre ++ .give bytes :: post → b ∈ bytes →
        b ∈ p.manager.free ∨ ∃ taken, .take taken ∈ post ∧ b ∈ taken := by
  have hstart : Represents filePath (⟨new, d, ⟨[], []⟩⟩ : FreeSpaceProgram M A) :=
    ⟨hd, accounts_new, new, accounts_new, .inr ⟨hnone, GapSet.toList_empty⟩⟩
  have hrun : Represents filePath p := hp ▸ hes.invariant (fun _ _ => Represents.step) hstart
  obtain ⟨hvalid, hfree, hproper⟩ := hrun.current
  refine ⟨hvalid.sound, hfree, fun pre mid post bytes bytes' b hledger hb hb' => ?_,
    fun pre post bytes b hledger hb => ?_⟩
  · rw [hledger] at hproper
    exact Transfer.given_between hproper hb hb'
  · rw [hfree, hledger]
    exact Transfer.mem_run_or_taken hb

end

/-- Ten bytes are registered and saved; four of them are handed out, and the program starts again. -/
def takenAfterSave : List (SessionEvent FreeSpaceCall) :=
  [.act (.registerGap 100 10), .save, .act (.takeSuitableGap 4), .restart]

open ByteSum in
theorem freeSpace_sessions_takenAfterSave :
    (run (FreeSpaceProgram.step "gaps") ⟨new, { files := fun _ => none }, ⟨[], []⟩⟩ takenAfterSave :
      FreeSpaceProgram GapList (FopenAdapter 64)).manager.free = bytesAt 100 10 := by
  have hallowed : (new : FileAllocationManager GapList).Allowed (.registerGap 100 10) := by
    refine ⟨by decide, by decide, ?_⟩
    rw [free_new]
    exact Set.empty_disjoint _
  have htake : 0 < (4 : UInt64).toNat := by decide
  have hworks : Along (FreeSpaceProgram.step "gaps") (FreeSpaceProgram.Works "gaps")
      (⟨new, { files := fun _ => none }, ⟨[], []⟩⟩ : FreeSpaceProgram GapList (FopenAdapter 64)) takenAfterSave :=
    ⟨hallowed, rfl, htake, trivial, trivial⟩
  have hfree := (freeSpace_sessions rfl rfl hworks rfl).2.1
  rw [hfree]
  exact Set.empty_union _

end FileAllocationManager

end CppDb
