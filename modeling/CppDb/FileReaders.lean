import CppDb.Qt

/-!
# Files that do not hold what is read

What the adapters do where a file is missing or ends too early: the call is refused, nothing is left to come, and
closing the adapter leaves the files. `Stops` is the counterpart of `Loads` for a function that does not return.
-/

namespace CppDb
open Embed

/-- A file adapter that refuses to open a file that is not there, and to read more than there is. -/
class FileReader (A : Type) [StorageAdapter A] extends FileAdapter A where
  open_read_none {d : A} {path : String} (h : Closed d) (hfile : file d path = none) :
    ∃ d', StorageAdapter.open_ path .Read d = (none, d') ∧
      Closed (StorageAdapter.close d').2 ∧ file (StorageAdapter.close d').2 = file d
  read_none {d : A} {n : ℕ} {rest : Bytes} (h : Reading d rest) (hn : rest.length < n) :
    ∃ d', StorageAdapter.read n d = (none, d') ∧ Reading d' [] ∧ file d' = file d

instance {bits : ℕ} : FileReader (FopenAdapter bits) where
  open_read_none {d path} h hfile := by
    have hhandle : d.handle = none := h
    refine ⟨{ d with filePath := path, handle := none, mode := .Read }, ?_, rfl, rfl⟩
    by_cases hpath : path = ""
    · simp [StorageAdapter.open_, FopenAdapter.open_, Files.fopen, hhandle, hpath]
    · have hnone : d.files path = none := by
        have hfile : (if path = "" then none else d.files path) = none := hfile
        rwa [if_neg hpath] at hfile
      simp [StorageAdapter.open_, FopenAdapter.open_, FopenAdapter.streamMode, Files.fopen, hhandle, hpath, hnone]
  read_none {d n rest} h hn := by
    obtain ⟨path, content, pos, hpath, hfile, hpos, hdrop, hhandle⟩ := h
    have hend : pos + rest.length = content.length := by
      rw [← hdrop]
      exact add_length_drop hpos
    have hslice : slice content pos n = rest := by
      rw [slice, hdrop, List.take_of_length_le (Nat.le_of_lt hn)]
    refine ⟨{ d with handle := some ⟨path, true, false, false, pos + rest.length⟩ }, ?_, ?_, rfl⟩
    · simp only [StorageAdapter.read, FopenAdapter.read, FopenAdapter.onHandle, hhandle, Files.fread,
        Files.content_of_some hfile, hslice, if_true, dif_neg (Nat.ne_of_lt hn)]
    · exact ⟨path, content, pos + rest.length, hpath, hfile, hend.le, List.drop_eq_nil_of_le hend.ge, rfl⟩

instance : FileReader QFileAdapter where
  open_read_none {d path} h hfile := by
    refine ⟨{ files := d.files, fileName := path }, ?_, rfl, rfl⟩
    by_cases hpath : path = ""
    · simp [StorageAdapter.open_, QFileAdapter.open_, hpath]
    · have hnone : d.files path = none := by
        have hfile : (if path = "" then none else d.files path) = none := hfile
        rwa [if_neg hpath] at hfile
      simp [StorageAdapter.open_, QFileAdapter.open_, QtOpenMode.ofOpenMode, hpath, hnone]
  read_none {d n rest} h hn := by
    obtain ⟨content, hname, hfile, hpos, hdrop, hmode⟩ := h
    have hend : d.position + rest.length = content.length := by
      rw [← hdrop]
      exact add_length_drop hpos
    have hcontent : d.content = content := by rw [QFileAdapter.content, Files.content_of_some hfile]
    have hslice : slice content d.position n = rest := by
      rw [slice, hdrop, List.take_of_length_le (Nat.le_of_lt hn)]
    have hreadable : d.canRead = true := by rw [QFileAdapter.canRead, hmode]; rfl
    refine ⟨{ d with position := d.position + rest.length }, ?_, ?_, rfl⟩
    · simp only [StorageAdapter.read, QFileAdapter.read, hreadable, if_true, hcontent, hslice,
        dif_neg (Nat.ne_of_lt hn)]
    · exact ⟨content, hname, hfile, hend.le, List.drop_eq_nil_of_le hend.ge, hmode⟩

/-- How a function ends that does not return: with `false`, or by aborting with a message. -/
def stopped {α : Type} : Option String → Exit α
  | none => .fail
  | some message => .abort message

section
variable {A : Type} [StorageAdapter A] [FileReader A] {T α β : Type} {bs cs : Bytes} {t t' t'' : T} {a : α}
  {message : Option String}
open FileAdapter (Closed Reading file)

/-- Where exactly `bs` is still to come, `p` does not return, and makes `t'` of the target `t`. -/
def Stops (p : Proc (Loading T A) α) (bs : Bytes) (t t' : T) (message : Option String) : Prop :=
  ∀ ⦃d : A⦄, Reading d bs →
    ∃ d' rest, p.run ⟨t, d⟩ = (stopped message, ⟨t', d'⟩) ∧ Reading d' rest ∧ file d' = file d

namespace Stops

theorem onStorage {p : Proc A α}
    (hp : ∀ d, Reading d bs → ∃ d' rest, p.run d = (.fail, d') ∧ Reading d' rest ∧ file d' = file d) :
    Stops (Loading.onStorage p) bs t t none := by
  intro d h
  obtain ⟨d', rest, hrun, h'⟩ := hp d h
  exact ⟨d', rest, Loading.run_onStorage hrun, h'⟩

theorem read {n : ℕ} (hn : bs.length < n) :
    Stops (A := A) (Loading.onStorage (StorageIo.read n)) bs t t none := by
  refine onStorage fun d h => ?_
  obtain ⟨d', hcall, h'⟩ := FileReader.read_none h hn
  exact ⟨d', [], Proc.run_ofCall_none hcall, h'⟩

theorem require {c : Prop} [Decidable c] (h : ¬ c) : Stops (A := A) (.require c) bs t t none :=
  fun d hd => ⟨d, bs, Proc.run_require_neg h _, hd, rfl⟩

theorem onTarget {p : Proc T α} {x : Exit α} (hp : p.run t = (x, t')) (hx : x = stopped message) :
    Stops (A := A) (Loading.onTarget p) bs t t' message := by
  intro d h
  refine ⟨d, bs, ?_, h, rfl⟩
  rw [Loading.onTarget, Proc.run_zoom, hp, hx]

theorem bind {p : Proc (Loading T A) α} {f : α → Proc (Loading T A) β} (hp : Stops p bs t t' message) :
    Stops (p >>= f) bs t t' message := by
  intro d h
  obtain ⟨d', rest, hrun, h'⟩ := hp h
  refine ⟨d', rest, ?_, h'⟩
  cases message with
  | none => exact Proc.run_bind_of_fail hrun
  | some m => exact Proc.run_bind_of_abort hrun

theorem after {p : Proc (Loading T A) α} {f : α → Proc (Loading T A) β} (hp : Loads p bs t t' a)
    (hf : Stops (f a) cs t' t'' message) : Stops (p >>= f) (bs ++ cs) t t'' message := by
  intro d h
  obtain ⟨d₁, hrun₁, h₁, hfile₁⟩ := hp h
  obtain ⟨d₂, rest, hrun₂, h₂, hfile₂⟩ := hf h₁
  exact ⟨d₂, rest, by rw [Proc.run_bind_of_ret hrun₁, hrun₂], h₂, hfile₂.trans hfile₁⟩

theorem of_eq {p : Proc (Loading T A) α} (hp : Stops p bs t t' message) (h : bs = cs) : Stops p cs t t' message :=
  h ▸ hp

end Stops

/-- A file whose content makes the function stop. -/
theorem closing_stops {p : Proc (Loading T A) α} {path : String} (hp : Stops p bs t t' message) {d : A}
    (hd : Closed d) (hfile : file d path = some bs) :
    ∃ d', (Loading.closing (Loading.onStorage (StorageIo.open_ path .Read) >>= fun _ => p)).run ⟨t, d⟩ =
      (stopped message, ⟨t', d'⟩) ∧ Closed d' ∧ file d' = file d := by
  obtain ⟨d₁, hcall, hreading, hfile₁⟩ := FileAdapter.open_read hd hfile
  obtain ⟨d₂, rest, hrun, hreading₂, hfile₂⟩ := hp hreading
  have hopen : (StorageIo.open_ path .Read).run d = (.ret (), d₁) := Proc.run_ofCall_some hcall
  obtain ⟨hclosed, hfile₃⟩ := FileAdapter.close_read hreading₂
  exact ⟨_, Loading.run_closing (by rw [Proc.run_bind_of_ret (Loading.run_onStorage hopen), hrun]), hclosed,
    hfile₃.trans (hfile₂.trans hfile₁)⟩

theorem closing_missing {p : Proc (Loading T A) α} {path : String} {d : A} (hd : Closed d)
    (hfile : file d path = none) :
    ∃ d', (Loading.closing (Loading.onStorage (StorageIo.open_ path .Read) >>= fun _ => p)).run ⟨t, d⟩ =
      (.fail, ⟨t, d'⟩) ∧ Closed d' ∧ file d' = file d := by
  obtain ⟨d₁, hcall, hclosed, hfile₁⟩ := FileReader.open_read_none hd hfile
  have hopen : (StorageIo.open_ path .Read).run d = (.fail, d₁) := Proc.run_ofCall_none hcall
  exact ⟨_, Loading.run_closing (Proc.run_bind_of_fail (Loading.run_onStorage hopen)), hclosed, hfile₁⟩

end

end CppDb
