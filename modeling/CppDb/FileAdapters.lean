import CppDb.RecordCodec

/-!
# File adapters

What the code that saves something to a file relies on: a file opened for writing is empty and takes what is
written to it in order, and when it is opened for reading the bytes come back in that order. An adapter object
stands for the object and the files it works on; a fresh object is one that has no file open.

`Stores` and `Loads` are the two sides of a codec over such files.
-/

namespace CppDb
open Embed

/-- `Sha3_Hasher<256>` with `get64BitHash()`: some function of what the hasher was updated with. -/
class Sha3Hasher where
  get64BitHash : List Bytes → UInt64

def Raw.toUInt64 (v : Raw 8) : UInt64 := UInt64.ofNat (leNat v.1)

def uint64Bytes (n : UInt64) : Bytes := leBytes 8 n.toNat

def rawUInt64 (n : UInt64) : Raw 8 := ⟨uint64Bytes n, length_leBytes ..⟩

@[simp] theorem toUInt64_rawUInt64 (n : UInt64) : (rawUInt64 n).toUInt64 = n := by
  have hnat : leNat (leBytes 8 n.toNat) = n.toNat := leNat_leBytes_of_lt n.toNat_lt
  rw [Raw.toUInt64]
  change UInt64.ofNat (leNat (leBytes 8 n.toNat)) = n
  rw [hnat]
  exact UInt64.ofNat_toNat

namespace ByteSum

/-- A hash for runs on fixed inputs. -/
scoped instance sha3 : Sha3Hasher := ⟨fun updates => UInt64.ofNat (updates.flatten.map UInt8.toNat).sum⟩

end ByteSum

/-! ### Files that are written and read -/

class FileAdapter (A : Type) [StorageAdapter A] where
  /-- No file is open. -/
  Closed : A → Prop
  /-- The content of the file of that path. -/
  file : A → String → Option Bytes
  /-- The file is open for writing and holds these bytes. -/
  Writing : A → String → Bytes → Prop
  /-- A file is open for reading, and these bytes are still to come. -/
  Reading : A → Bytes → Prop
  open_write {d d' : A} {path : String} (h : Closed d) (hopen : StorageAdapter.open_ path .Write d = (some (), d')) :
    Writing d' path [] ∧ ∀ q ≠ path, file d' q = file d q
  write {d d' : A} {path : String} {old bs : Bytes} (h : Writing d path old)
    (hwrite : StorageAdapter.write bs d = (some (), d')) :
    Writing d' path (old ++ bs) ∧ ∀ q ≠ path, file d' q = file d q
  flush {d d' : A} {path : String} {old : Bytes} {x : Option Unit} (h : Writing d path old)
    (hflush : StorageAdapter.flush d = (x, d')) : Writing d' path old ∧ ∀ q ≠ path, file d' q = file d q
  close_write {d : A} {path : String} {bs : Bytes} (h : Writing d path bs) :
    Closed (StorageAdapter.close d).2 ∧ file (StorageAdapter.close d).2 path = some bs ∧
      ∀ q ≠ path, file (StorageAdapter.close d).2 q = file d q
  open_read {d : A} {path : String} {bs : Bytes} (h : Closed d) (hfile : file d path = some bs) :
    ∃ d', StorageAdapter.open_ path .Read d = (some (), d') ∧ Reading d' bs ∧ file d' = file d
  read {d : A} {n : ℕ} {v : Raw n} {rest : Bytes} (h : Reading d (v.1 ++ rest)) :
    ∃ d', StorageAdapter.read n d = (some v, d') ∧ Reading d' rest ∧ file d' = file d
  close_read {d : A} {rest : Bytes} (h : Reading d rest) :
    Closed (StorageAdapter.close d).2 ∧ file (StorageAdapter.close d).2 = file d

section
variable {A : Type} [StorageAdapter A]

/-- `p` with a `StorageIO` object of its own, whose destructor closes the file. -/
def StorageIo.closing {α : Type} (p : Proc A α) : Proc A α := fun d =>
  ((p.run d).1, (StorageAdapter.close (p.run d).2).2)

theorem StorageIo.run_closing {α : Type} {p : Proc A α} {d d' : A} {x : Exit α} (h : p.run d = (x, d')) :
    (StorageIo.closing p).run d = (x, (StorageAdapter.close d').2) := by
  simp only [Proc.run, StorageIo.closing] at h ⊢
  rw [h]

/-- `flush()` whose result nobody looks at. -/
def StorageIo.flushIgnored : Proc A Unit := fun d => (.ret (), (StorageAdapter.flush d).2)

/-- What a function that loads something works on: what it loads into, and the storage it reads. -/
structure Loading (T A : Type) where
  target : T
  storage : A

namespace Loading
variable {T α : Type}

def onStorage (p : Proc A α) : Proc (Loading T A) α :=
  p.zoom Loading.storage fun d l => { l with storage := d }

def onTarget (p : Proc T α) : Proc (Loading T A) α :=
  p.zoom Loading.target fun t l => { l with target := t }

/-- The destructor of the `StorageIO` object closes the file. -/
def closing (p : Proc (Loading T A) α) : Proc (Loading T A) α := fun l =>
  ((p.run l).1, { (p.run l).2 with storage := (StorageAdapter.close (p.run l).2.storage).2 })

omit [StorageAdapter A] in
theorem run_onStorage {p : Proc A α} {t : T} {d d' : A} {x : Exit α} (h : p.run d = (x, d')) :
    (onStorage p).run ⟨t, d⟩ = (x, ⟨t, d'⟩) := by
  rw [onStorage, Proc.run_zoom, h]

theorem run_closing {p : Proc (Loading T A) α} {l : Loading T A} {x : Exit α} {t : T} {d : A}
    (h : p.run l = (x, ⟨t, d⟩)) : (closing p).run l = (x, ⟨t, (StorageAdapter.close d).2⟩) := by
  simp only [Proc.run, closing] at h ⊢
  rw [h]

end Loading

variable [FileAdapter A]
open FileAdapter (Writing Reading file)

/-- If `p` succeeds, it has added `bs` to the file. -/
def Stores {α : Type} (p : Proc A α) (bs : Bytes) (a : α) : Prop :=
  ∀ ⦃d d' : A⦄ ⦃path : String⦄ ⦃old : Bytes⦄ ⦃x : α⦄, Writing d path old → p.run d = (.ret x, d') →
    x = a ∧ Writing d' path (old ++ bs) ∧ ∀ q ≠ path, file d' q = file d q

namespace Stores
variable {α β : Type} {bs cs : Bytes} {a : α} {b : β}

theorem pure (a : α) : Stores (A := A) (Pure.pure a) [] a := by
  intro d d' path old x h hrun
  cases hrun
  exact ⟨rfl, by rwa [List.append_nil], fun _ _ => rfl⟩

theorem takes_writing (path : String) (f : String → Option Bytes) :
    Takes fun (d : A) old => Writing d path old ∧ ∀ q ≠ path, file d q = f q := by
  rintro d d' old bs ⟨h, hother⟩ hwrite
  obtain ⟨h', hother'⟩ := FileAdapter.write h hwrite
  exact ⟨h', fun q hq => (hother' q hq).trans (hother q hq)⟩

theorem of_encodes {p : Proc A Unit} (hp : Encodes p bs) : Stores p bs () := by
  intro d d' path old x h hrun
  exact ⟨rfl, hp (takes_writing path (file d)) ⟨h, fun _ _ => rfl⟩ hrun⟩

theorem write (bs : Bytes) : Stores (A := A) (StorageIo.write bs) bs () := of_encodes (Encodes.write bs)

theorem bind {p : Proc A α} {f : α → Proc A β} (hp : Stores p bs a) (hf : Stores (f a) cs b) :
    Stores (p >>= f) (bs ++ cs) b := by
  intro d d' path old x h hrun
  rcases hcall : p.run d with ⟨y | _ | _ | _, d₁⟩
  · rw [Proc.run_bind_of_ret hcall] at hrun
    obtain ⟨rfl, h₁, hother₁⟩ := hp h hcall
    obtain ⟨rfl, h₂, hother₂⟩ := hf h₁ hrun
    refine ⟨rfl, by rwa [← List.append_assoc], fun q hq => ?_⟩
    rw [hother₂ q hq, hother₁ q hq]
  · rw [Proc.run_bind_of_fail hcall] at hrun
    cases hrun
  · rw [Proc.run_bind_of_abort hcall] at hrun
    cases hrun
  · rw [Proc.run_bind_of_outOfFuel hcall] at hrun
    cases hrun

theorem of_eq {p : Proc A α} (hp : Stores p bs a) (h : bs = cs) : Stores p cs a := h ▸ hp

theorem flush : Stores (A := A) StorageIo.flush [] () := by
  intro d d' path old x h hrun
  rw [List.append_nil]
  rcases hcall : StorageAdapter.flush d with ⟨_ | _, d₁⟩
  · rw [StorageIo.flush, Proc.run_ofCall_none hcall] at hrun
    cases hrun
  · rw [StorageIo.flush, Proc.run_ofCall_some hcall] at hrun
    cases hrun
    exact ⟨rfl, FileAdapter.flush h hcall⟩

theorem flushIgnored : Stores (A := A) StorageIo.flushIgnored [] () := by
  intro d d' path old x h hrun
  cases hrun
  rw [List.append_nil]
  exact ⟨rfl, FileAdapter.flush h rfl⟩

end Stores

theorem follows_reading (f : String → Option Bytes) : Follows fun (d : A) rest => Reading d rest ∧ file d = f := by
  rintro d n v rest ⟨h, rfl⟩
  obtain ⟨d', hcall, h', hfile⟩ := FileAdapter.read h
  exact ⟨d', hcall, h', hfile⟩

/-- Where `bs` comes next, `p` returns `a`, makes `t'` of the target `t` and leaves what comes after. -/
def Loads {T α : Type} (p : Proc (Loading T A) α) (bs : Bytes) (t t' : T) (a : α) : Prop :=
  ∀ ⦃d : A⦄ ⦃rest : Bytes⦄, Reading d (bs ++ rest) →
    ∃ d', p.run ⟨t, d⟩ = (.ret a, ⟨t', d'⟩) ∧ Reading d' rest ∧ file d' = file d

namespace Loads
variable {T α β : Type} {bs cs : Bytes} {t t' t'' : T} {a : α} {b : β}

theorem pure (a : α) : Loads (A := A) (Pure.pure a) [] t t a :=
  fun d _ h => ⟨d, rfl, h, rfl⟩

theorem onStorage {p : Proc A α} (hp : Decodes p bs a) : Loads (Loading.onStorage p) bs t t a := by
  intro d rest h
  obtain ⟨d', hrun, h', hfile⟩ := hp (follows_reading (file d)) ⟨h, rfl⟩
  exact ⟨d', Loading.run_onStorage hrun, h', hfile⟩

theorem onTarget {p : Proc T α} (hp : p.run t = (.ret a, t')) : Loads (A := A) (Loading.onTarget p) [] t t' a := by
  intro d rest h
  refine ⟨d, ?_, h, rfl⟩
  rw [Loading.onTarget, Proc.run_zoom, hp]

theorem bind {p : Proc (Loading T A) α} {f : α → Proc (Loading T A) β} (hp : Loads p bs t t' a)
    (hf : Loads (f a) cs t' t'' b) : Loads (p >>= f) (bs ++ cs) t t'' b := by
  intro d rest h
  rw [List.append_assoc] at h
  obtain ⟨d₁, hrun₁, h₁, hfile₁⟩ := hp h
  obtain ⟨d₂, hrun₂, h₂, hfile₂⟩ := hf h₁
  exact ⟨d₂, by rw [Proc.run_bind_of_ret hrun₁, hrun₂], h₂, hfile₂.trans hfile₁⟩

theorem of_eq {p : Proc (Loading T A) α} (hp : Loads p bs t t' a) (h : bs = cs) : Loads p cs t t' a := h ▸ hp

theorem read {n : ℕ} (v : Raw n) {f : Raw n → Proc (Loading T A) β} (hf : Loads (f v) cs t t' b) :
    Loads (Loading.onStorage (StorageIo.read n) >>= f) (v.1 ++ cs) t t' b :=
  (onStorage (Decodes.read v)).bind hf

theorem require {c : Prop} [Decidable c] (h : c) : Loads (A := A) (.require c) [] t t () := by
  rw [Proc.require, if_pos h]
  exact pure ()

end Loads

/-- A file that was saved and is loaded again. -/
theorem closing_store {α : Type} {p : Proc A α} {path : String} {bs : Bytes} {a : α} (hp : Stores p bs a)
    {d d' : A} (hd : FileAdapter.Closed d) {x : α}
    (hrun : (StorageIo.closing (StorageIo.open_ path .Write >>= fun _ => p)).run d = (.ret x, d')) :
    x = a ∧ FileAdapter.Closed d' ∧ file d' path = some bs ∧ ∀ q ≠ path, file d' q = file d q := by
  rcases hclosing : (StorageIo.open_ path .Write >>= fun _ => p).run d with ⟨y, d₁⟩
  rw [StorageIo.run_closing hclosing] at hrun
  cases hrun
  rcases hcall : StorageAdapter.open_ path .Write d with ⟨_ | _, d₂⟩
  · have hopen : (StorageIo.open_ path .Write).run d = (.fail, d₂) := Proc.run_ofCall_none hcall
    rw [Proc.run_bind_of_fail hopen] at hclosing
    cases hclosing
  · have hopen : (StorageIo.open_ path .Write).run d = (.ret (), d₂) := Proc.run_ofCall_some hcall
    rw [Proc.run_bind_of_ret hopen] at hclosing
    obtain ⟨hwriting, hother⟩ := FileAdapter.open_write hd hcall
    obtain ⟨rfl, hwriting₁, hother₁⟩ := hp hwriting hclosing
    obtain ⟨hclosed, hfile, hother₂⟩ := FileAdapter.close_write hwriting₁
    exact ⟨rfl, hclosed, hfile, fun q hq => by rw [hother₂ q hq, hother₁ q hq, hother q hq]⟩

theorem closing_load_append {T α : Type} {p : Proc (Loading T A) α} {path : String} {bs rest : Bytes} {t t' : T}
    {a : α} (hp : Loads p bs t t' a) {d : A} (hd : FileAdapter.Closed d) (hfile : file d path = some (bs ++ rest)) :
    ∃ d', (Loading.closing (Loading.onStorage (StorageIo.open_ path .Read) >>= fun _ => p)).run ⟨t, d⟩ =
      (.ret a, ⟨t', d'⟩) ∧ FileAdapter.Closed d' ∧ file d' = file d := by
  obtain ⟨d₁, hcall, hreading, hfile₁⟩ := FileAdapter.open_read hd hfile
  obtain ⟨d₂, hrun, hreading₂, hfile₂⟩ := hp hreading
  have hopen : (StorageIo.open_ path .Read).run d = (.ret (), d₁) := Proc.run_ofCall_some hcall
  obtain ⟨hclosed, hfile₃⟩ := FileAdapter.close_read hreading₂
  exact ⟨_, Loading.run_closing (by rw [Proc.run_bind_of_ret (Loading.run_onStorage hopen), hrun]), hclosed,
    hfile₃.trans (hfile₂.trans hfile₁)⟩

end

end CppDb
