import CppDb.MemoryAdapters
import CppDb.RecordCodec
import CppDb.Lib.Run

/-!
# Reading and writing at a position

`read` and `write` of `StorageIO` take an optional position. A write that does not go through leaves some of its bytes
behind, from its position on (`StoresPart`), so no call touches anything beside the bytes of the value it is given. A
value is found where it was written for as long as no later write reaches into it (`readValueAt_run`).
-/

namespace CppDb
open Embed
open StorageAdapter (pos)
open ReadableAdapter (Ok bytes)
open MemoryAdapter (Fits)

namespace StorageIo
variable {A : Type} [StorageAdapter A]

/-- `if (position) assert_and_return_r(_io.seek(*position), false)`. -/
def seekIfGiven : Option ℕ → Proc A Unit
  | none => pure ()
  | some position => seek position

/-- `write(value, position)`. -/
def writeValueAt (t : ValueType) (value : t.Value) (position : Option ℕ) : Proc A Unit := do
  seekIfGiven position
  writeValue t value

/-- `read(value, position)`. -/
def readValueAt (t : ValueType) (position : Option ℕ) : Proc A t.Value := do
  seekIfGiven position
  readValue t

end StorageIo

section
variable {A : Type} [StorageAdapter A] [MemoryAdapter A]

/-- `p` stores a beginning of `bs` at the position it is run at, all of it if it succeeds. -/
def StoresPart (p : Proc A Unit) (bs : Bytes) : Prop :=
  ∀ ⦃d : A⦄, Ok d → ∃ x d' stored, p.run d = (x, d') ∧ stored <+: bs ∧ (x = .ret () → stored = bs) ∧ Ok d' ∧
    bytes d' = overwrite (bytes d) (pos d) stored ∧ pos d' = pos d + stored.length

namespace StoresPart
variable {p q : Proc A Unit} {bs cs : Bytes}

theorem nil : StoresPart (A := A) (pure ()) [] :=
  fun d h => ⟨.ret (), d, [], rfl, List.nil_prefix, fun _ => rfl, h, by simp, by simp⟩

theorem write (bs : Bytes) : StoresPart (A := A) (StorageIo.write bs) bs := by
  intro d h
  by_cases hf : Fits A (pos d + bs.length)
  · obtain ⟨d', hcall, hok, hb, hp⟩ := MemoryAdapter.write_some h hf
    exact ⟨.ret (), d', bs, Proc.run_ofCall_some hcall, List.prefix_rfl, fun _ => rfl, hok, hb, hp⟩
  · obtain ⟨d', hcall, hok, hb, hp⟩ := MemoryAdapter.write_none h hf
    exact ⟨.fail, d', [], Proc.run_ofCall_none hcall, List.nil_prefix, nofun, hok, by simp [hb], by simp [hp]⟩

theorem bind (hp : StoresPart p bs) (hq : StoresPart q cs) : StoresPart (p >>= fun _ => q) (bs ++ cs) := by
  intro d h
  obtain ⟨x, d₁, stored, hrun, hpre, hall, hok, hb, hpos⟩ := hp h
  have hkept : stored <+: bs ++ cs := hpre.trans (List.prefix_append ..)
  rcases x with ⟨⟩ | _ | m | _
  · obtain rfl := hall rfl
    obtain ⟨y, d₂, stored₂, hrun₂, hpre₂, hall₂, hok₂, hb₂, hpos₂⟩ := hq hok
    refine ⟨y, d₂, stored ++ stored₂, (Proc.run_bind_of_ret hrun).trans hrun₂, (List.prefix_append_right_inj _).2 hpre₂,
      fun hy => by rw [hall₂ hy], hok₂, ?_, ?_⟩
    · rw [hb₂, hb, hpos, overwrite_overwrite _ _ (ReadableAdapter.pos_le h)]
    · rw [hpos₂, hpos, List.length_append, Nat.add_assoc]
  · exact ⟨.fail, d₁, stored, Proc.run_bind_of_fail hrun, hkept, nofun, hok, hb, hpos⟩
  · exact ⟨.abort m, d₁, stored, Proc.run_bind_of_abort hrun, hkept, nofun, hok, hb, hpos⟩
  · exact ⟨.outOfFuel, d₁, stored, Proc.run_bind_of_outOfFuel hrun, hkept, nofun, hok, hb, hpos⟩

theorem forM {α : Type} {f : α → Proc A Unit} {enc : α → Bytes} (l : List α) (h : ∀ x ∈ l, StoresPart (f x) (enc x)) :
    StoresPart (l.forM f) (l.map enc).flatten := by
  induction l with
  | nil => exact nil
  | cons x l ih =>
    rw [List.forM, List.map_cons, List.flatten_cons]
    exact (h x (List.mem_cons_self ..)).bind (ih fun y hy => h y (List.mem_cons_of_mem _ hy))

end StoresPart

theorem storesPart_writeValue (t : ValueType) (v : t.Value) :
    StoresPart (A := A) (StorageIo.writeValue t v) (encodeValue t v) := by
  induction t with
  | trivial name n => exact StoresPart.write v.1
  | string => exact (StoresPart.write _).bind (StoresPart.write _)
  | vector t ih => exact (StoresPart.write _).bind (StoresPart.forM _ fun x _ => ih x)

/-- A usable adapter with this content. -/
def HasBytes (content : Bytes) (d : A) : Prop := Ok d ∧ bytes d = content

theorem keeps_read (content : Bytes) (n : ℕ) :
    Proc.Keeps (HasBytes (A := A) content) (StorageIo.read n) fun _ => True := by
  rintro d ⟨hok, rfl⟩
  by_cases hn : pos d + n ≤ (bytes d).length
  · obtain ⟨d', hcall, hok', hb, -⟩ := ReadableAdapter.read_some hok hn
    rw [StorageIo.read, Proc.run_ofCall_some hcall]
    exact ⟨⟨hok', hb⟩, fun _ _ => trivial⟩
  · obtain ⟨d', hcall, hok', hb, -⟩ := MemoryAdapter.read_none hok (Nat.lt_of_not_le hn)
    rw [StorageIo.read, Proc.run_ofCall_none hcall]
    exact ⟨⟨hok', hb⟩, fun _ _ => trivial⟩

theorem hasBytes_readValue (content : Bytes) (t : ValueType) :
    Proc.Keeps (HasBytes (A := A) content) (StorageIo.readValue t) fun _ => True := by
  induction t with
  | trivial name n => exact keeps_read content n
  | string =>
    exact (keeps_read content 4).bind fun n _ => (keeps_read content _).bind fun _ _ => Proc.Keeps.pure trivial
  | vector t ih =>
    exact (keeps_read content 4).bind fun n _ => (ih.times (leNat n.1)).mono fun _ _ => trivial

/-! ### Calls at a position -/

/-- A call of `read` or `write`, with a position or without. -/
inductive Access where
  | read (t : ValueType) (position : Option ℕ)
  | write (t : ValueType) (value : t.Value) (position : Option ℕ)

namespace Access

/-- Where the call begins. -/
def start (d : A) : Access → ℕ
  | read _ position => position.getD (pos d)
  | write _ _ position => position.getD (pos d)

/-- The state after the call, whatever it has returned. -/
def step (d : A) : Access → A
  | read t position => ((StorageIo.readValueAt t position).run d).2
  | write t value position => ((StorageIo.writeValueAt t value position).run d).2

/-- The call does not begin behind the end. -/
def Inside (d : A) (a : Access) : Prop := a.start d ≤ (bytes d).length

/-- The call does not write to the `n` bytes from `p` on. -/
def ClearOf (p n : ℕ) (d : A) : Access → Prop
  | read .. => True
  | write t value position => position.getD (pos d) + (encodeValue t value).length ≤ p ∨ p + n ≤ position.getD (pos d)

end Access

theorem run_seekIfGiven {d : A} (h : Ok d) {position : Option ℕ} (hp : position.getD (pos d) ≤ (bytes d).length) :
    ∃ d', (StorageIo.seekIfGiven position).run d = (.ret (), d') ∧ HasBytes (bytes d) d' ∧
      pos d' = position.getD (pos d) := by
  cases position with
  | none => exact ⟨d, rfl, ⟨h, rfl⟩, rfl⟩
  | some p =>
    obtain ⟨d', hcall, hok, hb, hpos⟩ := ReadableAdapter.seek_some h hp
    exact ⟨d', Proc.run_ofCall_some hcall, ⟨hok, hb⟩, hpos⟩

variable {d : A} {t : ValueType} {v : t.Value} {position : Option ℕ} {p n : ℕ}

theorem writeValueAt_cases (h : Ok d) (hp : position.getD (pos d) ≤ (bytes d).length) :
    ∃ x d' stored, (StorageIo.writeValueAt t v position).run d = (x, d') ∧ stored <+: encodeValue t v ∧
      (x = .ret () → stored = encodeValue t v) ∧ Ok d' ∧
      bytes d' = overwrite (bytes d) (position.getD (pos d)) stored := by
  obtain ⟨d₁, hseek, ⟨hok₁, hb₁⟩, hpos₁⟩ := run_seekIfGiven h hp
  obtain ⟨x, d', stored, hrun, hpre, hall, hok, hb, -⟩ := storesPart_writeValue t v hok₁
  refine ⟨x, d', stored, (Proc.run_bind_of_ret hseek).trans hrun, hpre, hall, hok, ?_⟩
  rw [hb, hb₁, hpos₁]

/-- These bytes are stored here. -/
structure Keeping (p : ℕ) (bs : Bytes) (d : A) : Prop where
  ok : Ok d
  fits : p + bs.length ≤ (bytes d).length
  stored : slice (bytes d) p bs.length = bs

/-- A call that keeps clear of the bytes leaves them. -/
theorem Keeping.step {bs : Bytes} {a : Access} (h : Keeping p bs d) (hin : a.Inside d)
    (hclear : a.ClearOf p bs.length d) : Keeping p bs (a.step d) := by
  cases a with
  | read t position =>
    obtain ⟨d₁, hseek, hbytes, -⟩ := run_seekIfGiven h.ok hin
    obtain ⟨⟨hok, hb⟩, -⟩ := hasBytes_readValue (bytes d) t d₁ hbytes
    have hstep : Access.step d (.read t position) = ((StorageIo.readValue t).run d₁).2 :=
      congrArg Prod.snd (Proc.run_bind_of_ret hseek)
    rw [hstep]
    exact ⟨hok, by rw [hb]; exact h.fits, by rw [hb]; exact h.stored⟩
  | write t value position =>
    have hin : position.getD (pos d) ≤ (bytes d).length := hin
    obtain ⟨x, d', stored, hrun, hpre, -, hok, hb⟩ := writeValueAt_cases (t := t) (v := value) h.ok hin
    have hstep : Access.step d (.write t value position) = d' := congrArg Prod.snd hrun
    have hbeside : position.getD (pos d) + stored.length ≤ p ∨ p + bs.length ≤ position.getD (pos d) :=
      hclear.imp_left (Nat.le_trans (Nat.add_le_add_left hpre.length_le _))
    rw [hstep]
    refine ⟨hok, ?_, ?_⟩
    · rw [hb, length_overwrite hin]
      exact Nat.le_trans h.fits (Nat.le_max_left ..)
    · rw [hb, slice_overwrite_of_disjoint hin hbeside]
      exact h.stored

/-- **A value is found where it was written.** After a successful write, at a position or where the adapter was, any
other calls, successful or not, that begin within the content and do not write to the bytes of the value: a read at its
position returns it. -/
theorem readValueAt_run (h : Ok d) (hp : position.getD (pos d) ≤ (bytes d).length) (hv : t.Short v) {d₀ : A}
    (hwrite : (StorageIo.writeValueAt t v position).run d = (.ret (), d₀)) {later : List Access}
    (hin : Along Access.step Access.Inside d₀ later)
    (hclear : Along Access.step (Access.ClearOf (position.getD (pos d)) (encodeValue t v).length) d₀ later) :
    ∃ d', (StorageIo.readValueAt t (some (position.getD (pos d)))).run (run Access.step d₀ later) = (.ret v, d') ∧
      bytes d' = bytes (run Access.step d₀ later) ∧
      pos d' = position.getD (pos d) + (encodeValue t v).length := by
  obtain ⟨x, d₁, stored, hrun, -, hall, hok, hb⟩ := writeValueAt_cases (t := t) (v := v) h hp
  rw [hwrite] at hrun
  cases hrun
  obtain rfl := hall rfl
  have hfirst : Keeping (position.getD (pos d)) (encodeValue t v) d₀ := by
    refine ⟨hok, ?_, ?_⟩
    · rw [hb, length_overwrite hp]
      exact Nat.le_max_right ..
    · rw [hb]
      exact slice_of_drop (drop_overwrite hp)
  have hlast : Keeping (position.getD (pos d)) (encodeValue t v) (run Access.step d₀ later) :=
    Along.invariant (fun _ _ hk ha => hk.step ha.1 ha.2) hfirst (hin.and hclear)
  have hle : (some (position.getD (pos d))).getD (pos (run Access.step d₀ later)) ≤
      (bytes (run Access.step d₀ later)).length := Nat.le_trans (Nat.le_add_right ..) hlast.fits
  obtain ⟨d₂, hseek, ⟨hok₂, hb₂⟩, hpos₂⟩ := run_seekIfGiven hlast.ok hle
  have hdrop : (bytes d₂).drop (pos d₂) = encodeValue t v ++
      (bytes d₂).drop (pos d₂ + (encodeValue t v).length) := by
    have hsplit := slice_append_drop (bytes d₂) (pos d₂) (encodeValue t v).length
    rw [hpos₂, hb₂, Option.getD_some, hlast.stored] at hsplit
    rw [hpos₂, hb₂, Option.getD_some]
    exact hsplit.symm
  obtain ⟨d', hread, -, hb', hpos'⟩ := reads_readValue t v hv hok₂ hdrop
  exact ⟨d', (Proc.run_bind_of_ret hseek).trans hread, hb'.trans hb₂, by rw [hpos', hpos₂, Option.getD_some]⟩

end

theorem readValueAt_run_header : ∃ d₀ d' : VectorAdapter,
    (StorageIo.writeValueAt .string [97] none).run { data := [0, 0, 0, 0], pos := 4, pos_le := by decide } =
      (.ret (), d₀) ∧
    (StorageIo.readValueAt .string (some 4)).run (run Access.step d₀
      [.write (.trivial "uint32_t" 4) ⟨[1, 2, 3, 4], rfl⟩ (some 0), .read (.trivial "uint32_t" 4) (some 0)]) =
        (.ret [97], d') := by
  obtain ⟨d, hd⟩ : ∃ d : VectorAdapter, d = { data := [0, 0, 0, 0], pos := 4, pos_le := by decide } := ⟨_, rfl⟩
  have hpos : pos d = 4 := by rw [hd]; rfl
  obtain ⟨d₀, hrun, -⟩ := (writes_writeValue .string [97]).ret (d := d) trivial trivial
  have hwrite : (StorageIo.writeValueAt .string [97] none).run d = (.ret (), d₀) := hrun
  have hle : (none : Option ℕ).getD (pos d) ≤ (bytes d).length := d.pos_le
  have hshort : ValueType.string.Short [97] := ⟨by decide, fun _ _ => trivial⟩
  obtain ⟨d', hread, -⟩ := readValueAt_run trivial hle hshort hwrite
    (show Along Access.step Access.Inside d₀
      [.write (.trivial "uint32_t" 4) ⟨[1, 2, 3, 4], rfl⟩ (some 0), .read (.trivial "uint32_t" 4) (some 0)] from
      ⟨Nat.zero_le _, Nat.zero_le _, trivial⟩) ⟨.inl hpos.ge, trivial, trivial⟩
  rw [Option.getD_none, hpos] at hread
  rw [← hd]
  exact ⟨d₀, d', hwrite, hread⟩

end CppDb
