import CppDb.RecordCodec

/-!
# What reading a record says about the bytes

The converse of `RecordCodec.lean`: where `deserialize` returns a record, the bytes it went through are the
encoding of that record, and its strings and arrays are short (`parses_deserialize`).
-/

namespace CppDb
open Embed

section
variable {A : Type} [StorageAdapter A]

/-- A read that succeeds returns the bytes that come next. -/
def Faithful (At : A → Bytes → Prop) : Prop :=
  ∀ ⦃d d' : A⦄ ⦃n : ℕ⦄ ⦃v : Raw n⦄ ⦃rest : Bytes⦄, At d rest → StorageAdapter.read n d = (some v, d') →
    ∃ rest', rest = v.1 ++ rest' ∧ At d' rest'

/-- Whatever `p` returns is as `P` says, and `p` has gone through its encoding. -/
def Parses {α : Type} (p : Proc A α) (enc : α → Bytes) (P : α → Prop) : Prop :=
  ∀ ⦃At : A → Bytes → Prop⦄, Faithful At → ∀ ⦃d d' : A⦄ ⦃rest : Bytes⦄ ⦃a : α⦄, At d rest →
    p.run d = (.ret a, d') → P a ∧ ∃ rest', rest = enc a ++ rest' ∧ At d' rest'

namespace Parses
variable {α β : Type} {enc : α → Bytes} {P : α → Prop}

theorem pure {a : α} (henc : enc a = []) (ha : P a) : Parses (A := A) (Pure.pure a) enc P := by
  intro At hAt d d' rest x h hrun
  cases hrun
  exact ⟨ha, rest, by rw [henc, List.nil_append], h⟩

theorem read (n : ℕ) : Parses (A := A) (StorageIo.read n) (fun v => v.1) fun _ => True := by
  intro At hAt d d' rest v h hrun
  rcases hcall : StorageAdapter.read n d with ⟨_ | v₁, d₁⟩
  · rw [StorageIo.read, Proc.run_ofCall_none hcall] at hrun
    cases hrun
  · rw [StorageIo.read, Proc.run_ofCall_some hcall] at hrun
    cases hrun
    exact ⟨trivial, hAt h hcall⟩

/-- One after the other: `enc` and `P` of the result come from what the two parts read. -/
theorem bind {p : Proc A β} {f : β → Proc A α} {encβ : β → Bytes} {e : β → α → Bytes} {Q : β → Prop}
    {R : β → α → Prop} (hp : Parses p encβ Q) (hf : ∀ b, Q b → Parses (f b) (e b) (R b))
    (h : ∀ b a, Q b → R b a → P a ∧ enc a = encβ b ++ e b a) : Parses (p >>= f) enc P := by
  intro At hAt d d' rest a hd hrun
  rcases hcall : p.run d with ⟨b | _ | _ | _, d₁⟩
  · rw [Proc.run_bind_of_ret hcall] at hrun
    obtain ⟨hb, rest₁, rfl, hd₁⟩ := hp hAt hd hcall
    obtain ⟨ha, rest₂, rfl, hd₂⟩ := hf b hb hAt hd₁ hrun
    obtain ⟨hP, henc⟩ := h b a hb ha
    exact ⟨hP, rest₂, by rw [henc, List.append_assoc], hd₂⟩
  · rw [Proc.run_bind_of_fail hcall] at hrun
    cases hrun
  · rw [Proc.run_bind_of_abort hcall] at hrun
    cases hrun
  · rw [Proc.run_bind_of_outOfFuel hcall] at hrun
    cases hrun

theorem map {p : Proc A β} {encβ : β → Bytes} {Q : β → Prop} (f : β → α) (hp : Parses p encβ Q)
    (h : ∀ b, Q b → P (f b) ∧ enc (f b) = encβ b) : Parses (p >>= fun b => Pure.pure (f b)) enc P := by
  refine hp.bind (e := fun _ _ => []) (R := fun b a => a = f b) (fun b _ => pure rfl rfl) ?_
  rintro b a hb rfl
  rw [List.append_nil]
  exact h b hb

theorem times {p : Proc A α} (hp : Parses p enc P) (n : ℕ) :
    Parses (p.times n) (fun l => (l.map enc).flatten) fun l => l.length = n ∧ ∀ x ∈ l, P x := by
  induction n with
  | zero => exact pure rfl ⟨rfl, fun _ hx => absurd hx List.not_mem_nil⟩
  | succ n ih =>
    rw [Proc.times]
    refine hp.bind (e := fun a l => ((l.drop 1).map enc).flatten)
      (R := fun a l => ∃ as, l = a :: as ∧ as.length = n ∧ ∀ x ∈ as, P x)
      (fun a _ => ih.map (a :: ·) fun as has => ⟨⟨as, rfl, has⟩, rfl⟩) ?_
    rintro a l ha ⟨as, rfl, hlen, has⟩
    refine ⟨⟨by rw [List.length_cons, hlen], fun x hx => ?_⟩, rfl⟩
    rcases List.mem_cons.1 hx with rfl | hx
    · exact ha
    · exact has x hx

end Parses

theorem leBytes_of_raw {n : ℕ} (v : Raw n) : leBytes n (leNat v.1) = v.1 := by
  have h := leBytes_leNat v.1
  rwa [v.2] at h

theorem leNat_raw_lt {n : ℕ} (v : Raw n) : leNat v.1 < 256 ^ n := by
  have h := leNat_lt v.1
  rwa [v.2] at h

theorem parses_readString : Parses (A := A) StorageIo.readString encodeString fun str => str.length < 2 ^ 32 := by
  refine (Parses.read 4).bind (e := fun _ str => str) (R := fun v str => str.length = leNat v.1)
    (fun v _ => (Parses.read (leNat v.1)).map Subtype.val fun str _ => ⟨str.2, rfl⟩) ?_
  intro v str _ hlen
  have hlt : str.length < 2 ^ 32 := by
    rw [hlen]
    exact leNat_raw_lt v
  refine ⟨hlt, ?_⟩
  rw [encodeString, Nat.mod_eq_of_lt hlt, List.take_length, hlen, leBytes_of_raw]

theorem parses_readVector {α : Type} {readItem : Proc A α} {enc : α → Bytes} {P : α → Prop}
    (hitem : Parses readItem enc P) :
    Parses (StorageIo.readVector readItem) (encodeVector enc) (ValueType.ShortList P) := by
  refine (Parses.read 4).bind (e := fun _ l => (l.map enc).flatten)
    (R := fun v l => l.length = leNat v.1 ∧ ∀ x ∈ l, P x) (fun v _ => hitem.times (leNat v.1)) ?_
  rintro v l - ⟨hlen, hl⟩
  have hlt : l.length < 2 ^ 32 := by
    rw [hlen]
    exact leNat_raw_lt v
  refine ⟨⟨hlt, hl⟩, ?_⟩
  rw [encodeVector, Nat.mod_eq_of_lt hlt, List.take_length, hlen, leBytes_of_raw]

theorem parses_readValue (t : ValueType) :
    Parses (A := A) (StorageIo.readValue t) (encodeValue t) t.Short := by
  induction t with
  | trivial name n => exact Parses.read n
  | string =>
    intro At hAt d d' rest str hd hrun
    obtain ⟨hlen, hrest⟩ := parses_readString hAt hd hrun
    exact ⟨⟨hlen, fun _ _ => trivial⟩, hrest⟩
  | vector t ih => exact parses_readVector ih

end

theorem ValueType.toRaw_ofRaw {t : ValueType} (h : t.isTrivial = true) {bs : Bytes} (hlen : bs.length = t.sizeOf) :
    t.toRaw (t.ofRaw bs) = bs := by
  cases t with
  | trivial name n =>
    have hlen : bs.length = n := hlen
    exact (List.takeD_eq_take _ hlen.ge).trans (List.take_of_length_le hlen.le)
  | _ => cases h

theorem ValueType.short_of_isTrivial {t : ValueType} (h : t.isTrivial = true) (v : t.Value) : t.Short v := by
  cases t with
  | trivial name n => trivial
  | _ => cases h

namespace DbRecordSerializer
variable {A : Type} [StorageAdapter A] {S : Schema}

theorem parses_readFields (hS : S.StaticFirst) {buffer : Bytes} (hbuffer : buffer.length = S.staticFieldsSize) :
    Parses (A := A) (readFields S buffer) (fun r => encodeFrom r S.staticFieldsCount)
      fun r => r.Short ∧ staticBlock r S.staticFieldsCount = buffer := by
  induction S generalizing buffer with
  | nil => exact Parses.pure rfl ⟨trivial, (List.eq_nil_of_length_eq_zero hbuffer).symm⟩
  | cons f S ih =>
    by_cases hf : f.sizeKnownAtCompileTime = true
    · have ht := Field.isTrivial_of_static hf
      rw [Schema.staticFieldsSize_static hf] at hbuffer
      have htake : (buffer.take f.staticSize).length = f.valueType.sizeOf := by
        rw [List.length_take, hbuffer, Field.staticSize]
        omega
      have hdrop : (buffer.drop f.staticSize).length = Schema.staticFieldsSize S := by
        rw [List.length_drop, hbuffer]
        omega
      rw [readFields, if_pos hf]
      refine (ih hS.tail hdrop).map (DbRecord.cons _) fun r hr => ?_
      rw [Schema.staticFieldsCount_static hf, staticBlock, ValueType.toRaw_ofRaw ht htake, hr.2, List.take_append_drop]
      exact ⟨⟨⟨ValueType.short_of_isTrivial ht _, hr.1⟩, rfl⟩, rfl⟩
    · have h0 := hS.count_eq_zero hf
      have hempty : Schema.staticFieldsCount (f :: S) = 0 := by rw [Schema.staticFieldsCount_dynamic hf, h0]
      have hnil : buffer = [] := by
        rw [Schema.staticFieldsSize_of_count hempty] at hbuffer
        exact List.eq_nil_of_length_eq_zero hbuffer
      have hrest := ih hS.tail (show buffer.length = Schema.staticFieldsSize S by
        rw [hnil, Schema.staticFieldsSize_of_count h0]
        rfl)
      rw [readFields, if_neg hf, hempty]
      refine (parses_readValue f.valueType).bind (e := fun _ r => encodeFrom r 1)
        (R := fun v r => ∃ r', r = .cons v r' ∧ r'.Short)
        (fun v _ => hrest.map (DbRecord.cons v) fun r hr => ⟨⟨r, rfl, hr.1⟩, by rw [h0]; rfl⟩) ?_
      rintro v r hv ⟨r, rfl, hr⟩
      exact ⟨⟨⟨hv, hr⟩, by rw [hnil]; rfl⟩, rfl⟩

theorem parses_deserialize (hS : S.StaticFirst) : Parses (A := A) (deserialize S) encode DbRecord.Short := by
  refine (Parses.read S.staticFieldsSize).bind (e := fun _ r => encodeFrom r S.staticFieldsCount)
    (R := fun v r => r.Short ∧ staticBlock r S.staticFieldsCount = v.1) (fun v _ => parses_readFields hS v.2) ?_
  rintro v r - ⟨hr, hblock⟩
  exact ⟨hr, by rw [encode, hblock]⟩

end DbRecordSerializer

end CppDb
