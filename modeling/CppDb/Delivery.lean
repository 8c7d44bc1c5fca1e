import CppDb.RecordChecks
import CppDb.RecordInverse

/-!
# What the decoder returns and what it delivers

A run of `deserialize` that returns `true` has called the receiver once, with the operation that was stored in the
bytes it went through, and one that returns `false` has not called it: `agrees_iff` has the one exception. The proof
follows the text of the decoder with one rule for each of its constructs (`Settles`).
-/

namespace CppDb
open Embed
open StorageAdapter (pos)
open ReadableAdapter (Ok bytes)

section
variable {A : Type} [StorageAdapter A] {mayAbort : Prop}

theorem ends_read (n : ℕ) : Proc.Ends mayAbort (StorageIo.read (A := A) n) := Proc.Ends.ofCall _

theorem ends_readByte : Proc.Ends mayAbort (StorageIo.readByte (A := A)) :=
  (ends_read 1).bind fun _ => Proc.Ends.pure _

theorem ends_readBool : Proc.Ends mayAbort (StorageIo.readBool (A := A)) := ends_readByte.bind fun _ => Proc.Ends.pure _

theorem ends_readValue (t : ValueType) : Proc.Ends mayAbort (StorageIo.readValue (A := A) t) := by
  induction t with
  | trivial name n => exact ends_read n
  | string => exact (ends_read 4).bind fun n => (ends_read (leNat n.1)).bind fun _ => Proc.Ends.pure _
  | vector t ih => exact (ends_read 4).bind fun n => ih.times (leNat n.1)

theorem ends_readFields (S : Schema) (buffer : Bytes) :
    Proc.Ends mayAbort (DbRecordSerializer.readFields (A := A) S buffer) := by
  induction S generalizing buffer with
  | nil => exact Proc.Ends.pure _
  | cons f S ih =>
    rw [DbRecordSerializer.readFields]
    split
    · exact (ih _).bind fun _ => Proc.Ends.pure _
    · exact (ends_readValue f.valueType).bind fun _ => (ih _).bind fun _ => Proc.Ends.pure _

theorem ends_deserializeRecord (S : Schema) :
    Proc.Ends mayAbort (DbRecordSerializer.deserialize (A := A) S) :=
  (ends_read _).bind fun buffer => ends_readFields S buffer.1

theorem ends_readFindFields (types : List Field) :
    Proc.Ends mayAbort (Serializer.readFindFields (A := A) types) := by
  induction types with
  | nil => exact Proc.Ends.pure _
  | cons f types ih => exact (ends_readValue f.valueType).bind fun _ => ih.bind fun _ => Proc.Ends.pure _

theorem parses_readByte : Parses (A := A) StorageIo.readByte (fun b => [b]) fun _ => True := by
  refine (Parses.read (A := A) 1).map (P := fun _ => True) (fun b => b.1.headD 0) fun b _ => ⟨trivial, ?_⟩
  obtain ⟨x, hx⟩ := List.length_eq_one_iff.1 b.2
  rw [hx]
  rfl

theorem parses_readFindFields (types : List Field) :
    Parses (A := A) (Serializer.readFindFields types)
      (fun fields => (fields.map fun f => encodeValue f.1.valueType f.2).flatten)
      fun fields => fields.map Sigma.fst = types := by
  induction types with
  | nil => exact Parses.pure rfl rfl
  | cons f types ih =>
    refine (parses_readValue f.valueType).bind
      (e := fun _ fields => ((fields.drop 1).map fun g => encodeValue g.1.valueType g.2).flatten)
      (R := fun v fields => ∃ rest, fields = ⟨f, v⟩ :: rest ∧ rest.map Sigma.fst = types)
      (fun v _ => ih.map _ fun rest hrest => ⟨⟨rest, rfl, hrest⟩, rfl⟩) ?_
    rintro v fields - ⟨rest, rfl, hrest⟩
    exact ⟨congrArg (f :: ·) hrest, rfl⟩

end

namespace Operation
variable {S : Schema}

/-- The bytes are an encoding of the operation: the one that `serialize` stores, but any byte other than 0 is a flag
that is set. -/
def Encoding : Operation S → Bytes → Prop
  | updateFull keyField insertIfNotPresent record keyValue, bs => ∃ flag : UInt8, (flag != 0) = insertIfNotPresent ∧
      bs = [OpCode.UpdateFull.toByte] ++ ([castUInt8 keyField.id] ++ ([flag] ++
        (DbRecordSerializer.encode record ++ encodeValue keyField.valueType keyValue)))
  | appendToArray keyField arrayField keyValue payload, bs => ∃ flag : UInt8, (flag != 0) = payload.isLeft ∧
      bs = [OpCode.AppendToArray.toByte] ++ ([castUInt8 keyField.id] ++ ([castUInt8 arrayField.id] ++ ([flag] ++
        (encodeValue keyField.valueType keyValue ++
          payload.elim DbRecordSerializer.encode (encodeValue arrayField.valueType)))))
  | op, bs => bs = op.encode

theorem encoding_encode (op : Operation S) : op.Encoding op.encode := by
  cases op with
  | updateFull keyField insertIfNotPresent record keyValue =>
    exact ⟨if insertIfNotPresent then 1 else 0, by cases insertIfNotPresent <;> rfl, rfl⟩
  | appendToArray keyField arrayField keyValue payload =>
    exact ⟨if payload.isLeft then 1 else 0, by cases payload <;> rfl, rfl⟩
  | _ => rfl

theorem Encoding.length {op : Operation S} {bs : Bytes} (h : op.Encoding bs) : bs.length = op.encode.length := by
  cases op with
  | updateFull keyField insertIfNotPresent record keyValue =>
    obtain ⟨flag, -, rfl⟩ := h
    simp [encode, encodeBody, encodeBool]
  | appendToArray keyField arrayField keyValue payload =>
    obtain ⟨flag, -, rfl⟩ := h
    simp [encode, encodeBody, encodeBool]
  | _ => exact congrArg List.length h

end Operation

/-! ### One call or none -/

section
variable {A : Type} [StorageAdapter A] {S : Schema} {α β : Type}

/-- Where `pre` holds of the bytes to come, `p` either succeeds, with one call of the receiver, for an operation that
`enc` finds in the bytes it has gone through, or it does not, without a call. -/
def Settles (pre : Bytes → Prop) (p : Proc (Decoding A S) α) (ok : α → Prop) (enc : Operation S → Bytes → Prop) :
    Prop :=
  ∀ ⦃At : A → Bytes → Prop⦄, Faithful At → ∀ ⦃d : A⦄ ⦃rest : Bytes⦄, At d rest → pre rest →
    ∀ received : List (Operation S),
      (∃ a d' op consumed rest', p.run ⟨d, received⟩ = (.ret a, ⟨d', received ++ [op]⟩) ∧ ok a ∧ enc op consumed ∧
        rest = consumed ++ rest' ∧ At d' rest') ∨
      (∃ d', p.run ⟨d, received⟩ = (.fail, ⟨d', received⟩)) ∨
      ∃ a d', p.run ⟨d, received⟩ = (.ret a, ⟨d', received⟩) ∧ ¬ ok a

namespace Settles
variable {pre : Bytes → Prop} {ok : α → Prop} {enc : Operation S → Bytes → Prop}

theorem receiver {op : Operation S} (h : enc op []) :
    Settles (A := A) pre (Decoding.receiver op) (fun _ => True) enc := by
  intro At hAt d rest hd _ received
  exact Or.inl ⟨(), d, op, [], rest, rfl, trivial, h, rfl, hd⟩

theorem receiver_true {op : Operation S} (h : enc op []) :
    Settles (A := A) pre (Decoding.receiver op >>= fun _ => pure true) (· = true) enc := by
  intro At hAt d rest hd _ received
  exact Or.inl ⟨true, d, op, [], rest, rfl, rfl, h, rfl, hd⟩

theorem io_bind {p : Proc A β} {encβ : β → Bytes} {Q : β → Prop} {f : β → Proc (Decoding A S) α}
    (hp : Parses p encβ Q) (hends : Proc.Ends False p)
    (hf : ∀ b, Q b → Settles (fun rest => pre (encβ b ++ rest)) (f b) ok fun op bs => enc op (encβ b ++ bs)) :
    Settles pre (Decoding.onIo p >>= f) ok enc := by
  intro At hAt d rest hd hpre received
  rcases hends.run_cases d with ⟨b, d₁, hrun⟩ | ⟨d₁, hrun⟩
  · have hio : (Decoding.onIo p).run (⟨d, received⟩ : Decoding A S) = (.ret b, ⟨d₁, received⟩) := Proc.run_zoom_of hrun
    obtain ⟨hb, rest₁, rfl, hd₁⟩ := hp hAt hd hrun
    rw [Proc.run_bind_of_ret hio]
    rcases hf b hb hAt hd₁ hpre received with ⟨a, d₂, op, consumed, rest₂, hrun₂, hok, henc, rfl, hd₂⟩ | hnone
    · exact Or.inl ⟨a, d₂, op, encβ b ++ consumed, rest₂, hrun₂, hok, henc, (List.append_assoc ..).symm, hd₂⟩
    · exact Or.inr hnone
  · have hio : (Decoding.onIo p).run (⟨d, received⟩ : Decoding A S) = (.fail, ⟨d₁, received⟩) := Proc.run_zoom_of hrun
    exact Or.inr (Or.inl ⟨d₁, Proc.run_bind_of_fail hio⟩)

theorem require_bind {c : Prop} [Decidable c] {p : Proc (Decoding A S) α} (hp : c → Settles pre p ok enc) :
    Settles pre (Proc.require c >>= fun _ => p) ok enc := by
  intro At hAt d rest hd hpre received
  by_cases hc : c
  · rw [Proc.run_bind_of_ret (Proc.run_require_pos hc _)]
    exact hp hc hAt hd hpre received
  · exact Or.inr (Or.inl ⟨d, Proc.run_bind_of_fail (Proc.run_require_neg hc _)⟩)

theorem require {p : Proc (Decoding A S) Bool} (hp : Settles pre p (· = true) enc) :
    Settles pre (p >>= fun success => Proc.require (success = true)) (fun _ => True) enc := by
  intro At hAt d rest hd hpre received
  rcases hp hAt hd hpre received with
    ⟨success, d', op, consumed, rest', hrun, hok, hop⟩ | ⟨d', hrun⟩ | ⟨success, d', hrun, hok⟩
  · refine Or.inl ⟨(), d', op, consumed, rest', ?_, trivial, hop⟩
    rw [Proc.run_bind_of_ret hrun, Proc.run_require_pos hok]
  · exact Or.inr (Or.inl ⟨d', Proc.run_bind_of_fail hrun⟩)
  · refine Or.inr (Or.inl ⟨d', ?_⟩)
    rw [Proc.run_bind_of_ret hrun, Proc.run_require_neg hok]

/-- The loop that looks for a field runs its body once or not at all. -/
theorem forMatchingFields {isMatch : Field → Bool} {body : Field → Bool → Proc (Decoding A S) Bool} {fields : List Field}
    (hone : (fields.filter isMatch).length ≤ 1)
    (hbody : ∀ f ∈ fields, isMatch f = true → Settles pre (body f false) (· = true) enc) :
    Settles pre (Serializer.forMatchingFields isMatch body fields) (· = true) enc := by
  rw [Serializer.forMatchingFields_filter]
  intro At hAt d rest hd hpre received
  match hfilter : fields.filter isMatch with
  | [] => exact Or.inr (Or.inr ⟨false, d, rfl, Bool.false_ne_true⟩)
  | f :: g :: more => simp [hfilter] at hone
  | [f] =>
    have hf : f ∈ fields ∧ isMatch f = true := by
      rw [← List.mem_filter, hfilter]
      exact List.mem_singleton_self f
    have hloop : Serializer.forMatchingFields (fun _ => true) body [f] =
        (body f false).attempt >>= fun done => pure (done.getD false) := by
      simp [Serializer.forMatchingFields]
    rw [hloop]
    rcases hbody f hf.1 hf.2 hAt hd hpre received with
      ⟨success, d', op, consumed, rest', hrun, rfl, hop⟩ | ⟨d', hrun⟩ | ⟨success, d', hrun, hok⟩
    · exact Or.inl ⟨true, d', op, consumed, rest', Proc.run_bind_of_ret (Proc.run_attempt_of_ret hrun), rfl, hop⟩
    · exact Or.inr (Or.inr ⟨false, d', Proc.run_bind_of_ret (Proc.run_attempt_of_fail hrun), Bool.false_ne_true⟩)
    · exact Or.inr (Or.inr ⟨success, d', Proc.run_bind_of_ret (Proc.run_attempt_of_ret hrun), hok⟩)

end Settles

end

/-! ### The branches of the decoder -/

theorem flatten_singletons {α β : Type} (f : α → β) (l : List α) : (l.map fun x => [f x]).flatten = l.map f := by
  rw [← List.flatMap_def]
  exact List.flatMap_pure_eq_map f l

theorem castUInt8_of_toNat {i : ℤ} {b : UInt8} (h : i = (b.toNat : ℤ)) : castUInt8 i = b := by
  have hb : b.toNat < 256 := b.toNat_lt
  have hi : (i % 256).toNat = b.toNat := by omega
  rw [castUInt8, hi, UInt8.ofNat_toNat]

theorem OpCode.toByte_of_ofByte? {b : UInt8} {code : OpCode} (h : OpCode.ofByte? b = some code) : b = code.toByte := by
  have hcode := List.find?_some h
  simpa [eq_comm] using hcode

theorem Schema.length_filter_le {S : Schema} (h : S.Pairwise fun f g => f.id ≠ g.id) (fieldId : UInt8)
    (sel : Field → Bool) : (S.filter fun f => sel f && f.id = fieldId.toNat).length ≤ 1 := by
  refine Nat.le_trans (List.Sublist.length_le ?_) (length_selected_le h fieldId)
  refine List.monotone_filter_right S fun f hf => ?_
  exact (Bool.and_eq_true_iff.1 hf).2

namespace Decoding
variable {A : Type} [StorageAdapter A] {S : Schema} {α : Type}

theorem onIo_readBool (f : Bool → Proc (Decoding A S) α) :
    (onIo StorageIo.readBool >>= f) = onIo StorageIo.readByte >>= fun flag => f (flag != 0) := by
  have h : (onIo StorageIo.readBool : Proc (Decoding A S) Bool) =
      onIo StorageIo.readByte >>= fun flag => onIo (pure (flag != 0)) :=
    Proc.zoom_bind Decoding.io (fun io s => { s with io := io }) (fun _ _ => rfl) (fun _ _ _ => rfl)
      StorageIo.readByte fun flag => pure (flag != 0)
  rw [h, LawfulMonad.bind_assoc]
  rfl

end Decoding

namespace Serializer
variable {A : Type} [StorageAdapter A] {S : Schema}

theorem found_or_unmatched (hids : (S.map Field.id).Nodup) (ids : List UInt8) :
    (∃ types : List Field, (∀ f ∈ types, S.Finds (fun _ => true) f) ∧ types.map (fun f => castUInt8 f.id) = ids) ∨
      ∃ fieldId ∈ ids, S.selected fieldId = [] := by
  induction ids with
  | nil => exact Or.inl ⟨[], fun _ hf => absurd hf List.not_mem_nil, rfl⟩
  | cons fieldId ids ih =>
    rcases hselected : S.selected fieldId with _ | ⟨type, more⟩
    · exact Or.inr ⟨fieldId, List.mem_cons_self .., hselected⟩
    · rcases ih with ⟨types, htypes, hmap⟩ | ⟨other, hother, hnone⟩
      · have hmem : type ∈ S.selected fieldId := by
          rw [hselected]
          exact List.mem_cons_self ..
        obtain ⟨htype, hid⟩ := List.mem_filter.1 hmem
        have hid : type.id = fieldId.toNat := by simpa using hid
        have hbyte : fieldId.toNat < 256 := fieldId.toNat_lt
        refine Or.inl ⟨type :: types, fun f hf => ?_, ?_⟩
        · rcases List.mem_cons.1 hf with rfl | hf
          · exact ⟨htype, rfl, by omega, fun g hg _ h => List.inj_on_of_nodup_map hids hg htype h⟩
          · exact htypes f hf
        · rw [List.map_cons, hmap, castUInt8_of_toNat hid]
      · exact Or.inr ⟨other, List.mem_cons_of_mem _ hother, hnone⟩

/-- The search ends without a call when there is no field for an ID. -/
theorem constructFindOperationType_unmatched {σ : Type} (receiver : List Field → Proc σ Unit) {ids : List UInt8}
    (h0 : 0 < ids.length) (h2 : ids.length ≤ Operation.maxFieldCount)
    (h : ∃ fieldId ∈ ids, S.selected fieldId = []) :
    constructFindOperationType S receiver ids ids.length Operation.maxFieldCount [] = pure () := by
  obtain ⟨fieldId, hmem, hnone⟩ := h
  rw [Operation.maxFieldCount, constructFindOperationType_selected]
  rcases ids with _ | ⟨i, _ | ⟨j, _ | ⟨k, ids⟩⟩⟩
  · exact absurd h0 (Nat.lt_irrefl 0)
  · rw [List.mem_singleton] at hmem
    subst hmem
    simp [hnone]
  · rcases List.mem_pair.1 hmem with rfl | rfl
    · simp [hnone]
    · refine Proc.forM_skip fun type _ => ?_
      rw [constructFindOperationType_selected]
      simp [hnone]
  · simp [Operation.maxFieldCount] at h2

section
variable {pre : Bytes → Prop}

theorem settles_deserializeInsert (hS : S.StaticFirst) : Settles (A := A) pre (deserializeInsert S) (fun _ => True)
    fun op bs => op.Encoding ([OpCode.Insert.toByte] ++ bs) := by
  refine Settles.io_bind (DbRecordSerializer.parses_deserialize hS) (ends_deserializeRecord S) fun r _ => ?_
  refine Settles.receiver ?_
  rw [List.append_nil]
  rfl

theorem settles_deserializeUpdateFull (hS : S.StaticFirst) (hids : S.Pairwise fun f g => f.id ≠ g.id) :
    Settles (A := A) pre (deserializeUpdateFull S) (fun _ => True)
      fun op bs => op.Encoding ([OpCode.UpdateFull.toByte] ++ bs) := by
  refine Settles.io_bind parses_readByte ends_readByte fun keyFieldId _ => ?_
  rw [Decoding.onIo_readBool]
  refine Settles.io_bind parses_readByte ends_readByte fun flag _ => ?_
  refine Settles.io_bind (DbRecordSerializer.parses_deserialize hS) (ends_deserializeRecord S) fun r _ => ?_
  refine Settles.require ?_
  refine Settles.forMatchingFields (Schema.length_selected_le hids keyFieldId) fun keyField _ hkey => ?_
  refine Settles.io_bind (parses_readValue _) (ends_readValue _) fun v _ => Settles.receiver_true ?_
  have hid : castUInt8 keyField.id = keyFieldId := castUInt8_of_toNat (by simpa using hkey)
  refine ⟨flag, rfl, ?_⟩
  rw [hid, List.append_nil]
  rfl

theorem settles_deserializeAppendToArray (hS : S.StaticFirst) (hids : S.Pairwise fun f g => f.id ≠ g.id) :
    Settles (A := A) pre (deserializeAppendToArray S) (fun _ => True)
      fun op bs => op.Encoding ([OpCode.AppendToArray.toByte] ++ bs) := by
  refine Settles.io_bind parses_readByte ends_readByte fun keyFieldId _ => ?_
  refine Settles.io_bind parses_readByte ends_readByte fun arrayFieldId _ => ?_
  rw [Decoding.onIo_readBool]
  refine Settles.io_bind parses_readByte ends_readByte fun flag _ => ?_
  refine Settles.require ?_
  refine Settles.forMatchingFields (Schema.length_selected_le hids keyFieldId) fun keyField _ hkey => ?_
  refine Settles.io_bind (parses_readValue _) (ends_readValue _) fun v _ => ?_
  refine Settles.forMatchingFields (Schema.length_filter_le hids arrayFieldId _) fun arrayField _ harray => ?_
  have hkeyId : castUInt8 keyField.id = keyFieldId := castUInt8_of_toNat (by simpa using hkey)
  have harrayId : castUInt8 arrayField.id = arrayFieldId :=
    castUInt8_of_toNat (by simpa using (Bool.and_eq_true_iff.1 harray).2)
  dsimp only
  split
  · next hflag =>
    refine Settles.io_bind (DbRecordSerializer.parses_deserialize hS) (ends_deserializeRecord S) fun r _ => ?_
    refine Settles.receiver_true ⟨flag, hflag, ?_⟩
    rw [hkeyId, harrayId, List.append_nil]
    rfl
  · next hflag =>
    refine Settles.io_bind (parses_readValue _) (ends_readValue _) fun a _ => ?_
    refine Settles.receiver_true ⟨flag, Bool.eq_false_iff.2 hflag, ?_⟩
    rw [hkeyId, harrayId, List.append_nil]
    rfl

theorem settles_deserializeDelete (hids : S.Pairwise fun f g => f.id ≠ g.id) :
    Settles (A := A) pre (deserializeDelete S) (fun _ => True)
      fun op bs => op.Encoding ([OpCode.Delete.toByte] ++ bs) := by
  refine Settles.io_bind parses_readByte ends_readByte fun keyFieldId _ => ?_
  refine Settles.require ?_
  refine Settles.forMatchingFields (Schema.length_selected_le hids keyFieldId) fun keyField _ hkey => ?_
  refine Settles.io_bind (parses_readValue _) (ends_readValue _) fun v _ => Settles.receiver_true ?_
  have hid : castUInt8 keyField.id = keyFieldId := castUInt8_of_toNat (by simpa using hkey)
  rw [List.append_nil, ← hid]
  rfl

end

/-- A `Find` with one or two IDs, one of which is that of no field of the record. -/
def Unmatched (S : Schema) : Bytes → Prop
  | code :: nFields :: rest => code = OpCode.Find.toByte ∧
      (nFields.toNat > 0 ∧ nFields.toNat ≤ Operation.maxFieldCount) ∧ nFields.toNat ≤ rest.length ∧
      ∃ fieldId ∈ rest.take nFields.toNat, S.selected fieldId = []
  | _ => False

instance (S : Schema) : DecidablePred (Unmatched S)
  | [] | [_] => inferInstanceAs (Decidable False)
  | _ :: _ :: _ => inferInstanceAs (Decidable (_ ∧ _ ∧ _ ∧ _))

theorem settles_deserializeFind (hids : (S.map Field.id).Nodup) :
    Settles (A := A) (fun rest => ¬ Unmatched S ([OpCode.Find.toByte] ++ rest)) (deserializeFind S) (fun _ => True)
      fun op bs => op.Encoding ([OpCode.Find.toByte] ++ bs) := by
  refine Settles.io_bind parses_readByte ends_readByte fun nFields _ => ?_
  refine Settles.require_bind fun hn => ?_
  refine Settles.io_bind (parses_readByte.times _) (ends_readByte.times _) fun ids hlen => ?_
  rw [flatten_singletons, List.map_id', ← hlen.1]
  rw [← hlen.1] at hn
  rcases found_or_unmatched hids ids with ⟨types, hfinds, rfl⟩ | hnone
  · rw [List.length_map] at hn hlen ⊢
    rw [constructFindOperationType_eq (List.Nodup.of_map _ hids) _ hfinds hn.1 hn.2]
    refine Settles.io_bind (parses_readFindFields types) (ends_readFindFields types) fun fields hfields => ?_
    refine Settles.receiver ?_
    have hids' : (fields.map fun f => [castUInt8 f.1.id]).flatten = types.map fun f => castUInt8 f.id := by
      rw [flatten_singletons, ← hfields, List.map_map]
      rfl
    have hcount : UInt8.ofNat fields.length = nFields := by
      rw [← List.length_map Sigma.fst, hfields, hlen.1, UInt8.ofNat_toNat]
    change _ = Operation.encode _
    rw [Operation.encode, Operation.encodeBody, hids', hcount, List.append_nil]
    rfl
  · intro At hAt d rest hd hmatched
    refine absurd ?_ hmatched
    refine ⟨rfl, hlen.1 ▸ hn, ?_, ?_⟩
    · change nFields.toNat ≤ (ids ++ rest).length
      rw [List.length_append]
      omega
    · change ∃ fieldId ∈ (ids ++ rest).take nFields.toNat, _
      rwa [← hlen.1, List.take_left]

/-! ### The whole decoder -/

section
variable [ReadableAdapter A]

/-- What a run from `d` returns agrees with what it calls the receiver with: `d'` and `ops` are what it leaves. -/
inductive Agreement (d d' : A) : Exit Unit → (ops : List (Operation S)) → Prop
  | aborted {code : UInt8} {rest : Bytes} (hnext : (bytes d).drop (pos d) = code :: rest)
      (hcode : OpCode.ofByte? code = none) (message : String) : Agreement d d' (.abort message) []
  | delivered {op : Operation S} {consumed rest : Bytes} (hnext : (bytes d).drop (pos d) = consumed ++ rest)
      (hop : op.Encoding consumed) (hpos : pos d' = pos d + consumed.length) : Agreement d d' (.ret ()) [op]
  | failed : Agreement d d' .fail []

/-- Whatever the receiver has been called with before, a run from `d` is in agreement. -/
def Agrees (S : Schema) (d : A) : Prop :=
  ∀ received : List (Operation S), ∃ exit d' ops,
    (deserialize S).run ⟨d, received⟩ = (exit, ⟨d', received ++ ops⟩) ∧ Agreement d d' exit ops

theorem delivers_unmatched {bs : Bytes} (h : Unmatched S bs) : ∃ stored rest, bs = stored ++ rest ∧
    Delivers (A := A) (deserialize S) stored () [] := by
  match bs with
  | [] | [_] => exact h.elim
  | code :: nFields :: rest =>
    obtain ⟨rfl, hn, hlen, hnone⟩ := h
    obtain ⟨ids, tail, rfl, hids⟩ : ∃ ids tail, rest = ids ++ tail ∧ ids.length = nFields.toNat :=
      ⟨rest.take nFields.toNat, rest.drop nFields.toNat, (List.take_append_drop ..).symm, List.length_take_of_le hlen⟩
    rw [← hids, List.take_left] at hnone
    refine ⟨[OpCode.Find.toByte] ++ ([nFields] ++ ids), tail, by simp, ?_⟩
    refine Delivers.io_bind (reads_readByte _) ?_
    change Delivers (deserializeFind S) _ () []
    refine Delivers.io_bind (reads_readByte nFields) (Delivers.pure_bind (Delivers.require hn) ?_)
    have hread := Reads.times (A := A) ids fun b _ => reads_readByte b
    rw [flatten_singletons, List.map_id'] at hread
    rw [← hids] at hn ⊢
    refine Delivers.bind_pure (Delivers.onIo hread) ?_
    rw [constructFindOperationType_unmatched _ hn.1 hn.2 hnone]
    exact Delivers.pure ()

theorem not_agrees_of_unmatched {d : A} (hd : Ok d) (h : Unmatched S ((bytes d).drop (pos d))) : ¬ Agrees S d := by
  intro hagrees
  obtain ⟨stored, rest, hnext, hdelivers⟩ := delivers_unmatched (A := A) h
  obtain ⟨d', hrun, -⟩ := hdelivers [] hd hnext
  obtain ⟨exit, d'', ops, hrun', hagree⟩ := hagrees []
  rw [hrun] at hrun'
  cases hrun'
  cases hagree

end

section
variable [MemoryAdapter A]

theorem faithful_ok (c : Bytes) : Faithful fun (d : A) rest => Ok d ∧ bytes d = c ∧ c.drop (pos d) = rest := by
  rintro d d' n v rest ⟨hok, rfl, rfl⟩ hread
  by_cases hn : pos d + n ≤ (bytes d).length
  · obtain ⟨d₁, hread₁, hok₁, hb₁, hp₁⟩ := ReadableAdapter.read_some hok hn
    rw [hread₁] at hread
    cases hread
    refine ⟨(bytes d).drop (pos d + n), (slice_append_drop ..).symm, hok₁, hb₁, ?_⟩
    rw [hp₁]
  · obtain ⟨d₁, hread₁, -⟩ := MemoryAdapter.read_none hok (Nat.lt_of_not_le hn)
    rw [hread₁] at hread
    cases hread

theorem agreement_of_settles {d : A} (hd : Ok d) {code : OpCode} {branch : Proc (Decoding A S) Unit}
    (hbranch : Settles (fun rest => ¬ Unmatched S ([code.toByte] ++ rest)) branch (fun _ => True)
      fun op bs => op.Encoding ([code.toByte] ++ bs))
    {d₁ : A} {rest : Bytes} (hd₁ : Ok d₁ ∧ bytes d₁ = bytes d ∧ (bytes d).drop (pos d₁) = rest)
    (hnext : (bytes d).drop (pos d) = [code.toByte] ++ rest) (hmatched : ¬ Unmatched S ((bytes d).drop (pos d)))
    (received : List (Operation S)) : ∃ exit d' ops, branch.run ⟨d₁, received⟩ = (exit, ⟨d', received ++ ops⟩) ∧
      Agreement d d' exit ops := by
  rw [hnext] at hmatched
  rcases hbranch (faithful_ok (bytes d)) hd₁ hmatched received with
    ⟨_, d', op, consumed, rest', hrun, -, hop, rfl, hd'⟩ | ⟨d', hrun⟩ | ⟨_, _, _, hok⟩
  · rw [← List.append_assoc] at hnext
    refine ⟨_, d', [op], hrun, Agreement.delivered hnext hop ?_⟩
    exact pos_of_drop hd hd'.1 hd'.2.1 hnext hd'.2.2
  · exact ⟨_, d', [], by rw [hrun, List.append_nil], Agreement.failed⟩
  · exact absurd trivial hok

end

end Serializer

/-- **Result and delivery.** For a record with distinct IDs, a run of the decoder from any content either ends the
process because of an unknown operation code, or returns `true` after one call of the receiver, with the position
moved past the operation, or returns `false` without a call: unless it is at a `Find` with an ID of no field. -/
theorem Serializer.agrees_iff {A : Type} [StorageAdapter A] [MemoryAdapter A] {S : Schema}
    (hS : S.checkAssertions = true) (hids : (S.map Field.id).Nodup) {d : A} (hd : Ok d) :
    Agrees S d ↔ ¬ Unmatched S ((bytes d).drop (pos d)) := by
  constructor
  · intro hagrees hunmatched
    exact not_agrees_of_unmatched hd hunmatched hagrees
  · intro hmatched received
    have hids' : S.Pairwise fun f g => f.id ≠ g.id := List.pairwise_map.1 hids
    have hstatic := Schema.staticFirst_of_checkAssertions hS
    have hends : Proc.Ends False (StorageIo.readByte (A := A)) := ends_readByte
    rcases hends.run_cases d with ⟨b, d₁, hread⟩ | ⟨d₁, hread⟩
    · have hio : (Decoding.onIo StorageIo.readByte).run (⟨d, received⟩ : Decoding A S) = (.ret b, ⟨d₁, received⟩) :=
        Proc.run_zoom_of hread
      obtain ⟨-, rest, hnext, hd₁⟩ := parses_readByte (faithful_ok (bytes d)) ⟨hd, rfl, rfl⟩ hread
      rw [deserialize, Proc.run_bind_of_ret hio]
      rcases hcode : OpCode.ofByte? b with _ | code
      · exact ⟨_, d₁, [], by rw [List.append_nil]; rfl, Agreement.aborted hnext hcode _⟩
      · obtain rfl := OpCode.toByte_of_ofByte? hcode
        cases code with
        | Insert =>
          exact agreement_of_settles hd (settles_deserializeInsert hstatic) hd₁ hnext hmatched received
        | Find =>
          exact agreement_of_settles hd (settles_deserializeFind hids) hd₁ hnext hmatched received
        | UpdateFull =>
          exact agreement_of_settles hd (settles_deserializeUpdateFull hstatic hids') hd₁ hnext hmatched received
        | AppendToArray =>
          exact agreement_of_settles hd (settles_deserializeAppendToArray hstatic hids') hd₁ hnext hmatched received
        | Delete =>
          exact agreement_of_settles hd (settles_deserializeDelete hids') hd₁ hnext hmatched received
    · have hio : (Decoding.onIo StorageIo.readByte).run (⟨d, received⟩ : Decoding A S) = (.fail, ⟨d₁, received⟩) :=
        Proc.run_zoom_of hread
      refine ⟨_, d₁, [], ?_, Agreement.failed⟩
      rw [deserialize, Proc.run_bind_of_fail hio, List.append_nil]

theorem Serializer.agrees_iff_deleteKey :
    Agrees keySchema ({ data := [4, 1, 1, 0, 0, 0] } : VectorAdapter) ∧
      Agrees keySchema ({ data := [4, 1, 1, 0, 0, 0, 97] } : VectorAdapter) :=
  ⟨(agrees_iff keySchema_checkAssertions keySchema_byteIds.1 trivial).2 (by decide),
    (agrees_iff keySchema_checkAssertions keySchema_byteIds.1 trivial).2 (by decide)⟩

/-- A `Find` with one field, and 9 is the ID of no field. -/
theorem Serializer.not_agrees : ¬ ∀ S : Schema, S.checkAssertions = true → (S.map Field.id).Nodup →
    ∀ d : VectorAdapter, Agrees S d := by
  intro h
  have hagrees := h keySchema keySchema_checkAssertions keySchema_byteIds.1 { data := [1, 1, 9] }
  exact not_agrees_of_unmatched (A := VectorAdapter) trivial (by decide) hagrees

end CppDb
