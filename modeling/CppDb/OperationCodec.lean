import CppDb.Operation
import CppDb.RecordCodec
import CppDb.MemoryAdapters

/-!
# The byte format of operations

`Operation.encode` is what `serialize` writes (`writes_serialize`), and `deserialize` calls the receiver
exactly once, with the operation that was encoded, and moves past exactly its encoding
(`delivers_deserialize`). The decoder finds the types of an operation by looking up field IDs in the
record; an operation is `Replayable` when each lookup selects the field it was made from, and no other.
-/

namespace CppDb
open Embed
open StorageAdapter (pos)
open ReadableAdapter (Ok bytes)

namespace Operation
variable {S : Schema}

def encodeBool (b : Bool) : Bytes := [if b then 1 else 0]

/-- What `serialize` stores after the operation code. -/
def encodeBody : Operation S → Bytes
  | insert record => DbRecordSerializer.encode record
  | find fields => [UInt8.ofNat fields.length] ++ ((fields.map fun f => [castUInt8 f.1.id]).flatten ++
      (fields.map fun f => encodeValue f.1.valueType f.2).flatten)
  | updateFull keyField insertIfNotPresent record keyValue => [castUInt8 keyField.id] ++
      (encodeBool insertIfNotPresent ++
        (DbRecordSerializer.encode record ++ encodeValue keyField.valueType keyValue))
  | appendToArray keyField arrayField keyValue payload => [castUInt8 keyField.id] ++
      ([castUInt8 arrayField.id] ++ (encodeBool payload.isLeft ++
        (encodeValue keyField.valueType keyValue ++
          payload.elim DbRecordSerializer.encode (encodeValue arrayField.valueType))))
  | delete keyField keyValue => [castUInt8 keyField.id] ++ encodeValue keyField.valueType keyValue

def encode (op : Operation S) : Bytes := [op.opCode.toByte] ++ op.encodeBody

theorem length_encode_pos (op : Operation S) : 0 < op.encode.length := by simp [encode]

end Operation

namespace Serializer
variable {A : Type} [StorageAdapter A] {S : Schema}

theorem writes_serialize [MemoryAdapter A] (op : Operation S) :
    Writes (A := A) (serialize op) op.encode := by
  refine (Writes.write [op.opCode.toByte]).bind ?_
  cases op with
  | insert record => exact DbRecordSerializer.writes_serialize record
  | find fields =>
    refine (Writes.write [UInt8.ofNat fields.length]).bind (Writes.bind ?_ ?_)
    · exact Writes.forM fields fun f _ => Writes.write [castUInt8 f.1.id]
    · exact Writes.forM fields fun f _ => writes_writeValue f.1.valueType f.2
  | updateFull keyField insertIfNotPresent record keyValue =>
    exact (Writes.write _).bind ((Writes.write _).bind
      ((DbRecordSerializer.writes_serialize record).bind (writes_writeValue _ keyValue)))
  | appendToArray keyField arrayField keyValue payload =>
    refine (Writes.write _).bind ((Writes.write _).bind ((Writes.write _).bind
      ((writes_writeValue _ keyValue).bind ?_)))
    cases payload with
    | inl record => exact DbRecordSerializer.writes_serialize record
    | inr array => exact writes_writeValue _ array
  | delete keyField keyValue => exact (Writes.write _).bind (writes_writeValue _ keyValue)

theorem writes_serializeMarker [MemoryAdapter A] (status : OpStatus) :
    Writes (A := A) (serializeMarker status) [markerID, status.toByte] :=
  (Writes.write [markerID]).bind (Writes.write [status.toByte])

end Serializer

/-! ### Decoding -/

section
variable {A : Type} [StorageAdapter A] [ReadableAdapter A] {S : Schema}

/-- Where the content continues with `bs`, `p` returns `a`, moves past exactly `bs` and calls the
receiver with exactly `ops`. -/
def Delivers {α : Type} (p : Proc (Decoding A S) α) (bs : Bytes) (a : α) (ops : List (Operation S)) :
    Prop :=
  ∀ ⦃d : A⦄ ⦃rest : Bytes⦄ (received : List (Operation S)), Ok d →
    (bytes d).drop (pos d) = bs ++ rest →
    ∃ d', p.run ⟨d, received⟩ = (.ret a, ⟨d', received ++ ops⟩) ∧ Ok d' ∧ bytes d' = bytes d ∧
      pos d' = pos d + bs.length

namespace Delivers
variable {α β : Type} {bs cs : Bytes} {a : α} {b : β} {ops ops' : List (Operation S)}

theorem onIo {p : Proc A α} (hp : Reads p bs a) : Delivers (S := S) (Decoding.onIo p) bs a [] := by
  intro d rest received hok hd
  obtain ⟨d', hr, hok', hb, hpos⟩ := hp hok hd
  refine ⟨d', ?_, hok', hb, hpos⟩
  rw [Decoding.onIo, Proc.run_zoom_of (s := (⟨d, received⟩ : Decoding A S)) hr, List.append_nil]

theorem pure (a : α) : Delivers (A := A) (S := S) (Pure.pure a) [] a [] :=
  fun d _ received hok _ => ⟨d, by rw [Proc.run_pure, List.append_nil], hok, rfl, by simp⟩

theorem receiver (op : Operation S) : Delivers (A := A) (Decoding.receiver op) [] () [op] :=
  fun d _ _ hok _ => ⟨d, rfl, hok, rfl, by simp⟩

theorem bind {p : Proc (Decoding A S) α} {f : α → Proc (Decoding A S) β} (hp : Delivers p bs a ops)
    (hf : Delivers (f a) cs b ops') : Delivers (p >>= f) (bs ++ cs) b (ops ++ ops') := by
  intro d rest received hok hd
  rw [List.append_assoc] at hd
  obtain ⟨d₁, h₁, hok₁, hb₁, hp₁⟩ := hp received hok hd
  obtain ⟨d₂, h₂, hok₂, hb₂, hp₂⟩ := hf (received ++ ops) hok₁ (by
    rw [hb₁, hp₁]; exact drop_of_drop hd)
  refine ⟨d₂, by rw [Proc.run_bind_of_ret h₁, h₂, List.append_assoc], hok₂, by rw [hb₂, hb₁], ?_⟩
  rw [hp₂, hp₁, List.length_append, Nat.add_assoc]

theorem io_bind {p : Proc A α} {f : α → Proc (Decoding A S) β} (hp : Reads p bs a)
    (hf : Delivers (f a) cs b ops) : Delivers (Decoding.onIo p >>= f) (bs ++ cs) b ops :=
  (onIo hp).bind hf

theorem of_eq {p : Proc (Decoding A S) α} (hp : Delivers p bs a ops) (h : bs = cs) :
    Delivers p cs a ops := h ▸ hp

theorem bind_pure {p : Proc (Decoding A S) α} {f : α → Proc (Decoding A S) β}
    (hp : Delivers p bs a ops) (hf : Delivers (f a) [] b []) : Delivers (p >>= f) bs b ops := by
  have h := hp.bind hf
  rwa [List.append_nil, List.append_nil] at h

theorem pure_bind {p : Proc (Decoding A S) α} {f : α → Proc (Decoding A S) β}
    (hp : Delivers p [] a []) (hf : Delivers (f a) bs b ops) : Delivers (p >>= f) bs b ops :=
  hp.bind hf

theorem require {c : Prop} [Decidable c] (h : c) :
    Delivers (A := A) (S := S) (Proc.require c) [] () [] :=
  fun d _ received hok _ => ⟨d, by rw [Proc.run_require_pos h, List.append_nil], hok, rfl, by simp⟩

theorem attempt {p : Proc (Decoding A S) α} (hp : Delivers p bs a ops) :
    Delivers p.attempt bs (some a) ops := by
  intro d rest received hok hd
  obtain ⟨d', hr, hd'⟩ := hp received hok hd
  exact ⟨d', Proc.run_attempt_of_ret hr, hd'⟩

end Delivers

/-- Among the fields that `P` selects, `f` is the one with its ID, which fits a byte. -/
structure Schema.Finds (S : Schema) (P : Field → Bool) (f : Field) : Prop where
  mem : f ∈ S
  selected : P f = true
  byte : 0 ≤ f.id ∧ f.id ≤ 255
  unique : ∀ g ∈ S, P g = true → g.id = f.id → g = f

theorem Schema.Finds.split {P : Field → Bool} {f : Field} (h : S.Finds P f) (hnodup : S.Nodup) :
    ∃ l r, S = l ++ f :: r ∧ (∀ g ∈ l, P g = true → g.id ≠ f.id) ∧ ∀ g ∈ r, P g = true → g.id ≠ f.id := by
  obtain ⟨l, r, rfl⟩ := List.append_of_mem h.mem
  obtain ⟨-, hr, hlr⟩ := List.nodup_append.1 hnodup
  refine ⟨l, r, rfl, fun g hg hP hid => ?_, fun g hg hP hid => ?_⟩
  · exact hlr g hg f (List.mem_cons_self ..) (h.unique g (List.mem_append_left _ hg) hP hid)
  · have heq := h.unique g (List.mem_append_right _ (List.mem_cons_of_mem _ hg)) hP hid
    exact (List.nodup_cons.1 hr).1 (heq ▸ hg)

theorem Schema.ByteIds.finds (hids : S.ByteIds) {P : Field → Bool} {f : Field} (hf : f ∈ S) (hP : P f = true) :
    S.Finds P f :=
  ⟨hf, hP, hids.2 f hf, fun _ hg _ hid => List.inj_on_of_nodup_map hids.1 hg hf hid⟩

namespace Operation

/-- Every field that the operation names is as `P` says, among those that `deserialize` looks at, and a
`Find` has as many as it reads. -/
def Names (P : (Field → Bool) → Field → Prop) : Operation S → Prop
  | insert _ => True
  | find fields => 0 < fields.length ∧ fields.length ≤ maxFieldCount ∧ ∀ f ∈ fields, P (fun _ => true) f.1
  | updateFull keyField _ _ _ => P (fun _ => true) keyField
  | appendToArray keyField arrayField _ _ => P (fun _ => true) keyField ∧ P Field.isArray arrayField
  | delete keyField _ => P (fun _ => true) keyField

/-- `deserialize` finds the fields of the operation, and no others, by their IDs. -/
def Replayable (op : Operation S) : Prop := op.Names S.Finds

theorem Names.mono {P Q : (Field → Bool) → Field → Prop} (h : ∀ sel f, P sel f → Q sel f) {op : Operation S}
    (hop : op.Names P) : op.Names Q := by
  cases op with
  | insert record => trivial
  | find fields => exact ⟨hop.1, hop.2.1, fun f hf => h _ _ (hop.2.2 f hf)⟩
  | updateFull keyField insertIfNotPresent record keyValue => exact h _ _ hop
  | appendToArray keyField arrayField keyValue payload => exact ⟨h _ _ hop.1, h _ _ hop.2⟩
  | delete keyField keyValue => exact h _ _ hop

theorem OverRecord.replayable (hids : S.ByteIds) {op : Operation S} (hop : op.OverRecord) : op.Replayable := by
  cases op with
  | insert record => trivial
  | find fields => exact ⟨hop.1, hop.2.1, fun f hf => hids.finds (hop.2.2 f hf).1 rfl⟩
  | updateFull keyField insertIfNotPresent record keyValue => exact hids.finds hop rfl
  | appendToArray keyField arrayField keyValue payload => exact ⟨hids.finds hop.1 rfl, hids.finds hop.2.1 hop.2.2⟩
  | delete keyField keyValue => exact hids.finds hop rfl

end Operation

theorem castUInt8_toNat {i : ℤ} (h : 0 ≤ i ∧ i ≤ 255) : ((castUInt8 i).toNat : ℤ) = i := by
  have hi : (i % 256).toNat < 256 := by omega
  rw [castUInt8, UInt8.toNat_ofNat_of_lt' hi]
  omega

namespace Serializer

/-- The lookup loop runs the body of the one field that is selected. -/
theorem delivers_forMatchingFields {fields l r : List Field} {f : Field} (hf : fields = l ++ f :: r)
    {isMatch : Field → Bool} (hl : ∀ g ∈ l, isMatch g = false) (hr : ∀ g ∈ r, isMatch g = false)
    (hm : isMatch f = true) {body : Field → Bool → Proc (Decoding A S) Bool} {bs : Bytes} {ops : List (Operation S)}
    (hbody : Delivers (body f false) bs true ops) :
    Delivers (forMatchingFields isMatch body fields) bs true ops := by
  subst hf
  have skip : ∀ (m : List Field) (success : Bool), (∀ g ∈ m, isMatch g = false) →
      m.foldlM (fun success f => if isMatch f then do
          let done ← (body f success).attempt
          return success || done.getD false
        else return success) success = (pure success : Proc (Decoding A S) Bool) := by
    intro m success hne
    induction m with
    | nil => rfl
    | cons g m ih =>
      rw [List.foldlM_cons, if_neg (ne_true_of_eq_false (hne g (List.mem_cons_self ..))), LawfulMonad.pure_bind,
        ih fun x hx => hne x (List.mem_cons_of_mem _ hx)]
  rw [forMatchingFields, List.foldlM_append, skip l false hl, LawfulMonad.pure_bind, List.foldlM_cons,
    if_pos hm]
  refine Delivers.bind_pure (a := true) ?_ (by rw [skip r true hr]; exact Delivers.pure true)
  exact hbody.attempt.bind_pure (Delivers.pure true)

theorem constructFindOperationType_succ {σ : Type} {fields l r : List Field} {f : Field}
    (hf : fields = l ++ f :: r) (hl : ∀ g ∈ l, g.id ≠ f.id) (hr : ∀ g ∈ r, g.id ≠ f.id)
    {receiver : List Field → Proc σ Unit} {ids : List UInt8} {n remaining : ℕ} {pack : List Field}
    (hid : ((ids.getD pack.length 0).toNat : ℤ) = f.id) :
    constructFindOperationType fields receiver ids n (remaining + 1) pack =
      if pack.length + 1 = n then receiver (pack ++ [f])
      else constructFindOperationType fields receiver ids n remaining (pack ++ [f]) := by
  have hne : ∀ g : Field, g.id ≠ f.id → ¬ g.id = (ids.getD pack.length 0).toNat :=
    fun g hg h => hg (h.trans hid)
  rw [constructFindOperationType]
  conv_lhs => arg 1; rw [hf]
  rw [Proc.forM_one (fun g hg => if_neg (hne g (hl g hg))) (fun g hg => if_neg (hne g (hr g hg))),
    if_pos hid.symm]

/-! ### Round trip -/

theorem reads_readByte (b : UInt8) : Reads (A := A) StorageIo.readByte [b] b :=
  (Reads.read ⟨[b], rfl⟩).map fun x => x.1.headD 0

theorem reads_readBool (b : Bool) : Reads (A := A) StorageIo.readBool (Operation.encodeBool b) b := by
  have h : Reads (A := A) StorageIo.readBool (Operation.encodeBool b) ((if b then 1 else 0 : UInt8) != 0) :=
    (reads_readByte _).map (· != 0)
  cases b <;> exact h

theorem reads_readFindFields (fields : List FieldValue)
    (h : ∀ f ∈ fields, f.1.valueType.Short f.2) :
    Reads (A := A) (readFindFields (fields.map Sigma.fst))
      (fields.map fun f => encodeValue f.1.valueType f.2).flatten fields := by
  induction fields with
  | nil => exact Reads.pure []
  | cons f fields ih =>
    rw [List.map_cons, List.map_cons, List.flatten_cons]
    exact (reads_readValue f.1.valueType f.2 (h f (List.mem_cons_self ..))).bind
      ((ih fun g hg => h g (List.mem_cons_of_mem _ hg)).map fun vs => ⟨f.1, f.2⟩ :: vs)

theorem reads_ids (fields : List FieldValue) :
    Reads (A := A) (StorageIo.readByte.times fields.length)
      (fields.map fun f => [castUInt8 f.1.id]).flatten (fields.map fun f => castUInt8 f.1.id) := by
  have h := Reads.times (A := A) (fields.map fun f => castUInt8 f.1.id) fun b _ => reads_readByte b
  rwa [List.length_map, List.map_map] at h

/-- The search for the types of a `Find` ends with the types it was made from. -/
theorem constructFindOperationType_eq (hnodup : S.Nodup) {σ : Type}
    (receiver : List Field → Proc σ Unit) {types : List Field} (hfinds : ∀ f ∈ types, S.Finds (fun _ => true) f)
    (h0 : 0 < types.length) (h2 : types.length ≤ Operation.maxFieldCount) :
    constructFindOperationType S receiver (types.map fun f => castUInt8 f.id) types.length
      Operation.maxFieldCount [] = receiver types := by
  -- at every level the next ID is the ID of the next type
  have step : ∀ (pre suf : List Field) (f : Field) (remaining : ℕ), types = pre ++ f :: suf →
      constructFindOperationType S receiver (types.map fun f => castUInt8 f.id) types.length
        (remaining + 1) pre =
      if pre.length + 1 = types.length then receiver (pre ++ [f])
      else constructFindOperationType S receiver (types.map fun f => castUInt8 f.id) types.length
        remaining (pre ++ [f]) := by
    intro pre suf f remaining htypes
    have hf := hfinds f (by simp [htypes])
    obtain ⟨l, r, hlr, hl, hr⟩ := hf.split hnodup
    refine constructFindOperationType_succ hlr (fun g hg => hl g hg rfl) (fun g hg => hr g hg rfl) ?_
    have hget : (types.map fun f => castUInt8 f.id).getD pre.length 0 = castUInt8 f.id := by
      simp [htypes]
    rw [hget]
    exact castUInt8_toNat hf.byte
  rcases types with _ | ⟨f, _ | ⟨g, _ | ⟨_, _⟩⟩⟩
  · exact absurd h0 (Nat.lt_irrefl 0)
  · exact step [] [] f 1 rfl
  · exact (step [] [g] f 1 rfl).trans (step [f] [] g 0 rfl)
  · simp [Operation.maxFieldCount] at h2

theorem delivers_lookup {P : Field → Bool} {f : Field} (hf : S.Finds P f) (hnodup : S.Nodup)
    {body : Field → Bool → Proc (Decoding A S) Bool} {bs : Bytes} {ops : List (Operation S)}
    (hbody : Delivers (body f false) bs true ops) :
    Delivers (forMatchingFields (fun g => P g && decide (g.id = ((castUInt8 f.id).toNat : ℤ))) body S) bs true
      ops := by
  obtain ⟨l, r, hlr, hl, hr⟩ := hf.split hnodup
  have hid : ((castUInt8 f.id).toNat : ℤ) = f.id := castUInt8_toNat hf.byte
  have hother : ∀ g : Field, (P g = true → g.id ≠ f.id) →
      (P g && decide (g.id = ((castUInt8 f.id).toNat : ℤ))) = false := by
    intro g hne
    rcases hg : P g
    · rfl
    · exact decide_eq_false (by rw [hid]; exact hne hg)
  refine delivers_forMatchingFields hlr (fun g hg => hother g (hl g hg)) (fun g hg => hother g (hr g hg)) ?_ hbody
  rw [hf.selected, hid]
  exact decide_eq_true rfl

theorem delivers_deserializeFind (hnodup : S.Nodup) {fields : List FieldValue}
    (hop : (Operation.find fields : Operation S).Replayable) (hshort : (Operation.find fields : Operation S).Short) :
    Delivers (A := A) (deserializeFind S) (Operation.encodeBody (.find fields : Operation S)) () [.find fields] := by
  obtain ⟨h0, h2, hfinds⟩ := hop
  have hlen : (UInt8.ofNat fields.length).toNat = fields.length := by
    rw [UInt8.toNat_ofNat_of_lt']
    exact Nat.lt_of_le_of_lt h2 (by decide)
  have htypes : ∀ f ∈ fields.map Sigma.fst, S.Finds (fun _ => true) f := by
    intro f hf
    obtain ⟨g, hg, rfl⟩ := List.mem_map.1 hf
    exact hfinds g hg
  have hfind := constructFindOperationType_eq hnodup (σ := Decoding A S)
    (fun types => do
      let fieldsTuple ← Decoding.onIo (readFindFields types)
      Decoding.receiver (.find fieldsTuple))
    htypes (by simpa using h0) (by simpa using h2)
  rw [List.map_map, List.length_map] at hfind
  refine Delivers.io_bind (reads_readByte _)
    (Delivers.pure_bind (Delivers.require (by rw [hlen]; exact ⟨h0, h2⟩)) ?_)
  rw [hlen]
  refine Delivers.io_bind (reads_ids fields) ?_
  refine Eq.mpr (congrArg (Delivers · _ _ _) hfind) ?_
  exact (Delivers.io_bind (reads_readFindFields fields hshort) (Delivers.receiver _)).of_eq (List.append_nil _)

theorem delivers_deserialize (hS : S.StaticFirst) (hnodup : S.Nodup) {op : Operation S}
    (hop : op.Replayable) (hshort : op.Short) :
    Delivers (A := A) (deserialize S) op.encode () [op] := by
  rw [Operation.encode, deserialize]
  refine Delivers.io_bind (reads_readByte op.opCode.toByte) ?_
  rw [OpCode.ofByte?_toByte]
  cases op with
  | insert record =>
    exact (Delivers.io_bind (DbRecordSerializer.reads_deserialize hS hshort)
      (Delivers.receiver _)).of_eq (List.append_nil _)
  | find fields => exact delivers_deserializeFind hnodup hop hshort
  | updateFull keyField insertIfNotPresent record keyValue =>
    have hkey : S.Finds (fun _ => true) keyField := hop
    refine Delivers.io_bind (reads_readByte _) (Delivers.io_bind (reads_readBool _)
      (Delivers.io_bind (DbRecordSerializer.reads_deserialize hS hshort.1) ?_))
    refine Delivers.bind_pure (delivers_lookup hkey hnodup ?_) (Delivers.require rfl)
    exact (Delivers.io_bind (reads_readValue _ keyValue hshort.2)
      ((Delivers.receiver _).bind_pure (Delivers.pure true))).of_eq (List.append_nil _)
  | appendToArray keyField arrayField keyValue payload =>
    obtain ⟨hkey, harray⟩ := hop
    refine Delivers.io_bind (reads_readByte _) (Delivers.io_bind (reads_readByte _)
      (Delivers.io_bind (reads_readBool _) ?_))
    refine Delivers.bind_pure (delivers_lookup hkey hnodup ?_) (Delivers.require rfl)
    refine Delivers.io_bind (reads_readValue _ keyValue hshort.1) (delivers_lookup harray hnodup ?_)
    cases payload with
    | inl record =>
      exact (Delivers.io_bind (DbRecordSerializer.reads_deserialize hS hshort.2)
        ((Delivers.receiver _).bind_pure (Delivers.pure true))).of_eq (List.append_nil _)
    | inr array =>
      exact (Delivers.io_bind (reads_readValue _ array hshort.2)
        ((Delivers.receiver _).bind_pure (Delivers.pure true))).of_eq (List.append_nil _)
  | delete keyField keyValue =>
    have hkey : S.Finds (fun _ => true) keyField := hop
    refine Delivers.io_bind (reads_readByte _) ?_
    refine Delivers.bind_pure (delivers_lookup hkey hnodup ?_) (Delivers.require rfl)
    exact (Delivers.io_bind (reads_readValue _ keyValue hshort)
      ((Delivers.receiver _).bind_pure (Delivers.pure true))).of_eq (List.append_nil _)

end Serializer
end

/-- **Round trip.** If `serialize` wrote an operation, then wherever the bytes it wrote are found again,
followed by anything, `deserialize` succeeds there, calls the receiver once with the same operation
and stops right after them. -/
theorem deserialize_serialize {A R : Type} [StorageAdapter A] [MemoryAdapter A] [StorageAdapter R]
    [ReadableAdapter R] {S : Schema} (hS : S.checkAssertions = true) (hids : S.ByteIds)
    {op : Operation S} (hop : op.OverRecord) (hshort : op.Short) {io io' : A} (hio : Ok io)
    (hser : (Serializer.serialize op).run io = (.ret (), io')) {input : R} {written rest : Bytes}
    (hinput : Ok input) (hwritten : written = slice (bytes io') (pos io) (pos io' - pos io))
    (hrest : (bytes input).drop (pos input) = written ++ rest) (received : List (Operation S)) :
    ∃ input', (Serializer.deserialize S).run ⟨input, received⟩ = (.ret (), ⟨input', received ++ [op]⟩) ∧
      bytes input' = bytes input ∧ pos input' = pos input + (pos io' - pos io) := by
  have hw := Serializer.writes_serialize (A := A) op
  have hfits : MemoryAdapter.Fits A (pos io + op.encode.length) := by
    by_contra hf
    obtain ⟨d, hd, -⟩ := hw.fail hio hf
    rw [hser] at hd
    cases hd
  obtain ⟨d, hd, -, hbytes, hpos⟩ := hw.ret hio hfits
  rw [hser] at hd
  cases hd
  have henc : written = op.encode := by
    rw [hwritten, hpos, hbytes, Nat.add_sub_cancel_left]
    exact slice_of_drop (drop_overwrite (ReadableAdapter.pos_le hio))
  rw [henc] at hrest
  obtain ⟨input', hrun, -, hb, hp⟩ := Serializer.delivers_deserialize
    (Schema.staticFirst_of_checkAssertions hS) (Schema.nodup_of_checkAssertions hS) (hop.replayable hids) hshort
    received hinput hrest
  exact ⟨input', hrun, hb, by rw [hp, hpos, Nat.add_sub_cancel_left]⟩

/-! A record with one string field, and the deletion of a record by its key. -/

def keyField : Field := { type := .string, id := 1 }

def keySchema : Schema := [keyField]

def deleteKey (key : Bytes) : Operation keySchema := .delete keyField key

theorem keySchema_checkAssertions : keySchema.checkAssertions = true := by decide

theorem keySchema_byteIds : keySchema.ByteIds := by
  refine ⟨by decide, fun f hf => ?_⟩
  rw [List.mem_singleton.1 hf]
  decide

theorem deleteKey_overRecord (key : Bytes) : (deleteKey key).OverRecord := List.mem_singleton_self _

theorem deleteKey_short {key : Bytes} (h : key.length < 2 ^ 32) : (deleteKey key).Short :=
  ⟨h, fun _ _ => trivial⟩

theorem encode_deleteKey {key : Bytes} (h : key.length < 2 ^ 32) :
    (deleteKey key).encode = [4, 1] ++ (leBytes 4 key.length ++ key) := by
  have hkey : encodeString key = leBytes 4 key.length ++ key := by
    rw [encodeString, Nat.mod_eq_of_lt h, List.take_length]
  rw [← hkey]
  rfl

theorem deserialize_serialize_deleteKey : ∃ input' : VectorAdapter,
    (Serializer.deserialize keySchema).run ⟨({ data := [4, 1, 1, 0, 0, 0, 97] } : VectorAdapter), []⟩ =
      (.ret (), ⟨input', [deleteKey [97]]⟩) ∧
    input'.data = [4, 1, 1, 0, 0, 0, 97] ∧ input'.pos = 7 := by
  obtain ⟨io', hser, -, hbytes, hpos⟩ := (Serializer.writes_serialize (deleteKey [97])).ret
    (d := ({} : VectorAdapter)) trivial trivial
  have henc : (deleteKey [97]).encode = [4, 1, 1, 0, 0, 0, 97] := encode_deleteKey (by decide)
  rw [henc] at hbytes hpos
  have hpos : io'.pos = 7 := hpos
  have hwritten : slice io'.data 0 (io'.pos - 0) = [4, 1, 1, 0, 0, 0, 97] := by
    have hdata : io'.data = [4, 1, 1, 0, 0, 0, 97] := hbytes
    rw [hdata, hpos]
    rfl
  obtain ⟨input', hrun, hb, hp⟩ := deserialize_serialize keySchema_checkAssertions keySchema_byteIds
    (deleteKey_overRecord [97]) (deleteKey_short (by decide)) (show Ok ({} : VectorAdapter) from trivial)
    hser (show Ok ({ data := [4, 1, 1, 0, 0, 0, 97] } : VectorAdapter) from trivial) hwritten.symm
    (show _ = [4, 1, 1, 0, 0, 0, 97] ++ [] from rfl) []
  refine ⟨input', hrun, hb, hp.trans ?_⟩
  change 0 + (io'.pos - 0) = 7
  rw [hpos]

end CppDb
