import CppDb.RecordInverse
import CppDb.Recovery

/-!
# Which operations can be replayed

The static assertions that an operation has to pass (`Operation.checkAssertions`) let operations into the log
that `deserialize` cannot make again: it looks the fields up in the record by their IDs, and takes no `Find`
without fields. Recovery is exact when what is unfinished is `Replayable`, and whatever `verifyLog` reports, on
any log, is over fields of the record (`received_verifyLog`); `reportsUnfinished` has both.
-/

namespace CppDb
open Embed
open StorageAdapter (pos)
open ReadableAdapter (Ok bytes)
open MemoryAdapter (Fits)

namespace Operation
variable {S : Schema}

/-- An ID passes `static_assert(id >= 0 && id <= 255)`. -/
def byteId (f : Field) : Bool := decide (0 ≤ f.id) && decide (f.id ≤ 255)

/-- The static assertions of the operation's type and of `serialize`. -/
def checkAssertions : Operation S → Bool
  | insert _ => true
  | find fields => decide (fields.length ≤ maxFieldCount) &&
      fields.all fun f => !f.1.isArray && decide (f.1.id ≤ 255)
  | updateFull keyField _ _ _ => S.contains keyField && byteId keyField
  | appendToArray keyField arrayField _ payload =>
      byteId keyField && byteId arrayField && (payload.isLeft || arrayField.isArray)
  | delete keyField _ => S.contains keyField && byteId keyField

/-- The operation is over fields of the record. -/
def InRecord (op : Operation S) : Prop := op.Names fun sel f => f ∈ S ∧ sel f = true

/-- With distinct IDs that fit a byte, what is over fields of the record can be replayed. -/
theorem inRecord_iff (hids : S.ByteIds) {op : Operation S} : op.InRecord ↔ op.Replayable := by
  constructor
  · exact fun h => h.mono fun _ _ hf => hids.finds hf.1 hf.2
  · exact fun h => h.mono fun _ _ hf => ⟨hf.mem, hf.selected⟩

end Operation

section
variable {A : Type} [StorageAdapter A] {S : Schema}

theorem keeps_readValue (t : ValueType) : Proc.Keeps (fun _ : A => True) (StorageIo.readValue t) t.Short := by
  induction t with
  | trivial name n => exact Proc.Keeps.any _
  | string =>
    refine (Proc.Keeps.any (StorageIo.read 4)).bind fun n _ => ?_
    refine (Proc.Keeps.any (StorageIo.read (leNat n.1))).bind fun str _ => Proc.Keeps.pure ⟨?_, fun _ _ => trivial⟩
    rw [str.2]
    exact leNat_raw_lt n
  | vector t ih =>
    refine (Proc.Keeps.any (StorageIo.read 4)).bind fun n _ => (ih.times (leNat n.1)).mono fun v hv => ⟨?_, hv.2⟩
    rw [hv.1]
    exact leNat_raw_lt n

theorem ValueType.Short.movedFrom {t : ValueType} {v : t.Value} (h : t.Short v) : t.Short (t.movedFrom v) := by
  cases t with
  | trivial name n => trivial
  | string => exact ⟨Nat.two_pow_pos 32, fun _ hx => absurd hx List.not_mem_nil⟩
  | vector t => exact ⟨Nat.two_pow_pos 32, fun _ hx => absurd hx List.not_mem_nil⟩

theorem DbRecord.Short.movedFrom {r : DbRecord S} (h : r.Short) : r.movedFrom.Short := by
  induction r with
  | nil => trivial
  | cons v r ih => exact ⟨h.1.movedFrom, ih h.2⟩

theorem keeps_readFields (S : Schema) (buffer : Bytes) :
    Proc.Keeps (fun _ : A => True) (DbRecordSerializer.readFields S buffer) DbRecord.Short := by
  induction S generalizing buffer with
  | nil => exact Proc.Keeps.pure trivial
  | cons f S ih =>
    rw [DbRecordSerializer.readFields]
    split
    · next hf =>
      have hstatic := ValueType.short_of_isTrivial (Field.isTrivial_of_static hf)
      exact (ih _).bind fun r hr => Proc.Keeps.pure ⟨hstatic _, hr⟩
    · exact (keeps_readValue f.valueType).bind fun v hv => (ih _).bind fun r hr => Proc.Keeps.pure ⟨hv, hr⟩

theorem keeps_deserializeRecord (S : Schema) :
    Proc.Keeps (fun _ : A => True) (DbRecordSerializer.deserialize S) DbRecord.Short :=
  (Proc.Keeps.any _).bind fun buffer _ => keeps_readFields S buffer.1

theorem keeps_readFindFields (types : List Field) : Proc.Keeps (fun _ : A => True) (Serializer.readFindFields types)
    fun fields => fields.map Sigma.fst = types ∧ ∀ f ∈ fields, f.1.valueType.Short f.2 := by
  induction types with
  | nil => exact Proc.Keeps.pure ⟨rfl, fun _ hf => absurd hf List.not_mem_nil⟩
  | cons f types ih =>
    refine (keeps_readValue f.valueType).bind fun v hv => ih.bind fun fields hfields => Proc.Keeps.pure ⟨?_, ?_⟩
    · rw [List.map_cons, hfields.1]
    · intro g hg
      rcases List.mem_cons.1 hg with rfl | hg
      · exact hv
      · exact hfields.2 g hg

/-- All that the receiver has been called with is over fields of the record, with short values. -/
def Decoding.Sound (s : Decoding A S) : Prop := ∀ op ∈ s.received, op.InRecord ∧ op.Short

namespace Decoding

omit [StorageAdapter A] in
theorem keeps_onIo {α : Type} {p : Proc A α} {Q : α → Prop} (hp : Proc.Keeps (fun _ => True) p Q) :
    Proc.Keeps (Decoding.Sound (S := S)) (onIo p) Q :=
  hp.zoom (fun _ _ => trivial) fun _ _ hs _ => hs

omit [StorageAdapter A] in
theorem keeps_receiver (op : Operation S) (h : op.InRecord ∧ op.Short) :
    Proc.Keeps (Decoding.Sound (A := A)) (receiver op) fun _ => True := by
  refine Proc.Keeps.modify fun s hs op' hop' => ?_
  rcases List.mem_append.1 hop' with hop' | hop'
  · exact hs op' hop'
  · rw [List.mem_singleton.1 hop']
    exact h

end Decoding

namespace Serializer
open Decoding

theorem keeps_forMatchingFields {σ : Type} {P : σ → Prop} {isMatch : Field → Bool}
    {body : Field → Bool → Proc σ Bool} {fields : List Field}
    (h : ∀ f ∈ fields, isMatch f = true → ∀ moved, Proc.Keeps P (body f moved) fun _ => True) :
    Proc.Keeps P (forMatchingFields isMatch body fields) fun _ => True := by
  refine Proc.Keeps.foldlM (fun f hf success => ?_) false
  split
  · next hmatch => exact (h f hf hmatch success).attempt.bind fun _ _ => Proc.Keeps.pure trivial
  · exact Proc.Keeps.pure trivial

theorem keeps_constructFindOperationType {σ : Type} {P : σ → Prop} {receiver : List Field → Proc σ Unit}
    {ids : List UInt8} {n : ℕ} (hreceiver : ∀ types : List Field, types.length = n → (∀ f ∈ types, f ∈ S) →
      Proc.Keeps P (receiver types) fun _ => True) (remaining : ℕ) {pack : List Field} (hpack : ∀ f ∈ pack, f ∈ S) :
    Proc.Keeps P (constructFindOperationType S receiver ids n remaining pack) fun _ => True := by
  induction remaining generalizing pack with
  | zero => exact Proc.Keeps.pure trivial
  | succ remaining ih =>
    refine Proc.Keeps.forM fun type htype => ?_
    have htypes : ∀ f ∈ pack ++ [type], f ∈ S := by
      intro f hf
      rcases List.mem_append.1 hf with hf | hf
      · exact hpack f hf
      · rwa [List.mem_singleton.1 hf]
    split
    · split
      · next hn => exact hreceiver _ (by rw [List.length_append, List.length_singleton, hn]) htypes
      · exact ih htypes
    · exact Proc.Keeps.pure trivial

theorem keeps_deserializeInsert (S : Schema) :
    Proc.Keeps (Decoding.Sound (A := A)) (deserializeInsert S) fun _ => True := by
  refine (keeps_onIo (keeps_deserializeRecord S)).bind fun r hr => ?_
  exact keeps_receiver (.insert r) ⟨trivial, hr⟩

theorem keeps_deserializeFind (S : Schema) :
    Proc.Keeps (Decoding.Sound (A := A)) (deserializeFind S) fun _ => True := by
  refine (keeps_onIo (Proc.Keeps.any _)).bind fun nFields _ => ?_
  refine (Proc.Keeps.require _).bind fun _ hn => ?_
  refine (keeps_onIo (Proc.Keeps.any _)).bind fun ids _ => ?_
  refine keeps_constructFindOperationType (fun types hlen htypes => ?_) _ fun _ hf => absurd hf List.not_mem_nil
  refine (keeps_onIo (keeps_readFindFields types)).bind fun fields hfields => ?_
  have hlength : fields.length = nFields.toNat := by rw [← hlen, ← hfields.1, List.length_map]
  have hin : ∀ f ∈ fields, f.1 ∈ S := fun f hf => htypes _ (hfields.1 ▸ List.mem_map_of_mem hf)
  exact keeps_receiver (.find fields)
    ⟨⟨hlength ▸ hn.1, hlength ▸ hn.2, fun f hf => ⟨hin f hf, rfl⟩⟩, hfields.2⟩

theorem keeps_deserializeUpdateFull (S : Schema) :
    Proc.Keeps (Decoding.Sound (A := A)) (deserializeUpdateFull S) fun _ => True := by
  refine (keeps_onIo (Proc.Keeps.any _)).bind fun keyFieldId _ => ?_
  refine (keeps_onIo (Proc.Keeps.any _)).bind fun insertIfNotPresent _ => ?_
  refine (keeps_onIo (keeps_deserializeRecord S)).bind fun r hr => ?_
  refine (keeps_forMatchingFields fun keyField hkey _ moved => ?_).bind fun _ _ =>
    (Proc.Keeps.require _).mono fun _ _ => trivial
  refine (keeps_onIo (keeps_readValue _)).bind fun v hv => ?_
  have hleft : (if moved then r.movedFrom else r).Short := by
    split
    · exact hr.movedFrom
    · exact hr
  refine (keeps_receiver (.updateFull keyField insertIfNotPresent _ v) ⟨⟨hkey, rfl⟩, hleft, hv⟩).bind fun _ _ => ?_
  exact Proc.Keeps.pure trivial

theorem keeps_deserializeAppendToArray (S : Schema) :
    Proc.Keeps (Decoding.Sound (A := A)) (deserializeAppendToArray S) fun _ => True := by
  refine (keeps_onIo (Proc.Keeps.any _)).bind fun keyFieldId _ => ?_
  refine (keeps_onIo (Proc.Keeps.any _)).bind fun arrayFieldId _ => ?_
  refine (keeps_onIo (Proc.Keeps.any _)).bind fun insertIfNotPresent _ => ?_
  refine (keeps_forMatchingFields fun keyField hkey _ _ => ?_).bind fun _ _ =>
    (Proc.Keeps.require _).mono fun _ _ => trivial
  refine (keeps_onIo (keeps_readValue _)).bind fun v hv => ?_
  refine keeps_forMatchingFields fun arrayField harray hmatch moved => ?_
  have hnames : (keyField ∈ S ∧ true = true) ∧ arrayField ∈ S ∧ arrayField.isArray = true :=
    ⟨⟨hkey, rfl⟩, harray, (Bool.and_eq_true_iff.1 hmatch).1⟩
  have hleft : keyField.valueType.Short (if moved then keyField.valueType.movedFrom v else v) := by
    split
    · exact hv.movedFrom
    · exact hv
  dsimp only
  split
  · refine (keeps_onIo (keeps_deserializeRecord S)).bind fun r hr => ?_
    refine (keeps_receiver (.appendToArray keyField arrayField _ (.inl r)) ⟨hnames, hleft, hr⟩).bind fun _ _ => ?_
    exact Proc.Keeps.pure trivial
  · refine (keeps_onIo (keeps_readValue _)).bind fun a ha => ?_
    refine (keeps_receiver (.appendToArray keyField arrayField _ (.inr a)) ⟨hnames, hleft, ha⟩).bind fun _ _ => ?_
    exact Proc.Keeps.pure trivial

theorem keeps_deserializeDelete (S : Schema) :
    Proc.Keeps (Decoding.Sound (A := A)) (deserializeDelete S) fun _ => True := by
  refine (keeps_onIo (Proc.Keeps.any _)).bind fun keyFieldId _ => ?_
  refine (keeps_forMatchingFields fun keyField hkey _ _ => ?_).bind fun _ _ =>
    (Proc.Keeps.require _).mono fun _ _ => trivial
  refine (keeps_onIo (keeps_readValue _)).bind fun v hv => ?_
  refine (keeps_receiver (.delete keyField v) ⟨⟨hkey, rfl⟩, hv⟩).bind fun _ _ => ?_
  exact Proc.Keeps.pure trivial

theorem keeps_deserialize (S : Schema) : Proc.Keeps (Decoding.Sound (A := A)) (deserialize S) fun _ => True := by
  refine (keeps_onIo (Proc.Keeps.any _)).bind fun entryType _ => ?_
  split
  · exact keeps_deserializeInsert S
  · exact keeps_deserializeFind S
  · exact keeps_deserializeUpdateFull S
  · exact keeps_deserializeAppendToArray S
  · exact keeps_deserializeDelete S
  · exact Proc.Keeps.abort _

end Serializer

end

/-! ### What `verifyLog` reports -/

namespace Verification
variable {B : ℕ → Type} {A : Type} {S : Schema}

/-- All that the receiver has been called with is over fields of the record, with short values. -/
def Sound (v : Verification B A S) : Prop := ∀ op ∈ v.received, op.InRecord ∧ op.Short

theorem keeps_onLogFile {α : Type} (p : Proc A α) : Proc.Keeps (Sound (B := B) (S := S)) (onLogFile p) fun _ => True :=
  (Proc.Keeps.any p).zoom (fun _ _ => trivial) fun _ _ hv _ => hv

variable [StaticDataBuffer B]

/-- What is done with the entries of a block keeps `P`. -/
structure KeptByEntries (P : Verification B A S → Prop) : Prop where
  buffer (v : Verification B A S) (b : StaticBufferAdapter B BlockSize) (h : P v) : P { v with blockBuffer := b }
  completed (v : Verification B A S) (ids : List OpID) (h : P v) : P { v with completedOperations := ids }
  decoding : Proc.Keeps P (onDecoding (Serializer.deserialize S)) fun _ => True

theorem keptByEntries_sound : KeptByEntries (Sound (B := B) (A := A) (S := S)) where
  buffer _ _ h := h
  completed _ _ h := h
  decoding := (Serializer.keeps_deserialize S).zoom (fun _ hv => hv) fun _ _ _ hs => hs

section
variable {P : Verification B A S → Prop} (hP : KeptByEntries P)
include hP

theorem keeps_onBlockBuffer {α : Type} (p : Proc (StaticBufferAdapter B BlockSize) α) :
    Proc.Keeps P (onBlockBuffer p) fun _ => True :=
  (Proc.Keeps.any p).zoom (fun _ _ => trivial) fun v b hv _ => hP.buffer v b hv

theorem keeps_verifyEntry (pass : ℕ) : Proc.Keeps P (verifyEntry pass) fun _ => True := by
  refine Proc.Keeps.read.bind fun v₀ _ => (keeps_onBlockBuffer hP _).bind fun wholeEntrySize _ => ?_
  refine (Proc.Keeps.require _).bind fun _ _ => (keeps_onBlockBuffer hP _).bind fun operationId _ => ?_
  refine (Proc.Keeps.require _).bind fun _ _ => Proc.Keeps.read.bind fun v₁ _ => ?_
  have hskip : ∀ (c : Prop) [Decidable c] (p : ℕ), Proc.Keeps P
      (if c then onBlockBuffer (StorageIo.seek p) else onDecoding (Serializer.deserialize S)) fun _ => True := by
    intro c _ p
    split
    · exact keeps_onBlockBuffer hP _
    · exact hP.decoding
  dsimp only
  split
  · refine (keeps_onBlockBuffer hP _).bind fun isMarker _ => ?_
    split
    · refine Proc.Keeps.bind (Q := fun _ => True) (Proc.Keeps.modify fun v hv => ?_) fun _ _ => hskip _ _
      exact hP.completed v _ hv
    · exact hskip _ _
  · exact hskip _ _

theorem keeps_verifyEntries (pass itemCount : ℕ) : Proc.Keeps P (verifyEntries pass itemCount) fun _ => True := by
  induction itemCount with
  | zero => exact Proc.Keeps.pure trivial
  | succ n ih => exact (keeps_verifyEntry hP pass).bind fun _ _ => ih

end

omit [StaticDataBuffer B] in
theorem keeps_malformedBlock {P : Verification B A S → Prop} (isLastBlock : Bool) :
    Proc.Keeps P (malformedBlock isLastBlock) fun _ => True := by
  unfold malformedBlock
  split
  · exact Proc.Keeps.pure trivial
  · exact Proc.Keeps.abort _

variable [StorageAdapter A] [Wheathash]

theorem keeps_verifyBlock (pass : ℕ) :
    Proc.Keeps (Sound (B := B) (A := A) (S := S)) (verifyBlock pass) fun _ => True := by
  refine Proc.Keeps.read.bind fun v₀ _ => (keeps_onLogFile _).attempt.bind fun data _ => ?_
  split
  · exact keeps_malformedBlock _
  · refine Proc.Keeps.bind (Q := fun _ => True) (Proc.Keeps.modify fun _ hv => ?_) fun _ _ =>
      Proc.Keeps.read.bind fun v₁ _ => ?_
    · exact hv
    dsimp only
    split
    · exact keeps_malformedBlock _
    · refine (keeps_onBlockBuffer keptByEntries_sound _).bind fun itemCount _ => ?_
      refine (Proc.Keeps.require _).bind fun _ _ => ?_
      exact keeps_verifyEntries keptByEntries_sound pass _

theorem keeps_verifyBlocks (pass fuel : ℕ) :
    Proc.Keeps (Sound (B := B) (A := A) (S := S)) (verifyBlocks pass fuel) fun _ => True := by
  induction fuel with
  | zero => exact Proc.Keeps.outOfFuel
  | succ fuel ih =>
    refine Proc.Keeps.read.bind fun v₀ _ => ?_
    dsimp only
    split
    · exact (keeps_verifyBlock pass).bind fun _ _ => ih
    · exact Proc.Keeps.pure trivial

theorem keeps_verify (fuel : ℕ) : Proc.Keeps (Sound (B := B) (A := A) (S := S)) (verify fuel) fun _ => True := by
  refine Proc.Keeps.read.bind fun v₀ _ => (Proc.Keeps.require _).bind fun _ _ => ?_
  refine Proc.Keeps.bind (Q := fun _ => True) (Proc.Keeps.modify fun _ hv => ?_) fun _ _ =>
    (keeps_verifyBlocks 1 fuel).bind fun _ _ => ?_
  · exact hv
  exact (keeps_onLogFile _).bind fun _ _ => keeps_verifyBlocks 2 fuel

end Verification

section
variable {B : ℕ → Type} [StaticDataBuffer B] {A : Type} [StorageAdapter A] [Wheathash] {S : Schema}

/-- Whatever the log holds, what is reported is over fields of the record. -/
theorem received_verifyLog (w : DbWAL B A) (fuel : ℕ) : ∀ op ∈ (w.verifyLog S fuel).2.2, op.InRecord ∧ op.Short :=
  (Verification.keeps_verify fuel { logFile := w.logFile, blockBuffer := .new } fun _ hop =>
    absurd hop List.not_mem_nil).1

/-- `verifyLog` succeeds and reports exactly `ops`. -/
def DbWAL.Reports (w : DbWAL B A) (fuel : ℕ) (ops : List (Operation S)) : Prop :=
  (w.verifyLog S fuel).1 = .ret () ∧ (w.verifyLog S fuel).2.2 = ops

theorem DbWAL.Reports.inRecord {w : DbWAL B A} {fuel : ℕ} {ops : List (Operation S)} (h : w.Reports fuel ops) :
    ∀ op ∈ ops, op.InRecord ∧ op.Short :=
  h.2 ▸ received_verifyLog w fuel

variable [LogDevice A] {T : Type} [DecidableEq T]

theorem reopened_run {d : A} (hd : Ok d) (hclosed : LogDevice.isOpen d = false) (hempty : bytes d = [])
    (filePath : String) {ls : List (Label S T)} (hcalls : ∀ l ∈ ls, l ≠ .closeLogFile) (hsmall : ∀ l ∈ ls, l.Small)
    {s : System B A S T} (hs : s = run System.step (System.opened d filePath) ls) (hissued : s.issued < 2 ^ 32)
    (hfits : s.wal.blockItemCount ≠ 0 → Fits A ((bytes s.wal.logFile).length + BlockSize)) :
    ∃ (closed : DbWAL B A) (blocks : List (List (Entry S))),
      DbWAL.closeLogFile.run s.wal = (.ret (), closed) ∧ blocks.flatten = s.placed ∧
      (∀ es ∈ blocks, GoodBlock es) ∧
      ∀ (w : DbWAL B A), w.logFile = closed.logFile → ∀ filePath', ∃ reopened,
        (DbWAL.openLogFile filePath').run w = (.ret (), reopened) ∧ Ok reopened.logFile ∧
        bytes reopened.logFile = (blocks.map encodeBlock).flatten ∧ pos reopened.logFile = 0 := by
  subst hs
  have hrun := holds_session hd hclosed hempty filePath hcalls hsmall hissued
  obtain ⟨closed, blocks, hclose, hflat, hgood, ⟨hok, hbytes⟩, hpos, hshut⟩ := closeLogFile_ret hrun.log hfits
  refine ⟨closed, blocks, hclose, hflat, hgood, fun w hw filePath' => ?_⟩
  rw [← hw] at hok hbytes hpos hshut
  obtain ⟨reopened, hopen, hok', hb, hp⟩ := openLogFile_ret hok hshut filePath'
  exact ⟨reopened, hopen, hok', hb.trans hbytes, hp.trans hpos⟩

/-- **No poisoned logs**, as long as what is unfinished can be replayed: then `verifyLog` reports exactly that,
whatever else was logged. It never does when an operation over other fields is unfinished, so for a record
whose fields have distinct IDs there is no other case. -/
theorem reportsUnfinished (hS : S.checkAssertions = true) {d : A} (hd : Ok d) (hclosed : LogDevice.isOpen d = false)
    (hempty : bytes d = []) (filePath : String) {ls : List (Label S T)} (hcalls : ∀ l ∈ ls, l ≠ .closeLogFile)
    (hsmall : ∀ l ∈ ls, l.Small) {s : System B A S T} (hs : s = run System.step (System.opened d filePath) ls)
    (hissued : s.issued < 2 ^ 32)
    (hfits : s.wal.blockItemCount ≠ 0 → Fits A ((bytes s.wal.logFile).length + BlockSize)) :
    ∃ closed, DbWAL.closeLogFile.run s.wal = (.ret (), closed) ∧
      ∀ (w : DbWAL B A), w.logFile = closed.logFile → ∀ filePath', ∃ reopened,
        (DbWAL.openLogFile filePath').run w = (.ret (), reopened) ∧
        ((∀ x ∈ unfinished s.placed, x.2.Replayable ∧ x.2.Short) →
          ∀ fuel, (bytes reopened.logFile).length / BlockSize < fuel →
            reopened.Reports fuel ((unfinished s.placed).map Prod.snd)) ∧
        (∀ fuel, reopened.Reports fuel ((unfinished s.placed).map Prod.snd) →
          ∀ x ∈ unfinished s.placed, x.2.InRecord ∧ x.2.Short) ∧
        (S.ByteIds → ∀ fuel, (bytes reopened.logFile).length / BlockSize < fuel →
          (reopened.Reports fuel ((unfinished s.placed).map Prod.snd) ↔
            ∀ x ∈ unfinished s.placed, x.2.InRecord ∧ x.2.Short)) := by
  obtain ⟨closed, blocks, hclose, hflat, hgood, hreopen⟩ :=
    reopened_run hd hclosed hempty filePath hcalls hsmall hs hissued hfits
  refine ⟨closed, hclose, fun w hw filePath' => ?_⟩
  obtain ⟨reopened, hopen, hok, hbytes, hpos⟩ := hreopen w hw filePath'
  have hlog : bytes reopened.logFile = (blocks.map encodeBlock).flatten ++ [] := by rw [hbytes, List.append_nil]
  have hexact : (∀ x ∈ unfinished s.placed, x.2.Replayable ∧ x.2.Short) →
      ∀ fuel, (bytes reopened.logFile).length / BlockSize < fuel →
        reopened.Reports fuel ((unfinished s.placed).map Prod.snd) := by
    intro hreplayable fuel hfuel
    rw [← hflat] at hreplayable ⊢
    obtain ⟨hret, hreceived, -⟩ := verifyLog_of_replays hgood (fun x hx =>
      Serializer.delivers_deserialize (Schema.staticFirst_of_checkAssertions hS) (Schema.nodup_of_checkAssertions hS)
        (hreplayable x hx).1 (hreplayable x hx).2) (.inl (by decide)) hok hpos hlog (fuel_of_length hgood hlog hfuel)
    exact ⟨hret, hreceived⟩
  have honly : ∀ fuel, reopened.Reports fuel ((unfinished s.placed).map Prod.snd) →
      ∀ x ∈ unfinished s.placed, x.2.InRecord ∧ x.2.Short := by
    intro fuel hreports x hx
    exact hreports.inRecord x.2 (List.mem_map_of_mem hx)
  refine ⟨reopened, hopen, hexact, honly, fun hids fuel hfuel => ⟨honly fuel, fun hin => ?_⟩⟩
  exact hexact (fun x hx => ⟨(Operation.inRecord_iff hids).1 (hin x hx).1, (hin x hx).2⟩) fuel hfuel

end

open ByteSum in
theorem reportsUnfinished_keyCalls :
    ∃ s : System ListBuffer VectorAdapter keySchema Unit, s = run System.step (System.opened {} "") keyCalls ∧
      ∃ closed, DbWAL.closeLogFile.run s.wal = (.ret (), closed) ∧
        ∃ reopened, (DbWAL.openLogFile "").run closed = (.ret (), reopened) ∧
          ∀ fuel, (bytes reopened.logFile).length / BlockSize < fuel →
            reopened.Reports fuel ((unfinished s.placed).map Prod.snd) := by
  refine ⟨_, rfl, ?_⟩
  have hissued : (run System.step (System.opened {} "") keyCalls :
      System ListBuffer VectorAdapter keySchema Unit).issued < 2 ^ 32 :=
    Nat.lt_of_le_of_lt (System.issued_run_le _ _) (by decide)
  obtain ⟨closed, hclose, hreopen⟩ := reportsUnfinished (B := ListBuffer) (T := Unit) keySchema_checkAssertions
    (d := ({} : VectorAdapter)) trivial rfl rfl "" (show ∀ l ∈ keyCalls, l ≠ .closeLogFile by simp [keyCalls])
    (fun _ => keyCalls_small) rfl hissued fun _ => trivial
  obtain ⟨reopened, hopen, hreports, -⟩ := hreopen closed rfl ""
  refine ⟨closed, hclose, reopened, hopen, hreports fun x hx => ?_⟩
  have hbody : x.2.OverRecord ∧ x.2.Short := System.ok_run (fun _ he => absurd he List.not_mem_nil)
    (fun _ => keyCalls_ok) _ (mem_unfinished.1 hx).1
  exact ⟨hbody.1.replayable keySchema_byteIds, hbody.2⟩

/-! ### Operations that nothing can replay -/

/-- A string field and an array field that no record of `keySchema` has. -/
def otherField : Field := { type := .string, id := 2 }

def otherArray : Field := { type := .string, id := 3, isArray := true }

/-- A search for nothing, one by a field that the record does not have, and an array to append to that it does not
have. -/
def strayOperations : List (Operation keySchema) :=
  [.find [], .find [⟨otherField, [97]⟩], .appendToArray keyField otherArray [97] (.inr [])]

theorem strayOperations_checked : ∀ op ∈ strayOperations, op.checkAssertions = true ∧
    (EntryBody.operation op).size ≤ MaxEntrySize := by
  decide

theorem strayOperations_not_inRecord {op : Operation keySchema} (hop : op ∈ strayOperations) : ¬ op.InRecord := by
  simp only [strayOperations, List.mem_cons, List.not_mem_nil, or_false] at hop
  rcases hop with rfl | rfl | rfl
  · exact fun h => Nat.lt_irrefl 0 h.1
  · exact fun h => absurd (h.2.2 _ (List.mem_singleton_self _)).1 (by decide)
  · exact fun h => absurd h.2.1 (by decide)

section
variable [Wheathash]

/-- Such an operation is accepted, and then its log is not replayed. -/
theorem not_reports_stray {op : Operation keySchema} (hop : op ∈ strayOperations) :
    ∃ s : System ListBuffer VectorAdapter keySchema Unit,
      s = run System.step (System.opened {} "") [.request () (.registerOperation op 0)] ∧
      s.placed = [⟨1, .operation op⟩] ∧
      ∃ closed, DbWAL.closeLogFile.run s.wal = (.ret (), closed) ∧
        ∃ reopened, (DbWAL.openLogFile "").run closed = (.ret (), reopened) ∧
          ∀ fuel, ¬ reopened.Reports fuel [op] := by
  have hsize := (strayOperations_checked op hop).2
  obtain ⟨b, -, hstep⟩ := System.step_first (B := ListBuffer) (T := Unit) ({} : VectorAdapter) "" () _ hsize
  have hsmall : ∀ l ∈ [(.request () (.registerOperation op 0) : Label keySchema Unit)], l.Small := by
    intro l hl
    rw [List.mem_singleton.1 hl]
    exact hsize
  have hissued : (run System.step (System.opened {} "") [.request () (.registerOperation op 0)] :
      System ListBuffer VectorAdapter keySchema Unit).issued < 2 ^ 32 := by
    rw [run_cons, run_nil, hstep]
    exact (by decide : 1 < 2 ^ 32)
  obtain ⟨closed, _, hclose, -, -, hreopen⟩ := reopened_run (d := ({} : VectorAdapter)) trivial rfl rfl "" (by simp)
    hsmall rfl hissued fun _ => trivial
  obtain ⟨reopened, hopen, -⟩ := hreopen closed rfl ""
  refine ⟨_, rfl, ?_, closed, hclose, reopened, hopen, fun fuel hreports => ?_⟩
  · rw [run_cons, run_nil, hstep]
  · exact strayOperations_not_inRecord hop (hreports.inRecord op (List.mem_singleton_self _)).1

end

open ByteSum in
/-- A `Find` without fields passes the static assertions and gets an ID, and `verifyLog` fails on its log. -/
theorem not_reportsUnfinished : (.find [] : Operation keySchema).checkAssertions = true ∧
    (EntryBody.operation (.find [] : Operation keySchema)).size ≤ MaxEntrySize ∧
    ∃ s : System ListBuffer VectorAdapter keySchema Unit,
      s = run System.step (System.opened {} "") [.request () (.registerOperation (.find []) 0)] ∧
      s.placed = [⟨1, .operation (.find [])⟩] ∧
      ∃ closed, DbWAL.closeLogFile.run s.wal = (.ret (), closed) ∧
        ∃ reopened, (DbWAL.openLogFile "").run closed = (.ret (), reopened) ∧
          ∀ fuel, ¬ reopened.Reports fuel [(.find [] : Operation keySchema)] :=
  have hmem : (.find [] : Operation keySchema) ∈ strayOperations := List.mem_cons_self ..
  ⟨(strayOperations_checked _ hmem).1, (strayOperations_checked _ hmem).2, not_reports_stray hmem⟩

end CppDb
