import CppDb.PageAddressing

/-!
# Runs of `DBStorage`

Records are only appended: whatever is written and read, and whatever these calls answer, the content of the storage
grows at its end (`extends_run`). So a page that could be read is read alike ever after, and so is a record
that was written where a page starts (`storage_lasts`). On a `QBuffer` a read grows the content too: the seek to a page
beyond the end fills it with zeros.
-/

namespace CppDb
open Embed
open RecordDevice (Holds AtEnd At Within)

/-- A device whose content only grows, whatever a call on it answers. -/
class GrowingDevice (A : Type) [StorageAdapter A] extends RecordDevice A where
  seekToEnd_grows {d : A} {bs : Bytes} (h : Holds d bs) : ∃ more, Holds (StorageAdapter.seekToEnd d).2 (bs ++ more)
  seek_grows {d : A} {bs : Bytes} {p : ℕ} (h : Holds d bs) (hp : p < 2 ^ 52) :
    ∃ more, Holds (StorageAdapter.seek p d).2 (bs ++ more)
  read_grows {d : A} {bs : Bytes} (h : Holds d bs) (n : ℕ) : ∃ more, Holds (StorageAdapter.read n d).2 (bs ++ more)
  write_grows {d : A} {bs : Bytes} (h : AtEnd d bs) (data : Bytes) :
    ∃ more, Holds (StorageAdapter.write data d).2 (bs ++ more)
  /-- A place that could be sought can be sought when there is more. -/
  seek_again {d d₁ d' : A} {bs more : Bytes} {p : ℕ} (h : Holds d bs) (h' : Holds d' (bs ++ more)) (hp : p < 2 ^ 52)
    (hseek : StorageAdapter.seek p d = (some (), d₁)) :
    ∃ d₁', StorageAdapter.seek p d' = (some (), d₁') ∧ Within d₁' ((bs ++ more).drop p)

instance : GrowingDevice VectorAdapter where
  seekToEnd_grows {d bs} h := by
    refine ⟨[], ?_⟩
    rw [show StorageAdapter.seekToEnd d = (some (), _) from dif_pos (Nat.le_refl d.data.length), List.append_nil]
    exact h
  seek_grows {d bs p} h _ := by
    refine ⟨[], ?_⟩
    rw [List.append_nil]
    by_cases hp : p ≤ d.data.length
    · rw [show StorageAdapter.seek p d = (some (), _) from dif_pos hp]
      exact h
    · rw [show StorageAdapter.seek p d = (none, _) from dif_neg hp]
      exact h
  read_grows {d bs} h n := by
    refine ⟨[], ?_⟩
    rw [List.append_nil]
    by_cases hn : d.pos + n ≤ d.data.length
    · rw [show StorageAdapter.read n d = (some _, _) from dif_pos hn]
      exact h
    · rw [show StorageAdapter.read n d = (none, _) from dif_neg hn]
      exact h
  write_grows {d bs} h data := by
    obtain ⟨rfl, hpos⟩ := h
    exact ⟨data, (VectorAdapter.overwrite_resized d data).trans (overwrite_end hpos.symm)⟩
  seek_again {d d₁ d' bs more p} h h' _ hseek := by
    have hle : p ≤ d.data.length := by
      by_contra hp
      rw [show StorageAdapter.seek p d = (none, _) from dif_neg hp] at hseek
      cases hseek
    have hmore : d'.data = d.data ++ more := by rw [show d'.data = bs ++ more from h', show d.data = bs from h]
    have hle' : p ≤ d'.data.length := by
      rw [hmore, List.length_append]
      omega
    refine ⟨_, dif_pos hle', ?_⟩
    change d'.data.drop p = _
    rw [show d'.data = bs ++ more from h']

instance : GrowingDevice (FopenAdapter 64) where
  seekToEnd_grows := by
    rintro d bs ⟨path, pos, hhandle, hcontent⟩
    refine ⟨[], path, (d.files.content path).length, ?_⟩
    simp [StorageAdapter.seekToEnd, FopenAdapter.seekToEnd, FopenAdapter.onHandle, hhandle, hcontent]
  seek_grows := by
    rintro d bs p ⟨path, pos, hhandle, hcontent⟩ hp
    rw [FopenAdapter.seek_of_toLong hhandle (toLong_of_lt (lt_pow_63 hp))]
    exact ⟨[], path, p, rfl, by rw [hcontent, List.append_nil]⟩
  read_grows := by
    rintro d bs ⟨path, pos, hhandle, hcontent⟩ n
    rw [FopenAdapter.read_eq hhandle rfl]
    exact ⟨[], path, _, rfl, by rw [hcontent, List.append_nil]⟩
  write_grows := by
    rintro d bs ⟨path, hhandle, hcontent⟩ data
    by_cases hdata : data = []
    · subst hdata
      rw [FopenAdapter.write_nil hhandle]
      exact ⟨[], path, _, hhandle, by rw [hcontent, List.append_nil]⟩
    · rw [FopenAdapter.write_append hhandle rfl rfl hdata]
      exact ⟨data, path, _, rfl, by simp [hcontent]⟩
  seek_again := by
    rintro d d₁ d' bs more p - ⟨path, pos, hhandle, hcontent⟩ hp -
    exact ⟨_, FopenAdapter.seek_of_toLong hhandle (toLong_of_lt (lt_pow_63 hp)), path, p, rfl, by rw [hcontent]⟩

instance : GrowingDevice QMemoryDeviceAdapter where
  seekToEnd_grows := by
    rintro d bs ⟨hmode, rfl⟩
    refine ⟨[], ?_⟩
    simp [Holds, StorageAdapter.seekToEnd, QMemoryDeviceAdapter.seekToEnd, hmode]
  seek_grows := by
    rintro d bs p ⟨hmode, rfl⟩ hp
    have hnum := toQint64_of_lt (lt_pow_63 hp)
    have hwritable : d.canWrite = true := by rw [QMemoryDeviceAdapter.canWrite, hmode]; rfl
    refine ⟨List.replicate (p - d.buffer.length) 0, ?_⟩
    simp [Holds, StorageAdapter.seek, QMemoryDeviceAdapter.seek, hwritable, hmode, hnum]
  read_grows := by
    rintro d bs ⟨hmode, rfl⟩ n
    rw [QMemoryDeviceAdapter.read_eq hmode]
    exact ⟨[], hmode, (List.append_nil _).symm⟩
  write_grows := by
    rintro d bs ⟨hmode, rfl, hpos⟩ data
    have hwritable : d.canWrite = true := by rw [QMemoryDeviceAdapter.canWrite, hmode]; rfl
    refine ⟨data, ?_⟩
    simp [Holds, StorageAdapter.write, QMemoryDeviceAdapter.write, hwritable, hmode, overwrite_end hpos.symm]
  seek_again := by
    rintro d d₁ d' bs more p - ⟨hmode, hbuffer⟩ hp -
    have hnum := toQint64_of_lt (lt_pow_63 hp)
    have hwritable : d'.canWrite = true := by rw [QMemoryDeviceAdapter.canWrite, hmode]; rfl
    refine ⟨{ d' with
      buffer := d'.buffer ++ List.replicate (p - d'.buffer.length) 0
      position := p }, ?_, hmode, ?_⟩
    · simp [StorageAdapter.seek, QMemoryDeviceAdapter.seek, hwritable, hmode, hnum]
    · rw [← hbuffer]
      exact drop_append_zeros ..

instance : GrowingDevice QFileAdapter where
  seekToEnd_grows := by
    rintro d bs ⟨hmode, rfl⟩
    refine ⟨[], ?_⟩
    simp [Holds, StorageAdapter.seekToEnd, QFileAdapter.seekToEnd, hmode, QFileAdapter.content]
  seek_grows := by
    rintro d bs p ⟨hmode, rfl⟩ hp
    have hnum := toQint64_of_lt (lt_pow_63 hp)
    refine ⟨[], ?_⟩
    simp [Holds, StorageAdapter.seek, QFileAdapter.seek, hmode, hnum, QFileAdapter.content]
  read_grows := by
    rintro d bs ⟨hmode, rfl⟩ n
    rw [QFileAdapter.read_eq hmode]
    exact ⟨[], hmode, (List.append_nil _).symm⟩
  write_grows := by
    rintro d bs ⟨hmode, rfl, hpos⟩ data
    have hwritable : d.canWrite = true := by rw [QFileAdapter.canWrite, hmode]; rfl
    refine ⟨data, ?_⟩
    simp [Holds, StorageAdapter.write, QFileAdapter.write, hwritable, hmode, hpos, QFileAdapter.content]
  seek_again := by
    rintro d d₁ d' bs more p - ⟨hmode, hcontent⟩ hp -
    have hnum := toQint64_of_lt (lt_pow_63 hp)
    refine ⟨{ d' with position := p }, ?_, hmode, ?_⟩
    · simp [StorageAdapter.seek, QFileAdapter.seek, hmode, hnum]
    · rw [← hcontent]
      rfl

/-! ### Reading and appending -/

section
variable {A : Type} [StorageAdapter A]

theorem keeps_readValue_of {P : A → Prop} (h : ∀ n, Proc.Keeps P (StorageIo.read n) fun _ => True) (t : ValueType) :
    Proc.Keeps P (StorageIo.readValue t) fun _ => True := by
  induction t with
  | trivial name n => exact h n
  | string => exact (h 4).bind fun n _ => (h (leNat n.1)).bind fun str _ => Proc.Keeps.pure trivial
  | vector t ih => exact (h 4).bind fun n _ => (ih.times (leNat n.1)).mono fun _ _ => trivial

theorem keeps_deserialize_of {P : A → Prop} (h : ∀ n, Proc.Keeps P (StorageIo.read n) fun _ => True) (S : Schema) :
    Proc.Keeps P (DbRecordSerializer.deserialize S) fun _ => True := by
  have hfields : ∀ buffer, Proc.Keeps P (DbRecordSerializer.readFields S buffer) fun _ => True := by
    induction S with
    | nil => exact fun _ => Proc.Keeps.pure trivial
    | cons f S ih =>
      intro buffer
      rw [DbRecordSerializer.readFields]
      split
      · exact (ih _).bind fun r _ => Proc.Keeps.pure trivial
      · exact (keeps_readValue_of h f.valueType).bind fun v _ => (ih buffer).bind fun r _ => Proc.Keeps.pure trivial
  exact (h _).bind fun buffer _ => hfields buffer.1

variable [GrowingDevice A]

/-- The content is `bs` and what came after it. -/
def Extends (bs : Bytes) (d : A) : Prop := ∃ more, Holds d (bs ++ more)

theorem Extends.of_holds {d : A} {bs : Bytes} (h : Holds d bs) : Extends bs d := ⟨[], by rwa [List.append_nil]⟩

theorem Extends.call {d d' : A} {bs : Bytes} (h : Extends bs d)
    (hcall : ∀ cs, Holds d cs → ∃ more, Holds d' (cs ++ more)) : Extends bs d' := by
  obtain ⟨more, hd⟩ := h
  obtain ⟨more', hd'⟩ := hcall _ hd
  exact ⟨more ++ more', by rwa [← List.append_assoc]⟩

theorem extends_ofCall {α : Type} {c : Call A α} {bs : Bytes}
    (hcall : ∀ d cs, Holds d cs → ∃ more, Holds (c d).2 (cs ++ more)) :
    Proc.Keeps (Extends bs) (Proc.ofCall c) fun _ => True := by
  intro d hd
  refine ⟨?_, fun _ _ => trivial⟩
  have hd' := hd.call (hcall d)
  rcases h : c d with ⟨_ | a, d'⟩
  all_goals rw [h] at hd'
  · rwa [Proc.run_ofCall_none h]
  · rwa [Proc.run_ofCall_some h]

theorem extends_readRecord (S : Schema) (p : PageNumber) (bs : Bytes) :
    Proc.Keeps (Extends (A := A) bs) (DbStorage.readRecord S p) fun _ => True :=
  (extends_ofCall fun _ _ h => GrowingDevice.seek_grows h (DbStorage.pageNumberToOffset_lt p)).bind fun _ _ =>
    keeps_deserialize_of (fun n => extends_ofCall fun _ _ h => GrowingDevice.read_grows h n) S

/-- `p` appends what it writes, and when it gives up, some of it. -/
def Appends (p : Proc A Unit) : Prop := ∀ ⦃d : A⦄ ⦃bs : Bytes⦄, AtEnd d bs →
  Extends bs (p.run d).2 ∧ ((p.run d).1 = .ret () → ∃ more, AtEnd (p.run d).2 (bs ++ more))

namespace Appends

theorem pure : Appends (A := A) (Pure.pure ()) := fun _ _ h =>
  ⟨.of_holds (RecordDevice.holds_of_atEnd h), fun _ => ⟨[], by rwa [List.append_nil]⟩⟩

theorem write (data : Bytes) : Appends (A := A) (StorageIo.write data) := by
  intro d bs h
  have hgrows := GrowingDevice.write_grows h data
  rcases hcall : StorageAdapter.write data d with ⟨_ | _, d'⟩
  all_goals rw [hcall] at hgrows
  · rw [StorageIo.write, Proc.run_ofCall_none hcall]
    refine ⟨hgrows, fun hret => ?_⟩
    cases hret
  · rw [StorageIo.write, Proc.run_ofCall_some hcall]
    exact ⟨hgrows, fun _ => ⟨data, RecordDevice.takes h hcall⟩⟩

theorem bind {p q : Proc A Unit} (hp : Appends p) (hq : Appends q) : Appends (p >>= fun _ => q) := by
  intro d bs h
  obtain ⟨hgrows, hret⟩ := hp h
  rcases hrun : p.run d with ⟨_ | _ | m | _, d'⟩
  all_goals rw [hrun] at hgrows hret
  · obtain ⟨more, hend⟩ := hret rfl
    obtain ⟨⟨more', hq'⟩, hretq⟩ := hq hend
    rw [Proc.run_bind_of_ret hrun]
    refine ⟨⟨more ++ more', by rwa [← List.append_assoc]⟩, fun hx => ?_⟩
    obtain ⟨last, hend'⟩ := hretq hx
    exact ⟨more ++ last, by rwa [← List.append_assoc]⟩
  · rw [Proc.run_bind_of_fail hrun]
    exact ⟨hgrows, fun hx => nomatch hx⟩
  · rw [Proc.run_bind_of_abort hrun]
    exact ⟨hgrows, fun hx => nomatch hx⟩
  · rw [Proc.run_bind_of_outOfFuel hrun]
    exact ⟨hgrows, fun hx => nomatch hx⟩

theorem forM {ι : Type} {k : ι → Proc A Unit} (h : ∀ x, Appends (k x)) (l : List ι) : Appends (l.forM k) := by
  induction l with
  | nil => exact pure
  | cons x l ih => exact (h x).bind ih

theorem writeValue (t : ValueType) (v : t.Value) : Appends (A := A) (StorageIo.writeValue t v) := by
  induction t with
  | trivial name n => exact write v.1
  | string => exact (write _).bind (write _)
  | vector t ih => exact (write _).bind (forM ih _)

theorem serialize {S : Schema} (r : DbRecord S) : Appends (A := A) (DbRecordSerializer.serialize r) := by
  have hfrom : ∀ n, Appends (A := A) (DbRecordSerializer.writeFrom r n) := by
    induction r with
    | nil => exact fun _ => pure
    | cons v r ih =>
      rintro (_ | n)
      · exact (writeValue _ v).bind (ih 0)
      · exact ih n
  exact (write _).bind (hfrom _)

end Appends

theorem extends_writeRecord {S : Schema} (r : DbRecord S) (bs : Bytes) :
    Proc.Keeps (Extends (A := A) bs) (DbStorage.writeRecord r) fun _ => True := by
  refine fun d hd => ⟨hd.call fun cs hcs => ?_, fun _ _ => trivial⟩
  have hgrows := GrowingDevice.seekToEnd_grows hcs
  rcases hcall : StorageAdapter.seekToEnd d with ⟨_ | _, d₁⟩
  all_goals rw [hcall] at hgrows
  · have hrun : StorageIo.seekToEnd.run d = (.fail, d₁) := Proc.run_ofCall_none hcall
    rw [DbStorage.writeRecord, Proc.run_bind_of_fail hrun]
    exact hgrows
  · have hrun : StorageIo.seekToEnd.run d = (.ret (), d₁) := Proc.run_ofCall_some hcall
    rw [DbStorage.writeRecord, Proc.run_bind_of_ret hrun]
    exact (Appends.serialize r (RecordDevice.seekToEnd hcs hcall)).1

end

/-! ### Runs -/

/-- A call of `DBStorage`; `_storageMutex` is held through it, so that the threads make one call after the other. -/
inductive StorageCall (S : Schema) where
  | read (recordStartLocation : PageNumber)
  | write (record : DbRecord S)

namespace DbStorage
variable {A : Type} [StorageAdapter A] {S : Schema} {d d' : A} {bs : Bytes}
open DbRecordSerializer

def step (d : A) : StorageCall S → A
  | .read p => ((readRecord S p).run d).2
  | .write r => ((writeRecord r).run d).2

variable [GrowingDevice A]

theorem extends_run (h : Extends bs d) (calls : List (StorageCall S)) : Extends bs (run step d calls) := by
  refine Along.invariant (fun d call hd _ => ?_) h (Along.of_forall (Q := fun _ => True) fun _ _ => trivial)
  cases call with
  | read p => exact (extends_readRecord S p bs d hd).1
  | write r => exact (extends_writeRecord r bs d hd).1

/-- A page is read alike when the content has grown. -/
theorem readRecord_extends (hS : S.StaticFirst) {more : Bytes} (h : Holds d bs) (h' : Holds d' (bs ++ more))
    {p : PageNumber} {r : DbRecord S} (hread : ((readRecord S p).run d).1 = .ret r) :
    ((readRecord S p).run d').1 = .ret r := by
  obtain ⟨d₂, hread⟩ := Proc.exists_run_eq hread
  obtain ⟨hshort, hpage⟩ := readRecord_sound hS h hread
  rw [readRecord] at hread
  rcases hseek : StorageAdapter.seek (pageNumberToOffset p) d with ⟨_ | _, d₁⟩
  · have hrun : (StorageIo.seek (pageNumberToOffset p)).run d = (.fail, d₁) := Proc.run_ofCall_none hseek
    rw [Proc.run_bind_of_fail hrun] at hread
    cases hread
  · obtain ⟨d₁', hseek', hwithin⟩ := GrowingDevice.seek_again h h' (pageNumberToOffset_lt p) hseek
    obtain ⟨rest, hrest⟩ : encode r <+: (bs ++ more).drop (pageNumberToOffset p) := by
      rw [List.drop_append]
      exact hpage.trans (List.prefix_append ..)
    rw [← hrest] at hwithin
    obtain ⟨d₂', hrun', -⟩ := decodes_deserialize hS hshort RecordDevice.follows hwithin
    have hstart : (StorageIo.seek (pageNumberToOffset p)).run d' = (.ret (), d₁') := Proc.run_ofCall_some hseek'
    rw [readRecord, Proc.run_bind_of_ret hstart, hrun']

/-- **What is stored stays.** After any calls the content is the old one and more. A page that could be read is
read alike, and where the first call has written a record at the start of a page, the record is read there. -/
theorem storage_lasts (hS : S.checkAssertions = true) (h : Holds d bs) {calls : List (StorageCall S)}
    (hd' : d' = run step d calls) :
    (∃ more, Holds d' (bs ++ more)) ∧
    (∀ p r, ((readRecord S p).run d).1 = .ret r → ((readRecord S p).run d').1 = .ret r) ∧
    ∀ p r later, calls = .write r :: later → r.Short → bs.length = pageNumberToOffset p →
      ((writeRecord r).run d).1 = .ret () → ((readRecord S p).run d').1 = .ret r := by
  subst hd'
  have hstatic := Schema.staticFirst_of_checkAssertions hS
  obtain ⟨more, hmore⟩ := extends_run (.of_holds h) calls
  refine ⟨⟨more, hmore⟩, fun p r hread => readRecord_extends hstatic h hmore hread, ?_⟩
  rintro p r later rfl hshort hpage hwrite
  obtain ⟨d₁, hwrite⟩ := Proc.exists_run_eq hwrite
  have hfirst : step d (.write r) = d₁ := congrArg Prod.snd hwrite
  have hstored : Holds d₁ (bs ++ encode r) := writeRecord_holds h hwrite
  obtain ⟨rest, hrest⟩ := extends_run (.of_holds hstored) later
  rw [run_cons, hfirst]
  have hat : encode r <+: (bs ++ encode r ++ rest).drop (pageNumberToOffset p) := by
    rw [← hpage, List.append_assoc, List.drop_left]
    exact List.prefix_append ..
  obtain ⟨d₂, hread⟩ := readRecord_ret hstatic hrest hshort hat (by simp [← hpage])
  rw [hread]

theorem storage_lasts_number : ∃ d d' : FopenAdapter 64,
    (openStorageFile "db").run { files := fun _ => none } = (.ret (), d) ∧
    d' = run step d [.write (number 1), .read (page 1), .write (number 2)] ∧
    (∃ more, Holds d' more) ∧ ((readRecord numberSchema (page 0)).run d').1 = .ret (number 1) := by
  obtain ⟨d, -, hopen, hempty, -⟩ := run_twoNumbers
  have hwrite : ((writeRecord (number 1)).run ((openStorageFile "db").run
      ({ files := fun _ => none } : FopenAdapter 64)).2).1 = .ret () := by decide
  rw [hopen] at hwrite
  obtain ⟨d', hd'⟩ : ∃ d', d' = run step d [.write (number 1), .read (page 1), .write (number 2)] := ⟨_, rfl⟩
  obtain ⟨hgrown, -, hread⟩ := storage_lasts (S := numberSchema) (by decide) hempty hd'
  exact ⟨d, d', hopen, hd', hgrown, hread (page 0) (number 1) _ rfl ⟨trivial, trivial⟩
    (pageNumberToOffset_page (n := 0) (by decide)).symm hwrite⟩

end DbStorage

end CppDb
