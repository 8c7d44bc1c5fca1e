import CppDb.DbStorage
import CppDb.RecordInverse
import CppDb.Restart

/-!
# Reading records back by page

`writeRecord` appends and `readRecord` starts at a multiple of 4096. `readable_iff` says which of the records that
were written have a page number they can be read by.
-/

namespace CppDb
open Embed

/-- A device open for reading and writing, as `DBStorage` uses it: what is written at the end is appended, and
what is read from a position is what is there. -/
class RecordDevice (A : Type) [StorageAdapter A] where
  /-- The content. -/
  Holds : A → Bytes → Prop
  /-- The content, with the cursor at its end. -/
  AtEnd : A → Bytes → Prop
  /-- The bytes still to come, none when the cursor is beyond the end. -/
  At : A → Bytes → Prop
  /-- Likewise, with the cursor not beyond the end. -/
  Within : A → Bytes → Prop
  holds_of_atEnd {d : A} {bs : Bytes} (h : AtEnd d bs) : Holds d bs
  seekToEnd {d d' : A} {bs : Bytes} (h : Holds d bs) (hseek : StorageAdapter.seekToEnd d = (some (), d')) : AtEnd d' bs
  takes : Takes AtEnd
  seek_at {d d' : A} {bs : Bytes} {p : ℕ} (h : Holds d bs) (hp : p < 2 ^ 52)
    (hseek : StorageAdapter.seek p d = (some (), d')) : At d' (bs.drop p)
  seek_within {d : A} {bs : Bytes} {p : ℕ} (h : Holds d bs) (hp : p < 2 ^ 52) (hle : p ≤ bs.length) :
    ∃ d', StorageAdapter.seek p d = (some (), d') ∧ Within d' (bs.drop p)
  faithful : Faithful At
  follows : Follows Within

theorem lt_pow_63 {p : ℕ} (h : p < 2 ^ 52) : p < 2 ^ 63 := Nat.lt_trans h (by decide)

instance : RecordDevice VectorAdapter where
  Holds a bs := a.data = bs
  AtEnd a bs := a.data = bs ∧ a.pos = bs.length
  At a rest := a.data.drop a.pos = rest
  Within a rest := a.data.drop a.pos = rest
  holds_of_atEnd h := h.1
  seekToEnd {d d' bs} h hseek := by
    rw [show StorageAdapter.seekToEnd d = (some (), _) from dif_pos (Nat.le_refl d.data.length)] at hseek
    cases hseek
    exact ⟨h, congrArg List.length h⟩
  takes := by
    rintro d d' old bs ⟨rfl, hpos⟩ hwrite
    cases hwrite
    refine ⟨(VectorAdapter.overwrite_resized d bs).trans (overwrite_end hpos.symm), ?_⟩
    rw [List.length_append, ← hpos]
  seek_at {d d' bs p} h _ hseek := by
    by_cases hp : p ≤ d.data.length
    · rw [show StorageAdapter.seek p d = (some (), _) from dif_pos hp] at hseek
      cases hseek
      rw [← h]
    · rw [show StorageAdapter.seek p d = (none, _) from dif_neg hp] at hseek
      cases hseek
  seek_within {d bs p} h _ hle := by
    subst h
    exact ⟨_, dif_pos hle, rfl⟩
  faithful := by
    rintro d d' n v rest rfl hread
    by_cases hn : d.pos + n ≤ d.data.length
    · rw [show StorageAdapter.read n d = (some _, _) from dif_pos hn] at hread
      cases hread
      exact ⟨d.data.drop (d.pos + n), (slice_append_drop ..).symm, rfl⟩
    · rw [show StorageAdapter.read n d = (none, _) from dif_neg hn] at hread
      cases hread
  follows := by
    intro d n v rest h
    obtain ⟨d', hread, -, hb, hdrop⟩ := Decodes.follows_ok d.data (A := VectorAdapter) ⟨trivial, rfl, h⟩
    refine ⟨d', hread, ?_⟩
    change d'.data.drop d'.pos = rest
    rw [show d'.data = d.data from hb]
    exact hdrop

/-! Reading from a position of a content, on devices that return as many bytes as there are. -/

section
variable {content rest : Bytes} {pos n : ℕ} {v : Raw n}

theorem of_read_slice (h : content.drop pos = rest)
    (hread : (if h : (slice content pos n).length = n then some (⟨slice content pos n, h⟩ : Raw n) else none) =
      some v) :
    (slice content pos n).length = n ∧ rest = v.1 ++ content.drop (pos + n) := by
  split at hread
  · next hlen =>
    cases hread
    exact ⟨hlen, by rw [← h, slice_append_drop]⟩
  · cases hread

theorem read_slice (h : content.drop pos = v.1 ++ rest) :
    (if h : (slice content pos n).length = n then some (⟨slice content pos n, h⟩ : Raw n) else none) = some v ∧
      (slice content pos n).length = n ∧ content.drop (pos + n) = rest := by
  have hslice := slice_of_drop h
  have hdrop := drop_of_drop h
  rw [v.2] at hslice hdrop
  have hlen : (slice content pos n).length = n := by rw [hslice, v.2]
  refine ⟨?_, hlen, hdrop⟩
  rw [dif_pos hlen, Option.some.injEq]
  exact Subtype.ext hslice

theorem FopenAdapter.read_eq {bits : ℕ} {f : FopenAdapter bits} {stream : FILE} (h : f.handle = some stream)
    (hreadable : stream.readable = true) (n : ℕ) : StorageAdapter.read n f =
      (if h : (slice (f.files.content stream.path) stream.pos n).length = n then some ⟨_, h⟩ else none, { f with
        handle := some { stream with
          pos := stream.pos + (slice (f.files.content stream.path) stream.pos n).length } }) := by
  simp only [StorageAdapter.read, FopenAdapter.read, FopenAdapter.onHandle, h, Files.fread, hreadable, if_true]

section
variable {bits : ℕ} {f f' : FopenAdapter bits} {path : String}

theorem FopenAdapter.read_some (h : f.handle = some ⟨path, true, true, true, pos⟩)
    (hread : StorageAdapter.read n f = (some v, f')) :
    (f.files.content path).drop pos = v.1 ++ (f.files.content path).drop (pos + n) ∧
      f' = { f with handle := some ⟨path, true, true, true, pos + n⟩ } := by
  rw [FopenAdapter.read_eq h rfl] at hread
  obtain ⟨hv, rfl⟩ := Prod.mk.inj hread
  obtain ⟨hlen, hsplit⟩ := of_read_slice rfl hv
  exact ⟨hsplit, by rw [hlen]⟩

theorem FopenAdapter.read_of_drop (h : f.handle = some ⟨path, true, true, true, pos⟩)
    (hdrop : (f.files.content path).drop pos = v.1 ++ rest) :
    StorageAdapter.read n f = (some v, { f with handle := some ⟨path, true, true, true, pos + n⟩ }) ∧
      (f.files.content path).drop (pos + n) = rest := by
  obtain ⟨hv, hlen, hrest⟩ := read_slice hdrop
  exact ⟨by rw [FopenAdapter.read_eq h rfl, hv, hlen], hrest⟩

end

theorem QMemoryDeviceAdapter.read_eq {a : QMemoryDeviceAdapter} (h : a.openMode = some .ReadWrite) (n : ℕ) :
    StorageAdapter.read n a =
      (if h : (slice a.buffer a.position n).length = n then some ⟨_, h⟩ else none, { a with
        position := a.position + (slice a.buffer a.position n).length }) := by
  have hreadable : a.canRead = true := by rw [canRead, h]; rfl
  simp only [StorageAdapter.read, QMemoryDeviceAdapter.read, hreadable, if_true]

theorem QMemoryDeviceAdapter.read_some {a a' : QMemoryDeviceAdapter} (h : a.openMode = some .ReadWrite)
    (hread : StorageAdapter.read n a = (some v, a')) :
    a.buffer.drop a.position = v.1 ++ a.buffer.drop (a.position + n) ∧ a' = { a with position := a.position + n } := by
  rw [QMemoryDeviceAdapter.read_eq h] at hread
  obtain ⟨hv, rfl⟩ := Prod.mk.inj hread
  obtain ⟨hlen, hsplit⟩ := of_read_slice rfl hv
  exact ⟨hsplit, by rw [hlen]⟩

theorem QMemoryDeviceAdapter.read_of_drop {a : QMemoryDeviceAdapter} (h : a.openMode = some .ReadWrite)
    (hdrop : a.buffer.drop a.position = v.1 ++ rest) :
    StorageAdapter.read n a = (some v, { a with position := a.position + n }) ∧
      a.buffer.drop (a.position + n) = rest := by
  obtain ⟨hv, hlen, hrest⟩ := read_slice hdrop
  exact ⟨by rw [QMemoryDeviceAdapter.read_eq h, hv, hlen], hrest⟩

theorem QFileAdapter.read_eq {a : QFileAdapter} (h : a.openMode = some .ReadWrite) (n : ℕ) :
    StorageAdapter.read n a =
      (if h : (slice a.content a.position n).length = n then some ⟨_, h⟩ else none, { a with
        position := a.position + (slice a.content a.position n).length }) := by
  have hreadable : a.canRead = true := by rw [canRead, h]; rfl
  simp only [StorageAdapter.read, QFileAdapter.read, hreadable, if_true]

theorem QFileAdapter.read_some {a a' : QFileAdapter} (h : a.openMode = some .ReadWrite)
    (hread : StorageAdapter.read n a = (some v, a')) :
    a.content.drop a.position = v.1 ++ a.content.drop (a.position + n) ∧ a' = { a with position := a.position + n } := by
  rw [QFileAdapter.read_eq h] at hread
  obtain ⟨hv, rfl⟩ := Prod.mk.inj hread
  obtain ⟨hlen, hsplit⟩ := of_read_slice rfl hv
  exact ⟨hsplit, by rw [hlen]⟩

theorem QFileAdapter.read_of_drop {a : QFileAdapter} (h : a.openMode = some .ReadWrite)
    (hdrop : a.content.drop a.position = v.1 ++ rest) :
    StorageAdapter.read n a = (some v, { a with position := a.position + n }) ∧
      a.content.drop (a.position + n) = rest := by
  obtain ⟨hv, hlen, hrest⟩ := read_slice hdrop
  exact ⟨by rw [QFileAdapter.read_eq h, hv, hlen], hrest⟩

end

instance : RecordDevice (FopenAdapter 64) where
  Holds a bs := ∃ path pos, a.handle = some ⟨path, true, true, true, pos⟩ ∧ a.files.content path = bs
  AtEnd a bs := ∃ path, a.handle = some ⟨path, true, true, true, bs.length⟩ ∧ a.files.content path = bs
  At a rest := ∃ path pos, a.handle = some ⟨path, true, true, true, pos⟩ ∧ (a.files.content path).drop pos = rest
  Within a rest := ∃ path pos, a.handle = some ⟨path, true, true, true, pos⟩ ∧ (a.files.content path).drop pos = rest
  holds_of_atEnd := by
    rintro d bs ⟨path, hhandle, hcontent⟩
    exact ⟨path, _, hhandle, hcontent⟩
  seekToEnd := by
    rintro d d' bs ⟨path, pos, hhandle, hcontent⟩ hseek
    simp only [StorageAdapter.seekToEnd, FopenAdapter.seekToEnd, FopenAdapter.onHandle, hhandle] at hseek
    cases hseek
    exact ⟨path, by rw [hcontent], hcontent⟩
  takes := by
    rintro d d' old bs ⟨path, hhandle, hcontent⟩ hwrite
    by_cases hbs : bs = []
    · subst hbs
      rw [FopenAdapter.write_nil hhandle] at hwrite
      cases hwrite
      exact ⟨path, by rw [hhandle, List.append_nil], by rw [hcontent, List.append_nil]⟩
    · rw [FopenAdapter.write_append hhandle rfl rfl hbs] at hwrite
      cases hwrite
      exact ⟨path, by rw [hcontent, List.length_append], by simp [hcontent]⟩
  seek_at := by
    rintro d d' bs p ⟨path, pos, hhandle, hcontent⟩ hp hseek
    rw [FopenAdapter.seek_of_toLong hhandle (toLong_of_lt (lt_pow_63 hp))] at hseek
    cases hseek
    exact ⟨path, p, rfl, by rw [hcontent]⟩
  seek_within := by
    rintro d bs p ⟨path, pos, hhandle, hcontent⟩ hp hle
    exact ⟨_, FopenAdapter.seek_of_toLong hhandle (toLong_of_lt (lt_pow_63 hp)), path, p, rfl,
      by rw [hcontent]⟩
  faithful := by
    rintro d d' n v rest ⟨path, pos, hhandle, hdrop⟩ hread
    obtain ⟨hsplit, rfl⟩ := FopenAdapter.read_some hhandle hread
    exact ⟨_, hdrop.symm.trans hsplit, path, pos + n, rfl, rfl⟩
  follows := by
    rintro d n v rest ⟨path, pos, hhandle, hdrop⟩
    obtain ⟨hread, hrest⟩ := FopenAdapter.read_of_drop hhandle hdrop
    exact ⟨_, hread, path, pos + n, rfl, hrest⟩

theorem drop_append_zeros (bs : Bytes) (p : ℕ) : (bs ++ List.replicate (p - bs.length) 0).drop p = bs.drop p := by
  rcases Nat.le_total p bs.length with hp | hp
  · rw [Nat.sub_eq_zero_of_le hp, List.replicate_zero, List.append_nil]
  · rw [List.drop_eq_nil_of_le hp, List.drop_eq_nil_of_le]
    rw [List.length_append, List.length_replicate]
    omega

instance : RecordDevice QMemoryDeviceAdapter where
  Holds a bs := a.openMode = some .ReadWrite ∧ a.buffer = bs
  AtEnd a bs := a.openMode = some .ReadWrite ∧ a.buffer = bs ∧ a.position = bs.length
  At a rest := a.openMode = some .ReadWrite ∧ a.buffer.drop a.position = rest
  Within a rest := a.openMode = some .ReadWrite ∧ a.buffer.drop a.position = rest
  holds_of_atEnd := by
    rintro d bs ⟨hmode, hbuffer, -⟩
    exact ⟨hmode, hbuffer⟩
  seekToEnd := by
    rintro d d' bs ⟨hmode, rfl⟩ hseek
    simp only [StorageAdapter.seekToEnd, QMemoryDeviceAdapter.seekToEnd, hmode] at hseek
    cases hseek
    exact ⟨rfl, rfl, rfl⟩
  takes := by
    rintro d d' old bs ⟨hmode, rfl, hpos⟩ hwrite
    simp only [StorageAdapter.write, QMemoryDeviceAdapter.write, QMemoryDeviceAdapter.canWrite, hmode] at hwrite
    cases hwrite
    refine ⟨rfl, overwrite_end hpos.symm, ?_⟩
    rw [List.length_append, ← hpos]
  seek_at := by
    rintro d d' bs p ⟨hmode, rfl⟩ hp hseek
    have hnum := toQint64_of_lt (lt_pow_63 hp)
    simp only [StorageAdapter.seek, QMemoryDeviceAdapter.seek, QMemoryDeviceAdapter.canWrite, hmode, hnum,
      Int.toNat_natCast] at hseek
    split at hseek
    · cases hseek
      exact ⟨rfl, drop_append_zeros ..⟩
    · cases hseek
  seek_within := by
    rintro d bs p ⟨hmode, rfl⟩ hp hle
    have hnum := toQint64_of_lt (lt_pow_63 hp)
    refine ⟨{ d with position := p }, ?_, hmode, rfl⟩
    simp [StorageAdapter.seek, QMemoryDeviceAdapter.seek, QMemoryDeviceAdapter.canWrite, hmode, hnum, hle]
  faithful := by
    rintro d d' n v rest ⟨hmode, hdrop⟩ hread
    obtain ⟨hsplit, rfl⟩ := QMemoryDeviceAdapter.read_some hmode hread
    exact ⟨_, hdrop.symm.trans hsplit, hmode, rfl⟩
  follows := by
    rintro d n v rest ⟨hmode, hdrop⟩
    obtain ⟨hread, hrest⟩ := QMemoryDeviceAdapter.read_of_drop hmode hdrop
    exact ⟨_, hread, hmode, hrest⟩

instance : RecordDevice QFileAdapter where
  Holds a bs := a.openMode = some .ReadWrite ∧ a.content = bs
  AtEnd a bs := a.openMode = some .ReadWrite ∧ a.content = bs ∧ a.position = bs.length
  At a rest := a.openMode = some .ReadWrite ∧ a.content.drop a.position = rest
  Within a rest := a.openMode = some .ReadWrite ∧ a.content.drop a.position = rest
  holds_of_atEnd := by
    rintro d bs ⟨hmode, hcontent, -⟩
    exact ⟨hmode, hcontent⟩
  seekToEnd := by
    rintro d d' bs ⟨hmode, rfl⟩ hseek
    simp only [StorageAdapter.seekToEnd, QFileAdapter.seekToEnd, hmode] at hseek
    cases hseek
    exact ⟨rfl, rfl, rfl⟩
  takes := by
    rintro d d' old bs ⟨hmode, rfl, hpos⟩ hwrite
    have hwritable : d.canWrite = true := by rw [QFileAdapter.canWrite, hmode]; rfl
    simp only [StorageAdapter.write, QFileAdapter.write, hwritable, if_true, hpos, Files.store_end] at hwrite
    cases hwrite
    exact ⟨hmode, by simp [QFileAdapter.content], by simp⟩
  seek_at := by
    rintro d d' bs p ⟨hmode, rfl⟩ hp hseek
    have hnum := toQint64_of_lt (lt_pow_63 hp)
    simp only [StorageAdapter.seek, QFileAdapter.seek, hmode, hnum, Int.toNat_natCast] at hseek
    split at hseek
    · cases hseek
      exact ⟨rfl, rfl⟩
    · cases hseek
  seek_within := by
    rintro d bs p ⟨hmode, rfl⟩ hp hle
    have hnum := toQint64_of_lt (lt_pow_63 hp)
    refine ⟨{ d with position := p }, ?_, hmode, rfl⟩
    simp [StorageAdapter.seek, QFileAdapter.seek, hmode, hnum]
  faithful := by
    rintro d d' n v rest ⟨hmode, hdrop⟩ hread
    obtain ⟨hsplit, rfl⟩ := QFileAdapter.read_some hmode hread
    exact ⟨_, hdrop.symm.trans hsplit, hmode, rfl⟩
  follows := by
    rintro d n v rest ⟨hmode, hdrop⟩
    obtain ⟨hread, hrest⟩ := QFileAdapter.read_of_drop hmode hdrop
    exact ⟨_, hread, hmode, hrest⟩

/-! ### Records -/

namespace DbStorage
variable {A : Type} [StorageAdapter A] [RecordDevice A] {S : Schema} {d d' : A} {bs : Bytes}
open DbRecordSerializer RecordDevice

omit [StorageAdapter A] [RecordDevice A] in
theorem pageNumberToOffset_lt (p : PageNumber) : pageNumberToOffset p < 2 ^ 52 := by
  have h := leNat_raw_lt p
  rw [pageNumberToOffset, PageNumber.toNat, PageSize]
  omega

theorem writeRecord_holds {r : DbRecord S} (h : Holds d bs) (hwrite : (writeRecord r).run d = (.ret (), d')) :
    Holds d' (bs ++ encode r) := by
  rw [writeRecord] at hwrite
  rcases hseek : StorageAdapter.seekToEnd d with ⟨_ | _, d₁⟩
  · have hrun : StorageIo.seekToEnd.run d = (.fail, d₁) := Proc.run_ofCall_none hseek
    rw [Proc.run_bind_of_fail hrun] at hwrite
    cases hwrite
  · have hrun : StorageIo.seekToEnd.run d = (.ret (), d₁) := Proc.run_ofCall_some hseek
    rw [Proc.run_bind_of_ret hrun] at hwrite
    exact holds_of_atEnd (encodes_serialize r takes (RecordDevice.seekToEnd h hseek) hwrite)

theorem writeRecords_holds {records : List (DbRecord S)} (h : Holds d bs)
    (hwrite : (records.forM writeRecord).run d = (.ret (), d')) : Holds d' (bs ++ (records.map encode).flatten) := by
  induction records generalizing d bs with
  | nil =>
    cases hwrite
    rwa [List.map_nil, List.flatten_nil, List.append_nil]
  | cons r records ih =>
    rw [List.forM] at hwrite
    rcases hfirst : (writeRecord r).run d with ⟨_ | _ | _ | _, d₁⟩
    · rw [Proc.run_bind_of_ret hfirst] at hwrite
      rw [List.map_cons, List.flatten_cons, ← List.append_assoc]
      exact ih (writeRecord_holds h hfirst) hwrite
    · rw [Proc.run_bind_of_fail hfirst] at hwrite
      cases hwrite
    · rw [Proc.run_bind_of_abort hfirst] at hwrite
      cases hwrite
    · rw [Proc.run_bind_of_outOfFuel hfirst] at hwrite
      cases hwrite

theorem readRecord_sound (hS : S.StaticFirst) (h : Holds d bs) {p : PageNumber} {r : DbRecord S}
    (hread : (readRecord S p).run d = (.ret r, d')) : r.Short ∧ encode r <+: bs.drop (pageNumberToOffset p) := by
  rw [readRecord] at hread
  rcases hseek : StorageAdapter.seek (pageNumberToOffset p) d with ⟨_ | _, d₁⟩
  · have hrun : (StorageIo.seek (pageNumberToOffset p)).run d = (.fail, d₁) := Proc.run_ofCall_none hseek
    rw [Proc.run_bind_of_fail hrun] at hread
    cases hread
  · have hrun : (StorageIo.seek (pageNumberToOffset p)).run d = (.ret (), d₁) := Proc.run_ofCall_some hseek
    rw [Proc.run_bind_of_ret hrun] at hread
    obtain ⟨hshort, rest, hrest, -⟩ :=
      parses_deserialize hS faithful (seek_at h (pageNumberToOffset_lt p) hseek) hread
    exact ⟨hshort, rest, hrest.symm⟩

theorem readRecord_ret (hS : S.StaticFirst) (h : Holds d bs) {p : PageNumber} {r : DbRecord S} (hr : r.Short)
    (hpage : encode r <+: bs.drop (pageNumberToOffset p)) (hle : pageNumberToOffset p ≤ bs.length) :
    ∃ d', (readRecord S p).run d = (.ret r, d') := by
  obtain ⟨rest, hrest⟩ := hpage
  obtain ⟨d₁, hseek, hwithin⟩ := seek_within h (pageNumberToOffset_lt p) hle
  rw [← hrest] at hwithin
  obtain ⟨d₂, hrun, -⟩ := decodes_deserialize hS hr follows hwithin
  have hstart : (StorageIo.seek (pageNumberToOffset p)).run d = (.ret (), d₁) := Proc.run_ofCall_some hseek
  exact ⟨d₂, by rw [readRecord, Proc.run_bind_of_ret hstart, hrun]⟩

/-- The record can be read by a page number. -/
def Readable (d : A) (r : DbRecord S) : Prop := ∃ (p : PageNumber) (d' : A), (readRecord S p).run d = (.ret r, d')

/-- The encoding of the record stands at a multiple of the page size. -/
def OnPage (bs : Bytes) (r : DbRecord S) : Prop :=
  r.Short ∧ ∃ p : PageNumber, encode r <+: bs.drop (pageNumberToOffset p)

omit [StorageAdapter A] [RecordDevice A] in
/-- A page beyond the end has the empty encoding only, which page 0 has too. -/
theorem OnPage.within {r : DbRecord S} (h : OnPage bs r) :
    ∃ p : PageNumber, encode r <+: bs.drop (pageNumberToOffset p) ∧ pageNumberToOffset p ≤ bs.length := by
  obtain ⟨-, p, hp⟩ := h
  by_cases hle : pageNumberToOffset p ≤ bs.length
  · exact ⟨p, hp, hle⟩
  · rw [List.drop_eq_nil_of_le (Nat.le_of_not_le hle), List.prefix_nil] at hp
    refine ⟨⟨leBytes 5 0, length_leBytes ..⟩, ?_, Nat.zero_le _⟩
    rw [hp]
    exact List.nil_prefix

theorem readable_of_holds (hS : S.StaticFirst) (h : Holds d bs) {r : DbRecord S} : Readable d r ↔ OnPage bs r := by
  constructor
  · rintro ⟨p, d', hread⟩
    obtain ⟨hshort, hpage⟩ := readRecord_sound hS h hread
    exact ⟨hshort, p, hpage⟩
  · intro hpage
    obtain ⟨p, hp, hle⟩ := hpage.within
    exact ⟨p, readRecord_ret hS h hpage.1 hp hle⟩

/-- **Every stored record can be read back by page** exactly where every encoding stands at a page. -/
theorem readable_iff (hS : S.checkAssertions = true) {records : List (DbRecord S)} (hd : Holds d [])
    (hwrite : (records.forM writeRecord).run d = (.ret (), d')) :
    (∀ r ∈ records, Readable d' r) ↔ ∀ r ∈ records, OnPage (records.map encode).flatten r := by
  have h := writeRecords_holds hd hwrite
  rw [List.nil_append] at h
  exact forall₂_congr fun r _ => readable_of_holds (Schema.staticFirst_of_checkAssertions hS) h

/-- Records of one number. -/
def numberSchema : Schema := [⟨.trivial "uint32_t" 4, 1, false⟩]

def number (n : ℕ) : DbRecord numberSchema := .cons (⟨leBytes 4 n, length_leBytes ..⟩ : Raw 4) .nil

theorem encode_number (n : ℕ) : encode (number n) = leBytes 4 n := List.append_nil _

theorem run_twoNumbers : ∃ d d' : FopenAdapter 64,
    (openStorageFile "db").run { files := fun _ => none } = (.ret (), d) ∧ Holds d [] ∧
    ([number 1, number 2].forM writeRecord).run d = (.ret (), d') := by
  have hopened : ((openStorageFile "db").run ({ files := fun _ => none } : FopenAdapter 64)).1 = .ret () := by decide
  have hempty : Holds ((openStorageFile "db").run ({ files := fun _ => none } : FopenAdapter 64)).2 [] :=
    ⟨"db", 0, rfl, rfl⟩
  have hwritten : (([number 1, number 2].forM writeRecord).run
      ((openStorageFile "db").run ({ files := fun _ => none } : FopenAdapter 64)).2).1 = .ret () := by decide
  obtain ⟨d, hopen⟩ := Proc.exists_run_eq hopened
  rw [hopen] at hempty hwritten
  obtain ⟨d', hwrite⟩ := Proc.exists_run_eq hwritten
  exact ⟨d, d', hopen, hempty, hwrite⟩

theorem readable_iff_twoNumbers : ∃ d d' : FopenAdapter 64,
    (openStorageFile "db").run { files := fun _ => none } = (.ret (), d) ∧
    ([number 1, number 2].forM writeRecord).run d = (.ret (), d') ∧
    ((∀ r ∈ [number 1, number 2], Readable d' r) ↔
      ∀ r ∈ [number 1, number 2], OnPage ([number 1, number 2].map encode).flatten r) := by
  obtain ⟨d, d', hopen, hempty, hwrite⟩ := run_twoNumbers
  exact ⟨d, d', hopen, hwrite, readable_iff (by decide) hempty hwrite⟩

/-- The second number is at no page. -/
theorem not_readable_secondNumber : ∃ d d' : FopenAdapter 64,
    (openStorageFile "db").run { files := fun _ => none } = (.ret (), d) ∧
    ([number 1, number 2].forM writeRecord).run d = (.ret (), d') ∧ ¬ Readable d' (number 2) := by
  obtain ⟨d, d', hopen, hempty, hwrite⟩ := run_twoNumbers
  refine ⟨d, d', hopen, hwrite, ?_⟩
  rw [readable_of_holds (Schema.staticFirst_of_checkAssertions (by decide)) (writeRecords_holds hempty hwrite)]
  rintro ⟨-, p, hp⟩
  rw [encode_number] at hp
  by_cases hzero : p.toNat = 0
  · rw [pageNumberToOffset, hzero] at hp
    exact absurd hp (by decide)
  · have hbeyond : 8 ≤ pageNumberToOffset p := by
      rw [pageNumberToOffset, PageSize]
      omega
    rw [List.drop_eq_nil_of_le (Nat.le_trans (by decide) hbeyond), List.prefix_nil] at hp
    cases hp

end DbStorage

end CppDb
