import CppDb.Delivery
import CppDb.RecordPages

/-!
# Where `readRecord` reads

The offset of a page stays below 2^52, but `FopenAdapter::seek` hands it to `fseek` as a `long`. A `long` of
64 bits holds every offset; one of 32 bits keeps the remainder by 2^32, which `fseek` refuses from 2^31 on and
takes for an offset of its own below, whatever is read there (`readsPage_iff`).
-/

namespace CppDb
open Embed

namespace FopenAdapter
variable {bits : ℕ} {f : FopenAdapter bits} {content : Bytes}

/-- A file of this content, open for reading and writing, with the cursor at `pos`. -/
def CursorAt (f : FopenAdapter bits) (content : Bytes) (pos : ℕ) : Prop :=
  ∃ path, f.handle = some ⟨path, true, true, true, pos⟩ ∧ f.files.content path = content

/-- A storage file of this content. -/
def Stores (f : FopenAdapter bits) (content : Bytes) : Prop := ∃ pos, f.CursorAt content pos

theorem stores_of_open {path : String} {f' : FopenAdapter bits}
    (h : (DbStorage.openStorageFile path).run f = (.ret (), f')) :
    f'.Stores (f.files.content path) := by
  rcases hopen : StorageAdapter.open_ path OpenMode.ReadWrite f with ⟨_ | _, f₁⟩
  · rw [DbStorage.openStorageFile, StorageIo.open_, Proc.run_ofCall_none hopen] at h
    cases h
  · rw [DbStorage.openStorageFile, StorageIo.open_, Proc.run_ofCall_some hopen] at h
    cases h
    rcases hhandle : f.handle with _ | stream
    · by_cases hpath : path = ""
      · simp [StorageAdapter.open_, open_, hhandle, Files.fopen, hpath, seek, onHandle] at hopen
      · have hzero : toLong bits 0 = ((0 : ℕ) : ℤ) := by simp [toLong]
        simp only [StorageAdapter.open_, open_, hhandle, Files.fopen, hpath, streamMode, seek, onHandle, hzero,
          Option.isSome_none, Bool.false_eq_true, if_false, and_self, if_true, Int.natCast_nonneg] at hopen
        cases hopen
        exact ⟨0, path, rfl, by simp⟩
    · simp [StorageAdapter.open_, open_, hhandle] at hopen

theorem seek_cursorAt (h : f.Stores content) {position reached : ℕ} (hlong : toLong bits position = reached) :
    ∃ f', (StorageIo.seek position).run f = (.ret (), f') ∧ f'.CursorAt content reached := by
  obtain ⟨pos, path, hhandle, hcontent⟩ := h
  exact ⟨_, Proc.run_ofCall_some (seek_of_toLong hhandle hlong), path, rfl, hcontent⟩

theorem seek_fails (h : f.Stores content) {position : ℕ} (hlong : toLong bits position < 0) :
    (StorageIo.seek position).run f = (.fail, f) := by
  obtain ⟨pos, path, hhandle, hcontent⟩ := h
  exact Proc.run_ofCall_none (seek_of_toLong_neg hhandle hlong)

/-- The cursor is as far from `start` as the reads have come. -/
def ReadFrom (content : Bytes) (start : ℕ) (f : FopenAdapter bits) (rest : Bytes) : Prop :=
  ∃ consumed, f.CursorAt content (start + consumed.length) ∧ content.drop start = consumed ++ rest

theorem readFrom_start {start : ℕ} (h : f.CursorAt content start) : ReadFrom content start f (content.drop start) :=
  ⟨[], h, rfl⟩

theorem faithful_readFrom (content : Bytes) (start : ℕ) :
    Faithful fun (f : FopenAdapter bits) rest => ReadFrom content start f rest := by
  rintro f f' n v rest ⟨consumed, ⟨path, hhandle, rfl⟩, hsplit⟩ hread
  obtain ⟨hdrop, rfl⟩ := read_some hhandle hread
  have hrest : rest = v.1 ++ _ := (drop_of_drop hsplit).symm.trans hdrop
  refine ⟨_, hrest, consumed ++ v.1, ⟨path, ?_, rfl⟩, ?_⟩
  · rw [List.length_append, v.2, Nat.add_assoc]
  · rw [hsplit, List.append_assoc, ← hrest]

theorem follows_readFrom (content : Bytes) (start : ℕ) :
    Follows fun (f : FopenAdapter bits) rest => ReadFrom content start f rest := by
  rintro f n v rest ⟨consumed, ⟨path, hhandle, rfl⟩, hsplit⟩
  obtain ⟨hread, -⟩ := read_of_drop hhandle (drop_of_drop hsplit)
  refine ⟨_, hread, consumed ++ v.1, ⟨path, ?_, rfl⟩, ?_⟩
  · rw [List.length_append, v.2, Nat.add_assoc]
  · rw [hsplit, List.append_assoc]

end FopenAdapter

namespace DbStorage
variable {bits : ℕ} {S : Schema} {f f' : FopenAdapter bits} {content : Bytes}
open DbRecordSerializer FopenAdapter

theorem deserialize_from (hS : S.StaticFirst) {start : ℕ} (h : f.CursorAt content start) {r : DbRecord S}
    (hread : (deserialize S).run f = (.ret r, f')) :
    r.Short ∧ encode r <+: content.drop start ∧ f'.CursorAt content (start + (encode r).length) := by
  obtain ⟨hshort, rest, hrest, consumed, hcursor, hsplit⟩ :=
    parses_deserialize hS (faithful_readFrom content start) (readFrom_start h) hread
  have hconsumed : encode r = consumed := List.append_cancel_right (hrest.symm.trans hsplit)
  rw [hconsumed] at hrest ⊢
  exact ⟨hshort, ⟨rest, hrest.symm⟩, hcursor⟩

theorem deserialize_of_prefix (hS : S.StaticFirst) {start : ℕ} (h : f.CursorAt content start) {r : DbRecord S}
    (hr : r.Short) (hpre : encode r <+: content.drop start) : ∃ f', (deserialize S).run f = (.ret r, f') := by
  obtain ⟨rest, hrest⟩ := hpre
  have hstart := readFrom_start h
  rw [← hrest] at hstart
  obtain ⟨f', hrun, -⟩ := decodes_deserialize hS hr (follows_readFrom content start) hstart
  exact ⟨f', hrun⟩

/-- Some record is encoded from `offset` on. -/
def RecordAt (S : Schema) (content : Bytes) (offset : ℕ) : Prop :=
  ∃ r : DbRecord S, r.Short ∧ encode r <+: content.drop offset

theorem deserialize_settles (hS : S.StaticFirst) {start : ℕ} (h : f.CursorAt content start) :
    ((∃ f', (deserialize S).run f = (.fail, f')) ∧ ¬ RecordAt S content start) ∨
    ∃ r f', (deserialize S).run f = (.ret r, f') ∧ r.Short ∧ encode r <+: content.drop start ∧
      f'.CursorAt content (start + (encode r).length) := by
  rcases (ends_deserializeRecord S).run_cases f with ⟨r, f', hread⟩ | ⟨f', hfail⟩
  · exact Or.inr ⟨r, f', hread, deserialize_from hS h hread⟩
  · refine Or.inl ⟨⟨f', hfail⟩, ?_⟩
    rintro ⟨r, hr, hpre⟩
    obtain ⟨f₁, hread⟩ := deserialize_of_prefix hS h hr hpre
    rw [hfail] at hread
    cases hread

/-- `readRecord` refuses the page at its seek, or it starts reading at the page: there it finds no record, or it
returns the one that is encoded there and has moved past it. -/
inductive ReadsPage (S : Schema) (f : FopenAdapter bits) (content : Bytes) (p : PageNumber) : Prop
  | refused (hseek : (StorageIo.seek (pageNumberToOffset p)).run f = (.fail, f))
      (hread : (readRecord S p).run f = (.fail, f)) : ReadsPage S f content p
  | noRecord {f₁ f' : FopenAdapter bits} (hseek : (StorageIo.seek (pageNumberToOffset p)).run f = (.ret (), f₁))
      (hstart : f₁.CursorAt content (pageNumberToOffset p)) (hread : (readRecord S p).run f = (.fail, f'))
      (hnone : ¬ RecordAt S content (pageNumberToOffset p)) : ReadsPage S f content p
  | record {f₁ f' : FopenAdapter bits} {r : DbRecord S}
      (hseek : (StorageIo.seek (pageNumberToOffset p)).run f = (.ret (), f₁))
      (hstart : f₁.CursorAt content (pageNumberToOffset p)) (hread : (readRecord S p).run f = (.ret r, f'))
      (hshort : r.Short) (hpre : encode r <+: content.drop (pageNumberToOffset p))
      (hend : f'.CursorAt content (pageNumberToOffset p + (encode r).length)) : ReadsPage S f content p

theorem readsPage_of_reached (hS : S.StaticFirst) (h : f.Stores content) {p : PageNumber} {reached : ℕ}
    (hlong : toLong bits (pageNumberToOffset p) = reached) :
    ReadsPage S f content p ↔ reached = pageNumberToOffset p := by
  obtain ⟨f₁, hseek, hcursor⟩ := seek_cursorAt h hlong
  have hrun : (readRecord S p).run f = (deserialize S).run f₁ := by rw [readRecord, Proc.run_bind_of_ret hseek]
  constructor
  · have hpos : ∀ f₂ : FopenAdapter bits, (StorageIo.seek (pageNumberToOffset p)).run f = (.ret (), f₂) →
        f₂.CursorAt content (pageNumberToOffset p) → reached = pageNumberToOffset p := by
      rintro f₂ hseek₂ ⟨path₂, hhandle₂, -⟩
      rw [hseek] at hseek₂
      cases hseek₂
      obtain ⟨path, hhandle, -⟩ := hcursor
      rw [hhandle] at hhandle₂
      simp only [Option.some.injEq, FILE.mk.injEq] at hhandle₂
      exact hhandle₂.2.2.2.2
    rintro (⟨hrefused, -⟩ | ⟨hseek₂, hstart, -, -⟩ | ⟨hseek₂, hstart, -, -, -, -⟩)
    · rw [hseek] at hrefused
      cases hrefused
    · exact hpos _ hseek₂ hstart
    · exact hpos _ hseek₂ hstart
  · rintro rfl
    rcases deserialize_settles hS hcursor with ⟨⟨f', hfail⟩, hnone⟩ | ⟨r, f', hread, hshort, hpre, hend⟩
    · exact .noRecord hseek hcursor (hrun.trans hfail) hnone
    · exact .record hseek hcursor (hrun.trans hread) hshort hpre hend

/-- Which pages `readRecord` reads with a `long` of `width + 1` bits. -/
theorem readsPage_iff {width : ℕ} {f : FopenAdapter (width + 1)} (hS : S.StaticFirst) (h : f.Stores content)
    {p : PageNumber} :
    ReadsPage S f content p ↔
      pageNumberToOffset p < 2 ^ width ∨ 2 ^ width ≤ pageNumberToOffset p % 2 ^ (width + 1) := by
  by_cases hmod : pageNumberToOffset p % 2 ^ (width + 1) < 2 ^ width
  · have hmodEq : pageNumberToOffset p % 2 ^ (width + 1) = pageNumberToOffset p ↔ pageNumberToOffset p < 2 ^ width := by
      constructor
      · intro heq
        rwa [heq] at hmod
      · intro hlt
        exact Nat.mod_eq_of_lt (Nat.lt_of_lt_of_le hlt (Nat.pow_le_pow_right Nat.two_pos (Nat.le_succ width)))
    rw [readsPage_of_reached hS h (toLong_of_mod_lt hmod), hmodEq, or_iff_left hmod.not_ge]
  · rw [Nat.not_lt] at hmod
    have hseek := seek_fails h (toLong_neg_of_le_mod hmod)
    exact iff_of_true (.refused hseek (Proc.run_bind_of_fail hseek)) (.inr hmod)

/-- **Page addressing** with either width of `long`: the offset fits into 64 bits, a `long` of 64 bits reaches it,
and one of 32 bits makes another offset of it where it is 2^31 or more and its low half is below. -/
theorem readRecord_addresses (hS : S.checkAssertions = true) (p : PageNumber) (content : Bytes) :
    pageNumberToOffset p < 2 ^ 64 ∧
    (∀ f : FopenAdapter 64, f.Stores content → ReadsPage S f content p) ∧
    ∀ f : FopenAdapter 32, f.Stores content →
      (ReadsPage S f content p ↔ pageNumberToOffset p < 2 ^ 31 ∨ 2 ^ 31 ≤ pageNumberToOffset p % 2 ^ 32) := by
  have hoffset := pageNumberToOffset_lt p
  have hstatic := Schema.staticFirst_of_checkAssertions hS
  refine ⟨Nat.lt_trans hoffset (by decide), fun f hf => ?_, fun f hf => readsPage_iff hstatic hf⟩
  exact (readsPage_iff hstatic hf).2 (Or.inl (lt_pow_63 hoffset))

/-- A storage file with the number 1. -/
def numberFile (bits : ℕ) : FopenAdapter bits where
  files path := if path = "db" then some (leBytes 4 1) else none

/-- That file, opened. -/
def oneNumber (bits : ℕ) : FopenAdapter bits := ((openStorageFile "db").run (numberFile bits)).2

theorem stores_oneNumber {bits : ℕ} (h : ((openStorageFile "db").run (numberFile bits)).1 = .ret ()) :
    (oneNumber bits).Stores (leBytes 4 1) :=
  stores_of_open (f := numberFile bits) (Prod.ext h rfl)

theorem pageNumberToOffset_page {n : ℕ} (h : n < 256 ^ 5) : pageNumberToOffset (page n) = n * PageSize := by
  rw [pageNumberToOffset, PageNumber.toNat, page, leNat_leBytes_of_lt h]

theorem readRecord_addresses_oneNumber : pageNumberToOffset (page 0) < 2 ^ 64 ∧
    ReadsPage numberSchema (oneNumber 64) (leBytes 4 1) (page 0) ∧
    (ReadsPage numberSchema (oneNumber 32) (leBytes 4 1) (page 0) ↔
      pageNumberToOffset (page 0) < 2 ^ 31 ∨ 2 ^ 31 ≤ pageNumberToOffset (page 0) % 2 ^ 32) := by
  obtain ⟨hoffset, hlong64, hlong32⟩ := readRecord_addresses (S := numberSchema) (by decide) (page 0) (leBytes 4 1)
  exact ⟨hoffset, hlong64 _ (stores_oneNumber (by decide)), hlong32 _ (stores_oneNumber (by decide))⟩

/-- With a `long` of 32 bits, page 2^20 of the file of 4 bytes is read from its start. -/
theorem readRecord_wrong_page : (oneNumber 32).Stores (leBytes 4 1) ∧ pageNumberToOffset (page (2 ^ 20)) = 2 ^ 32 ∧
    ((readRecord numberSchema (page (2 ^ 20))).run (oneNumber 32)).1 = .ret (number 1) ∧
    ¬ ReadsPage numberSchema (oneNumber 32) (leBytes 4 1) (page (2 ^ 20)) := by
  have hoffset : pageNumberToOffset (page (2 ^ 20)) = 2 ^ 32 := pageNumberToOffset_page (by decide)
  have hstores : (oneNumber 32).Stores (leBytes 4 1) := stores_oneNumber (by decide)
  refine ⟨hstores, hoffset, ?_, fun hreads => ?_⟩
  · rw [readRecord, hoffset]
    decide
  · have hreached : FopenAdapter.toLong 32 (pageNumberToOffset (page (2 ^ 20))) = ((0 : ℕ) : ℤ) := by
      rw [hoffset]
      decide
    have hstatic : Schema.StaticFirst numberSchema := Schema.staticFirst_of_checkAssertions (by decide)
    have hzero := (readsPage_of_reached hstatic hstores hreached).1 hreads
    rw [hoffset] at hzero
    exact absurd hzero (by decide)

end DbStorage

end CppDb
