import CppDb.Fopen
import CppDb.Lib.Run

/-!
# The file adapter and the in-memory adapter

The same calls on a `FopenAdapter` and on a `VectorAdapter`. As long as every write happens at the end of the file
the two stay `InSync`; the first write elsewhere leaves the file longer than the vector, for good, because a file
opened with `a+b` is only ever appended to.
-/

namespace CppDb
open Embed

inductive AdapterCall where
  | write (bs : Bytes)
  | seek (position : UInt64)
  | seekToEnd
  | read (dataSize : ℕ)
  | size
  | pos
  | atEnd
deriving DecidableEq, Repr

inductive Answer where
  | done (success : Bool)
  | data (bs : Option Bytes)
  | number (n : ℕ)
deriving DecidableEq, Repr

namespace AdapterCall

/-- What the call returns, and the adapter after it. -/
def on {A : Type} [StorageAdapter A] (a : A) : AdapterCall → Answer × A
  | write bs => (.done (StorageAdapter.write bs a).1.isSome, (StorageAdapter.write bs a).2)
  | seek position => (.done (StorageAdapter.seek position.toNat a).1.isSome, (StorageAdapter.seek position.toNat a).2)
  | seekToEnd => (.done (StorageAdapter.seekToEnd a).1.isSome, (StorageAdapter.seekToEnd a).2)
  | read dataSize =>
    (.data ((StorageAdapter.read dataSize a).1.map Subtype.val), (StorageAdapter.read dataSize a).2)
  | size => (.number (StorageAdapter.size a), a)
  | pos => (.number (StorageAdapter.pos a), a)
  | atEnd => (.done (StorageAdapter.atEnd a), a)

def step {A : Type} [StorageAdapter A] (a : A) (c : AdapterCall) : A := (c.on a).2

def answers {A : Type} [StorageAdapter A] : A → List AdapterCall → List Answer
  | _, [] => []
  | a, c :: cs => (c.on a).1 :: answers (c.step a) cs

/-- The number of bytes the call writes. -/
def written : AdapterCall → ℕ
  | write bs => bs.length
  | _ => 0

/-- Reading or writing: between the two comes a seek. -/
inductive Direction where
  | reading
  | writing
deriving DecidableEq, Repr

def direction (last : Option Direction) : AdapterCall → Option Direction
  | write _ => some .writing
  | read _ => some .reading
  | seek _ => none
  | seekToEnd => none
  | _ => last

/-- The vector, with what was last done to it. -/
def watch (w : VectorAdapter × Option Direction) (c : AdapterCall) : VectorAdapter × Option Direction :=
  (c.step w.1, c.direction w.2)

/-- What callers keep to. -/
def Allowed (w : VectorAdapter × Option Direction) : AdapterCall → Prop
  | write _ => w.2 ≠ some .reading
  | seek position => position.toNat ≤ w.1.size
  | read dataSize => w.2 ≠ some .writing ∧ w.1.pos + dataSize ≤ w.1.size
  | _ => True

instance decidableAllowed (w : VectorAdapter × Option Direction) : (c : AdapterCall) → Decidable (Allowed w c)
  | write _ => inferInstanceAs (Decidable (w.2 ≠ some .reading))
  | seek position => inferInstanceAs (Decidable (position.toNat ≤ w.1.size))
  | read dataSize => inferInstanceAs (Decidable (w.2 ≠ some .writing ∧ w.1.pos + dataSize ≤ w.1.size))
  | seekToEnd => inferInstanceAs (Decidable True)
  | size => inferInstanceAs (Decidable True)
  | pos => inferInstanceAs (Decidable True)
  | atEnd => inferInstanceAs (Decidable True)

/-- What is written is appended, and positions are below 2^63. -/
def Appends (v : VectorAdapter) : AdapterCall → Prop
  | write bs => bs = [] ∨ v.pos = v.size
  | seek position => position.toNat < 2 ^ 63
  | _ => True

end AdapterCall

open AdapterCall

/-- The two return the same and end with the same content. -/
def Agree (path : String) (f : FopenAdapter 64) (v : VectorAdapter) (calls : List AdapterCall) : Prop :=
  answers f calls = answers v calls ∧ (run step f calls).files.content path = (run step v calls).data

/-! ### In sync -/

structure InSync (path : String) (f : FopenAdapter 64) (v : VectorAdapter) : Prop where
  handle : f.handle = some ⟨path, true, true, true, v.pos⟩
  content : f.files.content path = v.data

namespace InSync
variable {path : String} {f : FopenAdapter 64} {v : VectorAdapter} {last : Option Direction} {c : AdapterCall}

theorem write (h : InSync path f v) {bs : Bytes} (hend : bs = [] ∨ v.pos = v.size) :
    ((AdapterCall.write bs).on f).1 = ((AdapterCall.write bs).on v).1 ∧
      InSync path ((AdapterCall.write bs).step f) ((AdapterCall.write bs).step v) := by
  have hdata : ((AdapterCall.write bs).step v).data = overwrite v.data v.pos bs := VectorAdapter.overwrite_resized v bs
  have hpos : ((AdapterCall.write bs).step v).pos = v.pos + bs.length := rfl
  by_cases hbs : bs = []
  · subst hbs
    have hwrite := FopenAdapter.write_nil h.handle
    simp only [AdapterCall.on, step, hwrite] at hdata hpos ⊢
    refine ⟨rfl, ?_, ?_⟩
    · rw [h.handle, hpos]
      rfl
    · rw [h.content, hdata, overwrite_nil]
  · have hwrite := FopenAdapter.write_append h.handle rfl rfl hbs
    have hend : v.pos = v.data.length := hend.resolve_left hbs
    simp only [AdapterCall.on, step, hwrite] at hdata hpos ⊢
    refine ⟨rfl, ?_, ?_⟩
    · rw [hpos, h.content, hend]
    · rw [hdata, h.content, overwrite_end hend.symm]
      simp [Files.content]

theorem seek (h : InSync path f v) {position : ℕ} (hle : position ≤ v.size) (hlt : position < 2 ^ 63) :
    ∃ f' v', StorageAdapter.seek position f = (some (), f') ∧ StorageAdapter.seek position v = (some (), v') ∧
      InSync path f' v' := by
  refine ⟨{ f with handle := some ⟨path, true, true, true, position⟩ }, { v with pos := position, pos_le := hle },
    ?_, ?_, ?_⟩
  · exact FopenAdapter.seek_of_toLong h.handle (toLong_of_lt hlt)
  · exact dif_pos hle
  · exact ⟨rfl, h.content⟩

theorem seekToEnd (h : InSync path f v) :
    ∃ f' v', StorageAdapter.seekToEnd f = (some (), f') ∧ StorageAdapter.seekToEnd v = (some (), v') ∧
      InSync path f' v' := by
  refine ⟨{ f with handle := some ⟨path, true, true, true, v.size⟩ }, { v with pos := v.size, pos_le := Nat.le_refl _ },
    ?_, ?_, ?_⟩
  · simp [StorageAdapter.seekToEnd, FopenAdapter.seekToEnd, FopenAdapter.onHandle, h.handle, h.content,
      VectorAdapter.size]
  · exact dif_pos (Nat.le_refl _)
  · exact ⟨rfl, h.content⟩

theorem read (h : InSync path f v) {n : ℕ} (hn : v.pos + n ≤ v.size) :
    ∃ bs f' v', StorageAdapter.read n f = (some bs, f') ∧ StorageAdapter.read n v = (some bs, v') ∧
      InSync path f' v' := by
  have hlen : (slice v.data v.pos n).length = n := length_slice hn
  refine ⟨⟨slice v.data v.pos n, hlen⟩, { f with handle := some ⟨path, true, true, true, v.pos + n⟩ },
    { v with pos := v.pos + n, pos_le := hn }, ?_, ?_, ?_⟩
  · simp [StorageAdapter.read, FopenAdapter.read, FopenAdapter.onHandle, h.handle, Files.fread, h.content, hlen]
  · exact dif_pos hn
  · exact ⟨rfl, h.content⟩

theorem pos (h : InSync path f v) : StorageAdapter.pos f = StorageAdapter.pos v := by
  simp [StorageAdapter.pos, FopenAdapter.pos, h.handle]

theorem size (h : InSync path f v) : StorageAdapter.size f = StorageAdapter.size v := by
  simp [StorageAdapter.size, FopenAdapter.size, h.handle, h.content, VectorAdapter.size]

/-- A call that only appends gives the same answer on both and keeps them in sync. -/
theorem step (h : InSync path f v) (hallowed : Allowed (v, last) c) (happends : Appends v c) :
    (c.on f).1 = (c.on v).1 ∧ InSync path (c.step f) (c.step v) := by
  cases c with
  | write bs => exact h.write happends
  | seek position =>
    obtain ⟨f', v', hf, hv, hsync⟩ := h.seek hallowed happends
    simp only [on, AdapterCall.step, hf, hv]
    exact ⟨trivial, hsync⟩
  | seekToEnd =>
    obtain ⟨f', v', hf, hv, hsync⟩ := h.seekToEnd
    simp only [on, AdapterCall.step, hf, hv]
    exact ⟨trivial, hsync⟩
  | read n =>
    obtain ⟨bs, f', v', hf, hv, hsync⟩ := h.read hallowed.2
    simp only [on, AdapterCall.step, hf, hv]
    exact ⟨trivial, hsync⟩
  | size => exact ⟨congrArg Answer.number h.size, h⟩
  | pos => exact ⟨congrArg Answer.number h.pos, h⟩
  | atEnd =>
    have hatEnd : StorageAdapter.atEnd f = StorageAdapter.atEnd v := by
      change (StorageAdapter.pos f == StorageAdapter.size f) = (StorageAdapter.pos v == StorageAdapter.size v)
      rw [h.pos, h.size]
    exact ⟨congrArg Answer.done hatEnd, h⟩

end InSync

/-! ### Out of sync -/

/-- The file is longer than the vector. -/
structure Ahead (path : String) (f : FopenAdapter 64) (v : VectorAdapter) : Prop where
  handle : ∃ pos, f.handle = some ⟨path, true, true, true, pos⟩
  longer : v.data.length < (f.files.content path).length

/-- No call but a write changes the file, and a write adds all its bytes. -/
theorem FopenAdapter.step_appending {path : String} {f : FopenAdapter 64} {pos : ℕ}
    (h : f.handle = some ⟨path, true, true, true, pos⟩) (c : AdapterCall) :
    (∃ pos', (c.step f).handle = some ⟨path, true, true, true, pos'⟩) ∧
      ((c.step f).files.content path).length = (f.files.content path).length + c.written := by
  cases c with
  | write bs =>
    by_cases hbs : bs = []
    · subst hbs
      simp only [AdapterCall.step, on, FopenAdapter.write_nil h]
      exact ⟨⟨pos, h⟩, rfl⟩
    · simp only [AdapterCall.step, on, FopenAdapter.write_append h rfl rfl hbs]
      refine ⟨⟨_, rfl⟩, ?_⟩
      simp [Files.content, written]
  | seek position =>
    by_cases hlt : position.toNat < 2 ^ 63
    · simp only [AdapterCall.step, on, FopenAdapter.seek_of_toLong h (toLong_of_lt hlt)]
      exact ⟨⟨_, rfl⟩, rfl⟩
    · have hneg := toLong_neg (Nat.not_lt.1 hlt) position.toNat_lt
      simp only [AdapterCall.step, on, FopenAdapter.seek_of_toLong_neg h hneg]
      exact ⟨⟨pos, h⟩, rfl⟩
  | seekToEnd =>
    simp only [AdapterCall.step, on, StorageAdapter.seekToEnd, FopenAdapter.seekToEnd, FopenAdapter.onHandle, h]
    exact ⟨⟨_, rfl⟩, rfl⟩
  | read n =>
    simp only [AdapterCall.step, on, StorageAdapter.read, FopenAdapter.read, FopenAdapter.onHandle, h, Files.fread]
    exact ⟨⟨_, rfl⟩, rfl⟩
  | size => exact ⟨⟨pos, h⟩, rfl⟩
  | pos => exact ⟨⟨pos, h⟩, rfl⟩
  | atEnd => exact ⟨⟨pos, h⟩, rfl⟩

theorem VectorAdapter.length_step (v : VectorAdapter) (c : AdapterCall) :
    (c.step v).data.length ≤ v.data.length + c.written := by
  cases c with
  | write bs =>
    have hdata : ((AdapterCall.write bs).step v).data = overwrite v.data v.pos bs :=
      VectorAdapter.overwrite_resized v bs
    have hpos := v.pos_le
    rw [hdata, length_overwrite hpos, written]
    omega
  | seek position =>
    simp only [AdapterCall.step, on, StorageAdapter.seek, VectorAdapter.seek]
    split <;> exact Nat.le_refl _
  | seekToEnd =>
    simp only [AdapterCall.step, on, StorageAdapter.seekToEnd, VectorAdapter.seekToEnd, VectorAdapter.seek]
    split <;> exact Nat.le_refl _
  | read n =>
    simp only [AdapterCall.step, on, StorageAdapter.read, VectorAdapter.read]
    split <;> exact Nat.le_refl _
  | size => exact Nat.le_refl _
  | pos => exact Nat.le_refl _
  | atEnd => exact Nat.le_refl _

namespace Ahead
variable {path : String} {f : FopenAdapter 64} {v : VectorAdapter}

theorem step (h : Ahead path f v) (c : AdapterCall) : Ahead path (c.step f) (c.step v) := by
  obtain ⟨⟨pos, hhandle⟩, hlonger⟩ := h
  obtain ⟨hhandle', hlength⟩ := FopenAdapter.step_appending hhandle c
  have hvector := VectorAdapter.length_step v c
  exact ⟨hhandle', by omega⟩

theorem run (h : Ahead path f v) (calls : List AdapterCall) :
    Ahead path (run AdapterCall.step f calls) (run AdapterCall.step v calls) := by
  induction calls generalizing f v with
  | nil => exact h
  | cons c calls ih => exact ih (h.step c)

theorem content_ne (h : Ahead path f v) : f.files.content path ≠ v.data := by
  intro heq
  have hlonger := h.longer
  rw [heq] at hlonger
  exact Nat.lt_irrefl _ hlonger

theorem of_write (h : InSync path f v) {bs : Bytes} (hbs : bs ≠ []) (hpos : v.pos ≠ v.size) :
    Ahead path ((AdapterCall.write bs).step f) ((AdapterCall.write bs).step v) := by
  obtain ⟨hhandle, hlength⟩ := FopenAdapter.step_appending h.handle (AdapterCall.write bs)
  have hdata : ((AdapterCall.write bs).step v).data = overwrite v.data v.pos bs :=
    VectorAdapter.overwrite_resized v bs
  have hle := v.pos_le
  have hlt : v.pos < v.data.length := Nat.lt_of_le_of_ne hle hpos
  have hlong := List.length_pos_of_ne_nil hbs
  refine ⟨hhandle, ?_⟩
  rw [hlength, hdata, length_overwrite hle, h.content, written]
  omega

end Ahead

/-! ### Agreement -/

theorem agree_iff_of_inSync {path : String} {f : FopenAdapter 64} {v : VectorAdapter} {last : Option Direction}
    {calls : List AdapterCall} (h : InSync path f v) (hcalls : Along watch Allowed (v, last) calls) :
    Agree path f v calls ↔ Along step Appends v calls := by
  induction calls generalizing f v last with
  | nil => exact ⟨fun _ => trivial, fun _ => ⟨rfl, h.content⟩⟩
  | cons c calls ih =>
    by_cases happends : Appends v c
    · obtain ⟨hanswer, hsync⟩ := h.step hcalls.1 happends
      have hrest := ih hsync hcalls.2
      constructor
      · rintro ⟨hanswers, hcontent⟩
        exact ⟨happends, hrest.1 ⟨(List.cons.inj hanswers).2, hcontent⟩⟩
      · rintro ⟨-, hcallsAppend⟩
        obtain ⟨hanswers, hcontent⟩ := hrest.2 hcallsAppend
        exact ⟨congrArg₂ List.cons hanswer hanswers, hcontent⟩
    · refine ⟨fun hagree => ?_, fun halong => absurd halong.1 happends⟩
      obtain ⟨hanswers, hcontent⟩ := hagree
      cases c with
      | write bs =>
        obtain ⟨hbs, hpos⟩ := not_or.1 happends
        exact absurd hcontent ((Ahead.of_write h hbs hpos).run calls).content_ne
      | seek position =>
        -- `fseek` refuses what the vector accepts
        have hneg := toLong_neg (Nat.not_lt.1 happends) position.toNat_lt
        have hvector : StorageAdapter.seek position.toNat v = (some (), _) := dif_pos hcalls.1
        have hhead := (List.cons.inj hanswers).1
        simp only [on, FopenAdapter.seek_of_toLong_neg h.handle hneg, hvector] at hhead
        cases hhead
      | seekToEnd => exact absurd trivial happends
      | read n => exact absurd trivial happends
      | size => exact absurd trivial happends
      | pos => exact absurd trivial happends
      | atEnd => exact absurd trivial happends

theorem inSync_open {path : String} {files : Files} (hnew : files path = none) {f : FopenAdapter 64} {v : VectorAdapter}
    (hf : StorageAdapter.open_ path .ReadWrite { files := files } = (some (), f))
    (hv : StorageAdapter.open_ path .ReadWrite ({} : VectorAdapter) = (some (), v)) : InSync path f v := by
  have hpath : path ≠ "" := by
    rintro rfl
    simp [StorageAdapter.open_, FopenAdapter.open_, Files.fopen, FopenAdapter.seek, FopenAdapter.onHandle] at hf
  simp only [StorageAdapter.open_, FopenAdapter.open_, Files.fopen, hpath, FopenAdapter.streamMode] at hf
  cases hv
  cases hf
  have hzero : FopenAdapter.toLong 64 0 = 0 := toLong_of_lt (by decide)
  exact ⟨rfl, by simp [FopenAdapter.seek, FopenAdapter.onHandle, Files.content, hnew, hzero]⟩

/-- **The file adapter and the in-memory adapter agree** exactly on calls that only append. -/
theorem agree_iff {path : String} {files : Files} (hnew : files path = none) {f : FopenAdapter 64} {v : VectorAdapter}
    (hf : StorageAdapter.open_ path .ReadWrite { files := files } = (some (), f))
    (hv : StorageAdapter.open_ path .ReadWrite ({} : VectorAdapter) = (some (), v)) {calls : List AdapterCall}
    (hcalls : Along watch Allowed (v, none) calls) : Agree path f v calls ↔ Along step Appends v calls :=
  agree_iff_of_inSync (inSync_open hnew hf hv) hcalls

theorem agree_iff_rereading : ∃ (f : FopenAdapter 64) (v : VectorAdapter),
    StorageAdapter.open_ "db" .ReadWrite ({ files := fun _ => none } : FopenAdapter 64) = (some (), f) ∧
    StorageAdapter.open_ "db" .ReadWrite ({} : VectorAdapter) = (some (), v) ∧
    (Agree "db" f v [.write [1, 2], .seek 0, .read 1] ↔ Along step Appends v [.write [1, 2], .seek 0, .read 1]) := by
  refine ⟨_, _, rfl, rfl, agree_iff rfl rfl rfl ?_⟩
  exact ⟨by decide, by decide, by decide, trivial⟩

/-- `StorageIO::write` with a position: the vector's first byte is replaced, the file gets one more. -/
theorem not_agree_overwriting : ∃ (f : FopenAdapter 64) (v : VectorAdapter),
    StorageAdapter.open_ "db" .ReadWrite ({ files := fun _ => none } : FopenAdapter 64) = (some (), f) ∧
    StorageAdapter.open_ "db" .ReadWrite ({} : VectorAdapter) = (some (), v) ∧
    Along watch Allowed (v, none) [.write [1, 2], .seek 0, .write [3]] ∧
    ¬ Agree "db" f v [.write [1, 2], .seek 0, .write [3]] := by
  refine ⟨_, _, rfl, rfl, ⟨by decide, by decide, by decide, trivial⟩, ?_⟩
  rintro ⟨-, hcontent⟩
  exact absurd hcontent (by decide)

end CppDb
