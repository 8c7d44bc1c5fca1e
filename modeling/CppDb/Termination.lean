import CppDb.Delivery
import CppDb.Lib.While
import CppDb.Replay
import CppDb.Restart

/-!
# When verification ends

The loop over the blocks of the log gets on by reading, and a last block that cannot be read is passed over
without: `verifyLog_ends_iff` says that verification ends unless the adapter goes on refusing the last block, and
that every turn gets on unless it refuses it once.
-/

namespace CppDb
open Embed
open StorageAdapter (pos size)
open ReadableAdapter (Ok bytes)

/-- A read inside the content moves past what it returns, or it is refused and nothing moves. -/
class RefusingAdapter (A : Type) [StorageAdapter A] where
  /-- The position is inside the content. -/
  Within : A → Prop
  pos_le {d : A} (h : Within d) : pos d ≤ size d
  read_some {d d' : A} {n : ℕ} {v : Raw n} (h : Within d) (hn : pos d + n ≤ size d) (h0 : 0 < n)
    (hread : StorageAdapter.read n d = (some v, d')) : Within d' ∧ pos d' = pos d + n ∧ size d' = size d
  read_none {d d' : A} {n : ℕ} (h : Within d) (hn : pos d + n ≤ size d) (h0 : 0 < n)
    (hread : StorageAdapter.read n d = (none, d')) : Within d' ∧ pos d' = pos d ∧ size d' = size d
  seek_start {d d' : A} (h : Within d) (hseek : StorageAdapter.seek 0 d = (some (), d')) : Within d'

/-- An adapter that can be read refuses nothing. -/
instance {A : Type} [StorageAdapter A] [ReadableAdapter A] : RefusingAdapter A where
  Within := Ok
  pos_le h := by
    rw [ReadableAdapter.size_eq h]
    exact ReadableAdapter.pos_le h
  read_some {d d' n v} h hn h0 hread := by
    rw [ReadableAdapter.size_eq h] at hn
    obtain ⟨d₁, hread₁, hok, hb, hp⟩ := ReadableAdapter.read_some h hn
    rw [hread₁] at hread
    cases hread
    exact ⟨hok, hp, by rw [ReadableAdapter.size_eq hok, hb, ReadableAdapter.size_eq h]⟩
  read_none {d d' n} h hn h0 hread := by
    rw [ReadableAdapter.size_eq h] at hn
    obtain ⟨d₁, hread₁, -⟩ := ReadableAdapter.read_some h hn
    rw [hread₁] at hread
    cases hread
  seek_start {d d'} h hseek := by
    obtain ⟨d₁, hseek₁, hok, -⟩ := ReadableAdapter.seek_some h (Nat.zero_le _)
    rw [hseek₁] at hseek
    cases hseek
    exact hok

namespace FopenAdapter
variable {bits n : ℕ} {f : FopenAdapter bits} {stream : FILE}

theorem read_inside (h : f.handle = some stream) (hreadable : stream.readable = true)
    (hn : stream.pos + n ≤ (f.files.content stream.path).length) : StorageAdapter.read n f =
      (some ⟨slice (f.files.content stream.path) stream.pos n, length_slice hn⟩,
        { f with handle := some { stream with pos := stream.pos + n } }) := by
  simp only [StorageAdapter.read, read, onHandle, h, Files.fread, hreadable, if_true, length_slice hn, dif_pos]

theorem read_refused (h : f.handle = some stream) (hreadable : stream.readable = false) (hn : 0 < n) :
    StorageAdapter.read n f = (none, f) := by
  have hlen : ¬ ([] : Bytes).length = n := Nat.ne_of_lt hn
  obtain ⟨files, filePath, handle, mode⟩ := f
  cases h
  simp only [StorageAdapter.read, read, onHandle, Files.fread, hreadable, Bool.false_eq_true, if_false, dif_neg hlen]

end FopenAdapter

instance {bits : ℕ} : RefusingAdapter (FopenAdapter bits) where
  Within d := pos d ≤ size d
  pos_le h := h
  read_some {d d' n v} h hn h0 hread := by
    rcases hhandle : d.handle with _ | stream
    · simp only [StorageAdapter.read, FopenAdapter.read, FopenAdapter.onHandle, hhandle] at hread
      cases hread
    · have hn : stream.pos + n ≤ (d.files.content stream.path).length := by
        simpa [StorageAdapter.pos, StorageAdapter.size, FopenAdapter.pos, FopenAdapter.size, hhandle] using hn
      rcases hreadable : stream.readable with _ | _
      · rw [FopenAdapter.read_refused hhandle hreadable h0] at hread
        cases hread
      · rw [FopenAdapter.read_inside hhandle hreadable hn] at hread
        cases hread
        simp only [StorageAdapter.pos, StorageAdapter.size, FopenAdapter.pos, FopenAdapter.size, hhandle,
          Option.map_some, Option.getD_some]
        exact ⟨hn, trivial, trivial⟩
  read_none {d d' n} h hn h0 hread := by
    rcases hhandle : d.handle with _ | stream
    · simp only [StorageAdapter.read, FopenAdapter.read, FopenAdapter.onHandle, hhandle] at hread
      cases hread
      exact ⟨h, rfl, rfl⟩
    · have hn : stream.pos + n ≤ (d.files.content stream.path).length := by
        simpa [StorageAdapter.pos, StorageAdapter.size, FopenAdapter.pos, FopenAdapter.size, hhandle] using hn
      rcases hreadable : stream.readable with _ | _
      · rw [FopenAdapter.read_refused hhandle hreadable h0] at hread
        cases hread
        exact ⟨h, rfl, rfl⟩
      · rw [FopenAdapter.read_inside hhandle hreadable hn] at hread
        cases hread
  seek_start {d d'} h hseek := by
    rcases hhandle : d.handle with _ | stream
    · simp only [StorageAdapter.seek, FopenAdapter.seek, FopenAdapter.onHandle, hhandle] at hseek
      cases hseek
    · have hlong : FopenAdapter.toLong bits 0 = ((0 : ℕ) : ℤ) := by simp [FopenAdapter.toLong]
      rw [FopenAdapter.seek_of_toLong hhandle hlong] at hseek
      cases hseek
      exact Nat.zero_le _

instance : RefusingAdapter QFileAdapter where
  Within d := pos d ≤ size d
  pos_le h := h
  read_some {d d' n v} h hn h0 hread := by
    have hn : d.position + n ≤ d.content.length := hn
    by_cases hreadable : d.canRead = true
    · simp only [StorageAdapter.read, QFileAdapter.read, hreadable, if_true, length_slice hn] at hread
      cases hread
      exact ⟨hn, rfl, rfl⟩
    · simp only [StorageAdapter.read, QFileAdapter.read, hreadable] at hread
      cases hread
  read_none {d d' n} h hn h0 hread := by
    have hn : d.position + n ≤ d.content.length := hn
    by_cases hreadable : d.canRead = true
    · simp only [StorageAdapter.read, QFileAdapter.read, hreadable, if_true, length_slice hn] at hread
      cases hread
    · simp only [StorageAdapter.read, QFileAdapter.read, hreadable] at hread
      cases hread
      exact ⟨h, rfl, rfl⟩
  seek_start {d d'} h hseek := by
    by_cases hopen : d.openMode.isSome = true
    · rw [show StorageAdapter.seek 0 d = (some (), { d with position := 0 }) by
        simp [StorageAdapter.seek, QFileAdapter.seek, hopen]] at hseek
      cases hseek
      exact Nat.zero_le _
    · rw [show StorageAdapter.seek 0 d = (none, d) by simp [StorageAdapter.seek, QFileAdapter.seek, hopen]] at hseek
      cases hseek

instance : RefusingAdapter QMemoryDeviceAdapter where
  Within d := pos d ≤ size d
  pos_le h := h
  read_some {d d' n v} h hn h0 hread := by
    have hn : d.position + n ≤ d.buffer.length := hn
    by_cases hreadable : d.canRead = true
    · simp only [StorageAdapter.read, QMemoryDeviceAdapter.read, hreadable, if_true, length_slice hn] at hread
      cases hread
      exact ⟨hn, rfl, rfl⟩
    · simp only [StorageAdapter.read, QMemoryDeviceAdapter.read, hreadable] at hread
      cases hread
  read_none {d d' n} h hn h0 hread := by
    have hn : d.position + n ≤ d.buffer.length := hn
    by_cases hreadable : d.canRead = true
    · simp only [StorageAdapter.read, QMemoryDeviceAdapter.read, hreadable, if_true, length_slice hn] at hread
      cases hread
    · simp only [StorageAdapter.read, QMemoryDeviceAdapter.read, hreadable] at hread
      cases hread
      exact ⟨h, rfl, rfl⟩
  seek_start {d d'} h hseek := by
    by_cases hopen : d.openMode.isSome = true
    · rw [show StorageAdapter.seek 0 d = (some (), { d with position := 0 }) by
        simp [StorageAdapter.seek, QMemoryDeviceAdapter.seek, hopen]] at hseek
      cases hseek
      exact Nat.zero_le _
    · rw [show StorageAdapter.seek 0 d = (none, d) by
        simp [StorageAdapter.seek, QMemoryDeviceAdapter.seek, hopen]] at hseek
      cases hseek

/-! ### Nothing but the loops goes on -/

namespace Serializer
variable {A : Type} [StorageAdapter A] {S : Schema}

theorem ends_forMatchingFields {σ : Type} {mayAbort : Prop} {isMatch : Field → Bool}
    {body : Field → Bool → Proc σ Bool} {fields : List Field} (h : ∀ f moved, Proc.Ends mayAbort (body f moved)) :
    Proc.Ends mayAbort (forMatchingFields isMatch body fields) := by
  refine Proc.Ends.foldlM (fun f _ success => ?_) false
  split
  · exact (h f success).attempt.bind fun _ => Proc.Ends.pure _
  · exact Proc.Ends.pure _

theorem ends_constructFindOperationType {σ : Type} {mayAbort : Prop} {receiver : List Field → Proc σ Unit}
    (h : ∀ types, Proc.Ends mayAbort (receiver types)) (ids : List UInt8) (n remaining : ℕ) (pack : List Field) :
    Proc.Ends mayAbort (constructFindOperationType S receiver ids n remaining pack) := by
  induction remaining generalizing pack with
  | zero => exact Proc.Ends.pure _
  | succ remaining ih =>
    refine Proc.Ends.forM fun type _ => ?_
    split
    · split
      · exact h _
      · exact ih _
    · exact Proc.Ends.pure _

omit [StorageAdapter A] in
theorem ends_receiver_true {mayAbort : Prop} (op : Operation S) :
    Proc.Ends mayAbort (Decoding.receiver (A := A) op >>= fun _ => pure true) :=
  (Proc.Ends.modify _).bind fun _ => Proc.Ends.pure true

theorem ends_deserialize (S : Schema) : Proc.Ends True (deserialize (A := A) S) := by
  refine ends_readByte.zoom.bind fun entryType => ?_
  split
  · exact (ends_deserializeRecord S).zoom.bind fun r => Proc.Ends.modify _
  · refine ends_readByte.zoom.bind fun nFields => (Proc.Ends.require _).bind fun _ => ?_
    refine (ends_readByte.times _).zoom.bind fun ids => ends_constructFindOperationType (fun types => ?_) _ _ _ _
    exact (ends_readFindFields types).zoom.bind fun fields => Proc.Ends.modify _
  · refine ends_readByte.zoom.bind fun keyFieldId => ends_readBool.zoom.bind fun insertIfNotPresent => ?_
    refine (ends_deserializeRecord S).zoom.bind fun r => ?_
    refine (ends_forMatchingFields fun keyField _ => ?_).bind fun _ => Proc.Ends.require _
    exact (ends_readValue _).zoom.bind fun v => ends_receiver_true _
  · refine ends_readByte.zoom.bind fun keyFieldId => ends_readByte.zoom.bind fun arrayFieldId => ?_
    refine ends_readBool.zoom.bind fun insertIfNotPresent => ?_
    refine (ends_forMatchingFields fun keyField _ => ?_).bind fun _ => Proc.Ends.require _
    refine (ends_readValue _).zoom.bind fun v => ends_forMatchingFields fun arrayField moved => ?_
    dsimp only
    split
    · exact (ends_deserializeRecord S).zoom.bind fun r => ends_receiver_true _
    · exact (ends_readValue _).zoom.bind fun a => ends_receiver_true _
  · refine ends_readByte.zoom.bind fun keyFieldId => ?_
    refine (ends_forMatchingFields fun keyField _ => ?_).bind fun _ => Proc.Ends.require _
    exact (ends_readValue _).zoom.bind fun v => ends_receiver_true _
  · exact Proc.Ends.abort trivial _

theorem ends_isOperationCompletionMarker : Proc.Ends True (isOperationCompletionMarker (A := A)) := by
  refine Proc.Ends.read.bind fun d => ends_readByte.attempt.bind fun marker => ?_
  split
  · exact Proc.Ends.pure _
  · exact (Proc.Ends.ofCall _).attempt.bind fun _ => Proc.Ends.pure _

end Serializer

namespace Verification
variable {B : ℕ → Type} [StaticDataBuffer B] {A : Type} [StorageAdapter A] {S : Schema}

omit [StorageAdapter A] in
theorem ends_verifyEntry (pass : ℕ) : Proc.Ends True (verifyEntry (B := B) (A := A) (S := S) pass) := by
  refine Proc.Ends.read.bind fun v => (ends_read 2).zoom.bind fun wholeEntrySize => ?_
  refine (Proc.Ends.require _).bind fun _ => (ends_read 4).zoom.bind fun operationId => ?_
  refine (Proc.Ends.require _).bind fun _ => Proc.Ends.read.bind fun v₁ => ?_
  have hskip : ∀ (c : Prop) [Decidable c] (p : ℕ), Proc.Ends True (if c then onBlockBuffer (StorageIo.seek p)
      else onDecoding (Serializer.deserialize S) : Proc (Verification B A S) Unit) := by
    intro c _ p
    split
    · exact (Proc.Ends.ofCall _).zoom
    · exact (Serializer.ends_deserialize S).zoom
  dsimp only
  split
  · refine Serializer.ends_isOperationCompletionMarker.zoom.bind fun isMarker => ?_
    split
    · exact (Proc.Ends.modify _).bind fun _ => hskip _ _
    · exact hskip _ _
  · exact hskip _ _

omit [StorageAdapter A] in
theorem ends_verifyEntries (pass itemCount : ℕ) :
    Proc.Ends True (verifyEntries (B := B) (A := A) (S := S) pass itemCount) := by
  induction itemCount with
  | zero => exact Proc.Ends.pure _
  | succ n ih => exact (ends_verifyEntry pass).bind fun _ => ih

omit [StaticDataBuffer B] [StorageAdapter A] in
theorem ends_malformedBlock (isLastBlock : Bool) :
    Proc.Ends True (malformedBlock (B := B) (A := A) (S := S) isLastBlock) := by
  unfold malformedBlock
  split
  · exact Proc.Ends.pure _
  · exact Proc.Ends.abort trivial _

variable [Wheathash]

theorem ends_verifyBlock (pass : ℕ) : Proc.Ends True (verifyBlock (B := B) (A := A) (S := S) pass) := by
  refine Proc.Ends.read.bind fun v => (Proc.Ends.ofCall _).zoom.attempt.bind fun data => ?_
  split
  · exact ends_malformedBlock _
  · refine (Proc.Ends.modify _).bind fun _ => Proc.Ends.read.bind fun v₁ => ?_
    dsimp only
    split
    · exact ends_malformedBlock _
    · exact (ends_read 2).zoom.bind fun itemCount => (Proc.Ends.require _).bind fun _ => ends_verifyEntries pass _

/-! ### Turns of the loop over the blocks -/

/-- The condition of the loop. -/
def BlockLeft (d : A) : Prop := ¬ StorageAdapter.atEnd d ∧ size d - pos d ≥ BlockSize

instance : DecidablePred (BlockLeft (A := A)) := fun _ => inferInstanceAs (Decidable (_ ∧ _))

/-- The last block comes next, and the adapter refuses to read it. -/
def LastRefused (d : A) : Prop :=
  BlockLeft d ∧ size d - pos d = BlockSize ∧ (StorageAdapter.read BlockSize d).1 = none

/-- Likewise, this time and every time after it. -/
def LastRefusedForever (d : A) : Prop := ∀ n, LastRefused ((fun d => (StorageAdapter.read BlockSize d).2)^[n] d)

omit [Wheathash] in
theorem LastRefusedForever.next {d : A} (h : LastRefusedForever d) :
    LastRefusedForever (StorageAdapter.read BlockSize d).2 := fun n => h (n + 1)

/-- The loop over the blocks goes round once. -/
def Turn (pass : ℕ) : Verification B A S → Verification B A S → Prop :=
  Proc.Turn (fun v => BlockLeft v.logFile) (verifyBlock pass)

/-- The loop over the blocks comes to the second state from the first. -/
def Comes (pass : ℕ) : Verification B A S → Verification B A S → Prop :=
  Proc.Comes (fun v => BlockLeft v.logFile) (verifyBlock pass)

theorem verifyBlocks_eq (pass : ℕ) : verifyBlocks (B := B) (A := A) (S := S) pass =
    Proc.whileLoop (fun v => BlockLeft v.logFile) (verifyBlock pass) := by
  funext fuel
  induction fuel with
  | zero => rfl
  | succ fuel ih =>
    rw [verifyBlocks, Proc.whileLoop, ih]
    rfl

theorem logFile_verifyBlock (pass : ℕ) (v : Verification B A S) :
    ((verifyBlock pass).run v).2.logFile = (StorageAdapter.read BlockSize v.logFile).2 := by
  rcases hcall : StorageAdapter.read BlockSize v.logFile with ⟨x, d⟩
  have hkept : KeptByEntries (S := S) fun v : Verification B A S => v.logFile = d :=
    { buffer := fun _ _ h => h
      completed := fun _ _ h => h
      decoding := (Proc.Keeps.any _).zoom (fun _ _ => trivial) fun _ _ h _ => h }
  have hrest : ∀ p : Proc (Verification B A S) Unit, Proc.Keeps (fun v => v.logFile = d) p (fun _ => True) →
      (p.run (v.setLog d)).2.logFile = d := fun p hp => (hp (v.setLog d) rfl).1
  rw [verifyBlock, Proc.run_read_bind]
  dsimp only
  cases x with
  | none =>
    have hread : (onLogFile (StorageIo.read BlockSize)).run v = (.fail, v.setLog d) :=
      run_onLogFile (Proc.run_ofCall_none hcall)
    rw [Proc.run_bind_of_ret (Proc.run_attempt_of_fail hread)]
    exact hrest _ (keeps_malformedBlock _)
  | some data =>
    have hread : (onLogFile (StorageIo.read BlockSize)).run v = (.ret data, v.setLog d) :=
      run_onLogFile (Proc.run_ofCall_some hcall)
    rw [Proc.run_bind_of_ret (Proc.run_attempt_of_ret hread)]
    refine hrest _ (Proc.Keeps.bind (Q := fun _ => True) (Proc.Keeps.modify fun _ h => h) fun _ _ => ?_)
    refine Proc.Keeps.read.bind fun v₁ _ => ?_
    split
    · exact keeps_malformedBlock _
    · refine (keeps_onBlockBuffer hkept _).bind fun itemCount _ => (Proc.Keeps.require _).bind fun _ _ => ?_
      exact keeps_verifyEntries hkept pass _

theorem turn_of_lastRefused (pass : ℕ) {v : Verification B A S} (h : LastRefused v.logFile) :
    Turn pass v (v.setLog (StorageAdapter.read BlockSize v.logFile).2) := by
  refine ⟨h.1, ?_⟩
  rw [run_verifyBlock_refused pass h.2.2, malformedBlock, if_pos (beq_iff_eq.2 h.2.1)]
  rfl

/-- What a turn makes of the log: it moves past a block, or the last block was refused. -/
theorem turn_cases [RefusingAdapter A] {pass : ℕ} {v v' : Verification B A S} (hw : RefusingAdapter.Within v.logFile)
    (h : Turn pass v v') : RefusingAdapter.Within v'.logFile ∧ size v'.logFile = size v.logFile ∧
      (pos v'.logFile = pos v.logFile + BlockSize ∨ LastRefused v.logFile ∧ pos v'.logFile = pos v.logFile ∧
        v' = v.setLog (StorageAdapter.read BlockSize v.logFile).2) := by
  have hlog := logFile_verifyBlock pass v
  rw [h.2] at hlog
  have hlog : v'.logFile = (StorageAdapter.read BlockSize v.logFile).2 := hlog
  have hblock := blockSize_pos
  have hroom : pos v.logFile + BlockSize ≤ size v.logFile := by
    have hsize := h.1.2
    omega
  rcases hread : (StorageAdapter.read BlockSize v.logFile).1 with _ | data
  · obtain ⟨hw', hp, hs⟩ := RefusingAdapter.read_none hw hroom hblock (Prod.ext hread rfl)
    rw [hlog]
    refine ⟨hw', hs, Or.inr ⟨?_, hp, ?_⟩⟩
    all_goals
      have hrun := h.2
      rw [run_verifyBlock_refused pass hread, malformedBlock] at hrun
      split at hrun
    · next hlast => exact ⟨h.1, beq_iff_eq.1 hlast, hread⟩
    · cases hrun
    · exact (congrArg Prod.snd hrun).symm
    · cases hrun
  · obtain ⟨hw', hp, hs⟩ := RefusingAdapter.read_some hw hroom hblock (Prod.ext hread rfl)
    rw [hlog]
    exact ⟨hw', hs, Or.inl hp⟩

/-! ### The loop over the blocks halts -/

theorem not_acc_of_lastRefusedForever (pass : ℕ) {v : Verification B A S} (h : LastRefusedForever v.logFile) :
    ¬ Acc (fun v' v => Turn pass v v') v := by
  intro hacc
  induction hacc with
  | intro v _ ih => exact ih _ (turn_of_lastRefused pass (h 0)) h.next

theorem acc_of_comes {pass : ℕ} {v v' : Verification B A S} (hacc : Acc (fun v' v => Turn pass v v') v)
    (hcomes : Comes pass v v') : Acc (fun v' v => Turn pass v v') v' := by
  induction hcomes with
  | refl => exact hacc
  | tail _ hturn ih => exact ih.inv hturn

variable [RefusingAdapter A]
open RefusingAdapter (Within)

/-- The bytes left grow fewer with every block, and a last block is refused only finitely often. -/
theorem acc_turn {pass : ℕ} {v : Verification B A S} (hw : Within v.logFile)
    (h : ∀ v', Comes pass v v' → ¬ LastRefusedForever v'.logFile) : Acc (fun v' v => Turn pass v v') v := by
  induction hleft : size v.logFile - pos v.logFile using Nat.strong_induction_on generalizing v with
  | _ left ih =>
    have hmoves : ∀ u : Verification B A S, Within u.logFile → size u.logFile - pos u.logFile = left →
        (∀ v', Comes pass u v' → ¬ LastRefusedForever v'.logFile) → ∀ u', Turn pass u u' →
        pos u'.logFile = pos u.logFile + BlockSize → Acc (fun v' v => Turn pass v v') u' := by
      intro u hu hleft hforever u' hturn hpos
      obtain ⟨hu', hsize, -⟩ := turn_cases hu hturn
      have hroom := hturn.1.2
      have hblock := blockSize_pos
      exact ih (size u'.logFile - pos u'.logFile) (by omega) hu'
        (fun v' hcomes => hforever v' (Relation.ReflTransGen.head hturn hcomes)) rfl
    -- the number of times the block is refused again
    obtain ⟨n, hn⟩ := not_forall.1 (h v Relation.ReflTransGen.refl)
    induction n generalizing v with
    | zero =>
      refine Acc.intro v fun v' hturn => ?_
      obtain ⟨-, -, hpos | ⟨hrefused, -⟩⟩ := turn_cases hw hturn
      · exact hmoves v hw hleft h v' hturn hpos
      · exact absurd hrefused hn
    | succ n ihn =>
      refine Acc.intro v fun v' hturn => ?_
      obtain ⟨hw', hsize, hpos | ⟨-, hpos, rfl⟩⟩ := turn_cases hw hturn
      · exact hmoves v hw hleft h v' hturn hpos
      · exact ihn hw' (fun v' hcomes => h v' (Relation.ReflTransGen.head hturn hcomes)) (by rw [hsize, hpos, hleft]) hn

theorem halts_verifyBlocks_iff (pass : ℕ) {v : Verification B A S} (hw : Within v.logFile) :
    Proc.Halts (verifyBlocks pass) v ↔ ∀ v', Comes pass v v' → ¬ LastRefusedForever v'.logFile := by
  rw [verifyBlocks_eq, Proc.whileLoop_halts_iff (ends_verifyBlock pass)]
  constructor
  · intro hacc v' hcomes hforever
    exact not_acc_of_lastRefusedForever pass hforever (acc_of_comes hacc hcomes)
  · intro h
    exact acc_turn hw h

theorem within_of_comes {pass : ℕ} {v v' : Verification B A S} (hw : Within v.logFile) (h : Comes pass v v') :
    Within v'.logFile := by
  induction h with
  | refl => exact hw
  | tail _ hturn ih => exact (turn_cases ih hturn).1

/-- A turn moves the position, or the function returns or aborts. -/
def GetsOn (pass : ℕ) (v : Verification B A S) : Prop :=
  match (verifyBlock pass).run v with
  | (.ret _, v') => pos v.logFile < pos v'.logFile
  | (.fail, _) | (.abort _, _) => True
  | (.outOfFuel, _) => False

theorem getsOn_iff (pass : ℕ) {v : Verification B A S} (hw : Within v.logFile) (hleft : BlockLeft v.logFile) :
    GetsOn pass v ↔ ¬ LastRefused v.logFile := by
  have hblock := blockSize_pos
  unfold GetsOn
  constructor
  · intro hgets hrefused
    have hroom : pos v.logFile + BlockSize ≤ size v.logFile := by
      have hsize := hleft.2
      omega
    obtain ⟨-, hpos, -⟩ := RefusingAdapter.read_none hw hroom hblock (Prod.ext hrefused.2.2 rfl)
    rw [(turn_of_lastRefused pass hrefused).2] at hgets
    exact absurd hpos (Nat.ne_of_gt hgets)
  · intro hrefused
    have hends := ends_verifyBlock pass v
    rcases hrun : (verifyBlock pass).run v with ⟨_ | _ | _ | _, v'⟩
    · obtain ⟨-, -, hpos | ⟨hlast, -⟩⟩ := turn_cases hw ⟨hleft, hrun⟩
      · change pos v.logFile < pos v'.logFile
        omega
      · exact absurd hlast hrefused
    · trivial
    · trivial
    · rw [hrun] at hends
      exact hends

end Verification

/-! ### Both passes -/

section
variable {B : ℕ → Type} [StaticDataBuffer B] {A : Type} [StorageAdapter A] [Wheathash] {S : Schema}
open Verification

/-- A turn of the loop in that pass of `verifyLog` starts in the state `v`. -/
inductive DbWAL.TurnAt (w : DbWAL B A) : (pass : ℕ) → Verification B A S → Prop
  | first {v : Verification B A S} (hpos : pos w.logFile = 0) (hcomes : Comes 1 (started w.logFile) v)
      (hleft : BlockLeft v.logFile) : TurnAt w 1 v
  | second {v₁ v : Verification B A S} {d : A} (hpos : pos w.logFile = 0) (hcomes₁ : Comes 1 (started w.logFile) v₁)
      (hstop : ¬ BlockLeft v₁.logFile) (hseek : StorageAdapter.seek 0 v₁.logFile = (some (), d))
      (hcomes : Comes 2 (v₁.setLog d) v) (hleft : BlockLeft v.logFile) : TurnAt w 2 v

/-- `verifyLog` ends. -/
def DbWAL.Terminates (S : Schema) (w : DbWAL B A) : Prop :=
  ∃ bound, ∀ fuel, bound < fuel → (w.verifyLog S fuel).1 ≠ .outOfFuel

/-- Every turn of both passes gets on. -/
def DbWAL.Progresses (S : Schema) (w : DbWAL B A) : Prop :=
  ∀ pass (v : Verification B A S), w.TurnAt pass v → GetsOn pass v

theorem DbWAL.terminates_iff_halts {w : DbWAL B A} (hpos : pos w.logFile = 0) : w.Terminates S ↔
    Proc.Halts (verifyBlocks 1) (started w.logFile : Verification B A S) ∧
      ∀ v₁ : Verification B A S, Comes 1 (started w.logFile) v₁ → ¬ BlockLeft v₁.logFile →
        ∀ d, StorageAdapter.seek 0 v₁.logFile = (some (), d) → Proc.Halts (verifyBlocks 2) (v₁.setLog d) := by
  have hsteady : ∀ pass, Proc.Steady (verifyBlocks (B := B) (A := A) (S := S) pass) := by
    intro pass
    rw [verifyBlocks_eq]
    exact Proc.steady_whileLoop _ _
  have hret : ∀ v₁ : Verification B A S, (∃ fuel, (verifyBlocks 1 fuel).run (started w.logFile) = (.ret (), v₁)) ↔
      Comes 1 (started w.logFile) v₁ ∧ ¬ BlockLeft v₁.logFile := by
    intro v₁
    rw [verifyBlocks_eq]
    exact Proc.run_whileLoop_ret_iff
  have hverify : w.Terminates S ↔ Proc.Halts (fun fuel => verifyBlocks 1 fuel >>= fun _ =>
      Verification.onLogFile (StorageIo.seek 0) >>= fun _ => verifyBlocks 2 fuel)
        (started w.logFile : Verification B A S) := by
    refine exists_congr fun bound => forall_congr' fun fuel => forall_congr' fun _ => not_congr ?_
    rw [← run_verify hpos fuel]
    rfl
  rw [hverify, Proc.halts_bind_iff (hsteady 1)]
  refine and_congr_right fun _ => ?_
  constructor
  · intro h v₁ hcomes hstop d hseek
    obtain ⟨fuel, hrun⟩ := (hret v₁).2 ⟨hcomes, hstop⟩
    have hlog : (Verification.onLogFile (B := B) (S := S) (StorageIo.seek 0)).run v₁ = (.ret (), v₁.setLog d) :=
      Verification.run_onLogFile (Proc.run_ofCall_some hseek)
    exact ((Proc.halts_bind_iff (Proc.Steady.const _)).1 (h fuel () v₁ hrun)).2 0 () _ hlog
  · intro h fuel u v₁ hrun
    obtain ⟨hcomes, hstop⟩ := (hret v₁).1 ⟨fuel, hrun⟩
    have hends : Proc.Ends True (Verification.onLogFile (B := B) (A := A) (S := S) (StorageIo.seek 0)) :=
      (Proc.Ends.ofCall _).zoom
    refine (Proc.halts_bind_iff (Proc.Steady.const _)).2 ⟨hends.halts v₁, fun _ _ v₂ hlog => ?_⟩
    rcases hseek : StorageAdapter.seek 0 v₁.logFile with ⟨_ | _, d⟩
    · have hfail : (StorageIo.seek 0).run v₁.logFile = (.fail, d) := Proc.run_ofCall_none hseek
      rw [Verification.run_onLogFile hfail] at hlog
      cases hlog
    · have hdone : (StorageIo.seek 0).run v₁.logFile = (.ret (), d) := Proc.run_ofCall_some hseek
      rw [Verification.run_onLogFile hdone] at hlog
      cases hlog
      exact h v₁ hcomes hstop d hseek

section
variable [RefusingAdapter A] {w : DbWAL B A} {pass : ℕ} {v : Verification B A S}
open RefusingAdapter (Within)

theorem within_setLog {v₁ : Verification B A S} {d : A} (hw : Within w.logFile)
    (hcomes : Comes 1 (started w.logFile) v₁) (hseek : StorageAdapter.seek 0 v₁.logFile = (some (), d)) :
    Within (v₁.setLog d).logFile :=
  RefusingAdapter.seek_start (within_of_comes (v := started w.logFile) hw hcomes) hseek

theorem DbWAL.TurnAt.within (hw : Within w.logFile) (h : w.TurnAt pass v) : Within v.logFile := by
  cases h with
  | first _ hcomes _ => exact within_of_comes (v := started w.logFile) hw hcomes
  | second _ hcomes₁ _ hseek hcomes _ => exact within_of_comes (within_setLog hw hcomes₁ hseek) hcomes

omit [RefusingAdapter A] in
theorem DbWAL.TurnAt.blockLeft (h : w.TurnAt pass v) : BlockLeft v.logFile := by
  cases h with
  | first _ _ hleft => exact hleft
  | second _ _ _ _ _ hleft => exact hleft

omit [RefusingAdapter A] in
theorem DbWAL.TurnAt.pos_eq (h : w.TurnAt pass v) : pos w.logFile = 0 := by
  cases h with
  | first hpos _ _ => exact hpos
  | second hpos _ _ _ _ _ => exact hpos

omit [RefusingAdapter A] in
theorem DbWAL.terminates_of_pos_ne (h : pos w.logFile ≠ 0) : w.Terminates S := by
  refine ⟨0, fun fuel _ => ?_⟩
  have hrun : (verify fuel).run ({ logFile := w.logFile, blockBuffer := .new } : Verification B A S) =
      (.fail, { logFile := w.logFile, blockBuffer := .new }) := by
    rw [verify, Proc.run_read_bind]
    exact Proc.run_bind_of_fail (Proc.run_require_neg h _)
  rw [verifyLog, hrun]
  intro hfuel
  cases hfuel

end

/-- **Termination.** `verifyLog` ends, whatever the log holds and whatever reads the adapter refuses, unless the
last block comes next in one of the passes and is refused there and every time after. Every turn of the loop moves
the position, returns or aborts exactly when the last block is never refused. -/
theorem DbWAL.verifyLog_ends_iff [RefusingAdapter A] {w : DbWAL B A} (hw : RefusingAdapter.Within w.logFile) :
    (w.Terminates S ↔ ∀ pass (v : Verification B A S), w.TurnAt pass v → ¬ LastRefusedForever v.logFile) ∧
      (w.Progresses S ↔ ∀ pass (v : Verification B A S), w.TurnAt pass v → ¬ LastRefused v.logFile) := by
  constructor
  · by_cases hpos : pos w.logFile = 0
    · rw [terminates_iff_halts hpos, halts_verifyBlocks_iff 1 hw]
      constructor
      · rintro ⟨hfirst, hsecond⟩ pass v hturn
        cases hturn with
        | first _ hcomes _ => exact hfirst v hcomes
        | second _ hcomes₁ hstop hseek hcomes _ =>
          have hhalts := hsecond _ hcomes₁ hstop _ hseek
          exact (halts_verifyBlocks_iff 2 (within_setLog hw hcomes₁ hseek)).1 hhalts v hcomes
      · intro h
        refine ⟨fun v hcomes hforever => h 1 v (TurnAt.first hpos hcomes (hforever 0).1) hforever, ?_⟩
        intro v₁ hcomes₁ hstop d hseek
        refine (halts_verifyBlocks_iff 2 (within_setLog hw hcomes₁ hseek)).2 fun v hcomes hforever => ?_
        exact h 2 v (TurnAt.second hpos hcomes₁ hstop hseek hcomes (hforever 0).1) hforever
    · exact iff_of_true (terminates_of_pos_ne hpos) fun pass v hturn => absurd hturn.pos_eq hpos
  · refine forall_congr' fun pass => forall_congr' fun v => forall_congr' fun hturn => ?_
    exact getsOn_iff pass (hturn.within hw) hturn.blockLeft

omit [Wheathash] in
theorem not_lastRefused [ReadableAdapter A] {d : A} (hd : Ok d) : ¬ LastRefused d := by
  rintro ⟨hleft, -, hread⟩
  have hroom := hleft.2
  have hblock := blockSize_pos
  rw [ReadableAdapter.size_eq hd] at hroom
  obtain ⟨d', hread', -⟩ := ReadableAdapter.read_some hd (n := BlockSize) (by omega)
  rw [hread'] at hread
  cases hread

end

section
open ByteSum

/-- One block of zeros. -/
def zeros : VectorAdapter := { data := List.replicate BlockSize 0 }

theorem verifyLog_ends_iff_zeros : (DbWAL.new zeros : DbWAL ListBuffer VectorAdapter).Terminates keySchema ∧
    (DbWAL.new zeros : DbWAL ListBuffer VectorAdapter).Progresses keySchema := by
  have hends := DbWAL.verifyLog_ends_iff (S := keySchema) (w := (.new zeros : DbWAL ListBuffer VectorAdapter)) trivial
  refine ⟨hends.1.2 fun pass v hturn hforever => ?_, hends.2.2 fun pass v hturn => ?_⟩
  · exact not_lastRefused (d := v.logFile) trivial (hforever 0)
  · exact not_lastRefused (d := v.logFile) trivial

/-- A buffer that holds one block, opened as `openLogFile` does it. -/
theorem not_verifyLog_ends : ¬ ∀ (d : QMemoryDeviceAdapter) (filePath : String)
    (w : DbWAL ListBuffer QMemoryDeviceAdapter), (DbWAL.openLogFile filePath).run (.new d) = (.ret (), w) →
      w.Terminates keySchema := by
  intro h
  obtain ⟨block, hsize⟩ : ∃ block : Bytes, block.length = BlockSize :=
    ⟨List.replicate BlockSize 0, List.length_replicate⟩
  have hterminates := h { buffer := block } "log" _ (run_openLogFile rfl)
  have hhalts := ((DbWAL.terminates_iff_halts rfl).1 hterminates).1
  refine (Verification.halts_verifyBlocks_iff 1 (Nat.zero_le _)).1 hhalts _ Relation.ReflTransGen.refl fun n => ?_
  rw [Function.iterate_fixed rfl]
  have hblock := blockSize_pos
  refine ⟨⟨fun hend => ?_, Nat.le_of_eq hsize.symm⟩, hsize, rfl⟩
  have hend : (false || decide (block.length ≤ 0)) = true := hend
  rw [hsize, Bool.false_or, decide_eq_true_iff] at hend
  omega

end

end CppDb
