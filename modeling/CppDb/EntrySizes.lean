import CppDb.LogDevice
import CppDb.WalRuns

/-!
# Entries of any size

`StoredIntact`: the entry of every call that has returned stands in the log where `verifyLog` reads it.
It holds as long as the space checks let entries go where they can be read back
(`storedIntact_of_roomOk`). They do not always: an entry of 4091 to 4094 bytes that finds another one in
the block gets a new block and ends under its checksum (`not_storedIntact`).
-/

namespace CppDb
open Embed
open ReadableAdapter (Ok bytes)
open MemoryAdapter (Fits)

/-- Where `verifyLog` finds the entries of a block: after the item count, and then after each other. -/
def readerPos (block : Bytes) : ℕ → ℕ
  | 0 => 2
  | i + 1 => readerPos block i + leNat (slice block (readerPos block i) 2)

/-- The `k`-th block of a log. -/
def blockAt (log : Bytes) (k : ℕ) : Bytes := slice log (BlockSize * k) BlockSize

/-- `verifyLog` reads `entry` as one of the entries of the log. -/
def HasEntry (log entry : Bytes) : Prop :=
  ∃ k i, BlockSize * (k + 1) ≤ log.length ∧ i < leNat ((blockAt log k).take 2) ∧
    slice (blockAt log k) (readerPos (blockAt log k) i) entry.length = entry

def System.StoredIntact {B : ℕ → Type} {A : Type} [StorageAdapter A] [ReadableAdapter A] {S : Schema}
    {T : Type} (s : System B A S T) : Prop :=
  ∀ l ∈ s.returned, HasEntry (bytes s.wal.logFile) l.entry

section
variable {S : Schema}

theorem slice_flatten {l : List Bytes} {n k : ℕ} (hl : ∀ b ∈ l, b.length = n) (hk : k < l.length)
    (base rest : Bytes) : slice (base ++ (l.flatten ++ rest)) (base.length + n * k) n = l[k] := by
  rw [slice, ← List.drop_drop, List.drop_left]
  induction l generalizing k with
  | nil => exact absurd hk (Nat.not_lt_zero k)
  | cons b l ih =>
    have hb := hl b (List.mem_cons_self ..)
    rw [List.flatten_cons, List.append_assoc]
    cases k with
    | zero => simp [← hb]
    | succ k =>
      rw [show n * (k + 1) = b.length + n * k by rw [hb]; ring, ← List.drop_drop, List.drop_left]
      exact ih (fun x hx => hl x (List.mem_cons_of_mem _ hx)) (by simpa using hk)

variable [Wheathash]

theorem drop_encodeBlock {es l r : List (Entry S)} {e : Entry S} (hes : GoodBlock es) (h : es = l ++ e :: r) :
    ∃ rest, (encodeBlock es).drop (2 + (entriesBytes l).length) = e.bytes ++ rest := by
  have hsplit : entriesBytes es = entriesBytes l ++ (e.bytes ++ entriesBytes r) := by
    rw [h, entriesBytes_append, entriesBytes_cons]
  rw [encodeBlock, blockImage_eq hes.room, hsplit]
  generalize List.replicate _ (0 : UInt8) ++ _ = rest
  refine ⟨entriesBytes r ++ rest, ?_⟩
  rw [← List.drop_drop, List.drop_left' (length_leBytes ..), List.append_assoc, List.drop_left,
    List.append_assoc]

theorem readerPos_encodeBlock {es l r : List (Entry S)} (hes : GoodBlock es) (h : es = l ++ r) :
    readerPos (encodeBlock es) l.length = 2 + (entriesBytes l).length := by
  induction l using List.reverseRecOn generalizing r with
  | nil => rfl
  | append_singleton l e ih =>
    have h' : es = l ++ e :: r := by rw [h, List.append_assoc]; rfl
    obtain ⟨rest, hdrop⟩ := drop_encodeBlock hes h'
    have hsize : slice (encodeBlock es) (2 + (entriesBytes l).length) 2 = leBytes 2 e.body.size := by
      rw [Entry.bytes, List.append_assoc] at hdrop
      have hs := slice_of_drop hdrop
      rwa [length_leBytes] at hs
    have hlt : e.body.size < 256 ^ 2 := by
      have hroom := hes.room
      rw [h', entriesBytes_append, entriesBytes_cons, List.length_append, List.length_append, e.length_bytes,
        BlockSize] at hroom
      omega
    rw [List.length_append, List.length_singleton, readerPos, ih h', hsize, leNat_leBytes_of_lt hlt,
      entriesBytes_append, entriesBytes_cons, entriesBytes_nil, List.append_nil, List.length_append,
      e.length_bytes, Nat.add_assoc]

theorem hasEntry_of_mem {base : Bytes} (hbase : base.length % BlockSize = 0) {blocks : List (List (Entry S))}
    (hblocks : ∀ es ∈ blocks, GoodBlock es) {e : Entry S} (he : e ∈ blocks.flatten) :
    HasEntry (base ++ (blocks.map encodeBlock).flatten) e.bytes := by
  obtain ⟨es, hes, he⟩ := List.mem_flatten.1 he
  obtain ⟨k, hk, rfl⟩ := List.getElem_of_mem hes
  obtain ⟨l, r, hlr⟩ := List.append_of_mem he
  have hgood := hblocks _ hes
  have hlen : ∀ b ∈ blocks.map encodeBlock, b.length = BlockSize := by
    intro b hb
    obtain ⟨x, hx, rfl⟩ := List.mem_map.1 hb
    exact (hblocks x hx).length_encodeBlock
  obtain ⟨n, hn⟩ := Nat.dvd_of_mod_eq_zero hbase
  have hat : blockAt (base ++ (blocks.map encodeBlock).flatten) (n + k) = encodeBlock blocks[k] := by
    have h := slice_flatten hlen (k := k) (by simpa using hk) base []
    rw [List.append_nil, List.getElem_map, hn, ← Nat.mul_add] at h
    exact h
  refine ⟨n + k, l.length, ?_, ?_, ?_⟩
  · rw [List.length_append, hn, length_encodeBlocks hblocks, ← Nat.mul_add]
    exact Nat.mul_le_mul_left _ (by omega)
  · have htake : (encodeBlock blocks[k]).take 2 = leBytes 2 blocks[k].length := by
      rw [encodeBlock, blockImage_eq hgood.room, List.take_left' (length_leBytes ..)]
    have hcount : blocks[k].length < 256 ^ 2 := Nat.lt_of_le_of_lt hgood.length_le (by decide)
    rw [hat, htake, leNat_leBytes_of_lt hcount, hlr, List.length_append, List.length_cons]
    omega
  · obtain ⟨rest, hdrop⟩ := drop_encodeBlock hgood hlr
    rw [hat, readerPos_encodeBlock hgood hlr, slice_of_drop hdrop]

end

section
variable {B : ℕ → Type} [StaticDataBuffer B] {A : Type} [StorageAdapter A] [LogDevice A] [Wheathash]
variable {S : Schema} {T : Type} [DecidableEq T]

/-- **Stored entries are intact** in every run whose space checks come out well. -/
theorem storedIntact_of_roomOk {d : A} (hd : Ok d) (hclosed : LogDevice.isOpen d = false)
    (hblocks : (bytes d).length % BlockSize = 0) (filePath : String) {ls : List (Label S T)}
    (hroom : Along System.step System.RoomOk (System.opened d filePath : System B A S T) ls)
    {s : System B A S T} (hs : s = run System.step (System.opened d filePath) ls)
    (hissued : s.issued < 2 ^ 32) : s.StoredIntact := by
  subst hs
  obtain ⟨hholds, -⟩ := System.holds_opened (B := B) (T := T) (onOpenDevice_open hd hclosed filePath).1
  have hrun := System.holds_run (tracks_onDevice (bytes d)) hholds
    (System.along_closesOk (closes_onDevice (bytes d))) hroom hissued
  intro l hl
  obtain ⟨⟨e, he, hticket, hentry⟩, hflushed⟩ := hrun.returned l hl
  obtain ⟨blocks, cur, hplaced, hinv⟩ := hrun.log
  have hmem : e ∈ blocks.flatten := by
    rw [hplaced] at he
    rcases List.mem_append.1 he with he | he
    · exact he
    · have hlt := hinv.notFlushed e he
      rw [hticket] at hlt
      exact absurd hflushed (Nat.not_le.2 hlt)
  rw [← hentry, hinv.device.2]
  exact hasEntry_of_mem hblocks hinv.good hmem

end

open ByteSum in
theorem storedIntact_keyCalls : (run System.step (System.opened {} "") keyCalls :
    System ListBuffer VectorAdapter keySchema Unit).StoredIntact := by
  have hissued : (run System.step (System.opened {} "") keyCalls :
      System ListBuffer VectorAdapter keySchema Unit).issued < 2 ^ 32 :=
    Nat.lt_of_le_of_lt (System.issued_run_le _ _) (by decide)
  have hd : Ok ({} : VectorAdapter) := trivial
  have hfine := System.along_fine_small (tracks_onDevice _) (System.holds_opened (B := ListBuffer)
    (S := keySchema) (T := Unit) (onOpenDevice_open hd rfl "").1) (System.along_closesOk (closes_onDevice _))
    (fun _ => keyCalls_small) hissued
  exact storedIntact_of_roomOk hd rfl rfl "" (hfine.mono fun _ _ h => h.1) rfl hissued

/-! ### An entry that its block's checksum cuts off -/

/-- A key whose deletion takes an entry of 4091 bytes. -/
def largeKey (c : UInt8) : Bytes := List.replicate 4078 0 ++ [c]

/-- While one thread's entry is in the block, another thread deletes a large key and, when its time is
up, flushes. -/
def tooLargeCalls (c : UInt8) : List (Label keySchema Bool) :=
  [.request false (.registerOperation (deleteKey [97]) 0),
    .request true (.registerOperation (deleteKey (largeKey c)) 0), .poll true 50, .timeout true]

def largeEntry (c : UInt8) : Entry keySchema := ⟨2, .operation (deleteKey (largeKey c))⟩

/-- The large entry up to its last byte. -/
def largePrefix : Bytes :=
  leBytes 2 4091 ++ (leBytes 4 2 ++ ([4, 1] ++ (leBytes 4 4079 ++ List.replicate 4078 0)))

theorem length_largeKey (c : UInt8) : (largeKey c).length = 4079 := by
  rw [largeKey, List.length_append, List.length_replicate, List.length_singleton]

theorem length_largePrefix : largePrefix.length = 4090 := by
  rw [largePrefix]
  simp only [List.length_append, length_leBytes, List.length_replicate, List.length_cons, List.length_nil]

theorem bytes_largeEntry (c : UInt8) : (largeEntry c).bytes = largePrefix ++ [c] := by
  have hlen := length_largeKey c
  have hlt : (largeKey c).length < 2 ^ 32 := by rw [hlen]; decide
  have hsize : (largeEntry c).body.size = 4091 := by
    rw [largeEntry, size_deleteKey hlt, hlen]
  rw [Entry.bytes, hsize, largeEntry, EntryBody.payload, encode_deleteKey hlt, hlen, largeKey, largePrefix]
  simp only [List.append_assoc]
  rfl

theorem length_largeEntry (c : UInt8) : (largeEntry c).bytes.length = 4091 := by
  rw [bytes_largeEntry, List.length_append, length_largePrefix, List.length_singleton]

section
variable [Wheathash]

theorem run_twoCalls (c : UInt8) : ∃ s : System ListBuffer VectorAdapter keySchema Bool,
    s = run System.step (System.opened {} "") ((tooLargeCalls c).take 2) ∧ s.aborted = false ∧
    s.threads true = .waiting ⟨(largeEntry c).bytes, 2, true, 0⟩ ∧ s.wal.lastFlushedOpId < 2 ∧
    Filled s.wal.block (largeEntry c).bytes (2 + (largeEntry c).bytes.length) ∧ s.wal.blockItemCount = 1 ∧
    Ok s.wal.logFile ∧ bytes s.wal.logFile = encodeBlock [smallEntry] := by
  have hlarge : (EntryBody.operation (deleteKey (largeKey c))).size = 4091 := by
    rw [size_deleteKey (by rw [length_largeKey]; decide), length_largeKey]
  -- the small entry goes into the empty block
  obtain ⟨b₁, hb₁, step₁⟩ := System.step_smallEntry (B := ListBuffer) ({} : VectorAdapter) "" false
  obtain ⟨s₁, hs₁⟩ : ∃ s₁, s₁ = System.step (System.opened {} "" : System ListBuffer VectorAdapter keySchema Bool)
    (.request false (.registerOperation (deleteKey [97]) 0)) := ⟨_, rfl⟩
  have hs₁' := hs₁.trans step₁
  -- the large one finds it there, flushes it and goes into a new block
  obtain ⟨d₁, hd₁, hok₁, hbytes₁, -⟩ := LogDevice.append_ret (A := VectorAdapter)
    (d := (StorageAdapter.open_ "" .Write ({} : VectorAdapter)).2) trivial
    (show Fits VectorAdapter (_ + (blockImage 1 smallEntry.bytes).length) from trivial)
  obtain ⟨b₂, h₂, hb₂⟩ := registerOperation_flush (w := s₁.wal)
    (show 2 + (EntryBody.operation (deleteKey (largeKey c))).size ≤ BlockSize by rw [hlarge]; decide) (show Filled s₁.wal.block smallEntry.bytes _ by rw [hs₁']; exact hb₁)
    (by rw [hs₁']; exact Nat.one_pos) (by rw [hs₁']; exact Nat.le_of_ble_eq_true rfl)
    (by rw [length_smallEntry]; decide) (by rw [length_smallEntry, hlarge]; decide) (by rw [hs₁']; exact hd₁) 0
  have step₂ := System.step_request (t := true) (s := s₁) (r := .registerOperation (deleteKey (largeKey c)) 0)
    (by rw [hs₁']) (by rw [hs₁']; rfl) h₂
  refine ⟨s₁.step (.request true (.registerOperation (deleteKey (largeKey c)) 0)), ?_, ?_⟩
  · rw [tooLargeCalls, List.take_succ_cons, List.take_succ_cons, List.take_zero, run_cons, run_cons, run_nil, ← hs₁]
  · rw [hs₁'] at step₂ hb₂
    rw [hs₁', step₂]
    exact ⟨rfl, rfl, (by decide : (1 : OpID) < 2), hb₂, rfl, hok₁, hbytes₁⟩

theorem run_tooLargeCalls (c : UInt8) : ∃ s : System ListBuffer VectorAdapter keySchema Bool,
    s = run System.step (System.opened {} "") (tooLargeCalls c) ∧
    bytes s.wal.logFile = encodeBlock [smallEntry] ++ blockImage 1 (largeEntry c).bytes ∧
    ∃ l ∈ s.returned, l.entry = (largeEntry c).bytes := by
  obtain ⟨s, hs, ha, ht, hlt, hfill, hcount, hok, hbytes⟩ := run_twoCalls c
  -- its thread becomes the one to flush, and does when its time is up
  obtain ⟨d, hd, -, hbytes', -⟩ := LogDevice.append_ret hok
    (show Fits VectorAdapter (_ + (blockImage s.wal.blockItemCount (largeEntry c).bytes).length) from trivial)
  obtain ⟨b, -, hlast⟩ := System.run_flush_block ha ht hlt rfl (show (50 : UInt64) - 0 ≥ System.timeOut by decide)
    hfill (by rw [hcount]; exact Nat.one_pos) (by rw [hcount]; exact Nat.le_of_ble_eq_true rfl) hd
  have hsplit : tooLargeCalls c = (tooLargeCalls c).take 2 ++ [.poll true 50, .timeout true] := by
    rw [tooLargeCalls, List.take_succ_cons, List.take_succ_cons, List.take_zero]
    rfl
  refine ⟨_, rfl, ?_⟩
  rw [hsplit, run_append, ← hs, hlast]
  refine ⟨?_, ⟨(largeEntry c).bytes, 2, true, 0⟩, ?_, rfl⟩
  · change bytes d = _
    rw [hbytes', hbytes, hcount]
  · exact List.mem_append_right _ (List.mem_singleton_self _)

omit [Wheathash] in
/-- Up to its checksum the second block does not depend on the last byte of the key. -/
theorem unhashed_largeEntry (c : UInt8) :
    unhashed 1 (largeEntry c).bytes = leBytes 2 1 ++ largePrefix := by
  have hlen : (leBytes 2 1 ++ largePrefix).length = BlockSize - 4 := by
    rw [List.length_append, length_leBytes, length_largePrefix, BlockSize]
  rw [unhashed, bytes_largeEntry, List.append_assoc, ← List.append_assoc (leBytes 2 1), List.take_left' hlen]

/-- An entry that is read back there has the checksum's first byte for its last. -/
theorem checksum_of_hasEntry {c : UInt8} (h : HasEntry
    (encodeBlock [smallEntry] ++ blockImage 1 (largeEntry c).bytes) (largeEntry c).bytes) :
    c = UInt8.ofNat (Wheathash.wheathash32 (leBytes 2 1 ++ largePrefix)).toNat := by
  have hsmall := length_smallEntry
  have hlarge := length_largeEntry c
  have hfit : 2 + (largeEntry c).bytes.length ≤ BlockSize := by rw [hlarge]; decide
  have hfit₀ : 2 + (entriesBytes [smallEntry]).length ≤ BlockSize := by
    rw [entriesBytes_cons, entriesBytes_nil, List.append_nil, hsmall]; decide
  have hlen₀ : (encodeBlock [smallEntry]).length = BlockSize := length_blockImage hfit₀
  have hlen₁ : (blockImage 1 (largeEntry c).bytes).length = BlockSize := length_blockImage hfit
  obtain ⟨k, i, hk, hi, hslice⟩ := h
  rw [List.length_append, hlen₀, hlen₁, ← Nat.mul_two] at hk
  have hk : k + 1 ≤ 2 := Nat.le_of_mul_le_mul_left hk (by decide)
  -- both blocks hold one entry
  have first : ∀ {block : Bytes}, block.take 2 = leBytes 2 1 → i < leNat (block.take 2) →
      readerPos block i = 2 := by
    intro block hcount hi
    rw [hcount, leNat_leBytes_of_lt (by decide)] at hi
    rw [Nat.lt_one_iff.1 hi, readerPos]
  rcases (show k = 0 ∨ k = 1 by omega) with rfl | rfl
  · have hat : blockAt (encodeBlock [smallEntry] ++ blockImage 1 (largeEntry c).bytes) 0 =
        encodeBlock [smallEntry] := by
      rw [blockAt, slice, Nat.mul_zero, List.drop_zero, List.take_left' hlen₀]
    rw [hat] at hi hslice
    have hpos : readerPos (encodeBlock [smallEntry]) i = 2 := first (count_blockImage hfit₀) hi
    rw [hpos, hlarge, bytes_largeEntry, slice, encodeBlock, blockImage_eq (by
      rw [entriesBytes_cons, entriesBytes_nil, List.append_nil, hsmall]; decide)] at hslice
    have hhead := congrArg List.head? hslice
    have hne : ¬ some (13 : UInt8) = some 251 := by decide
    exact absurd hhead hne
  · have hat : blockAt (encodeBlock [smallEntry] ++ blockImage 1 (largeEntry c).bytes) 1 =
        blockImage 1 (largeEntry c).bytes := by
      rw [blockAt, slice, Nat.mul_one, List.drop_left' hlen₀, List.take_of_length_le (Nat.le_of_eq hlen₁)]
    rw [hat] at hi hslice
    rw [first (count_blockImage hfit) hi, hlarge, slice] at hslice
    have hlast := congrArg (List.drop 4090) hslice
    rw [List.drop_take, List.drop_drop, show 2 + 4090 = BlockSize - 4 from rfl, drop_blockImage hfit,
      unhashed_largeEntry, bytes_largeEntry,
      List.drop_left' length_largePrefix] at hlast
    exact (List.cons.inj hlast).1.symm

end

/-- Whatever the hash is, there is a run in which a call returns and its entry is not where it is read:
the entry has 4091 bytes, and the checksum of its block takes the place of its last byte. -/
theorem not_storedIntact : ¬ ∃ hash : Wheathash, ∀ (ls : List (Label keySchema Bool))
    (s : System ListBuffer VectorAdapter keySchema Bool),
    s = run System.step (System.opened {} "") ls → s.issued < 2 ^ 32 → s.StoredIntact := by
  rintro ⟨hash, h⟩
  have hkey : ∀ c : UInt8, c = UInt8.ofNat (Wheathash.wheathash32 (leBytes 2 1 ++ largePrefix)).toNat := by
    intro c
    obtain ⟨s, hs, hbytes, l, hl, hentry⟩ := run_tooLargeCalls c
    have hissued : s.issued < 2 ^ 32 := by
      rw [hs]
      exact Nat.lt_of_le_of_lt (System.issued_run_le _ _) (Nat.le_of_ble_eq_true rfl)
    have hhas := h (tooLargeCalls c) s hs hissued l hl
    rw [hbytes, hentry] at hhas
    exact checksum_of_hasEntry hhas
  have hsame : (0 : UInt8) = 1 := (hkey 0).trans (hkey 1).symm
  exact absurd hsame (by decide)

end CppDb
