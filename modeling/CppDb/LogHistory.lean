import CppDb.Recovery
import CppDb.Lib.PrefixCode

/-!
# The log tells its history

What an entry stores is its size, an ID and an operation or a status. Its bytes tell which, and where it ends; so do
those of a block, and of a log. Two runs whose logs agree, or one of whose logs goes on where the other stops, have
flushed the same entries in the same order, as far as both go (`System.flushed_of_bytes`).
-/

namespace CppDb
open Embed
open ReadableAdapter (Ok bytes)
open MemoryAdapter (Fits)

section
variable {S : Schema}

/-- What is in the log of an entry. Who completed an operation under which ID is not. -/
def Entry.logged (e : Entry S) : OpID × EntryBody S := (e.id, e.body)

def encodeLogged (x : OpID × EntryBody S) : Bytes := leBytes 2 x.2.size ++ (leBytes 4 x.1.toNat ++ x.2.payload)

theorem entriesBytes_eq_logged (es : List (Entry S)) :
    entriesBytes es = ((es.map Entry.logged).map encodeLogged).flatten := by
  rw [List.map_map]
  rfl

theorem length_encodeLogged (x : OpID × EntryBody S) : (encodeLogged x).length = x.2.size := by
  simp only [encodeLogged, EntryBody.size, List.length_append, length_leBytes]; omega

theorem filterMap_of_logged {α : Type} {f : Entry S → Option α} (hf : ∀ e e', e.logged = e'.logged → f e = f e')
    {es fs : List (Entry S)} (h : es.map Entry.logged = fs.map Entry.logged) : es.filterMap f = fs.filterMap f := by
  induction es generalizing fs with
  | nil =>
    obtain rfl := List.map_eq_nil_iff.1 h.symm
    rfl
  | cons e es ih =>
    cases fs with
    | nil => cases h
    | cons e' fs =>
      obtain ⟨he, h⟩ := List.cons.inj h
      rw [List.filterMap_cons, List.filterMap_cons, hf e e' he, ih h]

theorem Entry.logged_cases {e e' : Entry S} (h : e.logged = e'.logged) :
    e = e' ∨ ∃ opId status, e.body = .completion opId status ∧ e'.body = .completion opId status := by
  rcases e with ⟨ticket, op | ⟨opId, status⟩⟩ <;> rcases e' with ⟨ticket', op' | ⟨opId', status'⟩⟩ <;> cases h
  · exact .inl rfl
  · exact .inr ⟨opId, status, rfl, rfl⟩

theorem unfinished_of_logged {es fs : List (Entry S)} (h : es.map Entry.logged = fs.map Entry.logged) :
    unfinished es = unfinished fs := by
  have hcompleted : completedIds es = completedIds fs := by
    refine filterMap_of_logged (fun e e' he => ?_) h
    rcases Entry.logged_cases he with rfl | ⟨opId, status, hbody, hbody'⟩
    · rfl
    · simp only [hbody, hbody']
  rw [unfinished, unfinished, hcompleted]
  refine filterMap_of_logged (fun e e' he => ?_) h
  rcases Entry.logged_cases he with rfl | ⟨opId, status, hbody, hbody'⟩
  · rfl
  · simp only [hbody, hbody']

/-- An entry that a block has room for and a reader can decode. -/
structure Legible (x : OpID × EntryBody S) : Prop where
  ok : x.2.Ok
  size_le : x.2.size ≤ BlockSize
  id_eq : ∀ opId status, x.2 = .completion opId status → x.1 = opId

theorem OpStatus.toByte_inj {status status' : OpStatus} (h : status.toByte = status'.toByte) : status = status' := by
  cases status <;> cases status' <;> first | rfl | exact absurd h (by decide)

theorem OpCode.toByte_ne_markerID (code : OpCode) : code.toByte ≠ markerID := by
  cases code <;> decide

/-- The decoder takes the bytes for one operation. -/
theorem Operation.encode_inj (hS : S.checkAssertions = true) (hids : S.ByteIds) {op op' : Operation S}
    (hop : (EntryBody.operation op).Ok) (hop' : (EntryBody.operation op').Ok) (h : op.encode = op'.encode) :
    op = op' := by
  have hfirst := Schema.staticFirst_of_checkAssertions hS
  have hnodup := Schema.nodup_of_checkAssertions hS
  obtain ⟨input, hinput⟩ : ∃ input : VectorAdapter, input = { data := op.encode } := ⟨_, rfl⟩
  have hdrop : (bytes input).drop (StorageAdapter.pos input) = op.encode ++ [] := by
    rw [hinput]
    exact (List.append_nil _).symm
  obtain ⟨d, hrun, -⟩ := Serializer.delivers_deserialize hfirst hnodup (hop.1.replayable hids) hop.2 [] trivial hdrop
  obtain ⟨d', hrun', -⟩ := Serializer.delivers_deserialize hfirst hnodup (hop'.1.replayable hids) hop'.2 [] trivial
    (hdrop.trans (congrArg (· ++ []) h))
  rw [hrun, Prod.mk.injEq, Decoding.mk.injEq] at hrun'
  exact (List.cons.inj hrun'.2.2).1

theorem EntryBody.payload_inj (hS : S.checkAssertions = true) (hids : S.ByteIds) {x y : OpID × EntryBody S}
    (hx : Legible x) (hy : Legible y) (hid : x.1 = y.1) (h : x.2.payload = y.2.payload) : x.2 = y.2 := by
  rcases x with ⟨id, op | ⟨opId, status⟩⟩ <;> rcases y with ⟨id', op' | ⟨opId', status'⟩⟩
  · exact congrArg EntryBody.operation (Operation.encode_inj hS hids hx.ok hy.ok h)
  · exact absurd (List.cons.inj h).1 op.opCode.toByte_ne_markerID
  · exact absurd (List.cons.inj h).1.symm op'.opCode.toByte_ne_markerID
  · obtain rfl : id = opId := hx.id_eq _ _ rfl
    obtain rfl : id' = opId' := hy.id_eq _ _ rfl
    obtain rfl : status = status' := OpStatus.toByte_inj (List.cons.inj (List.cons.inj h).2).1
    exact congrArg (EntryBody.completion · status) hid

theorem prefixFree_encodeLogged (hS : S.checkAssertions = true) (hids : S.ByteIds) :
    PrefixFree (Legible (S := S)) encodeLogged := by
  have hsize : ∀ x : OpID × EntryBody S, Legible x → x.2.size < 256 ^ 2 := fun x hx =>
    Nat.lt_of_le_of_lt hx.size_le (by decide)
  refine .of_header (k := 2) (fun x _ => ?_) (fun x y hx hy h => ?_) fun x y hx hy h => ?_
  · rw [length_encodeLogged, EntryBody.size]; omega
  · rw [encodeLogged, encodeLogged, List.take_left' (length_leBytes ..), List.take_left' (length_leBytes ..)] at h
    rw [length_encodeLogged, length_encodeLogged, leBytes_inj (hsize x hx) (hsize y hy) h]
  · obtain ⟨-, h⟩ := List.append_inj h (by rw [length_leBytes, length_leBytes])
    obtain ⟨hid, hpayload⟩ := List.append_inj h (by rw [length_leBytes, length_leBytes])
    have hid : x.1 = y.1 := UInt32.toNat_inj.1 (leBytes_inj x.1.toNat_lt y.1.toNat_lt hid)
    exact Prod.ext hid (EntryBody.payload_inj hS hids hx hy hid hpayload)

/-! ### Blocks -/

variable [Wheathash]

/-- The block that stores `xs`. -/
def blockOf (xs : List (OpID × EntryBody S)) : Bytes := blockImage xs.length (xs.map encodeLogged).flatten

theorem encodeBlock_eq_blockOf (es : List (Entry S)) : encodeBlock es = blockOf (es.map Entry.logged) := by
  rw [encodeBlock, blockOf, List.length_map, entriesBytes_eq_logged]

/-- Legible entries that fit a block. -/
structure LegibleBlock (xs : List (OpID × EntryBody S)) : Prop where
  legible : ∀ x ∈ xs, Legible x
  room : (xs.map encodeLogged).flatten.length + 6 ≤ BlockSize
  length_le : xs.length ≤ MaxItemCount

omit [Wheathash] in
theorem ReadableBlock.legible {es : List (Entry S)} (h : ReadableBlock es) : LegibleBlock (es.map Entry.logged) where
  legible x hx := by
    obtain ⟨e, he, rfl⟩ := List.mem_map.1 hx
    refine ⟨h.ok e he, ?_, fun opId status hbody => ?_⟩
    · have hle : e.bytes.length ≤ (entriesBytes es).length :=
        (List.sublist_flatten_of_mem (List.mem_map_of_mem he)).length_le
      rw [e.length_bytes] at hle
      exact hle.trans (Nat.le_of_add_right_le h.room)
    · have hbody : e.body = .completion opId status := hbody
      rw [Entry.logged, Entry.id, hbody]
  room := by
    rw [← entriesBytes_eq_logged]
    exact h.room
  length_le := by
    rw [List.length_map]
    exact h.length_le

/-- The item count tells how many entries there are, and each of them where it ends. -/
theorem prefixFree_blockOf (hS : S.checkAssertions = true) (hids : S.ByteIds) :
    PrefixFree (LegibleBlock (S := S)) blockOf := by
  refine .of_length (n := BlockSize) (fun xs hxs => ?_) fun xs ys hxs hys h => ?_
  · exact length_blockImage (by have := hxs.room; omega)
  · rw [blockOf, blockOf, blockImage_eq hxs.room, blockImage_eq hys.room] at h
    obtain ⟨hcount, hentries⟩ := List.append_inj h (by rw [length_leBytes, length_leBytes])
    have hlen := leBytes_inj (Nat.lt_of_le_of_lt hxs.length_le (by decide))
      (Nat.lt_of_le_of_lt hys.length_le (by decide)) hcount
    exact ((prefixFree_encodeLogged hS hids).list hxs.legible hys.legible hlen hentries).1

theorem logged_of_blocks (hS : S.checkAssertions = true) (hids : S.ByteIds) {blocks blocks' : List (List (Entry S))}
    (h : ∀ es ∈ blocks, ReadableBlock es) (h' : ∀ es ∈ blocks', ReadableBlock es)
    (hpre : (blocks.map encodeBlock).flatten <+: (blocks'.map encodeBlock).flatten) :
    blocks.flatten.map Entry.logged <+: blocks'.flatten.map Entry.logged := by
  have heq : ∀ l : List (List (Entry S)), l.map encodeBlock = (l.map (List.map Entry.logged)).map blockOf := fun l => by
    rw [List.map_map]
    exact List.map_congr_left fun es _ => encodeBlock_eq_blockOf es
  have hlegible : ∀ {l : List (List (Entry S))}, (∀ es ∈ l, ReadableBlock es) →
      ∀ xs ∈ l.map (List.map Entry.logged), LegibleBlock xs := fun hl xs hxs => by
    obtain ⟨es, hes, rfl⟩ := List.mem_map.1 hxs
    exact (hl es hes).legible
  rw [heq, heq] at hpre
  obtain ⟨rest, hrest⟩ := (prefixFree_blockOf hS hids).prefix_of_flatten (fun xs hxs hnil => by
    have hlen : (blockOf xs).length = BlockSize := length_blockImage (by have := hxs.room; omega)
    rw [hnil] at hlen
    exact absurd hlen (by decide)) (hlegible h) (hlegible h') hpre
  refine ⟨rest.flatten, ?_⟩
  rw [List.map_flatten, List.map_flatten, ← hrest, List.flatten_append]

end

/-! ### Runs -/

section
variable {B : ℕ → Type} [StaticDataBuffer B] {A : Type} [Wheathash] {S : Schema}

/-- The entries placed so far whose IDs are flushed. -/
def Logged.flushed (s : Logged B A S) : List (Entry S) := s.placed.filter fun e => e.ticket ≤ s.wal.lastFlushedOpId

theorem Logged.flushed_eq {D : A → List (List (Entry S)) → Prop} {s : Logged B A S} {blocks : List (List (Entry S))}
    {cur : List (Entry S)} (hplaced : s.placed = blocks.flatten ++ cur) (h : Inv D s.wal blocks cur s.issued) :
    s.flushed = blocks.flatten := by
  have hflushed : blocks.flatten.filter (fun e => e.ticket ≤ s.wal.lastFlushedOpId) = blocks.flatten :=
    List.filter_eq_self.2 fun e he => decide_eq_true (UInt32.le_iff_toNat_le.2 (h.flushed e he))
  have hcur : cur.filter (fun e => e.ticket ≤ s.wal.lastFlushedOpId) = [] :=
    List.filter_eq_nil_iff.2 fun e he hle =>
      absurd (UInt32.le_iff_toNat_le.1 (of_decide_eq_true hle)) (Nat.not_le.2 (h.notFlushed e he))
  rw [flushed, hplaced, List.filter_append, hflushed, hcur, List.append_nil]

variable [StorageAdapter A] [LogDevice A] {T : Type} [DecidableEq T]

/-- After any run on an empty log, its bytes are the readable blocks of what is flushed. -/
theorem System.flushed_run {d : A} (hd : Ok d) (hclosed : LogDevice.isOpen d = false) (hempty : bytes d = [])
    (filePath : String) {ls : List (Label S T)} (hops : ∀ l ∈ ls, l.Ok) (hsmall : ∀ l ∈ ls, l.Small)
    {s : System B A S T} (hs : s = run System.step (System.opened d filePath) ls) (hissued : s.issued < 2 ^ 32) :
    ∃ blocks : List (List (Entry S)), s.flushed = blocks.flatten ∧
      bytes s.wal.logFile = (blocks.map encodeBlock).flatten ∧ ∀ es ∈ blocks, ReadableBlock es := by
  subst hs
  have hholds := System.holds_opened (B := B) (S := S) (T := T) (onOpenDevice_open hd hclosed filePath).1
  rw [hempty] at hholds
  obtain ⟨hrun, -⟩ := System.holds_run_small (tracks_onDevice []) hholds
    (System.along_closesOk (closes_onDevice [])) hsmall hissued
  obtain ⟨blocks, cur, hplaced, hinv⟩ := hrun.log
  have hbytes := hinv.device.2
  rw [List.nil_append] at hbytes
  have hok : ∀ e ∈ blocks.flatten, e.body.Ok := fun e he =>
    System.ok_run (fun _ he => absurd he List.not_mem_nil) hops e (by
      rw [hplaced]; exact List.mem_append_left _ he)
  exact ⟨blocks, Logged.flushed_eq hplaced hinv, hbytes, fun es hes => readableBlock_of_mem hok hes (hinv.good es hes)⟩

/-- **The log tells its history.** Any two runs on empty logs, over any two devices. If the bytes of the second log
begin with those of the first, the entries flushed in the second run begin with those flushed in the first; if they are
the same, so are the entries, and the operations that are left unfinished. -/
theorem System.flushed_of_bytes (hS : S.checkAssertions = true) (hids : S.ByteIds) {B' : ℕ → Type} [StaticDataBuffer B']
    {A' : Type} [StorageAdapter A'] [LogDevice A'] {T' : Type} [DecidableEq T'] {d : A} {d' : A'} (hd : Ok d)
    (hd' : Ok d') (hclosed : LogDevice.isOpen d = false) (hclosed' : LogDevice.isOpen d' = false)
    (hempty : bytes d = []) (hempty' : bytes d' = []) (filePath filePath' : String) {ls : List (Label S T)}
    {ls' : List (Label S T')}
    (hops : ∀ l ∈ ls, l.Ok) (hops' : ∀ l ∈ ls', l.Ok) (hsmall : ∀ l ∈ ls, l.Small) (hsmall' : ∀ l ∈ ls', l.Small)
    {s : System B A S T} {s' : System B' A' S T'} (hs : s = run System.step (System.opened d filePath) ls)
    (hs' : s' = run System.step (System.opened d' filePath') ls') (hissued : s.issued < 2 ^ 32)
    (hissued' : s'.issued < 2 ^ 32) (hbytes : bytes s.wal.logFile <+: bytes s'.wal.logFile) :
    s.flushed.map Entry.logged <+: s'.flushed.map Entry.logged ∧
      (bytes s.wal.logFile = bytes s'.wal.logFile → s.flushed.map Entry.logged = s'.flushed.map Entry.logged ∧
        unfinished s.flushed = unfinished s'.flushed) := by
  obtain ⟨blocks, hflushed, hb, hreadable⟩ := flushed_run hd hclosed hempty filePath hops hsmall hs hissued
  obtain ⟨blocks', hflushed', hb', hreadable'⟩ := flushed_run hd' hclosed' hempty' filePath' hops' hsmall' hs' hissued'
  rw [hflushed, hflushed']
  rw [hb, hb'] at hbytes ⊢
  have hpre := logged_of_blocks hS hids hreadable hreadable' hbytes
  refine ⟨hpre, fun heq => ?_⟩
  have hpre' := logged_of_blocks hS hids hreadable' hreadable (heq ▸ List.prefix_rfl)
  have hsame := hpre.eq_of_length (Nat.le_antisymm hpre.length_le hpre'.length_le)
  exact ⟨hsame, unfinished_of_logged hsame⟩

end

/-- A key is deleted, and the call returns when its time is up. -/
def deletionCall {T : Type} (t : T) (timeElapsedMs : UInt64) : List (Label keySchema T) :=
  [.request t (.registerOperation (deleteKey [97]) 0), .poll t timeElapsedMs, .timeout t]

theorem deletionCall_labels {T : Type} {t : T} {timeElapsedMs : UInt64} {l : Label keySchema T}
    (hl : l ∈ deletionCall t timeElapsedMs) : l.Small ∧ l.Ok := by
  simp only [deletionCall, List.mem_cons, List.not_mem_nil, or_false] at hl
  rcases hl with rfl | rfl | rfl
  · exact ⟨size_deleteKey_le _ (by decide), deleteKey_overRecord _, deleteKey_short (by decide)⟩
  · exact ⟨trivial, trivial⟩
  · exact ⟨trivial, trivial⟩

theorem run_deletionCall {A : Type} [StorageAdapter A] [LogDevice A] [Wheathash] {T : Type} [DecidableEq T] {d : A}
    (hok : Ok d) (hclosed : LogDevice.isOpen d = false) (hfits : Fits A ((bytes d).length + BlockSize)) (t : T)
    {timeElapsedMs : UInt64} (htime : timeElapsedMs - 0 ≥ System.timeOut) :
    ∃ s : System ListBuffer A keySchema T, s = run System.step (System.opened d "") (deletionCall t timeElapsedMs) ∧
      s.issued = 1 ∧ bytes s.wal.logFile = bytes d ++ encodeBlock [smallEntry] := by
  obtain ⟨⟨hopen, hbytes⟩, -⟩ := onOpenDevice_open (S := keySchema) hok hclosed ""
  have hbytes : bytes (StorageAdapter.open_ "" .Write d).2 = bytes d := by rw [hbytes]; simp
  have hlen : (blockImage 1 smallEntry.bytes).length = BlockSize :=
    length_blockImage (Nat.le_of_ble_eq_true rfl)
  obtain ⟨d₁, hd₁, -, hb₁, -⟩ := LogDevice.append_ret hopen (by rw [hbytes, hlen]; exact hfits)
  obtain ⟨b, -, hrun⟩ := System.run_first (B := ListBuffer) (S := keySchema) d "" t _
    (size_deleteKey_le [97] (by decide)) htime hd₁
  refine ⟨_, rfl, ?_⟩
  rw [deletionCall, hrun]
  refine ⟨rfl, ?_⟩
  have hblock : encodeBlock [smallEntry] = blockImage 1 smallEntry.bytes := by
    rw [encodeBlock, entriesBytes_cons, entriesBytes_nil, List.append_nil, List.length_singleton]
  rw [hblock, ← hbytes]
  exact hb₁

open ByteSum in
theorem System.flushed_of_bytes_deletion :
    ∃ (s : System ListBuffer VectorAdapter keySchema Unit)
      (s' : System ListBuffer (StaticBufferAdapter ListBuffer 4096) keySchema Bool),
      s = run System.step (System.opened {} "") (deletionCall () 50) ∧
      s' = run System.step (System.opened .new "") (deletionCall true 70) ∧
      s.flushed.map Entry.logged = s'.flushed.map Entry.logged ∧ unfinished s.flushed = unfinished s'.flushed := by
  have hok' : Ok (.new : StaticBufferAdapter ListBuffer 4096) := ⟨Nat.le_refl _, Nat.zero_le _⟩
  have hempty' : bytes (.new : StaticBufferAdapter ListBuffer 4096) = [] := rfl
  have hok : Ok ({} : VectorAdapter) := trivial
  have hfits' : Fits (StaticBufferAdapter ListBuffer 4096)
      ((bytes (.new : StaticBufferAdapter ListBuffer 4096)).length + BlockSize) := by
    rw [hempty']
    exact (by decide : 0 + 4096 ≤ 4096)
  obtain ⟨s, hs, hissued, hbytes⟩ := run_deletionCall hok rfl trivial () (show (50 : UInt64) - 0 ≥ timeOut by decide)
  obtain ⟨s', hs', hissued', hbytes'⟩ := run_deletionCall hok' rfl hfits' true
    (show (70 : UInt64) - 0 ≥ timeOut by decide)
  have hsame : bytes s.wal.logFile = bytes s'.wal.logFile := by
    rw [hbytes, hbytes', hempty']
    rfl
  obtain ⟨-, hequal⟩ := System.flushed_of_bytes keySchema_checkAssertions keySchema_byteIds hok hok' rfl rfl rfl
    hempty' "" "" (fun _ hl => (deletionCall_labels hl).2) (fun _ hl => (deletionCall_labels hl).2)
    (fun _ hl => (deletionCall_labels hl).1) (fun _ hl => (deletionCall_labels hl).1) hs hs' (by rw [hissued]; decide)
    (by rw [hissued']; decide) (hsame ▸ List.prefix_rfl)
  exact ⟨s, s', hs, hs', hequal hsame⟩

end CppDb
