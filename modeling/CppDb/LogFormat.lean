import CppDb.Wal
import CppDb.OperationCodec

/-!
# The format of the log

A log is a sequence of blocks, a block a sequence of entries between its item count and its checksum.
`Entry` is an entry as a value, `Entry.bytes` how it is stored, `encodeBlock` the block that
`finalizeAndflushCurrentBlock` makes of the entries it finds, and `unfinished` the operations a
reader of the log has to report: those whose ID no completion entry names.
-/

namespace CppDb
open Embed

inductive EntryBody (S : Schema) where
  | operation (op : Operation S)
  | completion (opId : OpID) (status : OpStatus)

/-- An entry, and the ID the call that placed it had taken (`newOpId`). -/
structure Entry (S : Schema) where
  ticket : OpID
  body : EntryBody S

/-- What follows the ID. -/
def EntryBody.payload {S : Schema} : EntryBody S → Bytes
  | operation op => op.encode
  | completion _ status => [markerID, status.toByte]

/-- The entry size. -/
def EntryBody.size {S : Schema} (b : EntryBody S) : ℕ := 2 + 4 + b.payload.length

/-- A value of the types the operations of the record have. -/
def EntryBody.Ok {S : Schema} : EntryBody S → Prop
  | operation op => op.OverRecord ∧ op.Short
  | completion .. => True

namespace Entry
variable {S : Schema}

/-- The ID in the entry: a completion carries that of the operation it completes. -/
def id (e : Entry S) : OpID :=
  match e.body with
  | .operation _ => e.ticket
  | .completion opId _ => opId

def bytes (e : Entry S) : Bytes := leBytes 2 e.body.size ++ (leBytes 4 e.id.toNat ++ e.body.payload)

theorem length_bytes (e : Entry S) : e.bytes.length = e.body.size := by
  simp only [bytes, EntryBody.size, List.length_append, length_leBytes]; omega

end Entry

theorem EntryBody.payload_pos {S : Schema} (b : EntryBody S) : 0 < b.payload.length := by
  cases b with
  | operation op => exact op.length_encode_pos
  | completion => simp [payload]

theorem EntryBody.minItemSize_le {S : Schema} (b : EntryBody S) : MinItemSize ≤ b.size := by
  have := b.payload_pos
  simp only [MinItemSize, size]; omega

/-- The entries' bytes, one after the other. -/
def entriesBytes {S : Schema} (es : List (Entry S)) : Bytes := (es.map Entry.bytes).flatten

section
variable {S : Schema}

@[simp] theorem entriesBytes_nil : entriesBytes ([] : List (Entry S)) = [] := rfl

@[simp] theorem entriesBytes_cons (e : Entry S) (es : List (Entry S)) :
    entriesBytes (e :: es) = e.bytes ++ entriesBytes es := rfl

theorem entriesBytes_append (es fs : List (Entry S)) :
    entriesBytes (es ++ fs) = entriesBytes es ++ entriesBytes fs := by
  simp [entriesBytes]

theorem length_entriesBytes_ge (es : List (Entry S)) :
    MinItemSize * es.length ≤ (entriesBytes es).length := by
  induction es with
  | nil => simp
  | cons e es ih =>
    have := e.body.minItemSize_le
    rw [entriesBytes_cons, List.length_append, List.length_cons, e.length_bytes, Nat.mul_succ]
    omega

end

/-! ### Blocks -/

section Blocks
variable {count : ℕ} {body : Bytes}

/-- A block up to its checksum: the item count, `body` and zeros, cut off where the checksum goes. -/
def unhashed (count : ℕ) (body : Bytes) : Bytes :=
  (leBytes 2 count ++ (body ++ List.replicate (BlockSize - 2 - body.length) 0)).take (BlockSize - 4)

theorem length_unhashed (h : 2 + body.length ≤ BlockSize) :
    (unhashed count body).length = BlockSize - 4 := by
  simp only [unhashed, BlockSize, List.length_take, List.length_append, length_leBytes,
    List.length_replicate] at h ⊢
  omega

variable [Wheathash]

def blockImage (count : ℕ) (body : Bytes) : Bytes :=
  unhashed count body ++ leBytes 4 (Wheathash.wheathash32 (unhashed count body)).toNat

theorem length_blockImage (h : 2 + body.length ≤ BlockSize) :
    (blockImage count body).length = BlockSize := by
  rw [blockImage, List.length_append, length_unhashed h, length_leBytes, BlockSize]

theorem take_blockImage (h : 2 + body.length ≤ BlockSize) :
    (blockImage count body).take (BlockSize - 4) = unhashed count body :=
  List.take_left' (length_unhashed h)

theorem drop_blockImage (h : 2 + body.length ≤ BlockSize) :
    (blockImage count body).drop (BlockSize - 4) =
      leBytes 4 (Wheathash.wheathash32 (unhashed count body)).toNat :=
  List.drop_left' (length_unhashed h)

theorem count_blockImage (h : 2 + body.length ≤ BlockSize) :
    (blockImage count body).take 2 = leBytes 2 count := by
  rw [blockImage, unhashed, List.take_append_of_le_length, List.take_take, List.take_append_of_le_length,
    List.take_of_length_le]
  all_goals
    simp only [BlockSize, List.length_take, List.length_append, length_leBytes, List.length_replicate]
    at h ⊢
    omega

/-- A finished block is finished again into itself: its count, padding and checksum are in place. -/
theorem blockImage_drop (h : 2 + body.length ≤ BlockSize) :
    blockImage count ((blockImage count body).drop 2) = blockImage count body := by
  have hsame : unhashed count ((blockImage count body).drop 2) = unhashed count body := by
    have hlen : BlockSize - 2 - ((blockImage count body).drop 2).length = 0 := by
      rw [List.length_drop, length_blockImage h, Nat.sub_self]
    rw [unhashed, hlen, List.replicate_zero, List.append_nil, ← count_blockImage h, List.take_append_drop,
      take_blockImage h]
  rw [blockImage, hsame, ← blockImage]

/-- With room left for the checksum, the body is in the block as it is. -/
theorem blockImage_eq (h : body.length + 6 ≤ BlockSize) :
    blockImage count body = leBytes 2 count ++ (body ++
      (List.replicate (BlockSize - 6 - body.length) 0 ++
        leBytes 4 (Wheathash.wheathash32 (unhashed count body)).toNat)) := by
  have htake : unhashed count body =
      leBytes 2 count ++ (body ++ List.replicate (BlockSize - 6 - body.length) 0) := by
    rw [unhashed, List.take_append, List.take_append, List.take_of_length_le (by simp [BlockSize]),
      List.take_of_length_le (by simp only [BlockSize, length_leBytes] at h ⊢; omega),
      List.take_replicate]
    congr 4
    simp only [BlockSize, length_leBytes] at h ⊢
    omega
  rw [blockImage]
  conv_lhs => arg 1; rw [htake]
  rw [List.append_assoc, List.append_assoc]

/-- The block that holds `es`. -/
def encodeBlock {S : Schema} (es : List (Entry S)) : Bytes := blockImage es.length (entriesBytes es)

end Blocks

/-- What the writer keeps to in a block: there are entries in it, they leave room for the checksum, and
no ID is 0. -/
structure GoodBlock {S : Schema} (es : List (Entry S)) : Prop where
  ne_nil : es ≠ []
  room : (entriesBytes es).length + 6 ≤ BlockSize
  id_ne : ∀ e ∈ es, e.id ≠ 0

/-- A block whose operations can be decoded. -/
structure ReadableBlock {S : Schema} (es : List (Entry S)) : Prop extends GoodBlock es where
  ok : ∀ e ∈ es, e.body.Ok

theorem GoodBlock.length_le {S : Schema} {es : List (Entry S)} (h : GoodBlock es) :
    es.length ≤ MaxItemCount := by
  have hlen := length_entriesBytes_ge es
  have hroom := h.room
  simp only [MaxItemCount, MinItemSize, BlockSize] at hlen hroom ⊢
  omega

theorem GoodBlock.size_lt {S : Schema} {es : List (Entry S)} (h : GoodBlock es) : ∀ e ∈ es, e.body.size < 65536 := by
  intro e he
  have hroom := h.room
  obtain ⟨l, r, rfl⟩ := List.append_of_mem he
  rw [entriesBytes_append, entriesBytes_cons, List.length_append, List.length_append, e.length_bytes,
    BlockSize] at hroom
  omega

theorem GoodBlock.length_encodeBlock [Wheathash] {S : Schema} {es : List (Entry S)} (h : GoodBlock es) :
    (encodeBlock es).length = BlockSize :=
  length_blockImage (by have := h.room; omega)

theorem length_encodeBlocks [Wheathash] {S : Schema} {blocks : List (List (Entry S))}
    (h : ∀ es ∈ blocks, GoodBlock es) :
    (blocks.map encodeBlock).flatten.length = BlockSize * blocks.length := by
  induction blocks with
  | nil => rfl
  | cons es blocks ih =>
    have hlen := (h es (List.mem_cons_self ..)).length_encodeBlock
    rw [List.map_cons, List.flatten_cons, List.length_append, hlen,
      ih fun x hx => h x (List.mem_cons_of_mem _ hx), List.length_cons, Nat.mul_succ, Nat.add_comm]

theorem readableBlock_of_mem {S : Schema} {blocks : List (List (Entry S))} {es : List (Entry S)}
    (hok : ∀ e ∈ blocks.flatten, e.body.Ok) (hes : es ∈ blocks) (hgood : GoodBlock es) : ReadableBlock es where
  toGoodBlock := hgood
  ok e he := hok e (List.mem_flatten.2 ⟨es, hes, he⟩)

/-! ### What a reader has to report -/

section Unfinished
variable {S : Schema}

/-- The IDs that completion entries name. -/
def completedIds (es : List (Entry S)) : List OpID :=
  es.filterMap fun e => match e.body with
    | .operation _ => none
    | .completion opId _ => some opId

/-- The operations among `es` whose ID is not in `completed`. -/
def operationsNotIn (completed : List OpID) (es : List (Entry S)) : List (OpID × Operation S) :=
  es.filterMap fun e => match e.body with
    | .operation op => if e.ticket ∈ completed then none else some (e.ticket, op)
    | .completion _ _ => none

/-- The operations that were logged and not completed, in the order of the log. -/
def unfinished (es : List (Entry S)) : List (OpID × Operation S) :=
  operationsNotIn (completedIds es) es

theorem completedIds_append (es fs : List (Entry S)) :
    completedIds (es ++ fs) = completedIds es ++ completedIds fs := List.filterMap_append

theorem operationsNotIn_append (completed : List OpID) (es fs : List (Entry S)) :
    operationsNotIn completed (es ++ fs) = operationsNotIn completed es ++ operationsNotIn completed fs :=
  List.filterMap_append

theorem operationsNotIn_of_mem {completed : List OpID} {e : Entry S} (h : e.id ∈ completed) :
    operationsNotIn completed [e] = [] := by
  rcases e with ⟨ticket, op | ⟨opId, status⟩⟩
  · have h : ticket ∈ completed := h
    simp [operationsNotIn, h]
  · rfl

theorem operationsNotIn_operation {completed : List OpID} {ticket : OpID} {op : Operation S}
    (h : ticket ∉ completed) : operationsNotIn completed [⟨ticket, .operation op⟩] = [(ticket, op)] := by
  simp [operationsNotIn, h]

theorem mem_operationsNotIn {completed : List OpID} {es : List (Entry S)} {x : OpID × Operation S} :
    x ∈ operationsNotIn completed es ↔ ⟨x.1, .operation x.2⟩ ∈ es ∧ x.1 ∉ completed := by
  rw [operationsNotIn, List.mem_filterMap]
  constructor
  · rintro ⟨⟨ticket, op | ⟨opId, status⟩⟩, he, hx⟩
    · by_cases hmem : ticket ∈ completed
      · simp [hmem] at hx
      · simp only [hmem, if_false, Option.some.injEq] at hx
        subst hx
        exact ⟨he, hmem⟩
    · simp at hx
  · rintro ⟨he, hx⟩
    exact ⟨_, he, by simp [hx]⟩

theorem mem_unfinished {es : List (Entry S)} {x : OpID × Operation S} :
    x ∈ unfinished es ↔ ⟨x.1, .operation x.2⟩ ∈ es ∧ x.1 ∉ completedIds es :=
  mem_operationsNotIn

end Unfinished

end CppDb
