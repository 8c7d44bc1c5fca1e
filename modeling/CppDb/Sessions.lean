import CppDb.Recovery
import CppDb.Ledger

/-!
# Several sessions on one log

Each session is a new `DbWAL` that opens the log, is used, and closes it. A `DbWAL` numbers its
operations from 1, so sessions share their IDs, and `verifyLog` asks of the whole log whether an ID was
completed. It reports all that the sessions left unfinished exactly if none of these operations has an
ID that some session completed (`verifyLog_after_sessions`), which is not always so
(`not_allReported`).
-/

namespace CppDb
open Embed
open StorageAdapter (pos)
open ReadableAdapter (Ok bytes)
open MemoryAdapter (Fits)

section
variable {S : Schema}

theorem operationsNotIn_of_subset {completed : List OpID} {es : List (Entry S)}
    (h : completedIds es ⊆ completed) :
    operationsNotIn completed es = (unfinished es).filter fun x => x.1 ∉ completed := by
  rw [unfinished, operationsNotIn, operationsNotIn, List.filter_filterMap]
  refine List.filterMap_congr fun e _ => ?_
  rcases e with ⟨ticket, op | ⟨opId, status⟩⟩
  · by_cases hmem : ticket ∈ completedIds es
    · simp [hmem, h hmem]
    · by_cases hall : ticket ∈ completed <;> simp [hmem, hall, Option.filter]
  · rfl

theorem completedIds_flatten (logs : List (List (Entry S))) :
    completedIds logs.flatten = logs.flatMap completedIds := by
  induction logs with
  | nil => rfl
  | cons es logs ih => rw [List.flatten_cons, completedIds_append, ih, List.flatMap_cons]

/-- Of what is unfinished in one of the logs, what some log completes is lost. -/
theorem unfinished_flatten (logs : List (List (Entry S))) : unfinished logs.flatten =
    (logs.flatMap unfinished).filter fun x => x.1 ∉ completedIds logs.flatten := by
  have hsub : ∀ es ∈ logs, completedIds es ⊆ completedIds logs.flatten := by
    intro es hes id hid
    rw [completedIds_flatten]
    exact List.mem_flatMap.2 ⟨es, hes, hid⟩
  rw [unfinished]
  generalize completedIds logs.flatten = completed at hsub
  induction logs with
  | nil => rfl
  | cons es logs ih =>
    rw [List.flatten_cons, operationsNotIn_append, List.flatMap_cons, List.filter_append,
      operationsNotIn_of_subset (hsub es (List.mem_cons_self ..)),
      ih fun x hx => hsub x (List.mem_cons_of_mem _ hx)]

theorem unfinished_append (es fs : List (Entry S)) : unfinished (es ++ fs) =
    (unfinished es ++ unfinished fs).filter fun x => x.1 ∉ completedIds (es ++ fs) := by
  have h := unfinished_flatten [es, fs]
  simpa using h

theorem unfinished_flatten_eq_iff (logs : List (List (Entry S))) :
    (unfinished logs.flatten).map Prod.snd = (logs.flatMap unfinished).map Prod.snd ↔
      ∀ x ∈ logs.flatMap unfinished, x.1 ∉ completedIds logs.flatten := by
  rw [unfinished_flatten]
  constructor
  · intro h
    have hlen := congrArg List.length h
    rw [List.length_map, List.length_map] at hlen
    have heq := List.filter_sublist.eq_of_length hlen
    intro x hx
    rw [← heq] at hx
    simpa using (List.mem_filter.1 hx).2
  · intro h
    rw [List.filter_eq_self.2 fun x hx => by simpa using h x hx]

end

/-! ### Sessions -/

section
variable {B : ℕ → Type} [StaticDataBuffer B] {A : Type} [StorageAdapter A] [Wheathash] {S : Schema}
variable {T : Type} [DecidableEq T]

/-- The path a session opens its log with, and what happens until it closes the log. -/
structure Session (S : Schema) (T : Type) where
  filePath : String
  labels : List (Label S T)

namespace Session

/-- The session before it closes the log. -/
def used (d : A) (x : Session S T) : System B A S T := run System.step (.opened d x.filePath) x.labels

/-- The device after the session. -/
def leave (B : ℕ → Type) [StaticDataBuffer B] (d : A) (x : Session S T) : A :=
  (DbWAL.closeLogFile.run (x.used d : System B A S T).wal).2.logFile

/-- What each of the sessions placed in the log. -/
def logs (B : ℕ → Type) [StaticDataBuffer B] : A → List (Session S T) → List (List (Entry S))
  | _, [] => []
  | d, x :: xs => (x.used d : System B A S T).placed :: logs B (x.leave B d) xs

variable [LogDevice A] {d : A} {x : Session S T} {xs : List (Session S T)}

/-- The session keeps the log open, its space checks go well, its operations are those of the record, and
when it closes the log there is room for the last block. -/
structure Proper (B : ℕ → Type) [StaticDataBuffer B] (d : A) (x : Session S T) : Prop where
  opened : ∀ l ∈ x.labels, l ≠ .closeLogFile
  room : Along System.step System.RoomOk (.opened d x.filePath : System B A S T) x.labels
  ok : ∀ l ∈ x.labels, l.Ok
  issued : (x.used d : System B A S T).issued < 2 ^ 32
  fits : Fits A ((bytes (x.used d : System B A S T).wal.logFile).length + BlockSize)

theorem Proper.leave {old : List (List (Entry S))} (h : x.Proper B d) (hd : Stored d old) :
    ∃ blocks, blocks.flatten = (x.used d : System B A S T).placed ∧ Stored (x.leave B d) (old ++ blocks) := by
  have hholds := System.holds_opened (B := B) (S := S) (T := T) (onOpenDevice_open hd.ok hd.closed x.filePath)
  rw [hd.bytes_eq] at hholds
  have hrun := System.holds_run (tracks_onOpenDevice _) hholds.1 (System.along_closesOk_of_ne h.opened) h.room
    h.issued
  have hops := System.ok_run (s := (.opened d x.filePath : System B A S T))
    (fun _ he => absurd he List.not_mem_nil) h.ok
  obtain ⟨closed, blocks, hclose, hflat, hstored⟩ :=
    closeLogFile_stored hd.readable hrun.log hops fun _ => h.fits
  refine ⟨blocks, hflat, ?_⟩
  rw [Session.leave, used, hclose]
  exact hstored

theorem stored_run {old : List (List (Entry S))} (hd : Stored d old)
    (h : Along (Session.leave B) (Proper B) d xs) :
    ∃ blocks, blocks.flatten = (logs B d xs).flatten ∧ Stored (run (Session.leave B) d xs) (old ++ blocks) := by
  induction xs generalizing d old with
  | nil => exact ⟨[], rfl, by rwa [List.append_nil]⟩
  | cons x xs ih =>
    obtain ⟨blocks, hflat, hstored⟩ := h.1.leave hd
    obtain ⟨blocks', hflat', hstored'⟩ := ih hstored h.2
    refine ⟨blocks ++ blocks', ?_, ?_⟩
    · rw [List.flatten_append, hflat, hflat', logs, List.flatten_cons]
    · rw [← List.append_assoc]
      exact hstored'

end Session

variable [LogDevice A] {d : A} {xs : List (Session S T)}

/-- A `DbWAL` that opens the log after the sessions and verifies it reports what each of them left
unfinished. -/
def AllReported (B : ℕ → Type) [StaticDataBuffer B] (d : A) (xs : List (Session S T)) (filePath : String) : Prop :=
  ∃ reopened : DbWAL B A,
    (DbWAL.openLogFile filePath).run (.new (run (Session.leave B) d xs)) = (.ret (), reopened) ∧
    ∀ fuel, (bytes reopened.logFile).length / BlockSize < fuel →
      (reopened.verifyLog S fuel).1 = .ret () ∧
      (reopened.verifyLog S fuel).2.2 = ((Session.logs B d xs).flatMap unfinished).map Prod.snd

/-- The reader sees one log. -/
theorem verifyLog_after_sessions (hS : S.checkAssertions = true) (hids : S.ByteIds) (hd : Ok d)
    (hclosed : LogDevice.isOpen d = false) (hempty : bytes d = [])
    (hxs : Along (Session.leave B) (Session.Proper B) d xs) (filePath : String) :
    ∃ reopened : DbWAL B A,
      (DbWAL.openLogFile filePath).run (.new (run (Session.leave B) d xs)) = (.ret (), reopened) ∧
      ∀ fuel, (bytes reopened.logFile).length / BlockSize < fuel →
        (reopened.verifyLog S fuel).1 = .ret () ∧
        (reopened.verifyLog S fuel).2.2 = (unfinished (Session.logs B d xs).flatten).map Prod.snd := by
  have hpos : pos d = 0 := by
    have hle := ReadableAdapter.pos_le hd
    rw [hempty] at hle
    exact Nat.le_zero.1 hle
  have hstored : Stored (S := S) d [] := ⟨fun _ hes => absurd hes List.not_mem_nil, hd, hempty, hpos, hclosed⟩
  obtain ⟨blocks, hflat, hrun⟩ := Session.stored_run hstored hxs
  rw [List.nil_append] at hrun
  rw [← hflat]
  exact Stored.verifyLog (B := B) (w := .new (run (Session.leave B) d xs)) hS hids hrun filePath

theorem Session.proper_of_small (hok : Ok d) (hclosed : LogDevice.isOpen d = false) (hfits : ∀ n, Fits A n)
    {x : Session S T} (hopened : ∀ l ∈ x.labels, l ≠ .closeLogFile) (hsmall : ∀ l ∈ x.labels, l.Small)
    (hops : ∀ l ∈ x.labels, l.Ok) (hlen : x.labels.length < 2 ^ 32) : x.Proper B d where
  opened := hopened
  ok := hops
  fits := hfits _
  issued := Nat.lt_of_le_of_lt (System.issued_run_le _ _) (by
    rw [show (System.opened d x.filePath : System B A S T).issued = 0 from rfl, Nat.zero_add]
    exact hlen)
  room := by
    have hlive := System.live_opened (B := B) (S := S) (T := T) hok hclosed x.filePath
    refine (System.along_smooth_small hlive hfits hopened hsmall ?_).mono fun _ _ h => h.2.1.1
    exact Nat.lt_of_le_of_lt (System.issued_run_le _ _) (by
      rw [show (System.opened d x.filePath : System B A S T).issued = 0 from rfl, Nat.zero_add]
      exact hlen)

end

/-! ### An operation that another session completes -/

/-- A key is deleted; the call returns when its time is up. -/
def firstSession : Session keySchema Unit where
  filePath := ""
  labels := [.request () (.registerOperation (deleteKey [97]) 0), .poll () 50, .timeout ()]

/-- The same, and then the deletion is completed. -/
def secondSession : Session keySchema Unit where
  filePath := ""
  labels := firstSession.labels ++ [.request () (.updateOpStatus 1 .Successful 50)]

section
variable {A : Type} [StorageAdapter A] [LogDevice A] [Wheathash]

theorem run_firstSession {d : A} (hok : Ok d) (hclosed : LogDevice.isOpen d = false) (hfits : ∀ n, Fits A n) :
    ∃ s : System ListBuffer A keySchema Unit, s = firstSession.used d ∧ s.placed = [smallEntry] ∧ s.issued = 1 ∧
      s.aborted = false ∧ s.threads () = .idle ∧ s.wal.block.pos = 2 := by
  have hopen := (onOpenDevice_open (S := keySchema) hok hclosed "").1.1
  obtain ⟨d₁, hd₁, -⟩ := LogDevice.append_ret hopen (hfits (_ + (blockImage 1 smallEntry.bytes).length))
  obtain ⟨b, hb, hrun⟩ := System.run_first (B := ListBuffer) (S := keySchema) d "" () _
    (size_deleteKey_le [97] (by decide)) (show (50 : UInt64) - 0 ≥ System.timeOut by decide) hd₁
  refine ⟨_, rfl, ?_⟩
  rw [Session.used, firstSession, hrun]
  exact ⟨rfl, rfl, rfl, rfl, hb.pos⟩

omit [LogDevice A] [Wheathash] in
theorem secondSession_labels {l : Label keySchema Unit} (hl : l ∈ secondSession.labels) :
    l ≠ .closeLogFile ∧ l.Small ∧ l.Ok := by
  simp only [secondSession, firstSession, List.cons_append, List.nil_append, List.mem_cons, List.not_mem_nil,
    or_false] at hl
  rcases hl with rfl | rfl | rfl | rfl
  · exact ⟨nofun, size_deleteKey_le _ (by decide), deleteKey_overRecord _, deleteKey_short (by decide)⟩
  · exact ⟨nofun, trivial, trivial⟩
  · exact ⟨nofun, trivial, trivial⟩
  · exact ⟨nofun, Nat.le_of_ble_eq_true rfl, trivial⟩

omit [LogDevice A] [Wheathash] in
theorem firstSession_labels {l : Label keySchema Unit} (hl : l ∈ firstSession.labels) :
    l ≠ .closeLogFile ∧ l.Small ∧ l.Ok :=
  secondSession_labels (List.mem_append_left _ hl)

theorem placed_secondSession {d : A} (hok : Ok d) (hclosed : LogDevice.isOpen d = false) (hfits : ∀ n, Fits A n) :
    (secondSession.used d : System ListBuffer A keySchema Unit).placed =
      [smallEntry, ⟨2, .completion 1 .Successful⟩] := by
  obtain ⟨s, hs, hplaced, hissued, ha, ht, hpos⟩ := run_firstSession hok hclosed hfits
  have hlive : s.Live (bytes d) := by
    rw [hs]
    have hlt : (firstSession.used d : System ListBuffer A keySchema Unit).issued < 2 ^ 32 := by
      rw [← hs, hissued]
      decide
    exact System.live_run (System.live_opened hok hclosed "") (System.along_smooth_small
      (System.live_opened hok hclosed "") hfits (fun l hl => (firstSession_labels hl).1)
      (fun l hl => (firstSession_labels hl).2.1) hlt) hlt
  have hused : (secondSession.used d : System ListBuffer A keySchema Unit) =
      s.step (.request () (.updateOpStatus 1 .Successful 50)) := by
    rw [hs]
    exact run_append _ _
  have hledger := hlive.step_ledger (l := .request () (.updateOpStatus 1 .Successful 50))
    ⟨nofun, System.fine_of_small hlive.1.2 (Nat.le_of_ble_eq_true rfl), hfits _⟩
    (Nat.lt_of_le_of_lt (System.issued_step _ _).2 (by rw [hissued]; decide))
  have hcall : s.callOf (.request () (.updateOpStatus 1 .Successful 50)) =
      some { body := .completion 1 .Successful, full := false
             id := outcome ((Request.updateOpStatus 1 .Successful 50 : Request keySchema).perform.run s.wal).1 } := by
    rw [System.callOf_request ha ht, hpos]
    rfl
  rw [hcall] at hledger
  have hstart : s.toLedger = { placed := [smallEntry], issued := 1 } := by
    rcases hl : s.toLedger with ⟨placed, issued⟩
    simp only [hl] at hplaced hissued
    rw [hplaced, hissued]
  rw [hstart] at hledger
  rw [hused]
  exact (congrArg (fun r => r.2.placed) hledger).symm

end

end CppDb
