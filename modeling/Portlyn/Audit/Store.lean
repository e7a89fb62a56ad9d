import Portlyn.Audit.Evidence
import Portlyn.Lib.Paging

/-! # The audit store (`audit_store.go`, `audit_retention.go`)

The table of audit rows with its signed checkpoint, and the four operations that write it. The
database gives rows in the order of their ids and never uses an id twice. `keep` is what it does to
a timestamp.

An operation is one transaction, `PruneBefore` one a batch. -/
namespace Portlyn.Audit
open Go Lib
set_option autoImplicit false

/-! ## The table -/

structure AuditCheckpoint where
  lastID : ℕ
  lastHash : GoString
  pruned : ℕ
  prunedAt : Instant
  signature : GoString
deriving DecidableEq

structure Database where
  rows : List AuditLog
  checkpoint : Option AuditCheckpoint
  nextID : ℕ
  sorted : Paging.Sorted AuditLog.id rows
  fresh : ∀ r ∈ rows, 0 < r.id ∧ r.id < nextID
  nextID_pos : 0 < nextID

def Database.empty : Database where
  rows := []
  checkpoint := none
  nextID := 1
  sorted := List.Pairwise.nil
  fresh := List.forall_mem_nil _
  nextID_pos := Nat.one_pos

def assignIDs : ℕ → List AuditLog → List AuditLog
  | _, [] => []
  | n, item :: items => { item with id := n } :: assignIDs (n + 1) items

theorem mem_assignIDs {n : ℕ} {items : List AuditLog} {r : AuditLog} (h : r ∈ assignIDs n items) :
    n ≤ r.id ∧ r.id < n + items.length := by
  induction items generalizing n with
  | nil => exact absurd h List.not_mem_nil
  | cons item items ih =>
    rw [List.length_cons]
    rcases List.mem_cons.mp h with rfl | h
    · exact ⟨le_rfl, by dsimp only; omega⟩
    · have := ih h
      omega

theorem sorted_assignIDs (n : ℕ) (items : List AuditLog) : Paging.Sorted AuditLog.id (assignIDs n items) := by
  induction items generalizing n with
  | nil => exact List.Pairwise.nil
  | cons item items ih =>
    refine List.Pairwise.cons (fun r hr => ?_) (ih (n + 1))
    have := (mem_assignIDs hr).1
    dsimp only
    omega

theorem length_assignIDs (n : ℕ) (items : List AuditLog) : (assignIDs n items).length = items.length := by
  induction items generalizing n with
  | nil => rfl
  | cons item items ih => rw [assignIDs, List.length_cons, List.length_cons, ih]

def Database.insert (keep : Instant → Instant) (db : Database) (items : List AuditLog) : Database where
  rows := db.rows ++ assignIDs db.nextID (items.map fun item => { item with timestamp := keep item.timestamp })
  checkpoint := db.checkpoint
  nextID := db.nextID + items.length
  sorted := by
    refine List.pairwise_append.mpr ⟨db.sorted, sorted_assignIDs _ _, fun a ha b hb => ?_⟩
    have h1 := (db.fresh a ha).2
    have h2 := (mem_assignIDs hb).1
    omega
  fresh := by
    intro r hr
    rcases List.mem_append.mp hr with hr | hr
    · have := db.fresh r hr
      omega
    · have h1 := mem_assignIDs hr
      have h2 := db.nextID_pos
      rw [List.length_map] at h1
      omega
  nextID_pos := by
    have := db.nextID_pos
    omega

/-- `DELETE … WHERE id <= k`, with the checkpoint that records it. -/
def Database.pruneTo (db : Database) (checkpoint : AuditCheckpoint) : Database where
  rows := Paging.after AuditLog.id checkpoint.lastID db.rows
  checkpoint := some checkpoint
  nextID := db.nextID
  sorted := db.sorted.after _ _
  fresh := fun r hr => db.fresh r (List.mem_of_mem_filter hr)
  nextID_pos := db.nextID_pos

/-! ## Create and CreateBatch -/

def latestAuditHash (db : Database) : GoString := (db.rows.getLast?.map AuditLog.hash).getD []

section Mac
variable (mac : GoString → GoString)

/-- The loop of `CreateBatch`; `Create` is its case of one item. -/
def chainItems : GoString → List AuditLog → List AuditLog
  | _, [] => []
  | prevHash, item :: items =>
    let item := sanitizeAuditLog item
    let hash := computeAuditHash mac prevHash item
    { item with prevHash := prevHash, hash := hash } :: chainItems hash items

def create (keep : Instant → Instant) (db : Database) (item : AuditLog) : Database :=
  db.insert keep (chainItems mac (latestAuditHash db) [item])

def createBatch (keep : Instant → Instant) (db : Database) (items : List AuditLog) : Database :=
  if items = [] then db else db.insert keep (chainItems mac (latestAuditHash db) items)

/-! ## Checkpoints and PruneBefore -/

def checkpointSignature (checkpoint : AuditCheckpoint) : GoString :=
  signAuditPayload mac (objectText [
    (str "kind", .string (str "audit_checkpoint")),
    (str "last_hash", .string checkpoint.lastHash),
    (str "last_id", .number checkpoint.lastID),
    (str "pruned", .number checkpoint.pruned),
    (str "pruned_at", .string (formatRFC3339Nano checkpoint.prunedAt))])

inductive StoreError
  | checkpointSignature
  | cancelled
  | chain (e : ChainError)
deriving DecidableEq

def loadCheckpoint (db : Database) : Except StoreError (Option AuditCheckpoint) :=
  match db.checkpoint with
  | none => .ok none
  | some checkpoint =>
    if checkpoint.signature = checkpointSignature mac checkpoint then .ok (some checkpoint)
      else .error .checkpointSignature

/-- The checkpoint that `pruneBatch` saves. -/
def nextCheckpoint (previous : Option AuditCheckpoint) (last : AuditLog) (affected : ℕ)
    (now : Instant) : AuditCheckpoint :=
  let next : AuditCheckpoint := {
    lastID := last.id
    lastHash := last.hash
    pruned := affected + (previous.map AuditCheckpoint.pruned).getD 0
    prunedAt := now
    signature := [] }
  { next with signature := checkpointSignature mac next }

def auditPruneBatchSize : ℕ := 1000

structure PruneStep where
  db : Database
  removed : ℕ
  lastID : ℕ
  done : Bool

def pruneBatch (before now : Instant) (db : Database) : Except StoreError PruneStep :=
  let newestID := Paging.lastKey AuditLog.id 0 db.rows
  let batch := (db.rows.filter fun r => r.id < newestID).take auditPruneBatchSize
  let old := batch.takeWhile fun r => r.timestamp < before
  match old.getLast? with
  | none => .ok ⟨db, 0, 0, true⟩
  | some last =>
    let affected := db.rows.length - (Paging.after AuditLog.id last.id db.rows).length
    if affected = 0 then .ok ⟨db, 0, 0, true⟩
    else
      match loadCheckpoint mac db with
      | .error e => .error e
      | .ok previous =>
        .ok ⟨db.pruneTo (nextCheckpoint mac previous last affected now), affected, last.id,
          old.length < batch.length || batch.length < auditPruneBatchSize⟩

theorem pruneBatch_lt {before now : Instant} {db : Database} {step : PruneStep}
    (h : pruneBatch mac before now db = .ok step) (hdone : step.done = false) :
    step.db.rows.length < db.rows.length := by
  unfold pruneBatch at h
  dsimp only at h
  split at h
  · cases h
    exact Bool.noConfusion hdone
  · split_ifs at h with haff
    · cases h
      exact Bool.noConfusion hdone
    · split at h
      · cases h
      · cases h
        exact Nat.lt_of_sub_ne_zero haff

structure PruneResult where
  db : Database
  removed : ℕ
  lastID : ℕ
  error : Option StoreError

/-- The loop of `PruneBefore` from its `i`-th batch on. `clock` is read once a batch, `cancelled`
says whether the context has ended after it. -/
def pruneBefore (before : Instant) (clock : ℕ → Instant) (cancelled : ℕ → Bool) (i : ℕ) (db : Database)
    (removed lastID : ℕ) : PruneResult :=
  match h : pruneBatch mac before (clock i) db with
  | .error e => ⟨db, removed, lastID, some e⟩
  | .ok step =>
    let removed := removed + step.removed
    let lastID := if 0 < step.lastID then step.lastID else lastID
    if hdone : step.done = true then ⟨step.db, removed, lastID, none⟩
    else if cancelled i then ⟨step.db, removed, lastID, some .cancelled⟩
    else pruneBefore before clock cancelled (i + 1) step.db removed lastID
termination_by db.rows.length
decreasing_by exact pruneBatch_lt mac h (by simpa using hdone)

/-! ## Compact -/

def auditDetailOutcome (parse : GoString → Option (GoString × GoString)) (raw : GoString) : GoString × GoString :=
  if trimSpace raw = [] then ([], []) else (parse raw).getD ([], [])

def auditRowIsAccessNoise (parse : GoString → Option (GoString × GoString)) (item : AuditLog) : Bool :=
  if item.resourceType = str "http_request" then true
  else if item.action = str "proxy_access" then
    let (outcome, reason) := auditDetailOutcome parse item.details
    if outcome ≠ str "denied" then true
    else reason = str "login_required" || (reason = str "authz" && item.statusCode = 302)
  else false

/-- The table inside the transaction, the hash of the last row that was kept, and the counts of the
result. -/
structure CompactState where
  rows : List AuditLog
  prevHash : GoString
  scanned : ℕ
  removed : ℕ
  kept : ℕ

def compactStart (rows : List AuditLog) : CompactState := ⟨rows, [], 0, 0, 0⟩

variable (parse : GoString → Option (GoString × GoString))

def compactRow (s : CompactState) (row : AuditLog) : CompactState :=
  if auditRowIsAccessNoise parse row then
    { s with
      rows := s.rows.filter fun r => r.id ≠ row.id
      scanned := s.scanned + 1
      removed := s.removed + 1 }
  else
    let newHash := computeAuditHash mac s.prevHash row
    { rows :=
        if row.prevHash ≠ s.prevHash ∨ row.hash ≠ newHash then
          s.rows.map fun r => if r.id = row.id then { r with prevHash := s.prevHash, hash := newHash } else r
        else s.rows
      prevHash := newHash
      scanned := s.scanned + 1
      removed := s.removed
      kept := s.kept + 1 }

theorem length_after_compactRow (k : ℕ) (s : CompactState) (row : AuditLog) :
    (Paging.after AuditLog.id k (compactRow mac parse s row).rows).length ≤
      (Paging.after AuditLog.id k s.rows).length := by
  unfold compactRow
  dsimp only
  split_ifs with hnoise hsame
  · exact (List.Sublist.filter _ (List.filter_sublist ..)).length_le
  · rw [Paging.after, List.filter_map, List.length_map]
    refine Nat.le_of_eq (congrArg List.length (List.filter_congr fun r _ => ?_))
    rw [Function.comp_apply]
    split_ifs <;> rfl
  · exact le_rfl

theorem length_after_compactRows (k : ℕ) (batch : List AuditLog) (s : CompactState) :
    (Paging.after AuditLog.id k (batch.foldl (compactRow mac parse) s).rows).length ≤
      (Paging.after AuditLog.id k s.rows).length := by
  induction batch generalizing s with
  | nil => exact le_rfl
  | cons row batch ih => exact (ih _).trans (length_after_compactRow mac parse k s row)

def compactBatchSize : ℕ := 500

def compactLoop (s : CompactState) (lastID : ℕ) : CompactState :=
  let batch := Paging.page AuditLog.id compactBatchSize lastID s.rows
  if _hne : batch = [] then s
  else
    let s' := batch.foldl (compactRow mac parse) s
    if batch.length < compactBatchSize then s' else compactLoop s' (Paging.lastKey AuditLog.id lastID batch)
termination_by (Paging.after AuditLog.id lastID s.rows).length
decreasing_by exact (length_after_compactRows ..).trans_lt (Paging.length_after_lastKey_lt AuditLog.id _hne)

/-! ## VerifyChain -/

structure VerifyState where
  prevHash : GoString
  lastID : ℕ
  verified : ℕ
  anchorID : ℕ
  pruned : ℕ
deriving DecidableEq

def verifyStart : Option AuditCheckpoint → VerifyState
  | none => ⟨[], 0, 0, 0, 0⟩
  | some checkpoint => ⟨checkpoint.lastHash, checkpoint.lastID, 0, checkpoint.lastID, checkpoint.pruned⟩

def verifyBatchSize : ℕ := 500

/-- One query of `VerifyChain`, and whether it was the last. -/
def verifyBatch (v : VerifyState) (batch : List AuditLog) : Except ChainError (VerifyState × Bool) :=
  if batch = [] then .ok (v, true)
  else
    match verifyAuditChainSegment mac v.prevHash batch with
    | .error e => .error e
    | .ok next =>
      .ok ({ v with
        prevHash := next
        lastID := Paging.lastKey AuditLog.id v.lastID batch
        verified := v.verified + batch.length }, batch.length < verifyBatchSize)

theorem verifyBatch_lastID {v v' : VerifyState} {batch : List AuditLog}
    (h : verifyBatch mac v batch = .ok (v', false)) :
    batch ≠ [] ∧ v'.lastID = Paging.lastKey AuditLog.id v.lastID batch := by
  unfold verifyBatch at h
  split_ifs at h with hne
  · cases h
  · split at h
    · cases h
    · rw [Except.ok.injEq, Prod.mk.injEq] at h
      exact ⟨hne, by rw [← h.1]⟩

def verifyLoop (rows : List AuditLog) (v : VerifyState) : Except ChainError VerifyState :=
  match _h : verifyBatch mac v (Paging.page AuditLog.id verifyBatchSize v.lastID rows) with
  | .error e => .error e
  | .ok (v', true) => .ok v'
  | .ok (v', false) => verifyLoop rows v'
termination_by (Paging.after AuditLog.id v.lastID rows).length
decreasing_by
  obtain ⟨hne, hlast⟩ := verifyBatch_lastID mac _h
  rw [hlast]
  exact Paging.length_after_lastKey_lt AuditLog.id hne

/-- `prevHash` and `lastID` of the result are its latest hash and its latest id. -/
def verifyChain (db : Database) : Except StoreError VerifyState :=
  match loadCheckpoint mac db with
  | .error e => .error e
  | .ok checkpoint =>
    match verifyLoop mac db.rows (verifyStart checkpoint) with
    | .error e => .error (.chain e)
    | .ok v => .ok v

end Mac
end Portlyn.Audit
