import Portlyn.Audit.Runs

/-! # The audit logger (`internal/audit/logger.go`)

`AsyncSink` queues events, and its flusher gathers them into batches for the store. A producer that
finds the queue full may write its event to the store itself. The hash of a row is made from the
event's timestamp, and checked against the one the database gives back. -/
namespace Portlyn.Audit
open Go Lib
set_option autoImplicit false

/-! ## Events -/

structure AuditEvent where
  timestamp : Instant
  requestID : GoString
  userID : Option ℕ
  action : GoString
  resourceType : GoString
  resourceID : Option ℕ
  method : GoString
  host : GoString
  path : GoString
  statusCode : ℤ
  latencyMs : ℤ
  remoteAddr : GoString
  userAgent : GoString
  /-- `nil`, or what `json.Marshal` gives for the value, which may be an error. -/
  details : Option (Option GoString)

def toAuditLog (ev : AuditEvent) : AuditLog where
  id := 0
  timestamp := ev.timestamp
  requestID := ev.requestID
  userID := ev.userID
  action := ev.action
  resourceType := ev.resourceType
  resourceID := ev.resourceID
  method := ev.method
  host := ev.host
  path := ev.path
  statusCode := ev.statusCode
  latencyMs := ev.latencyMs
  remoteAddr := ev.remoteAddr
  userAgent := ev.userAgent
  details := ev.details.join.getD []
  prevHash := []
  hash := []

/-! ## The sink -/

inductive DropPolicy
  | dropNewest
  | dropOldest
  | syncFallback
  | block

/-- The `switch` of `WriteEvent`; an unknown policy falls back to the store. -/
def dropPolicyOf (s : GoString) : DropPolicy :=
  if s = str "block" then .block
  else if s = str "drop_newest" then .dropNewest
  else if s = str "drop_oldest" then .dropOldest
  else .syncFallback

structure SinkConfig where
  bufferSize : ℕ
  batchSize : ℕ
  policy : DropPolicy

def newAsyncSink (bufferSize batchSize : ℤ) (dropPolicy : GoString) : SinkConfig where
  bufferSize := if bufferSize ≤ 0 then 1024 else bufferSize.toNat
  batchSize := if batchSize ≤ 0 then 128 else batchSize.toNat
  policy := dropPolicyOf dropPolicy

/-- The store with the queue and the flusher's buffer. `written` lists what the store has taken, as
it was when the store hashed it. -/
structure Sink where
  db : Database
  queue : List AuditEvent
  buffer : List AuditLog
  closed : Bool
  written : List AuditLog

def Sink.empty : Sink := ⟨Database.empty, [], [], false, []⟩

section Mac
variable (mac : GoString → GoString) (keep : Instant → Instant)

def Sink.createBatch (s : Sink) (ok : Bool) (items : List AuditLog) : Sink :=
  if ok then { s with db := Audit.createBatch mac keep s.db items, written := s.written ++ items } else s

def Sink.create (s : Sink) (ok : Bool) (item : AuditLog) : Sink :=
  if ok then { s with db := Audit.create mac keep s.db item, written := s.written ++ [item] } else s

def Sink.flush (s : Sink) (ok : Bool) : Sink :=
  if s.buffer = [] then s else { s with buffer := [] }.createBatch mac keep ok s.buffer

/-- `ok` says whether the store takes what the step gives to it. -/
inductive SinkStep
  | write (ev : AuditEvent) (ok : Bool)
  | receive (ok : Bool)
  | tick (ok : Bool)
  | close (ok : Bool)

def Sink.writeEvent (cfg : SinkConfig) (s : Sink) (ev : AuditEvent) (ok : Bool) : Sink :=
  if s.queue.length < cfg.bufferSize then { s with queue := s.queue ++ [ev] }
  else
    match cfg.policy with
    | .block => s
    | .dropNewest => s
    | .dropOldest => { s with queue := s.queue.tail ++ [ev] }
    | .syncFallback => s.create mac keep ok (toAuditLog ev)

/-- The `select` of the flusher, which ends with `close`. -/
def Sink.step (cfg : SinkConfig) (s : Sink) : SinkStep → Sink
  | .write ev ok => s.writeEvent mac keep cfg ev ok
  | .receive ok =>
    match s.closed, s.queue with
    | false, ev :: queue =>
      let s := { s with queue := queue, buffer := s.buffer ++ [toAuditLog ev] }
      if cfg.batchSize ≤ s.buffer.length then s.flush mac keep ok else s
    | _, _ => s
  | .tick ok => if s.closed then s else s.flush mac keep ok
  | .close ok =>
    if s.closed then s
    else { s with queue := [], buffer := s.buffer ++ s.queue.map toAuditLog, closed := true }.flush mac keep ok

def runSink (cfg : SinkConfig) (steps : List SinkStep) : Sink :=
  steps.foldl (Sink.step mac keep cfg) Sink.empty

/-! ## Rows that come back changed -/

theorem auditLogHasInvalidUTF8_sanitize (item : AuditLog) : auditLogHasInvalidUTF8 (sanitizeAuditLog item) = false := by
  have hvalid : ∀ s, ∀ x ∈ symbols (replaceInvalidUTF8 s runeErrorText), isBad x ≠ true := by
    intro s x hx
    rw [runeErrorText, symbols_replaceInvalidUTF8 isScalar_runeError] at hx
    obtain ⟨y, -, rfl⟩ := List.mem_map.mp hx
    cases y <;> exact Bool.noConfusion
  rw [← Bool.not_eq_true, auditLogHasInvalidUTF8_iff]
  rintro ⟨x, hx, hbad⟩
  obtain ⟨s, hs, hxs⟩ := List.mem_flatMap.mp hx
  have htexts : (sanitizeAuditLog item).texts = item.texts.map fun s => replaceInvalidUTF8 s runeErrorText := rfl
  rw [htexts] at hs
  obtain ⟨t, -, rfl⟩ := List.mem_map.mp hs
  exact hvalid t x hxs hbad

def keepRow (item : AuditLog) : AuditLog := { item with timestamp := keep item.timestamp }

theorem isAscii_signAuditPayload (x : GoString) : IsAscii (signAuditPayload mac x) :=
  hexEncode_ascii _

variable {prevHash : GoString}

theorem isAscii_endHash_stored (hp : IsAscii prevHash) (n : ℕ) (items : List AuditLog) :
    IsAscii (endHash prevHash (assignIDs n ((chainItems mac prevHash items).map (keepRow keep)))) := by
  induction items generalizing n prevHash with
  | nil => exact hp
  | cons item items ih => exact ih (isAscii_signAuditPayload mac _) (n + 1)

theorem latestAuditHash_insert (db : Database) (items : List AuditLog) :
    latestAuditHash (db.insert keep items) = endHash (latestAuditHash db)
      (assignIDs db.nextID (items.map (keepRow keep))) := by
  rw [latestAuditHash_eq_endHash, latestAuditHash_eq_endHash]
  exact HashChain.endOf_append ..

variable {mac} (hinj : Function.Injective mac)
include hinj

theorem timestamp_eq_of_hash_eq (hp : IsAscii prevHash) {a b : AuditLog}
    (h : computeAuditHash mac prevHash a = computeAuditHash mac prevHash b) : a.timestamp = b.timestamp := by
  rw [computeAuditHash, computeAuditHash, auditHashPayload_current, auditHashPayload_current] at h
  obtain ⟨-, hplain, -⟩ := payloadWith_inj validToken_current validToken_current hp hp (signAuditPayload_inj hinj h)
  exact congrArg Prod.fst hplain

theorem chain_stored_iff (hp : IsAscii prevHash) (n : ℕ) (items : List AuditLog) :
    AuditChain mac prevHash (assignIDs n ((chainItems mac prevHash items).map (keepRow keep))) ↔
      ∀ item ∈ items, keep item.timestamp = item.timestamp := by
  induction items generalizing n prevHash with
  | nil => exact ⟨fun _ _ h => absurd h List.not_mem_nil, fun _ => trivial⟩
  | cons item items ih =>
    rw [List.forall_mem_cons]
    refine and_congr ?_ (ih (isAscii_signAuditPayload mac _) (n + 1))
    constructor
    · rintro ⟨-, hcur | ⟨hbad, -⟩⟩
      · exact (timestamp_eq_of_hash_eq hinj hp hcur).symm
      · have hgood := auditLogHasInvalidUTF8_sanitize item
        exact absurd (hgood.symm.trans hbad) Bool.noConfusion
    · intro hkeep
      refine ⟨rfl, Or.inl ?_⟩
      have htime : keep (sanitizeAuditLog item).timestamp = (sanitizeAuditLog item).timestamp := hkeep
      simp only [keepRow, computeAuditHash, auditHashPayload, htime]

/-! ## Runs of the sink -/

variable (mac) in
structure Stored (db : Database) (written : List AuditLog) : Prop where
  unpruned : db.checkpoint = none
  chain : AuditChain mac [] db.rows ↔ ∀ item ∈ written, keep item.timestamp = item.timestamp
  ascii : IsAscii (latestAuditHash db)

theorem stored_insert {db : Database} {written : List AuditLog} (h : Stored mac keep db written)
    (items : List AuditLog) :
    Stored mac keep (db.insert keep (chainItems mac (latestAuditHash db) items)) (written ++ items) where
  unpruned := h.unpruned
  chain := by
    have hnew := chain_stored_iff keep hinj h.ascii db.nextID items
    rw [List.forall_mem_append, ← h.chain, ← hnew, latestAuditHash_eq_endHash]
    exact HashChain.chain_append ..
  ascii := by
    rw [latestAuditHash_insert]
    exact isAscii_endHash_stored mac keep h.ascii db.nextID items

theorem stored_createBatch {db : Database} {written : List AuditLog}
    (h : Stored mac keep db written) (items : List AuditLog) :
    Stored mac keep (Audit.createBatch mac keep db items) (written ++ items) := by
  unfold Audit.createBatch
  split_ifs with hnil
  · rw [hnil, List.append_nil]
    exact h
  · exact stored_insert keep hinj h items

theorem stored_flush {s : Sink} (h : Stored mac keep s.db s.written) (ok : Bool) :
    Stored mac keep (s.flush mac keep ok).db (s.flush mac keep ok).written := by
  unfold Sink.flush Sink.createBatch
  split_ifs
  · exact h
  · exact stored_createBatch keep hinj h s.buffer
  · exact h

theorem stored_step {s : Sink} (h : Stored mac keep s.db s.written) (cfg : SinkConfig) (step : SinkStep) :
    Stored mac keep (s.step mac keep cfg step).db (s.step mac keep cfg step).written := by
  cases step with
  | write ev ok =>
    unfold Sink.step Sink.writeEvent
    dsimp only
    by_cases hroom : s.queue.length < cfg.bufferSize
    · rw [if_pos hroom]
      exact h
    · rw [if_neg hroom]
      cases cfg.policy with
      | syncFallback =>
        cases ok with
        | false => exact h
        | true => exact stored_insert keep hinj h [toAuditLog ev]
      | _ => exact h
  | receive ok =>
    unfold Sink.step
    dsimp only
    split
    · split_ifs
      · exact stored_flush keep hinj (by exact h) ok
      · exact h
    · exact h
  | tick ok =>
    unfold Sink.step
    split_ifs
    · exact h
    · exact stored_flush keep hinj h ok
  | close ok =>
    unfold Sink.step
    split_ifs
    · exact h
    · exact stored_flush keep hinj (by exact h) ok

theorem stored_run (cfg : SinkConfig) (steps : List SinkStep) :
    Stored mac keep (runSink mac keep cfg steps).db (runSink mac keep cfg steps).written := by
  induction steps using List.reverseRecOn with
  | nil => exact ⟨rfl, ⟨fun _ _ h => absurd h List.not_mem_nil, fun _ => trivial⟩, List.forall_mem_nil _⟩
  | append_singleton steps step ih =>
    rw [runSink, List.foldl_append]
    exact stored_step keep hinj ih cfg step

end Mac

/-! ## Timestamps in microseconds -/

structure KeepsMicroseconds (keep : Instant → Instant) : Prop where
  whole : ∀ t, keep t % 1000 = 0
  exact : ∀ t, t % 1000 = 0 → keep t = t

theorem KeepsMicroseconds.eq_iff {keep : Instant → Instant} (h : KeepsMicroseconds keep)
    (t : Instant) : keep t = t ↔ t % 1000 = 0 := by
  refine ⟨fun ht => ?_, h.exact t⟩
  have hwhole := h.whole t
  rwa [ht] at hwhole

/-- After every run of the sink the chain verifies exactly when all events in the store were written
at a whole microsecond. -/
theorem verifyChain_stored_iff (mac : GoString → GoString) (hinj : Function.Injective mac) (keep : Instant → Instant)
    (hkeep : KeepsMicroseconds keep) (cfg : SinkConfig) (steps : List SinkStep) :
    (∃ v, verifyChain mac (runSink mac keep cfg steps).db = .ok v) ↔
      ∀ item ∈ (runSink mac keep cfg steps).written, item.timestamp % 1000 = 0 := by
  have h := stored_run keep hinj cfg steps
  rw [verifyChain_unpruned_iff mac h.unpruned, h.chain]
  exact forall₂_congr fun item _ => hkeep.eq_iff item.timestamp

def truncateMicroseconds (t : Instant) : Instant := t - t % 1000

theorem keepsMicroseconds_truncate : KeepsMicroseconds truncateMicroseconds where
  whole := fun t => Int.emod_eq_zero_of_dvd (Int.dvd_self_sub_emod)
  exact := fun t ht => by rw [truncateMicroseconds, ht, Int.sub_zero]

def sampleEvent (timestamp : Instant) : AuditEvent where
  timestamp := timestamp
  requestID := []
  userID := none
  action := str "login"
  resourceType := str "user"
  resourceID := some 7
  method := []
  host := []
  path := []
  statusCode := 0
  latencyMs := 0
  remoteAddr := []
  userAgent := []
  details := none

def sampleSteps (timestamp : Instant) : List SinkStep :=
  [.write (sampleEvent 0) true, .write (sampleEvent timestamp) true, .receive true, .receive true, .tick true]

theorem verifyChain_stored_whole :
    ∃ v, verifyChain sampleMac (runSink sampleMac truncateMicroseconds (newAsyncSink 0 0 [])
      (sampleSteps 5000)).db = .ok v :=
  (verifyChain_stored_iff sampleMac sampleMac_injective truncateMicroseconds keepsMicroseconds_truncate _ _).mpr
    (by decide +kernel)

/-- One nanosecond is lost, and with it the second row's hash. -/
theorem verifyChain_stored_nanosecond :
    ¬ ∃ v, verifyChain sampleMac (runSink sampleMac truncateMicroseconds (newAsyncSink 0 0 [])
      (sampleSteps 1)).db = .ok v := by
  have h := stored_run truncateMicroseconds sampleMac_injective (newAsyncSink 0 0 []) (sampleSteps 1)
  rw [verifyChain_unpruned_iff sampleMac h.unpruned, h.chain]
  decide +kernel

end Portlyn.Audit
