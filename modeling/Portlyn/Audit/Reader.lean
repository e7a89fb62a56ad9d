import Portlyn.Audit.Runs

/-! # Verifying a log that changes

`VerifyChain` reads the checkpoint and then page after page, each in a query of its own. Between two
queries other calls may commit: `Create` and `CreateBatch` append, a batch of `PruneBefore` removes
the oldest rows, and `Compact` rewrites the chain. The reader keeps the hash that its next row must
follow. It stays right as long as pruning stays behind the reader and `Compact` leaves the rows it
has read as they are (`verifyChain_noFalseAlarm`). -/
namespace Portlyn.Audit
open Go Lib
set_option autoImplicit false

/-! ## The reader among the writers -/

inductive Reader
  | start
  | reading (v : VerifyState)
  | done (result : Except StoreError VerifyState)
deriving DecidableEq

structure Watched where
  db : Database
  reader : Reader

/-- A query of `VerifyChain`, or a transaction of another call. -/
inductive Action
  | readCheckpoint
  | readBatch
  | create (item : AuditLog)
  | createBatch (items : List AuditLog)
  | pruneBatch (before now : Instant)
  | compact

section Mac
variable (mac : GoString → GoString) (parse : GoString → Option (GoString × GoString))

def Reader.readCheckpoint (db : Database) : Reader → Reader
  | .start =>
    match loadCheckpoint mac db with
    | .error e => .done (.error e)
    | .ok checkpoint => .reading (verifyStart checkpoint)
  | r => r

def Reader.readBatch (db : Database) : Reader → Reader
  | .reading v =>
    match verifyBatch mac v (Paging.page AuditLog.id verifyBatchSize v.lastID db.rows) with
    | .error e => .done (.error (.chain e))
    | .ok (v, true) => .done (.ok v)
    | .ok (v, false) => .reading v
  | r => r

/-- A batch of `PruneBefore` that fails is rolled back. -/
def pruned (before now : Instant) (db : Database) : Database :=
  match Audit.pruneBatch mac before now db with
  | .error _ => db
  | .ok step => step.db

def Watched.step (s : Watched) : Action → Watched
  | .readCheckpoint => { s with reader := s.reader.readCheckpoint mac s.db }
  | .readBatch => { s with reader := s.reader.readBatch mac s.db }
  | .create item => { s with db := Audit.create mac id s.db item }
  | .createBatch items => { s with db := Audit.createBatch mac id s.db items }
  | .pruneBatch before now => { s with db := pruned mac before now s.db }
  | .compact => { s with db := Audit.compact mac parse s.db }

def watch (s : Watched) (actions : List Action) : Watched :=
  actions.foldl (Watched.step mac parse) s

/-- What may commit while the reader is at work: pruning that removes rows it has read, and
`Compact` where there is no checkpoint and it changes none of those rows. -/
def Harmless (s : Watched) : Action → Prop
  | .pruneBatch before now =>
    ∀ v, s.reader = .reading v → ∀ r ∈ s.db.rows, r ∉ (pruned mac before now s.db).rows → r.id ≤ v.lastID
  | .compact =>
    ∀ v, s.reader = .reading v → s.db.checkpoint = none ∧ ∀ r ∈ s.db.rows, r.id ≤ v.lastID →
      auditRowIsAccessNoise parse r = false ∧ r.hash = computeAuditHash mac r.prevHash r
  | _ => True

def HarmlessRun : Watched → List Action → Prop
  | _, [] => True
  | s, a :: actions => Harmless mac parse s a ∧ HarmlessRun (s.step mac parse a) actions

/-! ## The hash that the next row follows -/

def linkAt (db : Database) (k : ℕ) : GoString := endHash (anchorHash db) (Paging.upTo AuditLog.id k db.rows)

variable {mac}

variable {db : Database} {n : ℕ}

theorem chain_linkAt (h : Consistent mac db n) (k : ℕ) :
    AuditChain mac (linkAt db k) (Paging.after AuditLog.id k db.rows) := by
  have hchain := h.chain
  rw [← db.sorted.upTo_append_after AuditLog.id k] at hchain
  exact ((HashChain.chain_append _ _ _ _ _).mp hchain).2

theorem anchorID_lt (h : Consistent mac db n) : anchorID db < db.nextID := by
  by_cases hnil : db.rows = []
  · rw [anchorID, h.nonempty hnil]
    exact db.nextID_pos
  · obtain ⟨r, hr⟩ := List.exists_mem_of_ne_nil _ hnil
    exact (h.beyond r hr).trans (db.fresh r hr).2

theorem linkAt_anchor (h : Consistent mac db n) : linkAt db (anchorID db) = anchorHash db := by
  rw [linkAt, Paging.upTo_eq_nil _ h.beyond]
  rfl

theorem linkAt_insert (db : Database) {k : ℕ} (hk : k < db.nextID) (items : List AuditLog) :
    linkAt (db.insert id items) k = linkAt db k := by
  unfold linkAt
  have hrows : Paging.upTo AuditLog.id k (db.insert id items).rows = Paging.upTo AuditLog.id k db.rows := by
    have hnew : ∀ r ∈ assignIDs db.nextID (items.map fun item =>
      { item with timestamp := id item.timestamp }), k < r.id :=
      fun r hr => hk.trans_le (mem_assignIDs hr).1
    refine (Paging.upTo_append ..).trans ?_
    rw [Paging.upTo_eq_nil _ hnew, List.append_nil]
  rw [hrows]
  rfl

theorem linkAt_pruneTo {pre post : List AuditLog} {last : AuditLog} {checkpoint : AuditCheckpoint}
    {k : ℕ} (hsplit : db.rows = pre ++ last :: post) (hid : checkpoint.lastID = last.id)
    (hhash : checkpoint.lastHash = last.hash) (hk : last.id ≤ k) :
    linkAt (db.pruneTo checkpoint) k = linkAt db k := by
  have hrows : (db.pruneTo checkpoint).rows = post := by
    rw [← after_of_split db.sorted hsplit, ← hid]
    rfl
  have hsplit' : db.rows = (pre ++ [last]) ++ post := by rw [hsplit, List.append_assoc]; rfl
  have hread : Paging.upTo AuditLog.id k (pre ++ [last]) = pre ++ [last] := by
    have hs := db.sorted
    rw [hsplit'] at hs
    obtain ⟨hle, -⟩ := hs.le_lastKey AuditLog.id (k := 0) (by simp)
    rw [Paging.lastKey_concat] at hle
    exact Paging.upTo_eq_self _ fun r hr => (hle r hr).trans hk
  have hend := HashChain.endOf_append AuditLog.hash (anchorHash db) (pre ++ [last]) (Paging.upTo AuditLog.id k post)
  rw [HashChain.endOf_concat] at hend
  rw [linkAt, linkAt, hrows, hsplit', Paging.upTo_append, hread]
  refine Eq.trans ?_ hend.symm
  rw [← hhash]
  rfl

theorem rehash_eq_self {prevHash : GoString} {rows : List AuditLog} (h : AuditChain mac prevHash rows)
    (hcur : ∀ r ∈ rows, r.hash = computeAuditHash mac r.prevHash r) : rehash mac prevHash rows = rows := by
  induction rows generalizing prevHash with
  | nil => rfl
  | cons r rows ih =>
    obtain ⟨⟨hprev, -⟩, hrows⟩ := h
    have hr := hcur r List.mem_cons_self
    subst hprev
    rw [rehash, ← hr, ih hrows fun q hq => hcur q (List.mem_cons_of_mem _ hq)]

theorem linkAt_compact {k : ℕ} (h : Consistent mac db n) (hnone : db.checkpoint = none)
    (hread : ∀ r ∈ db.rows, r.id ≤ k → auditRowIsAccessNoise parse r = false ∧
      r.hash = computeAuditHash mac r.prevHash r) :
    linkAt (Audit.compact mac parse db) k = linkAt db k := by
  have hanchor : anchorHash db = [] := by
    rw [anchorHash, hnone]
    rfl
  have hsplit := db.sorted.upTo_append_after AuditLog.id k
  have hread' : ∀ r ∈ Paging.upTo AuditLog.id k db.rows,
      auditRowIsAccessNoise parse r = false ∧ r.hash = computeAuditHash mac r.prevHash r :=
    fun r hr => hread r (List.mem_filter.mp hr).1 (of_decide_eq_true (List.mem_filter.mp hr).2)
  have hchain := h.chain
  rw [hanchor, ← hsplit] at hchain
  have hkept : keptRows parse (Paging.upTo AuditLog.id k db.rows) = Paging.upTo AuditLog.id k db.rows := by
    refine List.filter_eq_self.mpr fun r hr => ?_
    rw [(hread' r hr).1]
    rfl
  have hsame := rehash_eq_self ((HashChain.chain_append _ _ _ _ _).mp hchain).1 fun r hr => (hread' r hr).2
  have hrows : Paging.upTo AuditLog.id k (Audit.compact mac parse db).rows = Paging.upTo AuditLog.id k db.rows := by
    have happend : keptRows parse db.rows = keptRows parse (Paging.upTo AuditLog.id k db.rows) ++
        keptRows parse (Paging.after AuditLog.id k db.rows) := by
      rw [keptRows, keptRows, keptRows, ← List.filter_append, hsplit]
    have hrest : ∀ prevHash,
      ∀ r ∈ rehash mac prevHash (keptRows parse (Paging.after AuditLog.id k db.rows)), k <
      r.id := by
      intro prevHash r hr
      obtain ⟨q, hq, hid⟩ := mem_rehash mac hr
      rw [hid]
      exact of_decide_eq_true (List.mem_filter.mp (List.mem_of_mem_filter hq)).2
    rw [compact_rows, happend, hkept, rehash_append, hsame, Paging.upTo_append,
      Paging.upTo_eq_nil _ (hrest _), List.append_nil]
    exact Paging.upTo_eq_self _ fun r hr => of_decide_eq_true (List.mem_filter.mp hr).2
  rw [linkAt, linkAt, hrows, hanchor]
  rfl

/-! ## One step -/

def Reader.Tracks (db : Database) : Reader → Prop
  | .start => True
  | .reading v => v.lastID < db.nextID ∧ linkAt db v.lastID = v.prevHash
  | .done (.ok _) => True
  | .done (.error _) => False

variable {r : Reader}

theorem Reader.Tracks.change {db' : Database} (h : r.Tracks db)
    (hdb : ∀ v, r = .reading v → v.lastID < db.nextID → v.lastID < db'.nextID ∧
      linkAt db' v.lastID = linkAt db v.lastID) :
    r.Tracks db' := by
  cases r with
  | start => trivial
  | reading v =>
    obtain ⟨h1, h2⟩ := hdb v rfl h.1
    exact ⟨h1, h2.trans h.2⟩
  | done result => cases result <;> exact h

theorem tracks_readCheckpoint (hn : Consistent mac db n) (h : r.Tracks db) :
    (r.readCheckpoint mac db).Tracks db := by
  cases r with
  | start =>
    obtain ⟨h1, h2, -⟩ := verifyStart_anchor db
    rw [Reader.readCheckpoint, loadCheckpoint_ok mac hn]
    dsimp only [Reader.Tracks]
    rw [h1, h2]
    exact ⟨anchorID_lt hn, linkAt_anchor hn⟩
  | _ => exact h

theorem tracks_readBatch (hn : Consistent mac db n) (h : r.Tracks db) :
    (r.readBatch mac db).Tracks db := by
  cases r with
  | reading v =>
    obtain ⟨hlast, hlink⟩ := h
    obtain ⟨rest, hcut, -⟩ := Paging.exists_page_append AuditLog.id verifyBatchSize v.lastID db.rows
    have hchain := chain_linkAt hn v.lastID
    rw [hcut, hlink] at hchain
    have hpage := ((HashChain.chain_append _ _ _ _ _).mp hchain).1
    rw [Reader.readBatch, (verifyBatch_ok_iff mac).mpr ⟨hpage, rfl⟩]
    by_cases hshort : (Paging.page AuditLog.id verifyBatchSize v.lastID db.rows).length < verifyBatchSize
    · rw [decide_eq_true hshort]
      trivial
    · rw [decide_eq_false hshort]
      have hne : Paging.page AuditLog.id verifyBatchSize v.lastID db.rows ≠ [] := by
        intro hnil
        rw [hnil] at hshort
        exact hshort (by decide)
      have hup := db.sorted.upTo_lastKey AuditLog.id hne
      have hend := HashChain.endOf_append AuditLog.hash (anchorHash db) (Paging.upTo AuditLog.id v.lastID db.rows)
        (Paging.page AuditLog.id verifyBatchSize v.lastID db.rows)
      refine ⟨?_, ?_⟩
      · obtain ⟨init, last, heq⟩ := (List.eq_nil_or_concat' _).resolve_left hne
        have hmem : last ∈ Paging.page AuditLog.id verifyBatchSize v.lastID db.rows := by
          rw [heq]
          exact List.mem_append_right _ (List.mem_singleton_self last)
        rw [VerifyState.advance, heq]
        rw [Paging.lastKey_concat]
        exact (db.fresh last (List.mem_of_mem_filter (List.mem_of_mem_take hmem))).2
      · rw [VerifyState.advance, linkAt, hup]
        refine hend.trans ?_
        rw [← hlink]
        rfl
  | _ => exact h

theorem tracks_insert (h : r.Tracks db) (items : List AuditLog) : r.Tracks (db.insert id items) :=
  h.change fun _ _ hv => ⟨hv.trans_le (Nat.le_add_right _ _), linkAt_insert db hv items⟩

theorem tracks_pruned (hn : Consistent mac db n) (h : r.Tracks db) (before now : Instant)
    (hread : ∀ v, r = .reading v → ∀ row ∈ db.rows, row ∉ (pruned mac before now db).rows → row.id ≤ v.lastID) :
    r.Tracks (pruned mac before now db) := by
  obtain ⟨step, hstep, hcases⟩ := pruneBatch_cases mac hn before now
  unfold pruned at hread ⊢
  rw [hstep] at hread ⊢
  dsimp only at hread ⊢
  rcases hcases with heq | ⟨pre, last, post, hsplit, -, heq⟩
  · rw [heq]
    exact h
  · rw [heq] at hread ⊢
    refine h.change fun v hr hv => ⟨hv, linkAt_pruneTo hsplit rfl rfl ?_⟩
    refine hread v hr last ?_ fun hmem => ?_
    · rw [hsplit]
      exact List.mem_append_right _ List.mem_cons_self
    · exact absurd (of_decide_eq_true (List.mem_filter.mp hmem).2) (lt_irrefl last.id)

variable (mac) in
def Tracking (s : Watched) : Prop := (∃ n, Consistent mac s.db n) ∧ s.reader.Tracks s.db

theorem consistent_pruned (hn : Consistent mac db n) (before now : Instant) :
    ∃ m, Consistent mac (pruned mac before now db) m := by
  obtain ⟨step, hstep, hcases⟩ := pruneBatch_cases mac hn before now
  unfold pruned
  rw [hstep]
  rcases hcases with heq | ⟨pre, last, post, hsplit, hpost, heq⟩
  · exact ⟨n, heq ▸ hn⟩
  · exact ⟨_, heq ▸ consistent_pruneTo mac hn hsplit hpost now⟩

theorem tracking_step {s : Watched} (h : Tracking mac s) (a : Action)
    (hharmless : Harmless mac parse s a) : Tracking mac (s.step mac parse a) := by
  obtain ⟨⟨n, hn⟩, hr⟩ := h
  cases a with
  | readCheckpoint => exact ⟨⟨n, hn⟩, tracks_readCheckpoint hn hr⟩
  | readBatch => exact ⟨⟨n, hn⟩, tracks_readBatch hn hr⟩
  | create item => exact ⟨⟨n, consistent_insert mac hn [item] (List.cons_ne_nil _ _)⟩, tracks_insert hr _⟩
  | createBatch items =>
    unfold Watched.step Audit.createBatch
    dsimp only
    split_ifs with hnil
    · exact ⟨⟨n, hn⟩, hr⟩
    · exact ⟨⟨n, consistent_insert mac hn items hnil⟩, tracks_insert hr _⟩
  | pruneBatch before now => exact ⟨consistent_pruned hn before now, tracks_pruned hn hr before now hharmless⟩
  | compact =>
    refine ⟨⟨0, consistent_compact mac parse s.db⟩, hr.change fun v hv hlast => ⟨hlast, ?_⟩⟩
    obtain ⟨hnone, hrows⟩ := hharmless v hv
    exact linkAt_compact parse hn hnone hrows

/-! ## Whole runs -/

theorem tracking_watch {s : Watched} (h : Tracking mac s) {actions : List Action}
    (hrun : HarmlessRun mac parse s actions) : Tracking mac (watch mac parse s actions) := by
  induction actions generalizing s with
  | nil => exact h
  | cons a actions ih => exact ih (tracking_step parse h a hrun.1) hrun.2

end Mac

/-- On a log that is in order `VerifyChain` reports no error, in every run in which nothing but
harmless changes commit while it reads. -/
theorem verifyChain_noFalseAlarm (mac : GoString → GoString) (parse : GoString → Option (GoString × GoString))
    (db : Database) (n : ℕ) (hdb : Consistent mac db n) (actions : List Action)
    (hrun : HarmlessRun mac parse ⟨db, .start⟩ actions) :
    ¬ ∃ e, (watch mac parse ⟨db, .start⟩ actions).reader = .done (.error e) := by
  rintro ⟨e, he⟩
  have h := (tracking_watch parse (s := ⟨db, .start⟩) ⟨⟨n, hdb⟩, trivial⟩ hrun).2
  rw [he] at h
  exact h

/-- Two rows are written and the first one is pruned before the reader starts; a third comes while
it reads. -/
def readAfterPrune : List Action :=
  [.create (sampleLog [] []), .create (sampleLog [] []), .pruneBatch 10 20, .readCheckpoint,
    .create (sampleLog [] []), .readBatch]

theorem verifyChain_readAfterPrune :
    ¬ ∃ e, (watch sampleMac (fun _ => none) ⟨Database.empty, .start⟩ readAfterPrune).reader = .done (.error e) := by
  refine verifyChain_noFalseAlarm sampleMac _ Database.empty 0 (consistent_empty sampleMac) readAfterPrune ?_
  refine ⟨trivial, trivial, ?_, trivial, trivial, trivial, trivial⟩
  intro v hv
  cases hv

/-- The first row is pruned after the reader has found no checkpoint; the second row follows the
removed one. -/
theorem verifyChain_falseAlarm :
    (watch sampleMac (fun _ => none) ⟨Database.empty, .start⟩
      [.create (sampleLog [] []), .create (sampleLog [] []), .readCheckpoint, .pruneBatch 10 20, .readBatch]).reader =
        .done (.error (.chain (.chainMismatch 2))) := by
  decide +kernel

end Portlyn.Audit
