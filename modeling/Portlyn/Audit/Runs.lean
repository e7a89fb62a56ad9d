import Portlyn.Audit.Store

/-! # Runs of the audit store

Four operations write the table, one after another. `Consistent` says what holds between them: the
rows are a chain from the checkpoint, or from nothing where there is none, and the checkpoint counts
what was pruned since the table was last compacted. Each operation keeps it, so `VerifyChain`
succeeds after every run (`verifyChain_run`). -/
namespace Portlyn.Audit
open Go Lib
set_option autoImplicit false

def anchorHash (db : Database) : GoString := (db.checkpoint.map AuditCheckpoint.lastHash).getD []

def anchorID (db : Database) : ℕ := (db.checkpoint.map AuditCheckpoint.lastID).getD 0

section Mac
variable (mac : GoString → GoString)

structure Consistent (db : Database) (pruned : ℕ) : Prop where
  chain : AuditChain mac (anchorHash db) db.rows
  beyond : ∀ r ∈ db.rows, anchorID db < r.id
  /-- The newest row is never pruned, so a new row finds the hash to follow. -/
  nonempty : db.rows = [] → db.checkpoint = none
  signed : ∀ checkpoint, db.checkpoint = some checkpoint → checkpoint.signature = checkpointSignature mac checkpoint
  counted : (db.checkpoint.map AuditCheckpoint.pruned).getD 0 = pruned

theorem consistent_empty : Consistent mac Database.empty 0 where
  chain := trivial
  beyond := List.forall_mem_nil _
  nonempty := fun _ => rfl
  signed := nofun
  counted := rfl

/-! ## Writing rows -/

theorem latestAuditHash_eq_endHash (db : Database) : latestAuditHash db = endHash [] db.rows := by
  unfold latestAuditHash
  rcases List.eq_nil_or_concat' db.rows with hnil | ⟨init, last, hlast⟩
  · rw [hnil]
    rfl
  · have hend := HashChain.endOf_concat AuditLog.hash [] init last
    rw [hlast, endHash, hend]
    simp

variable {db : Database} {pruned : ℕ}

theorem latestAuditHash_eq (h : Consistent mac db pruned) :
    latestAuditHash db = endHash (anchorHash db) db.rows := by
  rw [latestAuditHash_eq_endHash]
  by_cases hnil : db.rows = []
  · rw [anchorHash, h.nonempty hnil]
    rfl
  · exact HashChain.endOf_of_ne_nil AuditLog.hash [] (anchorHash db) hnil

theorem chain_chainItems (n : ℕ) (prevHash : GoString) (items : List AuditLog) :
    AuditChain mac prevHash
      (assignIDs n ((chainItems mac prevHash items).map fun item =>
      { item with timestamp := item.timestamp })) := by
  induction items generalizing n prevHash with
  | nil => trivial
  | cons item items ih => exact ⟨⟨rfl, Or.inl rfl⟩, ih (n + 1) _⟩

theorem length_chainItems (prevHash : GoString) (items : List AuditLog) :
    (chainItems mac prevHash items).length = items.length := by
  induction items generalizing prevHash with
  | nil => rfl
  | cons item items ih => rw [chainItems, List.length_cons, List.length_cons, ih]

theorem consistent_insert (h : Consistent mac db pruned) (items : List AuditLog)
    (hne : items ≠ []) : Consistent mac (db.insert id (chainItems mac (latestAuditHash db) items)) pruned where
  chain := by
    refine (HashChain.chain_append _ _ _ _ _).mpr ⟨h.chain, ?_⟩
    have hnew := chain_chainItems mac db.nextID (latestAuditHash db) items
    rw [latestAuditHash_eq mac h] at hnew ⊢
    exact hnew
  beyond := by
    intro r hr
    rcases List.mem_append.mp hr with hr | hr
    · exact h.beyond r hr
    · have hnew := (mem_assignIDs hr).1
      have hpos := db.nextID_pos
      -- a checkpoint is older than the rows that are left
      rcases List.eq_nil_or_concat' db.rows with hnil | ⟨init, last, hlast⟩
      · have hid : anchorID db = 0 := by
          rw [anchorID, h.nonempty hnil]
          rfl
        change anchorID db < r.id
        omega
      · have hmem : last ∈ db.rows := hlast ▸ List.mem_append_right _ (List.mem_singleton_self last)
        have h1 := h.beyond last hmem
        have h2 := (db.fresh last hmem).2
        change anchorID db < r.id
        omega
  nonempty := by
    intro hnil
    have hlen := congrArg List.length (List.append_eq_nil_iff.mp hnil).2
    rw [length_assignIDs, List.length_map, length_chainItems, List.length_nil, List.length_eq_zero_iff] at hlen
    exact absurd hlen hne
  signed := h.signed
  counted := h.counted

/-! ## Pruning -/

theorem loadCheckpoint_ok (h : Consistent mac db pruned) :
    loadCheckpoint mac db = .ok db.checkpoint := by
  unfold loadCheckpoint
  cases hc : db.checkpoint with
  | none => rfl
  | some checkpoint => exact if_pos (h.signed checkpoint hc)

variable {rows pre post : List AuditLog}

theorem after_of_split {last : AuditLog} (hs : Paging.Sorted AuditLog.id rows)
    (h : rows = pre ++ last :: post) : Paging.after AuditLog.id last.id rows = post := by
  have hsplit : rows = (pre ++ [last]) ++ post := by rw [h, List.append_assoc]; rfl
  rw [hsplit] at hs ⊢
  obtain ⟨hle, hlt⟩ := hs.le_lastKey AuditLog.id (k := 0) (by simp)
  rw [Paging.lastKey_concat] at hle hlt
  rw [Paging.after_append, Paging.after_eq_nil _ hle, Paging.after_eq_self _ hlt, List.nil_append]

theorem pruneBatch_cases (h : Consistent mac db pruned) (before now : Instant) :
    ∃ step, pruneBatch mac before now db = .ok step ∧ (step.db = db ∨ ∃ pre last post, db.rows = pre ++ last :: post ∧
      post ≠ [] ∧ step.db = db.pruneTo (nextCheckpoint mac db.checkpoint last (pre.length + 1) now)) := by
  unfold pruneBatch
  dsimp only
  split
  · exact ⟨_, rfl, Or.inl rfl⟩
  · rename_i last hlast
    split_ifs with haff
    · exact ⟨_, rfl, Or.inl rfl⟩
    · rw [loadCheckpoint_ok mac h]
      refine ⟨_, rfl, Or.inr ?_⟩
      have hmem : last ∈ db.rows.filter fun r => r.id < Paging.lastKey AuditLog.id 0 db.rows :=
        List.mem_of_mem_take (List.takeWhile_sublist _ |>.mem (List.mem_of_getLast? hlast))
      obtain ⟨hrow, hold⟩ := List.mem_filter.mp hmem
      obtain ⟨pre, post, hsplit⟩ := List.append_of_mem hrow
      have hpost : post ≠ [] := by
        rintro rfl
        rw [hsplit, Paging.lastKey_concat, decide_eq_true_eq] at hold
        exact absurd hold (lt_irrefl _)
      refine ⟨pre, last, post, hsplit, hpost, ?_⟩
      have hafter := after_of_split db.sorted hsplit
      have hcount : db.rows.length - (Paging.after AuditLog.id last.id db.rows).length = pre.length + 1 := by
        rw [hafter, hsplit, List.length_append, List.length_cons]
        omega
      rw [hcount]

theorem consistent_pruneTo (h : Consistent mac db pruned)
    {last : AuditLog} (hsplit : db.rows = pre ++ last :: post) (hpost : post ≠ []) (now : Instant) :
    Consistent mac (db.pruneTo (nextCheckpoint mac db.checkpoint last (pre.length + 1) now))
      (pruned + (db.rows.length -
        (db.pruneTo (nextCheckpoint mac db.checkpoint last (pre.length + 1) now)).rows.length)) := by
  have hafter : (db.pruneTo (nextCheckpoint mac db.checkpoint last (pre.length + 1) now)).rows = post :=
    after_of_split db.sorted hsplit
  refine ⟨?_, ?_, ?_, ?_, ?_⟩
  · rw [hafter]
    have hchain := h.chain
    rw [hsplit] at hchain
    exact ((HashChain.chain_append _ _ _ _ _).mp hchain).2.2
  · intro r hr
    exact of_decide_eq_true (List.mem_filter.mp hr).2
  · intro hnil
    exact absurd (hafter.symm.trans hnil) hpost
  · intro checkpoint hc
    cases hc
    rfl
  · have hcounted := h.counted
    rw [hafter, hsplit, List.length_append, List.length_cons]
    change pre.length + 1 + (db.checkpoint.map AuditCheckpoint.pruned).getD 0 = _
    omega

theorem consistent_pruneBefore (before : Instant) (clock : ℕ → Instant) (cancelled : ℕ → Bool) (i : ℕ) (db : Database)
    (removed lastID pruned : ℕ) (h : Consistent mac db pruned) :
    Consistent mac (pruneBefore mac before clock cancelled i db removed lastID).db
      (pruned + (db.rows.length - (pruneBefore mac before clock cancelled i db removed lastID).db.rows.length)) ∧
    (pruneBefore mac before clock cancelled i db removed lastID).db.rows.length ≤ db.rows.length := by
  induction hn : db.rows.length using Nat.strong_induction_on generalizing i db removed lastID pruned with
  | _ n ih =>
    subst hn
    obtain ⟨step, hstep, hcases⟩ := pruneBatch_cases mac h before (clock i)
    have hnext : Consistent mac step.db (pruned + (db.rows.length - step.db.rows.length)) ∧
        step.db.rows.length ≤ db.rows.length := by
      rcases hcases with heq | ⟨pre, last, post, hsplit, hpost, heq⟩
      · rw [heq, Nat.sub_self]
        exact ⟨h, le_rfl⟩
      · rw [heq]
        exact ⟨consistent_pruneTo mac h hsplit hpost (clock i), List.length_filter_le _ _⟩
    rw [pruneBefore]
    split
    · rename_i e he
      rw [hstep] at he
      cases he
    · rename_i step' he
      rw [hstep] at he
      cases he
      generalize (if 0 < step.lastID then step.lastID else lastID) = lastID'
      by_cases hdone : step.done = true
      · rw [dif_pos hdone]
        exact hnext
      · rw [dif_neg hdone]
        by_cases hcancel : cancelled i = true
        · rw [if_pos hcancel]
          exact hnext
        · rw [if_neg hcancel]
          have hlt := pruneBatch_lt mac hstep (by simpa using hdone)
          obtain ⟨hrec, hle⟩ :=
            ih step.db.rows.length hlt (i + 1) step.db (removed + step.removed) lastID' _
            hnext.1 rfl
          generalize pruneBefore mac before clock cancelled (i + 1) step.db (removed + step.removed)
            lastID' = result at hrec hle
          refine ⟨?_, by omega⟩
          have harith : pruned + (db.rows.length - step.db.rows.length) +
              (step.db.rows.length - result.db.rows.length) =
              pruned + (db.rows.length - result.db.rows.length) := by omega
          rw [harith] at hrec
          exact hrec

/-! ## Compacting -/

def rehash : GoString → List AuditLog → List AuditLog
  | _, [] => []
  | prevHash, row :: rows =>
    let newHash := computeAuditHash mac prevHash row
    { row with prevHash := prevHash, hash := newHash } :: rehash newHash rows

theorem chain_rehash (prevHash : GoString) (rows : List AuditLog) :
    AuditChain mac prevHash (rehash mac prevHash rows) := by
  induction rows generalizing prevHash with
  | nil => trivial
  | cons row rows ih => exact ⟨⟨rfl, Or.inl rfl⟩, ih _⟩

theorem map_id_rehash (prevHash : GoString) (rows : List AuditLog) :
    (rehash mac prevHash rows).map AuditLog.id = rows.map AuditLog.id := by
  induction rows generalizing prevHash with
  | nil => rfl
  | cons row rows ih => rw [rehash, List.map_cons, List.map_cons, ih]

theorem mem_rehash {prevHash : GoString} {r : AuditLog} (h : r ∈ rehash mac prevHash rows) :
    ∃ row ∈ rows, r.id = row.id := by
  have hmem := List.mem_map_of_mem (f := AuditLog.id) h
  rw [map_id_rehash] at hmem
  obtain ⟨row, hrow, hid⟩ := List.mem_map.mp hmem
  exact ⟨row, hrow, hid.symm⟩

theorem rehash_append (prevHash : GoString) (rows rest : List AuditLog) :
    rehash mac prevHash (rows ++ rest) =
      rehash mac prevHash rows ++ rehash mac (endHash prevHash (rehash mac prevHash rows)) rest := by
  induction rows generalizing prevHash with
  | nil => rfl
  | cons row rows ih =>
    rw [List.cons_append, rehash, rehash, ih]
    rfl

theorem sorted_iff_map (rows : List AuditLog) :
    Paging.Sorted AuditLog.id rows ↔ (rows.map AuditLog.id).Pairwise (· < ·) :=
  List.pairwise_map.symm

theorem ne_of_sorted_split {row : AuditLog} (h : Paging.Sorted AuditLog.id (pre ++ row :: post)) :
    (∀ r ∈ pre, r.id ≠ row.id) ∧ ∀ r ∈ post, r.id ≠ row.id := by
  obtain ⟨-, hrest, hcross⟩ := List.pairwise_append.mp h
  refine ⟨fun r hr => ?_, fun r hr => ?_⟩
  · exact Nat.ne_of_lt (hcross r hr row List.mem_cons_self)
  · exact Nat.ne_of_gt ((List.pairwise_cons.mp hrest).1 r hr)

variable (parse : GoString → Option (GoString × GoString))

def keptRows (rows : List AuditLog) : List AuditLog :=
  rows.filter fun row => !auditRowIsAccessNoise parse row

def noiseRows (rows : List AuditLog) : List AuditLog := rows.filter (auditRowIsAccessNoise parse)

/-- The state once the rows of `batch`, which stand between `pre` and `post`, have been compacted.
-/
def CompactState.over (s : CompactState) (pre batch post : List AuditLog) : CompactState where
  rows := pre ++ rehash mac s.prevHash (keptRows parse batch) ++ post
  prevHash := endHash s.prevHash (rehash mac s.prevHash (keptRows parse batch))
  scanned := s.scanned + batch.length
  removed := s.removed + (noiseRows parse batch).length
  kept := s.kept + (keptRows parse batch).length

variable {s : CompactState}

theorem over_nil (hs : s.rows = pre ++ [] ++ post) :
    s.over mac parse pre [] post = s := by
  rw [CompactState.over, keptRows, List.filter_nil, rehash, ← hs]
  rfl

theorem over_over (s : CompactState) (pre batch next mid post : List AuditLog) :
    (s.over mac parse pre batch mid).over mac parse (pre ++ rehash mac s.prevHash (keptRows parse batch)) next post =
      s.over mac parse pre (batch ++ next) post := by
  have hkept : keptRows parse (batch ++ next) = keptRows parse batch ++ keptRows parse next := List.filter_append ..
  have hnoise : noiseRows parse (batch ++ next) = noiseRows parse batch ++ noiseRows parse next := List.filter_append ..
  have hend := HashChain.endOf_append AuditLog.hash s.prevHash (rehash mac s.prevHash (keptRows parse batch))
    (rehash mac (endHash s.prevHash (rehash mac s.prevHash (keptRows parse batch))) (keptRows parse next))
  simp only [CompactState.over, hkept, hnoise, rehash_append, List.length_append, List.append_assoc,
    Nat.add_assoc, hend]

variable {batch : List AuditLog}

theorem sorted_over (s : CompactState)
    (h : Paging.Sorted AuditLog.id (pre ++ batch ++ post)) :
    Paging.Sorted AuditLog.id (s.over mac parse pre batch post).rows := by
  rw [sorted_iff_map] at h ⊢
  refine List.Pairwise.sublist ?_ h
  simp only [CompactState.over, List.map_append, map_id_rehash]
  refine List.Sublist.append_right (List.Sublist.append_left ?_ _) _
  exact List.Sublist.map _ (List.filter_sublist ..)

theorem compactRow_split {row : AuditLog} (hs : s.rows = pre ++ row :: post)
    (h : Paging.Sorted AuditLog.id (pre ++ row :: post)) :
    compactRow mac parse s row = s.over mac parse pre [row] post := by
  obtain ⟨hpre, hpost⟩ := ne_of_sorted_split h
  unfold compactRow CompactState.over keptRows noiseRows
  rw [hs]
  dsimp only
  cases hnoise : auditRowIsAccessNoise parse row with
  | true =>
    have hfilter : ∀ l : List AuditLog, (∀ r ∈ l, r.id ≠ row.id) → l.filter (fun r => r.id ≠ row.id) = l :=
      fun l hl => List.filter_eq_self.mpr fun r hr => decide_eq_true (hl r hr)
    rw [List.filter_append, List.filter_cons_of_neg (by simp), hfilter pre hpre, hfilter post hpost]
    simp [hnoise, rehash]
  | false =>
    have hmap : ∀ l : List AuditLog, (∀ r ∈ l, r.id ≠ row.id) → l.map (fun r => if r.id = row.id then
        { r with prevHash := s.prevHash, hash := computeAuditHash mac s.prevHash row } else r) = l :=
      fun l hl => (List.map_congr_left fun r hr => if_neg (hl r hr)).trans (List.map_id _)
    -- a row that is not updated already has both hashes
    have hsame : ¬(row.prevHash ≠ s.prevHash ∨ row.hash ≠ computeAuditHash mac s.prevHash row) →
        { row with prevHash := s.prevHash, hash := computeAuditHash mac s.prevHash row } = row := by
      intro hno
      rw [not_or, not_not, not_not] at hno
      rw [← hno.2, ← hno.1]
    have hrows : (if row.prevHash ≠ s.prevHash ∨ row.hash ≠ computeAuditHash mac s.prevHash row then
        (pre ++ row :: post).map fun r => if r.id = row.id then
          { r with prevHash := s.prevHash, hash := computeAuditHash mac s.prevHash row } else r
        else pre ++ row :: post) =
        pre ++ [{ row with prevHash := s.prevHash, hash := computeAuditHash mac s.prevHash row }] ++ post := by
      split_ifs with hupdate
      · rw [List.map_append, List.map_cons, hmap pre hpre, hmap post hpost, if_pos rfl, List.append_assoc]
        rfl
      · rw [hsame hupdate, List.append_assoc]
        rfl
    rw [hrows]
    simp [hnoise, rehash]

theorem compactRows_split (hs : s.rows = pre ++ batch ++ post)
    (h : Paging.Sorted AuditLog.id (pre ++ batch ++ post)) :
    batch.foldl (compactRow mac parse) s = s.over mac parse pre batch post := by
  induction batch generalizing s pre with
  | nil => exact (over_nil mac parse hs).symm
  | cons row batch ih =>
    have hassoc : pre ++ row :: batch ++ post = pre ++ row :: (batch ++ post) := by rw [List.append_assoc]; rfl
    rw [hassoc] at h hs
    rw [List.foldl_cons, compactRow_split mac parse hs h]
    have hsorted : Paging.Sorted AuditLog.id (s.over mac parse pre [row] (batch ++ post)).rows :=
      sorted_over mac parse s (by rwa [List.append_assoc])
    rw [CompactState.over, ← List.append_assoc] at hsorted
    rw [ih (List.append_assoc ..).symm hsorted]
    exact over_over mac parse s pre [row] batch (batch ++ post) post

theorem le_lastKey_rehash (prevHash : GoString) {lastID : ℕ} {rest : List AuditLog}
    (h : Paging.Sorted AuditLog.id (batch ++ rest)) (hne : batch ≠ [])
    (hpre : ∀ r ∈ pre, r.id ≤ lastID) (hbatch : ∀ r ∈ batch, lastID < r.id) :
    ∀ r ∈ pre ++ rehash mac prevHash (keptRows parse batch), r.id ≤
      Paging.lastKey AuditLog.id lastID batch := by
  obtain ⟨hle, -⟩ := h.le_lastKey AuditLog.id (k := lastID) hne
  intro r hr
  rcases List.mem_append.mp hr with hr | hr
  · obtain ⟨b, hb⟩ := List.exists_mem_of_ne_nil _ hne
    have h1 := hpre r hr
    have h2 := hbatch b hb
    have h3 := hle b hb
    omega
  · obtain ⟨c, hc, hid⟩ := mem_rehash mac hr
    rw [hid]
    exact hle c (List.mem_of_mem_filter hc)

theorem compactLoop_split {lastID : ℕ} {todo : List AuditLog} (hs : s.rows = pre ++ todo)
    (h : Paging.Sorted AuditLog.id (pre ++ todo)) (hpre : ∀ r ∈ pre, r.id ≤ lastID)
    (htodo : ∀ r ∈ todo, lastID < r.id) :
    compactLoop mac parse s lastID = s.over mac parse pre todo [] := by
  induction hn : todo.length using Nat.strong_induction_on generalizing s lastID pre todo with
  | _ n ih =>
    subst hn
    have hafter : Paging.after AuditLog.id lastID s.rows = todo := by
      rw [hs, Paging.after_append, Paging.after_eq_nil _ hpre, Paging.after_eq_self _ htodo, List.nil_append]
    obtain ⟨rest, hcut, hlast⟩ := Paging.exists_page_append AuditLog.id compactBatchSize lastID s.rows
    rw [compactLoop]
    rw [hafter] at hcut
    generalize Paging.page AuditLog.id compactBatchSize lastID s.rows = batch at hcut hlast
    subst hcut
    rw [← List.append_assoc] at h hs
    rw [compactRows_split mac parse hs h]
    by_cases hnil : batch = []
    · have hrest : rest = [] := hlast (by rw [hnil]; decide)
      rw [dif_pos hnil, hrest, hnil]
      rw [hrest, hnil] at hs
      exact (over_nil mac parse hs).symm
    · rw [dif_neg hnil]
      by_cases hlt : batch.length < compactBatchSize
      · rw [if_pos hlt, hlast hlt, List.append_nil]
      · rw [if_neg hlt, ← over_over mac parse s pre batch rest rest []]
        have hbatch : Paging.Sorted AuditLog.id (batch ++ rest) := by
          rw [List.append_assoc] at h
          exact (List.pairwise_append.mp h).2.1
        have hread := le_lastKey_rehash mac parse s.prevHash hbatch hnil hpre
          fun r hr => htodo r (List.mem_append_left _ hr)
        have hpos : 0 < batch.length := List.length_pos_iff.mpr hnil
        refine ih rest.length ?_ rfl (sorted_over mac parse s h) hread (hbatch.le_lastKey AuditLog.id hnil).2 rfl
        rw [List.length_append]
        omega

theorem compactLoop_database (db : Database) :
    compactLoop mac parse (compactStart db.rows) 0 = (compactStart db.rows).over mac parse [] db.rows [] :=
  compactLoop_split mac parse rfl db.sorted (List.forall_mem_nil _) (fun r hr => (db.fresh r hr).1)

theorem compactLoop_rows (db : Database) :
    (compactLoop mac parse (compactStart db.rows) 0).rows = rehash mac [] (keptRows parse db.rows) := by
  rw [compactLoop_database]
  exact List.append_nil _

def compact (db : Database) : Database where
  rows := (compactLoop mac parse (compactStart db.rows) 0).rows
  checkpoint := none
  nextID := db.nextID
  sorted := by
    rw [compactLoop_database]
    exact sorted_over mac parse _ (by rw [List.append_nil]; exact db.sorted)
  fresh := by
    intro r hr
    rw [compactLoop_rows] at hr
    obtain ⟨row, hrow, hid⟩ := mem_rehash mac hr
    rw [hid]
    exact db.fresh row (List.mem_of_mem_filter hrow)
  nextID_pos := db.nextID_pos

theorem compact_rows (db : Database) : (compact mac parse db).rows = rehash mac [] (keptRows parse db.rows) :=
  compactLoop_rows mac parse db

theorem consistent_compact (db : Database) : Consistent mac (compact mac parse db) 0 where
  chain := by
    rw [compact_rows]
    exact chain_rehash mac [] _
  beyond := fun r hr => ((compact mac parse db).fresh r hr).1
  nonempty := fun _ => rfl
  signed := nofun
  counted := rfl

/-! ## Verifying -/

def VerifyState.advance (v : VerifyState) (batch : List AuditLog) : VerifyState :=
  { v with
    prevHash := endHash v.prevHash batch
    lastID := Paging.lastKey AuditLog.id v.lastID batch
    verified := v.verified + batch.length }

theorem advance_advance (v : VerifyState) (batch : List AuditLog) {rest : List AuditLog} :
    (v.advance batch).advance rest = v.advance (batch ++ rest) := by
  have hend := HashChain.endOf_append AuditLog.hash v.prevHash batch rest
  have hkey : Paging.lastKey AuditLog.id (Paging.lastKey AuditLog.id v.lastID batch) rest =
      Paging.lastKey AuditLog.id v.lastID (batch ++ rest) := (Paging.lastKey_append ..).symm
  simp only [VerifyState.advance, endHash, hend, hkey, List.length_append, Nat.add_assoc]

theorem verifyBatch_ok_iff {v : VerifyState} {r : VerifyState × Bool} :
    verifyBatch mac v batch = .ok r ↔
      AuditChain mac v.prevHash batch ∧ r = (v.advance batch, decide (batch.length < verifyBatchSize)) := by
  unfold verifyBatch
  by_cases hnil : batch = []
  · subst hnil
    rw [if_pos rfl, Except.ok.injEq]
    exact ⟨fun h => ⟨trivial, h.symm⟩, fun h => h.2.symm⟩
  · rw [if_neg hnil]
    cases hseg : verifyAuditChainSegment mac v.prevHash batch with
    | error e =>
      refine ⟨fun h => (by cases h), fun h => ?_⟩
      rw [(verifyAuditChainSegment_ok_iff mac _ _ _).mpr ⟨h.1, rfl⟩] at hseg
      cases hseg
    | ok next =>
      obtain ⟨hchain, hnext⟩ := (verifyAuditChainSegment_ok_iff mac _ _ _).mp hseg
      rw [Except.ok.injEq, hnext]
      exact ⟨fun h => ⟨hchain, h.symm⟩, fun h => h.2.symm⟩

theorem verifyLoop_eq (rows : List AuditLog) (v : VerifyState) :
    verifyLoop mac rows v =
      match verifyBatch mac v (Paging.page AuditLog.id verifyBatchSize v.lastID rows) with
      | .error e => .error e
      | .ok (v', true) => .ok v'
      | .ok (v', false) => verifyLoop mac rows v' := by
  rw [verifyLoop]
  split <;> rename_i heq <;> rw [heq]

theorem verifyLoop_ok_iff (hs : Paging.Sorted AuditLog.id rows) (v v' : VerifyState) :
    verifyLoop mac rows v = .ok v' ↔
      AuditChain mac v.prevHash (Paging.after AuditLog.id v.lastID rows) ∧
        v' = v.advance (Paging.after AuditLog.id v.lastID rows) := by
  induction hn : (Paging.after AuditLog.id v.lastID rows).length using Nat.strong_induction_on generalizing v with
  | _ n ih =>
    subst hn
    obtain ⟨rest, hrest, hlast⟩ := Paging.exists_page_append AuditLog.id verifyBatchSize v.lastID rows
    rw [verifyLoop_eq]
    cases hbatch : verifyBatch mac v (Paging.page AuditLog.id verifyBatchSize v.lastID rows) with
    | error e =>
      refine ⟨fun h => (by cases h), fun h => ?_⟩
      rw [hrest] at h
      have hpage := ((HashChain.chain_append _ _ _ _ _).mp h.1).1
      rw [(verifyBatch_ok_iff mac).mpr ⟨hpage, rfl⟩] at hbatch
      cases hbatch
    | ok r =>
      obtain ⟨hpage, rfl⟩ := (verifyBatch_ok_iff mac).mp hbatch
      by_cases hshort : (Paging.page AuditLog.id verifyBatchSize v.lastID rows).length < verifyBatchSize
      · rw [decide_eq_true hshort, Except.ok.injEq, hrest, hlast hshort, List.append_nil]
        exact ⟨fun h => ⟨hpage, h.symm⟩, fun h => h.2.symm⟩
      · have hne : Paging.page AuditLog.id verifyBatchSize v.lastID rows ≠ [] := by
          intro hnil
          rw [hnil] at hshort
          exact hshort (by decide)
        have hnext := ih _ (Paging.length_after_lastKey_lt AuditLog.id hne) (v.advance _) rfl
        rw [decide_eq_false hshort]
        rw [Paging.after_eq_page_append AuditLog.id hs hne, ← advance_advance]
        refine hnext.trans (and_congr_left fun _ => ?_)
        exact ⟨fun h => (HashChain.chain_append _ _ _ _ _).mpr ⟨hpage, h⟩,
          fun h => ((HashChain.chain_append _ _ _ _ _).mp h).2⟩

theorem verifyChain_unpruned_iff (h : db.checkpoint = none) :
    (∃ v, verifyChain mac db = .ok v) ↔ AuditChain mac [] db.rows := by
  have hafter : Paging.after AuditLog.id 0 db.rows = db.rows := Paging.after_eq_self _ fun r hr => (db.fresh r hr).1
  have hloop := verifyLoop_ok_iff mac db.sorted (verifyStart none)
  dsimp only [verifyStart] at hloop
  rw [hafter] at hloop
  rw [verifyChain, loadCheckpoint, h]
  dsimp only [verifyStart]
  constructor
  · rintro ⟨v, hv⟩
    split at hv
    · cases hv
    · exact ((hloop _).mp (by assumption)).1
  · intro hchain
    rw [(hloop _).mpr ⟨hchain, rfl⟩]
    exact ⟨_, rfl⟩

theorem verifyStart_anchor (db : Database) :
    (verifyStart db.checkpoint).prevHash = anchorHash db ∧ (verifyStart db.checkpoint).lastID = anchorID db ∧
      (verifyStart db.checkpoint).verified = 0 ∧
      (verifyStart db.checkpoint).pruned = (db.checkpoint.map AuditCheckpoint.pruned).getD 0 := by
  unfold anchorHash anchorID
  cases db.checkpoint with
  | none => exact ⟨rfl, rfl, rfl, rfl⟩
  | some checkpoint => exact ⟨rfl, rfl, rfl, rfl⟩

theorem verifyChain_of_consistent (h : Consistent mac db pruned) :
    ∃ v, verifyChain mac db = .ok v ∧ v.verified = db.rows.length ∧ v.pruned = pruned := by
  obtain ⟨h1, h2, h3, h4⟩ := verifyStart_anchor db
  have hafter : Paging.after AuditLog.id (verifyStart db.checkpoint).lastID db.rows = db.rows := by
    rw [h2]
    exact Paging.after_eq_self _ h.beyond
  have hchain : AuditChain mac (verifyStart db.checkpoint).prevHash
      (Paging.after AuditLog.id (verifyStart db.checkpoint).lastID db.rows) := by
    rw [hafter, h1]
    exact h.chain
  refine ⟨(verifyStart db.checkpoint).advance db.rows, ?_, ?_, h4.trans h.counted⟩
  · rw [verifyChain, loadCheckpoint_ok mac h]
    dsimp only
    rw [(verifyLoop_ok_iff mac db.sorted _ _).mpr ⟨hchain, rfl⟩, hafter]
  · rw [VerifyState.advance, h3, Nat.zero_add]

/-! ## What compacting keeps -/

def AuditLog.withoutHashes (row : AuditLog) : AuditLog := { row with prevHash := [], hash := [] }

theorem map_withoutHashes_rehash (prevHash : GoString) (rows : List AuditLog) :
    (rehash mac prevHash rows).map AuditLog.withoutHashes = rows.map AuditLog.withoutHashes := by
  induction rows generalizing prevHash with
  | nil => rfl
  | cons row rows ih =>
    rw [rehash, List.map_cons, ih]
    rfl

theorem rehash_rehash (prevHash : GoString) (rows : List AuditLog) :
    rehash mac prevHash (rehash mac prevHash rows) = rehash mac prevHash rows := by
  induction rows generalizing prevHash with
  | nil => rfl
  | cons row rows ih =>
    have hhash : ∀ h, computeAuditHash mac prevHash { row with prevHash := prevHash, hash := h } =
        computeAuditHash mac prevHash row := fun _ => rfl
    rw [rehash, rehash, hhash, ih]

theorem keptRows_rehash (prevHash : GoString) (rows : List AuditLog) :
    keptRows parse (rehash mac prevHash (keptRows parse rows)) = rehash mac prevHash (keptRows parse rows) := by
  refine List.filter_eq_self.mpr fun r hr => ?_
  have hmem := List.mem_map_of_mem (f := AuditLog.withoutHashes) hr
  rw [map_withoutHashes_rehash] at hmem
  obtain ⟨row, hrow, hsame⟩ := List.mem_map.mp hmem
  -- the classification reads neither hash
  have hnoise : auditRowIsAccessNoise parse row.withoutHashes =
    auditRowIsAccessNoise parse r.withoutHashes := by rw [hsame]
  have hkept : (!auditRowIsAccessNoise parse row) = true := (List.mem_filter.mp hrow).2
  rwa [show auditRowIsAccessNoise parse row = auditRowIsAccessNoise parse r from hnoise] at hkept

theorem compact_compact (db : Database) : compact mac parse (compact mac parse db) = compact mac parse db := by
  have hrows : (compact mac parse (compact mac parse db)).rows = (compact mac parse db).rows := by
    rw [compact_rows, compact_rows, keptRows_rehash, rehash_rehash]
  generalize hsecond : compact mac parse (compact mac parse db) = second at hrows
  have hcheckpoint : second.checkpoint = none := by rw [← hsecond]; rfl
  have hnext : second.nextID = db.nextID := by rw [← hsecond]; rfl
  cases second
  subst hrows hcheckpoint hnext
  rfl

theorem removed_compactLoop (db : Database) :
    (compactLoop mac parse (compactStart (compact mac parse db).rows) 0).removed = 0 := by
  rw [compactLoop_database, CompactState.over, compact_rows]
  have hnone : noiseRows parse (rehash mac [] (keptRows parse db.rows)) = [] := by
    refine List.filter_eq_nil_iff.mpr fun r hr hnoise => ?_
    rw [← keptRows_rehash] at hr
    have hkept := (List.mem_filter.mp hr).2
    rw [hnoise] at hkept
    cases hkept
  rw [hnone]
  rfl

/-! ## Whole runs -/

inductive Operation
  | create (item : AuditLog)
  | createBatch (items : List AuditLog)
  | pruneBefore (before : Instant) (clock : ℕ → Instant) (cancelled : ℕ → Bool)
  | compact

def Operation.apply (db : Database) : Operation → Database
  | .create item => Audit.create mac id db item
  | .createBatch items => Audit.createBatch mac id db items
  | .pruneBefore before clock cancelled => (Audit.pruneBefore mac before clock cancelled 0 db 0 0).db
  | .compact => Audit.compact mac parse db

/-- The rows that pruning has removed since the table was last compacted, counted on the table
itself. -/
def Operation.countPruned (db : Database) (pruned : ℕ) : Operation → ℕ
  | .pruneBefore before clock cancelled =>
    pruned + (db.rows.length - (Operation.apply mac parse db (.pruneBefore before clock cancelled)).rows.length)
  | .compact => 0
  | _ => pruned

def run (ops : List Operation) : Database × ℕ :=
  ops.foldl (fun s op => (op.apply mac parse s.1, op.countPruned mac parse s.1 s.2)) (Database.empty, 0)

theorem consistent_apply (h : Consistent mac db pruned) (op : Operation) :
    Consistent mac (op.apply mac parse db) (op.countPruned mac parse db pruned) := by
  cases op with
  | create item => exact consistent_insert mac h [item] (List.cons_ne_nil _ _)
  | createBatch items =>
    change Consistent mac (Audit.createBatch mac id db items) pruned
    unfold Audit.createBatch
    split_ifs with hnil
    · exact h
    · exact consistent_insert mac h items hnil
  | pruneBefore before clock cancelled => exact (consistent_pruneBefore mac before clock cancelled 0 db 0 0 pruned h).1
  | compact => exact consistent_compact mac parse db

theorem consistent_run (ops : List Operation) : Consistent mac (run mac parse ops).1 (run mac parse ops).2 := by
  induction ops using List.reverseRecOn with
  | nil => exact consistent_empty mac
  | append_singleton ops op ih =>
    rw [run, List.foldl_append]
    exact consistent_apply mac parse ih op

end Mac

/-- Compacting any table keeps exactly the rows that are not noise, in their order and with every
column but the two hashes; the chain of the result verifies, and compacting once more removes no row
and changes nothing. -/
theorem compact_keeps_record (mac : GoString → GoString)
    (parse : GoString → Option (GoString × GoString)) (db : Database) :
    (compact mac parse db).rows.map AuditLog.withoutHashes =
        (db.rows.filter fun row => !auditRowIsAccessNoise parse row).map AuditLog.withoutHashes ∧
      (∃ v, verifyChain mac (compact mac parse db) = .ok v ∧
        v.verified = (compact mac parse db).rows.length) ∧
      compact mac parse (compact mac parse db) = compact mac parse db ∧
      (compactLoop mac parse (compactStart (compact mac parse db).rows) 0).removed = 0 := by
  refine ⟨?_, ?_, compact_compact mac parse db, removed_compactLoop mac parse db⟩
  · rw [compact_rows, map_withoutHashes_rehash]
    rfl
  · obtain ⟨v, hv, hcount, -⟩ := verifyChain_of_consistent mac (consistent_compact mac parse db)
    exact ⟨v, hv, hcount⟩

/-- After every run the chain verifies, all remaining rows are counted, and so are the rows that
were pruned since the last compaction. -/
theorem verifyChain_run (mac : GoString → GoString)
    (parse : GoString → Option (GoString × GoString)) (ops : List Operation) :
    ∃ v, verifyChain mac (run mac parse ops).1 = .ok v ∧
      v.verified = (run mac parse ops).1.rows.length ∧
      v.pruned = (run mac parse ops).2 :=
  verifyChain_of_consistent mac (consistent_run mac parse ops)

end Portlyn.Audit
