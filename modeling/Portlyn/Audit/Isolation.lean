import Portlyn.Audit.Runs

/-! # Concurrent writers of the audit log

`Create` and `CreateBatch` run a transaction of three statements: read the latest hash, insert the
rows, commit. Under READ COMMITTED a statement sees what is committed when it starts. An id is taken
when the row is inserted. The statements of the transactions interleave in any order.

A transaction that reads while another is open reads the hash that the other one follows too, so the
log forks (`noFork_iff`). -/
namespace Portlyn.Audit
open Go Lib
set_option autoImplicit false

/-! ## Statements and schedules -/

inductive Phase
  | idle
  | read (prevHash : GoString) (items : List AuditLog)
  | inserted
  | committed
deriving DecidableEq

/-- `table` has the rows of open transactions too; `owner` gives the transaction that wrote a row.
-/
structure System where
  table : Database
  owner : ℕ → ℕ
  phase : ℕ → Phase

def System.empty : System := ⟨Database.empty, fun _ => 0, fun _ => .idle⟩

def System.visible (s : System) : Database where
  rows := s.table.rows.filter fun r => s.phase (s.owner r.id) = .committed
  checkpoint := s.table.checkpoint
  nextID := s.table.nextID
  sorted := List.Pairwise.filter _ s.table.sorted
  fresh := fun r hr => s.table.fresh r (List.mem_of_mem_filter hr)
  nextID_pos := s.table.nextID_pos

/-- The statements of transaction `t`. `Create` is `CreateBatch` of one item. -/
inductive Statement
  | selectLatest (t : ℕ) (items : List AuditLog)
  | insert (t : ℕ)
  | commit (t : ℕ)

section Mac
variable (mac : GoString → GoString)

def System.exec (s : System) : Statement → Option System
  | .selectLatest t items =>
    if s.phase t = .idle ∧ items ≠ [] then
      some { s with phase := Function.update s.phase t (.read (latestAuditHash s.visible) items) }
    else none
  | .insert t =>
    match s.phase t with
    | .read prevHash items =>
      some {
        table := s.table.insert id (chainItems mac prevHash items)
        owner := fun i => if s.table.nextID ≤ i then t else s.owner i
        phase := Function.update s.phase t .inserted }
    | _ => none
  | .commit t =>
    match s.phase t with
    | .inserted => some { s with phase := Function.update s.phase t .committed }
    | _ => none

def execAll (steps : List Statement) : Option System := steps.foldlM (System.exec mac) System.empty

def Phase.IsOpen : Phase → Prop
  | .read _ _ => True
  | .inserted => True
  | _ => False

def System.Quiet (s : System) : Prop := ∀ t, ¬ (s.phase t).IsOpen

def Serial (steps : List Statement) : Prop :=
  ∀ pre t items post, steps = pre ++ .selectLatest t items :: post → ∀ s, execAll mac pre = some s → s.Quiet

variable {s s' : System} {st : Statement}

theorem exec_cases (h : s.exec mac st = some s') :
    (∃ t items, st = .selectLatest t items ∧ s.phase t = .idle ∧ items ≠ [] ∧
      s' = { s with phase := Function.update s.phase t (.read (latestAuditHash s.visible) items) }) ∨
    (∃ t prevHash items, st = .insert t ∧ s.phase t = .read prevHash items ∧
      s' = {
        table := s.table.insert id (chainItems mac prevHash items)
        owner := fun i => if s.table.nextID ≤ i then t else s.owner i
        phase := Function.update s.phase t .inserted }) ∨
    ∃ t, st = .commit t ∧ s.phase t = .inserted ∧ s' = { s with phase := Function.update s.phase t .committed } := by
  cases st with
  | selectLatest t items =>
    rw [System.exec] at h
    split_ifs at h with hif
    cases h
    exact Or.inl ⟨t, items, rfl, hif.1, hif.2, rfl⟩
  | insert t =>
    rw [System.exec] at h
    split at h
    · rename_i prevHash items hphase
      cases h
      exact Or.inr (Or.inl ⟨t, prevHash, items, rfl, hphase, rfl⟩)
    · cases h
  | commit t =>
    rw [System.exec] at h
    split at h
    · rename_i hphase
      cases h
      exact Or.inr (Or.inr ⟨t, rfl, hphase, rfl⟩)
    · cases h

variable {steps : List Statement}

theorem execAll_concat (h : execAll mac (steps ++ [st]) = some s') :
    ∃ s, execAll mac steps = some s ∧ s.exec mac st = some s' := by
  rw [execAll, List.foldlM_append] at h
  obtain ⟨s, hs, hst⟩ := Option.bind_eq_some_iff.mp h
  obtain ⟨s'', hst, hnil⟩ := Option.bind_eq_some_iff.mp hst
  cases hnil
  exact ⟨s, hs, hst⟩

theorem serial_concat :
    Serial mac (steps ++ [st]) ↔
      Serial mac steps ∧ ∀ t items, st = .selectLatest t items → ∀ s, execAll mac steps = some s → s.Quiet := by
  constructor
  · intro h
    refine ⟨fun pre t items post heq => h pre t items (post ++ [st]) ?_, fun t items hst => h steps t items [] ?_⟩
    · rw [heq, List.append_assoc, List.cons_append]
    · rw [hst]
  · rintro ⟨h, hlast⟩ pre t items post heq
    rcases List.eq_nil_or_concat' post with rfl | ⟨init, last, rfl⟩
    · obtain ⟨rfl, hst⟩ := List.append_inj' heq rfl
      exact hlast t items (List.cons.inj hst).1
    · rw [← List.cons_append, ← List.append_assoc] at heq
      obtain ⟨hsteps, -⟩ := List.append_inj' heq rfl
      exact h pre t items init hsteps

/-! ## Without overlap -/

structure Ordered (s : System) : Prop where
  unpruned : s.table.checkpoint = none
  chain : AuditChain mac [] s.table.rows
  alone : ∀ t u, (s.phase t).IsOpen → (s.phase u).IsOpen → t = u
  read : ∀ t prevHash items, s.phase t = .read prevHash items → items ≠ [] ∧ prevHash = endHash [] s.table.rows
  owned : ∀ r ∈ s.table.rows, s.phase (s.owner r.id) = .inserted ∨ s.phase (s.owner r.id) = .committed
  pending : ∀ t, s.phase t = .inserted → ∃ old new, s.table.rows = old ++ new ∧ new ≠ [] ∧
    (∀ r ∈ old, s.phase (s.owner r.id) = .committed) ∧ ∀ r ∈ new, s.owner r.id = t

theorem ordered_empty : Ordered mac System.empty where
  unpruned := rfl
  chain := trivial
  alone := fun _ _ h => h.elim
  read := fun _ _ _ h => by cases h
  owned := List.forall_mem_nil _
  pending := nofun

theorem visible_rows (h : ∀ r ∈ s.table.rows, s.phase (s.owner r.id) = .committed) :
    s.visible.rows = s.table.rows :=
  List.filter_eq_self.mpr fun r hr => decide_eq_true (h r hr)

theorem latest_visible (h : ∀ r ∈ s.table.rows, s.phase (s.owner r.id) = .committed) :
    latestAuditHash s.visible = endHash [] s.table.rows := by
  rw [latestAuditHash_eq_endHash, visible_rows h]

variable {mac}

theorem Ordered.committed (h : Ordered mac s) (hno : ∀ t, s.phase t ≠ .inserted) :
    ∀ r ∈ s.table.rows, s.phase (s.owner r.id) = .committed :=
  fun r hr => (h.owned r hr).resolve_left (hno _)

variable {t : ℕ}

theorem isOpen_inserted (h : s.phase t = .inserted) : (s.phase t).IsOpen := by
  rw [h]
  trivial

variable {prevHash : GoString} {items : List AuditLog}

theorem isOpen_read (h : s.phase t = .read prevHash items) :
    (s.phase t).IsOpen := by
  rw [h]
  trivial

theorem eq_of_isOpen_update {phase : Phase} (hself : ∀ u, (s.phase u).IsOpen → u = t) {u : ℕ}
    (hu : (Function.update s.phase t phase u).IsOpen) : u = t := by
  by_contra hut
  rw [Function.update_of_ne hut] at hu
  exact hut (hself u hu)

theorem committed_update {u : ℕ} {phase : Phase} (hu : s.phase u = .committed)
    (ht : s.phase t ≠ .committed) : Function.update s.phase t phase u = .committed := by
  rw [Function.update_of_ne, hu]
  rintro rfl
  exact ht hu

theorem ordered_selectLatest (h : Ordered mac s) (hquiet : s.Quiet)
    (hidle : s.phase t = .idle) (hne : items ≠ []) :
    Ordered mac { s with phase := Function.update s.phase t (.read (latestAuditHash s.visible) items) } := by
  have hcommitted := h.committed fun u hu => hquiet u (isOpen_inserted hu)
  have hself : ∀ u, (s.phase u).IsOpen → u = t := fun u hu => (hquiet u hu).elim
  refine ⟨h.unpruned, h.chain, ?_, ?_, ?_, ?_⟩
  · exact fun u v hu hv => (eq_of_isOpen_update hself hu).trans (eq_of_isOpen_update hself hv).symm
  · intro u prevHash items' hu
    obtain rfl : u = t := eq_of_isOpen_update hself (isOpen_read hu)
    dsimp only at hu
    rw [Function.update_self] at hu
    obtain ⟨rfl, rfl⟩ := hu
    exact ⟨hne, latest_visible hcommitted⟩
  · intro r hr
    refine Or.inr (committed_update (hcommitted r hr) ?_)
    rw [hidle]
    exact Phase.noConfusion
  · intro u hu
    obtain rfl : u = t := eq_of_isOpen_update hself (isOpen_inserted hu)
    dsimp only at hu
    rw [Function.update_self] at hu
    cases hu

theorem owner_insert {r : AuditLog} (hr : r ∈ s.table.rows) :
    (if s.table.nextID ≤ r.id then t else s.owner r.id) = s.owner r.id :=
  if_neg (Nat.not_le.mpr (s.table.fresh r hr).2)

theorem owner_new {r : AuditLog} (hr : r ∈ assignIDs s.table.nextID items) :
    (if s.table.nextID ≤ r.id then t else s.owner r.id) = t := if_pos (mem_assignIDs hr).1

theorem ordered_insert (h : Ordered mac s)
    (hread : s.phase t = .read prevHash items) :
    Ordered mac {
      table := s.table.insert id (chainItems mac prevHash items)
      owner := fun i => if s.table.nextID ≤ i then t else s.owner i
      phase := Function.update s.phase t .inserted } := by
  obtain ⟨hne, hprev⟩ := h.read t prevHash items hread
  have hself : ∀ u, (s.phase u).IsOpen → u = t := fun u hu => h.alone u t hu (isOpen_read hread)
  have hold : ∀ r ∈ s.table.rows,
      Function.update s.phase t .inserted (if s.table.nextID ≤ r.id then t else s.owner r.id) = .committed := by
    intro r hr
    rw [owner_insert hr]
    refine committed_update (h.committed (fun u hu => ?_) r hr) ?_
    · rw [hself u (isOpen_inserted hu), hread] at hu
      cases hu
    · rw [hread]
      exact Phase.noConfusion
  refine ⟨h.unpruned, ?_, ?_, ?_, ?_, ?_⟩
  · rw [hprev]
    exact (HashChain.chain_append _ _ _ _ _).mpr ⟨h.chain, chain_chainItems mac _ _ items⟩
  · exact fun u v hu hv => (eq_of_isOpen_update hself hu).trans (eq_of_isOpen_update hself hv).symm
  · intro u prevHash' items' hu
    obtain rfl : u = t := eq_of_isOpen_update hself (isOpen_read hu)
    dsimp only at hu
    rw [Function.update_self] at hu
    cases hu
  · intro r hr
    rcases List.mem_append.mp hr with hr | hr
    · exact Or.inr (hold r hr)
    · refine Or.inl ?_
      dsimp only
      rw [owner_new hr, Function.update_self]
  · intro u hu
    obtain rfl : u = t := eq_of_isOpen_update hself (isOpen_inserted hu)
    refine ⟨s.table.rows, _, rfl, ?_, hold, fun r hr => owner_new hr⟩
    intro hnil
    have hlen := congrArg List.length hnil
    rw [length_assignIDs, List.length_map, length_chainItems, List.length_nil, List.length_eq_zero_iff] at hlen
    exact hne hlen

theorem ordered_commit (h : Ordered mac s) (hinserted : s.phase t = .inserted) :
    Ordered mac { s with phase := Function.update s.phase t .committed } := by
  have hself : ∀ u, (s.phase u).IsOpen → u = t := fun u hu => h.alone u t hu (isOpen_inserted hinserted)
  have hclosed : ∀ u, ¬ (Function.update s.phase t .committed u).IsOpen := by
    intro u hu
    obtain rfl := eq_of_isOpen_update hself hu
    rw [Function.update_self] at hu
    exact hu
  refine ⟨h.unpruned, h.chain, fun u _ hu => (hclosed u hu).elim, fun u _ _ hu => ?_, ?_, fun u hu => ?_⟩
  · exact (hclosed u (isOpen_read hu)).elim
  · intro r hr
    refine Or.inr ?_
    dsimp only
    by_cases hut : s.owner r.id = t
    · rw [hut, Function.update_self]
    · rw [Function.update_of_ne hut]
      exact (h.owned r hr).resolve_left fun hr' => hut (hself _ (isOpen_inserted hr'))
  · exact (hclosed u (isOpen_inserted hu)).elim

/-! ## With overlap -/

/-- Transaction `t` follows the hash, or will. -/
def Follows (s : System) (t : ℕ) (prevHash : GoString) : Prop :=
  (∃ items, items ≠ [] ∧ s.phase t = .read prevHash items) ∨
    (s.phase t = .inserted ∨ s.phase t = .committed) ∧ ∃ r ∈ s.table.rows, s.owner r.id = t ∧ r.prevHash = prevHash

def Forked (s : System) : Prop := ∃ t u prevHash, t ≠ u ∧ Follows s t prevHash ∧ Follows s u prevHash

theorem Follows.not_idle (h : Follows s t prevHash) : s.phase t ≠ .idle := by
  intro hidle
  rcases h with ⟨_, _, h⟩ | ⟨h | h, _⟩ <;> rw [hidle] at h <;> cases h

theorem Follows.congr (h : Follows s t prevHash) (hphase : s'.phase t = s.phase t)
    (hrows : ∀ r ∈ s.table.rows, r ∈ s'.table.rows ∧ s'.owner r.id = s.owner r.id) : Follows s' t prevHash := by
  unfold Follows
  rw [hphase]
  refine h.imp_right (And.imp_right ?_)
  rintro ⟨r, hr, howner, hprev⟩
  exact ⟨r, (hrows r hr).1, (hrows r hr).2.trans howner, hprev⟩

theorem follows_exec (h : Follows s t prevHash)
    (hexec : s.exec mac st = some s') : Follows s' t prevHash := by
  rcases exec_cases mac hexec with ⟨u, items, -, hidle, -, rfl⟩ | ⟨u, p, items, -, hread, rfl⟩ | ⟨u, -, hinserted, rfl⟩
  · have hut : t ≠ u := fun heq => h.not_idle (heq ▸ hidle)
    exact h.congr (Function.update_of_ne hut _ _) fun r hr => ⟨hr, rfl⟩
  · by_cases hut : t = u
    · subst hut
      -- the first row of the batch follows the hash that was read
      rcases h with ⟨items', hne, h⟩ | ⟨h | h, -⟩ <;> rw [hread] at h <;> cases h
      obtain ⟨item, more, rfl⟩ := List.exists_cons_of_ne_nil hne
      refine Or.inr ⟨Or.inl (Function.update_self ..), _, List.mem_append_right _ List.mem_cons_self, ?_, rfl⟩
      exact if_pos (Nat.le_refl _)
    · exact h.congr (Function.update_of_ne hut _ _) fun r hr => ⟨List.mem_append_left _ hr, owner_insert hr⟩
  · by_cases hut : t = u
    · subst hut
      rcases h with ⟨_, _, h⟩ | ⟨-, hrow⟩
      · rw [hinserted] at h
        cases h
      · exact Or.inr ⟨Or.inr (Function.update_self ..), hrow⟩
    · exact h.congr (Function.update_of_ne hut _ _) fun r hr => ⟨hr, rfl⟩

theorem forked_exec (h : Forked s) (hexec : s.exec mac st = some s') : Forked s' := by
  obtain ⟨t, u, prevHash, hne, ht, hu⟩ := h
  exact ⟨t, u, prevHash, hne, follows_exec ht hexec, follows_exec hu hexec⟩

theorem follows_of_open (h : Ordered mac s) (hopen : (s.phase t).IsOpen) :
    Follows s t (latestAuditHash s.visible) := by
  cases hphase : s.phase t with
  | read prevHash items =>
    obtain ⟨hne, hprev⟩ := h.read t prevHash items hphase
    have hcommitted := h.committed fun u hu => by
      rw [h.alone u t (isOpen_inserted hu) hopen, hphase] at hu
      cases hu
    rw [latest_visible hcommitted, ← hprev]
    exact Or.inl ⟨items, hne, hphase⟩
  | inserted =>
    obtain ⟨old, new, hrows, hne, hold, hnew⟩ := h.pending t hphase
    obtain ⟨r, more, rfl⟩ := List.exists_cons_of_ne_nil hne
    have hvisible : s.visible.rows = old := by
      have hfilter : (r :: more).filter (fun r => s.phase (s.owner r.id) = .committed) = [] := by
        refine List.filter_eq_nil_iff.mpr fun x hx => ?_
        rw [hnew x hx, hphase]
        decide
      change s.table.rows.filter (fun r => s.phase (s.owner r.id) = .committed) = old
      rw [hrows, List.filter_append, hfilter, List.append_nil]
      exact List.filter_eq_self.mpr fun x hx => decide_eq_true (hold x hx)
    have hchain := h.chain
    rw [hrows] at hchain
    have hlink := ((HashChain.chain_append _ _ _ _ _).mp hchain).2.1.1
    refine Or.inr ⟨Or.inl hphase, r, ?_, hnew r List.mem_cons_self, ?_⟩
    · rw [hrows]
      exact List.mem_append_right _ List.mem_cons_self
    · rw [latestAuditHash_eq_endHash, hvisible]
      exact hlink
  | _ => rw [hphase] at hopen; exact hopen.elim

theorem forked_of_overlap (h : Ordered mac s) (hopen : ¬ s.Quiet)
    (hidle : s.phase t = .idle) (hne : items ≠ []) :
    Forked { s with phase := Function.update s.phase t (.read (latestAuditHash s.visible) items) } := by
  obtain ⟨u, hu⟩ := not_forall_not.mp hopen
  have hut : u ≠ t := by
    rintro rfl
    rw [hidle] at hu
    exact hu
  refine ⟨u, t, latestAuditHash s.visible, hut, ?_, Or.inl ⟨items, hne, Function.update_self ..⟩⟩
  exact (follows_of_open h hu).congr (Function.update_of_ne hut _ _) fun r hr => ⟨hr, rfl⟩

/-! ## Every schedule -/

theorem serial_or_forked (h : execAll mac steps = some s) :
    (Serial mac steps ∧ Ordered mac s) ∨ (¬ Serial mac steps ∧ Forked s) := by
  induction steps using List.reverseRecOn generalizing s with
  | nil =>
    cases h
    refine Or.inl ⟨fun pre t items post heq => ?_, ordered_empty mac⟩
    exact absurd heq.symm (by simp)
  | append_singleton steps st ih =>
    obtain ⟨s0, hs0, hexec⟩ := execAll_concat mac h
    rw [serial_concat]
    rcases ih hs0 with ⟨hserial, hord⟩ | ⟨hnot, hforked⟩
    · rcases exec_cases mac hexec with ⟨t, items, rfl, hidle, hne, rfl⟩ | ⟨t, p, items, rfl, hread, rfl⟩ |
        ⟨t, rfl, hinserted, rfl⟩
      · by_cases hquiet : s0.Quiet
        · refine Or.inl ⟨⟨hserial, fun _ _ _ s' hs' => ?_⟩, ordered_selectLatest hord hquiet hidle hne⟩
          rw [hs0, Option.some.injEq] at hs'
          exact hs' ▸ hquiet
        · refine Or.inr ⟨fun hall => hquiet (hall.2 t items rfl s0 hs0), forked_of_overlap hord hquiet hidle hne⟩
      · exact Or.inl ⟨⟨hserial, fun _ _ heq => by cases heq⟩, ordered_insert hord hread⟩
      · exact Or.inl ⟨⟨hserial, fun _ _ heq => by cases heq⟩, ordered_commit hord hinserted⟩
    · exact Or.inr ⟨fun hall => hnot hall.1, forked_exec hforked hexec⟩

theorem not_nodup_of_forked (h : Forked s) (hquiet : s.Quiet) : ¬ (s.visible.rows.map AuditLog.prevHash).Nodup := by
  obtain ⟨t, u, prevHash, hne, ht, hu⟩ := h
  have hrow : ∀ t, Follows s t prevHash → ∃ r ∈ s.visible.rows, s.owner r.id = t ∧ r.prevHash = prevHash := by
    rintro t (⟨items, -, hread⟩ | ⟨hphase, r, hr, howner, hprev⟩)
    · exact (hquiet t (isOpen_read hread)).elim
    · have hcommitted := hphase.resolve_left fun hi => hquiet t (isOpen_inserted hi)
      exact ⟨r, List.mem_filter.mpr ⟨hr, decide_eq_true (by rw [howner]; exact hcommitted)⟩, howner, hprev⟩
  obtain ⟨r, hr, hrt, hrp⟩ := hrow t ht
  obtain ⟨q, hq, hqu, hqp⟩ := hrow u hu
  intro hnodup
  have heq := List.inj_on_of_nodup_map hnodup hr hq (hrp.trans hqp.symm)
  exact hne (hrt.symm.trans ((congrArg (fun x => s.owner x.id) heq).trans hqu))

end Mac

/-- For every schedule after which all transactions have committed: no two rows follow one hash and
the chain verifies, exactly when no transaction read the latest hash while another was open. -/
theorem noFork_iff (mac : GoString → GoString) (hinj : Function.Injective mac) (hlen : ∀ x, mac x ≠ [])
    (steps : List Statement) (s : System) (hrun : execAll mac steps = some s) (hquiet : s.Quiet) :
    ((s.visible.rows.map AuditLog.prevHash).Nodup ∧ ∃ v, verifyChain mac s.visible = .ok v) ↔ Serial mac steps := by
  rcases serial_or_forked hrun with ⟨hserial, hord⟩ | ⟨hnot, hforked⟩
  · refine ⟨fun _ => hserial, fun _ => ?_⟩
    have hrows := visible_rows (hord.committed fun t ht => hquiet t (isOpen_inserted ht))
    rw [verifyChain_unpruned_iff mac (show s.visible.checkpoint = none from hord.unpruned), hrows]
    exact ⟨nodup_prevHash hinj hlen hord.chain, hord.chain⟩
  · exact ⟨fun h => absurd h.1 (not_nodup_of_forked hforked hquiet), fun h => absurd h hnot⟩

/-- Two calls of `Create`, one after the other or with both reads first. -/
def serialCreates : List Statement :=
  [.selectLatest 0 [sampleLog [] []], .insert 0, .commit 0, .selectLatest 1 [sampleLog [] []], .insert 1, .commit 1]

def overlappingCreates : List Statement :=
  [.selectLatest 0 [sampleLog [] []], .selectLatest 1 [sampleLog [] []], .insert 0, .insert 1, .commit 0, .commit 1]

theorem quiet_of_two {s : System} (h0 : s.phase 0 = .committed) (h1 : s.phase 1 = .committed)
    (h : ∀ t, s.phase (t + 2) = .idle) : s.Quiet := by
  rintro (_ | _ | t) ht
  · rw [h0] at ht
    exact ht
  · rw [h1] at ht
    exact ht
  · rw [h t] at ht
    exact ht

theorem noFork_serialCreates :
    ∃ s, execAll sampleMac serialCreates = some s ∧ s.Quiet ∧ Serial sampleMac serialCreates := by
  have hquiet : ∃ s, execAll sampleMac serialCreates = some s ∧ s.Quiet ∧ s.visible.checkpoint = none :=
    ⟨_, rfl, quiet_of_two rfl rfl fun _ => rfl, rfl⟩
  have hnodup : (execAll sampleMac serialCreates).all (fun s =>
    decide (s.visible.rows.map AuditLog.prevHash).Nodup) = true := by
    decide +kernel
  obtain ⟨s, hs, hquiet, hnone⟩ := hquiet
  rw [hs, Option.all_some, decide_eq_true_eq] at hnodup
  refine ⟨s, hs, hquiet,
    (noFork_iff sampleMac sampleMac_injective (fun _ => List.cons_ne_nil _ _) _ s hs hquiet).mp
    ⟨hnodup, ?_⟩⟩
  rcases serial_or_forked hs with ⟨-, hord⟩ | ⟨-, hforked⟩
  · rw [verifyChain_unpruned_iff _ hnone, visible_rows (hord.committed fun t ht => hquiet t (isOpen_inserted ht))]
    exact hord.chain
  · exact absurd hnodup (not_nodup_of_forked hforked hquiet)

theorem overlappingCreates_fork : ∃ s, execAll sampleMac overlappingCreates = some s ∧ s.Quiet ∧
    s.visible.rows.map AuditLog.prevHash = [[], []] ∧ ¬ ∃ v, verifyChain sampleMac s.visible = .ok v := by
  have hquiet : ∃ s, execAll sampleMac overlappingCreates = some s ∧ s.Quiet ∧ s.visible.checkpoint = none :=
    ⟨_, rfl, quiet_of_two rfl rfl fun _ => rfl, rfl⟩
  have hrows : (execAll sampleMac overlappingCreates).all (fun s =>
      decide (s.visible.rows.map AuditLog.prevHash = [[], []] ∧
      ¬ verifyAuditHashChain sampleMac s.visible.rows = .ok ())) = true := by decide +kernel
  obtain ⟨s, hs, hquiet, hnone⟩ := hquiet
  rw [hs, Option.all_some, decide_eq_true_eq, verifyAuditHashChain_ok_iff, ← verifyChain_unpruned_iff _ hnone] at hrows
  exact ⟨s, hs, hquiet, hrows⟩

end Portlyn.Audit
