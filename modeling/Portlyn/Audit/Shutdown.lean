import Portlyn.Audit.Logger

/-! # Shutting the sink down

Producers, the flusher and `Close` run at the same time and meet at the queue, so here each of them
takes one step at a time: a choice of a `select`, or a call of the store. Every item carries the
number of the call that it comes from. Nothing tells a producer that the flusher has stopped
reading, and `persistedOnce_iff` says that this is the only way in which an event is lost. -/
namespace Portlyn.Audit
open Go Lib
set_option autoImplicit false

/-! ## Items of calls -/

structure ExactlyOnce {α : Type} (items : List (ℕ × α)) (expected : ℕ → Option α) : Prop where
  nodup : (items.map Prod.fst).Nodup
  mem_iff : ∀ t a, (t, a) ∈ items ↔ expected t = some a

section Items
variable {α : Type} {items items' : List (ℕ × α)} {expected : ℕ → Option α}

theorem ExactlyOnce.perm (h : ExactlyOnce items expected) (hperm : items'.Perm items) :
    ExactlyOnce items' expected where
  nodup := (hperm.map Prod.fst).nodup_iff.mpr h.nodup
  mem_iff := fun t a => hperm.mem_iff.trans (h.mem_iff t a)

theorem ExactlyOnce.cons (h : ExactlyOnce items expected) {t : ℕ} (hnew : expected t = none) (a : α) :
    ExactlyOnce ((t, a) :: items) (Function.update expected t (some a)) where
  nodup := by
    refine List.nodup_cons.mpr ⟨fun hmem => ?_, h.nodup⟩
    obtain ⟨⟨t', b⟩, hitem, rfl⟩ := List.mem_map.mp hmem
    exact Option.some_ne_none b (((h.mem_iff t' b).mp hitem).symm.trans hnew)
  mem_iff := by
    intro t' b
    rw [List.mem_cons, Prod.mk.injEq, h.mem_iff]
    by_cases ht : t' = t
    · subst ht
      rw [Function.update_self, hnew, Option.some.injEq]
      exact ⟨fun hb => hb.elim (fun hb => hb.2.symm) fun hb => (Option.some_ne_none b hb.symm).elim,
        fun hb => Or.inl ⟨rfl, hb.symm⟩⟩
    · rw [Function.update_of_ne ht]
      exact or_iff_right fun hb => ht hb.1

theorem ExactlyOnce.filter_eq (h : ExactlyOnce items expected) {t : ℕ} {a : α}
    (ha : expected t = some a) : items.filter (fun item => item.1 = t) = [(t, a)] := by
  obtain ⟨before, after, rfl⟩ := List.append_of_mem ((h.mem_iff t a).mpr ha)
  have hnodup := h.nodup
  rw [List.map_append, List.nodup_append] at hnodup
  obtain ⟨-, hafter, hbefore⟩ := hnodup
  have hnone : ∀ l : List (ℕ × α), (∀ item ∈ l, item.1 ≠ t) → l.filter (fun item => item.1 = t) = [] :=
    fun l hl => List.filter_eq_nil_iff.mpr fun item hitem heq => hl item hitem (of_decide_eq_true heq)
  have hself : decide ((t, a).1 = t) = true := decide_eq_true rfl
  rw [List.filter_append, List.filter_cons, if_pos hself, hnone before, hnone after, List.nil_append]
  · intro item hitem heq
    have hmem : item.1 ∈ after.map Prod.fst := List.mem_map_of_mem hitem
    rw [heq] at hmem
    exact (List.nodup_cons.mp hafter).1 hmem
  · intro item hitem
    exact hbefore item.1 (List.mem_map_of_mem hitem) t List.mem_cons_self

end Items

/-! ## Producers, the flusher and `Close` -/

inductive SinkError
  | context
  | store

/-- Where a call of `WriteEvent` is. -/
inductive WritePoint
  | select
  /-- `drop_oldest` has found the queue full. -/
  | takeOldest
  | selectAgain
  /-- `sync_fallback` has found the queue full. -/
  | create
  | returned (err : Option SinkError)

structure WriteCall where
  ev : AuditEvent
  point : WritePoint

/-- Where the flusher is: in its `select`, in a flush after it, in the loop that drains the queue,
in the flush after that, or at its end. -/
inductive Flusher
  | select
  | flush
  | drain
  | lastFlush
  | returned
deriving DecidableEq

def Flusher.reads : Flusher → Bool
  | .select | .flush | .drain => true
  | .lastFlush | .returned => false

/-- `written` lists what the store has taken. -/
structure AsyncSink where
  db : Database
  queue : List (ℕ × AuditEvent)
  buffer : List (ℕ × AuditLog)
  flusher : Flusher
  cancelled : Bool
  closed : Bool
  calls : ℕ → Option WriteCall
  written : List (ℕ × AuditLog)

def AsyncSink.start : AsyncSink where
  db := Database.empty
  queue := []
  buffer := []
  flusher := .select
  cancelled := false
  closed := false
  calls := fun _ => none
  written := []

/-- `ok` says whether the store takes what the step gives to it. -/
inductive SinkEvent
  | writeEvent (t : ℕ) (ev : AuditEvent)
  | send (t : ℕ)
  | queueFull (t : ℕ)
  | takeOldest (t : ℕ)
  | contextDone (t : ℕ)
  | create (t : ℕ) (ok : Bool)
  | receive
  | tick
  | flush (ok : Bool)
  | done
  | drained
  | cancel
  | closeReturns

def SinkEvent.succeeds : SinkEvent → Bool
  | .create _ ok => ok
  | .flush ok => ok
  | _ => true

def AsyncSink.setCall (s : AsyncSink) (t : ℕ) (call : WriteCall) : AsyncSink :=
  { s with calls := Function.update s.calls t (some call) }

def AsyncSink.returns (s : AsyncSink) (t : ℕ) (ev : AuditEvent) (err : Option SinkError) : AsyncSink :=
  s.setCall t ⟨ev, .returned err⟩

section Steps
variable (mac : GoString → GoString) (keep : Instant → Instant) (cfg : SinkConfig)

def AsyncSink.flush (s : AsyncSink) (ok : Bool) : AsyncSink :=
  if s.buffer = [] then s
  else if ok then
    { s with db := createBatch mac keep s.db (s.buffer.map Prod.snd), written := s.written ++ s.buffer, buffer := [] }
  else { s with buffer := [] }

def AsyncSink.step (s : AsyncSink) : SinkEvent → Option AsyncSink
  | .writeEvent t ev =>
    match s.calls t with
    | none => some (s.setCall t ⟨ev, .select⟩)
    | some _ => none
  | .send t =>
    -- a channel that has room, in the first `select` or in the second of `drop_oldest`
    match s.calls t with
    | some ⟨ev, .select⟩ | some ⟨ev, .selectAgain⟩ =>
      if s.queue.length < cfg.bufferSize then some { s.returns t ev none with queue := s.queue ++ [(t, ev)] } else none
    | _ => none
  | .queueFull t =>
    if s.queue.length < cfg.bufferSize then none
    else
      match cfg.policy, s.calls t with
      | .dropNewest, some ⟨ev, .select⟩ => some (s.returns t ev none)
      | .dropOldest, some ⟨ev, .select⟩ => some (s.setCall t ⟨ev, .takeOldest⟩)
      | .dropOldest, some ⟨ev, .selectAgain⟩ => some (s.returns t ev none)
      | .syncFallback, some ⟨ev, .select⟩ => some (s.setCall t ⟨ev, .create⟩)
      | _, _ => none
  | .takeOldest t =>
    match cfg.policy, s.calls t with
    | .dropOldest, some ⟨ev, .takeOldest⟩ => some { s.setCall t ⟨ev, .selectAgain⟩ with queue := s.queue.tail }
    | _, _ => none
  | .contextDone t =>
    match cfg.policy, s.calls t with
    | .block, some ⟨ev, .select⟩ => some (s.returns t ev (some .context))
    | _, _ => none
  | .create t ok =>
    match s.calls t with
    | some ⟨ev, .create⟩ =>
      if ok then
        some { s.returns t ev none with
          db := create mac keep s.db (toAuditLog ev), written := s.written ++ [(t, toAuditLog ev)] }
      else some (s.returns t ev (some .store))
    | _ => none
  | .receive =>
    match s.flusher, s.queue with
    | .select, (t, ev) :: queue =>
      let buffer := s.buffer ++ [(t, toAuditLog ev)]
      some { s with queue := queue, buffer := buffer, flusher :=
        if cfg.batchSize ≤ buffer.length then .flush else .select }
    | .drain, (t, ev) :: queue => some { s with queue := queue, buffer := s.buffer ++ [(t, toAuditLog ev)] }
    | _, _ => none
  | .tick => if s.flusher = .select then some { s with flusher := .flush } else none
  | .flush ok =>
    match s.flusher with
    | .flush => some { s.flush mac keep ok with flusher := .select }
    | .lastFlush => some { s.flush mac keep ok with flusher := .returned }
    | _ => none
  | .done => if s.flusher = .select ∧ s.cancelled then some { s with flusher := .drain } else none
  | .drained => if s.flusher = .drain ∧ s.queue = [] then some { s with flusher := .lastFlush } else none
  | .cancel => some { s with cancelled := true }
  | .closeReturns => if s.cancelled ∧ s.flusher = .returned then some { s with closed := true } else none

def AsyncSink.run (s : AsyncSink) (events : List SinkEvent) : Option AsyncSink :=
  events.foldlM (AsyncSink.step mac keep cfg) s

def SendsInTime : AsyncSink → List SinkEvent → Prop
  | _, [] => True
  | s, e :: events => (∀ t, e = .send t → s.flusher.reads = true) ∧ ∀ s' ∈ s.step mac keep cfg e, SendsInTime s' events

end Steps

/-! ## Where the events are -/

def WriteCall.accepted (call : WriteCall) : Option AuditLog :=
  match call.point with
  | .returned none => some (toAuditLog call.ev)
  | _ => none

def AsyncSink.accepted (s : AsyncSink) (t : ℕ) : Option AuditLog :=
  (s.calls t).bind WriteCall.accepted

def AsyncSink.placed (s : AsyncSink) : List (ℕ × AuditLog) :=
  s.queue.map (fun item => (item.1, toAuditLog item.2)) ++ s.buffer ++ s.written

theorem accepted_setCall (s : AsyncSink) (t : ℕ) (call : WriteCall) :
    (s.setCall t call).accepted = Function.update s.accepted t call.accepted := by
  funext u
  unfold AsyncSink.accepted AsyncSink.setCall
  dsimp only
  by_cases hu : u = t
  · subst hu
    rw [Function.update_self, Function.update_self, Option.bind_some]
  · rw [Function.update_of_ne hu, Function.update_of_ne hu]

variable {s : AsyncSink}

theorem accepted_setCall_none {t : ℕ} {call : WriteCall} (hbefore : s.accepted t = none)
    (hafter : call.accepted = none) : (s.setCall t call).accepted = s.accepted := by
  rw [accepted_setCall, hafter, Function.update_eq_self_iff]
  exact hbefore.symm

/-! ## What a step can do -/

def SinkConfig.DropsNothing (cfg : SinkConfig) : Prop := cfg.policy = .block ∨ cfg.policy = .syncFallback

theorem SinkConfig.DropsNothing.policy_ne {cfg : SinkConfig} (h : cfg.DropsNothing) :
    cfg.policy ≠ .dropNewest ∧ cfg.policy ≠ .dropOldest := by
  have hcases : ∀ policy, cfg.policy = policy → policy = .block ∨ policy = .syncFallback := fun policy heq => heq ▸ h
  refine ⟨fun heq => ?_, fun heq => ?_⟩
  · rcases hcases _ heq with h | h <;> cases h
  · rcases hcases _ heq with h | h <;> cases h

/-- The steps under such a policy: a call begins, ends with an error or turns to the store; a call
puts its event into the queue or into the store; the flusher reads, flushes, finds the queue drained
and ends; `Close` cancels and returns. -/
inductive Next (mac : GoString → GoString) (keep : Instant → Instant) (s : AsyncSink) : SinkEvent → AsyncSink → Prop
  | call {e : SinkEvent} (t : ℕ) (call : WriteCall) (hsend : ∀ u, e ≠ .send u) (hbefore : s.accepted t = none)
      (hafter : call.accepted = none) : Next mac keep s e (s.setCall t call)
  | sent (t : ℕ) (ev : AuditEvent) (hnew : s.accepted t = none) :
      Next mac keep s (.send t) { s.returns t ev none with queue := s.queue ++ [(t, ev)] }
  | created (t : ℕ) (ev : AuditEvent) (hnew : s.accepted t = none) :
      Next mac keep s (.create t true) { s.returns t ev none with
        db := create mac keep s.db (toAuditLog ev), written := s.written ++ [(t, toAuditLog ev)] }
  | received {t : ℕ} {ev : AuditEvent} {queue : List (ℕ × AuditEvent)} (flusher : Flusher)
      (hqueue : s.queue = (t, ev) :: queue)
      (hbefore : s.flusher.reads = true) (hafter : flusher.reads = true) :
      Next mac keep s .receive { s with queue := queue, buffer := s.buffer ++ [(t, toAuditLog ev)], flusher := flusher }
  | turned {e : SinkEvent} (flusher : Flusher) (hsend : ∀ u, e ≠ .send u) (hbefore : s.flusher.reads = true)
      (hafter : flusher.reads = true) : Next mac keep s e { s with flusher := flusher }
  | flushed (ok : Bool) (hflusher : s.flusher = .flush) :
      Next mac keep s (.flush ok) { s.flush mac keep ok with flusher := .select }
  | drained (hflusher : s.flusher = .drain) (hqueue : s.queue = []) :
      Next mac keep s .drained { s with flusher := .lastFlush }
  | lastFlushed (ok : Bool) (hflusher : s.flusher = .lastFlush) :
      Next mac keep s (.flush ok) { s.flush mac keep ok with flusher := .returned }
  | cancelled : Next mac keep s .cancel { s with cancelled := true }
  | closed (hflusher : s.flusher = .returned) : Next mac keep s .closeReturns { s with closed := true }

section Next
variable {mac : GoString → GoString} {keep : Instant → Instant} {cfg : SinkConfig}
  {s s' : AsyncSink}

theorem accepted_eq_none {t : ℕ} {call : WriteCall} (hcall : s.calls t = some call)
    (hnone : call.accepted = none) : s.accepted t = none := by
  rw [AsyncSink.accepted, hcall]
  exact hnone

variable {e : SinkEvent}

theorem step_next (hpolicy : cfg.DropsNothing) (h : s.step mac keep cfg e = some s') : Next mac keep s e s' := by
  cases e with
  | writeEvent t ev =>
    simp only [AsyncSink.step] at h
    split at h
    · rename_i hcall
      cases h
      exact .call t _ nofun (by rw [AsyncSink.accepted, hcall]; rfl) rfl
    · cases h
  | send t =>
    simp only [AsyncSink.step] at h
    split at h
    · rename_i hcall
      split_ifs at h
      cases h
      exact .sent t _ (accepted_eq_none hcall rfl)
    · rename_i hcall
      split_ifs at h
      cases h
      exact .sent t _ (accepted_eq_none hcall rfl)
    · cases h
  | queueFull t =>
    simp only [AsyncSink.step] at h
    split_ifs at h
    split at h
    · rename_i hdrop _
      exact absurd hdrop hpolicy.policy_ne.1
    · rename_i hdrop _
      exact absurd hdrop hpolicy.policy_ne.2
    · rename_i hdrop _
      exact absurd hdrop hpolicy.policy_ne.2
    · rename_i hcall
      cases h
      exact .call t _ nofun (accepted_eq_none hcall rfl) rfl
    · cases h
  | takeOldest t =>
    simp only [AsyncSink.step] at h
    split at h
    · rename_i hdrop _
      exact absurd hdrop hpolicy.policy_ne.2
    · cases h
  | contextDone t =>
    simp only [AsyncSink.step] at h
    split at h
    · rename_i hcall
      cases h
      exact .call t _ nofun (accepted_eq_none hcall rfl) rfl
    · cases h
  | create t ok =>
    simp only [AsyncSink.step] at h
    split at h
    · rename_i hcall
      cases ok with
      | true =>
        cases h
        exact .created t _ (accepted_eq_none hcall rfl)
      | false =>
        cases h
        exact .call t _ nofun (accepted_eq_none hcall rfl) rfl
    · cases h
  | receive =>
    simp only [AsyncSink.step] at h
    split at h
    · rename_i hflusher hqueue
      cases h
      refine .received _ hqueue (by rw [hflusher]; rfl) ?_
      split_ifs <;> rfl
    · rename_i hflusher hqueue
      cases h
      exact .received _ hqueue (by rw [hflusher]; rfl) (by rw [hflusher]; rfl)
    · cases h
  | tick =>
    simp only [AsyncSink.step] at h
    split_ifs at h with hflusher
    cases h
    exact .turned _ nofun (by rw [hflusher]; rfl) rfl
  | flush ok =>
    simp only [AsyncSink.step] at h
    split at h
    · rename_i hflusher
      cases h
      exact .flushed ok hflusher
    · rename_i hflusher
      cases h
      exact .lastFlushed ok hflusher
    · cases h
  | done =>
    simp only [AsyncSink.step] at h
    split_ifs at h with hdone
    cases h
    exact .turned _ nofun (by rw [hdone.1]; rfl) rfl
  | drained =>
    simp only [AsyncSink.step] at h
    split_ifs at h with hdrained
    cases h
    exact .drained hdrained.1 hdrained.2
  | cancel =>
    cases h
    exact .cancelled
  | closeReturns =>
    simp only [AsyncSink.step] at h
    split_ifs at h with hreturned
    cases h
    exact .closed hreturned.2

/-! ## No event is lost or doubled -/

theorem placed_flush (s : AsyncSink) : (s.flush mac keep true).placed.Perm s.placed := by
  unfold AsyncSink.flush
  by_cases hbuffer : s.buffer = []
  · rw [if_pos hbuffer]
  · rw [if_neg hbuffer, if_pos rfl]
    unfold AsyncSink.placed
    rw [List.append_nil, List.append_assoc]
    exact List.Perm.append_left _ List.perm_append_comm

theorem accepted_flush (s : AsyncSink) (ok : Bool) : (s.flush mac keep ok).accepted = s.accepted := by
  unfold AsyncSink.flush
  split_ifs <;> rfl

theorem exactlyOnce_flush (h : ExactlyOnce s.placed s.accepted) :
    ExactlyOnce (s.flush mac keep true).placed (s.flush mac keep true).accepted :=
  (accepted_flush s true).symm ▸ h.perm (placed_flush s)

theorem placed_sent (s : AsyncSink) (t : ℕ) (ev : AuditEvent) :
    ({ s.returns t ev none with queue := s.queue ++ [(t, ev)] } : AsyncSink).placed.Perm
      ((t, toAuditLog ev) :: s.placed) := by
  unfold AsyncSink.placed
  rw [List.map_append]
  simp only [List.append_assoc]
  exact List.perm_middle

theorem placed_received {t : ℕ} {ev : AuditEvent} {queue : List (ℕ × AuditEvent)}
    (hqueue : s.queue = (t, ev) :: queue) (flusher : Flusher) :
    ({ s with queue := queue, buffer := s.buffer ++ [(t, toAuditLog ev)], flusher := flusher } :
      AsyncSink).placed.Perm s.placed := by
  unfold AsyncSink.placed
  rw [hqueue]
  simp only [List.append_assoc, List.cons_append]
  rw [← List.append_assoc, ← List.append_assoc]
  exact List.perm_middle

theorem exactlyOnce_next (h : ExactlyOnce s.placed s.accepted) (hok : e.succeeds = true)
    (hnext : Next mac keep s e s') : ExactlyOnce s'.placed s'.accepted := by
  cases hnext with
  | call t call _ hbefore hafter =>
    rw [accepted_setCall_none hbefore hafter]
    exact h
  | sent t ev hnew =>
    have hitems := (h.cons hnew (toAuditLog ev)).perm (placed_sent s t ev)
    rw [← show _ = Function.update s.accepted t (some (toAuditLog ev)) from
      accepted_setCall s t ⟨ev, .returned none⟩] at hitems
    exact hitems
  | created t ev hnew =>
    have hperm : (s.queue.map (fun item => (item.1, toAuditLog item.2)) ++ s.buffer ++
        (s.written ++ [(t, toAuditLog ev)])).Perm
        ((t, toAuditLog ev) :: s.placed) := by
      rw [← List.append_assoc]
      exact List.perm_append_singleton _ _
    have hitems := (h.cons hnew (toAuditLog ev)).perm hperm
    rw [← show _ = Function.update s.accepted t (some (toAuditLog ev)) from
      accepted_setCall s t ⟨ev, .returned none⟩] at hitems
    exact hitems
  | received flusher hqueue _ _ => exact h.perm (placed_received hqueue flusher)
  | flushed ok _ =>
    obtain rfl : ok = true := hok
    exact exactlyOnce_flush h
  | lastFlushed ok _ =>
    obtain rfl : ok = true := hok
    exact exactlyOnce_flush h
  | _ => exact h

/-! ## What the flusher leaves behind -/

theorem queue_flush (s : AsyncSink) (ok : Bool) : (s.flush mac keep ok).queue = s.queue := by
  unfold AsyncSink.flush
  split_ifs <;> rfl

theorem buffer_flush (s : AsyncSink) (ok : Bool) : (s.flush mac keep ok).buffer = [] := by
  unfold AsyncSink.flush
  split_ifs with hbuffer
  · exact hbuffer
  · rfl
  · rfl

theorem closed_flush (s : AsyncSink) (ok : Bool) : (s.flush mac keep ok).closed = s.closed := by
  unfold AsyncSink.flush
  split_ifs <;> rfl

/-- The flusher ends with an empty buffer, and `Close` waits for its end. -/
structure Ended (s : AsyncSink) : Prop where
  buffer : s.flusher = .returned → s.buffer = []
  closed : s.closed = true → s.flusher = .returned

theorem ended_next (h : Ended s) (hnext : Next mac keep s e s') : Ended s' := by
  -- a step of a flusher that reads leaves one that reads, and `Close` has not returned
  have hreading : ∀ {flusher : Flusher}, s.flusher.reads = true → s.closed = true → flusher = .returned := by
    intro flusher hreads hclosed
    rw [h.closed hclosed] at hreads
    cases hreads
  cases hnext with
  | received flusher _ hbefore hafter =>
    refine ⟨fun heq => ?_, hreading hbefore⟩
    rw [show flusher = .returned from heq] at hafter
    cases hafter
  | turned flusher _ hbefore hafter =>
    refine ⟨fun heq => ?_, hreading hbefore⟩
    rw [show flusher = .returned from heq] at hafter
    cases hafter
  | flushed ok hflusher =>
    refine ⟨nofun, fun hclosed => ?_⟩
    exact hreading (by rw [hflusher]; rfl) ((closed_flush s ok).symm.trans hclosed)
  | drained hflusher _ => exact ⟨nofun, hreading (by rw [hflusher]; rfl)⟩
  | lastFlushed ok _ => exact ⟨fun _ => buffer_flush s ok, fun _ => rfl⟩
  | closed hflusher => exact ⟨h.buffer, fun _ => hflusher⟩
  | _ => exact ⟨h.buffer, h.closed⟩

def Emptied (s : AsyncSink) : Prop := s.flusher.reads = false → s.queue = []

theorem emptied_next (h : Emptied s) (htime : ∀ t, e = .send t → s.flusher.reads = true)
    (hnext : Next mac keep s e s') : Emptied s' := by
  cases hnext with
  | sent t _ _ => exact fun hends => absurd ((htime t rfl).symm.trans hends) Bool.noConfusion
  | received _ _ _ hafter => exact fun hends => absurd (hafter.symm.trans hends) Bool.noConfusion
  | turned _ _ _ hafter => exact fun hends => absurd (hafter.symm.trans hends) Bool.noConfusion
  | flushed _ _ => exact fun hends => absurd hends Bool.noConfusion
  | drained _ hqueue => exact fun _ => hqueue
  | lastFlushed ok hflusher => exact fun _ => (queue_flush s ok).trans (h (by rw [hflusher]; rfl))
  | _ => exact h

def LeftBehind (s : AsyncSink) : Prop := s.flusher.reads = false ∧ s.queue ≠ []

theorem leftBehind_next (h : LeftBehind s) (hnext : Next mac keep s e s') : LeftBehind s' := by
  have hnot : ¬ s.flusher.reads = true := fun hreads => absurd (hreads.symm.trans h.1) Bool.noConfusion
  cases hnext with
  | sent _ _ _ => exact ⟨h.1, List.append_ne_nil_of_right_ne_nil _ (List.cons_ne_nil _ _)⟩
  | received _ _ hbefore _ => exact absurd hbefore hnot
  | turned _ _ hbefore _ => exact absurd hbefore hnot
  | flushed _ hflusher => exact absurd (by rw [hflusher]; rfl) hnot
  | drained hflusher _ => exact absurd (by rw [hflusher]; rfl) hnot
  | lastFlushed ok _ => exact ⟨rfl, (queue_flush s ok).symm ▸ h.2⟩
  | _ => exact h

theorem leftBehind_sent {t : ℕ} (h : s.flusher.reads = false)
    (hnext : Next mac keep s (.send t) s') : LeftBehind s' := by
  cases hnext with
  | call _ _ hsend _ _ => exact absurd rfl (hsend t)
  | sent _ _ _ => exact ⟨h, List.append_ne_nil_of_right_ne_nil _ (List.cons_ne_nil _ _)⟩
  | turned _ hsend _ _ => exact absurd rfl (hsend t)

/-! ## What the store has taken -/

def contents (row : AuditLog) : AuditLog := { row with id := 0, prevHash := [], hash := [] }

def storedAs (keep : Instant → Instant) (item : AuditLog) : AuditLog :=
  contents (keepRow keep (sanitizeAuditLog item))

theorem contents_assignIDs (n : ℕ) (items : List AuditLog) : (assignIDs n items).map contents = items.map contents := by
  induction items generalizing n with
  | nil => rfl
  | cons item items ih => exact congrArg (contents item :: ·) (ih (n + 1))

theorem contents_chainItems (prevHash : GoString) (items : List AuditLog) :
    ((chainItems mac prevHash items).map (keepRow keep)).map contents = items.map (storedAs keep) := by
  induction items generalizing prevHash with
  | nil => rfl
  | cons item items ih => exact congrArg (storedAs keep item :: ·) (ih _)

variable (keep) in
def Recorded (s : AsyncSink) : Prop := s.db.rows.map contents = s.written.map fun item => storedAs keep item.2

theorem rows_insert (db : Database) (items : List AuditLog) :
    (db.insert keep (chainItems mac (latestAuditHash db) items)).rows.map contents =
      db.rows.map contents ++ items.map (storedAs keep) := by
  rw [← @contents_chainItems mac keep (latestAuditHash db) items]
  exact (List.map_append).trans (congrArg _ (contents_assignIDs _ _))

theorem recorded_flush (h : Recorded keep s) (ok : Bool) : Recorded keep (s.flush mac keep ok) := by
  unfold AsyncSink.flush
  split_ifs with hbuffer
  · exact h
  · have hitems : s.buffer.map Prod.snd ≠ [] := fun heq => hbuffer (List.map_eq_nil_iff.mp heq)
    unfold Recorded createBatch at *
    rw [if_neg hitems, rows_insert, h, List.map_append, List.map_map]
    rfl
  · exact h

theorem recorded_next (h : Recorded keep s) (hnext : Next mac keep s e s') : Recorded keep s' := by
  cases hnext with
  | created t ev _ =>
    unfold Recorded create at *
    rw [rows_insert, h, List.map_append]
    rfl
  | flushed ok _ => exact recorded_flush h ok
  | lastFlushed ok _ => exact recorded_flush h ok
  | _ => exact h

/-! ## Whole runs -/

variable {events : List SinkEvent}

theorem run_cons (h : s.run mac keep cfg (e :: events) = some s') :
    ∃ s₁, s.step mac keep cfg e = some s₁ ∧ s₁.run mac keep cfg events = some s' := by
  exact Option.bind_eq_some_iff.mp h

theorem run_keeps {P : AsyncSink → Prop} (given : SinkEvent → Prop) (hpolicy : cfg.DropsNothing)
    (hnext : ∀ {s s' : AsyncSink} {e : SinkEvent}, P s → given e → Next mac keep s e s' → P s')
    (hgiven : ∀ e ∈ events, given e) (hs : P s) (hrun : s.run mac keep cfg events = some s') : P s' := by
  induction events generalizing s with
  | nil =>
    cases hrun
    exact hs
  | cons e events ih =>
    obtain ⟨s₁, hstep, hrun⟩ := run_cons hrun
    have hs₁ := hnext hs (hgiven e List.mem_cons_self) (step_next hpolicy hstep)
    exact ih (fun e' he' => hgiven e' (List.mem_cons_of_mem _ he')) hs₁ hrun

theorem emptied_run (hpolicy : cfg.DropsNothing) (hs : Emptied s)
    (htime : SendsInTime mac keep cfg s events) (hrun : s.run mac keep cfg events = some s') : Emptied s' := by
  induction events generalizing s with
  | nil =>
    cases hrun
    exact hs
  | cons e events ih =>
    obtain ⟨s₁, hstep, hrun⟩ := run_cons hrun
    exact ih (emptied_next hs htime.1 (step_next hpolicy hstep)) (htime.2 s₁ hstep) hrun

theorem leftBehind_run (hpolicy : cfg.DropsNothing) (hlate : ¬ SendsInTime mac keep cfg s events)
    (hrun : s.run mac keep cfg events = some s') : LeftBehind s' := by
  induction events generalizing s with
  | nil => exact absurd trivial hlate
  | cons e events ih =>
    obtain ⟨s₁, hstep, hrest⟩ := run_cons hrun
    by_cases htime : ∀ t, e = .send t → s.flusher.reads = true
    · refine ih (fun hlater => hlate ⟨htime, fun s₂ hs₂ => ?_⟩) hrest
      obtain rfl : s₁ = s₂ := Option.some.inj (hstep.symm.trans hs₂)
      exact hlater
    · push Not at htime
      obtain ⟨t, rfl, hends⟩ := htime
      have hs₁ : LeftBehind s₁ := leftBehind_sent (Bool.eq_false_of_not_eq_true hends) (step_next hpolicy hstep)
      exact run_keeps (fun _ => True) hpolicy (fun h _ hnext => leftBehind_next h hnext) (fun _ _ => trivial) hs₁ hrest

end Next

def PersistedOnce (s : AsyncSink) (t : ℕ) (ev : AuditEvent) : Prop :=
  s.written.filter (fun item => item.1 = t) = [(t, toAuditLog ev)]

theorem accepted_eq_some {t : ℕ} {row : AuditLog} (h : s.accepted t = some row) :
    ∃ ev, s.calls t = some ⟨ev, .returned none⟩ ∧ toAuditLog ev = row := by
  obtain ⟨⟨ev, point⟩, hcall, hrow⟩ := Option.bind_eq_some_iff.mp h
  unfold WriteCall.accepted at hrow
  split at hrow
  · rename_i hpoint
    subst hpoint
    exact ⟨ev, hcall, Option.some.inj hrow⟩
  · cases hrow

theorem persistedOnce_iff_queue (h : ExactlyOnce s.placed s.accepted) (hbuffer : s.buffer = []) :
    (∀ t ev, s.calls t = some ⟨ev, .returned none⟩ → PersistedOnce s t ev) ↔ s.queue = [] := by
  constructor
  · intro hall
    by_contra hqueue
    obtain ⟨⟨t, ev⟩, queue, heq⟩ := List.exists_cons_of_ne_nil hqueue
    have hplaced : s.placed = (t, toAuditLog ev) ::
      (queue.map (fun item => (item.1, toAuditLog item.2)) ++ s.buffer ++ s.written) := by
      rw [AsyncSink.placed, heq]
      rfl
    rw [hplaced] at h
    obtain ⟨ev', hcall, hrow⟩ := accepted_eq_some ((h.mem_iff t _).mp List.mem_cons_self)
    have hmem : (t, toAuditLog ev') ∈ s.written.filter (fun item => item.1 = t) := by
      rw [hall t ev' hcall]
      exact List.mem_singleton_self _
    -- the call would have an item in the queue and another one in the store
    have hagain := List.mem_append_right (queue.map (fun item => (item.1, toAuditLog item.2)) ++
      s.buffer) (List.mem_filter.mp hmem).1
    exact (List.nodup_cons.mp h.nodup).1 (List.mem_map.mpr ⟨_, hagain, rfl⟩)
  · intro hqueue t ev hcall
    have hplaced : s.placed = s.written := by
      rw [AsyncSink.placed, hqueue, hbuffer]
      rfl
    rw [hplaced] at h
    refine h.filter_eq ?_
    rw [AsyncSink.accepted, hcall]
    rfl

/-- For every size of the queue and of the batches, both policies that drop nothing, and every
interleaving of producers, flusher and `Close` in which the store takes what it is given: when
`Close` has returned, the rows of the database are what the store has taken, and each `WriteEvent`
that returned `nil` has its event there once, if and only if no event was put into the queue after
the flusher had found it drained. -/
theorem persistedOnce_iff (mac : GoString → GoString) (keep : Instant → Instant)
    (bufferSize batchSize : ℤ) (dropPolicy : GoString)
    (hpolicy : (newAsyncSink bufferSize batchSize dropPolicy).DropsNothing)
    (events : List SinkEvent) (hok : ∀ e ∈ events, e.succeeds = true) (s : AsyncSink)
    (hrun : AsyncSink.start.run mac keep (newAsyncSink bufferSize batchSize dropPolicy) events =
      some s)
    (hclosed : s.closed = true) :
    Recorded keep s ∧ ((∀ t ev, s.calls t = some ⟨ev, .returned none⟩ → PersistedOnce s t ev) ↔
      SendsInTime mac keep (newAsyncSink bufferSize batchSize dropPolicy) .start events) := by
  have honce : ExactlyOnce s.placed s.accepted := by
    have hstart : ExactlyOnce AsyncSink.start.placed AsyncSink.start.accepted :=
      ⟨List.nodup_nil, fun _ _ => ⟨nofun, nofun⟩⟩
    exact run_keeps (fun e => e.succeeds = true) hpolicy (fun h hok hnext =>
      exactlyOnce_next h hok hnext) hok hstart hrun
  have hended : Ended s := by
    have hstart : Ended AsyncSink.start := ⟨fun _ => rfl, fun hclosed => by cases hclosed⟩
    exact run_keeps (fun _ => True) hpolicy (fun h _ hnext => ended_next h hnext) (fun _ _ => trivial) hstart hrun
  have hrecorded : Recorded keep s := by
    have hstart : Recorded keep AsyncSink.start := rfl
    exact run_keeps (fun _ => True) hpolicy (fun h _ hnext => recorded_next h hnext) (fun _ _ => trivial) hstart hrun
  have hreturned : s.flusher.reads = false := by
    rw [hended.closed hclosed]
    rfl
  refine ⟨hrecorded, (persistedOnce_iff_queue honce (hended.buffer (hended.closed hclosed))).trans
    ⟨fun hqueue => ?_, fun htime => ?_⟩⟩
  · by_contra hlate
    exact (leftBehind_run hpolicy hlate hrun).2 hqueue
  · exact emptied_run hpolicy (fun _ => rfl) htime hrun hreturned

/-- The second event finds the queue full and goes to the store, and the third one comes while the
queue is drained. -/
def closedInTime : List SinkEvent :=
  [.writeEvent 0 (sampleEvent 0), .writeEvent 1 (sampleEvent 1), .writeEvent 2 (sampleEvent 2),
    .send 0, .queueFull 1, .create 1 true,
    .cancel, .done, .receive, .send 2, .receive, .drained, .flush true, .closeReturns]

theorem sendsInTime_cons {mac : GoString → GoString} {keep : Instant → Instant} {cfg : SinkConfig}
    {s₁ : AsyncSink} {e : SinkEvent} {events : List SinkEvent}
    (htime : ∀ t, e = .send t → s.flusher.reads = true) (hstep : s.step mac keep cfg e = some s₁)
    (hrest : SendsInTime mac keep cfg s₁ events) : SendsInTime mac keep cfg s (e :: events) := by
  refine ⟨htime, fun s₂ hs₂ => ?_⟩
  obtain rfl : s₁ = s₂ := Option.some.inj (hstep.symm.trans hs₂)
  exact hrest

theorem newAsyncSink_syncFallback : newAsyncSink 1 1 (str "sync_fallback") = ⟨1, 1, .syncFallback⟩ := by
  have hpolicy : dropPolicyOf (str "sync_fallback") = .syncFallback := by
    unfold dropPolicyOf
    rw [if_neg (by decide +kernel), if_neg (by decide +kernel), if_neg (by decide +kernel)]
  unfold newAsyncSink
  rw [hpolicy]
  rfl

theorem persistedOnce_iff_inTime :
    ∃ s, AsyncSink.start.run sampleMac id (newAsyncSink 1 1 (str "sync_fallback")) closedInTime = some s ∧
      PersistedOnce s 0 (sampleEvent 0) ∧ PersistedOnce s 1 (sampleEvent 1) ∧ PersistedOnce s 2 (sampleEvent 2) := by
  have hpolicy : (newAsyncSink 1 1 (str "sync_fallback")).DropsNothing := by
    rw [newAsyncSink_syncFallback]
    exact Or.inr rfl
  have hok : ∀ e ∈ closedInTime, e.succeeds = true := List.all_eq_true.mp rfl
  have h := persistedOnce_iff sampleMac id 1 1 (str "sync_fallback") hpolicy closedInTime hok
  rw [newAsyncSink_syncFallback] at h ⊢
  refine ⟨_, rfl, ?_⟩
  have hall := (h _ rfl rfl).2.mpr ?_
  · exact ⟨hall 0 _ rfl, hall 1 _ rfl, hall 2 _ rfl⟩
  · refine sendsInTime_cons nofun
      rfl (sendsInTime_cons nofun
      rfl (sendsInTime_cons nofun rfl (sendsInTime_cons (fun _ _ => rfl) rfl ?_)))
    refine sendsInTime_cons nofun
      rfl (sendsInTime_cons nofun rfl (sendsInTime_cons nofun rfl (sendsInTime_cons nofun rfl ?_)))
    refine sendsInTime_cons nofun rfl (sendsInTime_cons (fun _ _ => rfl) rfl (sendsInTime_cons nofun rfl ?_))
    exact sendsInTime_cons nofun rfl (sendsInTime_cons nofun rfl (sendsInTime_cons nofun rfl trivial))

/-- `Close` comes between the call of a producer and its send. -/
def closedTooEarly : List SinkEvent :=
  [.writeEvent 0 (sampleEvent 0), .cancel, .done, .drained, .send 0, .flush true, .closeReturns]

theorem event_lost_at_close :
    (∃ s, AsyncSink.start.run sampleMac id (newAsyncSink 1 1 (str "block")) closedTooEarly =
      some s ∧ s.closed = true ∧
      s.calls 0 = some ⟨sampleEvent 0, .returned none⟩ ∧ s.db.rows = [] ∧
        ¬ PersistedOnce s 0 (sampleEvent 0)) ∧
    ∃ s, AsyncSink.start.run sampleMac id (newAsyncSink 1 1 (str "sync_fallback")) closedTooEarly =
      some s ∧ s.closed = true ∧
      s.calls 0 = some ⟨sampleEvent 0, .returned none⟩ ∧ s.db.rows = [] ∧
        ¬ PersistedOnce s 0 (sampleEvent 0) := by
  exact ⟨⟨_, rfl, rfl, rfl, rfl, nofun⟩, ⟨_, rfl, rfl, rfl, rfl, nofun⟩⟩

/-! ## The order of the writes -/

def SinkEvent.sent : SinkEvent → List ℕ
  | .send t => [t]
  | _ => []

def SinkEvent.created : SinkEvent → List ℕ
  | .create t _ => [t]
  | _ => []

/-- The calls whose events the store has taken, the flusher holds and the queue holds, without the
calls that go to the store themselves. -/
def AsyncSink.inOrder (s : AsyncSink) (created : List ℕ) : List ℕ :=
  (s.written.map Prod.fst).filter (· ∉ created) ++ (s.buffer.map Prod.fst ++ s.queue.map Prod.fst)

section Order
variable {mac : GoString → GoString} {keep : Instant → Instant} {cfg : SinkConfig}
  {s s' : AsyncSink} {e : SinkEvent}
  {events : List SinkEvent} {created : List ℕ}

theorem inOrder_flush (s : AsyncSink) (ok : Bool) :
    ((s.flush mac keep ok).inOrder created).Sublist (s.inOrder created) := by
  unfold AsyncSink.flush
  split_ifs
  · exact List.Sublist.refl _
  · simp only [AsyncSink.inOrder, List.map_append, List.filter_append, List.map_nil, List.nil_append, List.append_assoc]
    gcongr
    exact List.filter_sublist
  · simp only [AsyncSink.inOrder, List.map_nil, List.nil_append]
    gcongr
    exact List.sublist_append_right _ _

theorem inOrder_step (hcreated : e.created ⊆ created) (h : s.step mac keep cfg e = some s') :
    (s'.inOrder created).Sublist (s.inOrder created ++ e.sent) := by
  revert h
  fun_cases AsyncSink.step mac keep cfg s e
  all_goals
    intro h
    cases h
  -- the queue grows at its end with what is sent
  case case3 | case5 => simp [AsyncSink.inOrder, AsyncSink.returns, AsyncSink.setCall, SinkEvent.sent]
  case case14 => simp [AsyncSink.inOrder, AsyncSink.setCall, SinkEvent.sent, List.tail_sublist]
  case case18 =>
    have hmem := hcreated (List.mem_singleton.mpr rfl)
    simp [AsyncSink.inOrder, AsyncSink.returns, AsyncSink.setCall, SinkEvent.sent, hmem]
  case case21 | case22 => simp +zetaDelta [AsyncSink.inOrder, SinkEvent.sent, ‹s.queue = _›]
  case case26 | case27 => exact (inOrder_flush s _).trans (List.sublist_append_left _ _)
  all_goals exact List.sublist_append_left _ _

theorem inOrder_run (hcreated : events.flatMap SinkEvent.created ⊆ created) (h : s.run mac keep cfg events = some s') :
    (s'.inOrder created).Sublist (s.inOrder created ++ events.flatMap SinkEvent.sent) := by
  induction events generalizing s with
  | nil =>
    cases h
    exact List.sublist_append_left _ _
  | cons e events ih =>
    obtain ⟨s₁, hstep, hrun⟩ := run_cons h
    rw [List.flatMap_cons, List.append_subset] at hcreated
    rw [List.flatMap_cons, ← List.append_assoc]
    exact (ih hcreated.2 hrun).trans ((inOrder_step hcreated.1 hstep).append_right _)

end Order

/-- For every policy, all sizes and every interleaving, whatever the store refuses: what the flusher
writes comes in the order of the sends and each event once at most, and what the flusher and the
queue still hold comes after it. -/
theorem writes_in_order (mac : GoString → GoString) (keep : Instant → Instant) (cfg : SinkConfig)
    (events : List SinkEvent) (s : AsyncSink)
    (hrun : AsyncSink.start.run mac keep cfg events = some s) :
    (s.inOrder (events.flatMap SinkEvent.created)).Sublist (events.flatMap SinkEvent.sent) :=
  inOrder_run (List.Subset.refl _) hrun

theorem writes_in_order_closed : ∃ s, AsyncSink.start.run sampleMac id ⟨1, 1, .syncFallback⟩ closedInTime = some s ∧
    (s.inOrder [1]).Sublist [0, 2] :=
  ⟨_, rfl, writes_in_order sampleMac id ⟨1, 1, .syncFallback⟩ closedInTime _ rfl⟩

end Portlyn.Audit
