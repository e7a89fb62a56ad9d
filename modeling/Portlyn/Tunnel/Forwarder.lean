import Portlyn.Tunnel.Targets

/-! # The forwarder of a node over whole histories (`forwarder.go`)

Each `ListenTCP` that works opens a new listener. The table has one listener for a port; a listener
that leaves it is closed first, so the open listeners are those of the table. -/
namespace Portlyn.Tunnel
open Go
set_option autoImplicit false

structure ActiveListener where
  listener : ℕ
  localAddr : GoString

/-- A listener is its place in `opened`, which has the ports of all listeners that were ever opened.
`relayed` has the remote address of each relayed connection, with the address of the hub at that
time. -/
structure Forwarder where
  listeners : ℕ → Option ActiveListener
  opened : List ℕ
  closed : List ℕ
  hub : Option Addr
  relayed : List (Addr × Option Addr)

namespace Forwarder

def start : Forwarder := ⟨fun _ => none, [], [], none, []⟩

def closeStale (want : ℕ → Option GoString) (f : Forwarder) (port : ℕ) : Forwarder :=
  match f.listeners port with
  | none => f
  | some active =>
    if want port = some active.localAddr then f
    else { f with listeners := Function.update f.listeners port none, closed := active.listener :: f.closed }

def openMissing (listens : ℕ → Bool) (want : ℕ → Option GoString) (f : Forwarder) (port : ℕ) :
    Forwarder :=
  match f.listeners port, want port with
  | none, some addr =>
    if listens port then
      { f with
        listeners := Function.update f.listeners port (some ⟨f.opened.length, addr⟩)
        opened := f.opened ++ [port] }
    else f
  | _, _ => f

/-- `listens` says for which ports `ListenTCP` works. The two loops visit the ports in the orders
`tracked` and `wanted`. -/
def reconcile (listens : ℕ → Bool) (tracked wanted : List ℕ) (targets : List TunnelTarget)
    (f : Forwarder) : Forwarder :=
  wanted.foldl (openMissing listens (desired targets))
    (tracked.foldl (closeStale (desired targets)) f)

/-- A call of `reconcile`: a `range` loop visits the keys of its map in any order. -/
inductive Reconciles (targets : List TunnelTarget) (listens : ℕ → Bool) : Forwarder → Forwarder →
    Prop
  | visiting (f : Forwarder) (tracked wanted : List ℕ) (htracked : ∀ port, port ∈ tracked ↔ f.listeners port ≠ none)
      (hwanted : ∀ port, port ∈ wanted ↔ desired targets port ≠ none) :
      Reconciles targets listens f (f.reconcile listens tracked wanted targets)

def setHub (value : GoString) (f : Forwarder) : Forwarder :=
  match parseAddr (trimSpace value) with
  | none => f
  | some addr => { f with hub := some addr.unmap }

def isHub (hub : Option Addr) (remote : Addr) : Bool := hub = some remote.unmap

/-- A connection that is accepted. One without a remote address is never relayed. -/
def accept (remote : Option Addr) (f : Forwarder) : Forwarder :=
  match remote with
  | none => f
  | some remote =>
    if isHub f.hub remote then { f with relayed := (remote, f.hub) :: f.relayed } else f

inductive Step : Forwarder → Forwarder → Prop
  | reconcile (targets : List TunnelTarget) (listens : ℕ → Bool) {f f' : Forwarder}
      (h : Reconciles targets listens f f') : Step f f'
  | setHub (value : GoString) (f : Forwarder) : Step f (f.setHub value)
  | accept (remote : Option Addr) (f : Forwarder) : Step f (f.accept remote)

/-! ## The table -/

def addr (f : Forwarder) (port : ℕ) : Option GoString :=
  (f.listeners port).map ActiveListener.localAddr

theorem addr_closeStale (want : ℕ → Option GoString) (f : Forwarder) (p port : ℕ) :
    (closeStale want f p).addr port = if port = p then (f.addr port).filter (want port = some ·) else f.addr port := by
  unfold closeStale addr
  by_cases hp : port = p
  · subst hp
    cases hactive : f.listeners port with
    | none => simp [hactive]
    | some active => by_cases hwant : want port = some active.localAddr <;> simp [hactive, hwant, Option.filter_some]
  · cases f.listeners p with
    | none => rw [if_neg hp]
    | some active => by_cases hwant : want p = some active.localAddr <;> simp [hwant, hp]

theorem addr_openMissing (listens : ℕ → Bool) (want : ℕ → Option GoString) (f : Forwarder) (p port : ℕ) :
    (openMissing listens want f p).addr port = (f.addr port).or (if port = p ∧ listens p then want p else none) := by
  unfold openMissing addr
  cases hactive : f.listeners p with
  | some active => by_cases hp : port = p <;> simp [hp, hactive]
  | none =>
    cases hwant : want p with
    | none => simp
    | some a => by_cases hl : listens p = true <;> by_cases hp : port = p <;> simp [hl, hp, hactive]

theorem addr_closeAll (want : ℕ → Option GoString) (ports : List ℕ) (f : Forwarder) (port : ℕ) :
    (ports.foldl (closeStale want) f).addr port =
      if port ∈ ports then (f.addr port).filter (want port = some ·) else f.addr port := by
  induction ports generalizing f with
  | nil => rw [if_neg List.not_mem_nil]; rfl
  | cons p ports ih =>
    rw [List.foldl_cons, ih, addr_closeStale]
    by_cases hp : port = p
    · simp [hp]
    · simp [hp]

theorem addr_openAll (listens : ℕ → Bool) (want : ℕ → Option GoString) (ports : List ℕ) (f : Forwarder) (port : ℕ) :
    (ports.foldl (openMissing listens want) f).addr port =
      (f.addr port).or (if port ∈ ports ∧ listens port then want port else none) := by
  induction ports generalizing f with
  | nil => simp
  | cons p ports ih =>
    rw [List.foldl_cons, ih, addr_openMissing]
    by_cases hp : port = p
    · subst hp
      by_cases hl : listens port = true
      · cases want port <;> simp [hl]
      · simp [hl]
    · simp [hp]

variable {f f' : Forwarder}

/-- The two loops leave the table that the hub reckons with. -/
theorem addr_reconciles {targets : List TunnelTarget} {listens : ℕ → Bool}
    (h : Reconciles targets listens f f') : f'.addr = Tunnel.reconcile listens f.addr targets := by
  obtain ⟨tracked, wanted, htracked, hwanted⟩ := h
  funext port
  rw [reconcile, addr_openAll, addr_closeAll, Tunnel.reconcile]
  simp only [htracked, hwanted]
  cases hactive : f.addr port with
  | none =>
    have hnone : f.listeners port = none := Option.map_eq_none_iff.mp hactive
    cases hwant : desired targets port with
    | none => simp [hnone]
    | some a => by_cases hl : listens port = true <;> simp [hl, Option.filter_some]
  | some b =>
    have hsome : f.listeners port ≠ none := fun hnone => by rw [addr, hnone] at hactive; cases hactive
    cases hwant : desired targets port with
    | none => simp [hsome]
    | some a =>
      by_cases hab : a = b
      · simp [hab, Option.filter_some]
      · by_cases hl : listens port = true <;> simp [hsome, hab, Ne.symm hab, Option.filter_some]

/-! ## Whole histories -/

def Open (f : Forwarder) (id port : ℕ) : Prop := f.opened[id]? = some port ∧ id ∉ f.closed

structure Sound (f : Forwarder) : Prop where
  tracked : ∀ port active, f.listeners port = some active → f.Open active.listener port
  untracked : ∀ id port, f.Open id port → ∃ active, f.listeners port = some active ∧
    active.listener = id
  closed_lt : ∀ id ∈ f.closed, id < f.opened.length
  relays : ∀ entry ∈ f.relayed, entry.2 = some entry.1.unmap

theorem sound_start : start.Sound where
  tracked := fun _ _ h => by cases h
  untracked := fun _ _ h => by cases h.1
  closed_lt := List.forall_mem_nil _
  relays := List.forall_mem_nil _

theorem sound_closeStale (h : f.Sound) (want : ℕ → Option GoString) (p : ℕ) : (closeStale want f p).Sound := by
  unfold closeStale
  split
  · exact h
  · rename_i active hactive
    obtain ⟨hplace, -⟩ := h.tracked p active hactive
    split
    · exact h
    · refine ⟨fun port other hother => ?_, fun id port hopen => ?_, fun id hid => ?_, h.relays⟩ <;> dsimp only at *
      · by_cases hp : port = p
        · rw [hp, Function.update_self] at hother
          cases hother
        · rw [Function.update_of_ne hp] at hother
          obtain ⟨hport, hclosed⟩ := h.tracked port other hother
          refine ⟨hport, List.not_mem_cons_of_ne_of_not_mem (fun heq => hp ?_) hclosed⟩
          rw [heq, hplace] at hport
          exact (Option.some.inj hport).symm
      · obtain ⟨hne, hclosed⟩ := List.ne_and_not_mem_of_not_mem_cons hopen.2
        obtain ⟨other, hother, hid⟩ := h.untracked id port ⟨hopen.1, hclosed⟩
        refine ⟨other, ?_, hid⟩
        rw [Function.update_of_ne, hother]
        rintro rfl
        rw [hactive] at hother
        cases hother
        exact hne hid.symm
      · rcases List.mem_cons.mp hid with rfl | hid
        · exact (List.getElem?_eq_some_iff.mp hplace).1
        · exact h.closed_lt id hid

theorem sound_openMissing (h : f.Sound) (listens : ℕ → Bool) (want : ℕ → Option GoString) (p : ℕ) :
    (openMissing listens want f p).Sound := by
  unfold openMissing
  split
  · rename_i a hnone _
    split
    · refine ⟨fun port other hother => ?_, fun id port hopen => ?_, fun id hid => ?_, h.relays⟩ <;> dsimp only at *
      · by_cases hp : port = p
        · rw [hp, Function.update_self] at hother
          cases hother
          exact ⟨hp ▸ List.getElem?_concat_length, fun hid => absurd (h.closed_lt _ hid) (lt_irrefl _)⟩
        · rw [Function.update_of_ne hp] at hother
          obtain ⟨hport, hclosed⟩ := h.tracked port other hother
          exact ⟨(List.getElem?_append_left (List.getElem?_eq_some_iff.mp hport).1).trans hport, hclosed⟩
      · -- the new listener is the last one
        obtain ⟨hplace, hclosed⟩ := hopen
        rcases Nat.lt_or_ge id f.opened.length with hlt | hge
        · rw [List.getElem?_append_left hlt] at hplace
          obtain ⟨other, hother, hid⟩ := h.untracked id port ⟨hplace, hclosed⟩
          refine ⟨other, ?_, hid⟩
          rw [Function.update_of_ne, hother]
          rintro rfl
          rw [hnone] at hother
          cases hother
        · obtain ⟨hlt, hport⟩ := List.getElem?_eq_some_iff.mp hplace
          rw [List.length_append, List.length_singleton] at hlt
          obtain rfl : id = f.opened.length := by omega
          rw [List.getElem_concat_length rfl] at hport
          rw [hport, Function.update_self]
          exact ⟨_, rfl, rfl⟩
      · rw [List.length_append]
        have := h.closed_lt id hid
        omega
    · exact h
  · exact h

theorem sound_reconciles {targets : List TunnelTarget} {listens : ℕ → Bool} (h : f.Sound)
    (hcall : Reconciles targets listens f f') : f'.Sound := by
  obtain ⟨tracked, wanted, -, -⟩ := hcall
  refine List.foldlRecOn wanted _ ?_ fun g hg port _ => sound_openMissing hg listens _ port
  exact List.foldlRecOn tracked _ h fun g hg port _ => sound_closeStale hg _ port

theorem sound_step (h : f.Sound) (hstep : Step f f') : f'.Sound := by
  cases hstep with
  | reconcile targets listens hcall => exact sound_reconciles h hcall
  | setHub value =>
    unfold setHub
    split
    · exact h
    · exact ⟨h.tracked, h.untracked, h.closed_lt, h.relays⟩
  | accept remote =>
    unfold accept
    split
    · exact h
    · split
      · rename_i remote hhub
        refine ⟨h.tracked, h.untracked, h.closed_lt, fun entry hentry => ?_⟩
        rcases List.mem_cons.mp hentry with rfl | hentry
        · exact of_decide_eq_true hhub
        · exact h.relays entry hentry
      · exact h

theorem sound_run (h : Relation.ReflTransGen Step start f) : f.Sound := by
  induction h with
  | refl => exact sound_start
  | tail _ hstep ih => exact sound_step ih hstep

/-- The address of the last valid entry for the port. -/
def lastValid (targets : List TunnelTarget) (port : ℕ) : Option GoString :=
  (portAddrs (targets.filter fun t => 0 < t.listenPort ∧ t.localAddr ≠ []) port).getLast?

theorem desired_eq_lastValid (targets : List TunnelTarget) (port : ℕ) :
    desired targets port = lastValid targets port := by
  have hskip : desired targets = desired (targets.filter fun t => 0 < t.listenPort ∧
    t.localAddr ≠ []) := by
    induction targets using List.reverseRecOn with
    | nil => rfl
    | append_singleton targets t ih =>
      rw [desired_append, List.filter_append, List.filter_singleton]
      by_cases hvalid : 0 < t.listenPort ∧ t.localAddr ≠ []
      · rw [decide_eq_true hvalid, cond_true, desired_append, ih]
      · rw [decide_eq_false hvalid, cond_false, List.append_nil, ← ih, if_pos]
        by_contra hinvalid
        rw [not_or, not_le] at hinvalid
        exact hvalid hinvalid
  rw [hskip, lastValid, desired_eq_last]
  exact fun t ht => of_decide_eq_true (List.mem_filter.mp ht).2

end Forwarder

open Forwarder in
/-- After every call of `reconcile` in every history: the open listeners are those of the table,
each has the address of the last valid entry for its port, a port with a valid entry has exactly one
if it was kept or `ListenTCP` did not fail, all others are closed, and connections were relayed from
the hub only. -/
theorem forwarder_reconciled {f f' : Forwarder} {targets : List TunnelTarget} {listens : ℕ → Bool}
    (hrun : Relation.ReflTransGen Step start f) (hcall : Reconciles targets listens f f') :
    (∀ id port, f'.Open id port → ∃ active, f'.listeners port = some active ∧ active.listener = id ∧
        lastValid targets port = some active.localAddr) ∧
      (∀ port active, f'.listeners port = some active →
        lastValid targets port = some active.localAddr) ∧
      (∀ port, lastValid targets port ≠ none → listens port = true ∨
        f.addr port = lastValid targets port → ∃! id, f'.Open id port) ∧
      (∀ id port, f'.opened[id]? = some port →
        (∀ active, f'.listeners port = some active → active.listener ≠ id) → id ∈ f'.closed) ∧
      ∀ entry ∈ f'.relayed, entry.2 = some entry.1.unmap := by
  have hsound := sound_reconciles (sound_run hrun) hcall
  have haddr : ∀ port a, f'.addr port = some a ↔ lastValid targets port = some a ∧
    (f.addr port = some a ∨ listens port = true) := by
    intro port a
    rw [addr_reconciles hcall, reconcile_eq_some, desired_eq_lastValid]
  have hlast : ∀ port active, f'.listeners port = some active →
    lastValid targets port = some active.localAddr :=
    fun port active hactive => ((haddr port _).mp (by rw [addr, hactive]; rfl)).1
  refine ⟨fun id port hopen => ?_, hlast, fun port hvalid hkept => ?_, fun id port hplace hgone =>
    ?_, hsound.relays⟩
  · obtain ⟨active, hactive, hid⟩ := hsound.untracked id port hopen
    exact ⟨active, hactive, hid, hlast port active hactive⟩
  · obtain ⟨a, ha⟩ := Option.ne_none_iff_exists'.mp hvalid
    have htable := (haddr port a).mpr ⟨ha, by rw [ha] at hkept; exact hkept.symm⟩
    obtain ⟨active, hactive, -⟩ := Option.map_eq_some_iff.mp htable
    refine ⟨active.listener, hsound.tracked port active hactive, fun id hopen => ?_⟩
    obtain ⟨other, hother, hid⟩ := hsound.untracked id port hopen
    rw [hactive] at hother
    cases hother
    exact hid.symm
  · by_contra hclosed
    obtain ⟨active, hactive, hid⟩ := hsound.untracked id port ⟨hplace, hclosed⟩
    exact hgone active hactive hid

section Sample
open Forwarder

def firstTargets : List TunnelTarget := [⟨1, 80, str "a"⟩, ⟨2, 81, str "b"⟩]
def secondTargets : List TunnelTarget := [⟨1, 80, str "c"⟩, ⟨3, 82, str "d"⟩]

def openedForwarder : Forwarder := start.reconcile (fun _ => true) [] [80, 81] firstTargets

/-- After two listeners were opened the hub is set, and a connection from it is relayed. -/
def sampleForwarder : Forwarder :=
  (openedForwarder.setHub (str "10.0.0.1")).accept (some (.v4 0x0a000001#32))

theorem mem_ports_iff {a b : ℕ} {s t : GoString} (hvalid : (0 < a ∧ s ≠ []) ∧ 0 < b ∧ t ≠ [])
    (id id' port : ℕ) : port ∈ [a, b] ↔ desired [⟨id, a, s⟩, ⟨id', b, t⟩] port ≠ none := by
  obtain ⟨⟨ha, hs⟩, hb, ht⟩ := hvalid
  rw [desired, List.foldl_cons, List.foldl_cons, List.foldl_nil, if_neg (by simp [ht, hb.ne']),
    if_neg (by simp [hs, ha.ne']), Function.update_apply, Function.update_apply]
  split_ifs with hpb hpa <;> simp [*]

/-- The next call moves port 80 to another address, removes port 81, and adds port 82, at which
`ListenTCP` fails. -/
theorem forwarder_reconciled_second :
    sampleForwarder.relayed ≠ [] ∧ ∃ f' : Forwarder, Reconciles secondTargets (· ≠ 82) sampleForwarder f' ∧
      (∃! id, f'.Open id 80) ∧ ∀ id, ¬ f'.Open id 81 := by
  have hfirst : Reconciles firstTargets (fun _ => true) start openedForwarder :=
    .visiting start [] [80, 81] (by simp [start]) (mem_ports_iff (by decide +kernel) 1 2)
  have hrun : Relation.ReflTransGen Step start sampleForwarder :=
    .tail (.tail (.tail .refl (.reconcile _ _ hfirst)) (.setHub _ _)) (.accept _ _)
  have hsame : sampleForwarder.listeners = openedForwarder.listeners := by
    unfold sampleForwarder accept setHub
    dsimp only
    split <;> split <;> rfl
  have htracked : ∀ port, port ∈ [80, 81] ↔ sampleForwarder.listeners port ≠ none := by
    intro port
    have haddr : openedForwarder.addr port = desired firstTargets port := by
      rw [addr_reconciles hfirst, Tunnel.reconcile]
      cases desired firstTargets port <;> rfl
    have hnone : openedForwarder.addr port = none ↔ openedForwarder.listeners port = none := Option.map_eq_none_iff
    rw [hsame, ne_eq, ← hnone, haddr]
    exact mem_ports_iff (by decide +kernel) 1 2 port
  have hsecond : Reconciles secondTargets (· ≠ 82) sampleForwarder _ :=
    .visiting _ [80, 81] [80, 82] htracked (mem_ports_iff (by decide +kernel) 1 3)
  have hcall := forwarder_reconciled hrun hsecond
  refine ⟨by decide +kernel, _, hsecond, hcall.2.2.1 80 (by decide +kernel) (Or.inl rfl),
    fun id hopen => ?_⟩
  obtain ⟨active, -, -, hlast⟩ := hcall.1 id 81 hopen
  have hnone : lastValid secondTargets 81 = none := by decide +kernel
  rw [hnone] at hlast
  cases hlast

end Sample

end Portlyn.Tunnel
