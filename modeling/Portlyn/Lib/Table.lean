import Mathlib.Data.List.Sort
import Mathlib.Order.MinMax

/-! # Tables with a primary key

Rows are kept in the order of their keys, so the first row in the list is the one that a query
without an explicit order finds. A key is never given twice. -/
namespace Portlyn.Lib
set_option autoImplicit false

structure Table (α : Type) where
  rows : List (ℕ × α)
  nextID : ℕ
  sorted : rows.Pairwise fun a b => a.1 < b.1
  fresh : ∀ r ∈ rows, 0 < r.1 ∧ r.1 < nextID
  nextID_pos : 0 < nextID

namespace Table
variable {α : Type}

def empty : Table α := ⟨[], 1, List.Pairwise.nil, List.forall_mem_nil _, Nat.one_pos⟩

/-! ## Queries -/

def get (t : Table α) (id : ℕ) : Option α := (t.rows.find? fun r => r.1 = id).map Prod.snd

/-- `WHERE p ORDER BY id LIMIT 1`. -/
def first (t : Table α) (p : ℕ → α → Bool) : Option (ℕ × α) := t.rows.find? fun r => p r.1 r.2

/-- `WHERE p ORDER BY id DESC LIMIT 1`. -/
def last (t : Table α) (p : ℕ → α → Bool) : Option (ℕ × α) := t.rows.reverse.find? fun r => p r.1 r.2

def count (t : Table α) (p : ℕ → α → Bool) : ℕ := t.rows.countP fun r => p r.1 r.2

theorem nodup_keys (t : Table α) : (t.rows.map Prod.fst).Nodup :=
  List.pairwise_map.mpr (t.sorted.imp Nat.ne_of_lt)

variable {t : Table α}

theorem get_eq_some {id : ℕ} {a : α} : t.get id = some a ↔ (id, a) ∈ t.rows := by
  constructor
  · intro h
    obtain ⟨r, hr, rfl⟩ := Option.map_eq_some_iff.mp h
    have hid : r.1 = id := by simpa using List.find?_some hr
    subst hid
    exact List.mem_of_find?_eq_some hr
  · intro h
    cases hfind : t.rows.find? fun r => r.1 = id with
    | none => exact absurd (decide_eq_true rfl) (List.find?_eq_none.mp hfind (id, a) h)
    | some r =>
      have hr : r.1 = id := by simpa using List.find?_some hfind
      have heq : r = (id, a) := List.inj_on_of_nodup_map t.nodup_keys (List.mem_of_find?_eq_some hfind) h hr
      rw [get, hfind, heq]
      rfl

theorem get_eq_none {id : ℕ} : t.get id = none ↔ ∀ a, (id, a) ∉ t.rows := by
  rw [Option.eq_none_iff_forall_ne_some]
  exact forall_congr' fun a => not_congr get_eq_some

theorem get_congr {t' : Table α} {id : ℕ} (h : ∀ a, (id, a) ∈ t'.rows ↔ (id, a) ∈ t.rows) : t'.get id = t.get id := by
  cases hget : t.get id with
  | none => exact get_eq_none.mpr fun a => mt (h a).mp (get_eq_none.mp hget a)
  | some a => exact get_eq_some.mpr ((h a).mpr (get_eq_some.mp hget))

variable {p : ℕ → α → Bool}

theorem first_some {r : ℕ × α} (h : t.first p = some r) :
    t.get r.1 = some r.2 ∧ p r.1 r.2 = true := by
  have hp := List.find?_some h
  exact ⟨get_eq_some.mpr (List.mem_of_find?_eq_some h), hp⟩

theorem last_some {r : ℕ × α} (h : t.last p = some r) :
    t.get r.1 = some r.2 ∧ p r.1 r.2 = true := by
  have hp := List.find?_some h
  exact ⟨get_eq_some.mpr (List.mem_reverse.mp (List.mem_of_find?_eq_some h)), hp⟩

theorem count_pos : 0 < t.count p ↔ ∃ id a, t.get id = some a ∧ p id a = true := by
  rw [count, List.countP_pos_iff]
  constructor
  · rintro ⟨⟨id, a⟩, hmem, hp⟩
    exact ⟨id, a, get_eq_some.mpr hmem, hp⟩
  · rintro ⟨id, a, hget, hp⟩
    exact ⟨(id, a), get_eq_some.mp hget, hp⟩

theorem get_lt {id : ℕ} {a : α} (h : t.get id = some a) : 0 < id ∧ id < t.nextID :=
  t.fresh (id, a) (get_eq_some.mp h)

/-! ## Changes -/

def update (t : Table α) (p : ℕ → α → Bool) (f : α → α) : Table α where
  rows := t.rows.map fun r => (r.1, if p r.1 r.2 then f r.2 else r.2)
  nextID := t.nextID
  sorted := List.pairwise_map.mpr t.sorted
  fresh := by
    intro r hr
    obtain ⟨q, hq, rfl⟩ := List.mem_map.mp hr
    exact t.fresh q hq
  nextID_pos := t.nextID_pos

def insert (t : Table α) (a : α) : Table α where
  rows := t.rows ++ [(t.nextID, a)]
  nextID := t.nextID + 1
  sorted := by
    refine List.pairwise_append.mpr ⟨t.sorted, List.pairwise_singleton _ _, fun r hr q hq => ?_⟩
    obtain rfl := List.mem_singleton.mp hq
    exact (t.fresh r hr).2
  fresh := by
    intro r hr
    rcases List.mem_append.mp hr with hr | hr
    · exact ⟨(t.fresh r hr).1, Nat.lt_succ_of_lt (t.fresh r hr).2⟩
    · obtain rfl := List.mem_singleton.mp hr
      exact ⟨t.nextID_pos, Nat.lt_succ_self _⟩
  nextID_pos := Nat.succ_pos _

def delete (t : Table α) (id : ℕ) : Table α where
  rows := t.rows.filter fun r => r.1 ≠ id
  nextID := t.nextID
  sorted := List.Pairwise.filter _ t.sorted
  fresh := fun r hr => t.fresh r (List.mem_of_mem_filter hr)
  nextID_pos := t.nextID_pos

def put (t : Table α) (id : ℕ) (a : α) (hid : 0 < id) : Table α where
  rows := (t.rows.filter fun r => r.1 < id) ++ (id, a) :: t.rows.filter fun r => id < r.1
  nextID := max t.nextID (id + 1)
  sorted := by
    refine List.pairwise_append.mpr ⟨t.sorted.filter _, List.pairwise_cons.mpr ⟨?_, t.sorted.filter _⟩, ?_⟩
    · intro r hr
      exact of_decide_eq_true (List.mem_filter.mp hr).2
    · intro r hr q hq
      have hr : r.1 < id := of_decide_eq_true (List.mem_filter.mp hr).2
      rcases List.mem_cons.mp hq with rfl | hq
      · exact hr
      · exact hr.trans (of_decide_eq_true (List.mem_filter.mp hq).2)
  fresh := by
    intro r hr
    rcases List.mem_append.mp hr with hr | hr
    · have hr := t.fresh r (List.mem_of_mem_filter hr)
      exact ⟨hr.1, lt_max_of_lt_left hr.2⟩
    · rcases List.mem_cons.mp hr with rfl | hr
      · exact ⟨hid, lt_max_of_lt_right (Nat.lt_succ_self _)⟩
      · have hr := t.fresh r (List.mem_of_mem_filter hr)
        exact ⟨hr.1, lt_max_of_lt_left hr.2⟩
  nextID_pos := lt_max_of_lt_left t.nextID_pos

theorem get_update (t : Table α) (p : ℕ → α → Bool) (f : α → α) (id : ℕ) :
    (t.update p f).get id = (t.get id).map fun a => if p id a then f a else a := by
  cases h : t.get id with
  | none =>
    rw [get_eq_none] at h
    refine get_eq_none.mpr fun a hmem => ?_
    obtain ⟨r, hr, heq⟩ := List.mem_map.mp hmem
    obtain ⟨rfl, -⟩ := Prod.mk.inj heq
    exact h r.2 hr
  | some a => exact get_eq_some.mpr (List.mem_map.mpr ⟨(id, a), get_eq_some.mp h, rfl⟩)

theorem get_update_some {id : ℕ} {a : α} (p : ℕ → α → Bool) (f : α → α) (h : t.get id = some a) :
    (t.update p f).get id = some (if p id a then f a else a) := by
  rw [get_update, h]
  rfl

theorem get_nextID (t : Table α) : t.get t.nextID = none :=
  get_eq_none.mpr fun _ h => absurd (t.fresh _ h).2 (Nat.lt_irrefl _)

theorem get_insert_self (t : Table α) (a : α) : (t.insert a).get t.nextID = some a :=
  get_eq_some.mpr (List.mem_append_right _ (List.mem_singleton.mpr rfl))

theorem get_insert_of_ne (t : Table α) (a : α) {id : ℕ} (h : id ≠ t.nextID) : (t.insert a).get id = t.get id := by
  have hmem : ∀ b, (id, b) ∈ (t.insert a).rows ↔ (id, b) ∈ t.rows := by
    intro b
    refine List.mem_append.trans ⟨fun hb => hb.resolve_right fun hb => ?_, Or.inl⟩
    exact h (Prod.mk.inj (List.mem_singleton.mp hb)).1
  exact get_congr hmem

theorem get_insert_of_some {id : ℕ} {b : α} (a : α) (h : t.get id = some b) :
    (t.insert a).get id = some b := by
  rw [get_insert_of_ne t a (Nat.ne_of_lt (get_lt h).2), h]

theorem get_insert_cases {a b : α} {id : ℕ} (h : (t.insert a).get id = some b) :
    t.get id = some b ∨ id = t.nextID ∧ b = a := by
  by_cases hid : id = t.nextID
  · subst hid
    rw [get_insert_self, Option.some.injEq] at h
    exact Or.inr ⟨rfl, h.symm⟩
  · rw [get_insert_of_ne t a hid] at h
    exact Or.inl h

theorem get_delete_self (t : Table α) (id : ℕ) : (t.delete id).get id = none :=
  get_eq_none.mpr fun _ h => of_decide_eq_true (List.mem_filter.mp h).2 rfl

theorem get_delete_of_ne (t : Table α) {id id' : ℕ} (h : id' ≠ id) : (t.delete id).get id' = t.get id' := by
  have hmem : ∀ b, (id', b) ∈ (t.delete id).rows ↔ (id', b) ∈ t.rows := fun b =>
    List.mem_filter.trans (and_iff_left (decide_eq_true h))
  exact get_congr hmem

theorem get_put_self (t : Table α) {id : ℕ} (a : α) (hid : 0 < id) : (t.put id a hid).get id = some a :=
  get_eq_some.mpr (List.mem_append_right _ List.mem_cons_self)

theorem get_put_of_ne (t : Table α) {id id' : ℕ} (a : α) (hid : 0 < id) (h : id' ≠ id) :
    (t.put id a hid).get id' = t.get id' := by
  have hmem : ∀ b, (id', b) ∈ (t.put id a hid).rows ↔ (id', b) ∈ t.rows := by
    intro b
    rw [put, List.mem_append, List.mem_cons, List.mem_filter, List.mem_filter, decide_eq_true_eq, decide_eq_true_eq]
    constructor
    · rintro (hb | heq | hb)
      · exact hb.1
      · exact absurd (Prod.mk.inj heq).1 h
      · exact hb.1
    · intro hb
      rcases Nat.lt_or_gt_of_ne h with hlt | hgt
      · exact Or.inl ⟨hb, hlt⟩
      · exact Or.inr (Or.inr ⟨hb, hgt⟩)
  exact get_congr hmem

/-! ## Tables over time -/

/-- The later table has no row under a key that was free before it was given, and its other rows
come from rows of the earlier table as `r` says. -/
def Evolves (r : α → α → Prop) (t t' : Table α) : Prop :=
  t.nextID ≤ t'.nextID ∧ ∀ id a', t'.get id = some a' → id < t.nextID → ∃ a, t.get id = some a ∧ r a a'

section Evolves
variable {r : α → α → Prop} {t t' t'' : Table α}

theorem evolves_refl (hr : ∀ a, r a a) (t : Table α) : Evolves r t t :=
  ⟨Nat.le_refl _, fun _ a h _ => ⟨a, h, hr a⟩⟩

theorem Evolves.trans (hr : ∀ a b c, r a b → r b c → r a c) (h : Evolves r t t')
    (h' : Evolves r t' t'') : Evolves r t t'' := by
  refine ⟨h.1.trans h'.1, fun id a'' hget hid => ?_⟩
  obtain ⟨a', hget', ha'⟩ := h'.2 id a'' hget (Nat.lt_of_lt_of_le hid h.1)
  obtain ⟨a, hget, ha⟩ := h.2 id a' hget' hid
  exact ⟨a, hget, hr a a' a'' ha ha'⟩

theorem evolves_insert (hr : ∀ a, r a a) (t : Table α) (a : α) : Evolves r t (t.insert a) := by
  refine ⟨Nat.le_succ _, fun id b hget hid => ⟨b, ?_, hr b⟩⟩
  rw [get_insert_of_ne t a (Nat.ne_of_lt hid)] at hget
  exact hget

theorem evolves_delete (hr : ∀ a, r a a) (t : Table α) (id : ℕ) : Evolves r t (t.delete id) := by
  refine ⟨Nat.le_refl _, fun id' b hget _ => ⟨b, ?_, hr b⟩⟩
  by_cases hid : id' = id
  · rw [hid, get_delete_self] at hget
    cases hget
  · rw [get_delete_of_ne t hid] at hget
    exact hget

theorem evolves_put (hr : ∀ a, r a a) {id : ℕ} {a b : α} (hid : 0 < id) (hget : t.get id = some b)
    (hb : r b a) : Evolves r t (t.put id a hid) := by
  refine ⟨le_max_left _ _, fun id' a' hget' _ => ?_⟩
  by_cases heq : id' = id
  · subst heq
    rw [get_put_self, Option.some.injEq] at hget'
    exact ⟨b, hget, hget' ▸ hb⟩
  · rw [get_put_of_ne t a hid heq] at hget'
    exact ⟨a', hget', hr a'⟩

theorem Evolves.gone {id : ℕ} (h : Evolves r t t') (hid : id < t.nextID) (hget : t.get id = none) :
    t'.get id = none := by
  rw [Option.eq_none_iff_forall_ne_some]
  intro a' hget'
  obtain ⟨a, ha, -⟩ := h.2 id a' hget' hid
  exact absurd (ha.symm.trans hget) (Option.some_ne_none _)

end Evolves

end Table
end Portlyn.Lib
