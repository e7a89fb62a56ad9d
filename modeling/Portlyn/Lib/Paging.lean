import Mathlib.Data.List.Basic

/-! # Reading a sorted table in pages

Rows are kept in the order of their keys. A reader asks for the first `n` rows after a key and goes
on after the key of the last row it got. -/
namespace Portlyn.Lib.Paging
set_option autoImplicit false

variable {α : Type} (key : α → ℕ)

def Sorted (rows : List α) : Prop := rows.Pairwise fun a b => key a < key b

def after (k : ℕ) (rows : List α) : List α := rows.filter fun a => k < key a

/-- `WHERE key > k ORDER BY key LIMIT n`. -/
def page (n k : ℕ) (rows : List α) : List α := (after key k rows).take n

def lastKey (k : ℕ) (rows : List α) : ℕ := (rows.getLast?.map key).getD k

@[simp] theorem lastKey_nil (k : ℕ) : lastKey key k [] = k := rfl

@[simp] theorem lastKey_concat (k : ℕ) (rows : List α) (a : α) : lastKey key k (rows ++ [a]) = key a := by
  simp [lastKey]

theorem lastKey_append (k : ℕ) (rows rest : List α) :
    lastKey key k (rows ++ rest) = lastKey key (lastKey key k rows) rest := by
  rcases List.eq_nil_or_concat' rest with rfl | ⟨init, last, rfl⟩
  · rw [List.append_nil, lastKey_nil]
  · rw [← List.append_assoc, lastKey_concat, lastKey_concat]

variable {k : ℕ} {rows : List α}

theorem after_eq_self (h : ∀ a ∈ rows, k < key a) : after key k rows = rows := by
  rw [after, List.filter_eq_self]
  exact fun a ha => decide_eq_true (h a ha)

theorem after_eq_nil (h : ∀ a ∈ rows, key a ≤ k) : after key k rows = [] := by
  rw [after, List.filter_eq_nil_iff]
  intro a ha
  have := h a ha
  simp only [decide_eq_true_eq]
  omega

theorem after_append (k : ℕ) (rows rest : List α) : after key k (rows ++ rest) = after key k rows ++ after key k rest :=
  List.filter_append ..

theorem after_after {m : ℕ} (h : k ≤ m) (rows : List α) : after key m (after key k rows) = after key m rows := by
  rw [after, after, List.filter_filter]
  apply List.filter_congr
  intro a _
  by_cases hm : m < key a
  · have hk : k < key a := by omega
    simp [hm, hk]
  · simp [hm]

theorem Sorted.after (h : Sorted key rows) (k : ℕ) : Sorted key (after key k rows) :=
  List.Pairwise.filter _ h

theorem Sorted.le_lastKey {rest : List α} (h : Sorted key (rows ++ rest)) (hne : rows ≠ []) :
    (∀ a ∈ rows, key a ≤ lastKey key k rows) ∧ ∀ a ∈ rest, lastKey key k rows < key a := by
  obtain ⟨init, last, rfl⟩ := (List.eq_nil_or_concat' rows).resolve_left hne
  obtain ⟨hrows, -, hrest⟩ := List.pairwise_append.mp h
  rw [lastKey_concat]
  refine ⟨fun a ha => ?_, fun a ha => hrest last (by simp) a ha⟩
  rcases List.mem_append.mp ha with ha | ha
  · exact Nat.le_of_lt ((List.pairwise_append.mp hrows).2.2 a ha last (by simp))
  · exact Nat.le_of_eq (congrArg key (List.mem_singleton.mp ha))

theorem lt_of_mem_page {n : ℕ} {a : α} (h : a ∈ page key n k rows) : k < key a :=
  of_decide_eq_true (List.mem_filter.mp (List.mem_of_mem_take h)).2

theorem exists_page_append (n k : ℕ) (rows : List α) :
    ∃ rest, after key k rows = page key n k rows ++ rest ∧ ((page key n k rows).length < n → rest = []) := by
  refine ⟨(after key k rows).drop n, (List.take_append_drop n _).symm, fun hlt => ?_⟩
  rw [page, List.length_take] at hlt
  rw [List.drop_eq_nil_iff]
  omega

theorem after_eq_page_append (h : Sorted key rows) {n : ℕ} (hne : page key n k rows ≠ []) :
    after key k rows = page key n k rows ++ after key (lastKey key k (page key n k rows)) rows := by
  have hsplit : page key n k rows ++ (after key k rows).drop n = after key k rows := List.take_append_drop n _
  have hs := h.after key k
  rw [← hsplit] at hs
  obtain ⟨hle, hlt⟩ := hs.le_lastKey key (k := k) hne
  have hk : k ≤ lastKey key k (page key n k rows) := by
    obtain ⟨a, ha⟩ := List.exists_mem_of_ne_nil _ hne
    have hka := lt_of_mem_page key ha
    have := hle a ha
    omega
  have hrest : after key (lastKey key k (page key n k rows)) rows = (after key k rows).drop n := by
    rw [← after_after key hk, ← hsplit, after_append, after_eq_nil key hle, after_eq_self key hlt,
      List.nil_append, hsplit]
  rw [hrest, hsplit]

theorem length_after_lastKey_lt {n : ℕ} (hne : page key n k rows ≠ []) :
    (after key (lastKey key k (page key n k rows)) rows).length < (after key k rows).length := by
  obtain ⟨init, last, hlast⟩ := (List.eq_nil_or_concat' (page key n k rows)).resolve_left hne
  have hmem : last ∈ page key n k rows := hlast ▸ List.mem_append_right _ (List.mem_singleton_self last)
  have hk := lt_of_mem_page key hmem
  rw [hlast, lastKey_concat, ← after_after key (Nat.le_of_lt hk)]
  refine List.length_filter_lt_length_iff_exists.mpr ⟨last, List.mem_of_mem_take hmem, ?_⟩
  simp

/-- What a reader that has come to `k` has passed. -/
def upTo (k : ℕ) (rows : List α) : List α := rows.filter fun a => key a ≤ k

theorem upTo_append (k : ℕ) (rows rest : List α) : upTo key k (rows ++ rest) = upTo key k rows ++ upTo key k rest :=
  List.filter_append ..

theorem upTo_eq_self (h : ∀ a ∈ rows, key a ≤ k) : upTo key k rows = rows := by
  rw [upTo, List.filter_eq_self]
  exact fun a ha => decide_eq_true (h a ha)

theorem upTo_eq_nil (h : ∀ a ∈ rows, k < key a) : upTo key k rows = [] := by
  rw [upTo, List.filter_eq_nil_iff]
  intro a ha
  have := h a ha
  simp only [decide_eq_true_eq]
  omega

theorem Sorted.upTo_append_after (h : Sorted key rows) (k : ℕ) :
    upTo key k rows ++ Paging.after key k rows = rows := by
  induction rows with
  | nil => rfl
  | cons a rows ih =>
    obtain ⟨hlt, hrows⟩ := List.pairwise_cons.mp h
    by_cases hk : key a ≤ k
    · have h1 : upTo key k (a :: rows) = a :: upTo key k rows := List.filter_cons_of_pos (decide_eq_true hk)
      have h2 : Paging.after key k (a :: rows) = Paging.after key k rows :=
        List.filter_cons_of_neg (by simpa using hk)
      rw [h1, h2, List.cons_append, ih hrows]
    · have hall : ∀ b ∈ a :: rows, k < key b := by
        intro b hb
        rcases List.mem_cons.mp hb with rfl | hb
        · omega
        · have := hlt b hb
          omega
      rw [upTo_eq_nil key hall, after_eq_self key hall, List.nil_append]

theorem Sorted.upTo_lastKey (h : Sorted key rows) {n : ℕ} (hne : page key n k rows ≠ []) :
    upTo key (lastKey key k (page key n k rows)) rows = upTo key k rows ++ page key n k rows := by
  have h1 := h.upTo_append_after key k
  have h2 := h.upTo_append_after key (lastKey key k (page key n k rows))
  rw [after_eq_page_append key h hne, ← List.append_assoc] at h1
  exact List.append_cancel_right (h2.trans h1.symm)

end Portlyn.Lib.Paging
