import Mathlib.Logic.Function.Basic
import Mathlib.Data.Nat.Notation
import Mathlib.Tactic.SplitIfs

/-! # Caches of stamped values

A source counts how often each of its objects was changed, and what is read from it carries the
count of that moment as its stamp. When a cache is cleared of an object, its floor for the object is
raised to the count that the source has then. A cache that is above its floors holds nothing that
was read before the changes it was cleared for. -/
namespace Portlyn.Lib
set_option autoImplicit false

variable {κ ν ω : Type} {owner : κ → ν → ω} {stamp : ν → ℕ} {floor : ω → ℕ}
  {held held' : κ → Option ν}

def AboveFloor (owner : κ → ν → ω) (stamp : ν → ℕ) (floor : ω → ℕ) (held : κ → Option ν) : Prop :=
  ∀ k v, held k = some v → floor (owner k v) ≤ stamp v

theorem aboveFloor_empty : AboveFloor owner stamp floor fun _ => none := fun _ _ h => nomatch h

theorem AboveFloor.sub (h : AboveFloor owner stamp floor held) (hsub : ∀ k v, held' k = some v → held k = some v) :
    AboveFloor owner stamp floor held' := fun k v hv => h k v (hsub k v hv)

theorem AboveFloor.insert [DecidableEq κ] (h : AboveFloor owner stamp floor held) {k : κ} {v : ν}
    (hv : floor (owner k v) ≤ stamp v) : AboveFloor owner stamp floor (Function.update held k (some v)) := by
  intro k' v' hheld
  by_cases hk : k' = k
  · subst hk
    rw [Function.update_self, Option.some.injEq] at hheld
    rw [← hheld]
    exact hv
  · rw [Function.update_of_ne hk] at hheld
    exact h k' v' hheld

theorem AboveFloor.clear [DecidableEq ω] (h : AboveFloor owner stamp floor held) {o : ω} (n : ℕ)
    (hsub : ∀ k v, held' k = some v → held k = some v ∧ owner k v ≠ o) :
    AboveFloor owner stamp (Function.update floor o n) held' := by
  intro k v hheld
  obtain ⟨hheld, howner⟩ := hsub k v hheld
  rw [Function.update_of_ne howner]
  exact h k v hheld

theorem le_update_floor [DecidableEq ω] {n : ℕ} {o : ω} (h : floor o ≤ n) (o' : ω) :
    floor o' ≤ Function.update floor o n o' := by
  by_cases ho : o' = o
  · subst ho
    rw [Function.update_self]
    exact h
  · exact Nat.le_of_eq (Function.update_of_ne ho ..).symm

end Portlyn.Lib
