import Mathlib.Data.List.Forall2
import Mathlib.Data.List.Induction

/-! # Hash chains

A list of entries is a chain from a starting hash when every entry is linked to the hash before it.
What a link is stays open: `link p a` says that `a` may follow the hash `p`, and `hash a` is the
hash the next entry has to follow. -/
namespace Portlyn.Lib.HashChain
set_option autoImplicit false

variable {α β : Type} (link : β → α → Prop) (hash : α → β)

def Chain : β → List α → Prop
  | _, [] => True
  | p, a :: l => link p a ∧ Chain (hash a) l

def endOf (p : β) (l : List α) : β := l.foldl (fun _ a => hash a) p

@[simp] theorem endOf_nil (p : β) : endOf hash p [] = p := rfl

@[simp] theorem endOf_cons (p : β) (a : α) (l : List α) : endOf hash p (a :: l) = endOf hash (hash a) l := rfl

theorem endOf_append (p : β) (l k : List α) : endOf hash p (l ++ k) = endOf hash (endOf hash p l) k :=
  List.foldl_append

theorem endOf_concat (p : β) (l : List α) (a : α) : endOf hash p (l ++ [a]) = hash a := by
  rw [endOf_append]
  rfl

variable {l : List α}

theorem endOf_of_ne_nil (p q : β) (h : l ≠ []) : endOf hash p l = endOf hash q l := by
  cases l with
  | nil => exact absurd rfl h
  | cons a l => rfl

theorem chain_append (p : β) (l k : List α) :
    Chain link hash p (l ++ k) ↔ Chain link hash p l ∧ Chain link hash (endOf hash p l) k := by
  induction l generalizing p with
  | nil => simp [Chain]
  | cons a l ih => rw [List.cons_append, Chain, Chain, ih, endOf_cons, and_assoc]

theorem chain_concat (p : β) (l : List α) (a : α) :
    Chain link hash p (l ++ [a]) ↔ Chain link hash p l ∧ link (endOf hash p l) a := by
  rw [chain_append, Chain, Chain, and_true]

theorem chain_strengthen {P : β → Prop} {Q : α → Prop} (hstep : ∀ p a, link p a → P (hash a))
    {p : β} (hp : P p) (hl : Chain link hash p l) (hQ : ∀ a ∈ l, Q a) :
    Chain (fun p a => P p ∧ Q a ∧ link p a) hash p l := by
  induction l generalizing p with
  | nil => trivial
  | cons a l ih =>
    refine ⟨⟨hp, hQ a (by simp), hl.1⟩, ?_⟩
    exact ih (hstep p a hl.1) hl.2 fun b hb => hQ b (by simp [hb])

theorem forall2_of_endOf_eq {link' : β → α → Prop} {start : β} {R : α → α → Prop}
    (hstep : ∀ p q a b, link p a → link' q b → hash a = hash b → p = q ∧ R a b)
    (hstart : ∀ p a, link p a → hash a ≠ start) (hstart' : ∀ p a, link' p a → hash a ≠ start)
    {k : List α} (hl : Chain link hash start l) (hk : Chain link' hash start k)
    (hend : endOf hash start l = endOf hash start k) : List.Forall₂ R l k := by
  induction l using List.reverseRecOn generalizing k with
  | nil =>
    induction k using List.reverseRecOn with
    | nil => exact List.Forall₂.nil
    | append_singleton k b _ =>
      rw [endOf_concat] at hend
      exact absurd hend.symm (hstart' _ b ((chain_concat link' hash _ _ _).mp hk).2)
  | append_singleton l a ih =>
    obtain ⟨hl, ha⟩ := (chain_concat link hash _ _ _).mp hl
    induction k using List.reverseRecOn with
    | nil =>
      rw [endOf_concat] at hend
      exact absurd hend (hstart _ a ha)
    | append_singleton k b _ =>
      obtain ⟨hk, hb⟩ := (chain_concat link' hash _ _ _).mp hk
      rw [endOf_concat, endOf_concat] at hend
      obtain ⟨hpq, hab⟩ := hstep _ _ a b ha hb hend
      exact List.rel_append (ih hl hk hpq) (List.Forall₂.cons hab List.Forall₂.nil)

theorem nodup_prev {start : β} {prev : α → β} (hprev : ∀ p a, link p a → prev a = p)
    (hstep : ∀ p q a b, link p a → link q b → hash a = hash b → p = q) (hstart : ∀ p a, link p a → hash a ≠ start)
    (hl : Chain link hash start l) : (l.map prev).Nodup := by
  induction l using List.reverseRecOn with
  | nil => exact List.nodup_nil
  | append_singleton l a ih =>
    obtain ⟨hl, ha⟩ := (chain_concat link hash _ _ _).mp hl
    rw [List.map_append, List.nodup_append]
    refine ⟨ih hl, List.pairwise_singleton _ _, ?_⟩
    rintro _ hmap _ hc rfl
    rw [List.map_singleton, List.mem_singleton, hprev _ a ha] at hc
    obtain ⟨b, hmem, hb⟩ := List.mem_map.mp hmap
    obtain ⟨pre, post, rfl⟩ := List.append_of_mem hmem
    obtain ⟨hpre, hlink, -⟩ := (chain_append link hash _ _ _).mp hl
    rw [hprev _ b hlink] at hb
    -- two parts of one chain with the same end have the same length
    have hrel := forall2_of_endOf_eq link hash
      (fun p q a b h1 h2 h3 => ⟨hstep p q a b h1 h2 h3, trivial⟩) hstart hstart hpre hl (hb.trans hc)
    have hlen := hrel.length_eq
    rw [List.length_append, List.length_cons] at hlen
    omega

theorem chain_exchange {p : β} {k : List α} {a b : α} (h : Chain link hash p (l ++ a :: k))
    (hb : link (endOf hash p l) b) (hab : hash b = hash a) :
    Chain link hash p (l ++ b :: k) ∧ endOf hash p (l ++ b :: k) = endOf hash p (l ++ a :: k) := by
  rw [chain_append] at h ⊢
  rw [endOf_append, endOf_append, endOf_cons, hab]
  refine ⟨⟨h.1, hb, ?_⟩, rfl⟩
  rw [hab]
  exact h.2.2

end Portlyn.Lib.HashChain
