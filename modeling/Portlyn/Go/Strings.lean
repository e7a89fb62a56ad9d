import Mathlib.Data.List.DropRight
import Mathlib.Data.List.Find
import Mathlib.Data.List.Infix

/-! # Go strings

A Go `string` is a sequence of bytes, not of characters. The functions of package `strings` that a
program uses with one-byte separators are list functions on bytes; `List.splitOn` and
`List.intercalate` are `strings.Split` and `strings.Join`. White space is the only place where
UTF-8 shows: `strings.TrimSpace` removes the encodings listed in `spaceUnits`, from both ends.
-/
namespace Portlyn.Go
set_option autoImplicit false

/-- A Go `string`. -/
abbrev GoString := List UInt8

def str (s : String) : GoString := s.toUTF8.toList

theorem toListLoop_eq (bytes : ByteArray) (i : ℕ) (acc : List UInt8) :
    ByteArray.toList.loop bytes i acc = acc.reverse ++ bytes.data.toList.drop i := by
  fun_induction ByteArray.toList.loop bytes i acc with
  | case1 i acc h ih =>
    have hi : i < bytes.data.toList.length := h
    have hget : bytes.get! i = bytes.data.toList[i] := getElem!_pos bytes.data i h
    rw [ih, List.drop_eq_getElem_cons hi, List.reverse_cons, List.append_assoc, List.singleton_append, hget]
  | case2 i acc h =>
    have hi : bytes.data.toList.length ≤ i := Nat.le_of_not_lt h
    rw [List.drop_eq_nil_of_le hi, List.append_nil]

theorem str_eq (s : String) : str s = s.toUTF8.data.toList := by
  rw [str, ByteArray.toList, toListLoop_eq, List.reverse_nil, List.nil_append, List.drop_zero]

/-! ## Single bytes -/

def slash : UInt8 := 47
def backslash : UInt8 := 92
def comma : UInt8 := 44
def semicolon : UInt8 := 59
def colon : UInt8 := 58
def dot : UInt8 := 46
def percent : UInt8 := 37

/-- `strings.ReplaceAll` with one-byte arguments. -/
def replaceByte (old new : UInt8) (s : GoString) : GoString :=
  s.map fun b => if b = old then new else b

/-- The part of `strings.Cut` before the separator. -/
def cutBefore (sep : UInt8) (s : GoString) : GoString := s.takeWhile (· ≠ sep)

/-- `strings.Cut` at the last separator (`strings.LastIndexByte`), `none` when there is none. -/
def cutLast (sep : UInt8) (s : GoString) : Option (GoString × GoString) :=
  if sep ∈ s then
    some ((s.reverse.dropWhile (· ≠ sep)).tail.reverse, (s.reverse.takeWhile (· ≠ sep)).reverse)
  else none

def hasPrefix (s p : GoString) : Bool := p.isPrefixOf s
def hasSuffix (s p : GoString) : Bool := p.isSuffixOf s

/-- `strings.TrimRight` with a one-byte cutset. -/
def trimRightByte (b : UInt8) (s : GoString) : GoString := s.rdropWhile (· = b)

/-- `strings.Trim` with a one-byte cutset. -/
def trimByte (b : UInt8) (s : GoString) : GoString := trimRightByte b (s.dropWhile (· = b))

@[simp] theorem hasPrefix_iff (s p : GoString) : hasPrefix s p = true ↔ p <+: s :=
  List.isPrefixOf_iff_prefix

theorem replaceByte_append (old new : UInt8) (s t : GoString) :
    replaceByte old new (s ++ t) = replaceByte old new s ++ replaceByte old new t := by
  simp [replaceByte]

variable {old : UInt8} {s : GoString}

theorem replaceByte_of_not_mem {new : UInt8} (h : old ∉ s) :
    replaceByte old new s = s := by
  induction s with
  | nil => rfl
  | cons b s ih =>
    have hb : b ≠ old := fun e => h (by simp [e])
    have hs : old ∉ s := fun e => h (by simp [e])
    have ih' := ih hs
    simp only [replaceByte, List.map_cons, if_neg hb] at ih' ⊢
    rw [ih']

theorem not_mem_replaceByte {new : UInt8} (h : old ≠ new) (s : GoString) :
    old ∉ replaceByte old new s := by
  intro hm
  obtain ⟨b, _, hb⟩ := List.mem_map.mp hm
  by_cases hbo : b = old
  · rw [if_pos hbo] at hb
    exact h hb.symm
  · rw [if_neg hbo] at hb
    exact hbo hb

theorem not_mem_cutBefore (sep : UInt8) (s : GoString) : sep ∉ cutBefore sep s := by
  intro h
  simpa using List.mem_takeWhile_imp h

variable {sep b : UInt8}

theorem mem_of_mem_cutBefore (h : b ∈ cutBefore sep s) : b ∈ s :=
  (List.takeWhile_prefix _).mem h

theorem cutBefore_cases (sep : UInt8) (s : GoString) :
    s = cutBefore sep s ∨ ∃ r, s = cutBefore sep s ++ sep :: r := by
  induction s with
  | nil => exact Or.inl rfl
  | cons b s ih =>
    by_cases hb : b = sep
    · exact Or.inr ⟨s, by simp [cutBefore, hb]⟩
    · have hcut : cutBefore sep (b :: s) = b :: cutBefore sep s := by simp [cutBefore, hb]
      rw [hcut]
      rcases ih with h | ⟨r, h⟩
      · exact Or.inl (by rw [← h])
      · exact Or.inr ⟨r, by rw [List.cons_append, ← h]⟩

/-! ## Non-empty parts -/

/-- The non-empty parts between separators: `strings.FieldsFunc` on one byte, and the loop
`for _, part := range strings.Split(s, sep) { if part != "" { … } }`. -/
def fields (sep : UInt8) (s : GoString) : List GoString := (s.splitOn sep).filter (· ≠ [])

@[simp] theorem fields_nil (sep : UInt8) : fields sep [] = [] := by simp [fields]

@[simp] theorem fields_append_sep (sep : UInt8) (s t : GoString) :
    fields sep (s ++ sep :: t) = fields sep s ++ fields sep t := by
  rw [fields, List.splitOn_append_cons_self, List.filter_append]
  rfl

@[simp] theorem fields_cons_sep (sep : UInt8) (t : GoString) :
    fields sep (sep :: t) = fields sep t := by
  simpa using fields_append_sep sep [] t

theorem fields_of_not_mem (hs : s ≠ []) (h : sep ∉ s) :
    fields sep s = [s] := by
  rw [fields, List.splitOn_eq_singleton h]
  simp [hs]

theorem cutBefore_mem_fields (h : cutBefore sep s ≠ []) :
    cutBefore sep s ∈ fields sep s := by
  have hf := fields_of_not_mem h (not_mem_cutBefore sep s)
  rcases cutBefore_cases sep s with hs | ⟨r, hs⟩
  · rw [← hs] at hf ⊢
    simp [hf]
  · have hs' : fields sep s = fields sep (cutBefore sep s) ++ fields sep r := by
      conv_lhs => rw [hs]
      exact fields_append_sep sep _ r
    rw [hs', hf]
    simp

theorem flatten_fields (sep : UInt8) (s : GoString) :
    (fields sep s).flatten = s.filter (· ≠ sep) := by
  have hff : ∀ ls : List GoString, (ls.filter (· ≠ [])).flatten = ls.flatten := by
    intro ls
    induction ls with
    | nil => rfl
    | cons l ls ih =>
      cases l with
      | nil => simpa using ih
      | cons b l => simpa using ih
  rw [fields, hff]
  induction s with
  | nil => simp
  | cons b s ih =>
    rw [List.splitOn_cons_eq_if_modifyHead]
    by_cases hb : b = sep
    · subst hb
      simpa using ih
    · obtain ⟨l, ls, hl⟩ := List.exists_cons_of_ne_nil (List.splitOn_ne_nil sep s)
      rw [hl] at ih ⊢
      simp only [List.flatten_cons] at ih
      simp [hb, ih]

variable {part : GoString}

theorem mem_fields_ne_nil (h : part ∈ fields sep s) : part ≠ [] := by
  simpa using (List.mem_filter.mp h).2

theorem mem_of_mem_fields (h : part ∈ fields sep s) (hb : b ∈ part) :
    b ∈ s ∧ b ≠ sep := by
  have hm : b ∈ (fields sep s).flatten := List.mem_flatten.mpr ⟨part, h, hb⟩
  rw [flatten_fields] at hm
  simpa using hm

theorem not_mem_of_mem_splitOn (h : part ∈ s.splitOn sep) : sep ∉ part := by
  intro hsep
  have hfield : part ∈ fields sep s :=
    List.mem_filter.mpr ⟨h, decide_eq_true (List.ne_nil_of_mem hsep)⟩
  exact (mem_of_mem_fields hfield hsep).2 rfl

/-- The parts, each after its own separator: `"/" + strings.Join(parts, "/")` without the special
case of the empty list. -/
def joinParts (sep : UInt8) (parts : List GoString) : GoString := parts.flatMap (sep :: ·)

@[simp] theorem joinParts_nil (sep : UInt8) : joinParts sep [] = [] := rfl

@[simp] theorem joinParts_cons (sep : UInt8) (part : GoString) (parts : List GoString) :
    joinParts sep (part :: parts) = sep :: (part ++ joinParts sep parts) := rfl

theorem joinParts_append (sep : UInt8) (xs ys : List GoString) :
    joinParts sep (xs ++ ys) = joinParts sep xs ++ joinParts sep ys := List.flatMap_append

variable {parts : List GoString}

theorem intercalate_concat (sep x : GoString) (h : parts ≠ []) :
    sep.intercalate (parts ++ [x]) = sep.intercalate parts ++ sep ++ x := by
  induction parts with
  | nil => exact absurd rfl h
  | cons s parts ih =>
    cases parts with
    | nil => simp [List.intercalate_cons_cons]
    | cons t parts =>
      have hrec := ih (by simp)
      rw [List.cons_append] at hrec ⊢
      rw [List.cons_append, List.intercalate_cons_cons, hrec]
      simp

theorem cons_intercalate (sep : UInt8) (h : parts ≠ []) :
    sep :: [sep].intercalate parts = joinParts sep parts := by
  induction parts with
  | nil => exact absurd rfl h
  | cons part parts ih =>
    cases parts with
    | nil => simp
    | cons part' parts =>
      rw [joinParts_cons, ← ih (by simp)]
      simp

theorem fields_joinParts (h : ∀ part ∈ parts, part ≠ [] ∧ sep ∉ part) (t : GoString) :
    fields sep (joinParts sep parts ++ sep :: t) = parts ++ fields sep t := by
  induction parts with
  | nil => simp
  | cons part parts ih =>
    obtain ⟨hne, hsep⟩ := h part (by simp)
    have ih' := ih fun q hq => h q (by simp [hq])
    rw [joinParts_cons, List.cons_append, fields_cons_sep, List.append_assoc]
    cases parts with
    | nil => simp [fields_of_not_mem hne hsep]
    | cons q qs =>
      rw [joinParts_cons, List.cons_append] at ih' ⊢
      rw [fields_append_sep, fields_of_not_mem hne hsep]
      rw [fields_cons_sep] at ih'
      rw [ih']
      rfl

theorem fields_joinParts_self (h : ∀ part ∈ parts, part ≠ [] ∧ sep ∉ part) :
    fields sep (joinParts sep parts) = parts := by
  have hf := fields_joinParts h []
  simpa using hf

theorem fields_intercalate (sep : UInt8) (parts : List GoString) :
    fields sep ([sep].intercalate parts) = parts.flatMap (fields sep) := by
  induction parts with
  | nil => simp
  | cons part parts ih =>
    cases parts with
    | nil => simp
    | cons part' parts =>
      rw [List.intercalate_cons_cons, List.append_assoc, List.singleton_append, fields_append_sep, ih]
      rfl

theorem replaceByte_intercalate {new : UInt8} (h : sep ≠ old) (parts : List GoString) :
    replaceByte old new ([sep].intercalate parts) = [sep].intercalate (parts.map (replaceByte old new)) := by
  induction parts with
  | nil => rfl
  | cons part parts ih =>
    cases parts with
    | nil => simp
    | cons part' parts =>
      rw [List.intercalate_cons_cons, List.map_cons, List.map_cons, List.intercalate_cons_cons, ← List.map_cons,
        ← ih]
      simp [replaceByte, h]

theorem fields_replaceByte (h : sep ≠ old) (s : GoString) :
    fields sep (replaceByte old sep s) = (s.splitOn sep).flatMap fun part => fields sep (replaceByte old sep part) := by
  have hs : [sep].intercalate (s.splitOn sep) = s := List.intercalate_splitOn sep
  have hr := @replaceByte_intercalate old sep sep h (s.splitOn sep)
  rw [hs] at hr
  rw [hr, fields_intercalate, List.flatMap_map]

/-! ## White space -/

section Units
variable {α : Type} [DecidableEq α]

/-- Drop units from the front of a list for as long as one of them begins it. A fuel of the list's
length is enough (`stripUnits_fuel`) when no unit is empty. -/
def stripUnits (units : List (List α)) : ℕ → List α → List α
  | 0, s => s
  | n + 1, s =>
    match units.find? (·.isPrefixOf s) with
    | none => s
    | some u => stripUnits units n (s.drop u.length)

variable {units : List (List α)} {s : List α}

theorem find_unit {u : List α}
    (h : units.find? (·.isPrefixOf s) = some u) : u ∈ units ∧ u <+: s := by
  have hp := List.find?_some h
  exact ⟨List.mem_of_find?_eq_some h, List.isPrefixOf_iff_prefix.mp hp⟩

theorem find_unit_congr {t : List α}
    (h : ∀ u ∈ units, (u <+: s ↔ u <+: t)) :
    units.find? (·.isPrefixOf s) = units.find? (·.isPrefixOf t) := by
  apply List.find?_congr
  intro u hu
  rw [Bool.eq_iff_iff, List.isPrefixOf_iff_prefix, List.isPrefixOf_iff_prefix]
  exact h u hu

theorem stripUnits_spec (units : List (List α)) (n : ℕ) (s : List α) :
    ∃ us : List (List α), s = us.flatten ++ stripUnits units n s ∧ ∀ u ∈ us, u ∈ units := by
  induction n generalizing s with
  | zero => exact ⟨[], rfl, by simp⟩
  | succ n ih =>
    rw [stripUnits]
    cases hf : units.find? (·.isPrefixOf s) with
    | none => exact ⟨[], rfl, by simp⟩
    | some u =>
      obtain ⟨hmem, r, rfl⟩ := find_unit hf
      obtain ⟨us, hs, hus⟩ := ih r
      refine ⟨u :: us, ?_, List.forall_mem_cons.mpr ⟨hmem, hus⟩⟩
      simp only [List.drop_left, List.flatten_cons, List.append_assoc]
      rw [← hs]

theorem stripUnits_fuel (hne : ∀ u ∈ units, u ≠ []) (n m : ℕ) (s : List α)
    (hn : s.length ≤ n) (hm : s.length ≤ m) : stripUnits units n s = stripUnits units m s := by
  induction n generalizing m s with
  | zero =>
    have hs : s = [] := List.eq_nil_of_length_eq_zero (by omega)
    subst hs
    have hf : units.find? (·.isPrefixOf ([] : List α)) = none := by
      rw [List.find?_eq_none]
      intro u hu
      simpa using hne u hu
    cases m with
    | zero => rfl
    | succ m => simp [stripUnits, hf]
  | succ n ih =>
    cases m with
    | zero =>
      have hs : s = [] := List.eq_nil_of_length_eq_zero (by omega)
      subst hs
      have hf : units.find? (·.isPrefixOf ([] : List α)) = none := by
        rw [List.find?_eq_none]
        intro u hu
        simpa using hne u hu
      simp [stripUnits, hf]
    | succ m =>
      rw [stripUnits, stripUnits]
      cases hf : units.find? (·.isPrefixOf s) with
      | none => rfl
      | some u =>
        obtain ⟨hmem, hpre⟩ := find_unit hf
        have hpos : 0 < u.length := List.length_pos_iff.mpr (hne u hmem)
        exact ih m _ (by rw [List.length_drop]; omega) (by rw [List.length_drop]; omega)

theorem stripUnits_stop (hne : ∀ u ∈ units, u ≠ []) (n : ℕ) (s : List α)
    (hn : s.length ≤ n) : ∀ u ∈ units, ¬ u <+: stripUnits units n s := by
  induction n generalizing s with
  | zero =>
    have hs : s = [] := List.eq_nil_of_length_eq_zero (by omega)
    subst hs
    intro u hu hp
    exact hne u hu (List.prefix_nil.mp hp)
  | succ n ih =>
    rw [stripUnits]
    cases hf : units.find? (·.isPrefixOf s) with
    | none =>
      intro u hu hp
      have hno := List.find?_eq_none.mp hf u hu
      exact hno (List.isPrefixOf_iff_prefix.mpr hp)
    | some u =>
      obtain ⟨hmem, hpre⟩ := find_unit hf
      have hpos : 0 < u.length := List.length_pos_iff.mpr (hne u hmem)
      exact ih _ (by rw [List.length_drop]; omega)

theorem stripUnits_eq_self (h : ∀ u ∈ units, ¬ u <+: s) (n : ℕ) :
    stripUnits units n s = s := by
  cases n with
  | zero => rfl
  | succ n =>
    have hf : units.find? (·.isPrefixOf s) = none := by
      rw [List.find?_eq_none]
      intro u hu hp
      exact h u hu (List.isPrefixOf_iff_prefix.mp hp)
    simp [stripUnits, hf]

omit [DecidableEq α] in
theorem prefix_append_cons_iff {u t : List α} {sep : α} (h : sep ∉ u) :
    u <+: s ++ sep :: t ↔ u <+: s := by
  constructor
  · intro hp
    rcases List.prefix_or_prefix_of_prefix hp (List.prefix_append s (sep :: t)) with hu | ⟨v, hv⟩
    · exact hu
    · subst hv
      cases v with
      | nil => simp
      | cons b v =>
        have hb := List.prefix_append_right_inj s |>.mp hp
        rw [List.cons_prefix_cons] at hb
        exact absurd (by simp [hb.1] : sep ∈ s ++ b :: v) h
  · intro hp
    exact hp.trans (List.prefix_append _ _)

theorem stripUnits_append_cons {sep : α} (hsep : ∀ u ∈ units, sep ∉ u)
    (n : ℕ) (s t : List α) :
    stripUnits units n (s ++ sep :: t) = stripUnits units n s ++ sep :: t := by
  induction n generalizing s with
  | zero => rfl
  | succ n ih =>
    have hcongr : units.find? (·.isPrefixOf (s ++ sep :: t)) = units.find? (·.isPrefixOf s) :=
      find_unit_congr fun u hu => prefix_append_cons_iff (hsep u hu)
    rw [stripUnits, stripUnits, hcongr]
    cases hf : units.find? (·.isPrefixOf s) with
    | none => rfl
    | some u =>
      have hlen := (find_unit hf).2.length_le
      have hd : (s ++ sep :: t).drop u.length = s.drop u.length ++ sep :: t :=
        List.drop_append_of_le_length hlen
      simp only [hd]
      exact ih _

end Units

/-- The UTF-8 encodings of the characters `unicode.IsSpace` accepts. -/
def spaceUnits : List GoString :=
  [[0x09], [0x0A], [0x0B], [0x0C], [0x0D], [0x20], [0xC2, 0x85], [0xC2, 0xA0], [0xE1, 0x9A, 0x80],
    [0xE2, 0x80, 0x80], [0xE2, 0x80, 0x81], [0xE2, 0x80, 0x82], [0xE2, 0x80, 0x83],
    [0xE2, 0x80, 0x84],
    [0xE2, 0x80, 0x85], [0xE2, 0x80, 0x86], [0xE2, 0x80, 0x87], [0xE2, 0x80, 0x88],
    [0xE2, 0x80, 0x89],
    [0xE2, 0x80, 0x8A], [0xE2, 0x80, 0xA8], [0xE2, 0x80, 0xA9], [0xE2, 0x80, 0xAF],
    [0xE2, 0x81, 0x9F],
    [0xE3, 0x80, 0x80]]

def trimLeftSpace (s : GoString) : GoString := stripUnits spaceUnits s.length s

def trimRightSpace (s : GoString) : GoString :=
  (stripUnits (spaceUnits.map List.reverse) s.length s.reverse).reverse

def trimSpace (s : GoString) : GoString := trimRightSpace (trimLeftSpace s)

def NotSpace (b : UInt8) : Prop := ∀ u ∈ spaceUnits, b ∉ u

instance (b : UInt8) : Decidable (NotSpace b) :=
  inferInstanceAs (Decidable (∀ u ∈ spaceUnits, b ∉ u))

theorem notSpace_of_visible (h : 0x20 < b.toNat) (h' : b.toNat < 0x80) : NotSpace b := by
  have hunits : ∀ u ∈ spaceUnits, ∀ c ∈ u, c.toNat ≤ 0x20 ∨ 0x80 ≤ c.toNat := by decide +kernel
  intro u hu hb
  have hc := hunits u hu b hb
  omega

theorem notSpace_slash : NotSpace slash := by decide
theorem notSpace_backslash : NotSpace backslash := by decide
theorem notSpace_comma : NotSpace comma := by decide
theorem spaceUnits_ne_nil : ∀ u ∈ spaceUnits, u ≠ [] := by decide

theorem NotSpace.reverse (h : NotSpace b) : ∀ u ∈ spaceUnits.map List.reverse, b ∉ u := by
  intro u hu
  obtain ⟨v, hv, rfl⟩ := List.mem_map.mp hu
  rw [List.mem_reverse]
  exact h v hv

theorem reverse_spaceUnits_ne_nil : ∀ u ∈ spaceUnits.map List.reverse, u ≠ [] := by
  intro u hu
  obtain ⟨v, hv, rfl⟩ := List.mem_map.mp hu
  rw [Ne, List.reverse_eq_nil_iff]
  exact spaceUnits_ne_nil v hv

theorem NotSpace.not_mem_flatten (h : NotSpace b) {us : List GoString}
    (hus : ∀ u ∈ us, u ∈ spaceUnits) : b ∉ us.flatten := by
  intro hb
  obtain ⟨u, hu, hbu⟩ := List.mem_flatten.mp hb
  exact h u (hus u hu) hbu

theorem trimLeftSpace_spec (s : GoString) :
    ∃ us : List GoString, s = us.flatten ++ trimLeftSpace s ∧ ∀ u ∈ us, u ∈ spaceUnits :=
  stripUnits_spec spaceUnits s.length s

theorem trimRightSpace_spec (s : GoString) :
    ∃ us : List GoString, s = trimRightSpace s ++ us.flatten ∧ ∀ u ∈ us, u ∈ spaceUnits := by
  obtain ⟨us, hs, hus⟩ := stripUnits_spec (spaceUnits.map List.reverse) s.length s.reverse
  refine ⟨(us.map List.reverse).reverse, ?_, ?_⟩
  · have h := congrArg List.reverse hs
    rw [List.reverse_reverse, List.reverse_append, List.reverse_flatten] at h
    exact h
  · intro u hu
    obtain ⟨v, hv, rfl⟩ := List.mem_map.mp (List.mem_reverse.mp hu)
    obtain ⟨w, hw, rfl⟩ := List.mem_map.mp (hus v hv)
    rw [List.reverse_reverse]
    exact hw

theorem trimSpace_spec (s : GoString) :
    ∃ l r, s = l ++ trimSpace s ++ r ∧ (∀ b, NotSpace b → b ∉ l) ∧ ∀ b, NotSpace b → b ∉ r := by
  obtain ⟨l, hl, hbl⟩ := trimLeftSpace_spec s
  obtain ⟨r, hr, hbr⟩ := trimRightSpace_spec (trimLeftSpace s)
  refine ⟨l.flatten, r.flatten, ?_, fun b hb => hb.not_mem_flatten hbl,
    fun b hb => hb.not_mem_flatten hbr⟩
  rw [List.append_assoc, trimSpace, ← hr]
  exact hl

theorem length_trimSpace_le (s : GoString) : (trimSpace s).length ≤ s.length := by
  obtain ⟨us, vs, hs, -⟩ := trimSpace_spec s
  have hlength := congrArg List.length hs
  rw [List.length_append, List.length_append] at hlength
  omega

theorem mem_of_mem_trimSpace (h : b ∈ trimSpace s) : b ∈ s := by
  obtain ⟨l, r, hs, -, -⟩ := trimSpace_spec s
  rw [hs]
  simp [h]

theorem trimLeftSpace_append_cons (h : NotSpace sep) (s t : GoString) :
    trimLeftSpace (s ++ sep :: t) = trimLeftSpace s ++ sep :: t := by
  rw [trimLeftSpace, stripUnits_append_cons h,
    stripUnits_fuel spaceUnits_ne_nil _ s.length s (by simp) le_rfl]
  rfl

theorem trimRightSpace_append_cons (h : NotSpace sep) (s t : GoString) :
    trimRightSpace (s ++ sep :: t) = s ++ sep :: trimRightSpace t := by
  have hrev : (s ++ sep :: t).reverse = t.reverse ++ sep :: s.reverse := by simp
  rw [trimRightSpace, hrev, stripUnits_append_cons h.reverse,
    stripUnits_fuel reverse_spaceUnits_ne_nil _ t.length t.reverse (by simp; omega) (by simp)]
  simp [trimRightSpace]

theorem trimSpace_append_cons (h : NotSpace sep) (s t : GoString) :
    trimSpace (s ++ sep :: t) = trimLeftSpace s ++ sep :: trimRightSpace t := by
  rw [trimSpace, trimLeftSpace_append_cons h, trimRightSpace_append_cons h]

theorem trimRightSpace_eq_self_iff (s : GoString) :
    trimRightSpace s = s ↔ ∀ u ∈ spaceUnits, ¬ u <:+ s := by
  constructor
  · intro h u hu hsuf
    have hstop := stripUnits_stop reverse_spaceUnits_ne_nil s.length s.reverse (by simp)
    have hrev := congrArg List.reverse h
    rw [trimRightSpace, List.reverse_reverse] at hrev
    rw [hrev] at hstop
    exact hstop u.reverse (List.mem_map_of_mem hu) (List.reverse_prefix.mpr hsuf)
  · intro h
    rw [trimRightSpace, stripUnits_eq_self, List.reverse_reverse]
    intro u hu
    obtain ⟨v, hv, rfl⟩ := List.mem_map.mp hu
    rw [List.reverse_prefix]
    exact h v hv

theorem trimSpace_trimSpace (s : GoString) : trimSpace (trimSpace s) = trimSpace s := by
  have hleft : trimLeftSpace (trimSpace s) = trimSpace s := by
    refine stripUnits_eq_self (fun u hu hpre => ?_) (trimSpace s).length
    obtain ⟨r, hr, -⟩ := trimRightSpace_spec (trimLeftSpace s)
    have hstop := stripUnits_stop spaceUnits_ne_nil s.length s le_rfl
    refine hstop u hu ?_
    have happ : stripUnits spaceUnits s.length s = trimSpace s ++ r.flatten := hr
    rw [happ]
    exact hpre.trans (List.prefix_append _ _)
  have hright : trimRightSpace (trimSpace s) = trimSpace s := by
    refine (trimRightSpace_eq_self_iff _).mpr fun u hu hsuf => ?_
    have hstop := stripUnits_stop reverse_spaceUnits_ne_nil (trimLeftSpace s).length (trimLeftSpace s).reverse (by simp)
    refine hstop u.reverse (List.mem_map_of_mem hu) ?_
    have hrev : (trimSpace s).reverse = stripUnits (spaceUnits.map List.reverse)
      (trimLeftSpace s).length (trimLeftSpace s).reverse :=
      List.reverse_reverse _
    rw [← hrev]
    exact List.reverse_prefix.mpr hsuf
  calc trimSpace (trimSpace s) = trimRightSpace (trimLeftSpace (trimSpace s)) := rfl
    _ = trimRightSpace (trimSpace s) := by rw [hleft]
    _ = trimSpace s := hright

theorem trimRightSpace_eq_self_of_notSpace (h : ∀ b ∈ s, NotSpace b) : trimRightSpace s = s := by
  rw [trimRightSpace_eq_self_iff]
  intro u hu hsuf
  obtain ⟨b, hb⟩ := List.exists_mem_of_ne_nil u (spaceUnits_ne_nil u hu)
  exact h b (hsuf.subset hb) u hu hb

theorem trimSpace_eq_self_of_notSpace (h : ∀ b ∈ s, NotSpace b) : trimSpace s = s := by
  have hleft : trimLeftSpace s = s := by
    refine stripUnits_eq_self (fun u hu hunit => ?_) _
    obtain ⟨b, hb⟩ := List.exists_mem_of_ne_nil u (spaceUnits_ne_nil u hu)
    exact h b (hunit.subset hb) u hu hb
  rw [trimSpace, hleft]
  exact trimRightSpace_eq_self_of_notSpace h

theorem trimRightSpace_blank_cons (hne : s ≠ []) (h : trimRightSpace s = s) :
    trimRightSpace (0x20 :: s) = 0x20 :: s := by
  have hunit : ∀ u ∈ spaceUnits, u.head? = some 0x20 → u = [0x20] := by decide
  rw [trimRightSpace_eq_self_iff] at h ⊢
  intro u hu hsuf
  rcases List.suffix_cons_iff.mp hsuf with he | hs
  · have hone := hunit u hu (by rw [he]; rfl)
    rw [he, List.cons.injEq] at hone
    exact hne hone.2
  · exact h u hu hs

theorem trimLeftSpace_blank_cons (s : GoString) : trimLeftSpace (0x20 :: s) = trimLeftSpace s := by
  have hf : spaceUnits.find? (·.isPrefixOf ((0x20 : UInt8) :: s)) = some [0x20] := by
    simp [spaceUnits, List.find?, List.isPrefixOf]
  rfl

theorem trim_eq_self_of_trimSpace (h : trimSpace s = s) :
    trimLeftSpace s = s ∧ trimRightSpace s = s := by
  obtain ⟨l, hl, -⟩ := trimLeftSpace_spec s
  obtain ⟨r, hr, -⟩ := trimRightSpace_spec (trimLeftSpace s)
  have h1 := congrArg List.length hl
  have h2 := congrArg List.length hr
  have h3 : (trimRightSpace (trimLeftSpace s)).length = s.length := congrArg List.length h
  simp only [List.length_append] at h1 h2
  have hl0 : l.flatten = [] := List.eq_nil_of_length_eq_zero (by omega)
  rw [hl0] at hl
  have hleft : trimLeftSpace s = s := hl.symm
  refine ⟨hleft, ?_⟩
  rw [trimSpace, hleft] at h
  exact h

theorem trimSpace_ne_nil (hne : s ≠ []) (h : trimRightSpace s = s) : trimSpace s ≠ [] := by
  intro hnil
  obtain ⟨l, hl, hlu⟩ := trimLeftSpace_spec s
  obtain ⟨r, hr, hru⟩ := trimRightSpace_spec (trimLeftSpace s)
  have hright : trimRightSpace (trimLeftSpace s) = [] := hnil
  rw [hright, List.nil_append] at hr
  rw [hr, ← List.flatten_append] at hl
  have hlast : l ++ r ≠ [] := by
    intro heq
    rw [heq] at hl
    exact hne hl
  have hunit : (l ++ r).getLast hlast ∈ spaceUnits := by
    rcases List.mem_append.mp (List.getLast_mem hlast) with hmem | hmem
    · exact hlu _ hmem
    · exact hru _ hmem
  refine (trimRightSpace_eq_self_iff s).mp h _ hunit ⟨(l ++ r).dropLast.flatten, ?_⟩
  conv_rhs => rw [hl, ← List.dropLast_append_getLast hlast, List.flatten_append,
    List.flatten_singleton]

/-! ## Hexadecimal digits -/

def lowerHex (d : ℕ) : UInt8 := UInt8.ofNat (if d < 10 then 48 + d else 87 + d)

end Portlyn.Go
