import Portlyn.Go.Url

/-! # Requests of package `net/http`

A header is the list of its lines, in the order received and with the names in the canonical form
the server gives them. -/
namespace Portlyn.Go
set_option autoImplicit false

/-! ## Headers -/

def validHeaderFieldByte (b : UInt8) : Bool :=
  0x30 ≤ b && b ≤ 0x39 || 0x41 ≤ b && b ≤ 0x5A || 0x5E ≤ b && b ≤ 0x7A || 0x23 ≤ b && b ≤ 0x27 ||
    b = 0x21 || b = 0x2A || b = 0x2B || b = 0x2D || b = 0x2E || b = 0x7C || b = 0x7E

/-- The loop of `canonicalMIMEHeaderKey`: a capital at the start and after each dash. -/
def canonicalFrom : Bool → GoString → GoString
  | _, [] => []
  | upper, c :: s =>
    let c := if upper && 0x61 ≤ c && c ≤ 0x7A then c - 0x20 else if !upper && 0x41 ≤ c && c ≤ 0x5A then c + 0x20 else c
    c :: canonicalFrom (c = 0x2D) s

def canonicalHeaderKey (name : GoString) : GoString :=
  if name.all validHeaderFieldByte then canonicalFrom true name else name

abbrev Header := List (GoString × GoString)

namespace Header

def values (h : Header) (name : GoString) : List GoString :=
  (h.filter fun line => line.1 = name).map Prod.snd

def get (h : Header) (name : GoString) : GoString := (h.values name).headD []

def del (h : Header) (name : GoString) : Header := h.filter fun line => line.1 ≠ name

def set (h : Header) (name value : GoString) : Header := h.del name ++ [(name, value)]

def select (p : GoString → Bool) (h : Header) : Header := h.filter fun line => p line.1

def lines (name : GoString) (values : List GoString) : Header := values.map fun v => (name, v)

theorem values_append (h k : Header) (name : GoString) :
    (h ++ k).values name = h.values name ++ k.values name := by
  simp [values]

theorem values_del_self (h : Header) (name : GoString) : (h.del name).values name = [] := by
  simp [values, del]

variable {name other : GoString}

theorem values_del_of_ne (h : Header) (hne : name ≠ other) :
    (h.del other).values name = h.values name := by
  simp only [values, del, List.filter_filter]
  congr 1
  apply List.filter_congr
  intro line _
  by_cases hl : line.1 = name
  · simp [hl, hne]
  · simp [hl]

theorem values_set_of_ne (h : Header) (value : GoString) (hne : name ≠ other) :
    (h.set other value).values name = h.values name := by
  rw [set, values_append, values_del_of_ne h hne]
  simp [values, hne.symm]

theorem select_del (p : GoString → Bool) (h : Header) (name : GoString) :
    (h.del name).select p = Header.del (h.select p) name := by
  rw [select, del, List.filter_comm]
  rfl

variable {p : GoString → Bool}

theorem select_del_of_not (hp : p name = false) (h : Header) :
    (h.del name).select p = h.select p := by
  rw [select_del]
  refine List.filter_eq_self.mpr fun line hline => decide_eq_true fun heq => ?_
  have hmem := (List.mem_filter.mp hline).2
  rw [heq, hp] at hmem
  cases hmem

theorem select_set (hp : p name = true) (h : Header) (value : GoString) :
    (h.set name value).select p = Header.set (h.select p) name value := by
  rw [set, select, List.filter_append, List.filter_singleton, hp]
  exact congrArg (· ++ [(name, value)]) (select_del p h name)

theorem select_set_of_not (hp : p name = false) (h : Header) (value : GoString) :
    (h.set name value).select p = h.select p := by
  rw [set, select, List.filter_append, List.filter_singleton, hp]
  exact (List.append_nil _).trans (select_del_of_not hp h)

theorem del_eq_self {h : Header} (hname : ∀ line ∈ h, line.1 ≠ name) : h.del name = h :=
  List.filter_eq_self.mpr fun line hline => decide_eq_true (hname line hline)

theorem values_lines_self (name : GoString) (vs : List GoString) :
    (lines name vs).values name = vs := by
  simp [values, lines, List.filter_map, Function.comp_def]

theorem values_lines_of_ne (hne : other ≠ name) (vs : List GoString) :
    (lines other vs).values name = [] := by
  simp [values, lines, hne]

end Header

/-- The parts of `http.Request` a proxy looks at. `peerCertificate` is the client's own certificate,
as the TLS layer hands it over. -/
structure Request where
  method : GoString
  host : GoString
  remoteAddr : GoString
  url : URL
  header : Header
  tls : Bool
  peerCertificate : Option GoString

/-! ## Cookies -/

/-- `textproto.TrimString`. -/
def trimBlank (s : GoString) : GoString :=
  let blank : UInt8 → Bool := fun b => b = 0x20 || b = 0x09 || b = 0x0A || b = 0x0D
  (s.dropWhile blank).rdropWhile blank

def parseCookieValue (raw : GoString) : Option GoString :=
  let quoted := 1 < raw.length ∧ raw.head? = some 0x22 ∧ raw.getLast? = some 0x22
  let value := if quoted then (raw.drop 1).dropLast else raw
  if value.all fun b => 0x20 ≤ b && b < 0x7F && b ≠ 0x22 && b ≠ semicolon && b ≠ backslash then
    some value else none

/-- One `name=value` pair of a `Cookie` line, if it is the cookie asked for. -/
def cookieValue (name part : GoString) : Option GoString :=
  let part := trimBlank part
  let key := cutBefore 0x3D part
  if part ≠ [] ∧ trimBlank key = name then parseCookieValue (part.drop (key.length + 1)) else none

def Request.cookie (r : Request) (name : GoString) : Option GoString :=
  ((r.header.values (str "Cookie")).flatMap fun line => (trimBlank line).splitOn semicolon).findSome? (cookieValue name)

/-! ## The pairs of `Cookie` headers

A `Cookie` line is cut at its semicolons. The parser of `net/http` trims the ASCII blanks around a
pair; a program that trims with `strings.TrimSpace` also takes other white space away. -/

def cookieHeader : GoString := str "Cookie"

def equalsSign : UInt8 := 0x3D

def cookiePairs (h : Header) : List GoString :=
  (((h.values cookieHeader).flatMap fun line => line.splitOn semicolon).map trimBlank).filter (· ≠ [])

/-! ### White space at the ends -/

def isBlank (b : UInt8) : Bool := b = 0x20 || b = 0x09 || b = 0x0A || b = 0x0D

theorem trimBlank_eq (s : GoString) : trimBlank s = (s.dropWhile isBlank).rdropWhile isBlank := rfl

variable {b : UInt8}

theorem blank_cases (hb : isBlank b = true) : b = 0x20 ∨ b = 0x09 ∨ b = 0x0A ∨ b = 0x0D := by
  simpa [isBlank, or_assoc] using hb

theorem blank_mem_spaceUnits (hb : isBlank b = true) : [b] ∈ spaceUnits := by
  rcases blank_cases hb with rfl | rfl | rfl | rfl <;> decide

theorem unit_of_blank_mem (hb : isBlank b = true) {u : GoString} (hu : u ∈ spaceUnits)
    (hmem : b ∈ u) : u = [b] := by
  have hall : ∀ u ∈ spaceUnits, ∀ b ∈ u, isBlank b = true → u = [b] := by decide +kernel
  exact hall u hu b hmem hb

theorem stripUnits_cons_unit {units : List GoString} (hmem : [b] ∈ units)
    (hall : ∀ u ∈ units, b ∈ u → u = [b]) (hne : ∀ u ∈ units, u ≠ []) (n : ℕ) (s : GoString) :
    stripUnits units (n + 1) (b :: s) = stripUnits units n s := by
  have hfind : units.find? (·.isPrefixOf (b :: s)) = some [b] := by
    cases hf : units.find? (·.isPrefixOf (b :: s)) with
    | none => exact absurd (List.find?_eq_none.mp hf [b] hmem) (by simp [List.isPrefixOf])
    | some u =>
      obtain ⟨hu, hpre⟩ := find_unit hf
      cases u with
      | nil => exact absurd rfl (hne [] hu)
      | cons c u =>
        obtain ⟨rfl, -⟩ := List.cons_prefix_cons.mp hpre
        rw [hall (c :: u) hu List.mem_cons_self]
  rw [stripUnits, hfind]
  rfl

theorem trimLeftSpace_cons_blank (hb : isBlank b = true) (s : GoString) :
    trimLeftSpace (b :: s) = trimLeftSpace s :=
  stripUnits_cons_unit (blank_mem_spaceUnits hb)
    (fun _ hu hmem => unit_of_blank_mem hb hu hmem) spaceUnits_ne_nil s.length s

theorem trimRightSpace_concat_blank (hb : isBlank b = true) (s : GoString) :
    trimRightSpace (s ++ [b]) = trimRightSpace s := by
  have hmem : [b] ∈ spaceUnits.map List.reverse := List.mem_map.mpr ⟨[b], blank_mem_spaceUnits hb, rfl⟩
  have hall : ∀ u ∈ spaceUnits.map List.reverse, b ∈ u → u = [b] := by
    intro u hu hbu
    obtain ⟨v, hv, rfl⟩ := List.mem_map.mp hu
    rw [unit_of_blank_mem hb hv (List.mem_reverse.mp hbu)]
    rfl
  have hstrip := stripUnits_cons_unit hmem hall reverse_spaceUnits_ne_nil s.length s.reverse
  rw [trimRightSpace, List.reverse_append, List.length_append]
  exact congrArg List.reverse hstrip

theorem stripUnits_concat_blank (hb : isBlank b = true) (n : ℕ) (s : GoString) (hn : s.length < n) :
    stripUnits spaceUnits n (s ++ [b]) = if stripUnits spaceUnits n s = [] then []
      else stripUnits spaceUnits n s ++ [b] := by
  induction n generalizing s with
  | zero => exact absurd hn (Nat.not_lt_zero _)
  | succ n ih =>
    cases s with
    | nil =>
      have hnil : stripUnits spaceUnits (n + 1) [] = [] :=
        stripUnits_eq_self (fun u hu hpre => spaceUnits_ne_nil u hu (List.prefix_nil.mp hpre)) _
      have hnil' : stripUnits spaceUnits n [] = [] :=
        stripUnits_eq_self (fun u hu hpre => spaceUnits_ne_nil u hu (List.prefix_nil.mp hpre)) _
      rw [hnil, if_pos rfl, List.nil_append,
        stripUnits_cons_unit (blank_mem_spaceUnits hb)
        (fun _ hu hmem => unit_of_blank_mem hb hu hmem) spaceUnits_ne_nil, hnil']
    | cons c s =>
      have hcongr : spaceUnits.find? (·.isPrefixOf (c :: s ++ [b])) = spaceUnits.find? (·.isPrefixOf (c :: s)) := by
        refine find_unit_congr fun u hu => ?_
        by_cases hbu : b ∈ u
        · rw [unit_of_blank_mem hb hu hbu]
          simp
        · exact prefix_append_cons_iff hbu
      rw [stripUnits, stripUnits, hcongr]
      cases hf : spaceUnits.find? (·.isPrefixOf (c :: s)) with
      | none => exact (if_neg (List.cons_ne_nil c s)).symm
      | some u =>
        obtain ⟨hu, hpre⟩ := find_unit hf
        have hpos : 0 < u.length := List.length_pos_iff.mpr (spaceUnits_ne_nil u hu)
        have hlen := hpre.length_le
        have hdrop : (c :: s ++ [b]).drop u.length = (c :: s).drop u.length ++ [b] := List.drop_append_of_le_length hlen
        simp only [hdrop]
        refine ih _ ?_
        rw [List.length_drop]
        omega

theorem trimSpace_concat_blank (hb : isBlank b = true) (s : GoString) :
    trimSpace (s ++ [b]) = trimSpace s := by
  have hleft : trimLeftSpace (s ++ [b]) = if trimLeftSpace s = [] then [] else trimLeftSpace s ++ [b] := by
    have hstrip := stripUnits_concat_blank hb (s.length + 1) s (Nat.lt_succ_self _)
    rw [stripUnits_fuel spaceUnits_ne_nil (s.length + 1) s.length s (Nat.le_succ _) le_rfl] at hstrip
    rw [trimLeftSpace, List.length_append]
    exact hstrip
  rw [trimSpace, trimSpace, hleft]
  split
  · rename_i hnil
    rw [hnil]
  · exact trimRightSpace_concat_blank hb _

theorem trimSpace_trimBlank (s : GoString) : trimSpace (trimBlank s) = trimSpace s := by
  have hleft : ∀ s : GoString, trimSpace (s.dropWhile isBlank) = trimSpace s := by
    intro s
    induction s with
    | nil => rfl
    | cons b s ih =>
      by_cases hb : isBlank b = true
      · rw [List.dropWhile_cons_of_pos hb, ih, trimSpace, trimSpace, trimLeftSpace_cons_blank hb]
      · rw [List.dropWhile_cons_of_neg hb]
  have hright : ∀ s : GoString, trimSpace (s.rdropWhile isBlank) = trimSpace s := by
    intro s
    induction s using List.reverseRecOn with
    | nil => rfl
    | append_singleton s b ih =>
      by_cases hb : isBlank b = true
      · rw [List.rdropWhile_concat_pos _ _ _ hb, ih, trimSpace_concat_blank hb]
      · rw [List.rdropWhile_concat_neg _ _ _ hb]
  rw [trimBlank_eq, hright, hleft]

theorem trimLeftSpace_no_unit (s : GoString) : ∀ u ∈ spaceUnits, ¬ u <+: trimLeftSpace s :=
  stripUnits_stop spaceUnits_ne_nil s.length s le_rfl

theorem trimLeftSpace_trimLeftSpace (s : GoString) :
    trimLeftSpace (trimLeftSpace s) = trimLeftSpace s :=
  stripUnits_eq_self (trimLeftSpace_no_unit s) _

theorem trim_of_trimmed {p : UInt8 → Bool} (hp : ∀ b, p b = true → [b] ∈ spaceUnits) {t : GoString}
    (h : trimSpace t = t) : (t.dropWhile p).rdropWhile p = t := by
  obtain ⟨hleft, hright⟩ := trim_eq_self_of_trimSpace h
  have hfirst : t.dropWhile p = t := by
    cases t with
    | nil => rfl
    | cons b t =>
      refine List.dropWhile_cons_of_neg fun hb => trimLeftSpace_no_unit (b :: t) [b] (hp b hb) ?_
      rw [hleft]
      exact ⟨t, rfl⟩
  rw [hfirst]
  induction t using List.reverseRecOn with
  | nil => rfl
  | append_singleton t b _ =>
    refine List.rdropWhile_concat_neg _ _ _ fun hb => (trimRightSpace_eq_self_iff _).mp hright [b] (hp b hb) ?_
    exact ⟨t, rfl⟩

theorem trimBlank_trimSpace (s : GoString) : trimBlank (trimSpace s) = trimSpace s :=
  trim_of_trimmed (fun _ hb => blank_mem_spaceUnits hb) (trimSpace_trimSpace s)

/-! ### Names -/

theorem trimSpace_cutBefore (s : GoString) :
    trimSpace (cutBefore equalsSign (trimSpace s)) = trimSpace (cutBefore equalsSign s) := by
  have hnot : NotSpace equalsSign := by decide
  have hself : ∀ t : GoString, equalsSign ∉ t → cutBefore equalsSign t = t := fun t ht =>
    List.takeWhile_eq_self_iff.mpr fun b hb => decide_eq_true fun heq => ht (heq ▸ hb)
  have hcut : ∀ a t : GoString, equalsSign ∉ a → cutBefore equalsSign (a ++ equalsSign :: t) = a := by
    intro a t ha
    have hall : ∀ b ∈ a, decide (b ≠ equalsSign) = true := fun b hb => decide_eq_true fun heq => ha (heq ▸ hb)
    rw [cutBefore, List.takeWhile_append_of_pos hall]
    simp
  by_cases hs : equalsSign ∈ s
  · obtain ⟨a, t, rfl, ha⟩ := List.eq_append_cons_of_mem hs
    have ha' : equalsSign ∉ trimLeftSpace a := by
      intro hmem
      obtain ⟨us, hus, -⟩ := trimLeftSpace_spec a
      exact ha (hus ▸ List.mem_append_right _ hmem)
    rw [trimSpace_append_cons hnot, hcut _ _ ha', hcut _ _ ha, trimSpace, trimLeftSpace_trimLeftSpace]
    rfl
  · rw [hself s hs, hself _ fun hmem => hs (mem_of_mem_trimSpace hmem), trimSpace_trimSpace]

/-! ### Joined pairs -/

theorem Header.values_set_self (h : Header) (name value : GoString) :
    (h.set name value).values name = [value] := by
  rw [set, values_append, values_del_self]
  exact values_lines_self name [value]

theorem trimBlank_cons_blank (s : GoString) : trimBlank (0x20 :: s) = trimBlank s := by
  rw [trimBlank_eq, trimBlank_eq, List.dropWhile_cons_of_pos (by decide)]

theorem intercalate_blank (pair : GoString) (pairs : List GoString) :
    [semicolon, 0x20].intercalate (pair :: pairs) = [semicolon].intercalate (pair :: pairs.map fun q => 0x20 :: q) := by
  induction pairs generalizing pair with
  | nil => rfl
  | cons q pairs ih =>
    rw [List.intercalate_cons_cons, ih, List.map_cons]
    cases pairs with
    | nil => simp
    | cons r pairs => simp [List.intercalate_cons_cons]

theorem cookiePairs_line {pairs : List GoString}
    (hpairs : ∀ p ∈ pairs, p ≠ [] ∧ semicolon ∉ p ∧ trimBlank p = p) (hne : pairs ≠ []) :
    ((([semicolon, 0x20].intercalate pairs).splitOn semicolon).map trimBlank).filter (· ≠ []) =
      pairs := by
  cases pairs with
  | nil => exact absurd rfl hne
  | cons p pairs =>
    have hsep : ∀ l ∈ p :: pairs.map fun q => 0x20 :: q, semicolon ∉ l := by
      intro l hl
      rcases List.mem_cons.mp hl with rfl | hl
      · exact (hpairs l List.mem_cons_self).2.1
      · obtain ⟨q, hq, rfl⟩ := List.mem_map.mp hl
        refine List.not_mem_cons_of_ne_of_not_mem (by decide) (hpairs q (List.mem_cons_of_mem _ hq)).2.1
    rw [intercalate_blank, List.splitOn_intercalate _ hsep (List.cons_ne_nil _ _), List.map_cons, List.map_map]
    have hmap : pairs.map (trimBlank ∘ fun q => 0x20 :: q) = pairs := by
      refine (List.map_congr_left fun q hq => ?_).trans (List.map_id pairs)
      exact (trimBlank_cons_blank q).trans (hpairs q (List.mem_cons_of_mem _ hq)).2.2
    rw [hmap, (hpairs p List.mem_cons_self).2.2]
    exact List.filter_eq_self.mpr fun q hq => decide_eq_true (hpairs q hq).1

end Portlyn.Go
