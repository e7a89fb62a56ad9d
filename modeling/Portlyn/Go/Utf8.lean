import Portlyn.Go.Strings

/-! # UTF-8 in Go strings

A Go string need not be valid UTF-8. `symbols` reads it the way a `range` loop does: a valid
encoding gives its rune, every other byte stands alone as `bad`. Nothing is lost
(`encodeSymbols_symbols`), and a byte that cannot continue an encoding cuts the reading in two
(`symbols_append`).

The tables of package `unicode` beyond ASCII are a parameter, `UnicodeTables`. -/
namespace Portlyn.Go
set_option autoImplicit false

/-! ## Runes and their encodings -/

def IsScalar (r : ℕ) : Prop := r < 0xD800 ∨ 0xE000 ≤ r ∧ r < 0x110000

instance (r : ℕ) : Decidable (IsScalar r) := inferInstanceAs (Decidable (_ ∨ _))

def runeError : ℕ := 0xFFFD

/-- `utf8.AppendRune` for a scalar value. -/
def encodeRune (r : ℕ) : GoString :=
  if r < 0x80 then [UInt8.ofNat r]
  else if r < 0x800 then [UInt8.ofNat (0xC0 + r / 64), UInt8.ofNat (0x80 + r % 64)]
  else if r < 0x10000 then
    [UInt8.ofNat (0xE0 + r / 4096), UInt8.ofNat (0x80 + r / 64 % 64), UInt8.ofNat (0x80 + r % 64)]
  else
    [UInt8.ofNat (0xF0 + r / 262144), UInt8.ofNat (0x80 + r / 4096 % 64), UInt8.ofNat (0x80 + r / 64 % 64),
      UInt8.ofNat (0x80 + r % 64)]

/-- A byte `0b10xxxxxx`, which never starts an encoding. -/
def IsContinuation (b : UInt8) : Prop := 0x80 ≤ b.toNat ∧ b.toNat < 0xC0

def payloadBits (s : GoString) (i : ℕ) : ℕ := (s.getD i 0).toNat % 64

def leadRune (s : GoString) : ℕ :=
  let b := (s.getD 0 0).toNat
  if b < 0x80 then b
  else if b < 0xE0 then b % 32 * 64 + payloadBits s 1
  else if b < 0xF0 then b % 16 * 4096 + payloadBits s 1 * 64 + payloadBits s 2
  else b % 8 * 262144 + payloadBits s 1 * 4096 + payloadBits s 2 * 64 + payloadBits s 3

/-- `utf8.DecodeRuneInString`: the rune whose (shortest) encoding the string starts with. `none` is
the answer `(RuneError, 1)` for a first byte that starts no valid encoding, and that for the empty
string. -/
def decodeRune (s : GoString) : Option ℕ :=
  let r := leadRune s
  if IsScalar r ∧ encodeRune r <+: s then some r else none

variable {r : ℕ}

theorem leadRune_encodeRune (h : IsScalar r) (t : GoString) : leadRune (encodeRune r ++ t) = r := by
  unfold IsScalar at h
  unfold encodeRune
  split_ifs with h1 h2 h3
  · have e : (UInt8.ofNat r).toNat = r := by rw [UInt8.toNat_ofNat']; omega
    simp only [leadRune, List.cons_append, List.getD_cons_zero, e, if_pos h1]
  · have e0 : (UInt8.ofNat (0xC0 + r / 64)).toNat = 0xC0 + r / 64 := by rw [UInt8.toNat_ofNat']; omega
    have e1 : (UInt8.ofNat (0x80 + r % 64)).toNat = 0x80 + r % 64 := by rw [UInt8.toNat_ofNat']; omega
    simp only [leadRune, payloadBits, List.cons_append, List.getD_cons_zero, List.getD_cons_succ]
    rw [if_neg (by omega), if_pos (by omega)]
    omega
  · have e0 : (UInt8.ofNat (0xE0 + r / 4096)).toNat = 0xE0 + r / 4096 := by rw [UInt8.toNat_ofNat']; omega
    have e1 : (UInt8.ofNat (0x80 + r / 64 % 64)).toNat = 0x80 + r / 64 % 64 := by
      rw [UInt8.toNat_ofNat']; omega
    have e2 : (UInt8.ofNat (0x80 + r % 64)).toNat = 0x80 + r % 64 := by rw [UInt8.toNat_ofNat']; omega
    simp only [leadRune, payloadBits, List.cons_append, List.getD_cons_zero, List.getD_cons_succ]
    rw [if_neg (by omega), if_neg (by omega), if_pos (by omega)]
    omega
  · have e0 : (UInt8.ofNat (0xF0 + r / 262144)).toNat = 0xF0 + r / 262144 := by
      rw [UInt8.toNat_ofNat']; omega
    have e1 : (UInt8.ofNat (0x80 + r / 4096 % 64)).toNat = 0x80 + r / 4096 % 64 := by
      rw [UInt8.toNat_ofNat']; omega
    have e2 : (UInt8.ofNat (0x80 + r / 64 % 64)).toNat = 0x80 + r / 64 % 64 := by
      rw [UInt8.toNat_ofNat']; omega
    have e3 : (UInt8.ofNat (0x80 + r % 64)).toNat = 0x80 + r % 64 := by rw [UInt8.toNat_ofNat']; omega
    simp only [leadRune, payloadBits, List.cons_append, List.getD_cons_zero, List.getD_cons_succ]
    rw [if_neg (by omega), if_neg (by omega), if_neg (by omega)]
    omega

variable {s t : GoString}

theorem encodeRune_append_inj {r' : ℕ} (h : IsScalar r) (h' : IsScalar r')
    (he : encodeRune r ++ s = encodeRune r' ++ t) : r = r' ∧ s = t := by
  have hr : r = r' := by
    rw [← leadRune_encodeRune h s, he, leadRune_encodeRune h' t]
  subst hr
  exact ⟨rfl, List.append_cancel_left he⟩

theorem encodeRune_eq_cons (h : IsScalar r) :
    ∃ b t, encodeRune r = b :: t ∧ ¬ IsContinuation b ∧ ∀ c ∈ t, IsContinuation c := by
  unfold IsScalar at h
  have hcont : ∀ n, IsContinuation (UInt8.ofNat (0x80 + n % 64)) := by
    intro n
    unfold IsContinuation
    rw [UInt8.toNat_ofNat']
    omega
  unfold encodeRune
  split_ifs with h1 h2 h3
  · refine ⟨_, _, rfl, ?_, by simp⟩
    unfold IsContinuation
    rw [UInt8.toNat_ofNat']
    omega
  · refine ⟨_, _, rfl, ?_, by simp only [List.forall_mem_cons, hcont]; simp⟩
    unfold IsContinuation
    rw [UInt8.toNat_ofNat']
    omega
  · refine ⟨_, _, rfl, ?_, by simp only [List.forall_mem_cons, hcont]; simp⟩
    unfold IsContinuation
    rw [UInt8.toNat_ofNat']
    omega
  · refine ⟨_, _, rfl, ?_, by simp only [List.forall_mem_cons, hcont]; simp⟩
    unfold IsContinuation
    rw [UInt8.toNat_ofNat']
    omega

theorem encodeRune_ne_nil (h : IsScalar r) : encodeRune r ≠ [] := by
  obtain ⟨b, t, he, -, -⟩ := encodeRune_eq_cons h
  rw [he]
  simp

theorem decodeRune_encodeRune (h : IsScalar r) (t : GoString) :
    decodeRune (encodeRune r ++ t) = some r := by
  simp only [decodeRune, leadRune_encodeRune h t]
  exact if_pos ⟨h, List.prefix_append _ _⟩

theorem decodeRune_eq_some (h : decodeRune s = some r) :
    IsScalar r ∧ ∃ t, s = encodeRune r ++ t := by
  simp only [decodeRune] at h
  split_ifs at h with hc
  obtain ⟨hs, t, ht⟩ := hc
  rw [Option.some.injEq] at h
  subst h
  exact ⟨hs, t, ht.symm⟩

theorem decodeRune_append_none (hs : s ≠ []) (h : decodeRune s = none)
    (ht : ∀ b ∈ t.head?, ¬ IsContinuation b) : decodeRune (s ++ t) = none := by
  cases hd : decodeRune (s ++ t) with
  | none => rfl
  | some r =>
    exfalso
    obtain ⟨hr, u, hu⟩ := decodeRune_eq_some hd
    rcases List.append_eq_append_iff.mp hu with ⟨v, hv, htv⟩ | ⟨v, hv, -⟩
    · -- the encoding reaches into `t`, whose first byte would continue it
      obtain ⟨b, c, he, -, hc⟩ := encodeRune_eq_cons hr
      obtain ⟨b', s', rfl⟩ := List.exists_cons_of_ne_nil hs
      cases v with
      | nil =>
        rw [List.append_nil] at hv
        have hnone := decodeRune_encodeRune hr []
        rw [List.append_nil, hv, h] at hnone
        exact absurd hnone (by simp)
      | cons x v =>
        rw [hv, List.cons_append, List.cons.injEq] at he
        have hx : x ∈ c := by
          rw [← he.2]
          simp
        exact ht x (by rw [htv]; simp) (hc x hx)
    · rw [hv, decodeRune_encodeRune hr] at h
      exact absurd h (by simp)

/-! ## Symbols -/

/-- One step of a `range` loop over a string. -/
inductive Symbol
  | rune (r : ℕ)
  | bad (b : UInt8)
deriving DecidableEq, Repr

/-- The rune a `range` loop yields. -/
def Symbol.toRune : Symbol → ℕ
  | .rune r => r
  | .bad _ => runeError

def Symbol.encode : Symbol → GoString
  | .rune r => encodeRune r
  | .bad b => [b]

def encodeSymbols (l : List Symbol) : GoString := l.flatMap Symbol.encode

/-- `symbolsAux k s` skips the `k` bytes that an encoding read before still covers. -/
def symbolsAux : ℕ → GoString → List Symbol
  | _, [] => []
  | k + 1, _ :: t => symbolsAux k t
  | 0, b :: t =>
    match decodeRune (b :: t) with
    | some r => .rune r :: symbolsAux ((encodeRune r).length - 1) t
    | none => .bad b :: symbolsAux 0 t

def symbols (s : GoString) : List Symbol := symbolsAux 0 s

theorem symbolsAux_eq_drop (k : ℕ) (s : GoString) : symbolsAux k s = symbols (s.drop k) := by
  induction s generalizing k with
  | nil => simp [symbols, symbolsAux]
  | cons b t ih =>
    cases k with
    | zero => rfl
    | succ k =>
      exact ih k

@[simp] theorem symbols_nil : symbols [] = [] := rfl

theorem symbols_encodeRune (h : IsScalar r) (t : GoString) :
    symbols (encodeRune r ++ t) = .rune r :: symbols t := by
  obtain ⟨b, c, he, -, -⟩ := encodeRune_eq_cons h
  have hd := decodeRune_encodeRune h t
  rw [he, List.cons_append] at hd
  rw [he, List.cons_append, symbols, symbolsAux]
  simp only [hd, he, symbolsAux_eq_drop]
  simp

theorem symbols_bad {b : UInt8} (h : decodeRune (b :: t) = none) :
    symbols (b :: t) = .bad b :: symbols t := by
  rw [symbols, symbolsAux]
  simp only [h]
  rfl

theorem symbols_induction {P : GoString → Prop} (hnil : P [])
    (hrune : ∀ r t, IsScalar r → P t → P (encodeRune r ++ t))
    (hbad : ∀ b t, decodeRune (b :: t) = none → P t → P (b :: t)) (s : GoString) : P s := by
  induction hn : s.length using Nat.strong_induction_on generalizing s with
  | _ n ih =>
    cases s with
    | nil => exact hnil
    | cons b t =>
      cases hd : decodeRune (b :: t) with
      | none => exact hbad b t hd (ih t.length (by simp at hn; omega) t rfl)
      | some r =>
        obtain ⟨hr, u, hu⟩ := decodeRune_eq_some hd
        have hlen := List.length_pos_iff.mpr (encodeRune_ne_nil hr)
        rw [hu] at hn ⊢
        rw [List.length_append] at hn
        exact hrune r u hr (ih u.length (by omega) u rfl)

theorem encodeSymbols_symbols (s : GoString) : encodeSymbols (symbols s) = s := by
  induction s using symbols_induction with
  | hnil => rfl
  | hrune r t hr ih =>
    rw [symbols_encodeRune hr, encodeSymbols]
    exact congrArg _ ih
  | hbad b t hd ih =>
    rw [symbols_bad hd, encodeSymbols]
    exact congrArg _ ih

theorem symbols_injective : Function.Injective symbols :=
  Function.LeftInverse.injective encodeSymbols_symbols

theorem isScalar_of_mem_symbols (h : Symbol.rune r ∈ symbols s) : IsScalar r := by
  induction s using symbols_induction with
  | hnil => simp at h
  | hrune r' t hr ih =>
    rw [symbols_encodeRune hr, List.mem_cons] at h
    rcases h with h | h
    · rw [Symbol.rune.injEq] at h
      rw [h]
      exact hr
    · exact ih h
  | hbad b t hd ih =>
    rw [symbols_bad hd, List.mem_cons] at h
    exact ih (h.resolve_left (by simp))

theorem symbols_append (ht : ∀ b ∈ t.head?, ¬ IsContinuation b) :
    symbols (s ++ t) = symbols s ++ symbols t := by
  induction s using symbols_induction with
  | hnil => rfl
  | hrune r u hr ih =>
    rw [List.append_assoc, symbols_encodeRune hr, symbols_encodeRune hr, ih, List.cons_append]
  | hbad b u hd ih =>
    have hd' := decodeRune_append_none (by simp) hd ht
    rw [List.cons_append] at hd' ⊢
    rw [symbols_bad hd', symbols_bad hd, ih, List.cons_append]

def validString (s : GoString) : Bool := (symbols s).all fun x => match x with | .rune _ => true | .bad _ => false

/-! ## White space, case and folding -/

/-- The characters `unicode.IsSpace` accepts. -/
def spaceRunes : List ℕ :=
  [0x09, 0x0A, 0x0B, 0x0C, 0x0D, 0x20, 0x85, 0xA0, 0x1680, 0x2000, 0x2001, 0x2002, 0x2003, 0x2004,
    0x2005,
    0x2006, 0x2007, 0x2008, 0x2009, 0x200A, 0x2028, 0x2029, 0x202F, 0x205F, 0x3000]

theorem spaceUnits_eq : spaceUnits = spaceRunes.map encodeRune := by decide

theorem isScalar_of_mem_spaceRunes : ∀ r ∈ spaceRunes, IsScalar r := by decide

theorem symbols_space {us : List GoString} (h : ∀ u ∈ us, u ∈ spaceUnits) :
    ∃ rs : List ℕ, symbols us.flatten = rs.map Symbol.rune ∧ rs.length = us.length ∧ ∀ r ∈ rs, r ∈ spaceRunes := by
  induction us with
  | nil => exact ⟨[], rfl, rfl, by simp⟩
  | cons u us ih =>
    obtain ⟨rs, hs, hl, hr⟩ := ih fun v hv => h v (by simp [hv])
    have hu := h u (by simp)
    rw [spaceUnits_eq] at hu
    obtain ⟨r, hmem, rfl⟩ := List.mem_map.mp hu
    refine ⟨r :: rs, ?_, by simp [hl], List.forall_mem_cons.mpr ⟨hmem, hr⟩⟩
    rw [List.flatten_cons, symbols_encodeRune (isScalar_of_mem_spaceRunes r hmem), hs]
    rfl

theorem symbols_trimRightSpace (s : GoString) :
    ∃ rs : List ℕ, symbols s = symbols (trimRightSpace s) ++ rs.map Symbol.rune ∧ (∀ r ∈ rs, r ∈ spaceRunes) ∧
      (rs = [] → trimRightSpace s = s) := by
  obtain ⟨us, hs, hus⟩ := trimRightSpace_spec s
  obtain ⟨rs, hsym, hl, hr⟩ := symbols_space hus
  refine ⟨rs, ?_, hr, ?_⟩
  · have hhead : ∀ b ∈ us.flatten.head?, ¬ IsContinuation b := by
      cases us with
      | nil => simp
      | cons u us =>
        have hu := hus u (by simp)
        rw [spaceUnits_eq] at hu
        obtain ⟨r, hmem, rfl⟩ := List.mem_map.mp hu
        obtain ⟨b, t, he, hb, -⟩ := encodeRune_eq_cons (isScalar_of_mem_spaceRunes r hmem)
        rw [he]
        simpa using hb
    rw [← hsym, ← symbols_append hhead, ← hs]
  · intro h0
    rw [h0] at hl
    have hu : us = [] := List.eq_nil_of_length_eq_zero hl.symm
    rw [hu] at hs
    simpa using hs.symm

def isUpperAscii (r : ℕ) : Prop := 0x41 ≤ r ∧ r ≤ 0x5A
def isLowerAscii (r : ℕ) : Prop := 0x61 ≤ r ∧ r ≤ 0x7A

instance (r : ℕ) : Decidable (isUpperAscii r) := inferInstanceAs (Decidable (_ ∧ _))
instance (r : ℕ) : Decidable (isLowerAscii r) := inferInstanceAs (Decidable (_ ∧ _))

def asciiLower (r : ℕ) : ℕ := if isUpperAscii r then r + 32 else r

/-- A rune that no case mapping relates to another one: an ASCII character that is no letter, or
white space. -/
def Caseless (r : ℕ) : Prop := r < 0x80 ∧ ¬ isUpperAscii r ∧ ¬ isLowerAscii r ∨ r ∈ spaceRunes

instance (r : ℕ) : Decidable (Caseless r) := inferInstanceAs (Decidable (_ ∨ _))

/-- The case tables of package `unicode`. `foldKey` names the orbit of a rune under
`unicode.SimpleFold`. -/
class UnicodeTables where
  foldKey : ℕ → ℕ
  toLower : ℕ → ℕ
  foldKey_ascii : ∀ r < 0x80, foldKey r = asciiLower r
  toLower_ascii : ∀ r < 0x80, toLower r = asciiLower r
  foldKey_caseless : ∀ r s, Caseless r → foldKey s = foldKey r → s = r

/-- Tables without any letter beyond ASCII. -/
@[reducible] def asciiTables : UnicodeTables where
  foldKey := asciiLower
  toLower := asciiLower
  foldKey_ascii := fun _ _ => rfl
  toLower_ascii := fun _ _ => rfl
  foldKey_caseless := by
    intro r s hr h
    have hsp : r ∈ spaceRunes → ¬ isUpperAscii r ∧ ¬ isLowerAscii r := by
      have hall : ∀ r ∈ spaceRunes, ¬ isUpperAscii r ∧ ¬ isLowerAscii r := by decide
      exact hall r
    have hcase : ¬ isUpperAscii r ∧ ¬ isLowerAscii r := by
      rcases hr with ⟨-, hu, hl⟩ | hr
      · exact ⟨hu, hl⟩
      · exact hsp hr
    rw [asciiLower, asciiLower, if_neg hcase.1] at h
    simp only [isUpperAscii, isLowerAscii] at hcase
    split_ifs at h with hs
    · rw [isUpperAscii] at hs
      omega
    · exact h

section Tables
variable [UnicodeTables]

def equalFold (s t : GoString) : Bool :=
  (symbols s).map (fun x => UnicodeTables.foldKey x.toRune) =
    (symbols t).map (fun x => UnicodeTables.foldKey x.toRune)

/-- `strings.ToLower`: every rune through the table, a bad byte as the replacement character. -/
def toLower (s : GoString) : GoString :=
  (symbols s).flatMap fun x =>
    let r := UnicodeTables.toLower x.toRune
    encodeRune (if IsScalar r then r else runeError)

theorem toLower_cons_ascii {b : UInt8} (hb : b.toNat < 0x80) (s : GoString) :
    toLower (b :: s) = UInt8.ofNat (asciiLower b.toNat) :: toLower s := by
  have hlt : asciiLower b.toNat < 0x80 := by
    unfold asciiLower
    split_ifs with hup
    · have := hup.2
      omega
    · exact hb
  have hsc : IsScalar b.toNat := Or.inl (by omega)
  have henc : encodeRune b.toNat = [b] := by
    rw [encodeRune, if_pos hb, UInt8.ofNat_toNat]
  have hsym := symbols_encodeRune hsc s
  rw [henc, List.singleton_append] at hsym
  have hlow : encodeRune (asciiLower b.toNat) = [UInt8.ofNat (asciiLower b.toNat)] := by
    rw [encodeRune, if_pos hlt]
  have hscl : IsScalar (asciiLower b.toNat) := Or.inl (by omega)
  unfold toLower
  rw [hsym, List.flatMap_cons]
  simp only [Symbol.toRune, UnicodeTables.toLower_ascii _ hb, if_pos hscl, hlow]
  rfl

variable {s : GoString}

theorem toLower_append_ascii (h : ∀ b ∈ s, b.toNat < 0x80) (t : GoString) :
    toLower (s ++ t) = (s.map fun b => UInt8.ofNat (asciiLower b.toNat)) ++ toLower t := by
  induction s with
  | nil => rfl
  | cons b s ih =>
    rw [List.cons_append, toLower_cons_ascii (h b (by simp)), ih fun c hc => h c (by simp [hc])]
    rfl

theorem toLower_of_ascii (h : ∀ b ∈ s, b.toNat < 0x80) :
    toLower s = s.map fun b => UInt8.ofNat (asciiLower b.toNat) := by
  have happend := toLower_append_ascii h []
  rwa [List.append_nil, show toLower [] = [] from rfl, List.append_nil] at happend

theorem toLower_eq_self_of_ascii (h : ∀ b ∈ s, b.toNat < 0x80 ∧ ¬ isUpperAscii b.toNat) :
    toLower s = s := by
  rw [toLower_of_ascii fun b hb => (h b hb).1]
  refine (List.map_congr_left fun b hb => ?_).trans (List.map_id s)
  rw [asciiLower, if_neg (h b hb).2, UInt8.ofNat_toNat, id]

theorem length_symbols_of_equalFold {t : GoString} (h : equalFold s t = true) :
    (symbols s).length = (symbols t).length := by
  have h' := congrArg List.length (of_decide_eq_true h)
  simpa using h'

theorem eq_of_equalFold_caseless {t : GoString} (h : equalFold s t = true)
    (hs : ∀ x ∈ symbols s, ∃ r, x = .rune r ∧ Caseless r) : t = s := by
  have h' := of_decide_eq_true h
  apply symbols_injective
  generalize symbols t = u at h'
  generalize symbols s = v at hs h'
  induction v generalizing u with
  | nil => simpa using h'
  | cons x v ih =>
    cases u with
    | nil => simp at h'
    | cons y u =>
      rw [List.map_cons, List.map_cons, List.cons.injEq] at h'
      obtain ⟨r, rfl, hr⟩ := hs x (by simp)
      have hy := UnicodeTables.foldKey_caseless r y.toRune hr h'.1.symm
      have hyr : y = .rune r := by
        cases y with
        | rune r' => exact congrArg _ hy
        | bad b =>
          exfalso
          have hne : ¬ Caseless runeError := by decide
          rw [Symbol.toRune] at hy
          exact hne (hy ▸ hr)
      rw [hyr, ih u (fun z hz => hs z (List.mem_cons_of_mem _ hz)) h'.2]

end Tables

end Portlyn.Go
