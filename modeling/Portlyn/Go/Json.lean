import Portlyn.Go.Time
import Portlyn.Go.Utf8

/-! # Flat JSON objects (`encoding/json`, `encoding/hex`, `bytes.ReplaceAll`)

An object whose values are texts, integers or null, as `json.Marshal` writes it with HTML escaping.
Texts are written token by token. The words of the tokens form a prefix code in which no word starts
with a quote, so a text is known from its bytes (`objectText_inj`), also where some of its tokens
are the escape that stands for a byte that is no UTF-8. -/
namespace Portlyn.Go
set_option autoImplicit false

/-! ## Hexadecimal -/

/-- `hex.EncodeToString`. -/
def hexEncode (s : GoString) : GoString :=
  s.flatMap fun b => [lowerHex (b.toNat / 16), lowerHex (b.toNat % 16)]

theorem lowerHex_inj : ∀ a < 16, ∀ b < 16, lowerHex a = lowerHex b → a = b := by decide +kernel

theorem lowerHex_ascii : ∀ a < 16, (lowerHex a).toNat < 0x80 := by decide +kernel

theorem hexEncode_injective : Function.Injective hexEncode := by
  intro s t h
  induction s generalizing t with
  | nil =>
    cases t with
    | nil => rfl
    | cons c t => simp [hexEncode] at h
  | cons b s ih =>
    cases t with
    | nil => simp [hexEncode] at h
    | cons c t =>
      simp only [hexEncode, List.flatMap_cons, List.cons_append, List.cons.injEq] at h
      obtain ⟨hhi, hlo, hrest⟩ := h
      have hb := b.toNat_lt
      have hc := c.toNat_lt
      have h1 := lowerHex_inj _ (by omega) _ (by omega) hhi
      have h2 := lowerHex_inj _ (by omega) _ (by omega) hlo
      have hbc : b = c := UInt8.toNat_inj.mp (by omega)
      rw [hbc, ih hrest]

theorem hexEncode_ascii (s : GoString) : ∀ b ∈ hexEncode s, b.toNat < 0x80 := by
  intro b hb
  obtain ⟨c, -, hc⟩ := List.mem_flatMap.mp hb
  have hlt := c.toNat_lt
  rcases List.mem_cons.mp hc with rfl | hc
  · exact lowerHex_ascii _ (by omega)
  · rw [List.mem_singleton.mp hc]
    exact lowerHex_ascii _ (by omega)

/-! ## Replacing a part -/

/-- `bytes.ReplaceAll` for a part that is not empty; the number counts the bytes of a match to pass
over. -/
def replaceAux (old new : GoString) : ℕ → GoString → GoString
  | _, [] => []
  | k + 1, _ :: t => replaceAux old new k t
  | 0, b :: t =>
    if old.isPrefixOf (b :: t) then new ++ replaceAux old new (old.length - 1) t else b :: replaceAux old new 0 t

def replaceAll (old new s : GoString) : GoString := replaceAux old new 0 s

theorem replaceAux_eq_drop (old new : GoString) (k : ℕ) (s : GoString) :
    replaceAux old new k s = replaceAll old new (s.drop k) := by
  induction s generalizing k with
  | nil =>
    cases k <;> rfl
  | cons b t ih =>
    cases k with
    | zero => rfl
    | succ k =>
      rw [List.drop_succ_cons, ← ih]
      rfl

theorem replaceAll_self {old : GoString} (h : old ≠ []) (new t : GoString) :
    replaceAll old new (old ++ t) = new ++ replaceAll old new t := by
  cases old with
  | nil => exact absurd rfl h
  | cons b old =>
    have hpre : (b :: old).isPrefixOf (b :: (old ++ t)) = true := by
      rw [List.isPrefixOf_iff_prefix]
      exact List.prefix_append _ _
    rw [List.cons_append, replaceAll, replaceAux, replaceAux_eq_drop]
    simp

theorem replaceAll_cons {b c : UInt8} (hbc : b ≠ c) (old new t : GoString) :
    replaceAll (c :: old) new (b :: t) = b :: replaceAll (c :: old) new t := by
  have hpre : ¬ (c :: old).isPrefixOf (b :: t) = true := by
    rw [List.isPrefixOf_iff_prefix, List.cons_prefix_cons]
    exact fun h => hbc h.1.symm
  rw [replaceAll, replaceAux, if_neg hpre]
  rfl

variable {s : GoString}

theorem replaceAll_append {c : UInt8} (hs : ∀ b ∈ s, b ≠ c) (old new t : GoString) :
    replaceAll (c :: old) new (s ++ t) = s ++ replaceAll (c :: old) new t := by
  induction s with
  | nil => rfl
  | cons b s ih =>
    rw [List.cons_append, replaceAll_cons (hs b (by simp)), ih fun x hx => hs x (by simp [hx])]
    rfl

theorem replaceAll_encodeRune {m r : ℕ} (hm : IsScalar m) (hr : IsScalar r) (new t : GoString) :
    replaceAll (encodeRune m) new (encodeRune r ++ t) =
      (if r = m then new else encodeRune r) ++ replaceAll (encodeRune m) new t := by
  by_cases hrm : r = m
  · rw [if_pos hrm, hrm]
    exact replaceAll_self (encodeRune_ne_nil hm) new t
  · rw [if_neg hrm]
    obtain ⟨c, old, hold, hc, -⟩ := encodeRune_eq_cons hm
    obtain ⟨b, rest, hrest, hb, hcont⟩ := encodeRune_eq_cons hr
    have hpre : ¬ (encodeRune m).isPrefixOf (b :: (rest ++ t)) = true := by
      rw [List.isPrefixOf_iff_prefix, ← List.cons_append, ← hrest]
      rintro ⟨u, hu⟩
      exact hrm (encodeRune_append_inj hm hr hu).1.symm
    have hne : ∀ x ∈ rest, x ≠ c := by
      rintro x hx rfl
      exact hc (hcont x hx)
    rw [hrest, List.cons_append, replaceAll, replaceAux, if_neg hpre]
    congr 1
    rw [hold]
    exact replaceAll_append hne old new t

/-! ## Tokens of a text -/

inductive JsonToken
  | rune (r : ℕ)
  | escaped
deriving DecidableEq

def unicodeEscape (r : ℕ) : GoString :=
  [0x5C, 0x75, lowerHex (r / 4096 % 16), lowerHex (r / 256 % 16), lowerHex (r / 16 % 16),
    lowerHex (r % 16)]

/-- The runes that are not written as they are: control characters, the quote and the backslash, the
three that mean something in HTML and the two line separators of JavaScript. -/
def escapedRunes : List ℕ := List.range 0x20 ++ [0x22, 0x26, 0x3C, 0x3E, 0x5C, 0x2028, 0x2029]

def jsonRune (r : ℕ) : GoString :=
  if r = 0x22 ∨ r = 0x5C then [0x5C, UInt8.ofNat r]
  else if r = 0x08 then [0x5C, 0x62]
  else if r = 0x0C then [0x5C, 0x66]
  else if r = 0x0A then [0x5C, 0x6E]
  else if r = 0x0D then [0x5C, 0x72]
  else if r = 0x09 then [0x5C, 0x74]
  else if r ∈ escapedRunes then unicodeEscape r
  else encodeRune r

def JsonToken.word : JsonToken → GoString
  | .rune r => jsonRune r
  | .escaped => unicodeEscape 0xFFFD

def JsonToken.IsValid : JsonToken → Prop
  | .rune r => IsScalar r
  | .escaped => True

theorem jsonRune_plain {r : ℕ} (h : r ∉ escapedRunes) : jsonRune r = encodeRune r := by
  have hne : ∀ x ∈ escapedRunes, r ≠ x := by
    rintro x hx rfl
    exact h hx
  have h1 : ¬ (r = 0x22 ∨ r = 0x5C) := by
    rw [not_or]
    exact ⟨hne _ (by decide), hne _ (by decide)⟩
  rw [jsonRune, if_neg h1, if_neg (hne _ (by decide)), if_neg (hne _ (by decide)),
    if_neg (hne _ (by decide)),
    if_neg (hne _ (by decide)), if_neg (hne _ (by decide)), if_neg h]

def escapeTokens : List JsonToken := .escaped :: escapedRunes.map .rune

theorem escapeTokens_prefixFree : ∀ x ∈ escapeTokens, ∀ y ∈ escapeTokens, x.word <+: y.word →
    x = y := by decide +kernel

theorem escapeTokens_head : ∀ x ∈ escapeTokens, x.word.head? = some 0x5C := by decide +kernel

variable {x : JsonToken}

theorem JsonToken.word_cases (h : x.IsValid) :
    x ∈ escapeTokens ∨ ∃ r, x = .rune r ∧ IsScalar r ∧ r ∉ escapedRunes ∧ x.word = encodeRune r := by
  cases x with
  | escaped => exact Or.inl (by simp [escapeTokens])
  | rune r =>
    by_cases hr : r ∈ escapedRunes
    · exact Or.inl (by simp [escapeTokens, hr])
    · exact Or.inr ⟨r, rfl, h, hr, jsonRune_plain hr⟩

theorem encodeRune_append_ne {r : ℕ} (hr : IsScalar r) (hne : r ∉ escapedRunes) {b : UInt8}
    (hb : b.toNat < 0x80) (hmem : b.toNat ∈ escapedRunes) (s t : GoString) :
    encodeRune r ++ s ≠ b :: t := by
  intro h
  have hbe : encodeRune b.toNat = [b] := by
    rw [encodeRune, if_pos hb, UInt8.ofNat_toNat]
  have hsc : IsScalar b.toNat := Or.inl (by omega)
  have heq : encodeRune r ++ s = encodeRune b.toNat ++ t := by
    rw [h, hbe]
    rfl
  rw [(encodeRune_append_inj hr hsc heq).1] at hne
  exact hne hmem

theorem escapeTokens_append (h : x ∈ escapeTokens) (s : GoString) :
    ∃ u, x.word ++ s = 0x5C :: u := by
  have hhead := escapeTokens_head x h
  cases hw : x.word with
  | nil => simp [hw] at hhead
  | cons b w =>
    rw [hw, List.head?_cons, Option.some.injEq] at hhead
    exact ⟨w ++ s, by rw [hhead]; rfl⟩

variable {t : GoString}

theorem JsonToken.word_append_inj {y : JsonToken} (hx : x.IsValid) (hy : y.IsValid)
    (h : x.word ++ s = y.word ++ t) : x = y ∧ s = t := by
  rcases word_cases hx with hxe | ⟨r, rfl, hr, hre, hxw⟩
  · rcases word_cases hy with hye | ⟨r', rfl, hr', hre', hyw⟩
    · have hxy : x = y := by
        rcases List.prefix_or_prefix_of_prefix (List.prefix_append x.word s)
          (h ▸ List.prefix_append y.word t) with hp | hp
        · exact escapeTokens_prefixFree x hxe y hye hp
        · exact (escapeTokens_prefixFree y hye x hxe hp).symm
      subst hxy
      exact ⟨rfl, List.append_cancel_left h⟩
    · obtain ⟨u, hu⟩ := escapeTokens_append hxe s
      rw [hu, hyw] at h
      exact absurd h.symm (encodeRune_append_ne hr' hre' (by decide) (by decide) _ _)
  · rcases word_cases hy with hye | ⟨r', rfl, hr', hre', hyw⟩
    · obtain ⟨u, hu⟩ := escapeTokens_append hye t
      rw [hu, hxw] at h
      exact absurd h (encodeRune_append_ne hr hre (by decide) (by decide) _ _)
    · rw [hxw, hyw] at h
      obtain ⟨rfl, hst⟩ := encodeRune_append_inj hr hr' h
      exact ⟨rfl, hst⟩

theorem JsonToken.word_append_ne_quote (hx : x.IsValid) (s t : GoString) :
    x.word ++ s ≠ 0x22 :: t := by
  rcases word_cases hx with hxe | ⟨r, rfl, hr, hre, hxw⟩
  · obtain ⟨u, hu⟩ := escapeTokens_append hxe s
    rw [hu]
    exact fun h => absurd (List.cons.inj h).1 (by decide)
  · rw [hxw]
    exact encodeRune_append_ne hr hre (by decide) (by decide) _ _

theorem tokens_inj {xs ys : List JsonToken} (hx : ∀ x ∈ xs, x.IsValid) (hy : ∀ y ∈ ys, y.IsValid)
    (h : xs.flatMap JsonToken.word ++ 0x22 :: s = ys.flatMap JsonToken.word ++ 0x22 :: t) :
    xs = ys ∧ s = t := by
  induction xs generalizing ys with
  | nil =>
    cases ys with
    | nil => exact ⟨rfl, (List.cons.inj h).2⟩
    | cons y ys =>
      rw [List.flatMap_cons, List.append_assoc] at h
      exact absurd h.symm (JsonToken.word_append_ne_quote (hy y (by simp)) _ _)
  | cons x xs ih =>
    cases ys with
    | nil =>
      rw [List.flatMap_cons, List.append_assoc] at h
      exact absurd h (JsonToken.word_append_ne_quote (hx x (by simp)) _ _)
    | cons y ys =>
      rw [List.flatMap_cons, List.flatMap_cons, List.append_assoc, List.append_assoc] at h
      obtain ⟨rfl, hrest⟩ := JsonToken.word_append_inj (hx x (by simp)) (hy y (by simp)) h
      obtain ⟨rfl, hst⟩ := ih (fun z hz => hx z (by simp [hz])) (fun z hz => hy z (by simp [hz])) hrest
      exact ⟨rfl, hst⟩

/-! ## Values and objects -/

inductive JsonField
  | text (tokens : List JsonToken)
  | number (z : ℤ)
  | null
deriving DecidableEq

def intText (z : ℤ) : GoString := if z < 0 then 45 :: decimal z.natAbs else decimal z.natAbs

def JsonField.bytes : JsonField → GoString
  | .text tokens => 0x22 :: tokens.flatMap JsonToken.word ++ [0x22]
  | .number z => intText z
  | .null => [0x6E, 0x75, 0x6C, 0x6C]

def JsonField.IsValid : JsonField → Prop
  | .text tokens => ∀ x ∈ tokens, x.IsValid
  | _ => True

def keyText (key : GoString) : GoString := 0x22 :: key ++ [0x22, colon]

def membersText : List (GoString × JsonField) → GoString
  | [] => [0x7D]
  | [(key, v)] => keyText key ++ (v.bytes ++ [0x7D])
  | (key, v) :: member :: rest => keyText key ++ (v.bytes ++ comma :: membersText (member :: rest))

def objectText (members : List (GoString × JsonField)) : GoString := 0x7B :: membersText members

theorem intText_digits {z : ℤ} {b : UInt8} (h : b ∈ intText z) : IsDecDigit b ∨ b = 45 := by
  unfold intText at h
  split_ifs at h
  · rcases List.mem_cons.mp h with h | h
    · exact Or.inr h
    · exact Or.inl (isDecDigit_decimal _ b h)
  · exact Or.inl (isDecDigit_decimal _ b h)

theorem intText_injective : Function.Injective intText := by
  have hminus : ∀ n : ℕ, (45 : UInt8) ∉ decimal n := fun n hn => absurd (isDecDigit_decimal n _ hn)
    (by unfold IsDecDigit; decide)
  intro a b h
  unfold intText at h
  split_ifs at h with ha hb hb
  · have := decimal_injective (List.cons.inj h).2
    omega
  · exact absurd (h ▸ List.mem_cons_self) (hminus _)
  · exact absurd (h.symm ▸ List.mem_cons_self) (hminus _)
  · have := decimal_injective h
    omega

theorem intText_head (z : ℤ) : ∃ b s, intText z = b :: s ∧ (IsDecDigit b ∨ b = 45) := by
  cases h : intText z with
  | nil =>
    unfold intText at h
    split_ifs at h
    have h0 := decValue_decimal z.natAbs
    rw [h] at h0
    have hz : z.natAbs = 0 := h0.symm
    rw [hz] at h
    exact absurd h (by decide)
  | cons b s => exact ⟨b, s, rfl, intText_digits (h ▸ List.mem_cons_self)⟩

theorem JsonField.bytes_append_inj {v w : JsonField} (hv : v.IsValid) (hw : w.IsValid) {c : UInt8}
    (hc : ¬ IsDecDigit c ∧ c ≠ 45) (h : v.bytes ++ c :: s = w.bytes ++ c :: t) : v = w ∧ s = t := by
  have hnot : ∀ z, c ∉ intText z := fun z hz => (intText_digits hz).elim hc.1 hc.2
  have hquote : ¬ (IsDecDigit 0x22 ∨ (0x22 : UInt8) = 45) := by unfold IsDecDigit; decide
  have hnull : ¬ (IsDecDigit 0x6E ∨ (0x6E : UInt8) = 45) := by unfold IsDecDigit; decide
  cases v with
  | text xs =>
    cases w with
    | text ys =>
      simp only [bytes, List.cons_append, List.append_assoc, List.nil_append, List.cons.injEq, true_and] at h
      obtain ⟨rfl, hst⟩ := tokens_inj hv hw h
      exact ⟨rfl, (List.cons.inj hst).2⟩
    | number z =>
      obtain ⟨b, u, hb, hd⟩ := intText_head z
      simp only [bytes, hb, List.cons_append, List.cons.injEq] at h
      exact absurd (h.1 ▸ hd) hquote
    | null =>
      simp only [bytes, List.cons_append, List.cons.injEq] at h
      exact absurd h.1 (by decide)
  | number z =>
    obtain ⟨b, u, hb, hd⟩ := intText_head z
    cases w with
    | text ys =>
      simp only [bytes, hb, List.cons_append, List.cons.injEq] at h
      exact absurd (h.1 ▸ hd) hquote
    | number z' =>
      obtain ⟨hz, hst⟩ := append_cons_inj h (hnot z) (hnot z')
      exact ⟨by rw [intText_injective hz], hst⟩
    | null =>
      simp only [bytes, hb, List.cons_append, List.cons.injEq] at h
      exact absurd (h.1 ▸ hd) hnull
  | null =>
    cases w with
    | text ys =>
      simp only [bytes, List.cons_append, List.cons.injEq] at h
      exact absurd h.1 (by decide)
    | number z =>
      obtain ⟨b, u, hb, hd⟩ := intText_head z
      simp only [bytes, hb, List.cons_append, List.cons.injEq] at h
      exact absurd (h.1 ▸ hd) hnull
    | null =>
      simp only [bytes, List.cons_append, List.nil_append, List.cons.injEq, true_and] at h
      exact ⟨rfl, h⟩

theorem membersText_inj {l k : List (GoString × JsonField)}
    (hkeys : l.map Prod.fst = k.map Prod.fst) (hl : ∀ m ∈ l, m.2.IsValid)
    (hk : ∀ m ∈ k, m.2.IsValid) (h : membersText l = membersText k) : l = k := by
  have hcomma : ¬ IsDecDigit comma ∧ comma ≠ 45 := by unfold IsDecDigit; decide
  have hbrace : ¬ IsDecDigit 0x7D ∧ (0x7D : UInt8) ≠ 45 := by unfold IsDecDigit; decide
  induction l generalizing k with
  | nil =>
    cases k with
    | nil => rfl
    | cons m k => simp at hkeys
  | cons m l ih =>
    cases k with
    | nil => simp at hkeys
    | cons m' k =>
      obtain ⟨key, v⟩ := m
      obtain ⟨key', v'⟩ := m'
      simp only [List.map_cons, List.cons.injEq] at hkeys
      obtain ⟨rfl, hkeys⟩ := hkeys
      have hv : v.IsValid := hl (key, v) (by simp)
      have hv' : v'.IsValid := hk (key, v') (by simp)
      cases l with
      | nil =>
        cases k with
        | nil =>
          obtain ⟨rfl, -⟩ := JsonField.bytes_append_inj hv hv' hbrace (List.append_cancel_left h)
          rfl
        | cons m' k => simp at hkeys
      | cons m l =>
        cases k with
        | nil => simp at hkeys
        | cons m' k =>
          obtain ⟨rfl, hrest⟩ := JsonField.bytes_append_inj hv hv' hcomma (List.append_cancel_left h)
          rw [ih hkeys (fun x hx => hl x (by simp [List.mem_cons.mp hx]))
            (fun x hx => hk x (by simp [List.mem_cons.mp hx])) hrest]

theorem objectText_inj {l k : List (GoString × JsonField)} (hkeys : l.map Prod.fst = k.map Prod.fst)
    (hl : ∀ m ∈ l, m.2.IsValid) (hk : ∀ m ∈ k, m.2.IsValid) (h : objectText l = objectText k) :
    l = k :=
  membersText_inj hkeys hl hk (List.cons.inj h).2

/-! ## Strings as texts -/

def Symbol.token : Symbol → JsonToken
  | .rune r => .rune r
  | .bad _ => .escaped

def JsonField.string (s : GoString) : JsonField := .text ((symbols s).map Symbol.token)

def JsonField.optional : Option ℕ → JsonField
  | none => .null
  | some n => .number n

theorem JsonField.string_isValid (s : GoString) : (JsonField.string s).IsValid := by
  intro x hx
  obtain ⟨y, hy, rfl⟩ := List.mem_map.mp hx
  cases y with
  | rune r => exact isScalar_of_mem_symbols hy
  | bad b => trivial

theorem JsonField.optional_isValid (n : Option ℕ) : (JsonField.optional n).IsValid := by
  cases n <;> trivial

theorem JsonField.optional_injective : Function.Injective JsonField.optional := by
  intro a b h
  cases a <;> cases b <;> simp_all [JsonField.optional]

theorem symbols_ascii (h : ∀ b ∈ s, b.toNat < 0x80) : symbols s = s.map fun b => .rune b.toNat := by
  induction s with
  | nil => rfl
  | cons b s ih =>
    have hb := h b (by simp)
    have henc : encodeRune b.toNat = [b] := by
      rw [encodeRune, if_pos hb, UInt8.ofNat_toNat]
    have hsym := symbols_encodeRune (Or.inl (by omega) : IsScalar b.toNat) s
    rw [henc, List.singleton_append] at hsym
    rw [hsym, ih fun c hc => h c (by simp [hc])]
    rfl

theorem JsonField.string_inj_of_ascii (hs : ∀ b ∈ s, b.toNat < 0x80) (ht : ∀ b ∈ t, b.toNat < 0x80)
    (h : JsonField.string s = JsonField.string t) : s = t := by
  have htok := JsonField.text.inj h
  rw [symbols_ascii hs, symbols_ascii ht, List.map_map, List.map_map] at htok
  refine List.map_injective_iff.mpr ?_ htok
  intro a b hab
  exact UInt8.toNat_inj.mp (JsonToken.rune.inj hab)

/-! ## Replacing a rune in an object -/

/-- The token a rune `m` becomes when its bytes are replaced by the escape. -/
def JsonToken.mark (m : ℕ) : JsonToken → JsonToken
  | .rune r => if r = m then .escaped else .rune r
  | .escaped => .escaped

def JsonField.mark (m : ℕ) : JsonField → JsonField
  | .text tokens => .text (tokens.map (JsonToken.mark m))
  | v => v

section Replace
variable {m : ℕ} (hm : IsScalar m) (hbig : 0x80 ≤ m) (hplain : m ∉ escapedRunes)
include hm hbig

theorem replaceAll_ascii {s : GoString} (hs : ∀ b ∈ s, b.toNat < 0x80) (new t : GoString) :
    replaceAll (encodeRune m) new (s ++ t) = s ++ replaceAll (encodeRune m) new t := by
  induction s with
  | nil => rfl
  | cons b s ih =>
    have hb := hs b (by simp)
    have hbe : encodeRune b.toNat = [b] := by
      rw [encodeRune, if_pos hb, UInt8.ofNat_toNat]
    have h := replaceAll_encodeRune hm (Or.inl (by omega) : IsScalar b.toNat) new (s ++ t)
    rw [hbe, if_neg (by omega), ih fun x hx => hs x (by simp [hx])] at h
    exact h

theorem replaceAll_ascii_cons {b : UInt8} (hb : b.toNat < 0x80) (new t : GoString) :
    replaceAll (encodeRune m) new (b :: t) = b :: replaceAll (encodeRune m) new t := by
  have hs : ∀ x ∈ [b], x.toNat < 0x80 := by
    intro x hx
    rw [List.mem_singleton.mp hx]
    exact hb
  exact replaceAll_ascii hm hbig hs new t

include hplain

theorem replaceAll_word {x : JsonToken} (hx : x.IsValid) (t : GoString) :
    replaceAll (encodeRune m) (unicodeEscape 0xFFFD) (x.word ++ t) =
      (x.mark m).word ++ replaceAll (encodeRune m) (unicodeEscape 0xFFFD) t := by
  have hascii : ∀ y ∈ escapeTokens, ∀ b ∈ y.word, b.toNat < 0x80 := by decide +kernel
  rcases JsonToken.word_cases hx with hxe | ⟨r, rfl, hr, hre, hxw⟩
  · have hmark : x.mark m = x := by
      cases x with
      | escaped => rfl
      | rune r =>
        have hr : r ∈ escapedRunes := by simpa [escapeTokens] using hxe
        have hne : r ≠ m := fun h => hplain (h ▸ hr)
        rw [JsonToken.mark, if_neg hne]
    rw [hmark]
    exact replaceAll_ascii hm hbig (hascii x hxe) _ _
  · rw [hxw, replaceAll_encodeRune hm hr, JsonToken.mark]
    by_cases hrm : r = m
    · rw [if_pos hrm, if_pos hrm]
      rfl
    · rw [if_neg hrm, if_neg hrm, JsonToken.word, jsonRune_plain hre]

theorem replaceAll_tokens {xs : List JsonToken} (hxs : ∀ x ∈ xs, x.IsValid) (t : GoString) :
    replaceAll (encodeRune m) (unicodeEscape 0xFFFD) (xs.flatMap JsonToken.word ++ t) =
      (xs.map (JsonToken.mark m)).flatMap JsonToken.word ++ replaceAll (encodeRune m) (unicodeEscape 0xFFFD) t := by
  induction xs with
  | nil => rfl
  | cons x xs ih =>
    rw [List.flatMap_cons, List.append_assoc, replaceAll_word hm hbig hplain (hxs x (by simp)),
      ih fun y hy => hxs y (by simp [hy]), List.map_cons, List.flatMap_cons, List.append_assoc]

theorem replaceAll_field {v : JsonField} (hv : v.IsValid) (t : GoString) :
    replaceAll (encodeRune m) (unicodeEscape 0xFFFD) (v.bytes ++ t) =
      (v.mark m).bytes ++ replaceAll (encodeRune m) (unicodeEscape 0xFFFD) t := by
  cases v with
  | text xs =>
    have hq : (0x22 : UInt8).toNat < 0x80 := by decide
    rw [JsonField.mark, JsonField.bytes, JsonField.bytes, List.cons_append, List.cons_append, List.append_assoc,
      List.cons_append, List.nil_append, replaceAll_ascii_cons hm hbig hq, replaceAll_tokens hm hbig hplain hv,
      replaceAll_ascii_cons hm hbig hq, List.cons_append, List.cons_append, List.append_assoc]
    rfl
  | number z =>
    refine replaceAll_ascii hm hbig (fun b hb => ?_) _ _
    rcases intText_digits hb with h | rfl
    · have := h.2
      omega
    · decide
  | null => exact replaceAll_ascii hm hbig (by decide +kernel) _ _

theorem replaceAll_objectText {l : List (GoString × JsonField)}
    (hkeys : ∀ e ∈ l, ∀ b ∈ e.1, b.toNat < 0x80) (hl : ∀ e ∈ l, e.2.IsValid) :
    replaceAll (encodeRune m) (unicodeEscape 0xFFFD)
      (objectText l) = objectText (l.map fun e => (e.1, e.2.mark m)) := by
  have hkey : ∀ e ∈ l, ∀ b ∈ keyText e.1, b.toNat < 0x80 := by
    intro e he b hb
    simp only [keyText, List.cons_append, List.mem_cons, List.mem_append, List.not_mem_nil, or_false] at hb
    rcases hb with rfl | hb | rfl | rfl
    · decide
    · exact hkeys e he b hb
    · decide
    · decide
  have hmembers : replaceAll (encodeRune m) (unicodeEscape 0xFFFD) (membersText l) =
      membersText (l.map fun e => (e.1, e.2.mark m)) := by
    induction l with
    | nil => exact replaceAll_ascii_cons hm hbig (by decide) _ []
    | cons e l ih =>
      obtain ⟨key, v⟩ := e
      have hk := hkey (key, v) (by simp)
      have hv : v.IsValid := hl (key, v) (by simp)
      cases l with
      | nil =>
        rw [membersText, replaceAll_ascii hm hbig hk, replaceAll_field hm hbig hplain hv,
          replaceAll_ascii_cons hm hbig (by decide)]
        rfl
      | cons e l =>
        rw [membersText, replaceAll_ascii hm hbig hk, replaceAll_field hm hbig hplain hv,
          replaceAll_ascii_cons hm hbig (by decide),
          ih (fun x hx => hkeys x (by simp [List.mem_cons.mp hx])) (fun x hx => hl x (by simp [List.mem_cons.mp hx]))
            (fun x hx => hkey x (by simp [List.mem_cons.mp hx]))]
        rfl
  rw [objectText, replaceAll_ascii_cons hm hbig (by decide), hmembers]
  rfl

end Replace
end Portlyn.Go
