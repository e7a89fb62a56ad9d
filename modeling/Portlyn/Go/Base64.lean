import Mathlib.Algebra.Order.Ring.Nat
import Portlyn.Go.Strings

/-! # Package `encoding/base64`

`StdEncoding` is not strict: the decoder skips line ends wherever they stand and does not look at
the bits of the last character that no byte is made of. So one sequence of bytes has many texts, of
which `EncodeToString` writes one. -/
namespace Portlyn.Go.Base64
set_option autoImplicit false

/-! ## The alphabet -/

def encodeChar (n : ℕ) : UInt8 :=
  if n < 26 then UInt8.ofNat (0x41 + n)
  else if n < 52 then UInt8.ofNat (0x61 + (n - 26))
  else if n < 62 then UInt8.ofNat (0x30 + (n - 52))
  else if n = 62 then 0x2B
  else 0x2F

/-- `decodeMap`, where `none` stands for `0xff`. -/
def decodeChar (c : UInt8) : Option ℕ :=
  if 0x41 ≤ c ∧ c ≤ 0x5A then some (c.toNat - 0x41)
  else if 0x61 ≤ c ∧ c ≤ 0x7A then some (c.toNat - 0x61 + 26)
  else if 0x30 ≤ c ∧ c ≤ 0x39 then some (c.toNat - 0x30 + 52)
  else if c = 0x2B then some 62
  else if c = 0x2F then some 63
  else none

def padChar : UInt8 := 0x3D

def isNewline (c : UInt8) : Bool := c = 0x0A || c = 0x0D

/-! ## Both directions -/

def quantum (x y z u : ℕ) : List UInt8 :=
  let val := x * 2 ^ 18 + y * 2 ^ 12 + z * 2 ^ 6 + u
  [UInt8.ofNat (val / 2 ^ 16), UInt8.ofNat (val / 2 ^ 8 % 256), UInt8.ofNat (val % 256)]

/-- `decodeQuantum`, quantum after quantum, on a text without line ends. Padding ends the text. -/
def decodeQuanta : GoString → Option GoString
  | [] => some []
  | a :: b :: c :: d :: rest => do
    let x ← decodeChar a
    let y ← decodeChar b
    if c = padChar then if d = padChar ∧ rest = [] then some ((quantum x y 0 0).take 1) else none
    else
      let z ← decodeChar c
      if d = padChar then if rest = [] then some ((quantum x y z 0).take 2) else none
      else
        let u ← decodeChar d
        let bytes ← decodeQuanta rest
        return quantum x y z u ++ bytes
  | _ => none

def decodeString (s : GoString) : Option GoString := decodeQuanta (s.filter fun c => !isNewline c)

def characters (a b c : UInt8) : GoString :=
  let val := a.toNat * 2 ^ 16 + b.toNat * 2 ^ 8 + c.toNat
  [encodeChar (val / 2 ^ 18), encodeChar (val / 2 ^ 12 % 64), encodeChar (val / 2 ^ 6 % 64),
    encodeChar (val % 64)]

def encodeToString : GoString → GoString
  | [] => []
  | [a] => (characters a 0 0).take 2 ++ [padChar, padChar]
  | [a, b] => (characters a b 0).take 3 ++ [padChar]
  | a :: b :: c :: rest => characters a b c ++ encodeToString rest

/-! ### `RawURLEncoding` -/

/-- The last two characters of the alphabet, in either direction. -/
def swapURL (c : UInt8) : UInt8 :=
  if c = 0x2B then 0x2D else if c = 0x2F then 0x5F else if c = 0x2D then 0x2B else if c = 0x5F then
    0x2F else c

def rawURLEncode (s : GoString) : GoString := ((encodeToString s).filter (· ≠ padChar)).map swapURL

def rawURLDecode (s : GoString) : Option GoString :=
  let text := s.filter fun c => !isNewline c
  if text.any fun c => c = 0x2B || c = 0x2F || c = padChar then none
  else decodeQuanta (text.map swapURL ++ List.replicate ((4 - text.length % 4) % 4) padChar)

example : rawURLEncode [0xFB, 0xFF] = str "-_8" ∧ rawURLDecode (str "-_8") = some [0xFB, 0xFF] := by
  decide +kernel

/-- A text that `EncodeToString` writes. -/
def Canonical (s : GoString) : Prop := ∃ bytes, decodeString s = some bytes ∧
    encodeToString bytes = s

instance decidableCanonical (s : GoString) : Decidable (Canonical s) :=
  decidable_of_iff ((decodeString s).any fun bytes => encodeToString bytes = s) (by
    rw [Option.any_eq_true, Canonical]
    simp only [decide_eq_true_eq])

theorem Canonical.ext {s s' : GoString} (h : Canonical s) (h' : Canonical s')
    (heq : decodeString s = decodeString s') : s = s' := by
  obtain ⟨bytes, hdecode, hencode⟩ := h
  obtain ⟨bytes', hdecode', hencode'⟩ := h'
  rw [hdecode, hdecode', Option.some.injEq] at heq
  rw [← hencode, ← hencode', heq]

/-! ## What is encoded is decoded again -/

theorem decodeChar_encodeChar {n : ℕ} (h : n < 64) : decodeChar (encodeChar n) = some n := by
  have hall : ∀ m : Fin 64, decodeChar (encodeChar m) = some m.val := by decide +kernel
  exact hall ⟨n, h⟩

theorem encodeChar_plain {n : ℕ} (h : n < 64) :
    encodeChar n ≠ padChar ∧ NotSpace (encodeChar n) := by
  have hall : ∀ m : Fin 64, encodeChar m ≠ padChar ∧ NotSpace (encodeChar m) := by decide +kernel
  exact hall ⟨n, h⟩

theorem quantum_characters (a b c : UInt8) :
    let val := a.toNat * 2 ^ 16 + b.toNat * 2 ^ 8 + c.toNat
    quantum (val / 2 ^ 18) (val / 2 ^ 12 % 64) (val / 2 ^ 6 % 64) (val % 64) = [a, b, c] := by
  have hb := b.toNat_lt
  have hc := c.toNat_lt
  have hval : ∀ v, v / 2 ^ 18 * 2 ^ 18 + v / 2 ^ 12 % 64 * 2 ^ 12 + v / 2 ^ 6 % 64 * 2 ^ 6 +
    v % 64 = v := by
    intro v
    omega
  dsimp only [quantum]
  rw [hval]
  have h0 : (a.toNat * 2 ^ 16 + b.toNat * 2 ^ 8 + c.toNat) / 2 ^ 16 = a.toNat := by omega
  have h1 : (a.toNat * 2 ^ 16 + b.toNat * 2 ^ 8 + c.toNat) / 2 ^ 8 % 256 = b.toNat := by omega
  have h2 : (a.toNat * 2 ^ 16 + b.toNat * 2 ^ 8 + c.toNat) % 256 = c.toNat := by omega
  rw [h0, h1, h2, UInt8.ofNat_toNat, UInt8.ofNat_toNat, UInt8.ofNat_toNat]

theorem characters_lt (a b c : UInt8) :
    (a.toNat * 2 ^ 16 + b.toNat * 2 ^ 8 + c.toNat) / 2 ^ 18 < 64 := by
  have ha := a.toNat_lt
  have hb := b.toNat_lt
  have hc := c.toNat_lt
  omega

theorem decodeQuanta_encodeToString (s : GoString) : decodeQuanta (encodeToString s) = some s := by
  have hmod : ∀ n, n % 64 < 64 := fun n => Nat.mod_lt n (by decide)
  induction s using encodeToString.induct with
  | case1 => rfl
  | case2 a =>
    have hbytes := quantum_characters a 0 0
    dsimp only at hbytes
    -- the bits that no byte is made of are zero in what is written
    have hz : (a.toNat * 2 ^ 16 + UInt8.toNat 0 * 2 ^ 8 + UInt8.toNat 0) / 2 ^ 6 % 64 = 0 := by
      simp only [UInt8.toNat_ofNat]
      omega
    have hu : (a.toNat * 2 ^ 16 + UInt8.toNat 0 * 2 ^ 8 + UInt8.toNat 0) % 64 = 0 := by
      simp only [UInt8.toNat_ofNat]
      omega
    rw [hz, hu] at hbytes
    simp only [encodeToString, characters, List.take_succ_cons, List.take_zero, List.cons_append,
      List.nil_append, decodeQuanta,
      decodeChar_encodeChar (characters_lt a 0 0), decodeChar_encodeChar (hmod _),
      Option.bind_eq_bind, Option.bind_some, if_true,
      and_self, hbytes]
  | case3 a b =>
    have hbytes := quantum_characters a b 0
    dsimp only at hbytes
    have hu : (a.toNat * 2 ^ 16 + b.toNat * 2 ^ 8 + UInt8.toNat 0) % 64 = 0 := by
      simp only [UInt8.toNat_ofNat]
      omega
    rw [hu] at hbytes
    simp only [encodeToString, characters, List.take_succ_cons, List.take_zero, List.cons_append,
      List.nil_append, decodeQuanta,
      decodeChar_encodeChar (characters_lt a b 0), decodeChar_encodeChar (hmod _),
      Option.bind_eq_bind, Option.bind_some, if_true,
      (encodeChar_plain (hmod _)).1, if_false, hbytes]
  | case4 a b c rest ih =>
    have hbytes := quantum_characters a b c
    simp only [encodeToString, characters, List.cons_append, List.nil_append, decodeQuanta,
      decodeChar_encodeChar (characters_lt a b c), decodeChar_encodeChar (hmod _),
      Option.bind_eq_bind, Option.bind_some,
      (encodeChar_plain (hmod _)).1, if_false, ih, hbytes, Option.pure_def]

theorem encodeToString_notSpace (s : GoString) : ∀ c ∈ encodeToString s, NotSpace c := by
  have hmod : ∀ n, NotSpace (encodeChar (n % 64)) :=
    fun n => (encodeChar_plain (Nat.mod_lt n (by decide))).2
  have hpad : NotSpace padChar := by decide
  have hchars : ∀ a b c, ∀ x ∈ characters a b c, NotSpace x := by
    intro a b c x hx
    simp only [characters, List.mem_cons, List.not_mem_nil, or_false] at hx
    rcases hx with rfl | rfl | rfl | rfl
    · exact (encodeChar_plain (characters_lt a b c)).2
    all_goals exact hmod _
  induction s using encodeToString.induct with
  | case1 => exact fun c hc => absurd hc List.not_mem_nil
  | case2 a =>
    intro x hx
    rcases List.mem_append.mp hx with hx | hx
    · exact hchars a 0 0 x (List.mem_of_mem_take hx)
    · rw [List.eq_of_mem_replicate (n := 2) hx]
      exact hpad
  | case3 a b =>
    intro x hx
    rcases List.mem_append.mp hx with hx | hx
    · exact hchars a b 0 x (List.mem_of_mem_take hx)
    · rw [List.mem_singleton.mp hx]
      exact hpad
  | case4 a b c rest ih =>
    intro x hx
    rcases List.mem_append.mp hx with hx | hx
    · exact hchars a b c x hx
    · exact ih x hx

theorem trimSpace_encodeToString (s : GoString) : trimSpace (encodeToString s) = encodeToString s :=
  trimSpace_eq_self_of_notSpace (encodeToString_notSpace s)

theorem decodeString_encodeToString (s : GoString) : decodeString (encodeToString s) = some s := by
  have hfilter : (encodeToString s).filter (fun c => !isNewline c) = encodeToString s := by
    refine List.filter_eq_self.mpr fun c hc => ?_
    have hspace := encodeToString_notSpace s c hc
    rw [Bool.not_eq_true', isNewline, Bool.or_eq_false_iff, decide_eq_false_iff_not, decide_eq_false_iff_not]
    exact ⟨fun h => absurd (h ▸ hspace) (by decide), fun h => absurd (h ▸ hspace) (by decide)⟩
  rw [decodeString, hfilter]
  exact decodeQuanta_encodeToString s

theorem length_decodeQuanta {s bytes : GoString} (h : decodeQuanta s = some bytes) :
    bytes.length ≤ s.length := by
  induction s using decodeQuanta.induct generalizing bytes with
  | case1 =>
    cases h
    exact Nat.le_refl _
  | case2 a b c d rest ih =>
    simp only [decodeQuanta, Option.bind_eq_bind, Option.bind_eq_some_iff] at h
    obtain ⟨x, -, y, -, h⟩ := h
    have hquantum : ∀ x y z u, (quantum x y z u).length = 3 := fun _ _ _ _ => rfl
    have htake : ∀ n x y z u, ((quantum x y z u).take n).length ≤ 3 := fun n x y z u =>
      (List.length_take_le' n _).trans (Nat.le_of_eq (hquantum x y z u))
    rw [List.length_cons, List.length_cons, List.length_cons, List.length_cons]
    split at h
    · split at h
      · cases h
        have := htake 1 x y 0 0
        omega
      · cases h
    · rw [Option.bind_eq_some_iff] at h
      obtain ⟨z, -, h⟩ := h
      split at h
      · split at h
        · cases h
          have := htake 2 x y z 0
          omega
        · cases h
      · rw [Option.bind_eq_some_iff] at h
        obtain ⟨u, -, h⟩ := h
        rw [Option.bind_eq_some_iff] at h
        obtain ⟨decoded, hdecoded, h⟩ := h
        cases h
        have := ih hdecoded
        rw [List.length_append, hquantum]
        omega
  | case3 s hnil hcons =>
    rw [decodeQuanta] at h
    · cases h
    · exact hnil
    · exact hcons

theorem length_decodeString {s bytes : GoString} (h : decodeString s = some bytes) :
    bytes.length ≤ s.length :=
  (length_decodeQuanta h).trans (List.length_filter_le _ _)

theorem canonical_encodeToString (s : GoString) : Canonical (encodeToString s) :=
  ⟨s, decodeString_encodeToString s, rfl⟩

end Portlyn.Go.Base64
