import Mathlib.Algebra.Order.Ring.Nat
import Portlyn.Go.Strings

/-! # Package `net/netip`

Addresses keep the form they were written in: an IPv4 address and its IPv4-mapped IPv6 form are
different values, and so are an IPv6 address with and without a zone. `Prefix.contains` compares
values of one form only and refuses every address with a zone.

The parsers follow the loops of the library. Only success and failure are modelled, not the error
texts. -/
namespace Portlyn.Go
set_option autoImplicit false

/-! ## Addresses -/

inductive Addr
  | v4 (n : BitVec 32)
  | v6 (n : BitVec 128) (zone : GoString)
deriving DecidableEq, Repr

namespace Addr

def bitLen : Addr → ℕ
  | v4 _ => 32
  | v6 _ _ => 128

def zone : Addr → GoString
  | v4 _ => []
  | v6 _ z => z

def withoutZone : Addr → Addr
  | v4 n => v4 n
  | v6 n _ => v6 n []

def unmap : Addr → Addr
  | v4 n => v4 n
  | v6 n z => if n >>> 32 = 0xffff#128 then v4 (n.setWidth 32) else v6 n z

def mapped (n : BitVec 32) : Addr := v6 (0xffff#128 <<< 32 ||| n.setWidth 128) []

def asSlice : Addr → GoString
  | v4 n => (List.range 4).map fun i => UInt8.ofNat ((n.toNat >>> (8 * (3 - i))) % 256)
  | v6 n _ => (List.range 16).map fun i => UInt8.ofNat ((n.toNat >>> (8 * (15 - i))) % 256)

def isLoopback (a : Addr) : Bool :=
  match a.unmap with
  | v4 n => n >>> 24 = 127#32
  | v6 n _ => n = 1#128

def isPrivate (a : Addr) : Bool :=
  match a.unmap with
  | v4 n => n >>> 24 = 10#32 || n >>> 20 = 0xAC1#32 || n >>> 16 = 0xC0A8#32
  | v6 n _ => n >>> 121 = 0x7E#128

def isLinkLocalUnicast (a : Addr) : Bool :=
  match a.unmap with
  | v4 n => n >>> 16 = 0xA9FE#32
  | v6 n _ => n >>> 118 = 0x3FA#128

def isUnspecified (a : Addr) : Bool := a = v4 0#32 || a = v6 0#128 []

def isMulticast (a : Addr) : Bool :=
  match a.unmap with
  | v4 n => n >>> 28 = 0xE#32
  | v6 n _ => n >>> 120 = 0xFF#128

def isLinkLocalMulticast (a : Addr) : Bool :=
  match a.unmap with
  | v4 n => n >>> 8 = 0xE00000#32
  | v6 n _ => n >>> 112 &&& 0xFF0F#128 = 0xFF02#128

def isInterfaceLocalMulticast (a : Addr) : Bool :=
  match a with
  | v4 _ => false
  | v6 n _ => n >>> 32 ≠ 0xffff#128 && n >>> 112 &&& 0xFF0F#128 = 0xFF01#128

end Addr

/-! ## Parsing addresses -/

def isDigit (c : UInt8) : Bool := 0x30 ≤ c && c ≤ 0x39

theorem isDigit_ne {b c : UInt8} (hb : isDigit b = true) (hc : isDigit c = false) : b ≠ c := by
  rintro rfl
  rw [hb] at hc
  cases hc

theorem isDigit_notSpace {c : UInt8} (h : isDigit c = true) : NotSpace c ∧ c ≠ comma := by
  have hall : ∀ n < 256, isDigit (UInt8.ofNat n) = true → NotSpace (UInt8.ofNat n) ∧
    UInt8.ofNat n ≠ comma := by
    decide +kernel
  have hc := hall c.toNat c.toNat_lt
  rw [UInt8.ofNat_toNat] at hc
  exact hc h

def hexVal (c : UInt8) : Option ℕ :=
  if isDigit c then some (c.toNat - 0x30)
  else if 0x61 ≤ c && c ≤ 0x66 then some (c.toNat - 0x61 + 10)
  else if 0x41 ≤ c && c ≤ 0x46 then some (c.toNat - 0x41 + 10)
  else none

/-- The loop of `parseIPv4Fields`: the fields closed so far, the value of the open one and its
number of digits. -/
def parseIPv4Loop : List ℕ → ℕ → ℕ → GoString → Option (List ℕ)
  | fields, val, _, [] => if fields.length < 3 then none else some (fields ++ [val])
  | fields, val, digLen, c :: s =>
    if isDigit c then
      if digLen = 1 ∧ val = 0 then none
      else
        let val := val * 10 + (c.toNat - 0x30)
        if 255 < val then none else parseIPv4Loop fields val (digLen + 1) s
    else if c = dot then
      if digLen = 0 ∨ s = [] ∨ fields.length = 3 then none else parseIPv4Loop (fields ++ [val]) 0 0 s
    else none

def parseIPv4Fields (s : GoString) : Option (List ℕ) := parseIPv4Loop [] 0 0 s

def ofDigits (base : ℕ) (digits : List ℕ) : ℕ := digits.foldl (fun acc d => acc * base + d) 0

def parseIPv4 (s : GoString) : Option Addr :=
  (parseIPv4Fields s).map fun fields => .v4 (BitVec.ofNat 32 (ofDigits 256 fields))

def parseHexGroup (s : GoString) : Option (ℕ × GoString) :=
  let digits := (s.takeWhile fun c => (hexVal c).isSome).filterMap hexVal
  if digits = [] ∨ 4 < digits.length then none
  else some (ofDigits 16 digits, s.drop digits.length)

/-- The loop of `parseIPv6`. The first argument counts the groups that still fit; then come the
groups read so far, the position of `::` among them, and the rest of the text. -/
def parseIPv6Loop : ℕ → List ℕ → Option ℕ → GoString → Option (List ℕ × Option ℕ × GoString)
  | 0, groups, ellipsis, s => some (groups, ellipsis, s)
  | n + 1, groups, ellipsis, s =>
    match parseHexGroup s with
    | none => none
    | some (acc, rest) =>
      match rest with
      | [] => some (groups ++ [acc], ellipsis, [])
      | c :: rest =>
        if c = dot then
          -- an embedded IPv4 address replaces the last two groups
          if ellipsis = none ∧ groups.length ≠ 6 ∨ 6 < groups.length then none
          else
            match parseIPv4Fields s with
            | some [a, b, c, d] => some (groups ++ [a * 256 + b, c * 256 + d], ellipsis, [])
            | _ => none
        else if c ≠ colon then none
        else
          match rest with
          | [] => none
          | c2 :: rest2 =>
            if c2 = colon then
              if ellipsis ≠ none then none
              else if rest2 = [] then some (groups ++ [acc], some (groups.length + 1), [])
              else parseIPv6Loop n (groups ++ [acc]) (some (groups.length + 1)) rest2
            else parseIPv6Loop n (groups ++ [acc]) ellipsis (c2 :: rest2)

/-- The part of `parseIPv6` after the loop. -/
def expandEllipsis : List ℕ × Option ℕ × GoString → Option (List ℕ)
  | (groups, ellipsis, rest) =>
    if rest ≠ [] then none
    else
      match ellipsis with
      | none => if groups.length < 8 then none else some groups
      | some e =>
        if groups.length < 8 then some (groups.take e ++ List.replicate (8 - groups.length) 0 ++ groups.drop e)
        else none

def parseIPv6 (text : GoString) : Option Addr :=
  let s := cutBefore percent text
  let zone := text.drop (s.length + 1)
  if percent ∈ text ∧ zone = [] then none
  else
    let groups :=
      if hasPrefix s [colon, colon] then
        if s.length = 2 then some (List.replicate 8 0) else (parseIPv6Loop 8 [] (some 0) (s.drop 2)).bind expandEllipsis
      else (parseIPv6Loop 8 [] none s).bind expandEllipsis
    groups.map fun groups => .v6 (BitVec.ofNat 128 (ofDigits 65536 groups)) zone

def parseAddr (s : GoString) : Option Addr :=
  match s.find? fun c => c = dot || c = colon || c = percent with
  | none => none
  | some c => if c = dot then parseIPv4 s else if c = colon then parseIPv6 s else none

/-! ## Prefixes -/

structure Prefix where
  addr : Addr
  bits : ℕ
  bits_le : bits ≤ addr.bitLen
  noZone : addr.zone = []
deriving DecidableEq

theorem Addr.withoutZone_bitLen (a : Addr) : a.withoutZone.bitLen = a.bitLen := by
  cases a <;> rfl

theorem Addr.withoutZone_zone (a : Addr) : a.withoutZone.zone = [] := by
  cases a <;> rfl

def prefixFrom (a : Addr) (bits : ℕ) (h : bits ≤ a.bitLen) : Prefix where
  addr := a.withoutZone
  bits := bits
  bits_le := by rw [a.withoutZone_bitLen]; exact h
  noZone := a.withoutZone_zone

/-- `strconv.Atoi` on the digits after the slash, without sign and leading zeroes. -/
def parsePrefixBits (s : GoString) : Option ℕ :=
  if s = [] ∨ s.any (fun c => !isDigit c) ∨ (1 < s.length ∧ s.head? = some 0x30) then none
  else some (ofDigits 10 (s.map fun c => c.toNat - 0x30))

def parsePrefix (s : GoString) : Option Prefix :=
  match cutLast slash s with
  | none => none
  | some (text, bitsText) =>
    match parseAddr text, parsePrefixBits bitsText with
    | some a, some bits =>
      if h : bits ≤ a.bitLen then if a.zone ≠ [] then none else some (prefixFrom a bits h) else none
    | _, _ => none

namespace Prefix

def contains (p : Prefix) (ip : Addr) : Bool :=
  match p.addr, ip with
  | .v4 a, .v4 b => (b ^^^ a) >>> (32 - p.bits) = 0#32
  | .v6 a _, .v6 b zone => zone = [] ∧ (b ^^^ a) &&& (BitVec.allOnes 128 <<< (128 - p.bits)) = 0#128
  | _, _ => false

def masked (p : Prefix) : Prefix where
  addr :=
    match p.addr with
    | .v4 a => .v4 (a &&& (BitVec.allOnes 32 <<< (32 - p.bits)))
    | .v6 a zone => .v6 (a &&& (BitVec.allOnes 128 <<< (128 - p.bits))) zone
  bits := p.bits
  bits_le := by
    have h := p.bits_le
    cases ha : p.addr <;> rw [ha] at h <;> exact h
  noZone := by
    have h := p.noZone
    cases ha : p.addr <;> rw [ha] at h <;> exact h

def unmap (p : Prefix) : Addr × ℕ :=
  match p.addr with
  | .v6 n _ => if n >>> 32 = 0xffff#128 ∧ 96 ≤ p.bits then (.v4 (n.setWidth 32), p.bits - 96) else (p.addr, p.bits)
  | .v4 _ => (p.addr, p.bits)

theorem xor_and_high_eq_zero {w : ℕ} (a b : BitVec w) (k : ℕ) :
    (b ^^^ a) &&& (BitVec.allOnes w <<< k) = 0#w ↔ b >>> k = a >>> k := by
  constructor
  · intro h
    ext i hi
    by_cases hki : k + i < w
    · have hbit := congrArg (fun v => v.getLsbD (k + i)) h
      have hnot : ¬ k + i < k := Nat.not_lt.mpr (Nat.le_add_right k i)
      simpa [hki, hnot] using hbit
    · simp [BitVec.getLsbD_of_ge _ _ (Nat.le_of_not_lt hki)]
  · intro h
    ext i hi
    by_cases hki : i < k
    · simp [hki]
    · have hbit := congrArg (fun v => v.getLsbD (i - k)) h
      have hsum : k + (i - k) = i := by omega
      simp only [BitVec.getLsbD_ushiftRight, hsum, BitVec.getLsbD_eq_getElem hi] at hbit
      simp [hbit]

variable {p : Prefix}

theorem contains_v6 {a : BitVec 128} {zone : GoString} (hp : p.addr = .v6 a zone) (n : BitVec 128)
    (z : GoString) :
    p.contains (.v6 n z) = true ↔ z = [] ∧ n >>> (128 - p.bits) = a >>> (128 - p.bits) := by
  unfold contains
  rw [hp]
  simp only [decide_eq_true_eq, xor_and_high_eq_zero]

theorem contains_v4 {a : BitVec 32} (hp : p.addr = .v4 a) (n : BitVec 32) :
    p.contains (.v4 n) = true ↔ n >>> (32 - p.bits) = a >>> (32 - p.bits) := by
  unfold contains
  rw [hp]
  simp only [decide_eq_true_eq, BitVec.ushiftRight_xor_distrib, BitVec.xor_eq_zero_iff]

theorem ushiftRight_mono {w : ℕ} {a b : BitVec w} {k m : ℕ} (h : a >>> k = b >>> k) (hkm : k ≤ m) :
    a >>> m = b >>> m := by
  rw [← Nat.add_sub_of_le hkm, BitVec.shiftRight_add, BitVec.shiftRight_add, h]

theorem ushiftRight_masked {w : ℕ} (a : BitVec w) (k : ℕ) :
    (a &&& (BitVec.allOnes w <<< k)) >>> k = a >>> k := by
  rw [← xor_and_high_eq_zero]
  ext i hi
  by_cases hik : i < k <;> simp [hik]

theorem contains_masked (p : Prefix) (ip : Addr) : p.masked.contains ip = p.contains ip := by
  rw [Bool.eq_iff_iff]
  cases hp : p.addr with
  | v4 a =>
    have hm : p.masked.addr = .v4 (a &&& (BitVec.allOnes 32 <<< (32 - p.bits))) := by simp only [masked, hp]
    cases ip with
    | v4 n =>
      rw [contains_v4 hm, contains_v4 hp]
      exact (ushiftRight_masked a _) ▸ Iff.rfl
    | v6 n z => simp [contains, hp, hm]
  | v6 a zone =>
    have hm : p.masked.addr = .v6 (a &&& (BitVec.allOnes 128 <<< (128 - p.bits))) zone := by simp only [masked, hp]
    cases ip with
    | v4 n => simp [contains, hp, hm]
    | v6 n z =>
      rw [contains_v6 hm, contains_v6 hp]
      exact (ushiftRight_masked a _) ▸ Iff.rfl

theorem contains_of_contains {q : Prefix} {ip : Addr} (hbits : q.bits ≤ p.bits)
    (hq : q.contains p.addr = true) (h : p.contains ip = true) : q.contains ip = true := by
  cases hp : p.addr with
  | v4 a =>
    rw [hp] at hq
    cases hqa : q.addr with
    | v6 b z => simp [contains, hqa] at hq
    | v4 b =>
      cases ip with
      | v6 n z => simp [contains, hp] at h
      | v4 n =>
        rw [contains_v4 hp] at h
        rw [contains_v4 hqa] at hq ⊢
        exact (ushiftRight_mono h (Nat.sub_le_sub_left hbits 32)).trans hq
  | v6 a z =>
    rw [hp] at hq
    cases hqa : q.addr with
    | v4 b => simp [contains, hqa] at hq
    | v6 b z' =>
      cases ip with
      | v4 n => simp [contains, hp] at h
      | v6 n zone =>
        rw [contains_v6 hp] at h
        rw [contains_v6 hqa] at hq ⊢
        exact ⟨h.1, (ushiftRight_mono h.2 (Nat.sub_le_sub_left hbits 128)).trans hq.2⟩

theorem bitLen_eq_of_contains {ip : Addr} (h : p.contains ip = true) :
    p.addr.bitLen = ip.bitLen := by
  unfold contains at h
  cases hp : p.addr <;> cases ip <;> simp_all [Addr.bitLen]

theorem zone_eq_nil_of_contains {ip : Addr} (h : p.contains ip = true) : ip.zone = [] := by
  unfold contains at h
  cases hp : p.addr <;> cases ip <;> simp_all [Addr.zone]

theorem contains_self (p : Prefix) : p.contains p.addr = true := by
  have hz := p.noZone
  unfold contains
  cases hp : p.addr with
  | v4 a => simp
  | v6 a zone =>
    rw [hp] at hz
    simpa [Addr.zone] using hz

theorem contains_of_bits_eq_zero (h0 : p.bits = 0) {ip : Addr} (hlen : p.addr.bitLen = ip.bitLen)
    (hz : ip.zone = []) : p.contains ip = true := by
  unfold contains
  cases hp : p.addr with
  | v4 a =>
    cases ip with
    | v4 b => simp [h0, BitVec.ushiftRight_eq_zero]
    | v6 b z => simp [hp, Addr.bitLen] at hlen
  | v6 a z' =>
    cases ip with
    | v4 b => simp [hp, Addr.bitLen] at hlen
    | v6 b z =>
      have hz' : z = [] := hz
      simp [h0, hz']

theorem eq_of_unmap_eq {q : Prefix} (hu : p.unmap = q.unmap)
    (hlen : p.addr.bitLen = q.addr.bitLen) : p = q := by
  obtain ⟨pa, pb, ple, pz⟩ := p
  obtain ⟨qa, qb, qle, qz⟩ := q
  have key : pa = qa ∧ pb = qb := by
    cases pa with
    | v4 a =>
      cases qa with
      | v4 b => simpa [unmap] using hu
      | v6 b z => simp [Addr.bitLen] at hlen
    | v6 a z =>
      cases qa with
      | v4 b => simp [Addr.bitLen] at hlen
      | v6 b z' =>
        have hz : z = z' := by
          rw [show z = [] from pz, show z' = [] from qz]
        simp only [unmap] at hu
        split_ifs at hu with h1 h2 h2
        · obtain ⟨ha, hb⟩ := Prod.mk.inj hu
          have hlow := Addr.v4.inj ha
          refine ⟨?_, by omega⟩
          congr 1
          apply BitVec.eq_of_toNat_eq
          have e1 := congrArg BitVec.toNat h1.1
          have e2 := congrArg BitVec.toNat h2.1
          have e3 := congrArg BitVec.toNat hlow
          simp only [BitVec.toNat_ushiftRight, BitVec.toNat_setWidth] at e1 e2 e3
          omega
        · exact absurd (Prod.mk.inj hu).1 (by simp)
        · exact absurd (Prod.mk.inj hu).1 (by simp)
        · exact Prod.mk.inj hu
  obtain ⟨rfl, rfl⟩ := key
  rfl

end Prefix

/-! ## Host and port -/

def leftBracket : UInt8 := 0x5B
def rightBracket : UInt8 := 0x5D

def splitHostPort (hostport : GoString) : Option (GoString × GoString) :=
  match cutLast colon hostport with
  | none => none
  | some (before, port) =>
    if hostport.head? = some leftBracket then
      let host := cutBefore rightBracket (hostport.drop 1)
      if before ≠ leftBracket :: host ++ [rightBracket] ∨ leftBracket ∈ hostport.drop 1 ∨ rightBracket ∈ port then none
      else some (host, port)
    else if colon ∈ before ∨ leftBracket ∈ hostport ∨ rightBracket ∈ hostport then none
    else some (before, port)

def joinHostPort (host port : GoString) : GoString :=
  if colon ∈ host then leftBracket :: host ++ rightBracket :: colon :: port else host ++
    colon :: port

theorem mem_of_parseIPv4Loop {s : GoString} {fields out : List ℕ} {val digLen : ℕ}
    (h : parseIPv4Loop fields val digLen s = some out) : ∀ c ∈ s, isDigit c = true ∨ c = dot := by
  induction s generalizing fields val digLen with
  | nil => simp
  | cons c s ih =>
    rw [parseIPv4Loop] at h
    dsimp only at h
    split_ifs at h with h1 h2 h3 h4 h5
    · exact List.forall_mem_cons.mpr ⟨Or.inl h1, ih h⟩
    · exact List.forall_mem_cons.mpr ⟨Or.inr h4, ih h⟩

theorem parseAddr_leftBracket (s : GoString) : parseAddr (leftBracket :: s) = none := by
  have h4 : parseIPv4 (leftBracket :: s) = none := by
    simp [parseIPv4, parseIPv4Fields, parseIPv4Loop, isDigit, leftBracket]
  have hgroup : ∀ t, parseHexGroup (leftBracket :: t) = none := by
    intro t
    simp [parseHexGroup, hexVal, isDigit, leftBracket]
  have h6 : parseIPv6 (leftBracket :: s) = none := by
    have hcut : cutBefore percent (leftBracket :: s) = leftBracket :: cutBefore percent s := by
      simp [cutBefore, leftBracket, percent]
    have hpre : ¬ hasPrefix (leftBracket :: cutBefore percent s) [colon, colon] = true := by
      rw [hasPrefix_iff, List.cons_prefix_cons]
      exact fun hp => absurd hp.1 (by decide)
    have hloop : parseIPv6Loop 8 [] none (leftBracket :: cutBefore percent s) = none := by
      rw [parseIPv6Loop, hgroup]
    simp only [parseIPv6, hcut, if_neg hpre, hloop, Option.bind_none, Option.map_none, ite_self]
  unfold parseAddr
  split
  · rfl
  · split_ifs
    · exact h4
    · exact h6
    · rfl

theorem parseAddr_joinHostPort {host : GoString} {a : Addr} (h : parseAddr host = some a)
    (port : GoString) : parseAddr (joinHostPort host port) = none := by
  unfold joinHostPort
  split_ifs with hc
  · exact parseAddr_leftBracket _
  · -- without a colon the host was read as IPv4, and a colon stops that reading
    unfold parseAddr at h
    split at h
    · exact absurd h (by simp)
    · rename_i c hf
      have hcm := List.mem_of_find?_eq_some hf
      have hdot : c = dot := by
        by_contra hd
        by_cases hcc : c = colon
        · exact hc (hcc ▸ hcm)
        · rw [if_neg hd, if_neg hcc] at h
          exact absurd h (by simp)
      have hf' : (host ++ colon :: port).find? (fun c => c = dot || c = colon || c = percent) = some c := by
        rw [List.find?_append, hf]
        rfl
      unfold parseAddr
      rw [hf']
      simp only [hdot]
      cases hp : parseIPv4 (host ++ colon :: port) with
      | none => rfl
      | some b =>
        exfalso
        rw [parseIPv4, Option.map_eq_some_iff] at hp
        obtain ⟨fields, hfields, -⟩ := hp
        have hmem := mem_of_parseIPv4Loop hfields colon (by simp)
        exact absurd hmem (by decide)

/-! ## `Addr.String` and `Prefix.String`

The text of an IPv4 address is read back as the address (`parseAddr_string4`), and nothing is
trimmed from it. -/

/-- `appendDecimal` for one byte. -/
def octetText (x : ℕ) : GoString :=
  (if 100 ≤ x then [UInt8.ofNat (0x30 + x / 100)] else []) ++
    (if 10 ≤ x then [UInt8.ofNat (0x30 + x / 10 % 10)] else []) ++
    [UInt8.ofNat (0x30 + x % 10)]

def octets (n : BitVec 32) : List ℕ :=
  [n.toNat / 2 ^ 24, n.toNat / 2 ^ 16 % 256, n.toNat / 2 ^ 8 % 256, n.toNat % 256]

def string4 (n : BitVec 32) : GoString :=
  octetText (n.toNat / 2 ^ 24) ++
    dot :: (octetText (n.toNat / 2 ^ 16 % 256) ++ dot :: (octetText (n.toNat / 2 ^ 8 % 256) ++
    dot :: octetText (n.toNat % 256)))

/-- `appendHex` for a group of an IPv6 address. -/
def groupText (x : ℕ) : GoString :=
  (if 0x1000 ≤ x then [lowerHex (x / 0x1000)] else []) ++
    (if 0x100 ≤ x then [lowerHex (x / 0x100 % 16)] else []) ++
    (if 0x10 ≤ x then [lowerHex (x / 0x10 % 16)] else []) ++ [lowerHex (x % 16)]

def groups (n : BitVec 128) : List ℕ := (List.range 8).map fun i =>
    n.toNat >>> (16 * (7 - i)) % 2 ^ 16

/-- The start and the length of the first of the longest runs of zero groups, if it has two or more.
-/
def longestZeros (groups : List ℕ) : ℕ × ℕ :=
  (List.range 8).foldl (fun best i =>
    let run := ((groups.drop i).takeWhile (· = 0)).length
    if 2 ≤ run ∧ best.2 < run then (i, run) else best) (8, 0)

def string6 (n : BitVec 128) : GoString :=
  let texts := (groups n).map groupText
  let (start, run) := longestZeros (groups n)
  if run = 0 then [colon].intercalate texts
  else [colon].intercalate (texts.take start) ++
    colon :: colon :: [colon].intercalate (texts.drop (start + run))

def Addr.string : Addr → GoString
  | .v4 n => string4 n
  | .v6 n zone =>
    (if n >>> 32 = 0xffff#128 then str "::ffff:" ++ string4 (n.setWidth 32) else string6 n) ++
      if zone = [] then [] else percent :: zone

def Prefix.string (p : Prefix) : GoString := p.addr.string ++ slash :: octetText p.bits

example : (parsePrefix (str "2001:DB8:0:0:1:0:0:0/64")).map Prefix.string =
    some (str "2001:db8:0:0:1::/64") := by
  decide +kernel

theorem digit_byte {d : ℕ} (h : d < 10) :
    isDigit (UInt8.ofNat (0x30 + d)) = true ∧ (UInt8.ofNat (0x30 + d)).toNat - 0x30 = d := by
  have hall : ∀ d : Fin 10, isDigit (UInt8.ofNat (0x30 + d)) = true ∧
    (UInt8.ofNat (0x30 + d)).toNat - 0x30 = d.val := by
    decide +kernel
  exact hall ⟨d, h⟩

theorem parseIPv4Loop_digit {fields : List ℕ} {val digLen d : ℕ} {rest : GoString} (hd : d < 10)
    (hzero : ¬ (digLen = 1 ∧ val = 0)) (hval : val * 10 + d ≤ 255) :
    parseIPv4Loop fields val digLen (UInt8.ofNat (0x30 + d) :: rest) =
      parseIPv4Loop fields (val * 10 + d) (digLen + 1) rest := by
  obtain ⟨hdigit, hvalue⟩ := digit_byte hd
  rw [parseIPv4Loop, if_pos hdigit, if_neg hzero]
  rw [hvalue, if_neg (Nat.not_lt.mpr hval)]

theorem parseIPv4Loop_octet (fields : List ℕ) {x : ℕ} (rest : GoString) (hx : x < 256) :
    ∃ digLen, 0 < digLen ∧ parseIPv4Loop fields 0 0 (octetText x ++ rest) = parseIPv4Loop fields x digLen rest := by
  by_cases h100 : 100 ≤ x
  · refine ⟨3, by omega, ?_⟩
    have h10 : 10 ≤ x := by omega
    rw [octetText, if_pos h100, if_pos h10]
    simp only [List.cons_append, List.nil_append]
    rw [parseIPv4Loop_digit (by omega) (by omega) (by omega), parseIPv4Loop_digit (by omega) (by omega) (by omega),
      parseIPv4Loop_digit (by omega) (by omega) (by omega)]
    congr 1
    omega
  · by_cases h10 : 10 ≤ x
    · refine ⟨2, by omega, ?_⟩
      rw [octetText, if_neg h100, if_pos h10]
      simp only [List.cons_append, List.nil_append]
      rw [parseIPv4Loop_digit (by omega) (by omega) (by omega), parseIPv4Loop_digit (by omega) (by omega) (by omega)]
      congr 1
      omega
    · refine ⟨1, by omega, ?_⟩
      rw [octetText, if_neg h100, if_neg h10]
      simp only [List.cons_append, List.nil_append]
      rw [parseIPv4Loop_digit (by omega) (by omega) (by omega)]
      congr 1
      omega

theorem octetText_ne_nil (x : ℕ) : octetText x ≠ [] :=
  List.append_ne_nil_of_right_ne_nil _ (List.cons_ne_nil _ _)

theorem parseIPv4Loop_field {fields : List ℕ} {x : ℕ} {rest : GoString} (hx : x < 256)
    (hrest : rest ≠ []) (hfields : fields.length ≠ 3) :
    parseIPv4Loop fields 0 0 (octetText x ++ dot :: rest) =
      parseIPv4Loop (fields ++ [x]) 0 0 rest := by
  obtain ⟨digLen, hpos, hloop⟩ := parseIPv4Loop_octet fields (dot :: rest) hx
  have hdot : ¬ isDigit dot = true := by decide
  have hok : ¬ (digLen = 0 ∨ rest = [] ∨ fields.length = 3) := by
    rintro (h | h | h)
    · omega
    · exact hrest h
    · exact hfields h
  rw [hloop, parseIPv4Loop, if_neg hdot, if_pos rfl, if_neg hok]

theorem parseIPv4Fields_string4 (n : BitVec 32) :
    parseIPv4Fields (string4 n) = some (octets n) := by
  have h3 : n.toNat % 256 < 256 := Nat.mod_lt _ (by decide)
  obtain ⟨digLen, -, hlast⟩ :=
    parseIPv4Loop_octet [n.toNat / 2 ^ 24, n.toNat / 2 ^ 16 % 256, n.toNat / 2 ^ 8 % 256] [] h3
  rw [List.append_nil] at hlast
  rw [parseIPv4Fields, string4, parseIPv4Loop_field (by omega)
    (List.append_ne_nil_of_left_ne_nil (octetText_ne_nil _) _) (by decide),
    parseIPv4Loop_field (by omega) (List.append_ne_nil_of_left_ne_nil (octetText_ne_nil _) _)
    (by simp),
    parseIPv4Loop_field (by omega) (octetText_ne_nil _) (by simp)]
  exact hlast

theorem parseAddr_string4 (n : BitVec 32) : parseAddr (string4 n) = some (.v4 n) := by
  have hfields := parseIPv4Fields_string4 n
  have hchars := mem_of_parseIPv4Loop hfields
  have hmem : dot ∈ string4 n := List.mem_append_right _ List.mem_cons_self
  -- the first punctuation mark is a dot, for there is no other
  have hfind : (string4 n).find? (fun c => c = dot || c = colon || c = percent) = some dot := by
    cases hf : (string4 n).find? (fun c => c = dot || c = colon || c = percent) with
    | none => exact absurd (by decide) (List.find?_eq_none.mp hf dot hmem)
    | some c =>
      have hc := List.find?_some hf
      rcases hchars c (List.mem_of_find?_eq_some hf) with hdigit | rfl
      · simp [isDigit_ne hdigit (c := dot) (by decide), isDigit_ne hdigit (c := colon) (by decide),
          isDigit_ne hdigit (c := percent) (by decide)] at hc
      · rfl
  have hvalue : ofDigits 256 (octets n) = n.toNat := by
    simp only [ofDigits, octets, List.foldl_cons, List.foldl_nil]
    omega
  rw [parseAddr, hfind]
  dsimp only
  rw [if_pos rfl, parseIPv4, hfields, Option.map_some, hvalue, BitVec.ofNat_toNat,
    BitVec.setWidth_eq]

theorem string4_notSpace (n : BitVec 32) : ∀ b ∈ string4 n, NotSpace b := by
  intro b hb
  rcases mem_of_parseIPv4Loop (parseIPv4Fields_string4 n) b hb with hdigit | rfl
  · exact (isDigit_notSpace hdigit).1
  · decide

theorem trimSpace_string4 (n : BitVec 32) : trimSpace (string4 n) = string4 n ∧ string4 n ≠ [] :=
  ⟨trimSpace_eq_self_of_notSpace (string4_notSpace n),
    List.append_ne_nil_of_left_ne_nil (octetText_ne_nil _) _⟩

end Portlyn.Go
