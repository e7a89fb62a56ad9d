import Portlyn.Go.Netip

/-! # The guard of outgoing connections (`netguard/netguard.go`, `makeDialControl` in
`proxy/transport.go`)

An IPv4 address can be written as an IPv6 address in three ways, and an IPv6 address can carry a
zone. The guard brings an address into one form before it judges it, but it finds the form with
prefixes, and a prefix holds no address with a zone. -/
namespace Portlyn.Netguard
open Go
set_option autoImplicit false

/-! ## Addresses -/

def blockedCIDRs : List Prefix :=
  [str "169.254.0.0/16", str "fe80::/10", str "fd00:ec2::/32", str "224.0.0.0/4", str "ff00::/8",
    str "255.255.255.255/32",
    str "0.0.0.0/8", str "::/128", str "100.64.0.0/10"].filterMap parsePrefix

def nat64Prefix : Prefix := (parsePrefix (str "64:ff9b::/96")).get (by decide +kernel)

def sixToFourPrefix : Prefix := (parsePrefix (str "2002::/16")).get (by decide +kernel)

def embeddedIPv4 : Addr → Option Addr
  | .v4 _ => none
  | .v6 n zone =>
    if nat64Prefix.contains (.v6 n zone) then some (.v4 (n.setWidth 32))
    else if sixToFourPrefix.contains (.v6 n zone) then some (.v4 ((n >>> 80).setWidth 32))
    else none

def canonicalAddr (addr : Addr) : Addr := (embeddedIPv4 addr.unmap).getD addr.unmap

def isBlockedAddr (addr : Addr) : Bool :=
  let addr := canonicalAddr addr
  if addr.isUnspecified || addr.isMulticast || addr.isLinkLocalUnicast ||
    addr.isLinkLocalMulticast || addr.isInterfaceLocalMulticast then
    true
  else blockedCIDRs.any fun p => p.contains addr

def isBlockedAddrStrict (addr : Addr) : Bool :=
  if isBlockedAddr addr then true
  else
    let addr := canonicalAddr addr
    addr.isLoopback || addr.isPrivate

def blocked (addr : Addr) (allowPrivate : Bool) : Bool :=
  if isBlockedAddr addr then true
  else
    let canonical := canonicalAddr addr
    if canonical.isLoopback then true
    else if allowPrivate then false
    else canonical.isPrivate

/-! ## Dialling -/

inductive DialError
  | invalidAddress (address : GoString)
  | unresolvedAddress (host : GoString)
  /-- `egress to … is blocked` -/
  | egressBlocked (host : GoString)
  /-- `connection to blocked address … denied` -/
  | denied (host : GoString)
deriving DecidableEq

/-- A control that refuses the addresses that `rejects` does. -/
def controlWith (rejects : Addr → Bool) (refusal : GoString → DialError) (address : GoString) :
    Except DialError Unit :=
  match splitHostPort address with
  | none => .error (.invalidAddress address)
  | some (host, _) =>
    match parseAddr host with
    | none => .error (.unresolvedAddress host)
    | some addr => if rejects addr then .error (refusal host) else .ok ()

def dialControl (allowPrivate : Bool) : GoString → Except DialError Unit :=
  controlWith (fun addr => blocked addr allowPrivate) .egressBlocked

def makeDialControl (blockPrivate : Bool) : GoString → Except DialError Unit :=
  controlWith (fun addr => if blockPrivate then isBlockedAddrStrict addr
    else isBlockedAddr addr) .denied

/-! ## The forms of an address -/

inductive Form : Addr → Addr → Prop
  | mapped (n : BitVec 32) : Form (.v4 n) (.mapped n)
  | nat64 (n : BitVec 32) : Form (.v4 n) (.v6 (0x64ff9b#128 <<< 96 ||| n.setWidth 128) [])
  /-- The last 80 bits of a 6to4 address are free. -/
  | sixToFour (n : BitVec 32) (rest : BitVec 80) :
      Form (.v4 n) (.v6 (0x2002#128 <<< 112 ||| n.setWidth 128 <<< 80 ||| rest.setWidth 128) [])
  | zone (n : BitVec 128) (z z' : GoString) : Form (.v6 n z) (.v6 n z')

def destination : Addr → Addr
  | .v4 n => .v4 n
  | .v6 n _ =>
    if n >>> 32 = 0xffff#128 then .v4 (n.setWidth 32)
    else if n >>> 32 = 0x64ff9b0000000000000000#128 then .v4 (n.setWidth 32)
    else if n >>> 112 = 0x2002#128 then .v4 ((n >>> 80).setWidth 32)
    else .v6 n []

theorem setWidth_ushiftRight_eq_zero {v : ℕ} (n : BitVec v) (w : ℕ) {k : ℕ} (hk : v ≤ k) :
    n.setWidth w >>> k = 0#w := by
  apply BitVec.eq_of_toNat_eq
  have hlt : n.toNat % 2 ^ w < 2 ^ k := calc
    n.toNat % 2 ^ w ≤ n.toNat := Nat.mod_le _ _
    _ < 2 ^ v := n.isLt
    _ ≤ 2 ^ k := Nat.pow_le_pow_right Nat.two_pos hk
  rw [BitVec.toNat_ushiftRight, BitVec.toNat_setWidth, Nat.shiftRight_eq_div_pow,
    Nat.div_eq_of_lt hlt]
  rfl

theorem setWidth_shiftLeft_ushiftRight (n : BitVec 32) :
    (n.setWidth 128 <<< 80) >>> 80 = n.setWidth 128 := by
  apply BitVec.eq_of_toNat_eq
  simp only [BitVec.toNat_ushiftRight, BitVec.toNat_shiftLeft, BitVec.toNat_setWidth]
  omega

theorem setWidth_shiftLeft_ushiftRight_eq_zero (n : BitVec 32) :
    (n.setWidth 128 <<< 80) >>> 112 = 0#128 := by
  rw [show 112 = 80 + 32 from rfl, BitVec.shiftRight_add, setWidth_shiftLeft_ushiftRight,
    setWidth_ushiftRight_eq_zero n 128 (Nat.le_refl 32)]

theorem setWidth_or {c : BitVec 128} (hc : c.setWidth 32 = 0#32) (n : BitVec 32) :
    (c ||| n.setWidth 128).setWidth 32 = n := by
  rw [BitVec.setWidth_or, hc, BitVec.setWidth_setWidth_of_le _ (by decide), BitVec.setWidth_eq,
    BitVec.zero_or]

theorem destination_form {a b : Addr} (h : Form a b) : destination b = destination a := by
  cases h with
  | mapped n =>
    have hhigh : (0xffff#128 <<< 32 ||| n.setWidth 128) >>> 32 = 0xffff#128 := by
      rw [BitVec.ushiftRight_or_distrib, setWidth_ushiftRight_eq_zero n 128 (Nat.le_refl 32)]
      rfl
    change destination (.v6 _ []) = .v4 n
    rw [destination, if_pos hhigh, setWidth_or rfl]
  | nat64 n =>
    have hhigh : (0x64ff9b#128 <<< 96 ||| n.setWidth 128) >>> 32 = 0x64ff9b0000000000000000#128 := by
      rw [BitVec.ushiftRight_or_distrib, setWidth_ushiftRight_eq_zero n 128 (Nat.le_refl 32)]
      rfl
    change destination (.v6 _ []) = .v4 n
    rw [destination, hhigh, if_neg (by decide), if_pos rfl, setWidth_or rfl]
  | sixToFour n rest =>
    have hhigh : (0x2002#128 <<< 112 ||| n.setWidth 128 <<< 80 ||| rest.setWidth 128) >>> 112 = 0x2002#128 := by
      rw [BitVec.ushiftRight_or_distrib, BitVec.ushiftRight_or_distrib, setWidth_shiftLeft_ushiftRight_eq_zero,
        setWidth_ushiftRight_eq_zero rest 128 (by decide)]
      rfl
    have hlow : ((0x2002#128 <<< 112 ||| n.setWidth 128 <<< 80 ||| rest.setWidth 128) >>> 80).setWidth 32 = n := by
      rw [BitVec.ushiftRight_or_distrib, BitVec.ushiftRight_or_distrib, setWidth_shiftLeft_ushiftRight,
        setWidth_ushiftRight_eq_zero rest 128 (Nat.le_refl 80), BitVec.or_zero, setWidth_or rfl]
    generalize 0x2002#128 <<< 112 ||| n.setWidth 128 <<< 80 ||| rest.setWidth 128 = x at hhigh hlow
    have hother : ∀ c : BitVec 128, c >>> 80 ≠ 0x2002#128 → x >>> 32 ≠ c := by
      rintro _ hc rfl
      rw [← BitVec.shiftRight_add] at hc
      exact hc hhigh
    change destination (.v6 x []) = .v4 n
    rw [destination, if_neg (hother 0xffff#128 (by decide)),
      if_neg (hother 0x64ff9b0000000000000000#128 (by decide)), if_pos hhigh, hlow]
  | zone n z z' => rfl

theorem nat64_contains (n : BitVec 128) (z : GoString) :
    nat64Prefix.contains (.v6 n z) = true ↔ z = [] ∧ n >>> 32 = 0x64ff9b0000000000000000#128 := by
  have hp : nat64Prefix.addr = .v6 (0x64ff9b#128 <<< 96) [] := by decide +kernel
  have hbits : nat64Prefix.bits = 96 := by decide +kernel
  rw [Prefix.contains_v6 hp, hbits]
  rfl

theorem sixToFour_contains (n : BitVec 128) (z : GoString) :
    sixToFourPrefix.contains (.v6 n z) = true ↔ z = [] ∧ n >>> 112 = 0x2002#128 := by
  have hp : sixToFourPrefix.addr = .v6 (0x2002#128 <<< 112) [] := by decide +kernel
  have hbits : sixToFourPrefix.bits = 16 := by decide +kernel
  rw [Prefix.contains_v6 hp, hbits]
  rfl

/-! ## What is rejected -/

inductive Rule
  | isBlockedAddr
  | isBlockedAddrStrict
  | blocked (allowPrivate : Bool)

def Rule.rejects : Rule → Addr → Bool
  | .isBlockedAddr => Netguard.isBlockedAddr
  | .isBlockedAddrStrict => Netguard.isBlockedAddrStrict
  | .blocked allowPrivate => fun addr => Netguard.blocked addr allowPrivate

def Rule.control : Rule → GoString → Except DialError Unit
  | .isBlockedAddr => makeDialControl false
  | .isBlockedAddrStrict => makeDialControl true
  | .blocked allowPrivate => dialControl allowPrivate

def Rule.allowsPrivate : Rule → Bool
  | .isBlockedAddr => true
  | .isBlockedAddrStrict => false
  | .blocked allowPrivate => allowPrivate

def Rule.Misses (rule : Rule) : Addr → Prop
  | .v4 _ => False
  | .v6 n z =>
      z ≠ [] ∧ (n = 0#128 ∨ n >>> 32 = 0x64ff9b0000000000000000#128 ∨ n >>> 112 = 0x2002#128 ∨
      rule.allowsPrivate = true ∧ n >>> 96 = 0xfd000ec2#128)

/-- What `IsBlockedAddr` asks of an address in canonical form. -/
def listed (addr : Addr) : Bool :=
  addr.isUnspecified || addr.isMulticast || addr.isLinkLocalUnicast || addr.isLinkLocalMulticast ||
    addr.isInterfaceLocalMulticast ||
    blockedCIDRs.any fun p => p.contains addr

def Rule.rejectsLoopback : Rule → Bool
  | .isBlockedAddr => false
  | _ => true

def Rule.judges (rule : Rule) (addr : Addr) : Bool :=
  listed addr || rule.rejectsLoopback && addr.isLoopback || !rule.allowsPrivate && addr.isPrivate

theorem isBlockedAddr_eq (addr : Addr) : isBlockedAddr addr = listed (canonicalAddr addr) := by
  unfold isBlockedAddr listed
  cases hkinds : (canonicalAddr addr).isUnspecified || (canonicalAddr addr).isMulticast ||
    (canonicalAddr addr).isLinkLocalUnicast ||
    (canonicalAddr addr).isLinkLocalMulticast || (canonicalAddr addr).isInterfaceLocalMulticast <;>
    simp [hkinds]

theorem Rule.rejects_eq (rule : Rule) (addr : Addr) :
    rule.rejects addr = rule.judges (canonicalAddr addr) := by
  cases rule with
  | isBlockedAddr =>
    simp [Rule.rejects, Rule.judges, Rule.rejectsLoopback, Rule.allowsPrivate, isBlockedAddr_eq]
  | isBlockedAddrStrict =>
    simp only [Rule.rejects, Rule.judges, Netguard.isBlockedAddrStrict, isBlockedAddr_eq,
      Rule.rejectsLoopback, Rule.allowsPrivate]
    cases listed (canonicalAddr addr) <;> simp
  | blocked allowPrivate =>
    simp only [Rule.rejects, Rule.judges, Netguard.blocked, isBlockedAddr_eq, Rule.rejectsLoopback, Rule.allowsPrivate]
    cases listed (canonicalAddr addr) <;> cases (canonicalAddr addr).isLoopback <;> cases allowPrivate <;> simp

theorem blockedCIDRs_eq :
    blockedCIDRs =
    [prefixFrom (.v4 0xA9FE0000#32) 16 (by decide),
      prefixFrom (.v6 (0xFE80#128 <<< 112) []) 10 (by decide),
      prefixFrom (.v6 (0xFD000EC2#128 <<< 96) []) 32 (by decide),
        prefixFrom (.v4 0xE0000000#32) 4 (by decide),
      prefixFrom (.v6 (0xFF00#128 <<< 112) []) 8 (by decide),
        prefixFrom (.v4 0xFFFFFFFF#32) 32 (by decide),
      prefixFrom (.v4 0#32) 8 (by decide), prefixFrom (.v6 0#128 []) 128 (by decide),
        prefixFrom (.v4 0x64400000#32) 10 (by decide)] := by
  decide +kernel

def steady (n : BitVec 128) : Bool :=
  (Addr.v6 n []).isMulticast || (Addr.v6 n []).isLinkLocalUnicast ||
    (Addr.v6 n []).isLinkLocalMulticast || (Addr.v6 n []).isInterfaceLocalMulticast

theorem contains_prefixFrom (a : BitVec 128) {bits : ℕ} (hbits : bits ≤ (Addr.v6 a []).bitLen)
    (n : BitVec 128) (z : GoString) :
    (prefixFrom (.v6 a []) bits hbits).contains (.v6 n z) = true ↔ z = [] ∧
      n >>> (128 - bits) = a >>> (128 - bits) :=
  Prefix.contains_v6 rfl n z

theorem contains_blockedCIDRs (n : BitVec 128) (z : GoString) :
    (blockedCIDRs.any fun p => p.contains (.v6 n z)) = true ↔
      z = [] ∧ (n >>> 118 = 0x3FA#128 ∨ n >>> 96 = 0xFD000EC2#128 ∨ n >>> 120 = 0xFF#128 ∨ n = 0#128) := by
  have hv4 : ∀ (a : BitVec 32) {bits : ℕ}
    (hbits : bits ≤ (Addr.v4 a).bitLen), (prefixFrom (.v4 a) bits hbits).contains (.v6 n z) =
    false := fun _ _ _ => rfl
  rw [blockedCIDRs_eq]
  simp only [List.any_cons, List.any_nil, hv4, Bool.or_false, Bool.false_or, Bool.or_eq_true,
    contains_prefixFrom]
  rw [← and_or_left, ← and_or_left, ← and_or_left]
  rfl

variable {n : BitVec 128}

theorem listed_v6 (z : GoString) (hn : n >>> 32 ≠ 0xffff#128) :
    listed (.v6 n z) = true ↔ z = [] ∧ (n = 0#128 ∨ n >>> 96 = 0xfd000ec2#128) ∨ steady n = true := by
  simp only [listed, steady, Bool.or_eq_true, contains_blockedCIDRs, Addr.isUnspecified,
    Addr.isMulticast, Addr.isLinkLocalUnicast,
    Addr.isLinkLocalMulticast, Addr.unmap, if_neg hn, decide_eq_true_eq]
  simp only [reduceCtorEq, false_or, Addr.v6.injEq]
  -- the prefixes of link-local and multicast addresses only repeat the kinds
  have hkinds : ∀ zone zero ec2 m l lm im : Prop, (((((zero ∧ zone) ∨ m) ∨ l) ∨ lm) ∨ im) ∨ zone ∧
      (l ∨ ec2 ∨ m ∨ zero) ↔
      zone ∧ (zero ∨ ec2) ∨ ((m ∨ l) ∨ lm) ∨ im := by tauto
  exact hkinds ..

theorem steady_zero : steady 0#128 = false := by decide

theorem kinds_ec2 (h : n >>> 96 = 0xfd000ec2#128) :
    steady n = false ∧ (Addr.v6 n []).isLoopback = false ∧ (Addr.v6 n []).isPrivate = true := by
  have hshift : ∀ k, n >>> (96 + k) = 0xfd000ec2#128 >>> k := fun k => by
    rw [BitVec.shiftRight_add, h]
  have h121 : n >>> 121 = 0x7E#128 := hshift 25
  have h120 : n >>> 120 = 0xFD#128 := hshift 24
  have h118 : n >>> 118 = 0x3F4#128 := hshift 22
  have h112 : n >>> 112 = 0xFD00#128 := hshift 16
  have h32 : n >>> 32 ≠ 0xffff#128 := by
    intro h32
    have h96 : n >>> 96 = 0#128 := by
      rw [show 96 = 32 + 64 from rfl, BitVec.shiftRight_add, h32]
      rfl
    rw [h] at h96
    exact absurd h96 (by decide)
  have hone : n ≠ 1#128 := by
    rintro rfl
    exact absurd h (by decide)
  refine ⟨?_, ?_, ?_⟩
  · simp only [steady, Addr.isMulticast, Addr.isLinkLocalUnicast, Addr.isLinkLocalMulticast,
      Addr.isInterfaceLocalMulticast, Addr.unmap,
      if_neg h32, h120, h118, h112]
    simp
  · simp only [Addr.isLoopback, Addr.unmap, if_neg h32, hone, decide_false]
  · simp only [Addr.isPrivate, Addr.unmap, if_neg h32, h121, decide_true]

theorem Rule.judges_zone (rule : Rule) (hn : n >>> 32 ≠ 0xffff#128) (z : GoString) :
    rule.judges (.v6 n z) = true ↔
      rule.judges (.v6 n []) = true ∧
        (z ≠ [] → n ≠ 0#128 ∧ ¬ (rule.allowsPrivate = true ∧ n >>> 96 = 0xfd000ec2#128)) := by
  have hloop : (Addr.v6 n z).isLoopback = (Addr.v6 n []).isLoopback := by
    simp only [Addr.isLoopback, Addr.unmap, if_neg hn]
  have hprivate : (Addr.v6 n z).isPrivate = (Addr.v6 n []).isPrivate := by
    simp only [Addr.isPrivate, Addr.unmap, if_neg hn]
  simp only [Rule.judges, Bool.or_eq_true, listed_v6 _ hn, hloop, hprivate, true_and]
  by_cases hz : z = []
  · simp [hz]
  · by_cases hzero : n = 0#128
    · subst hzero
      have hkinds : (Addr.v6 0#128 []).isLoopback = false ∧ (Addr.v6 0#128 []).isPrivate = false := by decide
      simp [hz, steady_zero, hkinds]
    · by_cases hec2 : n >>> 96 = 0xfd000ec2#128
      · cases hallows : rule.allowsPrivate <;> simp [hz, hzero, hec2, kinds_ec2 hec2]
      · simp [hz, hzero, hec2]

theorem Rule.judges_embedded (rule : Rule) (h : n >>> 112 = 0x64#128 ∨ n >>> 112 = 0x2002#128) :
    rule.judges (.v6 n []) = false := by
  have hshift : ∀ {k : ℕ} {v : BitVec 128}, n >>> k = v → k ≤ 112 → v >>> (112 - k) = 0x64#128 ∨
    v >>> (112 - k) = 0x2002#128 := by
    rintro k _ rfl hk
    rwa [← BitVec.shiftRight_add, Nat.add_sub_cancel' hk]
  have hshift' : ∀ {k : ℕ} {v : BitVec 128}, n >>> (112 + k) = v → 0x64#128 >>> k = v ∨
    0x2002#128 >>> k = v := by
    rintro k _ rfl
    rw [BitVec.shiftRight_add]
    exact h.imp (fun h => by rw [h]) fun h => by rw [h]
  have h32 : n >>> 32 ≠ 0xffff#128 := fun h => absurd (hshift h (by decide)) (by decide)
  have hzero : n ≠ 0#128 := by
    rintro rfl
    exact absurd h (by decide)
  have hone : n ≠ 1#128 := by
    rintro rfl
    exact absurd h (by decide)
  have hec2 : n >>> 96 ≠ 0xfd000ec2#128 := fun h => absurd (hshift h (by decide)) (by decide)
  have h121 : n >>> 121 ≠ 0x7E#128 := fun h => absurd (hshift' (k := 9) h) (by decide)
  have h120 : n >>> 120 ≠ 0xFF#128 := fun h => absurd (hshift' (k := 8) h) (by decide)
  have h118 : n >>> 118 ≠ 0x3FA#128 := fun h => absurd (hshift' (k := 6) h) (by decide)
  have hlocal : n >>> 112 &&& 0xFF0F#128 ≠ 0xFF02#128 ∧ n >>> 112 &&& 0xFF0F#128 ≠ 0xFF01#128 := by
    rcases h with h | h <;> rw [h] <;> decide
  have hsteady : steady n = false := by
    simp [steady, Addr.isMulticast, Addr.isLinkLocalUnicast, Addr.isLinkLocalMulticast,
      Addr.isInterfaceLocalMulticast, Addr.unmap, h32,
      h120, h118, hlocal]
  have hlisted : listed (.v6 n []) = false := by
    rw [← Bool.not_eq_true, listed_v6 [] h32]
    simp [hzero, hec2, hsteady]
  simp [Rule.judges, hlisted, Addr.isLoopback, Addr.isPrivate, Addr.unmap, h32, hone, h121]

/-! ## Forms and rules -/

theorem canonicalAddr_v6 (n : BitVec 128) (z : GoString) (hn : n >>> 32 ≠ 0xffff#128) :
    canonicalAddr (.v6 n z) = if z = [] then destination (.v6 n []) else .v6 n z := by
  simp only [canonicalAddr, Addr.unmap, if_neg hn, embeddedIPv4, nat64_contains, sixToFour_contains,
    destination]
  by_cases hz : z = []
  · subst hz
    simp only [true_and, if_true]
    split_ifs <;> rfl
  · simp only [hz, false_and, if_false]
    rfl

theorem Rule.not_misses_mapped (rule : Rule) (hn : n >>> 32 = 0xffff#128) (z : GoString) :
    ¬ rule.Misses (.v6 n z) := by
  have hshift : ∀ k, n >>> (32 + k) = 0xffff#128 >>> k := fun k => by rw [BitVec.shiftRight_add, hn]
  rintro ⟨-, hzero | hnat64 | h6to4 | ⟨-, hec2⟩⟩
  · rw [hzero] at hn
    exact absurd hn (by decide)
  · rw [hn] at hnat64
    exact absurd hnat64 (by decide)
  · exact absurd ((hshift 80).symm.trans h6to4) (by decide)
  · exact absurd ((hshift 64).symm.trans hec2) (by decide)

theorem Rule.rejects_iff (rule : Rule) (b : Addr) :
    rule.rejects b = true ↔ rule.judges (destination b) = true ∧ ¬ rule.Misses b := by
  rw [rule.rejects_eq]
  cases b with
  | v4 n => exact ⟨fun h => ⟨h, not_false⟩, fun h => h.1⟩
  | v6 n z =>
    by_cases hn : n >>> 32 = 0xffff#128
    · have hcanonical : canonicalAddr (.v6 n z) = destination (.v6 n z) := by
        simp only [canonicalAddr, Addr.unmap, destination, if_pos hn]
        rfl
      rw [hcanonical]
      exact ⟨fun h => ⟨h, rule.not_misses_mapped hn z⟩, fun h => h.1⟩
    · rw [canonicalAddr_v6 n z hn]
      by_cases hz : z = []
      · subst hz
        exact ⟨fun h => ⟨h, fun hmiss => hmiss.1 rfl⟩, fun h => h.1⟩
      · rw [if_neg hz, rule.judges_zone hn]
        by_cases hembedded : n >>> 32 = 0x64ff9b0000000000000000#128 ∨ n >>> 112 = 0x2002#128
        · -- an IPv4 address that is not found in the IPv6 address
          have hhigh : n >>> 112 = 0x64#128 ∨ n >>> 112 = 0x2002#128 := by
            refine hembedded.imp (fun h => ?_) fun h => h
            rw [show 112 = 32 + 80 from rfl, BitVec.shiftRight_add, h]
            rfl
          rw [rule.judges_embedded hhigh]
          refine ⟨fun h => absurd h.1 Bool.false_ne_true, fun h => absurd ⟨hz, ?_⟩ h.2⟩
          exact Or.inr (or_assoc.mp (Or.inl hembedded))
        · obtain ⟨hnat64, h6to4⟩ := not_or.mp hembedded
          have hdest : destination (.v6 n z) = .v6 n [] := by
            simp only [destination, if_neg hn, if_neg hnat64, if_neg h6to4]
          rw [hdest]
          refine and_congr_right fun _ => ?_
          simp only [Rule.Misses, hnat64, h6to4, false_or, ne_eq, hz, not_false_eq_true, true_and, forall_const, not_or]

theorem destination_forms {a b : Addr} (h : Relation.EqvGen Form a b) :
    destination b = destination a := by
  induction h with
  | rel a b h => exact destination_form h
  | refl a => rfl
  | symm a b _ ih => exact ih.symm
  | trans a b c _ _ ih ih' => exact ih'.trans ih

theorem Rule.control_error (rule : Rule) {address host port : GoString} {b : Addr}
    (hsplit : splitHostPort address = some (host, port)) (hparse : parseAddr host = some b) :
    (∃ e, rule.control address = .error e) ↔ rule.rejects b = true := by
  have hwith : ∀ (rejects : Addr → Bool) (refusal : GoString → DialError),
      (∃ e, controlWith rejects refusal address = .error e) ↔ rejects b = true := by
    intro rejects refusal
    simp only [controlWith, hsplit, hparse]
    cases rejects b <;> simp
  cases rule with
  | _ => exact hwith _ _

/-- For every rule and every address that it rejects: another form of it is rejected, also as text,
unless it has a zone and the rule has only a prefix to recognise it by. -/
theorem forms_rejected_iff (rule : Rule) {a b : Addr} (hform : Relation.EqvGen Form a b)
    (ha : rule.rejects a = true) :
    (rule.rejects b = true ↔ ¬ rule.Misses b) ∧
      ∀ address host port, splitHostPort address = some (host, port) → parseAddr host = some b →
        ((∃ e, rule.control address = .error e) ↔ ¬ rule.Misses b) := by
  have hb : rule.rejects b = true ↔ ¬ rule.Misses b := by
    rw [rule.rejects_iff, destination_forms hform]
    exact and_iff_right (rule.rejects_iff a |>.mp ha).1
  exact ⟨hb, fun address host port hsplit hparse => (rule.control_error hsplit hparse).trans hb⟩

/-- 127.0.0.1 in its NAT64 form. -/
theorem forms_rejected_nat64 : (Rule.blocked true).rejects (.v4 0x7f000001#32) = true ∧
    (Rule.blocked true).rejects (.v6 0x64ff9b00000000000000007f000001#128 []) = true := by
  have hrejected : (Rule.blocked true).rejects (.v4 0x7f000001#32) = true := by decide +kernel
  have hform : Relation.EqvGen Form (.v4 0x7f000001#32)
    (.v6 0x64ff9b00000000000000007f000001#128 []) := .rel _ _ (.nat64 0x7f000001#32)
  exact ⟨hrejected, (forms_rejected_iff (.blocked true) hform hrejected).1.mpr fun hmiss =>
    hmiss.1 rfl⟩

/-- The NAT64 form of 127.0.0.1 with a zone is dialled. -/
theorem zone_dialled :
    (Rule.blocked false).rejects (.v6 0x64ff9b00000000000000007f000001#128 []) = true ∧
    Form (.v6 0x64ff9b00000000000000007f000001#128 [])
      (.v6 0x64ff9b00000000000000007f000001#128 (str "eth0")) ∧
    parseAddr (str "64:ff9b::7f00:1%eth0") =
      some (.v6 0x64ff9b00000000000000007f000001#128 (str "eth0")) ∧
    (Rule.blocked false).rejects (.v6 0x64ff9b00000000000000007f000001#128 (str "eth0")) = false ∧
    dialControl false (str "[64:ff9b::7f00:1%eth0]:80") = .ok () ∧
      makeDialControl true (str "[64:ff9b::7f00:1%eth0]:80") = .ok () := by
  refine ⟨by decide +kernel, .zone .., by decide +kernel, by decide +kernel, ?_, ?_⟩
  · decide +kernel
  · decide +kernel

end Portlyn.Netguard
