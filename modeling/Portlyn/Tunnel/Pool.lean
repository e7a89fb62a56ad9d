import Portlyn.Go.Netip

/-! # Addresses of the tunnel (`pool.go`)

A pool hands out the first free host address of an IPv4 network (`allocate_smallest_free`). It
remembers addresses by their text, and the text of an IPv4 address is that of no other address, so
the model remembers the addresses themselves. -/
namespace Portlyn.Tunnel
open Go
set_option autoImplicit false

inductive PoolErr
  | parseCIDR
  | onlyIPv4
  | notInPool
  | exhausted
deriving DecidableEq

structure IPPool where
  network : Prefix
  base : BitVec 32
  is4 : network.addr = .v4 base
  aligned : base.toNat % 2 ^ (32 - network.bits) = 0
  reserved : List Addr
  allocated : List Addr

theorem masked_aligned {p : Prefix} {base : BitVec 32} (h : p.masked.addr = .v4 base) :
    base.toNat % 2 ^ (32 - p.masked.bits) = 0 := by
  have hbits := p.bits_le
  cases hp : p.addr with
  | v6 a zone =>
    simp only [Prefix.masked, hp] at h
    cases h
  | v4 a =>
    simp only [Prefix.masked, hp, Addr.v4.injEq] at h
    have hlow : ∀ i, i < 32 - p.bits → base.toNat.testBit i = false := by
      intro i hi
      rw [← h, BitVec.testBit_toNat, BitVec.getLsbD_and]
      simp [hi]
    refine Nat.eq_of_testBit_eq fun i => ?_
    rw [Nat.zero_testBit, Nat.testBit_mod_two_pow]
    by_cases hi : i < 32 - p.bits
    · rw [hlow i hi, Bool.and_false]
    · rw [show p.masked.bits = p.bits from rfl, decide_eq_false hi, Bool.false_and]

def newIPPool (cidr : GoString) (reserved : List Addr) : Except PoolErr IPPool :=
  match parsePrefix cidr with
  | none => .error .parseCIDR
  | some p =>
    match h : p.masked.addr with
    | .v4 base => .ok ⟨p.masked, base, h, masked_aligned h, reserved, []⟩
    | .v6 _ _ => .error .onlyIPv4

namespace IPPool

def markAllocated (pool : IPPool) (addr : Addr) : IPPool :=
  if pool.network.contains addr then { pool with allocated := addr :: pool.allocated } else pool

def release (pool : IPPool) (addr : Addr) : IPPool :=
  { pool with allocated := pool.allocated.filter fun a => a ≠ addr }

/-- The loop of `Allocate`: the candidates that are left, and the next one. -/
def firstFree (pool : IPPool) : ℕ → ℕ → Option (BitVec 32)
  | 0, _ => none
  | left + 1, offset =>
    let candidate := pool.base + BitVec.ofNat 32 offset
    if pool.allocated.any (fun a => a = .v4 candidate) || pool.reserved.any (fun a => a = .v4 candidate) then
      pool.firstFree left (offset + 1)
    else some candidate

def allocate (pool : IPPool) : Except PoolErr (BitVec 32) :=
  let hostBits := 32 - pool.network.bits
  if hostBits ≤ 1 then .error .exhausted
  else
    match pool.firstFree (2 ^ hostBits - 3) 2 with
    | some candidate => .ok candidate
    | none => .error .exhausted

/-! ## What is allocated is free -/

variable {pool : IPPool}

theorem firstFree_spec {left offset : ℕ} {candidate : BitVec 32} (h : pool.firstFree left offset = some candidate) :
    (∃ k, offset ≤ k ∧ k < offset + left ∧ candidate = pool.base + BitVec.ofNat 32 k) ∧ .v4 candidate ∉ pool.allocated ∧
      .v4 candidate ∉ pool.reserved := by
  induction left generalizing offset with
  | zero => cases h
  | succ left ih =>
    rw [firstFree] at h
    split_ifs at h with htaken
    · obtain ⟨⟨k, hle, hlt, heq⟩, hfree⟩ := ih h
      exact ⟨⟨k, by omega, by omega, heq⟩, hfree⟩
    · cases h
      rw [Bool.or_eq_true, not_or, List.any_eq_true, List.any_eq_true] at htaken
      refine ⟨⟨offset, le_refl _, by omega, rfl⟩, fun hmem => htaken.1 ?_, fun hmem => htaken.2 ?_⟩
      · exact ⟨_, hmem, decide_eq_true rfl⟩
      · exact ⟨_, hmem, decide_eq_true rfl⟩

/-- The addresses of the network do not wrap. -/
theorem toNat_base_add {k : ℕ} (h : k < 2 ^ (32 - pool.network.bits)) :
    (pool.base + BitVec.ofNat 32 k).toNat = pool.base.toNat + k := by
  have hbase := pool.base.isLt
  obtain ⟨m, hm⟩ := Nat.dvd_of_mod_eq_zero pool.aligned
  obtain ⟨q, hq⟩ : 2 ^ (32 - pool.network.bits) ∣ 2 ^ 32 := Nat.pow_dvd_pow 2 (Nat.sub_le _ _)
  rw [hm, hq] at hbase
  have hmq : m < q := Nat.lt_of_mul_lt_mul_left hbase
  have hlt : pool.base.toNat + k < 2 ^ 32 := by
    rw [hm, hq]
    calc 2 ^ (32 - pool.network.bits) * m + k < 2 ^ (32 - pool.network.bits) * m +
      2 ^ (32 - pool.network.bits) := by omega
      _ = 2 ^ (32 - pool.network.bits) * (m + 1) := by rw [Nat.mul_add, Nat.mul_one]
      _ ≤ 2 ^ (32 - pool.network.bits) * q := Nat.mul_le_mul_left _ hmq
  have hk : k < 2 ^ 32 := by omega
  rw [BitVec.toNat_add, BitVec.toNat_ofNat, Nat.mod_eq_of_lt hk, Nat.mod_eq_of_lt hlt]

theorem contains_iff_div {a : BitVec 32} : pool.network.contains (.v4 a) = true ↔
    a.toNat / 2 ^ (32 - pool.network.bits) = pool.base.toNat / 2 ^ (32 - pool.network.bits) := by
  rw [Prefix.contains_v4 pool.is4, ← BitVec.toNat_inj, BitVec.toNat_ushiftRight,
    BitVec.toNat_ushiftRight,
    Nat.shiftRight_eq_div_pow, Nat.shiftRight_eq_div_pow]

theorem contains_iff {a : BitVec 32} : pool.network.contains (.v4 a) = true ↔
    ∃ k < 2 ^ (32 - pool.network.bits), a = pool.base + BitVec.ofNat 32 k := by
  have hpos : 0 < 2 ^ (32 - pool.network.bits) := Nat.two_pow_pos _
  obtain ⟨m, hm⟩ := Nat.dvd_of_mod_eq_zero pool.aligned
  rw [contains_iff_div, hm, Nat.mul_div_cancel_left m hpos]
  constructor
  · intro h
    refine ⟨a.toNat % 2 ^ (32 - pool.network.bits), Nat.mod_lt _ hpos, BitVec.eq_of_toNat_eq ?_⟩
    rw [toNat_base_add (Nat.mod_lt _ hpos), hm, ← h, Nat.div_add_mod]
  · rintro ⟨k, hk, rfl⟩
    rw [toNat_base_add hk, hm, Nat.mul_add_div hpos, Nat.div_eq_of_lt hk, Nat.add_zero]

theorem allocate_spec {candidate : BitVec 32} (h : pool.allocate = .ok candidate) :
    pool.network.contains (.v4 candidate) = true ∧ .v4 candidate ∉ pool.allocated ∧ .v4 candidate ∉ pool.reserved := by
  rw [allocate] at h
  split_ifs at h with hbits
  cases hfree : pool.firstFree (2 ^ (32 - pool.network.bits) - 3) 2 with
  | none =>
    rw [hfree] at h
    cases h
  | some found =>
    rw [hfree] at h
    cases h
    obtain ⟨⟨k, hle, hlt, rfl⟩, hfresh⟩ := firstFree_spec hfree
    exact ⟨contains_iff.mpr ⟨k, by omega, rfl⟩, hfresh⟩

/-! ## The smallest free address -/

theorem firstFree_eq_none {left offset : ℕ} (h : pool.firstFree left offset = none) {k : ℕ}
    (hle : offset ≤ k) (hlt : k < offset + left) :
    .v4 (pool.base + BitVec.ofNat 32 k) ∈ pool.allocated ++ pool.reserved := by
  induction left generalizing offset with
  | zero => omega
  | succ left ih =>
    rw [firstFree] at h
    split_ifs at h with htaken
    by_cases hk : k = offset
    · subst hk
      simpa [List.any_eq_true] using htaken
    · exact ih h (by omega) (by omega)

theorem firstFree_least {left offset k : ℕ}
    (h : pool.firstFree left offset = some (pool.base + BitVec.ofNat 32 k))
    (hk : k < 2 ^ (32 - pool.network.bits)) (hend : offset + left ≤ 2 ^ (32 - pool.network.bits))
    {j : ℕ} (hle : offset ≤ j) (hjk : j < k) :
    .v4 (pool.base + BitVec.ofNat 32 j) ∈ pool.allocated ++ pool.reserved := by
  induction left generalizing offset with
  | zero => cases h
  | succ left ih =>
    rw [firstFree] at h
    split_ifs at h with htaken
    · by_cases hj : j = offset
      · subst hj
        simpa [List.any_eq_true] using htaken
      · exact ih h (by omega) (by omega)
    · have heq := congrArg BitVec.toNat (Option.some.inj h)
      rw [toNat_base_add (by omega), toNat_base_add hk] at heq
      omega

/-- The loop of `Allocate` as the source counts it, with the offset in 32 bits. That it ends is that
no offset below the limit is followed by one that wraps. -/
def allocateLoop (pool : IPPool) (limit offset : BitVec 32) : Option (BitVec 32) :=
  if offset < limit then
    let candidate := pool.base + offset
    if pool.allocated.any (fun a => a = .v4 candidate) || pool.reserved.any (fun a => a = .v4 candidate) then
      pool.allocateLoop limit (offset + 1)
    else some candidate
  else none
termination_by limit.toNat - offset.toNat
decreasing_by bv_omega

/-- `total - 1`, where `total` is 0 for a network of all addresses. -/
def limit (pool : IPPool) : BitVec 32 := 1#32 <<< (32 - pool.network.bits) - 1

/-- `Allocate`, with the pool that it leaves. -/
def allocateUint32 (pool : IPPool) : Except PoolErr (BitVec 32) × IPPool :=
  if 32 - pool.network.bits ≤ 1 then (.error .exhausted, pool)
  else
    match pool.allocateLoop pool.limit 2 with
    | some candidate => (.ok candidate, { pool with allocated := .v4 candidate :: pool.allocated })
    | none => (.error .exhausted, pool)

inductive Call
  | markAllocated (addr : Addr)
  | allocate
  | release (addr : Addr)

/-- What a call answers: an error, or nothing, or the address that it hands out. -/
abbrev Answer := Except PoolErr (Option (BitVec 32))

def call (pool : IPPool) : Call → Answer × IPPool
  | .markAllocated addr =>
    (if pool.network.contains addr then .ok none else .error .notInPool, pool.markAllocated addr)
  | .allocate => (pool.allocateUint32.1.map some, pool.allocateUint32.2)
  | .release addr => (.ok none, pool.release addr)

/-- The calls with their answers, and the pool that they leave. -/
def run (pool : IPPool) : List Call → List (Call × Answer) × IPPool
  | [] => ([], pool)
  | c :: calls =>
    let rest := (pool.call c).2.run calls
    ((c, (pool.call c).1) :: rest.1, rest.2)

/-- The address was marked without an error, or handed out. -/
def Takes (a : Addr) : Call × Answer → Prop
  | (.markAllocated addr, .ok _) => addr = a
  | (.allocate, .ok (some addr)) => .v4 addr = a
  | _ => False

/-- What is allocated, by the calls and their answers alone: some call took the address, and none
released it since. -/
def Allocated (history : List (Call × Answer)) : Set Addr :=
  {a | ∃ before e since, history = before ++ e :: since ∧ Takes a e ∧
    ∀ e' ∈ since, e'.1 ≠ .release a}

/-- An address that can be handed out, where `taken` are allocated: not the network, not the first
host, not the broadcast address. -/
structure Free (pool : IPPool) (taken : Set Addr) (a : BitVec 32) : Prop where
  inside : pool.network.contains (.v4 a) = true
  not_network : a ≠ pool.base
  not_server : a ≠ pool.base + 1
  not_broadcast : a ≠ pool.base + BitVec.ofNat 32 (2 ^ (32 - pool.network.bits) - 1)
  not_reserved : .v4 a ∉ pool.reserved
  not_allocated : .v4 a ∉ taken

theorem limit_toNat (h : 2 ≤ 32 - pool.network.bits) :
    pool.limit.toNat = 2 ^ (32 - pool.network.bits) - 1 := by
  have hall : ∀ n : Fin 33, 2 ≤ n.val → (1#32 <<< n.val - 1).toNat = 2 ^ n.val - 1 := by
    decide +kernel
  exact hall ⟨32 - pool.network.bits, by omega⟩ h

theorem allocateLoop_eq (pool : IPPool) (limit offset : BitVec 32) :
    pool.allocateLoop limit offset = pool.firstFree (limit.toNat - offset.toNat) offset.toNat := by
  fun_induction allocateLoop pool limit offset with
  | case1 offset hlt candidate htaken ih =>
    have hnext : (offset + 1).toNat = offset.toNat + 1 := by bv_omega
    have hleft : limit.toNat - offset.toNat = limit.toNat - (offset.toNat + 1) + 1 := by bv_omega
    rw [ih, hnext, hleft, firstFree, BitVec.ofNat_toNat]
    exact (if_pos htaken).symm
  | case2 offset hlt candidate htaken =>
    have hleft : limit.toNat - offset.toNat = limit.toNat - (offset.toNat + 1) + 1 := by bv_omega
    rw [hleft, firstFree, BitVec.ofNat_toNat]
    exact (if_neg htaken).symm
  | case3 offset hlt =>
    have hleft : limit.toNat - offset.toNat = 0 := by bv_omega
    rw [hleft, firstFree]

theorem allocateUint32_fst (pool : IPPool) : pool.allocateUint32.1 = pool.allocate := by
  rw [allocateUint32, allocate]
  by_cases hbits : 32 - pool.network.bits ≤ 1
  · rw [if_pos hbits, if_pos hbits]
  · have hloop : pool.allocateLoop pool.limit 2 = pool.firstFree (2 ^ (32 - pool.network.bits) - 3) 2 := by
      rw [allocateLoop_eq, limit_toNat (by omega)]
      rfl
    rw [if_neg hbits, if_neg hbits, hloop]
    cases pool.firstFree (2 ^ (32 - pool.network.bits) - 3) 2 <;> rfl

section State
variable {taken : Set Addr}

theorem free_iff {a : BitVec 32} : pool.Free taken a ↔
    ∃ k, 2 ≤ k ∧ k < 2 ^ (32 - pool.network.bits) - 1 ∧ a = pool.base + BitVec.ofNat 32 k ∧
      .v4 a ∉ pool.reserved ∧ .v4 a ∉ taken := by
  have hinj : ∀ {j k : ℕ}, j < 2 ^ (32 - pool.network.bits) → k < 2 ^ (32 - pool.network.bits) →
      pool.base + BitVec.ofNat 32 k = pool.base + BitVec.ofNat 32 j → k = j := by
    intro j k hj hk heq
    have hnat := congrArg BitVec.toNat heq
    rw [toNat_base_add hk, toNat_base_add hj] at hnat
    omega
  constructor
  · intro hfree
    obtain ⟨k, hk, rfl⟩ := contains_iff.mp hfree.inside
    have h0 : k ≠ 0 := fun h => hfree.not_network (by simp [h])
    have h1 : k ≠ 1 := fun h => hfree.not_server (by simp [h])
    have hlast : k ≠ 2 ^ (32 - pool.network.bits) - 1 := fun h => hfree.not_broadcast (by rw [h])
    exact ⟨k, by omega, by omega, rfl, hfree.not_reserved, hfree.not_allocated⟩
  · rintro ⟨k, hle, hlt, rfl, hreserved, htaken⟩
    refine ⟨contains_iff.mpr ⟨k, by omega, rfl⟩, fun heq => ?_, fun heq => ?_, fun heq => ?_, hreserved, htaken⟩
    · have := hinj (j := 0) (k := k) (by omega) (by omega) (by simpa using heq)
      omega
    · have := hinj (j := 1) (by omega) (by omega) heq
      omega
    · have := hinj (by omega) (by omega) heq
      omega

theorem not_free (h : 32 - pool.network.bits ≤ 1) (a : BitVec 32) : ¬ pool.Free taken a := by
  intro hfree
  obtain ⟨k, hk, rfl⟩ := contains_iff.mp hfree.inside
  have htwo : 2 ^ (32 - pool.network.bits) ≤ 2 := Nat.pow_le_pow_right (by decide) h
  obtain rfl | rfl : k = 0 ∨ k = 1 := by omega
  · exact hfree.not_network (by simp)
  · exact hfree.not_server rfl

/-- One call of `Allocate`, by what the pool has recorded. -/
theorem allocate_least (htaken : ∀ a, a ∈ pool.allocated ↔ a ∈ taken) :
    (∀ a, pool.allocateUint32.1 = .ok a ↔ pool.Free taken a ∧ ∀ b, pool.Free taken b → a ≤ b) ∧
      ((∃ e, pool.allocateUint32.1 = .error e) ↔ ∀ a, ¬ pool.Free taken a) := by
  rw [allocateUint32_fst, allocate]
  by_cases hbits : 32 - pool.network.bits ≤ 1
  · rw [if_pos hbits]
    exact ⟨fun a => iff_of_false nofun fun h => not_free hbits a h.1, iff_of_true ⟨_, rfl⟩ (not_free hbits)⟩
  · have htwo : 2 ^ 2 ≤ 2 ^ (32 - pool.network.bits) := Nat.pow_le_pow_right (by decide) (by omega)
    rw [if_neg hbits]
    cases hfree : pool.firstFree (2 ^ (32 - pool.network.bits) - 3) 2 with
    | none =>
      have hnone : ∀ a, ¬ pool.Free taken a := by
        intro a h
        obtain ⟨k, hle, hlt, rfl, hreserved, hnot⟩ := free_iff.mp h
        have hmem := firstFree_eq_none hfree hle (by omega)
        exact (List.mem_append.mp hmem).elim (fun h => hnot ((htaken _).mp h)) hreserved
      exact ⟨fun a => iff_of_false nofun fun h => hnone a h.1, iff_of_true ⟨_, rfl⟩ hnone⟩
    | some found =>
      obtain ⟨⟨k, hle, hlt, rfl⟩, hallocated, hreserved⟩ := firstFree_spec hfree
      have hfound : pool.Free taken (pool.base + BitVec.ofNat 32 k) :=
        free_iff.mpr ⟨k, hle, by omega, rfl, hreserved, fun h => hallocated ((htaken _).mpr h)⟩
      have hleast : ∀ b, pool.Free taken b → pool.base + BitVec.ofNat 32 k ≤ b := by
        intro b hb
        obtain ⟨j, hj, hjlt, rfl, hreserved, hnot⟩ := free_iff.mp hb
        have hkj : k ≤ j := Nat.le_of_not_lt fun hjk =>
          (List.mem_append.mp (firstFree_least hfree (by omega) (by omega) hj hjk)).elim
            (fun h => hnot ((htaken _).mp h)) hreserved
        rw [BitVec.le_def, toNat_base_add (by omega), toNat_base_add (by omega)]
        omega
      refine ⟨fun a => ⟨?_, fun h => ?_⟩, iff_of_false nofun fun h => h _ hfound⟩
      · rintro ⟨⟩
        exact ⟨hfound, hleast⟩
      · exact congrArg Except.ok (BitVec.le_antisymm (hleast a h.1) (h.2 _ hfound))

end State

/-! ## What the pool records is what its calls allocated -/

variable (pool) in
theorem call_kept (c : Call) :
    ∃ allocated, (pool.call c).2 = { pool with allocated := allocated } := by
  cases c with
  | markAllocated addr =>
    rw [call, markAllocated]
    dsimp only
    split
    · exact ⟨_, rfl⟩
    · exact ⟨pool.allocated, rfl⟩
  | allocate =>
    rw [call, allocateUint32]
    split
    · exact ⟨pool.allocated, rfl⟩
    · split
      · exact ⟨_, rfl⟩
      · exact ⟨pool.allocated, rfl⟩
  | release addr => exact ⟨_, rfl⟩

variable (pool) in
theorem run_kept (calls : List Call) :
    ∃ allocated, (pool.run calls).2 = { pool with allocated := allocated } := by
  induction calls generalizing pool with
  | nil => exact ⟨pool.allocated, rfl⟩
  | cons c calls ih =>
    obtain ⟨recorded, hstep⟩ := call_kept pool c
    rw [run, hstep]
    exact ih { pool with allocated := recorded }

theorem mem_call {a : Addr} (c : Call) : a ∈ (pool.call c).2.allocated ↔
    Takes a (c, (pool.call c).1) ∨ a ∈ pool.allocated ∧ c ≠ .release a := by
  cases c with
  | markAllocated addr =>
    rw [call, markAllocated]
    by_cases hin : pool.network.contains addr = true
    · simp [hin, Takes, eq_comm]
    · simp [hin, Takes]
  | allocate =>
    rw [call]
    cases hanswer : pool.allocateUint32.1 with
    | error e =>
      have hsame : pool.allocateUint32.2 = pool := by
        rw [allocateUint32] at hanswer ⊢
        split at hanswer
        · rw [if_pos ‹_›]
        · rw [if_neg ‹_›]
          split at hanswer
          · cases hanswer
          · rfl
      simp [hsame, Takes, Except.map]
    | ok found =>
      have hrecorded : pool.allocateUint32.2.allocated = .v4 found :: pool.allocated := by
        rw [allocateUint32] at hanswer ⊢
        split at hanswer
        · cases hanswer
        · rw [if_neg ‹_›]
          split at hanswer
          · cases hanswer
            rfl
          · cases hanswer
      simp [hrecorded, Takes, Except.map, eq_comm]
  | release addr => simp [call, release, Takes, @eq_comm _ a addr]

theorem allocated_cons {a : Addr} {e : Call × Answer} {history : List (Call × Answer)} :
    a ∈ Allocated (e :: history) ↔
      a ∈ Allocated history ∨ Takes a e ∧ ∀ e' ∈ history, e'.1 ≠ .release a := by
  constructor
  · rintro ⟨before, e', since, hsplit, htakes, hkept⟩
    cases before with
    | nil =>
      cases hsplit
      exact Or.inr ⟨htakes, hkept⟩
    | cons first before =>
      cases hsplit
      exact Or.inl ⟨before, e', since, rfl, htakes, hkept⟩
  · rintro (⟨before, e', since, rfl, htakes, hkept⟩ | ⟨htakes, hkept⟩)
    · exact ⟨e :: before, e', since, rfl, htakes, hkept⟩
    · exact ⟨[], e, history, rfl, htakes, hkept⟩

/-- The recorded addresses are those that the history allocated, and those of the start that it did
not release. -/
theorem mem_run {a : Addr} (calls : List Call) : a ∈ (pool.run calls).2.allocated ↔
    a ∈ Allocated (pool.run calls).1 ∨ a ∈ pool.allocated ∧ ∀ e ∈ (pool.run calls).1, e.1 ≠ .release a := by
  induction calls generalizing pool with
  | nil => simp [run, Allocated]
  | cons c calls ih =>
    rw [run, ih, mem_call, allocated_cons, List.forall_mem_cons]
    tauto

/-- After any calls on a new pool, `Allocate` hands out the smallest address that is free by the
history of the calls, and fails exactly when there is none. No offset and no address on its way
wraps. -/
theorem allocate_smallest_free {cidr : GoString} {reserved : List Addr} {pool : IPPool}
    (hnew : newIPPool cidr reserved = .ok pool) (calls : List Call) :
    let p := (pool.run calls).2
    let free := pool.Free (Allocated (pool.run calls).1)
    (∀ a, p.allocateUint32.1 = .ok a ↔ free a ∧ ∀ b, free b → a ≤ b) ∧
      ((∃ e, p.allocateUint32.1 = .error e) ↔ ∀ a, ¬ free a) ∧
      (2 ≤ 32 - pool.network.bits → ∀ offset < p.limit,
        (offset + 1).toNat = offset.toNat + 1 ∧ (p.base + offset).toNat = p.base.toNat + offset.toNat) := by
  intro p free
  have hempty : pool.allocated = [] := by
    rw [newIPPool] at hnew
    split at hnew
    · cases hnew
    · split at hnew
      · cases hnew
        rfl
      · cases hnew
  have htaken : ∀ a, a ∈ p.allocated ↔ a ∈ Allocated (pool.run calls).1 := by
    intro a
    rw [mem_run, hempty, or_iff_left (fun h => List.not_mem_nil h.1)]
  obtain ⟨recorded, hkept⟩ := run_kept pool calls
  have hfree : ∀ a, p.Free (Allocated (pool.run calls).1) a ↔ free a := by
    intro a
    change p.Free _ a ↔ pool.Free _ a
    rw [free_iff, free_iff, show p = _ from hkept]
  have hleast := allocate_least htaken
  simp only [hfree] at hleast
  refine ⟨hleast.1, hleast.2, fun htwo offset hlt => ?_⟩
  rw [show p = _ from hkept] at hlt ⊢
  have hlimit := @limit_toNat { pool with allocated := recorded } htwo
  have hk := BitVec.lt_def.mp hlt
  have hsum := @toNat_base_add { pool with allocated := recorded } offset.toNat (by omega)
  rw [BitVec.ofNat_toNat] at hsum
  exact ⟨by bv_omega, hsum⟩

def samplePool : IPPool where
  network := ⟨.v4 0x0a000000#32, 29, by decide, rfl⟩
  base := 0x0a000000#32
  is4 := rfl
  aligned := by decide
  reserved := [.v4 0x0a000001#32]
  allocated := []

/-- In `10.0.0.0/29` the second host is marked, the third one handed out and the second one
released, which is then the smallest free address. -/
theorem allocate_smallest_free_released :
    let calls := [.markAllocated (.v4 0x0a000002#32), .allocate, .release (.v4 0x0a000002#32)]
    let free := samplePool.Free (Allocated (samplePool.run calls).1)
    free 0x0a000002#32 ∧ ∀ b, free b → 0x0a000002#32 ≤ b := by
  have hparse : parsePrefix (str "10.0.0.0/29") = some samplePool.network := by decide +kernel
  have hnew : newIPPool (str "10.0.0.0/29") samplePool.reserved = .ok samplePool := by
    rw [newIPPool, hparse]
    rfl
  exact ((allocate_smallest_free hnew _).1 _).mp (by decide +kernel)

end IPPool

end Portlyn.Tunnel
