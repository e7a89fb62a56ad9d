import Portlyn.Go.Utf8

/-! # Hosts named by DNS names

A host is a DNS name, with or without a port. Names are compared without regard to case, and the
port does not belong to the name. -/
namespace Portlyn.Go
set_option autoImplicit false

def isNameByte (b : UInt8) : Bool :=
  (0x61 ≤ b && b ≤ 0x7A) || (0x41 ≤ b && b ≤ 0x5A) || (0x30 ≤ b && b ≤ 0x39) || b = 0x2D ||
    b = 0x5F || b = dot

def IsDNSHost (host : GoString) : Prop := cutBefore colon host ≠ [] ∧
    ∀ b ∈ host, isNameByte b = true ∨ b = colon

instance (host : GoString) : Decidable (IsDNSHost host) := inferInstanceAs (Decidable (_ ∧ _))

def lowerByte (b : UInt8) : UInt8 := UInt8.ofNat (asciiLower b.toNat)

def hostName (host : GoString) : GoString := (cutBefore colon host).map lowerByte

def SameHost (host host' : GoString) : Prop := hostName host = hostName host'

/-! ## Lower case -/

structure LowersWell (b : UInt8) : Prop where
  ascii : b.toNat < 0x80
  notSpace : NotSpace b
  lower_notSpace : NotSpace (lowerByte b)
  lower_lower : lowerByte (lowerByte b) = lowerByte b
  lower_colon : lowerByte b = colon ↔ b = colon
  lower_name : isNameByte (lowerByte b) = true ∨ lowerByte b = colon

theorem lowersWell {b : UInt8} (h : isNameByte b = true ∨ b = colon) : LowersWell b := by
  have hall : ∀ n : Fin 256, isNameByte (UInt8.ofNat n) = true ∨ UInt8.ofNat n = colon →
      (0x20 < (UInt8.ofNat n).toNat ∧ (UInt8.ofNat n).toNat < 0x80) ∧
        (0x20 < (lowerByte (UInt8.ofNat n)).toNat ∧ (lowerByte (UInt8.ofNat n)).toNat < 0x80) ∧
        lowerByte (lowerByte (UInt8.ofNat n)) = lowerByte (UInt8.ofNat n) ∧
        (lowerByte (UInt8.ofNat n) = colon ↔ UInt8.ofNat n = colon) ∧
        (isNameByte (lowerByte (UInt8.ofNat n)) = true ∨ lowerByte (UInt8.ofNat n) = colon) := by decide +kernel
  have hb := hall ⟨b.toNat, b.toNat_lt⟩
  rw [UInt8.ofNat_toNat] at hb
  obtain ⟨⟨h1, h2⟩, ⟨h3, h4⟩, hidem, hcolon, hname⟩ := hb h
  exact ⟨h2, notSpace_of_visible h1 h2, notSpace_of_visible h3 h4, hidem, hcolon, hname⟩

variable {host : GoString}

theorem cutBefore_lower (h : ∀ b ∈ host, isNameByte b = true ∨ b = colon) :
    cutBefore colon (host.map lowerByte) = hostName host := by
  induction host with
  | nil => rfl
  | cons b host ih =>
    have hb := (lowersWell (h b List.mem_cons_self)).lower_colon
    have hrest := ih fun c hc => h c (List.mem_cons_of_mem _ hc)
    rw [hostName, cutBefore] at hrest ⊢
    rw [cutBefore] at hrest ⊢
    by_cases hcolon : b = colon
    · rw [List.map_cons, List.takeWhile_cons_of_neg (by simp [hb.mpr hcolon]),
        List.takeWhile_cons_of_neg (by simp [hcolon])]
      rfl
    · have hlower : lowerByte b ≠ colon := fun heq => hcolon (hb.mp heq)
      rw [List.map_cons, List.takeWhile_cons_of_pos (by simp [hlower]), List.takeWhile_cons_of_pos (by simp [hcolon]),
        List.map_cons, hrest]

theorem isDNSHost_hostName (h : IsDNSHost host) :
    IsDNSHost (hostName host) ∧ hostName (hostName host) = hostName host := by
  have hbytes : ∀ b ∈ hostName host, isNameByte b = true ∨ b = colon := by
    intro b hb
    obtain ⟨c, hc, rfl⟩ := List.mem_map.mp hb
    exact (lowersWell (h.2 c (mem_of_mem_cutBefore hc))).lower_name
  have hcolon : colon ∉ hostName host := by
    intro hmem
    obtain ⟨c, hc, heq⟩ := List.mem_map.mp hmem
    rw [(lowersWell (h.2 c (mem_of_mem_cutBefore hc))).lower_colon] at heq
    exact not_mem_cutBefore colon host (heq ▸ hc)
  have hcut : cutBefore colon (hostName host) = hostName host := by
    refine List.takeWhile_eq_self_iff.mpr fun b hb => decide_eq_true fun heq => ?_
    exact hcolon (heq ▸ hb)
  refine ⟨⟨?_, hbytes⟩, ?_⟩
  · rw [hcut]
    exact fun hnil => h.1 (List.map_eq_nil_iff.mp hnil)
  · rw [hostName, hcut, hostName, List.map_map]
    refine List.map_congr_left fun c hc => ?_
    exact (lowersWell (h.2 c (mem_of_mem_cutBefore hc))).lower_lower

theorem hostName_ne_nil (h : IsDNSHost host) : hostName host ≠ [] :=
  fun hnil => h.1 (List.map_eq_nil_iff.mp hnil)

variable [UnicodeTables]

theorem toLower_host (h : IsDNSHost host) : toLower host = host.map lowerByte :=
  toLower_of_ascii fun b hb => (lowersWell (h.2 b hb)).ascii

theorem cutBefore_toLower_trimSpace (h : IsDNSHost host) :
    cutBefore colon (toLower (trimSpace host)) = hostName host := by
  rw [trimSpace_eq_self_of_notSpace fun b hb => (lowersWell (h.2 b hb)).notSpace, toLower_host h]
  exact cutBefore_lower h.2

theorem cutBefore_trimSpace_toLower (h : IsDNSHost host) :
    cutBefore colon (trimSpace (toLower host)) = hostName host := by
  have hns : ∀ b ∈ host.map lowerByte, NotSpace b := by
    intro b hb
    obtain ⟨c, hc, rfl⟩ := List.mem_map.mp hb
    exact (lowersWell (h.2 c hc)).lower_notSpace
  rw [toLower_host h, trimSpace_eq_self_of_notSpace hns]
  exact cutBefore_lower h.2

end Portlyn.Go
