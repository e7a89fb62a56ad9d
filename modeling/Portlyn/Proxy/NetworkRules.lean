import Portlyn.Proxy.Manager

/-! # Network rules (`access.go`)

Block list, allow list, reputation and country, in this order. The two prefix checks and the sources
of access rules compare addresses in the form they are written in; `addressForms_iff` says which
forms of one address, and of one network, they cannot tell apart. -/
namespace Portlyn.Proxy
open Go Domain
set_option autoImplicit false

/-! ## The functions of the source -/

def forbidden (message : GoString) : Response := .error 403 (str "forbidden") message

/-- The prefix checks of `enforceNetworkRules`. -/
def checkPrefixes (blockPrefixes allowPrefixes : List Prefix) (clientIP : Addr) : Except Response Unit :=
  if matchesAnyPrefix clientIP blockPrefixes then .error (forbidden (str "client ip is blocked"))
  else if allowPrefixes ≠ [] ∧ matchesAnyPrefix clientIP allowPrefixes = false then
    .error (forbidden (str "client ip is not allowed"))
  else .ok ()

def checkReputation (m : Manager) (clientIP : Addr) : Except Response Unit :=
  match m.reputation with
  | none => .ok ()
  | some reputation =>
    if !reputation.enabled then .ok ()
    else if !reputation.healthy && !m.crowdSecFailOpen then
      .error (.error 503 (str "reputation_unavailable") (str "reputation cannot be evaluated"))
    else
      match reputation.isBlocked clientIP.asSlice with
      | some reason => .error (forbidden (str "reputation block: " ++ reason))
      | none => .ok ()

section Tables

theorem checkPrefixes_ok {block allow : List Prefix} {ip : Addr} (h : checkPrefixes block allow ip = .ok ()) :
    (∀ p ∈ block, p.contains ip = false) ∧ (allow ≠ [] → ∃ p ∈ allow, p.contains ip = true) := by
  unfold checkPrefixes at h
  split_ifs at h with h1 h2
  refine ⟨?_, fun hne => ?_⟩
  · simpa [matchesAnyPrefix] using h1
  · by_contra hno
    refine h2 ⟨hne, ?_⟩
    simpa [matchesAnyPrefix] using hno

theorem checkReputation_ok {m : Manager} {ip : Addr} (h : checkReputation m ip = .ok ()) :
    ∀ rep, m.reputation = some rep → rep.enabled = true →
      (rep.healthy = true ∨ m.crowdSecFailOpen = true) ∧ rep.isBlocked ip.asSlice = none := by
  intro rep hrep hen
  unfold checkReputation at h
  simp only [hrep, hen, Bool.not_true, Bool.false_eq_true, if_false] at h
  split_ifs at h with h1
  refine ⟨?_, ?_⟩
  · by_contra hno
    rw [not_or] at hno
    simp [hno.1, hno.2] at h1
  · split at h
    · cases h
    · assumption

variable [UnicodeTables]

def countryAllowedByRoute (country : GoString) (allowed blocked : List GoString) : Except GoString Unit :=
  if country = [] then .ok ()
  else if blocked.any (equalFold · country) then .error (str "blocked_country")
  else if allowed = [] then .ok ()
  else if allowed.any (equalFold · country) then .ok ()
  else .error (str "country_not_allowed")

def checkCountry (m : Manager) (route : Route) (clientIP : Addr) : Except Response Unit :=
  if route.allowedCountries = [] ∧ route.blockedCountries = [] then .ok ()
  else
    match m.countryLookup.filter (·.available) with
    | none =>
      if m.geoIPFailOpen then .ok ()
      else .error (.error 503 (str "geoip_unavailable") (str "geo restriction cannot be evaluated"))
    | some lookup =>
      match countryAllowedByRoute (lookup.countryISO clientIP.asSlice)
        route.allowedCountries route.blockedCountries with
      | .ok () => .ok ()
      | .error reason => .error (forbidden (str "geoip: " ++ reason))

def enforceNetworkRules (m : Manager) (r : Request) (route : Route) : Except Response Unit :=
  match realClientIP m.trustedProxyCIDRs r with
  | none => .error (forbidden (str "unable to determine client ip"))
  | some clientIP => do
    checkPrefixes route.blockPrefixes route.allowPrefixes clientIP
    checkReputation m clientIP
    checkCountry m route clientIP

/-! ## What passes -/

structure NetworkAllowed (m : Manager) (route : Route) (ip : Addr) : Prop where
  notBlocked : ∀ p ∈ route.blockPrefixes, p.contains ip = false
  allowed : route.allowPrefixes ≠ [] → ∃ p ∈ route.allowPrefixes, p.contains ip = true
  reputation : ∀ rep, m.reputation = some rep → rep.enabled = true →
    (rep.healthy = true ∨ m.crowdSecFailOpen = true) ∧ rep.isBlocked ip.asSlice = none
  country : route.allowedCountries ≠ [] ∨ route.blockedCountries ≠ [] →
    (∃ lookup, m.countryLookup = some lookup ∧ lookup.available = true ∧
      (lookup.countryISO ip.asSlice = [] ∨
        (∀ c ∈ route.blockedCountries, equalFold c (lookup.countryISO ip.asSlice) = false) ∧
          (route.allowedCountries = [] ∨
            ∃ c ∈ route.allowedCountries, equalFold c (lookup.countryISO ip.asSlice) = true))) ∨
      ((∀ lookup, m.countryLookup = some lookup → lookup.available = false) ∧ m.geoIPFailOpen = true)

theorem countryAllowedByRoute_ok {country : GoString} {allowed blocked : List GoString}
    (h : countryAllowedByRoute country allowed blocked = .ok ()) :
    country = [] ∨ (∀ c ∈ blocked, equalFold c country = false) ∧
      (allowed = [] ∨ ∃ c ∈ allowed, equalFold c country = true) := by
  unfold countryAllowedByRoute at h
  split_ifs at h with h1 h2 h3 h4
  · exact Or.inl h1
  · exact Or.inr ⟨by simpa using h2, Or.inl h3⟩
  · exact Or.inr ⟨by simpa using h2, Or.inr (by simpa using h4)⟩

theorem enforceNetworkRules_ok {m : Manager} {r : Request} {route : Route}
    (h : enforceNetworkRules m r route = .ok ()) :
    ∃ ip, realClientIP m.trustedProxyCIDRs r = some ip ∧ NetworkAllowed m route ip := by
  unfold enforceNetworkRules at h
  split at h
  · cases h
  · rename_i ip hip
    refine ⟨ip, hip, ?_⟩
    cases hp : checkPrefixes route.blockPrefixes route.allowPrefixes ip with
    | error e => rw [hp] at h; cases h
    | ok u =>
      rw [hp] at h
      cases hr : checkReputation m ip with
      | error e => rw [hr] at h; cases h
      | ok u' =>
        rw [hr] at h
        have hc : checkCountry m route ip = .ok () := h
        obtain ⟨hb, ha⟩ := checkPrefixes_ok hp
        refine ⟨hb, ha, checkReputation_ok hr, fun hconf => ?_⟩
        unfold checkCountry at hc
        rw [if_neg (by tauto)] at hc
        split at hc
        · rename_i hnone
          split_ifs at hc with hopen
          refine Or.inr ⟨fun lookup hl => ?_, hopen⟩
          simpa [hl] using hnone
        · rename_i lookup hsome
          rw [Option.filter_eq_some_iff] at hsome
          split at hc
          · rename_i hok
            exact Or.inl ⟨lookup, hsome.1, hsome.2, countryAllowedByRoute_ok hok⟩
          · cases hc

/-! ## Forms of one address -/

def SameAddress (x y : Addr) : Prop := x.unmap.withoutZone = y.unmap.withoutZone

def SameAnswers (x y : Addr) : Prop :=
  (∀ block allow b a, compileCIDRs block = some b → compileCIDRs allow = some a →
    checkPrefixes b a x = checkPrefixes b a y) ∧
    ∀ rules compiled, compileAccessRules rules = .ok compiled →
    ∀ r ∈ compiled, ∀ path, r.matches x path = r.matches y path

/-- Two prefixes that can replace each other in every block list, allow list and source list. -/
def Interchangeable (p q : Prefix) : Prop :=
  ∀ (before after other : List Prefix) (ip : Addr) (r : CompiledAccessRule) (path : GoString),
    checkPrefixes (before ++ p :: after) other ip = checkPrefixes (before ++ q :: after) other ip ∧
    checkPrefixes other (before ++ p :: after) ip = checkPrefixes other (before ++ q :: after) ip ∧
    { r with included := before ++ p :: after }.matches ip path =
    { r with included := before ++ q :: after }.matches ip path ∧
    { r with excluded := before ++ p :: after }.matches ip path =
    { r with excluded := before ++ q :: after }.matches ip path

def everyV4 : Prefix := ⟨.v4 0#32, 0, by decide, rfl⟩

def everyV6 : Prefix := ⟨.v6 0#128 [], 0, by decide, rfl⟩

omit [UnicodeTables] in
theorem compileCIDRs_every :
    compileCIDRs [str "0.0.0.0/0"] = some [everyV4] ∧ compileCIDRs [str "::/0"] = some [everyV6] ∧
      compileCIDRs [] = some [] := by
  decide +kernel

omit [UnicodeTables] in
theorem contains_everyV4 (ip : Addr) : everyV4.contains ip = true ↔ ip.bitLen = 32 := by
  refine ⟨fun h => (Prefix.bitLen_eq_of_contains h).symm, fun h => ?_⟩
  refine Prefix.contains_of_bits_eq_zero rfl h.symm ?_
  cases ip with
  | v4 n => rfl
  | v6 n z => simp [Addr.bitLen] at h

omit [UnicodeTables] in
theorem contains_everyV6 (ip : Addr) : everyV6.contains ip = true ↔ ip.bitLen = 128 ∧ ip.zone = [] :=
  ⟨fun h => ⟨(Prefix.bitLen_eq_of_contains h).symm, Prefix.zone_eq_nil_of_contains h⟩,
    fun h => Prefix.contains_of_bits_eq_zero rfl h.1.symm h.2⟩

variable {x y : Addr}

omit [UnicodeTables] in
theorem eq_of_sameAddress (h : SameAddress x y) (hlen : x.bitLen = y.bitLen)
    (hz : x.zone = y.zone) : x = y := by
  unfold SameAddress at h
  cases x with
  | v4 a =>
    cases y with
    | v4 b => simpa [Addr.unmap, Addr.withoutZone] using h
    | v6 b z => simp [Addr.bitLen] at hlen
  | v6 a z =>
    cases y with
    | v4 b => simp [Addr.bitLen] at hlen
    | v6 b z' =>
      have hz' : z = z' := hz
      subst hz'
      simp only [Addr.unmap] at h
      split_ifs at h with h1 h2 h2
      · have e1 := congrArg BitVec.toNat h1
        have e2 := congrArg BitVec.toNat h2
        have e3 := congrArg BitVec.toNat (Addr.v4.inj h)
        simp only [BitVec.toNat_ushiftRight, BitVec.toNat_setWidth] at e1 e2 e3
        congr 1
        apply BitVec.eq_of_toNat_eq
        omega
      · simp [Addr.withoutZone] at h
      · simp [Addr.withoutZone] at h
      · simpa [Addr.withoutZone] using h

omit [UnicodeTables] in
theorem matchesAnyPrefix_congr (h : ∀ p : Prefix, p.contains x = p.contains y) (l : List Prefix) :
    matchesAnyPrefix x l = matchesAnyPrefix y l := by
  simp only [matchesAnyPrefix, h]

theorem sameAnswers_of_contains (h : ∀ p : Prefix, p.contains x = p.contains y) : SameAnswers x y := by
  have hm := matchesAnyPrefix_congr h
  refine ⟨fun block allow b a _ _ => ?_, fun rules compiled _ r _ path => ?_⟩
  · simp only [checkPrefixes, hm]
  · simp only [CompiledAccessRule.matches, CompiledAccessRule.matchesIP, hm]

theorem contains_of_sameAnswers (h : SameAnswers x y) {texts : List GoString} {p : Prefix}
    (hc : compileCIDRs texts = some [p]) : p.contains x = p.contains y := by
  have hb := h.1 texts [] [p] [] hc compileCIDRs_every.2.2
  simp only [checkPrefixes, matchesAnyPrefix] at hb
  cases hx : p.contains x <;> cases hy : p.contains y <;> simp [hx, hy] at hb ⊢

theorem sameAnswers_iff (hxy : SameAddress x y) :
    SameAnswers x y ↔ x = y ∨ x.zone ≠ [] ∧ y.zone ≠ [] := by
  constructor
  · intro h
    have h4 := contains_of_sameAnswers h compileCIDRs_every.1
    have h6 := contains_of_sameAnswers h compileCIDRs_every.2.1
    rw [Bool.eq_iff_iff, contains_everyV4, contains_everyV4] at h4
    rw [Bool.eq_iff_iff, contains_everyV6, contains_everyV6] at h6
    have hcases : ∀ a : Addr, a.bitLen = 32 ∧ a.zone = [] ∨ a.bitLen = 128 := by
      intro a
      cases a with
      | v4 n => exact Or.inl ⟨rfl, rfl⟩
      | v6 n z => exact Or.inr rfl
    rcases hcases x with ⟨hx, hxz⟩ | hx
    · rcases hcases y with ⟨hy, hyz⟩ | hy
      · exact Or.inl (eq_of_sameAddress hxy (by rw [hx, hy]) (by rw [hxz, hyz]))
      · omega
    · rcases hcases y with ⟨hy, hyz⟩ | hy
      · omega
      · by_cases hxz : x.zone = []
        · exact Or.inl (eq_of_sameAddress hxy (by rw [hx, hy]) (by rw [hxz, (h6.mp ⟨hx, hxz⟩).2]))
        · refine Or.inr ⟨hxz, fun hyz => hxz (h6.mpr ⟨hy, hyz⟩).2⟩
  · rintro (rfl | ⟨hx, hy⟩)
    · exact sameAnswers_of_contains fun p => rfl
    · refine sameAnswers_of_contains fun p => ?_
      have hno : ∀ a : Addr, a.zone ≠ [] → p.contains a = false := by
        intro a ha
        rw [Bool.eq_false_iff]
        exact fun hc => ha (Prefix.zone_eq_nil_of_contains hc)
      rw [hno x hx, hno y hy]

theorem interchangeable_iff {p q : Prefix} (hpq : p.unmap = q.unmap) : Interchangeable p q ↔ p = q := by
  constructor
  · intro h
    obtain ⟨h1, -⟩ := h [] [] [] p.addr ⟨0, [], .allow, [], [], [], true⟩ []
    have hself := p.contains_self
    simp only [checkPrefixes, matchesAnyPrefix, List.nil_append, List.any_cons, hself] at h1
    cases hq : q.contains p.addr with
    | false => simp [hq] at h1
    | true => exact Prefix.eq_of_unmap_eq hpq (Prefix.bitLen_eq_of_contains hq).symm
  · rintro rfl before after other ip r path
    exact ⟨rfl, rfl, rfl, rfl⟩

/-- The address policies treat two forms of one client address alike exactly when they are the same
form (or both carry a zone), and two forms of one list entry exactly when they compile to the same
prefix. -/
theorem addressForms_iff :
    (∀ x y : Addr, SameAddress x y → (SameAnswers x y ↔ x = y ∨ x.zone ≠ [] ∧ y.zone ≠ [])) ∧
      ∀ (e e' : GoString) (p q : Prefix), compileCIDRs [e] = some [p] → compileCIDRs [e'] = some [q] →
        p.unmap = q.unmap → (Interchangeable p q ↔ compileCIDRs [e] = compileCIDRs [e']) := by
  refine ⟨fun x y hxy => sameAnswers_iff hxy, fun e e' p q hp hq hpq => ?_⟩
  rw [interchangeable_iff hpq, hp, hq]
  simp

end Tables

theorem addressForms_mapped : ¬ @SameAnswers asciiTables (.v4 0x0A000005#32) (.mapped 0x0A000005#32) := by
  have hsame : SameAddress (.v4 0x0A000005#32) (.mapped 0x0A000005#32) := by
    unfold SameAddress
    decide +kernel
  rw [(@addressForms_iff asciiTables).1 _ _ hsame]
  decide +kernel

/-- The block list `10.0.0.0/8` stops `10.0.0.5` but not the same client written `::ffff:10.0.0.5`,
and an entry in the mapped form does not stop the plain address. -/
theorem checkPrefixes_mapped_form :
    parseAddr (str "10.0.0.5") = some (.v4 0x0A000005#32) ∧
      parseAddr (str "::ffff:10.0.0.5") = some (.mapped 0x0A000005#32) ∧
      (compileCIDRs [str "10.0.0.0/8"]).map (fun b => checkPrefixes b [] (.v4 0x0A000005#32)) =
        some (.error (forbidden (str "client ip is blocked"))) ∧
      (compileCIDRs [str "10.0.0.0/8"]).map (fun b => checkPrefixes b [] (.mapped 0x0A000005#32)) =
        some (.ok ()) ∧
      (compileCIDRs [str "::ffff:10.0.0.0/104"]).map (fun b => checkPrefixes b []
        (.v4 0x0A000005#32)) = some (.ok ()) := by
  decide +kernel

end Portlyn.Proxy
