import Portlyn.Proxy.Access

/-! # E-mail restrictions of routes (`route_auth.go`, `access_methods.go`)

A code is sent to the addresses that `validateRouteEmailDomain` accepts, and a cookie is good for
those that the proxy admits. Both read the stored configuration of the route, in which every list is
a JSON array. -/
namespace Portlyn.Http
open Go Domain Proxy
set_option autoImplicit false

/-! ## The functions of the source -/

def stringValueFromAny : Option JsonValue → GoString
  | some (.string s) => s
  | _ => []

def stringSliceFromAny : Option JsonValue → List GoString
  | some (.array items) =>
    (items.map fun item => stringValueFromAny (some item)).filter fun value => trimSpace value ≠ []
  | _ => []

structure AccessMethodConfigRequest where
  pin : GoString
  hint : GoString
  allowedEmailDomain : GoString
  allowedEmails : List GoString

def setKey (object : JsonObject) (key : GoString) (value : JsonValue) : JsonObject :=
  (key, value) :: object.filter fun field => field.1 ≠ key

def deleteKey (object : JsonObject) (key : GoString) : JsonObject := object.filter fun field => field.1 ≠ key

def setText (object : JsonObject) (key text : GoString) : JsonObject :=
  if text ≠ [] then setKey object key (.string text) else deleteKey object key

/-- `strings.TrimPrefix` of the at sign. -/
def trimAt (value : GoString) : GoString := if hasPrefix value [0x40] then value.drop 1 else value

theorem trimAt_eq_nil (value : GoString) : trimAt value = [] ↔ value = [] ∨ value = [0x40] := by
  cases value with
  | nil => exact iff_of_true rfl (Or.inl rfl)
  | cons b rest =>
    rw [trimAt]
    by_cases hb : hasPrefix (b :: rest) [0x40] = true
    · have hat : 0x40 = b := by simpa [hasPrefix] using hb
      rw [← hat, List.drop_succ_cons]
      simp
    · rw [if_neg hb]
      refine iff_of_false (List.cons_ne_nil b rest) ?_
      rintro (h | h)
      · cases h
      · rw [h] at hb
        exact hb rfl

section Tables
variable [UnicodeTables]

def normalizeAllowedEmails (values : List GoString) : List GoString :=
  ((values.map fun value => toLower (trimSpace value)).filter (· ≠ [])).eraseDups

def buildAccessMethodConfig (hashPassword : GoString → Option GoString) (method : GoString)
    (req : AccessMethodConfigRequest)
    (existing : JsonObject) : JsonObject :=
  match normalizedAccessMethod method with
  | .pin =>
    let pin := trimSpace req.pin
    let hash := if pin ≠ [] then hashPassword pin else none
    setText ((hash.map fun hash => setKey existing (str "pin_hash") (.string hash)).getD existing)
      (str "hint") (trimSpace req.hint)
  | .emailCode =>
    let out := setText existing (str "hint") (trimSpace req.hint)
    let allowed := trimSpace req.allowedEmailDomain
    let out :=
      if allowed ≠ [] then setKey out (str "allowed_email_domain") (.string (trimAt (toLower allowed)))
      else deleteKey out (str "allowed_email_domain")
    let emails := normalizeAllowedEmails req.allowedEmails
    if emails ≠ [] then setKey out (str "allowed_emails") (.array (emails.map .string))
      else deleteKey out (str "allowed_emails")
  | _ => []

def domainText (config : JsonObject) : GoString :=
  toLower (trimSpace (stringValueFromAny (config.lookup (str "allowed_email_domain"))))

def validateRouteEmailDomain (email : GoString) (config : JsonObject) : Bool :=
  let normalizedEmail := toLower (trimSpace email)
  let allowedEmails := normalizeAllowedEmails (stringSliceFromAny (config.lookup (str "allowed_emails")))
  if allowedEmails ≠ [] then allowedEmails.any (normalizedEmail = ·)
  else if domainText config = [] then true
  else
    match normalizedEmail.splitOn 0x40 with
    | [_, domain] => domain = trimAt (domainText config)
    | _ => false

/-! ## Where the two agree -/

def InDomain (email domain : GoString) : Prop := ∃ user, (toLower (trimSpace email)).splitOn 0x40 = [user, domain]

theorem split_iff (email domain : GoString) : (match (toLower (trimSpace email)).splitOn 0x40 with
    | [_, d] => decide (d = domain)
    | _ => false) = true ↔ InDomain email domain := by
  rw [InDomain]
  split
  · rename_i user d hsplit
    rw [hsplit, decide_eq_true_eq]
    constructor
    · rintro rfl
      exact ⟨user, rfl⟩
    · rintro ⟨_, h⟩
      cases h
      rfl
  · rename_i hother
    exact iff_of_false Bool.false_ne_true fun ⟨user, h⟩ => hother user domain h

theorem mem_listed (config : JsonObject) (e : GoString) :
    e ∈ normalizeAllowedEmails (stringSliceFromAny (config.lookup (str "allowed_emails"))) ↔
      e ∈ allowedEmails config ∧ e ≠ [] := by
  rw [normalizeAllowedEmails, List.mem_eraseDups, List.mem_filter, List.mem_map, decide_eq_true_eq]
  refine and_congr_left fun hne => ?_
  rw [allowedEmails]
  generalize config.lookup (str "allowed_emails") = stored
  unfold stringSliceFromAny
  split
  · simp only [List.mem_filter, List.mem_map, List.mem_filterMap, decide_eq_true_eq]
    constructor
    · rintro ⟨value, ⟨⟨item, hitem, rfl⟩, hblank⟩, rfl⟩
      cases item with
      | string s => exact ⟨_, hitem, rfl⟩
      | _ => exact absurd rfl hblank
    · rintro ⟨item, hitem, hvalue⟩
      cases item with
      | string s =>
        obtain rfl := Option.some.inj hvalue
        -- a blank text is blank in lower case
        exact ⟨s, ⟨⟨_, hitem, rfl⟩, fun hblank => hne (by rw [hblank]; rfl)⟩, rfl⟩
      | _ => cases hvalue
  · rename_i hother
    refine iff_of_false (fun ⟨_, h, _⟩ => absurd h List.not_mem_nil) ?_
    cases stored with
    | none => exact List.not_mem_nil
    | some value =>
      cases value with
      | array items => exact absurd rfl (hother items)
      | _ => exact List.not_mem_nil

theorem validateRouteEmailDomain_iff (email : GoString) (config : JsonObject) :
    validateRouteEmailDomain email config = true ↔
    if ∃ e ∈ allowedEmails config, e ≠ [] then toLower (trimSpace email) ∈ allowedEmails config ∧
      toLower (trimSpace email) ≠ []
    else domainText config = [] ∨ InDomain email (trimAt (domainText config)) := by
  have hlisted := mem_listed config
  simp only [validateRouteEmailDomain]
  generalize normalizeAllowedEmails (stringSliceFromAny (config.lookup (str "allowed_emails"))) = listed at hlisted ⊢
  by_cases h : ∃ e ∈ allowedEmails config, e ≠ []
  · obtain ⟨e, he⟩ := h
    rw [if_pos (List.ne_nil_of_mem ((hlisted e).mpr he)), if_pos ⟨e, he⟩, List.any_eq_true, ← hlisted]
    exact ⟨fun ⟨_, hmem, heq⟩ => of_decide_eq_true heq ▸ hmem, fun hmem => ⟨_, hmem, decide_eq_true rfl⟩⟩
  · have hnil : listed = [] := List.eq_nil_iff_forall_not_mem.mpr fun e he => h ⟨e, (hlisted e).mp he⟩
    rw [if_neg (not_not.mpr hnil)]
    split
    · rename_i hempty
      exact iff_of_true rfl (Or.inl hempty)
    · rename_i hdomain
      rw [split_iff, or_iff_right hdomain]

theorem routeEmailAllowed_iff (email : GoString) (config : JsonObject) : routeEmailAllowed email config = true ↔
    if allowedEmails config ≠ [] then toLower (trimSpace email) ∈ allowedEmails config ∧ toLower (trimSpace email) ≠ []
    else trimAt (domainText config) = [] ∨ InDomain email (trimAt (domainText config)) := by
  unfold routeEmailAllowed domainText
  dsimp only
  by_cases h : allowedEmails config ≠ []
  · rw [if_pos h, if_pos h, List.any_eq_true]
    constructor
    · rintro ⟨e, he, heq⟩
      rw [Bool.and_eq_true, decide_eq_true_eq, decide_eq_true_eq] at heq
      exact heq.2 ▸ ⟨he, heq.1⟩
    · rintro ⟨hmem, hne⟩
      exact ⟨_, hmem, by simp [hne]⟩
  · rw [if_neg h, if_neg h]
    split
    · rename_i raw hraw
      rw [hraw, stringValueFromAny, trimAt]
      generalize (if hasPrefix (toLower (trimSpace raw)) [0x40] = true then _ else _ : GoString) = allowed
      split
      · rename_i hempty
        exact iff_of_true rfl (Or.inl hempty)
      · rename_i hdomain
        rw [or_iff_right hdomain]
        exact split_iff email allowed
    · rename_i hraw
      have hnone : stringValueFromAny (config.lookup (str "allowed_email_domain")) = [] := by
        cases hvalue : config.lookup (str "allowed_email_domain") with
        | none => rfl
        | some value =>
          cases value with
          | string s => exact absurd hvalue (hraw s)
          | _ => rfl
      rw [hnone]
      exact iff_of_true rfl (Or.inl rfl)

end Tables

/-- For every configuration and every e-mail: a code is sent to those that the proxy admits, and to
no others, if and only if an e-mail is listed, or none is and the domain is not a lone at sign (or
the e-mail ends in one), or only blank ones are listed and the domain refuses the e-mail. -/
theorem emailRestrictions_agree_iff [UnicodeTables] (email : GoString) (config : JsonObject) :
    (validateRouteEmailDomain email config = true ↔ routeEmailAllowed email config = true) ↔
      (∃ e ∈ allowedEmails config, e ≠ []) ∨
      (allowedEmails config = [] ∧ (domainText config ≠ [0x40] ∨ InDomain email [])) ∨
      (allowedEmails config ≠ [] ∧ domainText config ≠ [] ∧ ¬ InDomain email (trimAt (domainText config))) := by
  rw [validateRouteEmailDomain_iff, routeEmailAllowed_iff, trimAt_eq_nil]
  by_cases hlisted : ∃ e ∈ allowedEmails config, e ≠ []
  · obtain ⟨e, he⟩ := hlisted
    rw [if_pos ⟨e, he⟩, if_pos (List.ne_nil_of_mem he.1)]
    exact iff_of_true Iff.rfl (Or.inl ⟨e, he⟩)
  · rw [if_neg hlisted, or_iff_right hlisted]
    by_cases hnil : allowedEmails config = []
    · by_cases hat : domainText config = [0x40]
      · have htrim : trimAt (domainText config) = [] := (trimAt_eq_nil _).mpr (Or.inr hat)
        rw [htrim]
        simp [hnil, hat]
      · simp [hnil, hat]
    · have hrefused : ¬ (toLower (trimSpace email) ∈ allowedEmails config ∧ toLower (trimSpace email) ≠ []) :=
        fun h => hlisted ⟨_, h⟩
      rw [if_pos hnil]
      simp only [hnil, hrefused, false_and, false_or, iff_false, not_or, ne_eq, not_false_eq_true, true_and]

/-- Two at signs in the request are stored as one. -/
theorem emailRestrictions_differ :
    let config := @buildAccessMethodConfig asciiTables some (str "email_code") ⟨[], [], str "@@", []⟩ []
    @validateRouteEmailDomain asciiTables (str "a@b") config = false ∧
      @routeEmailAllowed asciiTables (str "a@b") config = true := by
  decide +kernel

end Portlyn.Http
