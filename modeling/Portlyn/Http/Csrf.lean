import Portlyn.Auth.Authenticate
import Portlyn.Go.Base64
import Portlyn.Go.Chi
import Portlyn.Go.Json

/-! # Cross-site request forgery (`security.go`)

`csrfMiddleware` lets a request pass without a token if its normalised path is one of those on which
nodes authenticate themselves, or if it has a bearer header. A handler then picks its credential on
its own. A path that is routed to a handler with a session is never one of the nodes'
(`guarded_not_nodeAuthPath`), and a bearer header is what the guard takes; but the handlers of
refresh and logout take the cookie first (`csrf_covers_iff`). -/
namespace Portlyn.Http
open Go Auth
set_option autoImplicit false

/-! ## The routes of the API (`server.go`)

The routes under `/api/v1` whose method is not safe, in the order of the source. Of a handler the
table says from where it takes the credential on which it acts. -/

/-- `anonymous` handlers look at no session, `guarded` ones stand behind `RequireAuth`. -/
inductive ApiHandler
  | anonymous
  | refreshSession
  | logoutSession
  | guarded
deriving DecidableEq

instance : Coe String Segment := ⟨fun text => .literal (str text)⟩

def apiRoute (method : String) (path : List Segment) (handler : ApiHandler) : Route ApiHandler :=
  ⟨str method, "api" :: "v1" :: path, handler⟩

def apiRoutes : List (Route ApiHandler) :=
  let post := apiRoute "POST"
  let put := apiRoute "PUT"
  let patch := apiRoute "PATCH"
  let delete := apiRoute "DELETE"
  [
    post ["auth", "login"] .anonymous,
    post ["auth", "break-glass", "login"] .anonymous,
    post ["auth", "request-otp"] .anonymous,
    post ["auth", "verify-otp"] .anonymous,
    post ["auth", "verify-mfa"] .anonymous,
    post ["auth", "passkey", "begin-login"] .anonymous,
    post ["auth", "passkey", "finish-login"] .anonymous,
    post ["auth", "refresh"] .refreshSession,
    post ["auth", "logout"] .logoutSession,
    post ["nodes", "enroll"] .anonymous,
    post ["nodes", .param, "heartbeat"] .anonymous,
    post ["nodes", .param, "wg-bootstrap"] .anonymous,
    post ["route-auth", "pin"] .anonymous,
    post ["route-auth", "request-email-code"] .anonymous,
    post ["route-auth", "verify-email-code"] .anonymous,
    post ["me", "account-setup"] .guarded,
    post ["me", "password"] .guarded,
    post ["me", "mfa", "setup"] .guarded,
    post ["me", "mfa", "enable"] .guarded,
    post ["me", "mfa", "disable"] .guarded,
    post ["me", "mfa", "recovery-codes"] .guarded,
    post ["me", "bootstrap", "dismiss"] .guarded,
    delete ["sessions", .param] .guarded,
    post ["sessions", "revoke-all"] .guarded,
    post ["route-auth", "session-bridge-token"] .guarded,
    post ["me", "passkeys", "begin-registration"] .guarded,
    post ["me", "passkeys", "finish-registration"] .guarded,
    delete ["me", "passkeys", .param] .guarded,
    post ["services", .param, "explain"] .guarded,
    patch ["settings", "auth"] .guarded,
    post ["settings", "auth", "test-email"] .guarded,
    patch ["settings", "network"] .guarded,
    post ["security", "rotation", "data-key", "reencrypt"] .guarded,
    post ["api-tokens"] .guarded,
    delete ["api-tokens", .param] .guarded,
    post ["users"] .guarded,
    patch ["users", .param] .guarded,
    delete ["users", .param] .guarded,
    post ["users", .param, "mfa", "reset"] .guarded,
    delete ["users", .param, "sessions", .param] .guarded,
    post ["users", .param, "sessions", "revoke-all"] .guarded,
    post ["groups"] .guarded,
    patch ["groups", .param] .guarded,
    delete ["groups", .param] .guarded,
    post ["groups", .param, "members"] .guarded,
    delete ["groups", .param, "members", .param] .guarded,
    post ["service-groups"] .guarded,
    patch ["service-groups", .param] .guarded,
    delete ["service-groups", .param] .guarded,
    post ["service-groups", .param, "services"] .guarded,
    delete ["service-groups", .param, "services", .param] .guarded,
    post ["nodes"] .guarded,
    patch ["nodes", .param] .guarded,
    delete ["nodes", .param] .guarded,
    post ["domains"] .guarded,
    put ["domains"] .guarded,
    patch ["domains", .param] .guarded,
    delete ["domains", .param] .guarded,
    post ["certificates"] .guarded,
    patch ["certificates", .param] .guarded,
    delete ["certificates", .param] .guarded,
    post ["certificates", .param, "retry"] .guarded,
    post ["certificates", .param, "renew"] .guarded,
    post ["certificates", .param, "sync-status"] .guarded,
    post ["certificates", .param, "import-pem"] .guarded,
    post ["dns-providers"] .guarded,
    patch ["dns-providers", .param] .guarded,
    delete ["dns-providers", .param] .guarded,
    post ["dns-providers", .param, "test"] .guarded,
    post ["services"] .guarded,
    put ["services"] .guarded,
    patch ["services", .param] .guarded,
    delete ["services", .param] .guarded,
    post ["node-enrollment-tokens"] .guarded,
    delete ["node-enrollment-tokens", .param] .guarded,
    patch ["tunnel", "settings"] .guarded,
    delete ["nodes", .param, "wg-tunnel"] .guarded,
    post ["clients"] .guarded,
    post ["clients", .param, "rotate"] .guarded,
    delete ["clients", .param] .guarded,
    post ["services", .param, "magic-link"] .guarded,
    post ["audit-webhooks"] .guarded,
    patch ["audit-webhooks", .param] .guarded,
    delete ["audit-webhooks", .param] .guarded,
    post ["audit-webhooks", .param, "test"] .guarded,
    post ["audit-webhooks", .param, "rotate-secret"] .guarded,
    post ["services", .param, "exposure-scan"] .guarded,
    post ["services", .param, "redeploy"] .guarded]

def parseIDParam (raw : GoString) : Option ℕ := parseUint 64 (trimSpace raw)

/-! ### Credentials -/

inductive Credential
  | cookie (name value : GoString)
  | header (value : GoString)
deriving DecidableEq

def refreshCookieName : GoString := str "portlyn_refresh"

def cookieCredential (r : Request) (name : GoString) : Option Credential :=
  match r.cookie name with
  | some value => if trimSpace value = [] then none else some (.cookie name (trimSpace value))
  | none => none

def headerCredential (token : GoString) : Option Credential := if token = [] then none else some (.header token)

/-- The token of `AuthenticateRequest`: the header first. -/
def requestCredential (r : Request) : Option Credential :=
  (headerCredential (bearerOf r)).or (cookieCredential r sessionCookieName)

def sessionTokenFromRequest (r : Request) : Option Credential :=
  (cookieCredential r sessionCookieName).or (headerCredential (bearerOf r))

def refreshTokenFromRequest (r : Request) : Option Credential :=
  (cookieCredential r refreshCookieName).or
    (headerCredential (trimSpace (bearerTokenFromHeader (r.header.get (str "X-Refresh-Token")))))

def ApiHandler.credential (r : Request) : ApiHandler → Option Credential
  | .anonymous => none
  | .refreshSession => refreshTokenFromRequest r
  | .logoutSession => sessionTokenFromRequest r
  | .guarded => requestCredential r

/-! ## The token -/

/-- What the token is made with: the hexadecimal HMAC with the CSRF secret, and its lifetime. -/
structure CsrfConfig where
  mac : GoString → GoString
  ttl : ℤ

def csrfCookieName : GoString := str "portlyn_csrf"

/-- `random` is in hexadecimal; the time is in seconds. -/
def newCSRFCookieValue (cfg : CsrfConfig) (random : GoString) (expiresAt : ℤ) : GoString :=
  let payload := random ++ dot :: intText expiresAt
  Base64.rawURLEncode (payload ++ dot :: cfg.mac payload)

def validCSRFCookie (cfg : CsrfConfig) (now : Instant) (value : GoString) : Bool :=
  match Base64.rawURLDecode (trimSpace value) with
  | none => false
  | some raw =>
    match raw.splitOn dot with
    | [random, expiresAt, signature] =>
      match parseInt64 expiresAt with
      | none => false
      | some unix =>
        if unix * 1000000000 < now then false else signature = cfg.mac (random ++ dot :: expiresAt)
    | _ => false

/-- The token that is made for a request without a valid one. `random` is `none` where the random
source fails. -/
def freshToken (cfg : CsrfConfig) (now : Instant) (random : Option GoString) : GoString :=
  (random.map fun random => newCSRFCookieValue cfg random ((now + cfg.ttl) / 1000000000)).getD []

def ensureCSRFCookie (cfg : CsrfConfig) (now : Instant) (random : Option GoString) (r : Request) : GoString :=
  match r.cookie csrfCookieName with
  | some value => if validCSRFCookie cfg now (trimSpace value) then trimSpace value else freshToken cfg now random
  | none => freshToken cfg now random

/-! ## The paths of nodes -/

def normalizeNodeAuthPath (parser : PathParser) (raw : GoString) : GoString :=
  let trimmed := trimSpace raw
  if trimmed = [] then [slash]
  else
    let parsed := ((parser.parse trimmed).filter (· ≠ [])).getD trimmed
    cleanRooted (slash :: if hasPrefix parsed [slash] then parsed.drop 1 else parsed)

/-- What follows the number in a path that matches `nodeAuthPathPattern`. -/
def nodeAuthActions : List GoString := [str "heartbeat", str "wg-bootstrap", str "tunnel-targets"]

def isNodeAuthPath (parser : PathParser) (path : GoString) : Bool :=
  let normalized := normalizeNodeAuthPath parser path
  if normalized = str "/api/v1/nodes/enroll" then true
  else
    match normalized.splitOn slash with
    | [root, api, v1, nodes, id, action] =>
      root = [] && api = str "api" && v1 = str "v1" && nodes = str "nodes" && (parseUint 64 id).isSome &&
        nodeAuthActions.contains action
    | _ => false

/-! ## The middleware -/

def isSafeMethod (method : GoString) : Bool := method = str "GET" || method = str "HEAD" || method = str "OPTIONS"

inductive CsrfOutcome
  | nodePath
  | bearer
  | safeMethod
  | verified
  | failed
deriving DecidableEq

def hasBearer (r : Request) : Bool := hasPrefix (trimSpace (r.header.get (str "Authorization"))) (str "Bearer ")

def csrfHeader (r : Request) : GoString := trimSpace (r.header.get (str "X-Csrf-Token"))

def csrfMiddleware (cfg : CsrfConfig) (parser : PathParser) (now : Instant)
    (random : Option GoString) (r : Request) : CsrfOutcome :=
  if isNodeAuthPath parser r.url.path then .nodePath
  else if hasBearer r then .bearer
  else
    let token := ensureCSRFCookie cfg now random r
    if isSafeMethod r.method then .safeMethod
    else if csrfHeader r = [] || token = [] || csrfHeader r ≠ token || !validCSRFCookie cfg now token then .failed
    else .verified

def TokenMatches (cfg : CsrfConfig) (now : Instant) (r : Request) : Prop :=
  ∃ value, r.cookie csrfCookieName = some value ∧ csrfHeader r = trimSpace value ∧
    validCSRFCookie cfg now (trimSpace value) = true

/-- The handler runs, the parameters of its path are numbers, and its credential is a cookie. -/
def ActsOnCookie (r : Request) (route : Route ApiHandler) (params : List GoString) : Prop :=
  (∀ param ∈ params, (parseIDParam param).isSome) ∧ ∃ name value, route.handler.credential r = some (.cookie name value)

/-! ## Bearer headers -/

theorem bearerOf_ne_nil {r : Request} (h : hasBearer r = true) : bearerOf r ≠ [] := by
  rw [bearerOf, bearerTokenFromHeader]
  have hself : trimSpace (trimSpace (r.header.get (str "Authorization"))) =
    trimSpace (r.header.get (str "Authorization")) :=
    trimSpace_trimSpace _
  rw [hasBearer] at h
  generalize trimSpace (r.header.get (str "Authorization")) = header at h hself
  rw [if_pos h, trimSpace_trimSpace]
  obtain ⟨rest, rfl⟩ := List.isPrefixOf_iff_prefix.mp h
  have hsplit : str "Bearer " ++ rest = str "Beare" ++ 0x72 :: 0x20 :: rest := by
    have hbearer : str "Bearer " = str "Beare" ++ [0x72, 0x20] := by decide +kernel
    rw [hbearer, List.append_assoc]
    rfl
  have hdrop : (str "Bearer " ++ rest).drop 7 = rest := List.drop_left' (by decide +kernel)
  rw [hdrop]
  have hright := (trim_eq_self_of_trimSpace hself).2
  rw [hsplit, trimRightSpace_append_cons (by decide)] at hright
  have hblank : trimRightSpace (0x20 :: rest) = 0x20 :: rest := (List.cons.inj (List.append_cancel_left hright)).2
  rw [trimRightSpace_eq_self_iff] at hblank
  refine trimSpace_ne_nil ?_ ((trimRightSpace_eq_self_iff rest).mpr fun u hu hsuffix => hblank u hu ?_)
  · rintro rfl
    exact hblank [0x20] (by decide) (List.suffix_refl _)
  · exact hsuffix.trans (List.suffix_cons _ _)

/-! ## Paths that are routed -/

def NumberText (seg : GoString) : Prop := (∃ b ∈ seg, IsDecDigit b) ∧ ∀ b ∈ seg, NotSpace b → IsDecDigit b

instance (seg : GoString) : Decidable (NumberText seg) := inferInstanceAs (Decidable (_ ∧ _))

variable {seg : GoString}

theorem numberText_of_parse (h : (parseIDParam seg).isSome = true) : NumberText seg := by
  obtain ⟨hne, hdigits⟩ := parseUint_digits h
  obtain ⟨b, hb⟩ := List.exists_mem_of_ne_nil _ hne
  refine ⟨⟨b, mem_of_mem_trimSpace hb, hdigits b hb⟩, fun b hb hspace => ?_⟩
  obtain ⟨l, r, hseg, hl, hr⟩ := trimSpace_spec seg
  rw [hseg, List.mem_append, List.mem_append] at hb
  rcases hb with (hb | hb) | hb
  · exact absurd hb (hl b hspace)
  · exact hdigits b hb
  · exact absurd hb (hr b hspace)

theorem NumberText.trimRight (h : NumberText seg) : NumberText (trimRightSpace seg) := by
  obtain ⟨⟨b, hb, hdigit⟩, hbytes⟩ := h
  obtain ⟨us, hus, hunits⟩ := trimRightSpace_spec seg
  refine ⟨⟨b, ?_, hdigit⟩, fun b hb => hbytes b ?_⟩
  · rw [hus, List.mem_append] at hb
    exact hb.resolve_right ((notSpace_of_isDecDigit hdigit).not_mem_flatten hunits)
  · rw [hus]
    exact List.mem_append_left _ hb

structure PlainSegment (seg : GoString) : Prop where
  bytes : ∀ b ∈ seg, b ≠ slash ∧ b ≠ percent ∧ b ≠ 0x3F ∧ b ≠ 0x23
  letter : ∃ b ∈ seg, b ≠ dot

theorem NumberText.plain (h : NumberText seg) : PlainSegment seg := by
  obtain ⟨⟨d, hd, hdigit⟩, hbytes⟩ := h
  have hother : ∀ b : UInt8, NotSpace b → ¬ IsDecDigit b → ∀ b' ∈ seg, b' ≠ b := by
    rintro b hspace hno _ hb rfl
    exact hno (hbytes _ hb hspace)
  refine ⟨fun b hb => ⟨?_, ?_, ?_, ?_⟩, d, hd, ?_⟩
  · exact hother slash (by decide) (by decide) b hb
  · exact hother percent (by decide) (by decide) b hb
  · exact hother 0x3F (by decide) (by decide) b hb
  · exact hother 0x23 (by decide) (by decide) b hb
  · rintro rfl
    exact absurd hdigit (by decide)

theorem PlainSegment.clean (h : PlainSegment seg) : seg ≠ [] ∧ slash ∉ seg := by
  obtain ⟨b, hb, -⟩ := h.letter
  exact ⟨List.ne_nil_of_mem hb, fun hslash => (h.bytes _ hslash).1 rfl⟩

theorem PlainSegment.not_dots (h : PlainSegment seg) : seg ≠ [dot] ∧ seg ≠ [dot, dot] := by
  obtain ⟨b, hb, hdot⟩ := h.letter
  refine ⟨?_, ?_⟩ <;> rintro rfl
  · exact hdot (List.mem_singleton.mp hb)
  · simp only [List.mem_cons, List.not_mem_nil, or_false, or_self] at hb
    exact hdot hb

def trimLast : List GoString → List GoString
  | [] => []
  | [seg] => [trimRightSpace seg]
  | seg :: next :: segs => seg :: trimLast (next :: segs)

variable {segs : List GoString}

theorem trimLast_ne_nil (hne : segs ≠ []) : trimLast segs ≠ [] := by
  fun_cases trimLast segs with
  | case1 => exact absurd rfl hne
  | case2 seg => exact List.cons_ne_nil _ _
  | case3 seg next segs => exact List.cons_ne_nil _ _

theorem trimRightSpace_joinParts (segs : List GoString) :
    trimRightSpace (joinParts slash segs) = joinParts slash (trimLast segs) := by
  fun_induction trimLast segs with
  | case1 => rfl
  | case2 seg =>
    rw [joinParts_cons, joinParts_nil, List.append_nil, joinParts_cons, joinParts_nil, List.append_nil]
    exact trimRightSpace_append_cons notSpace_slash [] seg
  | case3 seg next segs ih =>
    have hnext : trimRightSpace (joinParts slash (next :: segs)) =
      slash :: trimRightSpace (next ++ joinParts slash segs) :=
      trimRightSpace_append_cons notSpace_slash [] _
    have hall : joinParts slash (seg :: next :: segs) = (slash :: seg) ++ slash :: (next ++ joinParts slash segs) := rfl
    rw [hall, trimRightSpace_append_cons notSpace_slash, ← hnext, ih]
    rfl

theorem trimSpace_joinParts (segs : List GoString) :
    trimSpace (joinParts slash segs) = joinParts slash (trimLast segs) := by
  have hleft : trimLeftSpace (joinParts slash segs) = joinParts slash segs := by
    cases segs with
    | nil => rfl
    | cons seg segs => exact trimLeftSpace_append_cons notSpace_slash [] _
  rw [trimSpace, hleft, trimRightSpace_joinParts]

theorem mem_joinParts {b : UInt8} (h : b ∈ joinParts slash segs) : b = slash ∨ ∃ seg ∈ segs, b ∈ seg := by
  obtain ⟨seg, hseg, hb⟩ := List.mem_flatMap.mp h
  exact (List.mem_cons.mp hb).imp_right fun hb => ⟨seg, hseg, hb⟩

theorem normalizeNodeAuthPath_plain (parser : PathParser) (hne : segs ≠ [])
    (hplain : ∀ seg ∈ trimLast segs, PlainSegment seg) :
    normalizeNodeAuthPath parser (joinParts slash segs) = joinParts slash (trimLast segs) := by
  rw [normalizeNodeAuthPath, trimSpace_joinParts]
  have hclean : cleanRooted (joinParts slash (trimLast segs)) = joinParts slash (trimLast segs) :=
    cleanRooted_joinParts (trimLast_ne_nil hne)
      (fun seg hseg => (hplain seg hseg).clean) fun seg hseg => (hplain seg hseg).not_dots
  have hbytes : ∀ b ∈ joinParts slash (trimLast segs), b = slash ∨ b ≠ percent ∧ b ≠ 0x3F ∧ b ≠ 0x23 := by
    intro b hb
    refine (mem_joinParts hb).imp_right ?_
    rintro ⟨seg, hseg, hb⟩
    exact ((hplain seg hseg).bytes b hb).2
  obtain ⟨seg, rest, hsegs⟩ := List.exists_cons_of_ne_nil (trimLast_ne_nil hne)
  have hpath : joinParts slash (trimLast segs) = slash :: (seg ++ joinParts slash rest) := by rw [hsegs, joinParts_cons]
  have hhead : (seg ++ joinParts slash rest).head? ≠ some slash := by
    have hseg := (hplain seg (by rw [hsegs]; exact List.mem_cons_self)).clean
    obtain ⟨b, seg', rfl⟩ := List.exists_cons_of_ne_nil hseg.1
    intro heq
    exact hseg.2 (Option.some.inj heq ▸ List.mem_cons_self)
  generalize seg ++ joinParts slash rest = p at hpath hhead
  rw [hpath] at hbytes hclean ⊢
  have hnot : ∀ b : UInt8, b ≠ slash → (b = percent ∨ b = 0x3F ∨ b = 0x23) → b ∉ p := by
    intro b hslash hb hmem
    obtain ⟨h₁, h₂, h₃⟩ := (hbytes b (List.mem_cons_of_mem _ hmem)).resolve_left hslash
    rcases hb with rfl | rfl | rfl
    · exact h₁ rfl
    · exact h₂ rfl
    · exact h₃ rfl
  have hparsed : ((parser.parse (slash :: p)).filter (· ≠ [])).getD (slash :: p) = slash :: p := by
    cases hparse : parser.parse (slash :: p) with
    | none => rfl
    | some path =>
      have hplain := parser.plain p path hparse hhead (hnot _ (by decide) (Or.inl rfl))
        (hnot _ (by decide) (Or.inr (Or.inl rfl))) (hnot _ (by decide) (Or.inr (Or.inr rfl)))
      rw [hplain]
      rfl
  rw [hparsed]
  exact hclean

/-! ## Routes against the paths of nodes -/

/-- The paths on which nodes authenticate themselves, segment by segment; `none` is a number. -/
def nodeShapes : List (List (Option GoString)) :=
  [some (str "api"), some (str "v1"), some (str "nodes"), some (str "enroll")] ::
    nodeAuthActions.map fun action => [some (str "api"), some (str "v1"), some (str "nodes"), none, some action]

def HasShape (shape : Option GoString) (seg : GoString) : Prop := ∀ text, shape = some text → seg = text

theorem joinParts_injective {segs' : List GoString} (h : ∀ seg ∈ segs, seg ≠ [] ∧ slash ∉ seg)
    (h' : ∀ seg ∈ segs', seg ≠ [] ∧ slash ∉ seg)
    (heq : joinParts slash segs = joinParts slash segs') : segs = segs' := by
  rw [← fields_joinParts_self h, heq, fields_joinParts_self h']

theorem splitOn_joinParts (hne : segs ≠ []) (h : ∀ seg ∈ segs, slash ∉ seg) :
    (joinParts slash segs).splitOn slash = [] :: segs := by
  have hjoin : joinParts slash segs = [slash].intercalate ([] :: segs) := by
    obtain ⟨seg, rest, rfl⟩ := List.exists_cons_of_ne_nil hne
    rw [← cons_intercalate slash hne, List.intercalate_cons_cons, List.nil_append, List.singleton_append]
  rw [hjoin]
  refine List.splitOn_intercalate slash (fun seg hseg => ?_) (List.cons_ne_nil _ _)
  rcases List.mem_cons.mp hseg with rfl | hseg
  · exact List.not_mem_nil
  · exact h seg hseg

theorem nodeAuthPath_shape {parser : PathParser} {path : GoString} (hne : segs ≠ [])
    (hplain : ∀ seg ∈ segs, PlainSegment seg) (hnormal : normalizeNodeAuthPath parser path = joinParts slash segs)
    (h : isNodeAuthPath parser path = true) : ∃ shape ∈ nodeShapes, List.Forall₂ HasShape shape segs := by
  rw [isNodeAuthPath, hnormal] at h
  split at h
  · rename_i henroll
    have hparts : str "/api/v1/nodes/enroll" = joinParts slash [str "api", str "v1", str "nodes",
      str "enroll"] := by decide +kernel
    rw [hparts] at henroll
    obtain rfl := joinParts_injective (fun seg hseg => (hplain seg hseg).clean) (by decide +kernel) henroll
    refine ⟨_, List.mem_cons_self, ?_⟩
    simp only [List.forall₂_cons, List.forall₂_nil_left_iff, HasShape, Option.some.injEq, forall_eq', and_self]
  · rw [splitOn_joinParts hne fun seg hseg => (hplain seg hseg).clean.2] at h
    split at h
    · rename_i root api v1 nodes id action hsplit
      obtain ⟨rfl, rfl⟩ := List.cons.inj hsplit
      simp only [Bool.and_eq_true, decide_eq_true_eq] at h
      obtain ⟨⟨⟨⟨⟨-, rfl⟩, rfl⟩, rfl⟩, -⟩, haction⟩ := h
      have hmem : action ∈ nodeAuthActions := List.contains_iff_mem.mp haction
      refine ⟨_, List.mem_cons_of_mem _ (List.mem_map_of_mem hmem), ?_⟩
      simp only [List.forall₂_cons, List.forall₂_nil_left_iff, HasShape, Option.some.injEq, forall_eq', and_self,
        reduceCtorEq, false_implies, implies_true]
    · cases h

def CanHaveShape : Segment → Option GoString → Prop
  | .literal text, some text' => text = text'
  | .param, some text => NumberText text
  | _, none => True

instance : ∀ segment shape, Decidable (CanHaveShape segment shape)
  | .literal text, some text' => inferInstanceAs (Decidable (text = text'))
  | .param, some text => inferInstanceAs (Decidable (NumberText text))
  | .literal _, none => isTrue trivial
  | .param, none => isTrue trivial

variable {segment : Segment}

theorem canHaveShape_of_fits {shape : Option GoString} (hfits : segment.Fits NumberText seg)
    (hshape : HasShape shape seg) : CanHaveShape segment shape := by
  cases shape with
  | none => cases segment <;> trivial
  | some text =>
    obtain rfl := hshape text rfl
    cases segment with
    | literal text' => exact hfits.symm
    | param => exact hfits

theorem apiRoutes_not_nodeShape : ∀ route ∈ apiRoutes, route.handler ≠ .anonymous →
    ∀ shape ∈ nodeShapes, ¬ List.Forall₂ CanHaveShape route.pattern shape := by
  decide +kernel

def PlainLiteral : Segment → Prop
  | .literal text => (∀ b ∈ text, NotSpace b ∧ b ≠ slash ∧ b ≠ percent ∧ b ≠ 0x3F ∧ b ≠ 0x23) ∧ ∃ b ∈ text, b ≠ dot
  | .param => True

instance : ∀ segment, Decidable (PlainLiteral segment)
  | .literal _ => inferInstanceAs (Decidable (_ ∧ _))
  | .param => isTrue trivial

def NameLiteral : Segment → Prop
  | .literal text =>
    (∀ b ∈ text, 0x2D ≤ b.toNat ∧ b.toNat < 0x7B ∧ b.toNat ≠ 0x2F ∧ b.toNat ≠ 0x3F) ∧
      ∃ b ∈ text, b ≠ dot
  | .param => True

instance decidableNameLiteral : ∀ segment, Decidable (NameLiteral segment)
  | .literal _ => inferInstanceAs (Decidable (_ ∧ _))
  | .param => isTrue trivial

theorem NameLiteral.plain (h : NameLiteral segment) : PlainLiteral segment := by
  cases segment with
  | param => trivial
  | literal text =>
    refine ⟨fun b hb => ?_, h.2⟩
    obtain ⟨hlow, hhigh, hslash, hquery⟩ := h.1 b hb
    refine ⟨notSpace_of_visible (by omega) (by omega), ?_, ?_, ?_, ?_⟩ <;> rintro rfl
    · exact hslash rfl
    · exact absurd hlow (by decide)
    · exact hquery rfl
    · exact absurd hlow (by decide)

theorem apiRoutes_plain : ∀ route ∈ apiRoutes, ∀ segment ∈ route.pattern, PlainLiteral segment := by
  have hnames : ∀ route ∈ apiRoutes, ∀ segment ∈ route.pattern, NameLiteral segment := by decide +kernel
  exact fun route hroute segment hsegment => (hnames route hroute segment hsegment).plain

theorem fits_trimRight (hliteral : PlainLiteral segment) (h : segment.Fits NumberText seg) :
    segment.Fits NumberText (trimRightSpace seg) := by
  cases segment with
  | literal text =>
    obtain rfl := h
    exact trimRightSpace_eq_self_of_notSpace fun b hb => (hliteral.1 b hb).1
  | param => exact NumberText.trimRight h

theorem fits_plainSegment (hliteral : PlainLiteral segment) (h : segment.Fits NumberText seg) :
    PlainSegment seg := by
  cases segment with
  | literal text =>
    obtain rfl := h
    exact ⟨fun b hb => (hliteral.1 b hb).2, hliteral.2⟩
  | param => exact NumberText.plain h

variable {pattern : List Segment}

theorem fits_trimLast (hliteral : ∀ segment ∈ pattern, PlainLiteral segment)
    (h : List.Forall₂ (Segment.Fits NumberText) pattern segs) :
    List.Forall₂ (Segment.Fits NumberText) pattern (trimLast segs) := by
  induction h with
  | nil => exact .nil
  | @cons segment seg pattern segs hfits hrest ih =>
    have hseg := hliteral segment List.mem_cons_self
    have ih := ih fun segment hmem => hliteral segment (List.mem_cons_of_mem _ hmem)
    cases segs with
    | nil => exact .cons (fits_trimRight hseg hfits) ih
    | cons next segs => exact .cons hfits ih

theorem forall₂_plainSegment (hliteral : ∀ segment ∈ pattern, PlainLiteral segment)
    (h : List.Forall₂ (Segment.Fits NumberText) pattern segs) : ∀ seg ∈ segs, PlainSegment seg := by
  induction h with
  | nil => exact List.forall_mem_nil _
  | @cons segment seg pattern segs hfits hrest ih =>
    intro seg' hseg'
    rcases List.mem_cons.mp hseg' with rfl | hseg'
    · exact fits_plainSegment (hliteral segment List.mem_cons_self) hfits
    · exact ih (fun segment hmem => hliteral segment (List.mem_cons_of_mem _ hmem)) seg' hseg'

theorem forall₂_canHaveShape {shape : List (Option GoString)}
    (hfits : List.Forall₂ (Segment.Fits NumberText) pattern segs)
    (hshape : List.Forall₂ HasShape shape segs) : List.Forall₂ CanHaveShape pattern shape := by
  induction hfits generalizing shape with
  | nil =>
    cases hshape
    exact .nil
  | cons hfits _ ih =>
    cases hshape with
    | cons hseg hrest => exact .cons (canHaveShape_of_fits hfits hseg) (ih hrest)

theorem decoded_of_plain {target : GoString} {u : URL} (hurl : URL.setPath target = some u)
    (hne : segs ≠ []) (hplain : ∀ seg ∈ segs, PlainSegment seg)
    (hpath : routePath u = joinParts slash segs) : u.path = joinParts slash segs := by
  have hpercent : percent ∉ joinParts slash segs := by
    intro hmem
    rcases mem_joinParts hmem with heq | ⟨seg, hseg, hb⟩
    · exact absurd heq (by decide)
    · exact ((hplain seg hseg).bytes _ hb).2.1 rfl
  rw [routePath] at hpath
  split at hpath
  · rename_i hraw
    rw [← hpath] at hpercent ⊢
    exact setPath_of_not_mem hurl hraw hpercent
  · split at hpath
    · have hsegs := fields_joinParts_self fun seg hseg => (hplain seg hseg).clean
      rw [← hpath] at hsegs
      exact absurd hsegs.symm hne
    · exact hpath

theorem guarded_not_nodeAuthPath [SegmentMatcher] (parser : PathParser) {r : Request}
    {target : GoString} {route : Route ApiHandler} {params : List GoString}
    (hurl : URL.setPath target = some r.url) (hroute : route ∈ apiRoutes)
    (hserves : route.serves r.method r.url = some params)
    (hparams : ∀ param ∈ params, (parseIDParam param).isSome = true)
    (hhandler : route.handler ≠ .anonymous) : isNodeAuthPath parser r.url.path = false := by
  have hpattern : route.pattern ≠ [] := by
    have hall : ∀ route ∈ apiRoutes, route.pattern ≠ [] := by decide +kernel
    exact hall route hroute
  have hliteral := apiRoutes_plain route hroute
  obtain ⟨segs, hfits, -, hpath⟩ := serves_path hpattern hserves
  have hfits : List.Forall₂ (Segment.Fits NumberText) route.pattern segs :=
    hfits.imp fun _ _ => Segment.Fits.imp fun seg hseg => numberText_of_parse (hparams seg hseg)
  have hne : segs ≠ [] := by
    rintro rfl
    exact hpattern (List.forall₂_nil_right_iff.mp hfits)
  rw [decoded_of_plain hurl hne (forall₂_plainSegment hliteral hfits) hpath]
  by_contra hnode
  rw [Bool.not_eq_false] at hnode
  have hplain := forall₂_plainSegment hliteral (fits_trimLast hliteral hfits)
  obtain ⟨shape, hmem, hshape⟩ :=
    nodeAuthPath_shape (trimLast_ne_nil hne) hplain (normalizeNodeAuthPath_plain parser hne hplain)
    hnode
  exact apiRoutes_not_nodeShape route hroute hhandler shape hmem
    (forall₂_canHaveShape (fits_trimLast hliteral hfits) hshape)

/-! ## Main result -/

section Middleware
variable {cfg : CsrfConfig} {parser : PathParser} {now : Instant} {random : Option GoString}
  {r : Request}

/-- A client does not know the random bytes that are drawn when its request has come. -/
def Unforeseen (cfg : CsrfConfig) (now : Instant) (random : Option GoString) (r : Request) : Prop :=
  ∀ bytes, random = some bytes → csrfHeader r ≠ newCSRFCookieValue cfg bytes ((now + cfg.ttl) / 1000000000)

theorem verified_token (hrandom : Unforeseen cfg now random r)
    (h : csrfMiddleware cfg parser now random r = .verified) : TokenMatches cfg now r := by
  rw [csrfMiddleware] at h
  split at h
  · cases h
  · split at h
    · cases h
    · dsimp only at h
      split at h
      · cases h
      · split at h
        · cases h
        · rename_i hchecks
          simp only [Bool.or_eq_true, decide_eq_true_eq, Bool.not_eq_true', not_or, not_not,
            Bool.not_eq_false] at hchecks
          obtain ⟨⟨⟨hheader, -⟩, htoken⟩, -⟩ := hchecks
          have hfresh : csrfHeader r ≠ freshToken cfg now random := by
            cases random with
            | none => exact hheader
            | some bytes => exact hrandom bytes rfl
          rw [ensureCSRFCookie] at htoken
          split at htoken
          · rename_i value hcookie
            split at htoken
            · rename_i hvalue
              exact ⟨value, hcookie, htoken, hvalue⟩
            · exact absurd htoken hfresh
          · exact absurd htoken hfresh

variable {name : GoString}

theorem cookieCredential_cookie {credential : Credential}
    (h : cookieCredential r name = some credential) : ∃ value, credential = .cookie name value := by
  rw [cookieCredential] at h
  split at h
  · split at h
    · cases h
    · exact ⟨_, (Option.some.inj h).symm⟩
  · cases h

theorem headerCredential_ne_cookie {token value : GoString} : headerCredential token ≠ some (.cookie name value) := by
  rw [headerCredential]
  split <;> nofun

theorem requestCredential_of_bearer (h : hasBearer r = true) {value : GoString} :
    requestCredential r ≠ some (.cookie name value) := by
  rw [requestCredential, headerCredential, if_neg (bearerOf_ne_nil h), Option.some_or]
  nofun

def PrefersCookie (r : Request) (handler : ApiHandler) : Prop :=
  handler = .refreshSession ∧ (cookieCredential r refreshCookieName).isSome = true ∨
    handler = .logoutSession ∧ (cookieCredential r sessionCookieName).isSome = true

theorem params_of_prefersCookie [SegmentMatcher] {route : Route ApiHandler} {params : List GoString}
    (hroute : route ∈ apiRoutes) (hserves : route.serves r.method r.url = some params)
    (h : PrefersCookie r route.handler) : params = [] := by
  have hall : ∀ route ∈ apiRoutes, route.handler = .refreshSession ∨
    route.handler = .logoutSession → .param ∉ route.pattern := by
    decide +kernel
  have hliteral := hall route hroute (h.imp And.left And.left)
  rw [Route.serves] at hserves
  split at hserves
  · split at hserves
    · exact SegmentMatcher.literals hliteral hserves
    · cases hserves
  · cases hserves

theorem unsafe_of_serves [SegmentMatcher] {route : Route ApiHandler} {params : List GoString}
    (hroute : route ∈ apiRoutes) (hserves : route.serves r.method r.url = some params) :
    isSafeMethod r.method = false := by
  have hall : ∀ route ∈ apiRoutes, isSafeMethod route.method = false := by decide +kernel
  rw [Route.serves] at hserves
  split at hserves
  · rename_i hmethod
    rw [hmethod]
    exact hall route hroute
  · cases hserves

theorem cookieFirst_iff {token : GoString} :
    (∃ name' value, (cookieCredential r name).or (headerCredential token) = some (.cookie name' value)) ↔
      (cookieCredential r name).isSome = true := by
  cases hcookie : cookieCredential r name with
  | none =>
    refine ⟨?_, nofun⟩
    rintro ⟨name', value, h⟩
    exact absurd h headerCredential_ne_cookie
  | some credential =>
    obtain ⟨value, rfl⟩ := cookieCredential_cookie hcookie
    exact ⟨fun _ => rfl, fun _ => ⟨name, value, rfl⟩⟩

end Middleware

/-- A handler that acts on the authority of a cookie does so after the token was verified, unless
the request has a bearer header and the handler is that of refresh or logout. -/
theorem csrf_covers_iff [SegmentMatcher] (cfg : CsrfConfig) (parser : PathParser) (now : Instant)
    (random : Option GoString) (r : Request) (target : GoString) (route : Route ApiHandler)
    (params : List GoString) (hurl : URL.setPath target = some r.url) (hroute : route ∈ apiRoutes)
    (hserves : route.serves r.method r.url = some params)
    (hpass : csrfMiddleware cfg parser now random r ≠ .failed)
    (hrandom : Unforeseen cfg now random r) :
    (ActsOnCookie r route params → csrfMiddleware cfg parser now random r = .verified ∧
      TokenMatches cfg now r) ↔
      ¬ (hasBearer r = true ∧ PrefersCookie r route.handler) := by
  constructor
  · rintro hcovers ⟨hbearer, hprefers⟩
    have hacts : ActsOnCookie r route params := by
      refine ⟨?_, ?_⟩
      · rw [params_of_prefersCookie hroute hserves hprefers]
        exact List.forall_mem_nil _
      · rcases hprefers with ⟨hhandler, hcookie⟩ | ⟨hhandler, hcookie⟩
        · rw [hhandler]
          exact cookieFirst_iff.mpr hcookie
        · rw [hhandler]
          exact cookieFirst_iff.mpr hcookie
    have hverified := (hcovers hacts).1
    rw [csrfMiddleware, if_pos hbearer] at hverified
    split at hverified <;> cases hverified
  · rintro hcond ⟨hparams, name, value, hcredential⟩
    have hhandler : route.handler ≠ .anonymous := by
      intro heq
      rw [heq] at hcredential
      cases hcredential
    have hnode := guarded_not_nodeAuthPath parser hurl hroute hserves hparams hhandler
    have hbearer : ¬ hasBearer r = true := by
      intro hbearer
      cases hkind : route.handler with
      | anonymous => exact hhandler hkind
      | refreshSession =>
        rw [hkind] at hcredential
        exact hcond ⟨hbearer, Or.inl ⟨hkind, cookieFirst_iff.mp ⟨name, value, hcredential⟩⟩⟩
      | logoutSession =>
        rw [hkind] at hcredential
        exact hcond ⟨hbearer, Or.inr ⟨hkind, cookieFirst_iff.mp ⟨name, value, hcredential⟩⟩⟩
      | guarded =>
        rw [hkind] at hcredential
        exact requestCredential_of_bearer hbearer hcredential
    have hverified : csrfMiddleware cfg parser now random r = .verified := by
      rw [csrfMiddleware, hnode, if_neg Bool.false_ne_true, if_neg hbearer] at hpass ⊢
      rw [unsafe_of_serves hroute hserves, if_neg Bool.false_ne_true] at hpass ⊢
      split at hpass
      · exact absurd rfl hpass
      · rename_i hchecks
        rw [if_neg hchecks]
    exact ⟨hverified, verified_token hrandom hverified⟩

/-- The HMAC of the sample's payload with the secret `csrf-secret`. -/
def csrfSample : CsrfConfig :=
  ⟨fun _ => str "1f6d7e6d5f0339b7297d3057e9785742c9997c95a3accddb4fc4ca344a04f7a7", 3600 * 1000000000⟩

def csrfSampleToken : String :=
  "MDAxMTIyMzM0NDU1NjY3Nzg4OTlhYWJiY2NkZGVlZmYwMDExLjkuMWY2ZDdlNmQ1ZjAzMzliNzI5" ++
    "N2QzMDU3ZTk3ODU3NDJjOTk5N2M5NWEzYWNjZGRiNGZjNGNhMzQ0YTA0ZjdhNw"

/-- A `POST` with these header lines. -/
def apiPost (path : String) (header : List (String × String)) : Request where
  method := str "POST"
  host := []
  remoteAddr := []
  url := ⟨str path, []⟩
  header := header.map fun line => (str line.1, str line.2)
  tls := true
  peerCertificate := none

def csrfSampleLogout : Request :=
  apiPost "/api/v1/auth/logout"
    [("Cookie", "portlyn_session=s; portlyn_csrf=" ++ csrfSampleToken), ("X-Csrf-Token", csrfSampleToken)]

/-- A logout with a session cookie and the token of its CSRF cookie. -/
theorem csrf_covers_iff_logout :
    csrfMiddleware csrfSample urlPaths 0 none csrfSampleLogout = .verified ∧
      TokenMatches csrfSample 0 csrfSampleLogout := by
  refine (csrf_covers_iff csrfSample urlPaths 0 none _ (str "/api/v1/auth/logout")
    (apiRoute "POST" ["auth", "logout"] .logoutSession) [] ?_ ?_ ?_ ?_ nofun).mpr ?_ ⟨nofun, ?_⟩
  · decide +kernel
  · decide +kernel
  · decide +kernel
  · decide +kernel
  · exact fun h => absurd h.1 (by decide +kernel)
  · exact ⟨sessionCookieName, str "s", by decide +kernel⟩

/-- A refresh with the cookie passes with any bearer header. -/
theorem bearer_skips_csrf :
    ∃ r route, route ∈ apiRoutes ∧ route.serves r.method r.url = some [] ∧ URL.setPath r.url.path = some r.url ∧
      csrfMiddleware csrfSample urlPaths 0 none r = .bearer ∧ csrfHeader r = [] ∧ ActsOnCookie r route [] := by
  refine ⟨apiPost "/api/v1/auth/refresh" [("Authorization", "Bearer x"), ("Cookie", "portlyn_refresh=t")],
    apiRoute "POST" ["auth", "refresh"] .refreshSession, ?_, ?_, ?_, ?_, ?_, nofun, refreshCookieName, str "t", ?_⟩
  · decide +kernel
  · decide +kernel
  · decide +kernel
  · decide +kernel
  · decide +kernel
  · decide +kernel

end Portlyn.Http
