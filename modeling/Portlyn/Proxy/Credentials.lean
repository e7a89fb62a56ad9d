import Portlyn.Proxy.Bridges
import Portlyn.Proxy.Transport

/-! # Credentials do not reach an upstream (`stripPortlynCredentials` in `transport.go`)

What authenticates a request is read by `AuthenticateRequest` and `AuthenticateHostRequest`; what is
taken out of a request is found by parsers of its own. -/
namespace Portlyn.Proxy
open Go Domain Auth
set_option autoImplicit false

def authorizationHeader : GoString := str "Authorization"

theorem authorizationHeader_ne_cookieHeader : authorizationHeader ≠ cookieHeader := by
  rw [authorizationHeader, cookieHeader, str_eq, str_eq]
  decide

def refreshCookieName : GoString := str "portlyn_refresh"
def csrfCookieName : GoString := str "portlyn_csrf"
def routeCookiePrefix : GoString := str "portlyn_route_access_"

/-- The names of the cookies that are read: the session, the refresh token, the CSRF token and the
access to a route. -/
def readsCookie (name : GoString) : Bool :=
  name = sessionCookieName || name = refreshCookieName || name = csrfCookieName ||
    hasPrefix name routeCookiePrefix &&
    name = sessionCookieNameForService (decValue (name.drop routeCookiePrefix.length))

theorem readsCookie_iff (name : GoString) :
    readsCookie name = true ↔
    name = sessionCookieName ∨ name = refreshCookieName ∨ name = csrfCookieName ∨
      ∃ serviceID, name = sessionCookieNameForService serviceID := by
  have hroute : hasPrefix name routeCookiePrefix = true ∧
      name = sessionCookieNameForService (decValue (name.drop routeCookiePrefix.length)) ↔
      ∃ serviceID, name = sessionCookieNameForService serviceID := by
    refine ⟨fun h => ⟨_, h.2⟩, ?_⟩
    rintro ⟨serviceID, rfl⟩
    have hdrop : (sessionCookieNameForService serviceID).drop routeCookiePrefix.length =
      decimal serviceID := List.drop_left
    rw [hdrop, decValue_decimal]
    exact ⟨List.isPrefixOf_iff_prefix.mpr (List.prefix_append _ _), rfl⟩
  simp only [readsCookie, Bool.or_eq_true, Bool.and_eq_true, decide_eq_true_eq, hroute, or_assoc]

/-- The name of a pair, as the parser of `net/http` reads it. -/
def pairName (pair : GoString) : GoString := trimBlank (cutBefore equalsSign pair)

section Tables

theorem plain_of_readsCookie {name : GoString} (h : readsCookie name = true) :
    ∀ b ∈ name, NotSpace b ∧ b.toNat < 0x80 ∧ ¬ isUpperAscii b.toNat := by
  have hfixed : ∀ name ∈ [sessionCookieName, refreshCookieName, csrfCookieName, routeCookiePrefix],
      ∀ b ∈ name, NotSpace b ∧ b.toNat < 0x80 ∧ ¬ isUpperAscii b.toNat := by decide +kernel
  rcases (readsCookie_iff name).mp h with rfl | rfl | rfl | ⟨serviceID, rfl⟩
  · exact hfixed _ (by simp)
  · exact hfixed _ (by simp)
  · exact hfixed _ (by simp)
  · intro b hb
    rcases List.mem_append.mp hb with hb | hb
    · exact hfixed routeCookiePrefix (by simp) b hb
    · have hdigit := isDecDigit_decimal serviceID b hb
      refine ⟨notSpace_of_isDecDigit hdigit, ?_⟩
      rw [IsDecDigit] at hdigit
      rw [isUpperAscii]
      omega

theorem parts_eq (headers : Header) :
    ((headers.values (str "Cookie")).flatMap fun line => ((line.splitOn semicolon).map trimSpace).filter (· ≠ [])) =
      ((cookiePairs headers).map trimSpace).filter (· ≠ []) := by
  have hparts : ∀ parts : List GoString, (parts.map trimSpace).filter (· ≠ []) =
      (((parts.map trimBlank).filter (· ≠ [])).map trimSpace).filter (· ≠ []) := by
    intro parts
    induction parts with
    | nil => rfl
    | cons part parts ih =>
      by_cases hblank : trimBlank part = []
      · have hspace : trimSpace part = [] := by
          rw [← trimSpace_trimBlank, hblank]
          rfl
        simp only [List.map_cons, hblank, hspace, ne_eq, not_true_eq_false, decide_false,
          Bool.false_eq_true, not_false_eq_true,
          List.filter_cons_of_neg, ih]
      · simp only [List.map_cons, ne_eq, hblank, not_false_eq_true, decide_true,
          List.filter_cons_of_pos, trimSpace_trimBlank,
          List.filter_cons, ih]
  rw [cookiePairs, ← hparts, List.map_flatMap, List.filter_flatMap]
  rfl

theorem semicolon_not_mem_pair {headers : Header} {p : GoString} (hp : p ∈ cookiePairs headers) : semicolon ∉ p := by
  obtain ⟨part, hpart, rfl⟩ := List.mem_map.mp (List.mem_filter.mp hp).1
  obtain ⟨line, -, hpart⟩ := List.mem_flatMap.mp hpart
  intro hmem
  refine not_mem_of_mem_splitOn hpart ?_
  exact (List.dropWhile_sublist _).subset ((List.rdropWhile_prefix _ _).subset hmem)

variable [UnicodeTables]

/-- A request with this `Authorization` value alone is authenticated at some moment, on some host.
-/
def Accepted (ts : TokenService) (value : GoString) : Prop :=
  ∃ (backend : Backend) (cache : AuthCache) (r : Request) (identity : Identity), r.header =
    [(authorizationHeader, value)] ∧
    ((∃ host, authenticateHostRequest (ts.service backend cache) r host = .ok identity) ∨
      authenticateRequest (ts.service backend cache) r = .ok identity)

def isCredentialValue (ts : TokenService) (value : GoString) : Bool :=
  let token := bearerToken value
  token ≠ [] && (looksLikeAPIToken token || ts.signedHere token)

def isOwnPair (pair : GoString) : Bool := isPortlynCookieName (cutBefore equalsSign pair)

/-! ## Accepted values are recognised -/

variable {ts : TokenService}

omit [UnicodeTables] in
theorem accessToken_signedHere {backend : Backend} {cache : AuthCache} {token : GoString} {identity : Identity}
    (h : authenticateAccessToken (ts.service backend cache) token = .ok identity) : ts.signedHere token = true := by
  unfold authenticateAccessToken at h
  split at h
  · cases h
  · rename_i claims hclaims
    obtain ⟨payload, hparse, -⟩ := Option.map_eq_some_iff.mp hclaims
    have hverify := verify_of_parse ts.signatures Payload.registered hparse
    simp [TokenService.signedHere, hverify]

theorem hostSession_signedHere {backend : Backend} {cache : AuthCache} {token host : GoString}
    {identity : Identity}
    (h : authenticateHostSessionToken (ts.service backend cache) token host = .ok identity) :
    ts.signedHere token = true := by
  obtain ⟨payload, hparse⟩ := hostSessionToken_signed h
  have hverify := verify_of_parse ts.signatures Payload.registered hparse
  simp [TokenService.signedHere, hverify]

theorem bearerToken_of_bearerTokenFromHeader {value : GoString}
    (h : bearerTokenFromHeader value ≠ []) : bearerToken value = bearerTokenFromHeader value := by
  unfold bearerTokenFromHeader at h ⊢
  by_cases hpre : hasPrefix (trimSpace value) (str "Bearer ") = true
  · obtain ⟨rest, hrest⟩ := List.isPrefixOf_iff_prefix.mp hpre
    have hlength : (str "Bearer ").length = 7 := by
      rw [str_eq]
      decide
    have htake : (trimSpace value).take 7 = str "Bearer " := by
      rw [← hrest, List.take_append_of_le_length (by omega), ← hlength, List.take_length]
    have hlong : ¬ (trimSpace value).length < 7 := by
      rw [← hrest, List.length_append]
      omega
    have hfold : equalFold ((trimSpace value).take 7) (str "Bearer ") = true := by
      rw [htake]
      exact decide_eq_true rfl
    rw [if_pos hpre, bearerToken, if_neg fun hor => hor.elim hlong fun hfalse => by simp [hfold] at hfalse]
  · rw [if_neg hpre] at h
    exact absurd rfl h

theorem accepted_isCredentialValue {value : GoString} (h : Accepted ts value) : isCredentialValue ts value = true := by
  obtain ⟨backend, cache, r, identity, hheader, hauth⟩ := h
  have hlines : r.header = Header.lines authorizationHeader [value] := hheader
  have hget : r.header.get (str "Authorization") = value := by
    rw [hlines]
    exact congrArg (·.headD []) (Header.values_lines_self authorizationHeader [value])
  have hcookie : ∀ name, r.cookie name = none := by
    intro name
    have hne : authorizationHeader ≠ str "Cookie" := authorizationHeader_ne_cookieHeader
    rw [Request.cookie, hlines, Header.values_lines_of_ne hne]
    rfl
  have hbearer : bearerOf r = trimSpace (bearerTokenFromHeader value) := by rw [bearerOf, hget]
  have hsome : bearerTokenFromHeader value ≠ [] := by
    intro hnil
    rw [hnil] at hbearer
    have hempty : bearerOf r = [] := hbearer
    rcases hauth with ⟨host, hauth⟩ | hauth
    · rw [authenticateHostRequest, hempty] at hauth
      simp only [ne_eq, hcookie] at hauth
      cases hauth
    · rw [authenticateRequest, hempty] at hauth
      simp only [ne_eq, hcookie] at hauth
      cases hauth
  have htrim : trimSpace (bearerTokenFromHeader value) = bearerTokenFromHeader value := by
    rw [← bearerToken_of_bearerTokenFromHeader hsome, bearerToken]
    split
    · rfl
    · exact trimSpace_trimSpace _
  rw [htrim] at hbearer
  rw [isCredentialValue, bearerToken_of_bearerTokenFromHeader hsome]
  generalize bearerTokenFromHeader value = token at hbearer hsome
  suffices hfound : looksLikeAPIToken token = true ∨ ts.signedHere token = true by simp [hsome, hfound]
  by_cases hapi : looksLikeAPIToken token = true
  · exact Or.inl hapi
  · refine Or.inr ?_
    rcases hauth with ⟨host, hauth⟩ | hauth
    · rw [authenticateHostRequest, hbearer, if_pos hsome] at hauth
      simp only [hapi] at hauth
      cases hsession : authenticateHostSessionToken (ts.service backend cache) token host with
      | ok identity => exact hostSession_signedHere hsession
      | error e =>
        rw [hsession] at hauth
        cases hstore : (ts.service backend cache).apiTokens <;> rw [hstore] at hauth <;>
          exact accessToken_signedHere hauth
    · rw [authenticateRequest, hbearer, if_pos hsome] at hauth
      simp only [hsome, hapi] at hauth
      cases hstore : (ts.service backend cache).apiTokens <;> rw [hstore] at hauth <;>
        exact accessToken_signedHere hauth

/-! ## Cookies -/

theorem isOwnPair_of_reads {pair : GoString} (h : readsCookie (pairName pair) = true) : isOwnPair pair = true := by
  have hplain := plain_of_readsCookie h
  have hname : toLower (trimSpace (cutBefore equalsSign pair)) = pairName pair := by
    have htrim : trimSpace (pairName pair) = pairName pair := trimSpace_eq_self_of_notSpace fun b hb => (hplain b hb).1
    rw [← trimSpace_trimBlank]
    exact (congrArg toLower htrim).trans (toLower_eq_self_of_ascii fun b hb => (hplain b hb).2)
  rw [isOwnPair, isPortlynCookieName, hname]
  rcases (readsCookie_iff _).mp h with heq | heq | heq | ⟨serviceID, heq⟩
  · rw [heq]
    simp
  · rw [heq]
    simp [refreshCookieName]
  · rw [heq]
    simp [csrfCookieName]
  · have hpre : hasPrefix (pairName pair) (str "portlyn_route_access_") = true := by
      rw [heq]
      exact List.isPrefixOf_iff_prefix.mpr (List.prefix_append _ _)
    simp [hpre]

theorem isOwnPair_trimSpace (pair : GoString) : isOwnPair (trimSpace pair) = isOwnPair pair := by
  rw [isOwnPair, isOwnPair, isPortlynCookieName, isPortlynCookieName, trimSpace_cutBefore]

theorem isOwnPair_of_trimSpace_nil {pair : GoString} (h : trimSpace pair = []) : isOwnPair pair = false := by
  rw [← isOwnPair_trimSpace, h]
  have hempty : toLower (trimSpace (cutBefore equalsSign [])) = [] := rfl
  rw [isOwnPair, isPortlynCookieName, hempty, sessionCookieName]
  simp only [str_eq]
  decide

def keptPairs (pairs : List GoString) : List GoString :=
  (pairs.filter fun p => !isOwnPair p && trimSpace p ≠ []).map trimSpace

theorem keptPairs_eq (pairs : List GoString) :
    ((pairs.map trimSpace).filter (· ≠ [])).filter (fun part =>
      !isPortlynCookieName (cutBefore 0x3D part)) = keptPairs pairs := by
  rw [List.filter_filter, List.filter_map]
  refine congrArg (List.map trimSpace) (List.filter_congr fun p _ => ?_)
  have hown : isPortlynCookieName (cutBefore 0x3D (trimSpace p)) = isOwnPair p := isOwnPair_trimSpace p
  rw [Function.comp_apply, hown]

theorem any_parts (pairs : List GoString) :
    (((pairs.map trimSpace).filter (· ≠ [])).any fun part =>
      isPortlynCookieName (cutBefore 0x3D part)) = pairs.any isOwnPair := by
  rw [List.any_filter, List.any_map]
  refine congrArg pairs.any (funext fun p => ?_)
  have hown : isPortlynCookieName (cutBefore 0x3D (trimSpace p)) = isOwnPair p := isOwnPair_trimSpace p
  by_cases hp : trimSpace p = []
  · simp [hp, isOwnPair_of_trimSpace_nil hp]
  · simp [hp, hown]

theorem cookiePairs_stripPortlynCookies (headers : Header) :
    cookiePairs (stripPortlynCookies headers) =
      if (cookiePairs headers).any isOwnPair then keptPairs (cookiePairs headers) else cookiePairs headers := by
  unfold stripPortlynCookies
  simp only [parts_eq, keptPairs_eq, any_parts]
  split
  · split
    · rename_i hnil
      rw [hnil, cookiePairs]
      have hnone : (headers.del (str "Cookie")).values cookieHeader = [] := Header.values_del_self headers _
      rw [hnone]
      rfl
    · rename_i hne
      have hline : (headers.set (str "Cookie")
          ((str "; ").intercalate (keptPairs (cookiePairs headers)))).values cookieHeader =
          [(str "; ").intercalate (keptPairs (cookiePairs headers))] := Header.values_set_self headers _ _
      have hsep : str "; " = [semicolon, 0x20] := by
        rw [str_eq]
        decide
      rw [cookiePairs, hline, List.flatMap_singleton, hsep]
      refine cookiePairs_line (fun q hq => ?_) hne
      obtain ⟨p, hp, rfl⟩ := List.mem_map.mp hq
      obtain ⟨hp, hkept⟩ := List.mem_filter.mp hp
      rw [Bool.and_eq_true] at hkept
      exact ⟨of_decide_eq_true hkept.2,
        fun hmem => semicolon_not_mem_pair hp (mem_of_mem_trimSpace hmem), trimBlank_trimSpace p⟩
  · rfl

/-! ## Requests -/

section Strip
variable (ts : TokenService) (m : Manager) (backend : Backend) (cache : AuthCache)
  (headers : Header)

def stripped : Header := stripPortlynCredentials { m with auth := ts.service backend cache } headers

structure Stripped (out : Header) : Prop where
  accepted : ∀ value ∈ out.values authorizationHeader, ¬ Accepted ts value
  read : ∀ pair ∈ cookiePairs out, readsCookie (pairName pair) = false
  values : (out.values authorizationHeader).filter (fun value => !isCredentialValue ts value) =
    (headers.values authorizationHeader).filter fun value => !isCredentialValue ts value
  pairs : (cookiePairs out).filter (fun pair => !readsCookie (pairName pair)) =
    (cookiePairs headers).filter fun pair => !readsCookie (pairName pair)

def FirstDecides : Prop :=
  ∀ value ∈ (headers.values authorizationHeader).tail,
    if isCredentialValue ts (headers.get authorizationHeader) then isCredentialValue ts value = true
    else ¬ Accepted ts value

omit ts in
/-- The other cookies do not look like own ones, and beside an own one they end in no white space
but blanks. -/
def OthersPlain : Prop :=
  ∀ pair ∈ cookiePairs headers, readsCookie (pairName pair) = false →
    isOwnPair pair = false ∧ ((cookiePairs headers).any isOwnPair = true → trimSpace pair = pair)

theorem isCredentialValue_iff (value : GoString) : isCredentialValue ts value = true ↔
    bearerToken value ≠ [] ∧ isPortlynCredential (ts.service backend cache) (bearerToken value) = true := by
  have htrim : trimSpace (bearerToken value) = bearerToken value := by
    unfold bearerToken
    dsimp only
    split
    · rfl
    · exact trimSpace_trimSpace _
  have hsigned : (ts.service backend cache).signedHere = ts.signedHere := rfl
  simp only [isCredentialValue, isPortlynCredential, htrim, hsigned, Bool.and_eq_true, decide_eq_true_eq]
  tauto

theorem stripped_eq :
    stripped ts m backend cache headers =
    stripPortlynCookies (if isCredentialValue ts (headers.get authorizationHeader) then
      headers.del authorizationHeader else headers) := by
  unfold stripped stripPortlynCredentials
  refine congrArg stripPortlynCookies (if_congr ?_ rfl rfl)
  exact (isCredentialValue_iff ts backend cache _).symm

omit ts in
theorem values_stripPortlynCookies {name : GoString} (hname : name ≠ cookieHeader) :
    (stripPortlynCookies headers).values name = headers.values name := by
  unfold stripPortlynCookies
  dsimp only
  split
  · split
    · exact Header.values_del_of_ne headers hname
    · exact Header.values_set_of_ne headers _ hname
  · rfl

theorem values_stripped : (stripped ts m backend cache headers).values authorizationHeader =
    if isCredentialValue ts (headers.get authorizationHeader) then [] else headers.values authorizationHeader := by
  have hne := authorizationHeader_ne_cookieHeader
  rw [stripped_eq, values_stripPortlynCookies _ hne]
  split
  · exact Header.values_del_self headers _
  · rfl

theorem cookiePairs_stripped : cookiePairs (stripped ts m backend cache headers) =
    if (cookiePairs headers).any isOwnPair then keptPairs (cookiePairs headers) else cookiePairs headers := by
  have hne := authorizationHeader_ne_cookieHeader.symm
  have hsame : cookiePairs (if isCredentialValue ts (headers.get authorizationHeader) then
      headers.del authorizationHeader else headers) =
      cookiePairs headers := by
    split
    · rw [cookiePairs, cookiePairs, Header.values_del_of_ne headers hne]
    · rfl
  rw [stripped_eq, cookiePairs_stripPortlynCookies, hsame]

theorem firstDecides_iff :
    ((∀ value ∈ (stripped ts m backend cache headers).values authorizationHeader,
      ¬ Accepted ts value) ∧
      ((stripped ts m backend cache headers).values authorizationHeader).filter (fun value =>
        !isCredentialValue ts value) =
        (headers.values authorizationHeader).filter fun value => !isCredentialValue ts value) ↔
          FirstDecides ts headers := by
  rw [values_stripped, FirstDecides, Header.get]
  cases headers.values authorizationHeader with
  | nil => simp
  | cons first rest =>
    rw [List.headD_cons, List.tail_cons]
    cases hfirst : isCredentialValue ts first with
    | true =>
      simp only [if_true, List.not_mem_nil, false_imp_iff, implies_true, true_and, List.filter_nil,
        List.filter_cons, hfirst, Bool.not_true]
      simp
    | false =>
      have hnot : ¬ Accepted ts first := fun h => by
        rw [accepted_isCredentialValue h] at hfirst
        cases hfirst
      simp only [Bool.false_eq_true, if_false, and_true, List.forall_mem_cons, hnot, not_false_eq_true, true_and]

omit ts in
theorem keptPairs_of_plain {pairs : List GoString} (hne : ∀ p ∈ pairs, p ≠ [])
    (h : ∀ p ∈ pairs, readsCookie (pairName p) = false → isOwnPair p = false ∧ trimSpace p = p) :
    keptPairs pairs = pairs.filter fun p => !readsCookie (pairName p) := by
  have hfilter : (pairs.filter fun p => !isOwnPair p && trimSpace p ≠ []) = pairs.filter fun p =>
    !readsCookie (pairName p) := by
    refine List.filter_congr fun p hp => ?_
    cases hread : readsCookie (pairName p) with
    | true => simp [isOwnPair_of_reads hread]
    | false => simp [h p hp hread, hne p hp]
  rw [keptPairs, hfilter]
  refine (List.map_congr_left fun p hp => ?_).trans (List.map_id _)
  obtain ⟨hp, hread⟩ := List.mem_filter.mp hp
  exact (h p hp (by simpa using hread)).2

omit ts in
theorem plain_of_keptPairs {pairs : List GoString}
    (h : keptPairs pairs = pairs.filter fun p => !readsCookie (pairName p)) :
    ∀ p ∈ pairs, readsCookie (pairName p) = false → isOwnPair p = false ∧ trimSpace p = p := by
  have hsub : (pairs.filter fun p => !isOwnPair p && trimSpace p ≠ []).Sublist
    (pairs.filter fun p => !readsCookie (pairName p)) := by
    refine List.monotone_filter_right pairs fun p hp => ?_
    rw [Bool.and_eq_true] at hp
    cases hread : readsCookie (pairName p) with
    | false => rfl
    | true =>
      rw [isOwnPair_of_reads hread] at hp
      exact hp.1
  have hlength : (pairs.filter fun p => !isOwnPair p && trimSpace p ≠ []).length =
    (pairs.filter fun p => !readsCookie (pairName p)).length := by
    rw [← h, keptPairs, List.length_map]
  have heq := hsub.eq_of_length hlength
  intro p hp hread
  have hmem : p ∈ pairs.filter fun p => !isOwnPair p && trimSpace p ≠ [] := by
    rw [heq]
    exact List.mem_filter.mpr ⟨hp, by simp [hread]⟩
  have hown : isOwnPair p = false := by
    have hboth := (List.mem_filter.mp hmem).2
    rw [Bool.and_eq_true] at hboth
    simpa using hboth.1
  refine ⟨hown, ?_⟩
  rw [keptPairs, ← heq] at h
  exact List.map_inj_left.mp (h.trans (List.map_id _).symm) p hmem

theorem othersPlain_iff :
    ((∀ pair ∈ cookiePairs (stripped ts m backend cache headers), readsCookie (pairName pair) =
      false) ∧
      (cookiePairs (stripped ts m backend cache headers)).filter (fun pair =>
        !readsCookie (pairName pair)) =
        (cookiePairs headers).filter fun pair => !readsCookie (pairName pair)) ↔
          OthersPlain headers := by
  have hne : ∀ p ∈ cookiePairs headers, p ≠ [] := fun p hp => of_decide_eq_true (List.mem_filter.mp hp).2
  rw [cookiePairs_stripped, OthersPlain]
  generalize cookiePairs headers = pairs at hne
  cases hany : pairs.any isOwnPair with
  | false =>
    have hown : ∀ p ∈ pairs, isOwnPair p = false := by simpa using hany
    have hread : ∀ p ∈ pairs, readsCookie (pairName p) = false := by
      intro p hp
      rw [← Bool.not_eq_true]
      intro hread
      have hcontra := isOwnPair_of_reads hread
      rw [hown p hp] at hcontra
      cases hcontra
    simp only [Bool.false_eq_true, if_false, false_imp_iff, and_true]
    exact ⟨fun _ p hp _ => hown p hp, fun _ => hread⟩
  | true =>
    simp only [if_true, true_imp_iff]
    constructor
    · rintro ⟨hread, hkept⟩
      refine plain_of_keptPairs ?_
      rw [← hkept]
      exact (List.filter_eq_self.mpr fun p hp => by simp [hread p hp]).symm
    · intro hplain
      rw [keptPairs_of_plain hne hplain, List.filter_filter]
      refine ⟨fun p hp => ?_, List.filter_congr fun _ _ => Bool.and_self _⟩
      simpa using (List.mem_filter.mp hp).2

end Strip

/-- For every header: no credential is left and nothing else is missing exactly if the first
`Authorization` value decides for all of them and the other cookies are plain. All other headers
stay. -/
theorem credentials_stripped_iff (ts : TokenService) (m : Manager) (backend : Backend)
    (cache : AuthCache) (headers : Header) :
    (Stripped ts headers (stripped ts m backend cache headers) ↔ FirstDecides ts headers ∧
      OthersPlain headers) ∧
      (stripped ts m backend cache headers).select (fun name => name ≠ authorizationHeader &&
        name ≠ cookieHeader) =
        headers.select fun name => name ≠ authorizationHeader && name ≠ cookieHeader := by
  refine ⟨?_, select_stripPortlynCredentials ?_ ?_ _ headers⟩
  · rw [← firstDecides_iff ts m backend cache headers, ← othersPlain_iff ts m backend cache headers]
    exact ⟨fun h => ⟨⟨h.accepted, h.values⟩, h.read, h.pairs⟩, fun h => ⟨h.1.1, h.2.1, h.1.2, h.2.2⟩⟩
  · simp [authorizationHeader]
  · simp [cookieHeader]

end Tables

/-- A token of an API client in the second `Authorization` line. -/
def secondLine : Header :=
  [(authorizationHeader, str "Basic eA=="), (authorizationHeader, str "Bearer plyn_a_b")]

def apiBackend : Backend where
  answers := { sampleAuth with apiTokens := some fun _ => some ⟨1, str "ci", str "plyn_a_b", .admin, none, none, none⟩ }
  getUser_zero := rfl

/-- The second line reaches the upstream with a token that is accepted. -/
theorem second_credential_kept :
    str "Bearer plyn_a_b" ∈
      (@stripped asciiTables sampleTokens sampleManager apiBackend (fun _ =>
      none) secondLine).values authorizationHeader ∧
      @Accepted asciiTables sampleTokens (str "Bearer plyn_a_b") := by
  refine ⟨?_, ?_⟩
  · have hfirst : @bearerToken asciiTables (str "Basic eA==") = [] := by decide +kernel
    have hplain : @isCredentialValue asciiTables sampleTokens (secondLine.get authorizationHeader) = false := by
      have hget : secondLine.get authorizationHeader = str "Basic eA==" := by decide +kernel
      rw [hget]
      simp [isCredentialValue, hfirst]
    decide +kernel
  · have hok : (@authenticateRequest (sampleTokens.service apiBackend fun _ => none)
        { sampleRequest [] with header :=
          [(authorizationHeader, str "Bearer plyn_a_b")] }).toOption.isSome = true := by
        decide +kernel
    cases hauth : @authenticateRequest (sampleTokens.service apiBackend fun _ => none)
        { sampleRequest [] with header := [(authorizationHeader, str "Bearer plyn_a_b")] } with
    | error e =>
      rw [hauth] at hok
      cases hok
    | ok identity => exact ⟨apiBackend, fun _ => none, _, identity, rfl, Or.inr hauth⟩

end Portlyn.Proxy
