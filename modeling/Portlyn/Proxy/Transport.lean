import Portlyn.Go.ReverseProxy
import Portlyn.Proxy.Handler

/-! # What reaches the upstream (`reverseProxyForTarget` in `transport.go`)

The handler removes every header that looks like one of its own and sets those of the authenticated
user and of the client certificate. The `Director` sets the forwarding headers. Last,
`httputil.ReverseProxy` removes what the client's `Connection` header names. -/
namespace Portlyn.Proxy
open Go Domain Auth
set_option autoImplicit false

/-! ## Names of headers -/

def xForwardedHost : GoString := str "X-Forwarded-Host"
def xForwardedProto : GoString := str "X-Forwarded-Proto"
def xForwardedUri : GoString := str "X-Forwarded-Uri"
def xForwardedPrefix : GoString := str "X-Forwarded-Prefix"

def forwardingNames : List GoString :=
  [xRealIp, xForwardedHost, xForwardedProto, xForwardedUri, xForwardedPrefix]

/-- A spelling of an `X-Portlyn-` header, in any case and with underscores. -/
def isPortlynSpelling (name : GoString) : Bool :=
  hasPrefix (replaceByte 0x5F 0x2D (name.map lowerByte)) (str "x-portlyn-")

def named (header name : GoString) : Bool := canonicalHeaderKey name = header

def identityNames : List GoString :=
  [userEmailHeader, userRoleHeader, userIDHeader, clientCertHeader]

def directorNames : List GoString :=
  [xForwardedFor, xRealIp, xForwardedHost, xForwardedProto, xForwardedUri, xForwardedPrefix]

/-- The names besides `forwardingNames` that are written or removed on the way of a request. -/
def otherNames : List GoString := identityNames ++ [str "Authorization", str "Cookie"] ++ proxyNames

structure NamesApart : Prop where
  canonical : ∀ name ∈ forwardingNames ++ otherNames, canonicalHeaderKey name = name
  nodup : (forwardingNames ++ otherNames).Nodup
  spelled : ∀ name ∈ clientCertSignatureHeader :: identityNames, isPortlynSpelling name = true
  not_spelled : ∀ name ∈ forwardingNames ++ [str "Authorization", str "Cookie"] ++ proxyNames,
    isPortlynSpelling name = false
  connection : ∀ b ∈ connectionHeader, b.toNat < 0x80

theorem namesApart : NamesApart := by
  -- one evaluation for all fields, so that every name is evaluated once
  have h : (∀ name ∈ forwardingNames ++ otherNames, canonicalHeaderKey name = name) ∧
      (forwardingNames ++ otherNames).Nodup ∧
      (∀ name ∈ clientCertSignatureHeader :: identityNames, isPortlynSpelling name = true) ∧
      (∀ name ∈ forwardingNames ++ [str "Authorization", str "Cookie"] ++ proxyNames, isPortlynSpelling name = false) ∧
      ∀ b ∈ connectionHeader, b.toNat < 0x80 := by decide +kernel
  obtain ⟨h1, h2, h3, h4, h5⟩ := h
  exact ⟨h1, h2, h3, h4, h5⟩

theorem named_eq (name : GoString) {other : GoString} (h : other ∈ forwardingNames ++ otherNames) :
    named name other = decide (other = name) := by
  rw [named, namesApart.canonical other h]

variable {name : GoString}

theorem named_other {other : GoString} (hname : name ∈ forwardingNames) (h : other ∈ otherNames) :
    named name other = false := by
  rw [named_eq name (List.mem_append_right _ h)]
  exact decide_eq_false fun heq => (List.disjoint_of_nodup_append namesApart.nodup) hname (heq ▸ h)

theorem mem_of_mem_directorNames (h : name ∈ directorNames) : name = xForwardedFor ∨ name ∈ forwardingNames :=
  List.mem_cons.mp h

theorem xForwardedFor_mem : xForwardedFor ∈ otherNames :=
  List.mem_append_right _ (List.mem_cons_of_mem _ List.mem_cons_self)

theorem directorNames_nodup : directorNames.Nodup := by
  obtain ⟨hforwarding, -, hdisjoint⟩ := List.nodup_append'.mp namesApart.nodup
  exact List.nodup_cons.mpr ⟨fun hmem => hdisjoint hmem xForwardedFor_mem, hforwarding⟩

theorem ne_connectionHeader (h : name ∈ directorNames ++ identityNames ++ [str "Authorization", str "Cookie"]) :
    name ≠ connectionHeader := by
  have hconnection : connectionHeader ∈ hopHeaders := List.mem_cons_self
  obtain ⟨-, hother, hdisjoint⟩ := List.nodup_append'.mp namesApart.nodup
  obtain ⟨-, hproxy, hdisjoint'⟩ := List.nodup_append'.mp hother
  rintro rfl
  rcases List.mem_append.mp h with h | h
  · rcases List.mem_append.mp h with h | h
    · rcases mem_of_mem_directorNames h with h | h
      · have hnot := (List.nodup_cons.mp (List.nodup_cons.mp hproxy).2).1
        have hfor : xForwardedFor ∈ hopHeaders := h ▸ hconnection
        exact hnot hfor
      · exact hdisjoint h (List.mem_append_right _ (List.mem_cons_of_mem _ (List.mem_cons_of_mem _ hconnection)))
    · exact hdisjoint' (List.mem_append_left _ h) (List.mem_cons_of_mem _ (List.mem_cons_of_mem _ hconnection))
  · exact hdisjoint' (List.mem_append_right _ h) (List.mem_cons_of_mem _ (List.mem_cons_of_mem _ hconnection))

/-! ## The director -/

/-- The target of a route, and what the libraries make of a request to it: its `RequestURI`, the
text of an address, and the URL after the director of `NewSingleHostReverseProxy`. -/
structure Target where
  host : GoString
  requestURI : Request → GoString
  addrString : Addr → GoString
  rewriteURL : URL → URL

def directProto (r : Request) : GoString := if r.tls then str "https" else str "http"

def firstForwardedValue (value : GoString) : GoString :=
  let value := trimSpace value
  if value = [] then [] else trimSpace (cutBefore comma value)

def authoritativeClientIP (m : Manager) (target : Target) (r : Request) : GoString :=
  match realClientIP m.trustedProxyCIDRs r with
  | none => []
  | some addr => target.addrString addr

def setOrDel (h : Header) (name value : GoString) : Header := if value ≠ [] then h.set name value else h.del name

section Tables

theorem set_append {h : Header} {name value : GoString} (hname : ∀ line ∈ h, line.1 ≠ name) :
    h.set name value = h ++ [(name, value)] := by
  rw [Header.set, Header.del_eq_self hname]

theorem connectionTokens_congr {h h' : Header}
    (hsame : h'.select (fun name => name = connectionHeader) = h.select fun name =>
      name = connectionHeader) :
    connectionTokens h' = connectionTokens h := by
  have hvalues : h'.values connectionHeader = h.values connectionHeader := congrArg (List.map Prod.snd) hsame
  rw [connectionTokens, connectionTokens, hvalues]

variable [UnicodeTables]

def forwardedProto (m : Manager) (r : Request) : GoString :=
  if r.tls then str "https"
  else if requestFromTrustedProxy m.trustedProxyCIDRs r then
    let proto := firstForwardedValue (r.header.get xForwardedProto)
    if proto ≠ [] then toLower proto else str "http"
  else str "http"

def director (target : Target) (routePath : GoString) (protoForRequest clientIPForRequest : Option (Request → GoString))
    (passHostHeader : Bool) (req : Request) : Request :=
  let incomingHost := req.host
  let incomingProto := (protoForRequest.getD directProto) req
  let clientIP := (clientIPForRequest.getD fun _ => []) req
  let originalURI := target.requestURI req
  let normalizedRoutePath := normalizePath routePath
  let header := setOrDel req.header xForwardedFor clientIP
  let header := setOrDel header xRealIp clientIP
  let header := ((header.set xForwardedHost (normalizeHost incomingHost)).set xForwardedProto
    incomingProto).set xForwardedUri originalURI
  { req with
    url := target.rewriteURL (directURL routePath req.url)
    host := if passHostHeader then incomingHost else target.host
    header := if normalizedRoutePath ≠ [slash] then header.set xForwardedPrefix normalizedRoutePath
    else header.del xForwardedPrefix }

def upstreamRequest (m : Manager) (target : Target) (route : Route) (passHostHeader : Bool)
    (req : Request) : Option Request :=
  reverseProxyRequest (director target route.path (some (forwardedProto m))
    (some (authoritativeClientIP m target)) passHostHeader) req

def Verdict.sent (m : Manager) (target : Target) : Verdict → Option Request
  | .proxied route req => upstreamRequest m target route false req
  | _ => none

/-! ## The proxy's own headers -/

def identityHeaders (m : Manager) (r : Request) (user : Option (User × List ℕ)) : Header :=
  let fingerprint := clientCertSHA256 m r
  (match user with
    | none => []
    | some (user, _) =>
      [(userEmailHeader, user.email), (userRoleHeader, user.role.text),
        (userIDHeader, decimal user.id)]) ++
    if fingerprint ≠ [] then [(clientCertHeader, fingerprint)] else []

/-- What the `Director` sets for a request that the handler passes on. -/
def forwardingHeaders (m : Manager) (target : Target) (route : Route) (req : Request) : Header :=
  let clientIP := authoritativeClientIP m target req
  let routePath := normalizePath route.path
  (if clientIP ≠ [] then [(xRealIp, clientIP)] else []) ++
    [(xForwardedHost, normalizeHost req.host), (xForwardedProto, forwardedProto m req),
      (xForwardedUri, target.requestURI req)] ++
    if routePath ≠ [slash] then [(xForwardedPrefix, routePath)] else []

def received (r : Request) (fields : List (GoString × GoString)) : Request :=
  { r with header := fields.map fun field => (canonicalHeaderKey field.1, field.2) }

/-! ## What the handler leaves -/

theorem isIdentityHeader_of_spelling {name : GoString} (h : isPortlynSpelling name = true) :
    isIdentityHeader name = true := by
  obtain ⟨rest, hrest⟩ := List.isPrefixOf_iff_prefix.mp h
  obtain ⟨front, back, rfl, hfront, -⟩ : ∃ front back, name = front ++ back ∧
      replaceByte 0x5F 0x2D (front.map lowerByte) = str "x-portlyn-" ∧
      replaceByte 0x5F 0x2D (back.map lowerByte) = rest := by
    rw [replaceByte, List.map_map] at hrest
    obtain ⟨front, back, hname, hfront, hback⟩ := List.map_eq_append_iff.mp hrest.symm
    exact ⟨front, back, hname, by rw [replaceByte, List.map_map, hfront], by rw [replaceByte, List.map_map, hback]⟩
  have hascii : ∀ b ∈ front, b.toNat < 0x80 := by
    intro b hb
    have hmem : (if lowerByte b = 0x5F then 0x2D else lowerByte b) ∈ str "x-portlyn-" := by
      rw [← hfront, replaceByte, List.map_map]
      exact List.mem_map_of_mem hb
    have hsmall : ∀ c ∈ str "x-portlyn-", c.toNat < 0x80 := by
      decide +kernel
    by_contra hbig
    have hlower : lowerByte b = b := by
      rw [lowerByte, asciiLower, if_neg fun hupper => ?_, UInt8.ofNat_toNat]
      rw [isUpperAscii] at hupper
      omega
    have hdash : b ≠ 0x5F := fun h => hbig (h ▸ by decide)
    rw [hlower, if_neg hdash] at hmem
    exact hbig (hsmall b hmem)
  rw [isIdentityHeader, toLower_append_ascii hascii, replaceByte_append]
  have hlower : replaceByte 0x5F 0x2D (front.map fun b => UInt8.ofNat (asciiLower b.toNat)) = str "x-portlyn-" := hfront
  rw [hlower]
  exact List.isPrefixOf_iff_prefix.mpr (List.prefix_append _ _)

theorem select_sanitized (r : Request) : (sanitized r).header.select isPortlynSpelling = [] := by
  refine List.filter_eq_nil_iff.mpr fun line hline hspelling => ?_
  have hnot := (List.mem_filter.mp hline).2
  rw [isIdentityHeader_of_spelling hspelling] at hnot
  cases hnot

section Select
variable {p : GoString → Bool}

theorem select_stripPortlynCredentials (hauth : p (str "Authorization") = false)
    (hcookie : p (str "Cookie") = false) (m : Manager) (headers : Header) :
    (stripPortlynCredentials m headers).select p = headers.select p := by
  have hcookies : ∀ headers : Header, (stripPortlynCookies headers).select p = headers.select p := by
    intro headers
    unfold stripPortlynCookies
    dsimp only
    split
    · split
      · exact Header.select_del_of_not hcookie headers
      · exact Header.select_set_of_not hcookie headers _
    · rfl
  unfold stripPortlynCredentials
  rw [hcookies]
  split
  · exact Header.select_del_of_not hauth headers
  · rfl

omit [UnicodeTables] in
theorem select_setIdentityHeaders_of_not (hp : ∀ name ∈ identityNames, p name = false) (m : Manager)
    (r : Request) (user : Option (User × List ℕ)) :
    (setIdentityHeaders m r user).select p = r.header.select p := by
  simp only [identityNames, List.forall_mem_cons, List.not_mem_nil, false_imp_iff, implies_true, and_true] at hp
  obtain ⟨hemail, hrole, hid, hcert⟩ := hp
  have hlast : ∀ h : Header, Header.select p (if clientCertSHA256 m r ≠ [] then
      h.set clientCertHeader (clientCertSHA256 m r)
      else h.del clientCertHeader) = h.select p := by
    intro h
    split
    · exact Header.select_set_of_not hcert h _
    · exact Header.select_del_of_not hcert h
  unfold setIdentityHeaders
  rw [hlast]
  cases user with
  | none => rfl
  | some user => rw [Header.select_set_of_not hid, Header.select_set_of_not hrole, Header.select_set_of_not hemail]

theorem select_forwardRequest (hauth : p (str "Authorization") = false)
    (hcookie : p (str "Cookie") = false) (hp : ∀ name ∈ identityNames, p name = false) (m : Manager)
    (r : Request) (user : Option (User × List ℕ)) (canonicalPath : GoString) :
    (forwardRequest m r user canonicalPath).header.select p = r.header.select p := by
  rw [forwardRequest, select_stripPortlynCredentials hauth hcookie, select_setIdentityHeaders_of_not hp]

end Select

omit [UnicodeTables] in
theorem select_setIdentityHeaders {m : Manager} {r : Request}
    (hr : r.header.select isPortlynSpelling = []) (user : Option (User × List ℕ)) :
    (setIdentityHeaders m r user).select isPortlynSpelling = identityHeaders m r user := by
  have hspelling := fun name hname => namesApart.spelled name (List.mem_cons_of_mem _ hname)
  simp only [identityNames, List.forall_mem_cons, List.not_mem_nil, false_imp_iff, implies_true, and_true] at hspelling
  obtain ⟨hemail, hrole, hid, hcert⟩ := hspelling
  have hdistinct : identityNames.Nodup := namesApart.nodup.of_append_right.of_append_left.of_append_left
  simp only [identityNames, List.nodup_cons, List.mem_cons, List.not_mem_nil, or_false, not_or,
    not_false_eq_true, List.nodup_nil,
    and_true] at hdistinct
  obtain ⟨⟨hemailRole, hemailID, hemailCert⟩, ⟨hroleID, hroleCert⟩, hidCert⟩ := hdistinct
  unfold setIdentityHeaders identityHeaders
  cases user with
  | none =>
    dsimp only
    split
    · rw [Header.select_set hcert, hr]
      rfl
    · rw [Header.select_del, hr]
      rfl
  | some user =>
    have hset : Header.select isPortlynSpelling
        (((r.header.set userEmailHeader user.1.email).set userRoleHeader user.1.role.text).set
        userIDHeader (decimal user.1.id)) =
          [(userEmailHeader, user.1.email), (userRoleHeader, user.1.role.text), (userIDHeader, decimal user.1.id)] := by
      rw [Header.select_set hid, Header.select_set hrole, Header.select_set hemail, hr, set_append,
        set_append, set_append]
      · rfl
      · exact List.forall_mem_nil _
      · simp [Header.set, Header.del, hemailRole]
      · simp [Header.set, Header.del, hemailRole, hemailID, hroleID]
    dsimp only
    split
    · rw [Header.select_set hcert, hset, set_append]
      simp [hemailCert, hroleCert, hidCert]
    · rw [Header.select_del, hset, Header.del_eq_self, List.append_nil]
      simp [hemailCert, hroleCert, hidCert]

/-! ## What the director leaves -/

def replace (h : Header) (change : GoString × List GoString) : Header := h.del change.1 ++
    Header.lines change.1 change.2

/-- What the `Director` does to the header, one change for each name. -/
def directorChanges (m : Manager) (target : Target) (route : Route) (req : Request) : List (GoString × List GoString) :=
  let clientIP := authoritativeClientIP m target req
  let routePath := normalizePath route.path
  [(xForwardedFor, if clientIP ≠ [] then [clientIP] else []), (xRealIp, if clientIP ≠ [] then [clientIP] else []),
    (xForwardedHost, [normalizeHost req.host]), (xForwardedProto, [forwardedProto m req]),
    (xForwardedUri, [target.requestURI req]),
    (xForwardedPrefix, if routePath ≠ [slash] then [routePath] else [])]

theorem director_header (m : Manager) (target : Target) (route : Route) (passHostHeader : Bool)
    (req : Request) :
    (director target route.path (some (forwardedProto m))
      (some (authoritativeClientIP m target)) passHostHeader req).header =
      (directorChanges m target route req).foldl replace req.header := by
  have hdel : ∀ (h : Header) (name : GoString), h.del name = replace h (name, []) :=
    fun h name => (List.append_nil _).symm
  simp only [director, directorChanges, List.foldl_cons, List.foldl_nil, setOrDel, Option.getD_some]
  by_cases hip : authoritativeClientIP m target req = []
  · by_cases hpath : normalizePath route.path = [slash]
    · simp only [hip, hpath, ne_eq, hdel]
      rfl
    · simp only [hip, hpath, ne_eq, hdel]
      rfl
  · by_cases hpath : normalizePath route.path = [slash]
    · simp only [hip, hpath, ne_eq, hdel]
      rfl
    · simp only [hip, hpath, ne_eq]
      rfl

theorem forwardingHeaders_eq (m : Manager) (target : Target) (route : Route) (req : Request) :
    forwardingHeaders m target route req =
      ((directorChanges m target route req).drop 1).flatMap fun change =>
      Header.lines change.1 change.2 := by
  simp only [forwardingHeaders, directorChanges, List.drop_one, List.tail_cons, List.flatMap_cons,
    List.flatMap_nil, Header.lines]
  split <;> split <;> simp

section Replace
omit [UnicodeTables]
variable {p : GoString → Bool} {h : Header} {changes : List (GoString × List GoString)}

theorem select_lines (name : GoString) (values : List GoString) :
    Header.select p (Header.lines name values) = if p name then Header.lines name values else [] := by
  split
  · rename_i hp
    refine List.filter_eq_self.mpr fun line hline => ?_
    obtain ⟨value, -, rfl⟩ := List.mem_map.mp hline
    exact hp
  · rename_i hp
    refine List.filter_eq_nil_iff.mpr fun line hline => ?_
    obtain ⟨value, -, rfl⟩ := List.mem_map.mp hline
    exact hp

theorem select_replace_of_not {change : GoString × List GoString} (hp : p change.1 = false)
    (h : Header) : (replace h change).select p = h.select p := by
  rw [replace, Header.select, List.filter_append]
  have hlines := select_lines (p := p) change.1 change.2
  rw [hp] at hlines
  exact (congrArg₂ (· ++ ·) (Header.select_del_of_not hp h) hlines).trans (List.append_nil _)

theorem select_foldl_replace_of_not (hp : ∀ change ∈ changes, p change.1 = false) (h : Header) :
    (changes.foldl replace h).select p = h.select p := by
  induction changes generalizing h with
  | nil => rfl
  | cons change changes ih =>
    rw [List.foldl_cons, ih fun c hc => hp c (List.mem_cons_of_mem _ hc),
      select_replace_of_not (hp change List.mem_cons_self)]

theorem select_foldl_replace {name : GoString}
    (hnamed : ∀ change ∈ changes, p change.1 = decide (change.1 = name))
    (hdistinct : (changes.map Prod.fst).Nodup) (hname : name ∈ changes.map Prod.fst)
    (hspelled : ∀ line ∈ h.select p, line.1 = name) :
    (changes.foldl replace h).select p =
      Header.select p (changes.flatMap fun change => Header.lines change.1 change.2) := by
  induction changes generalizing h with
  | nil => exact absurd hname List.not_mem_nil
  | cons change changes ih =>
    have hrest : ∀ c ∈ changes, p c.1 = decide (c.1 = name) := fun c hc => hnamed c (List.mem_cons_of_mem _ hc)
    rw [List.map_cons, List.nodup_cons] at hdistinct
    rw [List.foldl_cons, List.flatMap_cons]
    by_cases hc : change.1 = name
    · -- the change of this name, and no later one
      have hothers : ∀ c ∈ changes, p c.1 = false := by
        intro c hmem
        refine (hrest c hmem).trans (decide_eq_false fun heq => hdistinct.1 ?_)
        rw [hc, ← heq]
        exact List.mem_map_of_mem hmem
      have hnone : Header.select p (changes.flatMap fun change => Header.lines change.1 change.2) = [] := by
        refine List.filter_eq_nil_iff.mpr fun line hline => ?_
        obtain ⟨c, hmem, hline⟩ := List.mem_flatMap.mp hline
        obtain ⟨value, -, rfl⟩ := List.mem_map.mp hline
        rw [hothers c hmem]
        exact Bool.false_ne_true
      have hgone : (Header.del h change.1).select p = [] := by
        rw [Header.select_del]
        refine List.filter_eq_nil_iff.mpr fun line hline => ?_
        rw [hspelled line hline, hc]
        simp
      rw [select_foldl_replace_of_not hothers, replace, Header.select, List.filter_append,
        Header.select, List.filter_append]
      exact (congrArg (· ++ _) hgone).trans (((congrArg (_ ++ ·) hnone).trans (List.append_nil _)).symm)
    · have hp : p change.1 = false := (hnamed change List.mem_cons_self).trans (decide_eq_false hc)
      have hmem : name ∈ changes.map Prod.fst := (List.mem_cons.mp hname).resolve_left fun heq => hc heq.symm
      rw [ih hrest hdistinct.2 hmem, Header.select, Header.select, List.filter_append]
      · have hlines := select_lines (p := p) change.1 change.2
        rw [hp, if_neg Bool.false_ne_true] at hlines
        exact (congrArg (· ++ _) hlines).symm
      · rw [select_replace_of_not hp]
        exact hspelled

end Replace

/-! ## The headers that are received -/

theorem sanitized_adminRequest (m : Manager) (r : Request) : sanitized (adminRequest m r) = sanitized r := by
  have hnot : ∀ name ∈ [clientCertHeader, clientCertSignatureHeader], (!isIdentityHeader name) = false := by
    intro name hname
    rw [isIdentityHeader_of_spelling (namesApart.spelled name ?_)]
    · rfl
    · simp only [List.mem_cons, List.not_mem_nil, or_false, identityNames] at hname ⊢
      tauto
  have hcert := hnot _ List.mem_cons_self
  have hsignature := hnot _ (List.mem_cons_of_mem _ List.mem_cons_self)
  have htwice : (sanitizePortlynIdentityHeaders r.header).select (fun name =>
    !isIdentityHeader name) = sanitizePortlynIdentityHeaders r.header := by
    rw [Header.select, sanitizePortlynIdentityHeaders, List.filter_filter]
    exact List.filter_congr fun _ _ => Bool.and_self _
  have hselect : (adminRequest m r).header.select (fun name => !isIdentityHeader name) =
    sanitizePortlynIdentityHeaders r.header := by
    unfold adminRequest
    dsimp only
    split
    · exact htwice
    · split
      · rw [Header.select_set_of_not hcert, htwice]
      · rw [Header.select_set_of_not hsignature, Header.select_set_of_not hcert, htwice]
  have hkept : adminRequest m r = { r with header := (adminRequest m r).header } := by
    unfold adminRequest
    dsimp only
    split <;> rfl
  rw [sanitized, sanitized, ← hselect, hkept]
  rfl

theorem handler_forwards {m : Manager} {r req : Request} {route : Route} (h : handler m r = .proxied route req) :
    m.matchRoute (normalizeHost r.host) (normalizePath r.url.path) = some route ∧
      ∃ canonicalPath user, authorizeRoute m (sanitized r) route (normalizePath r.url.path) = .ok user ∧
        req = forwardRequest m (sanitized r) user canonicalPath := by
  unfold handler at h
  split at h
  · cases h
  · rename_i canonicalPath hcan
    split at h
    · cases h
    · dsimp only at h
      have hsame : sanitized (if m.allowAdminHost (normalizeHost r.host) r = true then
        adminRequest m r else r) = sanitized r := by
        split
        · exact sanitized_adminRequest m r
        · rfl
      generalize (if m.allowAdminHost (normalizeHost r.host) r = true then adminRequest m r else r) = r' at h hsame
      split at h
      · rename_i verdict hverdict
        subst h
        split at hverdict
        · unfold handleAdminHost at hverdict
          split_ifs at hverdict <;> cases hverdict
        · cases hverdict
      · split at h
        · cases h
        · obtain ⟨hmatched, user, huser, hreq⟩ := serveRoute_proxied h
          rw [hsame] at huser hreq
          exact ⟨hmatched, canonicalPath, user, huser, hreq⟩

section Sent
variable {m : Manager} {target : Target} {route : Route} {r : Request}
  {fields : List (GoString × GoString)}
  {user : Option (User × List ℕ)} {canonicalPath : GoString}

theorem mem_directorChanges {req : Request} {change : GoString × List GoString}
    (h : change ∈ directorChanges m target route req) : change.1 ∈ directorNames := by
  have hnames : (directorChanges m target route req).map Prod.fst = directorNames := rfl
  exact List.mem_map_of_mem h

/-- The header as the `Director` leaves it. -/
def directedHeader (m : Manager) (target : Target) (route : Route) (req : Request) : Header :=
  (directorChanges m target route req).foldl replace req.header

theorem isIdentityHeader_of_ascii {name : GoString} (h : ∀ b ∈ name, b.toNat < 0x80) :
    isIdentityHeader name = isPortlynSpelling name := by
  rw [isIdentityHeader, toLower_of_ascii h]
  rfl

theorem connectionTokens_directed :
    connectionTokens (directedHeader m target route
      (forwardRequest m (sanitized r) user canonicalPath)) =
    connectionTokens r.header := by
  have hother : ∀ name ∈ directorNames ++ identityNames ++ [str "Authorization", str "Cookie"],
    decide (name = connectionHeader) = false :=
    fun name hname => decide_eq_false (ne_connectionHeader hname)
  refine connectionTokens_congr ?_
  rw [directedHeader, select_foldl_replace_of_not fun change hchange =>
    hother _ (by simp [mem_directorChanges hchange]),
    select_forwardRequest (hother _ (by simp)) (hother _ (by simp)) fun name hname => hother name (by simp [hname])]
  have hconnection : isIdentityHeader connectionHeader = false := by
    rw [isIdentityHeader_of_ascii namesApart.connection]
    exact namesApart.not_spelled _
      (List.mem_append_right _ (List.mem_cons_of_mem _ (List.mem_cons_of_mem _ List.mem_cons_self)))
  rw [sanitized, sanitizePortlynIdentityHeaders, Header.select, Header.select, List.filter_filter]
  refine List.filter_congr fun line _ => ?_
  by_cases hline : line.1 = connectionHeader
  · simp [hline, hconnection]
  · simp [hline]

theorem select_directed_spelling :
    (directedHeader m target route (forwardRequest m (sanitized r) user canonicalPath)).select
      isPortlynSpelling =
    identityHeaders m r user := by
  have hother : ∀ name ∈ directorNames ++ [str "Authorization", str "Cookie"], isPortlynSpelling name = false := by
    intro name hname
    refine namesApart.not_spelled name ?_
    rcases List.mem_append.mp hname with hname | hname
    · rcases mem_of_mem_directorNames hname with rfl | hname
      · exact List.mem_append_right _ (List.mem_cons_of_mem _ List.mem_cons_self)
      · exact List.mem_append_left _ (List.mem_append_left _ hname)
    · exact List.mem_append_left _ (List.mem_append_right _ hname)
  rw [directedHeader, select_foldl_replace_of_not fun change hchange =>
    hother _ (by simp [mem_directorChanges hchange]), forwardRequest,
    select_stripPortlynCredentials (hother _ (by simp)) (hother _ (by simp)),
    select_setIdentityHeaders (select_sanitized r)]
  rfl

theorem select_directed_named {name : GoString} (hname : name ∈ forwardingNames) :
    let req := forwardRequest m (sanitized (received r fields)) user canonicalPath
    (directedHeader m target route req).select (named name) =
      (forwardingHeaders m target route req).select (named name) := by
  intro req
  have hother : ∀ other ∈ identityNames ++ [str "Authorization", str "Cookie"], named name other = false :=
    fun other h => named_other hname (List.mem_append_left _ h)
  have hnames : ∀ other ∈ directorNames, named name other = decide (other = name) := by
    intro other h
    rcases mem_of_mem_directorNames h with rfl | h
    · exact named_eq name (List.mem_append_right _ xForwardedFor_mem)
    · exact named_eq name (List.mem_append_left _ h)
  have hspelled : ∀ line ∈ req.header.select (named name), line.1 = name := by
    rw [select_forwardRequest (hother _ (by simp)) (hother _ (by simp)) fun n hn => hother n (by simp [hn])]
    intro line hline
    obtain ⟨hline, hnamed⟩ := List.mem_filter.mp hline
    obtain ⟨field, -, rfl⟩ := List.mem_map.mp (List.mem_filter.mp hline).1
    have hcanonical := of_decide_eq_true hnamed
    rwa [canonicalHeaderKey_idem] at hcanonical
  have hmem : name ∈ (directorChanges m target route req).map Prod.fst := List.mem_cons_of_mem _ hname
  have hdistinct : ((directorChanges m target route req).map Prod.fst).Nodup := directorNames_nodup
  rw [directedHeader, select_foldl_replace (fun change hchange =>
    hnames _ (mem_directorChanges hchange)) hdistinct hmem hspelled,
    forwardingHeaders_eq]
  have hfirst : named name xForwardedFor = false := named_other hname xForwardedFor_mem
  have hlines := select_lines (p := named name) xForwardedFor
    (if authoritativeClientIP m target req ≠ [] then [authoritativeClientIP m target req] else [])
  rw [hfirst, if_neg Bool.false_ne_true] at hlines
  exact (List.filter_append ..).trans (congrArg (· ++ _) hlines)

theorem named_forwardingHeaders {req : Request} {line : GoString × GoString}
    (h : line ∈ forwardingHeaders m target route req) :
    line.1 ∈ forwardingNames ∧ named line.1 line.1 = true := by
  rw [forwardingHeaders_eq] at h
  obtain ⟨change, hchange, hline⟩ := List.mem_flatMap.mp h
  obtain ⟨value, -, rfl⟩ := List.mem_map.mp hline
  have hmem : change.1 ∈ forwardingNames := by
    have hrest : ((directorChanges m target route req).drop 1).map Prod.fst = forwardingNames := rfl
    exact List.mem_map_of_mem hchange
  exact ⟨hmem, (named_eq _ (List.mem_append_left _ hmem)).trans (decide_eq_true rfl)⟩

end Sent

/-- Whatever header fields the client sends: the upstream receives under the names of the proxy
exactly what the handler and the `Director` have set, unless the client's `Connection` header names
one of these headers. -/
theorem upstream_headers_iff (m : Manager) (target : Target) (route : Route) (passHostHeader : Bool)
    (r : Request) (fields : List (GoString × GoString)) {req out : Request}
    (h : handler m (received r fields) = .proxied route req)
    (hout : upstreamRequest m target route passHostHeader req = some out) :
    ∃ user, authorizeRoute m (sanitized (received r fields)) route (normalizePath r.url.path) =
      .ok user ∧
      ((out.header.select isPortlynSpelling = identityHeaders m r user ∧
          ∀ name ∈ forwardingNames, out.header.select (named name) =
            (forwardingHeaders m target route req).select (named name)) ↔
        ∀ token ∈ connectionTokens (received r fields).header,
          ∀ line ∈ identityHeaders m r user ++ forwardingHeaders m target route req, line.1 ≠
            canonicalHeaderKey token) := by
  obtain ⟨-, canonicalPath, user, huser, rfl⟩ := handler_forwards h
  refine ⟨user, huser, ?_⟩
  have hproxy : ∀ name ∈ proxyNames, isPortlynSpelling name = false := fun name hname =>
    namesApart.not_spelled name (List.mem_append_right _ hname)
  have hproxy' : ∀ name ∈ forwardingNames, ∀ other ∈ proxyNames, named name other = false :=
    fun name hname other hother =>
    named_other hname (List.mem_append_right _ hother)
  have hheader : ∀ {p : GoString → Bool}, (∀ name ∈ proxyNames, p name = false) → out.header.select p =
      ((directedHeader m target route
        (forwardRequest m (sanitized (received r fields)) user canonicalPath)).select p).filter
      fun line =>
        ((connectionTokens (received r fields).header).map canonicalHeaderKey).all (line.1 ≠ ·) := by
    intro p hp
    unfold upstreamRequest reverseProxyRequest at hout
    dsimp only at hout
    split at hout
    · cases hout
      rw [select_sentHeader hp, director_header]
      change (Header.select p (directedHeader ..)).filter (fun line =>
        ((connectionTokens (directedHeader ..)).map canonicalHeaderKey).all _) = _
      rw [connectionTokens_directed]
    · cases hout
  have hpass : ∀ line :
    GoString × GoString,
    ((connectionTokens (received r fields).header).map canonicalHeaderKey).all (line.1 ≠ ·) = true ↔
      ∀ token ∈ connectionTokens (received r fields).header, line.1 ≠ canonicalHeaderKey token := by
    intro line
    simp only [List.all_map, List.all_eq_true, Function.comp_apply, decide_eq_true_eq]
  have hidentity : identityHeaders m (received r fields) user = identityHeaders m r user := rfl
  rw [hheader hproxy, select_directed_spelling, hidentity]
  generalize hI : identityHeaders m r user = identity
  generalize hF : forwardingHeaders m target route
    (forwardRequest m (sanitized (received r fields)) user canonicalPath) = forwarding at *
  have hselect : ∀ name ∈ forwardingNames, out.header.select (named name) =
    (forwarding.select (named name)).filter fun line =>
      ((connectionTokens (received r fields).header).map canonicalHeaderKey).all (line.1 ≠ ·) := by
    intro name hname
    rw [hheader (hproxy' name hname), select_directed_named hname, hF]
  constructor
  · rintro ⟨hown, hforwarded⟩ token htoken line hline
    rcases List.mem_append.mp hline with hline | hline
    · exact (hpass line).mp (List.filter_eq_self.mp hown line hline) token htoken
    · obtain ⟨hname, hnamed⟩ := named_forwardingHeaders (hF ▸ hline)
      have hkept := (hselect _ hname).symm.trans (hforwarded _ hname)
      exact (hpass line).mp (List.filter_eq_self.mp hkept line (List.mem_filter.mpr ⟨hline, hnamed⟩)) token htoken
  · intro hpassed
    have hall : ∀ line ∈ identity ++ forwarding,
        ((connectionTokens (received r fields).header).map canonicalHeaderKey).all (line.1 ≠ ·) = true :=
      fun line hline => (hpass line).mpr fun token htoken => hpassed token htoken line hline
    refine ⟨List.filter_eq_self.mpr fun line hline => hall line (List.mem_append_left _ hline), fun name hname => ?_⟩
    rw [hselect name hname]
    exact List.filter_eq_self.mpr fun line hline => hall line (List.mem_append_right _ (List.mem_filter.mp hline).1)

end Tables

def sampleTarget : Target where
  host := str "10.0.0.9"
  requestURI := fun _ => str "/public"
  addrString := fun _ => str "192.0.2.1"
  rewriteURL := id

/-- A client with a token and a forged header, and one that also names the header of the proxy in
`Connection`. -/
def forgedFields : List (GoString × GoString) :=
  [(str "authorization", str "Bearer token"), (str "x-portlyn-user-email", str "a@b"),
    (str "X_PORTLYN_USER_ROLE", str "admin")]

def connectionFields : List (GoString × GoString) :=
  [(str "authorization", str "Bearer token"), (str "connection", str "close, x-portlyn-user-email")]

theorem upstream_headers_forged : ∃ out user,
    @Verdict.sent asciiTables sampleManager sampleTarget
        (@handler asciiTables sampleManager (received (sampleRequest (str "/public")) forgedFields)) = some out ∧
      out.header.select isPortlynSpelling = identityHeaders sampleManager (sampleRequest (str "/public")) user := by
  have hsome : (@Verdict.sent asciiTables sampleManager sampleTarget
      (@handler asciiTables sampleManager
        (received (sampleRequest (str "/public")) forgedFields))).isSome = true := by decide +kernel
  obtain ⟨out, hout⟩ := Option.isSome_iff_exists.mp hsome
  cases hv : @handler asciiTables sampleManager (received (sampleRequest (str "/public")) forgedFields) with
  | proxied route req =>
    rw [hv] at hout
    obtain ⟨user, -, hiff⟩ :=
      @upstream_headers_iff asciiTables sampleManager sampleTarget route false
      (sampleRequest (str "/public"))
      forgedFields req out hv hout
    have hnone : connectionTokens (received (sampleRequest (str "/public")) forgedFields).header =
      [] := by decide +kernel
    refine ⟨out, user, hout, (hiff.mpr fun token htoken => ?_).1⟩
    rw [hnone] at htoken
    exact absurd htoken List.not_mem_nil
  | _ =>
    rw [hv] at hout
    cases hout

/-- The handler sets three headers, and the upstream receives two. -/
theorem connection_removes_identity :
    let r := received (sampleRequest (str "/public")) connectionFields
    ((@authorizeRoute asciiTables sampleManager (@sanitized asciiTables r) (sampleRoute (str "/"))
        (str "/public")).toOption.map
        (identityHeaders sampleManager r) =
      some [(userEmailHeader, str "root@example.com"), (userRoleHeader, str "admin"), (userIDHeader, str "1")]) ∧
    ((@Verdict.sent asciiTables sampleManager sampleTarget (@handler asciiTables sampleManager r)).map fun out =>
        out.header.select isPortlynSpelling) = some [(userRoleHeader, str "admin"), (userIDHeader, str "1")] := by
  refine ⟨by decide +kernel, by decide +kernel⟩

end Portlyn.Proxy
