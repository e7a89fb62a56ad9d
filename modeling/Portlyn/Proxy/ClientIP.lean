import Portlyn.Go.Http

/-! # The client's address (`manager.go`, `access.go`)

Behind a trusted proxy the client's address is taken from `X-Forwarded-For`, read from right to
left, then from `X-Real-Ip`, then from the connection. `realClientIP_eq_hop_iff` says for which ways
of writing the appended hop the client cannot choose the answer. -/
namespace Portlyn.Proxy
open Go
set_option autoImplicit false

/-! ## The functions of the source -/

def xForwardedFor : GoString := str "X-Forwarded-For"
def xRealIp : GoString := str "X-Real-Ip"

def addrInTrustedCIDRs (addr : Addr) (cidrs : List GoString) : Bool :=
  cidrs.any fun raw =>
    match parsePrefix (trimSpace raw) with
    | some p => p.contains addr
    | none => false

def requestFromTrustedProxy (trustedProxyCIDRs : List GoString) (r : Request) : Bool :=
  if trustedProxyCIDRs = [] then false
  else
    let host :=
      match splitHostPort (trimSpace r.remoteAddr) with
      | some (host, _) => host
      | none => trimSpace r.remoteAddr
    match parseAddr host with
    | some addr => addrInTrustedCIDRs addr trustedProxyCIDRs
    | none => false

def clientIPFromForwardedChain (header : GoString) (trustedCIDRs : List GoString) : Option Addr :=
  let header := trimSpace header
  if header = [] then none
  else
    (header.splitOn comma).reverse.findSome? fun part =>
      match parseAddr (trimSpace part) with
      | some addr => if addrInTrustedCIDRs addr trustedCIDRs then none else some addr
      | none => none

def parseClientIP (remoteAddr : GoString) : Option Addr :=
  match splitHostPort remoteAddr with
  | some (host, _) => parseAddr host
  | none => parseAddr remoteAddr

def realClientIP (trustedProxyCIDRs : List GoString) (r : Request) : Option Addr :=
  let direct := parseClientIP r.remoteAddr
  if requestFromTrustedProxy trustedProxyCIDRs r then
    match clientIPFromForwardedChain (r.header.get xForwardedFor) trustedProxyCIDRs with
    | some addr => some addr
    | none =>
      let realIP := trimSpace (r.header.get xRealIp)
      if realIP ≠ [] then
        match parseAddr realIP with
        | some addr => some addr
        | none => direct
      else direct
  else direct

/-! ## What the trusted proxy appends -/

inductive HopForm
  | bare
  | withPort (port : GoString) (digits : ∀ c ∈ port, isDigit c = true)

/-- Where the trusted proxy writes it: at the end of the one line into which it joins the lines it
received, on a line of its own after them, or at the end of the last of them. -/
inductive HopPlace
  | joined
  | ownLine
  | lastLine
deriving DecidableEq

/-- The hop that the trusted proxy appends: an address as text, with nothing to trim and no comma.
-/
structure AppendedHop where
  addr : Addr
  text : GoString
  form : HopForm
  place : HopPlace
  parses : parseAddr text = some addr
  noComma : comma ∉ text
  trimmed : trimSpace text = text

/-- What the client chooses: its `X-Forwarded-For` lines and its `X-Real-Ip` lines. -/
structure ClientPart where
  forwardedFor : List GoString
  realIp : List GoString

def AppendedHop.written (hop : AppendedHop) : GoString :=
  match hop.form with
  | .bare => hop.text
  | .withPort port _ => joinHostPort hop.text port

def AppendedHop.lines (hop : AppendedHop) (client : List GoString) : List GoString :=
  match hop.place with
  | .joined => [[comma, 0x20].intercalate (client ++ [hop.written])]
  | .ownLine => client ++ [hop.written]
  | .lastLine => client.dropLast ++ [[comma, 0x20].intercalate (client.drop (client.length - 1) ++ [hop.written])]

def AppendedHop.forward (hop : AppendedHop) (base : Request) (client : ClientPart) : Request :=
  { base with
    header := (base.header.del xForwardedFor).del xRealIp ++
    Header.lines xForwardedFor (hop.lines client.forwardedFor) ++
      Header.lines xRealIp client.realIp }

theorem xForwardedFor_ne_xRealIp : xForwardedFor ≠ xRealIp := by decide +kernel

theorem AppendedHop.get_forwardedFor (hop : AppendedHop) (base : Request) (client : ClientPart) :
    (hop.forward base client).header.get xForwardedFor = (hop.lines client.forwardedFor).headD [] := by
  simp only [forward, Header.get, Header.values_append, Header.values_lines_self,
    Header.values_lines_of_ne xForwardedFor_ne_xRealIp.symm, Header.values_del_of_ne _ xForwardedFor_ne_xRealIp,
    Header.values_del_self, List.nil_append, List.append_nil]

theorem AppendedHop.get_realIp (hop : AppendedHop) (base : Request) (client : ClientPart) :
    (hop.forward base client).header.get xRealIp = client.realIp.headD [] := by
  simp only [forward, Header.get, Header.values_append, Header.values_lines_self,
    Header.values_lines_of_ne xForwardedFor_ne_xRealIp, Header.values_del_self, List.nil_append]

/-! ## The scan from the right -/

variable {text : GoString}

theorem parseAddr_ne_nil {a : Addr} (h : parseAddr text = some a) : text ≠ [] := by
  rintro rfl
  have hnil : parseAddr [] = none := by decide
  rw [hnil] at h
  exact absurd h (by simp)

variable {trusted : List GoString}

theorem clientIPFromForwardedChain_last {a : Addr}
    (hparse : parseAddr text = some a) (hcomma : comma ∉ text) (htrim : trimSpace text = text)
    (hout : addrInTrustedCIDRs a trusted = false) (front : GoString) :
    clientIPFromForwardedChain (front ++ comma :: 0x20 :: text) trusted = some a := by
  have hne := parseAddr_ne_nil hparse
  obtain ⟨hleft, hright⟩ := trim_eq_self_of_trimSpace htrim
  have hlast : trimRightSpace (0x20 :: text) = 0x20 :: text := trimRightSpace_blank_cons hne hright
  have hpart : trimSpace (0x20 :: text) = text := by
    rw [trimSpace, trimLeftSpace_blank_cons, hleft, hright]
  have hnc : comma ∉ (0x20 : UInt8) :: text := by
    rw [List.mem_cons, not_or]
    exact ⟨by decide, hcomma⟩
  unfold clientIPFromForwardedChain
  simp only [trimSpace_append_cons notSpace_comma, hlast, List.splitOn_append_cons_self,
    List.splitOn_eq_singleton hnc, List.reverse_append, List.reverse_singleton, List.singleton_append,
    List.findSome?_cons, hpart, hparse, hout]
  simp

theorem clientIPFromForwardedChain_alone {a : Addr}
    (hparse : parseAddr text = some a) (hcomma : comma ∉ text) (htrim : trimSpace text = text)
    (hout : addrInTrustedCIDRs a trusted = false) : clientIPFromForwardedChain text trusted = some a := by
  unfold clientIPFromForwardedChain
  simp only [htrim, if_neg (parseAddr_ne_nil hparse), List.splitOn_eq_singleton hcomma, List.reverse_singleton,
    List.findSome?_cons, hparse, hout]
  rfl

theorem clientIPFromForwardedChain_skip (hcomma : comma ∉ text) (htrim : trimSpace text = text)
    (hparse : parseAddr text = none) (trusted : List GoString) :
    clientIPFromForwardedChain text trusted = none := by
  unfold clientIPFromForwardedChain
  simp only [htrim, List.splitOn_eq_singleton hcomma, List.reverse_singleton, List.findSome?_cons, hparse,
    List.findSome?_nil, ite_self]

/-! ## Which hops cannot be spoofed -/

theorem notSpace_colon : NotSpace colon := by decide

theorem trimSpace_joinHostPort {host port : GoString} (hhost : trimSpace host = host)
    (hport : ∀ c ∈ port, isDigit c = true) : trimSpace (joinHostPort host port) = joinHostPort host port := by
  have hp : trimRightSpace port = port :=
    trimRightSpace_eq_self_of_notSpace fun c hc => (isDigit_notSpace (hport c hc)).1
  unfold joinHostPort
  split_ifs with hc
  · have hsplit : leftBracket :: host ++ rightBracket :: colon :: port =
        (leftBracket :: host ++ [rightBracket]) ++ colon :: port := by simp
    have hbr : NotSpace leftBracket := by decide
    have hl : trimLeftSpace (leftBracket :: host ++ [rightBracket]) = leftBracket :: host ++ [rightBracket] :=
      trimLeftSpace_append_cons hbr [] (host ++ [rightBracket])
    rw [hsplit, trimSpace_append_cons notSpace_colon, hp, hl]
  · rw [trimSpace_append_cons notSpace_colon, hp, (trim_eq_self_of_trimSpace hhost).1]

theorem comma_not_mem_joinHostPort {host port : GoString} (hhost : comma ∉ host)
    (hport : ∀ c ∈ port, isDigit c = true) : comma ∉ joinHostPort host port := by
  have hp : comma ∉ port := fun hm => (isDigit_notSpace (hport comma hm)).2 rfl
  have h1 : comma ≠ leftBracket := by decide
  have h2 : comma ≠ rightBracket := by decide
  have h3 : comma ≠ colon := by decide
  unfold joinHostPort
  split_ifs <;> simp [hp, hhost, h1, h2, h3]

theorem realClientIP_of_realIp {r : Request} {a : Addr}
    (hfrom : requestFromTrustedProxy trusted r = true)
    (hchain : clientIPFromForwardedChain (r.header.get xForwardedFor) trusted = none)
    (hreal : parseAddr (trimSpace (r.header.get xRealIp)) = some a) : realClientIP trusted r = some a := by
  simp only [realClientIP, hfrom, hchain, if_true, hreal, if_pos (parseAddr_ne_nil hreal)]

theorem spoofable {base : Request} {hop : AppendedHop} (lines : List GoString)
    (hfrom : requestFromTrustedProxy trusted base = true)
    (hchain : clientIPFromForwardedChain ((hop.lines lines).headD []) trusted = none) :
    ¬ ∀ c₁ c₂ : ClientPart, realClientIP trusted (hop.forward base c₁) = some hop.addr ∧
      realClientIP trusted (hop.forward base c₂) = some hop.addr := by
  intro hall
  have hpick : ∀ text b, parseAddr (trimSpace text) = some b →
      realClientIP trusted (hop.forward base ⟨lines, [text]⟩) = some b := by
    intro text b hb
    refine realClientIP_of_realIp hfrom ?_ ?_
    · rw [hop.get_forwardedFor]
      exact hchain
    · rw [hop.get_realIp]
      exact hb
  have h1 := hpick (str "192.0.2.1") (.v4 0xC0000201#32) (by decide +kernel)
  have h2 := hpick (str "192.0.2.2") (.v4 0xC0000202#32) (by decide +kernel)
  obtain ⟨e1, e2⟩ := hall ⟨lines, [str "192.0.2.1"]⟩ ⟨lines, [str "192.0.2.2"]⟩
  rw [h1] at e1
  rw [h2, ← e1] at e2
  exact absurd e2 (by decide)

theorem realClientIP_forward {base : Request} {hop : AppendedHop}
    (hfrom : requestFromTrustedProxy trusted base = true) (hout : addrInTrustedCIDRs hop.addr trusted = false)
    (hform : hop.form = .bare) (hplace : hop.place = .joined) (client : ClientPart) :
    realClientIP trusted (hop.forward base client) = some hop.addr := by
  have hw : hop.written = hop.text := by simp [AppendedHop.written, hform]
  have hchain : clientIPFromForwardedChain ((hop.forward base client).header.get xForwardedFor) trusted =
      some hop.addr := by
    rw [hop.get_forwardedFor]
    simp only [AppendedHop.lines, hplace, hw]
    by_cases hnil : client.forwardedFor = []
    · rw [hnil, List.nil_append, List.intercalate_singleton]
      exact clientIPFromForwardedChain_alone hop.parses hop.noComma hop.trimmed hout
    · rw [intercalate_concat _ _ hnil, List.append_assoc]
      exact clientIPFromForwardedChain_last hop.parses hop.noComma hop.trimmed hout _
  have hfrom' : requestFromTrustedProxy trusted (hop.forward base client) = true := hfrom
  simp only [realClientIP, hfrom', hchain, if_true]

/-- Two requests that agree on the hop appended by the trusted proxy, and differ in any way in what
the client sent, get the hop's address exactly when the hop is written bare at the end of a single
line. -/
theorem realClientIP_eq_hop_iff {trusted : List GoString} {base : Request} {hop : AppendedHop}
    (hfrom : requestFromTrustedProxy trusted base = true) (hout : addrInTrustedCIDRs hop.addr trusted = false) :
    (∀ c₁ c₂ : ClientPart, realClientIP trusted (hop.forward base c₁) = some hop.addr ∧
      realClientIP trusted (hop.forward base c₂) = some hop.addr) ↔ hop.form = .bare ∧ hop.place = .joined := by
  constructor
  · intro hall
    cases hform : hop.form with
    | withPort port digits =>
      -- the hop itself is skipped: a client that sends no line at all hides it
      exfalso
      refine spoofable [] hfrom ?_ hall
      have hline : (hop.lines []).headD [] = joinHostPort hop.text port := by
        cases hp : hop.place <;> simp [AppendedHop.lines, hp, AppendedHop.written, hform]
      rw [hline]
      exact clientIPFromForwardedChain_skip (comma_not_mem_joinHostPort hop.noComma digits)
        (trimSpace_joinHostPort hop.trimmed digits) (parseAddr_joinHostPort hop.parses port) trusted
    | bare =>
      refine ⟨rfl, ?_⟩
      by_contra hplace
      -- the client's own first line is the only one looked at
      refine spoofable [str "x", str "x"] hfrom ?_ hall
      have hline : (hop.lines [str "x", str "x"]).headD [] = str "x" := by
        cases hp : hop.place with
        | joined => exact absurd hp hplace
        | _ => simp [AppendedHop.lines, hp]
      rw [hline]
      exact clientIPFromForwardedChain_skip (by decide +kernel) (by decide +kernel) (by decide +kernel) trusted
  · rintro ⟨hform, hplace⟩ c₁ c₂
    exact ⟨realClientIP_forward hfrom hout hform hplace c₁, realClientIP_forward hfrom hout hform hplace c₂⟩

/-- A request that arrives from the proxy at `10.0.0.2`. -/
def proxiedRequest : Request where
  method := str "GET"
  host := str "app.example.com"
  remoteAddr := str "10.0.0.2:41822"
  url := { path := str "/", rawPath := [] }
  header := []
  tls := false
  peerCertificate := none

/-- The hop `203.0.113.7`, written in a given way. -/
def hopAt (form : HopForm) (place : HopPlace) : AppendedHop where
  addr := .v4 0xCB007107#32
  text := str "203.0.113.7"
  form := form
  place := place
  parses := by decide +kernel
  noComma := by decide +kernel
  trimmed := by decide +kernel

theorem realClientIP_eq_hop_bare :
    realClientIP [str "10.0.0.0/8"]
        ((hopAt .bare .joined).forward proxiedRequest ⟨[str "198.51.100.9, x", str "192.0.2.5"],
          [str "192.0.2.1"]⟩) =
      some (.v4 0xCB007107#32) ∧
    realClientIP [str "10.0.0.0/8"] ((hopAt .bare .joined).forward proxiedRequest ⟨[], []⟩) =
      some (.v4 0xCB007107#32) :=
  (@realClientIP_eq_hop_iff _ _ (hopAt .bare .joined) (by decide +kernel) (by decide +kernel)).mpr ⟨rfl, rfl⟩ _ _

/-- A port behind the hop makes the scan skip it: the answer is the proxy's own address, or whatever
the client writes into `X-Real-Ip`. -/
theorem realClientIP_hop_withPort :
    realClientIP [str "10.0.0.0/8"]
        ((hopAt (.withPort (str "51000") (by decide +kernel)) .joined).forward proxiedRequest ⟨[], []⟩) =
      some (.v4 0x0A000002#32) ∧
    realClientIP [str "10.0.0.0/8"]
        ((hopAt (.withPort (str "51000") (by decide +kernel)) .joined).forward proxiedRequest ⟨[], [str "192.0.2.1"]⟩) =
      some (.v4 0xC0000201#32) := by
  decide +kernel

end Portlyn.Proxy
