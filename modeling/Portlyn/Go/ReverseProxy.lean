import Portlyn.Go.Dns
import Portlyn.Go.Http

/-! # The header that `httputil.ReverseProxy` sends on

The `Director` changes a copy of the request. Then the headers that are for one hop only are
removed: those that the request names in `Connection`, and the fixed ones. -/
namespace Portlyn.Go
set_option autoImplicit false

def connectionHeader : GoString := str "Connection"
def upgradeHeader : GoString := str "Upgrade"
def teHeader : GoString := str "Te"
def userAgentHeader : GoString := str "User-Agent"
def forwardedForHeader : GoString := str "X-Forwarded-For"

def headerValuesContainsToken (values : List GoString) (token : GoString) : Bool :=
  values.any fun value => (value.splitOn comma).any fun part =>
    let blank : UInt8 → Bool := fun b => b = 0x20 || b = 0x09
    ((part.dropWhile blank).rdropWhile blank).map lowerByte = token.map lowerByte

def upgradeType (h : Header) : GoString :=
  if headerValuesContainsToken (h.values connectionHeader) upgradeHeader then h.get upgradeHeader
    else []

/-- The names in the `Connection` lines. -/
def connectionTokens (h : Header) : List GoString :=
  ((h.values connectionHeader).flatMap fun line => (line.splitOn comma).map trimBlank).filter (· ≠
    [])

def hopHeaders : List GoString :=
  [connectionHeader, str "Proxy-Connection", str "Keep-Alive", str "Proxy-Authenticate",
    str "Proxy-Authorization", teHeader,
    str "Trailer", str "Transfer-Encoding", upgradeHeader]

def removeHopByHopHeaders (h : Header) : Header :=
  hopHeaders.foldl Header.del (((connectionTokens h).map canonicalHeaderKey).foldl Header.del h)

/-- The address of the peer is added to `X-Forwarded-For`. -/
def appendForwardedFor (remoteAddr : GoString) (h : Header) : Header :=
  match splitHostPort remoteAddr with
  | none => h
  | some (clientIP, _) =>
    let prior := h.values forwardedForHeader
    h.set forwardedForHeader (if prior = [] then clientIP else (str ", ").intercalate prior ++ str ", " ++ clientIP)

/-- The header that is sent, from the one that the `Director` leaves. -/
def sentHeader (req : Request) (header : Header) : Header :=
  let reqUpType := upgradeType header
  let header := removeHopByHopHeaders header
  let header := if headerValuesContainsToken (req.header.values teHeader) (str "trailers") then
    header.set teHeader (str "trailers") else header
  let header := if reqUpType ≠ [] then
    (header.set connectionHeader upgradeHeader).set upgradeHeader reqUpType else header
  let header := appendForwardedFor req.remoteAddr header
  if header.values userAgentHeader = [] then header.set userAgentHeader [] else header

/-- `ReverseProxy.ServeHTTP` up to the transport. A client that asks for an unprintable protocol
gets an error. -/
def reverseProxyRequest (director : Request → Request) (req : Request) : Option Request :=
  let outreq := director req
  if (upgradeType outreq.header).all fun b => 0x20 ≤ b && b ≤ 0x7E then
    some { outreq with header := sentHeader req outreq.header } else none

/-! ## Canonical names -/

def canonicalByte (upper : Bool) (c : UInt8) : UInt8 :=
  if upper && 0x61 ≤ c && c ≤ 0x7A then c - 0x20 else if !upper && 0x41 ≤ c && c ≤ 0x5A then
    c + 0x20 else c

theorem canonicalByte_spec (upper : Bool) (c : UInt8) :
    canonicalByte upper (canonicalByte upper c) = canonicalByte upper c ∧
    validHeaderFieldByte (canonicalByte upper c) = validHeaderFieldByte c := by
  have hall : ∀ (upper : Bool)
    (n : Fin 256), canonicalByte upper (canonicalByte upper (UInt8.ofNat n)) =
    canonicalByte upper (UInt8.ofNat n) ∧
      validHeaderFieldByte (canonicalByte upper (UInt8.ofNat n)) =
      validHeaderFieldByte (UInt8.ofNat n) := by decide +kernel
  have hc := hall upper ⟨c.toNat, c.toNat_lt⟩
  rwa [UInt8.ofNat_toNat] at hc

theorem canonicalFrom_cons (upper : Bool) (c : UInt8) (s : GoString) :
    canonicalFrom upper (c :: s) = canonicalByte upper c ::
    canonicalFrom (canonicalByte upper c = 0x2D) s := rfl

theorem canonicalFrom_spec (upper : Bool) (s : GoString) :
    canonicalFrom upper (canonicalFrom upper s) = canonicalFrom upper s ∧
    (canonicalFrom upper s).all validHeaderFieldByte = s.all validHeaderFieldByte := by
  induction s generalizing upper with
  | nil => exact ⟨rfl, rfl⟩
  | cons c s ih =>
    obtain ⟨hidem, hvalid⟩ := canonicalByte_spec upper c
    rw [canonicalFrom_cons, canonicalFrom_cons, hidem, (ih _).1, List.all_cons, hvalid, (ih _).2]
    exact ⟨rfl, rfl⟩

theorem canonicalHeaderKey_idem (name : GoString) :
    canonicalHeaderKey (canonicalHeaderKey name) = canonicalHeaderKey name := by
  unfold canonicalHeaderKey
  by_cases hvalid : name.all validHeaderFieldByte = true
  · rw [if_pos hvalid, (canonicalFrom_spec true name).2, if_pos hvalid, (canonicalFrom_spec true name).1]
  · rw [if_neg hvalid, if_neg hvalid]

/-! ## Headers that pass -/

theorem foldl_del (h : Header) (names : List GoString) :
    names.foldl Header.del h = h.filter fun line => names.all (line.1 ≠ ·) := by
  induction names generalizing h with
  | nil => exact (List.filter_eq_self.mpr fun _ _ => rfl).symm
  | cons name names ih =>
    rw [List.foldl_cons, ih, Header.del, List.filter_filter]
    refine List.filter_congr fun line _ => ?_
    rw [List.all_cons, Bool.and_comm]

section Select
variable {p : GoString → Bool}

def proxyNames : List GoString := userAgentHeader :: forwardedForHeader :: hopHeaders

theorem select_foldl_del_of_not {names : List GoString} (hp : ∀ name ∈ names, p name = false)
    (h : Header) : (names.foldl Header.del h).select p = h.select p := by
  induction names generalizing h with
  | nil => rfl
  | cons name names ih =>
    rw [List.foldl_cons, ih fun n hn => hp n (List.mem_cons_of_mem _ hn),
      Header.select_del_of_not (hp name List.mem_cons_self)]

theorem select_foldl_del (names : List GoString) (h : Header) :
    (names.foldl Header.del h).select p = (h.select p).filter fun line => names.all (line.1 ≠ ·) := by
  rw [foldl_del, Header.select, List.filter_comm]
  rfl

theorem select_removeHopByHopHeaders (hp : ∀ name ∈ proxyNames, p name = false) (h : Header) :
    (removeHopByHopHeaders h).select p = (h.select p).filter fun line =>
      ((connectionTokens h).map canonicalHeaderKey).all (line.1 ≠ ·) := by
  rw [removeHopByHopHeaders, select_foldl_del_of_not fun name hname =>
    hp name (List.mem_cons_of_mem _ (List.mem_cons_of_mem _ hname)),
    select_foldl_del]

theorem select_ite_set {c : Prop} [Decidable c] {name : GoString} (hp : p name = false) (h : Header)
    (value : GoString) : Header.select p (if c then h.set name value else h) = h.select p := by
  split
  · exact Header.select_set_of_not hp h value
  · rfl

theorem select_sentHeader (hp : ∀ name ∈ proxyNames, p name = false) (req : Request) (header : Header) :
    (sentHeader req header).select p =
      (header.select p).filter fun line => ((connectionTokens header).map canonicalHeaderKey).all (line.1 ≠ ·) := by
  have hagent : p userAgentHeader = false := hp _ List.mem_cons_self
  have hforwarded : p forwardedForHeader = false := hp _ (List.mem_cons_of_mem _ List.mem_cons_self)
  have hhop : ∀ name ∈ hopHeaders, p name = false :=
    fun name hname => hp name (List.mem_cons_of_mem _ (List.mem_cons_of_mem _ hname))
  have hconnection : p connectionHeader = false := hhop _ (by simp [hopHeaders])
  have hupgrade : p upgradeHeader = false := hhop _ (by simp [hopHeaders])
  have hte : p teHeader = false := hhop _ (by simp [hopHeaders])
  have happend : ∀ h : Header, (appendForwardedFor req.remoteAddr h).select p = h.select p := by
    intro h
    unfold appendForwardedFor
    split
    · rfl
    · exact Header.select_set_of_not hforwarded ..
  unfold sentHeader
  rw [select_ite_set hagent, happend]
  split
  · rw [Header.select_set_of_not hupgrade, Header.select_set_of_not hconnection, select_ite_set hte,
      select_removeHopByHopHeaders hp]
  · rw [select_ite_set hte, select_removeHopByHopHeaders hp]

end Select
end Portlyn.Go
