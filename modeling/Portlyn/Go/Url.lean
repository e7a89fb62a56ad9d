import Portlyn.Go.Dns
import Portlyn.Go.Netip

/-! # Go URLs: the path and the host

`net/url` keeps a path twice: decoded (`Path`) and, when the default encoding would differ from what
was received, encoded (`RawPath`). What goes on the wire is `EscapedPath`. Whatever `RawPath` holds,
the wire form decodes to `Path` (`unescapePath_escapedPath`), so a program that edits both is judged
by `Path` alone. -/
namespace Portlyn.Go
set_option autoImplicit false

structure URL where
  path : GoString
  rawPath : GoString
  deriving DecidableEq

/-- `url.shouldEscape` in mode `encodePath`. -/
def shouldEscapePath (c : UInt8) : Bool :=
  if (97 ≤ c ∧ c ≤ 122) ∨ (65 ≤ c ∧ c ≤ 90) ∨ (48 ≤ c ∧ c ≤ 57) then false
  else if c ∈ str "-_.~" then false
  else if c ∈ str "$&+,/:;=?@" then c = 63
  else true

def upperhex (n : UInt8) : UInt8 := if n < 10 then 48 + n else 55 + n

/-- `url.escape` in mode `encodePath`. -/
def escapePath (s : GoString) : GoString :=
  s.flatMap fun b => if shouldEscapePath b then [percent, upperhex (b >>> 4), upperhex (b &&& 15)]
    else [b]

/-- The value of a hexadecimal digit, `none` where `url.ishex` is false. -/
def unhex (c : UInt8) : Option UInt8 :=
  if 48 ≤ c ∧ c ≤ 57 then some (c - 48)
  else if 97 ≤ c ∧ c ≤ 102 then some (c - 87)
  else if 65 ≤ c ∧ c ≤ 70 then some (c - 55)
  else none

/-- `url.unescape` in mode `encodePath`. -/
def unescapePath : GoString → Option GoString
  | [] => some []
  | 37 :: h :: l :: rest =>
    match unhex h, unhex l with
    | some x, some y => (unescapePath rest).map ((x <<< 4 ||| y) :: ·)
    | _, _ => none
  | 37 :: _ => none
  | b :: rest => (unescapePath rest).map (b :: ·)

/-- `url.validEncoded` in mode `encodePath`. -/
def validEncodedPath (s : GoString) : Bool :=
  s.all fun b => b ∈ str "!$&'()*+,;=:@[]%" || !shouldEscapePath b

def URL.escapedPath (u : URL) : GoString :=
  if u.rawPath ≠ [] ∧ validEncodedPath u.rawPath ∧ unescapePath u.rawPath = some u.path then
    u.rawPath
  else if u.path = [42] then [42]
  else escapePath u.path

theorem unescapePath_cons {b : UInt8} (hb : b ≠ percent) (s : GoString) :
    unescapePath (b :: s) = (unescapePath s).map (b :: ·) := by
  rw [unescapePath]
  · intro h l rest hp
    exact absurd hp hb
  · exact hb

theorem unescapePath_percent (x y : UInt8) (h l : UInt8) (hx : unhex h = some x)
    (hy : unhex l = some y) (s : GoString) :
    unescapePath (percent :: h :: l :: s) = (unescapePath s).map ((x <<< 4 ||| y) :: ·) := by
  simp [percent, unescapePath, hx, hy]

theorem shouldEscapePath_percent : shouldEscapePath percent = true := by decide +kernel

theorem unhex_upperhex_byte (b : UInt8) : unhex (upperhex (b >>> 4)) = some (b >>> 4) ∧
    unhex (upperhex (b &&& 15)) = some (b &&& 15) ∧ (b >>> 4) <<< 4 ||| (b &&& 15) = b := by
  have hall : ∀ n < 256, unhex (upperhex (UInt8.ofNat n >>> 4)) = some (UInt8.ofNat n >>> 4) ∧
      unhex (upperhex (UInt8.ofNat n &&& 15)) = some (UInt8.ofNat n &&& 15) ∧
      (UInt8.ofNat n >>> 4) <<< 4 ||| (UInt8.ofNat n &&& 15) = UInt8.ofNat n := by
    decide +kernel
  have h := hall b.toNat b.toNat_lt
  rw [UInt8.ofNat_toNat] at h
  exact h

theorem unescapePath_escapePath (s : GoString) : unescapePath (escapePath s) = some s := by
  induction s with
  | nil => rfl
  | cons b s ih =>
    rw [escapePath, List.flatMap_cons]
    by_cases hb : shouldEscapePath b = true
    · obtain ⟨hh, hl, hbyte⟩ := unhex_upperhex_byte b
      rw [if_pos hb]
      change unescapePath (percent :: _ :: _ :: escapePath s) = _
      rw [unescapePath_percent _ _ _ _ hh hl, ih, hbyte]
      rfl
    · have hne : b ≠ percent := fun e => hb (e ▸ shouldEscapePath_percent)
      rw [if_neg hb]
      change unescapePath (b :: escapePath s) = _
      rw [unescapePath_cons hne, ih]
      rfl

theorem unescapePath_escapedPath (u : URL) : unescapePath u.escapedPath = some u.path := by
  unfold URL.escapedPath
  split_ifs with hraw hstar
  · exact hraw.2.2
  · rw [hstar]
    rfl
  · exact unescapePath_escapePath u.path

/-! ## Paths that need no escapes -/

def URL.setPath (p : GoString) : Option URL :=
  (unescapePath p).map fun path => ⟨path, if p = escapePath path then [] else p⟩

theorem unescapePath_of_not_mem {s : GoString} (h : percent ∉ s) : unescapePath s = some s := by
  induction s with
  | nil => rfl
  | cons b s ih =>
    rw [List.mem_cons, not_or] at h
    rw [unescapePath_cons (Ne.symm h.1), ih h.2]
    rfl

theorem setPath_of_not_mem {p : GoString} {u : URL} (hu : URL.setPath p = some u)
    (hraw : u.rawPath ≠ []) (hpercent : percent ∉ u.rawPath) : u.path = u.rawPath := by
  obtain ⟨path, hpath, rfl⟩ := Option.map_eq_some_iff.mp hu
  split at hraw
  · exact absurd rfl hraw
  · rename_i hp
    rw [if_neg hp] at hpercent ⊢
    rw [unescapePath_of_not_mem hpercent, Option.some.injEq] at hpath
    exact hpath.symm

def cleanStep (segs : List GoString) (seg : GoString) : List GoString :=
  if seg = [dot] then segs else if seg = [dot, dot] then segs.dropLast else segs ++ [seg]

/-- `path.Clean` of a path that starts with a slash. -/
def cleanRooted (p : GoString) : GoString :=
  let segs := (fields slash p).foldl cleanStep []
  if segs = [] then [slash] else joinParts slash segs

variable {segs : List GoString}

theorem foldl_cleanStep (h : ∀ seg ∈ segs, seg ≠ [dot] ∧ seg ≠ [dot, dot]) (acc : List GoString) :
    segs.foldl cleanStep acc = acc ++ segs := by
  induction segs generalizing acc with
  | nil => rw [List.foldl_nil, List.append_nil]
  | cons seg segs ih =>
    obtain ⟨hdot, hdots⟩ := h seg List.mem_cons_self
    rw [List.foldl_cons, cleanStep, if_neg hdot, if_neg hdots, ih fun s hs => h s (List.mem_cons_of_mem _ hs),
      List.append_assoc, List.singleton_append]

theorem cleanRooted_joinParts (hne : segs ≠ []) (hclean : ∀ seg ∈ segs, seg ≠ [] ∧ slash ∉ seg)
    (hdots : ∀ seg ∈ segs, seg ≠ [dot] ∧ seg ≠ [dot, dot]) :
    cleanRooted (joinParts slash segs) = joinParts slash segs := by
  rw [cleanRooted, fields_joinParts_self hclean, foldl_cleanStep hdots]
  exact if_neg hne

def relativeStep (segs : List GoString) (seg : GoString) : List GoString :=
  if seg = [dot] then segs
  else if seg = [dot, dot] then
    if segs.getLast? = none ∨ segs.getLast? = some [dot, dot] then segs ++ [seg] else segs.dropLast
  else segs ++ [seg]

/-- `path.Clean`. -/
def cleanPath (p : GoString) : GoString :=
  if p.head? = some slash then cleanRooted p
  else
    let segs := (fields slash p).foldl relativeStep []
    if segs = [] then [dot] else [slash].intercalate segs

/-- `path.Join`. -/
def joinPath (elems : List GoString) : GoString :=
  let elems := elems.filter (· ≠ [])
  if elems = [] then [] else cleanPath ([slash].intercalate elems)

theorem foldl_relativeStep (h : ∀ seg ∈ segs, seg ≠ [dot] ∧ seg ≠ [dot, dot])
    (acc : List GoString) : segs.foldl relativeStep acc = acc ++ segs := by
  induction segs generalizing acc with
  | nil => rw [List.foldl_nil, List.append_nil]
  | cons seg segs ih =>
    obtain ⟨hdot, hdots⟩ := h seg List.mem_cons_self
    rw [List.foldl_cons, relativeStep, if_neg hdot, if_neg hdots, ih fun s hs => h s (List.mem_cons_of_mem _ hs),
      List.append_assoc, List.singleton_append]

/-! ## The host of a Go URL

`URL.Host` is a name or an address, with a port or without one. -/

/-- `splitHostPort` of `net/url`: what follows the last colon is the port if it has only digits, and
brackets are taken off what is left. -/
def splitURLHost (hostPort : GoString) : GoString × GoString :=
  let cut := (cutLast colon hostPort).filter fun parts => parts.2.all isDigit
  let host := (cut.map Prod.fst).getD hostPort
  (if host.head? = some leftBracket ∧ host.getLast? = some rightBracket then (host.drop 1).dropLast
    else host,
    (cut.map Prod.snd).getD [])

/-- What `url.Parse` finds in a text, and the text that `String` makes of it with another host. -/
structure ParsedTarget where
  scheme : GoString
  host : GoString
  withHost : (host : GoString) → GoString

def ParsedTarget.hostname (u : ParsedTarget) : GoString := (splitURLHost u.host).1

def ParsedTarget.port (u : ParsedTarget) : GoString := (splitURLHost u.host).2

/-! ## `url.Parse` -/

def isUnreserved (c : UInt8) : Bool := isNameByte c || c = 0x7E

/-- `url.shouldEscape` is false in mode `encodeHost`. -/
def isHostByte (c : UInt8) : Bool := isUnreserved c || (str "!$&'()*+,;=:[]<>\"").any (· = c)

/-- `url.unescape`. It depends on the mode which bytes may be escaped and which may stand by
themselves. -/
def unescapeWhere (escaped plain : UInt8 → Bool) : GoString → Option GoString
  | [] => some []
  | 37 :: h :: l :: rest =>
    match unhex h, unhex l with
    | some x, some y =>
      if escaped (x <<< 4 ||| y) then (unescapeWhere escaped plain rest).map ((x <<< 4 ||| y) :: ·) else none
    | _, _ => none
  | 37 :: _ => none
  | b :: rest => if plain b then (unescapeWhere escaped plain rest).map (b :: ·) else none

def unescapeHost : GoString → Option GoString :=
  unescapeWhere (fun v => 0x80 ≤ v || v = percent) fun b => 0x80 ≤ b || isHostByte b

def unescapeZone : GoString → Option GoString :=
  unescapeWhere (fun v => v = percent || v = 0x20 || isHostByte v) fun b => 0x80 ≤ b || isHostByte b

def escapeWhere (keeps : UInt8 → Bool) (s : GoString) : GoString :=
  s.flatMap fun b => if keeps b then [b] else [percent, upperhex (b >>> 4), upperhex (b &&& 15)]

def validOptionalPort (port : GoString) : Bool := port = [] || port.head? = some colon &&
    (port.drop 1).all isDigit

/-- `parseHost`: a name or an IPv4 address with at most one colon, or an IPv6 address in brackets,
each with a port or without one. -/
def parseHost (host : GoString) : Option GoString :=
  if host.head? = some leftBracket then do
    let (name, port) ← cutLast rightBracket (host.drop 1)
    let name ← match cutZone name with
      | (name, none) => unescapeHost name
      | (name, some zone) => (unescapeHost name).bind fun name => (unescapeZone zone).map (name ++ ·)
    match parseAddr name with
    | some (.v6 _ _) => if validOptionalPort port then some (leftBracket :: name ++ rightBracket :: port) else none
    | _ => none
  else if leftBracket ∈ host then none
  else if validOptionalPort (host.dropWhile (· ≠ colon)) then unescapeHost host
  else none
where
  cutZone : GoString → GoString × Option GoString
    | [] => ([], none)
    | b :: rest =>
      if hasPrefix (b :: rest) (str "%25") then ([], some (b :: rest))
      else (b :: (cutZone rest).1, (cutZone rest).2)

/-- What `String` writes of the user information that `parseAuthority` reads. -/
def parseUserinfo (info : GoString) : Option GoString :=
  let part := fun s => (unescapeWhere (fun _ => true) (fun _ => true) s).map
    (escapeWhere fun c => isUnreserved c || (str "$&+,;=").any (· = c))
  if !info.all fun c => isUnreserved c || (str ":!$&'()*+,;=%@").any (· = c) then none
  else
    match info.dropWhile (· ≠ colon) with
    | [] => part info
    | _ :: password => return (← part (cutBefore colon info)) ++ colon :: (← part password)

/-- What `String` writes of a fragment. -/
def parseFragment (fragment : GoString) : Option GoString :=
  let keeps := fun c => isUnreserved c || (str "$&+,/:;=?@!()*").any (· = c)
  (unescapeWhere (fun _ => true) (fun _ => true) fragment).map fun text =>
    if fragment.all fun c => keeps c || (str "'[]%").any (· = c) then fragment else escapeWhere keeps text

/-- The scheme and what follows it. A text that starts with a colon is refused. -/
def getScheme (raw : GoString) : Option (GoString × GoString) :=
  let isSchemeByte := fun c => isNameByte c && c ≠ 0x5F || c = 0x2B
  let name := raw.takeWhile isSchemeByte
  match raw.dropWhile isSchemeByte with
  | 58 :: rest =>
    if name = [] then none
    else if name.head?.all fun c => isDigit c || (str "+-.").any (· = c) then some ([], raw)
    else some (name.map lowerByte, rest)
  | _ => some ([], raw)

/-- `*url.URL`, with its user information and its fragment as `String` writes them. A URL without a
slash behind its scheme has all of it in `rest`. -/
structure ParsedText where
  scheme : GoString
  user : Option GoString
  host : GoString
  url : URL
  rest : GoString
  query : Option GoString
  fragment : GoString

/-- `url.Parse`. -/
def urlParse (raw : GoString) : Option ParsedText := do
  let text := cutBefore 0x23 raw
  let fragment ← parseFragment (raw.drop (text.length + 1))
  if text.any fun b => b < 0x20 || b = 0x7F then none
  else if text = [42] then return ⟨[], none, [], ⟨[42], []⟩, [], none, fragment⟩
  else
    let (scheme, rest) ← getScheme text
    let before := cutBefore 0x3F rest
    let query := if before = rest then none else some (rest.drop (before.length + 1))
    if before.head? ≠ some slash ∧ scheme ≠ [] then return ⟨scheme, none, [], ⟨[], []⟩, before, query, fragment⟩
    else if before.head? ≠ some slash ∧ colon ∈ cutBefore slash before then none
    else if hasPrefix before [slash, slash] ∧ (scheme ≠ [] ∨ !hasPrefix before [slash, slash, slash]) then
      let authority := cutBefore slash (before.drop 2)
      let url ← URL.setPath (before.drop (authority.length + 2))
      match cutLast 0x40 authority with
      | none => return ⟨scheme, none, ← parseHost authority, url, [], query, fragment⟩
      | some (info, host) =>
        return ⟨scheme, some (← parseUserinfo info), ← parseHost host, url, [], query, fragment⟩
    else return ⟨scheme, none, [], ← URL.setPath before, [], query, fragment⟩

/-- `String` of a URL that has a host, with another host in its place. -/
def ParsedText.withHost (u : ParsedText) (host : GoString) : GoString :=
  (if u.scheme = [] then [] else u.scheme ++ [colon]) ++ [slash, slash] ++
    (u.user.map (· ++ [0x40])).getD [] ++
    escapeWhere isHostByte host ++ u.url.escapedPath ++ (u.query.map (0x3F :: ·)).getD [] ++
    if u.fragment = [] then [] else 0x23 :: u.fragment

def parseTarget (raw : GoString) : Option ParsedTarget := (urlParse raw).map fun u =>
    ⟨u.scheme, u.host, u.withHost⟩

example : (parseTarget (str "HTTP://u:p@Db:8080/x?q#f")).map (fun u =>
    (u.scheme, u.host, u.withHost (str "10.0.0.2:8080"))) =
    some (str "http", str "Db:8080", str "http://u:p@10.0.0.2:8080/x?q#f") := by
  decide +kernel

example : (urlParse (str "db:9")).map ParsedText.host = some [] ∧
    urlParse (str "http://a:9:9") matches none ∧
    (urlParse (str "//[fe80::1%25en0]:80")).map ParsedText.host =
    some (str "[fe80::1%en0]:80") := by
  decide +kernel

/-- The path that `url.Parse` finds in a text, `none` for an error. A path with one slash in front
and without the characters that mean something else is its own path, if it is accepted. -/
structure PathParser where
  parse : GoString → Option GoString
  plain : ∀ p path, parse (slash :: p) = some path → p.head? ≠ some slash → percent ∉ p →
    (0x3F : UInt8) ∉ p →
    (0x23 : UInt8) ∉ p → path = slash :: p

/-- The path of `url.Parse`. -/
def urlPaths : PathParser where
  parse := fun raw => (urlParse raw).map fun u => u.url.path
  plain := by
    intro p path hparse hslash hpercent hquery hhash
    obtain ⟨u, hu, rfl⟩ := Option.map_eq_some_iff.mp hparse
    have hnone : ∀ {c : UInt8}, c ≠ slash → c ∉ p → cutBefore c (slash :: p) = slash :: p := by
      intro c hc hp
      refine List.takeWhile_eq_self_iff.mpr fun b hb => decide_eq_true ?_
      rintro rfl
      exact (List.mem_cons.mp hb).elim hc hp
    have hscheme : getScheme (slash :: p) = some ([], slash :: p) := rfl
    rw [urlParse, hnone (by decide) hhash] at hu
    obtain ⟨fragment, -, hu⟩ := Option.bind_eq_some_iff.mp hu
    split_ifs at hu with hcontrol hstar
    · exact absurd (List.cons.inj hstar).1 (by decide)
    obtain ⟨⟨scheme, rest⟩, hparts, hu⟩ := Option.bind_eq_some_iff.mp hu
    cases hscheme.symm.trans hparts
    have hauthority : ¬ hasPrefix (slash :: p) [slash, slash] = true := by
      intro h
      obtain ⟨rest, hrest⟩ := List.isPrefixOf_iff_prefix.mp h
      exact hslash ((List.cons.inj hrest).2 ▸ rfl)
    dsimp only at hu
    rw [hnone (by decide) hquery, if_neg (fun h => h.2 rfl), if_neg (fun h => h.1 rfl),
      if_neg (fun h => hauthority h.1)] at hu
    obtain ⟨url, hurl, hu⟩ := Option.bind_eq_some_iff.mp hu
    have hmem : percent ∉ slash :: p := fun h => (List.mem_cons.mp h).elim (by decide) hpercent
    rw [URL.setPath, unescapePath_of_not_mem hmem] at hurl
    cases hurl
    cases hu
    rfl

/-! ### Addresses as hosts -/

theorem cutLast_append (sep : UInt8) (s : GoString) {t : GoString} (ht : sep ∉ t) :
    cutLast sep (s ++ sep :: t) = some (s, t) := by
  have htaken : ∀ b ∈ t.reverse, (decide (b ≠ sep)) = true := by
    intro b hb
    rw [List.mem_reverse] at hb
    exact decide_eq_true fun heq => ht (heq ▸ hb)
  have hreverse : (s ++ sep :: t).reverse = t.reverse ++ sep :: s.reverse := by
    rw [List.reverse_append, List.reverse_cons, List.append_assoc]
    rfl
  have hstop : ¬ (fun b => decide (b ≠ sep)) sep = true := fun h => of_decide_eq_true h rfl
  rw [cutLast, if_pos (List.mem_append_right s (List.mem_cons_self ..)), hreverse,
    List.dropWhile_append_of_pos htaken,
    List.takeWhile_append_of_pos htaken,
    List.dropWhile_cons_of_neg (p := fun b => decide (b ≠ sep)) hstop,
    List.takeWhile_cons_of_neg (p := fun b => decide (b ≠ sep)) hstop, List.tail_cons,
    List.reverse_reverse, List.append_nil,
    List.reverse_reverse]

theorem cutLast_none {sep : UInt8} {s : GoString} (hs : sep ∉ s) : cutLast sep s = none := if_neg hs

section Plain
variable {ip port : GoString}

theorem not_mem_plain (hip : ∀ b ∈ ip, isDigit b = true ∨ b = dot) {c : UInt8}
    (hdigit : isDigit c = false) (hdot : c ≠ dot) : c ∉ ip := by
  intro hc
  rcases hip c hc with h | h
  · exact isDigit_ne h hdigit rfl
  · exact hdot h

theorem head?_ne_leftBracket (hip : ∀ b ∈ ip, isDigit b = true ∨ b = dot) :
    ip.head? ≠ some leftBracket := by
  intro h
  exact not_mem_plain hip (by decide) (by decide) (List.mem_of_head? h)

theorem splitURLHost_plain (hip : ∀ b ∈ ip, isDigit b = true ∨ b = dot) :
    splitURLHost ip = (ip, []) := by
  rw [splitURLHost, cutLast_none (not_mem_plain hip (by decide) (by decide))]
  dsimp only [Option.filter_none, Option.map_none, Option.getD_none]
  rw [if_neg fun h => head?_ne_leftBracket hip h.1]

theorem splitURLHost_port (hip : ∀ b ∈ ip, isDigit b = true ∨ b = dot)
    (hport : ∀ b ∈ port, isDigit b = true) : splitURLHost (ip ++ colon :: port) = (ip, port) := by
  have hcolon : colon ∉ port := fun h => isDigit_ne (hport colon h) (by decide) rfl
  have hdigits : port.all isDigit = true := List.all_eq_true.mpr hport
  rw [splitURLHost, cutLast_append colon ip hcolon,
    Option.filter_some_pos (p := fun parts : GoString × GoString => parts.2.all isDigit) hdigits]
  dsimp only [Option.map_some, Option.getD_some]
  rw [if_neg fun h => head?_ne_leftBracket hip h.1]

end Plain

theorem port_digits (u : ParsedTarget) : ∀ b ∈ u.port, isDigit b = true := by
  intro b hb
  rw [ParsedTarget.port, splitURLHost] at hb
  cases hcut : (cutLast colon u.host).filter fun parts => parts.2.all isDigit with
  | none =>
    rw [hcut] at hb
    exact absurd hb List.not_mem_nil
  | some parts =>
    rw [hcut] at hb
    exact List.all_eq_true.mp (Option.filter_eq_some_iff.mp hcut).2 b hb

end Portlyn.Go
