import Portlyn.Go.Url

/-! # Request paths (`manager.go`, `routing_runtime.go`, `transport.go`)

Two normalisers look at one request path. `normalizePath` gives the path the policy sees: it trims
white space, turns backslashes into slashes and drops empty segments. `canonicalRequestPath` gives
the path that is forwarded: it refuses dot segments, keeps a trailing slash and does not trim.
`stripRoutePrefix` then removes the route's own path, as a string prefix.

`forwardURL_agrees_iff` says exactly when the two views agree. -/
namespace Portlyn.Proxy
open Go
set_option autoImplicit false

/-! ## The functions of the source -/

def segments (path : GoString) : List GoString := fields slash path

def normalizePath (value : GoString) : GoString :=
  let segs := segments (replaceByte backslash slash (trimSpace value))
  if segs = [] then [slash] else slash :: [slash].intercalate segs

/-- A segment that is `.` or `..` once its `;parameters` are cut off. -/
def isDotSegment (segment : GoString) : Bool :=
  cutBefore semicolon segment = [dot] || cutBefore semicolon segment = [dot, dot]

def canonicalRequestPath (value : GoString) : Option GoString :=
  let cleaned := replaceByte backslash slash value
  let segs := segments cleaned
  if segs.any isDotSegment then none
  else if segs = [] then some [slash]
  else
    let canonical := slash :: [slash].intercalate segs
    some (if hasSuffix cleaned [slash] then canonical ++ [slash] else canonical)

def stripPathParams (value : GoString) : GoString :=
  [slash].intercalate ((value.splitOn slash).map (cutBefore semicolon))

def matchesPath (routePath requestPath : GoString) : Bool :=
  routePath = [slash] || requestPath = routePath ||
    hasPrefix requestPath (trimRightByte slash routePath ++ [slash])

def stripRoutePrefix (routePath requestPath : GoString) : GoString :=
  if requestPath = [] ∨ routePath = [slash] then
    if requestPath = [] then [slash] else requestPath
  else if requestPath = routePath then [slash]
  else
    let trimmedRoutePath := trimRightByte slash routePath
    if hasPrefix requestPath (trimmedRoutePath ++ [slash]) then
      let trimmed := requestPath.drop trimmedRoutePath.length
      if trimmed = [] then [slash] else trimmed
    else requestPath

/-- What `Manager.Handler` does to the URL before it calls the route's proxy. -/
def canonicalizeURL (canonicalPath : GoString) (u : URL) : URL :=
  if hasPrefix u.path [slash] ∧ canonicalPath ≠ u.path then { path := canonicalPath, rawPath := [] } else u

/-- What the `Director` of `reverseProxyForTarget` does to the URL before the target's own base path
is prepended. The prefix it strips is the route's path normalised once more. -/
def directURL (routePath : GoString) (u : URL) : URL where
  path := stripRoutePrefix (normalizePath routePath) u.path
  rawPath := if u.rawPath ≠ [] then stripRoutePrefix (normalizePath routePath) u.rawPath else u.rawPath

/-- The URL forwarded for a request that `canonicalRequestPath` accepts. -/
def forwardURL (routePath : GoString) (u : URL) : Option URL :=
  (canonicalRequestPath u.path).map fun canonicalPath =>
    directURL routePath (canonicalizeURL canonicalPath u)

/-! ## Segment lists -/

def Clean (segs : List GoString) : Prop := ∀ s ∈ segs, s ≠ [] ∧ slash ∉ s

def renderPath (segs : List GoString) : GoString := if segs = [] then [slash] else joinParts slash segs

theorem clean_segments (path : GoString) : Clean (segments path) := by
  intro s hs
  exact ⟨mem_fields_ne_nil hs, fun h => (mem_of_mem_fields hs h).2 rfl⟩

variable {segs : List GoString}

theorem segments_renderPath (h : Clean segs) : segments (renderPath segs) = segs := by
  unfold renderPath segments
  split_ifs with hs
  · rw [hs]
    rfl
  · exact fields_joinParts_self h

theorem segments_joinParts_slash (h : Clean segs) (t : GoString) :
    segments (joinParts slash segs ++ slash :: t) = segs ++ segments t := fields_joinParts h t

theorem normalizePath_eq (value : GoString) :
    normalizePath value = renderPath (segments (replaceByte backslash slash (trimSpace value))) := by
  unfold normalizePath renderPath
  by_cases hs : segments (replaceByte backslash slash (trimSpace value)) = []
  · simp [hs]
  · simp only [if_neg hs]
    exact cons_intercalate slash hs

theorem segments_normalizePath (value : GoString) :
    segments (normalizePath value) = segments (replaceByte backslash slash (trimSpace value)) := by
  rw [normalizePath_eq, segments_renderPath (clean_segments _)]

theorem trimRightByte_joinParts (h : Clean segs) :
    trimRightByte slash (joinParts slash segs) = joinParts slash segs := by
  rcases List.eq_nil_or_concat segs with rfl | ⟨init, s, rfl⟩
  · rfl
  · obtain ⟨hne, hsl⟩ := h s (by simp)
    have hrw : joinParts slash (init.concat s) = joinParts slash init ++ slash :: s := by
      rw [List.concat_eq_append, joinParts_append]
      simp
    rw [hrw, trimRightByte, List.rdropWhile_eq_self_iff]
    intro hl
    have hlast : (joinParts slash init ++ slash :: s).getLast hl = s.getLast hne := by
      rw [List.getLast_append_of_ne_nil _ (by simp), List.getLast_cons hne]
    rw [hlast]
    have hmem := List.getLast_mem hne
    simpa using fun e : s.getLast hne = slash => hsl (e ▸ hmem)

variable {rs ps : List GoString}

theorem joinParts_prefix_iff (hr : Clean rs) (hp : Clean ps) :
    joinParts slash rs ++ [slash] <+: joinParts slash ps ↔ rs <+: ps ∧ rs ≠ ps := by
  constructor
  · rintro ⟨t, ht⟩
    have hseg : segments (joinParts slash ps) = rs ++ segments t := by
      rw [← ht, List.append_assoc]
      exact segments_joinParts_slash hr t
    rw [segments, fields_joinParts_self hp] at hseg
    refine ⟨⟨segments t, hseg.symm⟩, ?_⟩
    intro he
    have hlen := congrArg List.length ht
    rw [he] at hlen
    simp at hlen
  · rintro ⟨⟨rest, rfl⟩, hne⟩
    cases rest with
    | nil => simp at hne
    | cons s rest =>
      rw [joinParts_append]
      exact ⟨s ++ joinParts slash rest, by simp⟩

theorem renderPath_inj (hr : Clean rs) (hp : Clean ps)
    (h : renderPath rs = renderPath ps) : rs = ps := by
  have hs := congrArg segments h
  rwa [segments_renderPath hr, segments_renderPath hp] at hs

theorem renderPath_eq_slash_iff (hr : Clean rs) : renderPath rs = [slash] ↔ rs = [] := by
  constructor
  · intro h
    exact renderPath_inj hr (by simp [Clean]) (by simpa [renderPath] using h)
  · rintro rfl
    rfl

theorem matchesPath_iff (hr : Clean rs) (hp : Clean ps) :
    matchesPath (renderPath rs) (renderPath ps) = true ↔ rs <+: ps := by
  unfold matchesPath
  by_cases hr0 : rs = []
  · subst hr0
    simp [renderPath]
  · have hrr : renderPath rs = joinParts slash rs := if_neg hr0
    have hslash : renderPath rs ≠ [slash] := fun e => hr0 ((renderPath_eq_slash_iff hr).mp e)
    simp only [hslash, decide_false, Bool.false_or, Bool.or_eq_true, decide_eq_true_eq, hasPrefix_iff]
    rw [hrr, trimRightByte_joinParts hr]
    by_cases hp0 : ps = []
    · subst hp0
      have hno : ¬ joinParts slash rs ++ [slash] <+: renderPath [] := by
        intro h
        have hlen := h.length_le
        have hpos : 0 < (joinParts slash rs).length := by
          cases rs with
          | nil => exact absurd rfl hr0
          | cons r rs => simp
        simp [renderPath] at hlen
        exact absurd hlen (List.length_pos_iff.mp hpos)
      simp only [hno, or_false, List.prefix_nil, hr0, iff_false]
      intro h
      exact hr0 (renderPath_inj hr (by simp [Clean]) (by rw [hrr]; exact h.symm))
    · have hpr : renderPath ps = joinParts slash ps := if_neg hp0
      rw [hpr, joinParts_prefix_iff hr hp]
      constructor
      · rintro (h | h)
        · have he := renderPath_inj hp hr (by rw [hpr, hrr]; exact h)
          rw [he]
        · exact h.1
      · intro h
        by_cases he : rs = ps
        · exact Or.inl (by rw [he])
        · exact Or.inr ⟨h, he⟩

/-! ## The canonical path -/

variable {canonical : GoString}

theorem canonicalRequestPath_segments {value : GoString}
    (h : canonicalRequestPath value = some canonical) :
    segments canonical = segments (replaceByte backslash slash value) ∧
      (∀ s ∈ segments canonical, isDotSegment s = false) ∧
      (canonical = renderPath (segments canonical) ∨
        segments canonical ≠ [] ∧ canonical = joinParts slash (segments canonical) ++ [slash]) := by
  unfold canonicalRequestPath at h
  dsimp only at h
  set segs := segments (replaceByte backslash slash value) with hsegs
  have hclean : Clean segs := clean_segments _
  split_ifs at h with hdot hnil hsuf
  · simp only [Option.some.injEq] at h
    subst h
    rw [hnil]
    exact ⟨rfl, by simp [segments], Or.inl rfl⟩
  -- a trailing slash of the request is kept, but adds no segment
  all_goals
    have hnodot : ∀ s ∈ segs, isDotSegment s = false := by
      intro s hs
      simpa using fun e => hdot (List.any_eq_true.mpr ⟨s, hs, e⟩)
    simp only [Option.some.injEq] at h
    rw [cons_intercalate slash hnil] at h
    subst h
  · have hseg : segments (joinParts slash segs ++ [slash]) = segs := by
      rw [segments_joinParts_slash hclean]
      simp [segments]
    rw [hseg]
    exact ⟨rfl, hnodot, Or.inr ⟨hnil, rfl⟩⟩
  · have hseg : segments (joinParts slash segs) = segs := fields_joinParts_self hclean
    rw [hseg]
    exact ⟨rfl, hnodot, Or.inl (if_neg hnil).symm⟩

theorem segments_stripRoutePrefix {cs : List GoString} (hr : Clean rs) (hc : Clean cs) (hpre : rs <+: cs)
    (hcan : canonical = renderPath cs ∨ cs ≠ [] ∧ canonical = joinParts slash cs ++ [slash]) :
    rs ++ segments (stripRoutePrefix (renderPath rs) canonical) = cs := by
  have hseg : segments canonical = cs := by
    rcases hcan with rfl | ⟨-, rfl⟩
    · exact segments_renderPath hc
    · rw [segments_joinParts_slash hc]
      simp [segments]
  have hne : canonical ≠ [] := by
    rcases hcan with rfl | ⟨-, rfl⟩
    · unfold renderPath
      split_ifs with h
      · simp
      · cases cs with
        | nil => exact absurd rfl h
        | cons c cs => simp
    · simp
  unfold stripRoutePrefix
  by_cases hr0 : rs = []
  · subst hr0
    simp [renderPath, hne, hseg]
  · have hrr : renderPath rs = joinParts slash rs := if_neg hr0
    have hslash : renderPath rs ≠ [slash] := fun e => hr0 ((renderPath_eq_slash_iff hr).mp e)
    have hc0 : cs ≠ [] := by
      rintro rfl
      exact hr0 (List.prefix_nil.mp hpre)
    rw [if_neg (by simp [hne, hslash])]
    by_cases heq : canonical = renderPath rs
    · rw [if_pos heq]
      have hcr : cs = rs := by rw [← hseg, heq, segments_renderPath hr]
      rw [hcr]
      simp [segments]
    · rw [hrr, trimRightByte_joinParts hr]
      obtain ⟨rest, rfl⟩ := hpre
      -- either more segments follow, or the request only adds the trailing slash
      obtain ⟨t, ht⟩ : ∃ t, canonical = joinParts slash rs ++ slash :: t := by
        rcases hcan with hcan | ⟨-, hcan⟩
        · rw [renderPath, if_neg hc0, joinParts_append] at hcan
          cases rest with
          | nil => exact absurd (by rw [hcan, hrr]; simp) heq
          | cons s rest => exact ⟨s ++ joinParts slash rest, by rw [hcan]; simp⟩
        · rw [joinParts_append] at hcan
          cases rest with
          | nil => exact ⟨[], by rw [hcan]; simp⟩
          | cons s rest => exact ⟨s ++ joinParts slash rest ++ [slash], by rw [hcan]; simp⟩
      have hpfx : hasPrefix canonical (joinParts slash rs ++ [slash]) = true := by
        rw [hasPrefix_iff, ht]
        exact ⟨t, by simp⟩
      simp only [hpfx, if_true]
      rw [ht, segments_joinParts_slash hr] at hseg
      rw [ht]
      simpa [segments] using hseg

/-! ## Counting bytes

Where the two views disagree they hold different numbers of bytes: every byte of a path that is no
slash or backslash ends up in exactly one segment, white space that is trimmed in none. -/

def bodyLen (s : GoString) : ℕ := (s.filter fun b => b ≠ slash ∧ b ≠ backslash).length

theorem bodyLen_append (s t : GoString) : bodyLen (s ++ t) = bodyLen s + bodyLen t := by
  simp [bodyLen]

theorem bodyLen_eq_length {s : GoString} (h1 : slash ∉ s) (h2 : backslash ∉ s) : bodyLen s = s.length := by
  have h : s.filter (fun b => b ≠ slash ∧ b ≠ backslash) = s := by
    rw [List.filter_eq_self]
    intro b hb
    have hb1 : b ≠ slash := fun e => h1 (e ▸ hb)
    have hb2 : b ≠ backslash := fun e => h2 (e ▸ hb)
    simp [hb1, hb2]
  rw [bodyLen, h]

theorem length_segments_replace (s : GoString) :
    (segments (replaceByte backslash slash s)).flatten.length = bodyLen s := by
  rw [segments, flatten_fields, replaceByte, List.filter_map, List.length_map]
  congr 1
  apply List.filter_congr
  intro b _
  by_cases hb : b = backslash
  · subst hb
    decide
  · simp [hb]

theorem bodyLen_le_segments (s : GoString) : bodyLen s ≤ (segments s).flatten.length ∧
    (bodyLen s = (segments s).flatten.length → backslash ∉ s) := by
  rw [segments, flatten_fields, bodyLen]
  induction s with
  | nil => simp
  | cons b s ih =>
    obtain ⟨hle, heq⟩ := ih
    by_cases hb : b = backslash
    · subst hb
      have hbs : backslash ≠ slash := by decide
      simp only [List.filter_cons, hbs, ne_eq, not_true_eq_false, not_false_eq_true, and_false, decide_false,
        decide_true, if_true, List.length_cons, Bool.false_eq_true, if_false]
      refine ⟨by simp only [ne_eq] at hle; omega, fun h => ?_⟩
      simp only [ne_eq] at hle h
      omega
    · by_cases hb' : b = slash
      · subst hb'
        refine ⟨hle, fun h => ?_⟩
        simp [heq h, Ne.symm hb]
      · simp only [ne_eq] at hle heq
        simp only [List.filter_cons, hb, hb', ne_eq, not_false_eq_true, and_true, decide_true, if_true,
          List.length_cons, List.mem_cons]
        refine ⟨by omega, fun h => ?_⟩
        have := heq (by omega)
        simp [this, eq_comm, hb]

theorem bodyLen_trimSpace (s : GoString) :
    bodyLen (trimSpace s) ≤ bodyLen s ∧ (bodyLen (trimSpace s) = bodyLen s → trimSpace s = s) := by
  obtain ⟨l, r, hs, hl, hr⟩ := trimSpace_spec s
  have hlen : bodyLen s = l.length + bodyLen (trimSpace s) + r.length := by
    conv_lhs => rw [hs]
    rw [bodyLen_append, bodyLen_append, bodyLen_eq_length (hl _ notSpace_slash) (hl _ notSpace_backslash),
      bodyLen_eq_length (hr _ notSpace_slash) (hr _ notSpace_backslash)]
  refine ⟨by omega, fun h => ?_⟩
  have hl0 : l = [] := List.eq_nil_of_length_eq_zero (by omega)
  have hr0 : r = [] := List.eq_nil_of_length_eq_zero (by omega)
  rw [hl0, hr0] at hs
  simpa using hs.symm

theorem length_stripRoutePrefix {ns : List GoString} (hn : Clean ns) (x : GoString) :
    (segments x).flatten.length ≤ (segments (stripRoutePrefix (renderPath ns) x)).flatten.length +
      ns.flatten.length := by
  by_cases hx : x = []
  · subst hx
    simp [segments]
  by_cases hn0 : ns = []
  · subst hn0
    simp [stripRoutePrefix, renderPath, hx]
  have hnr : renderPath ns = joinParts slash ns := if_neg hn0
  have hslash : renderPath ns ≠ [slash] := fun e => hn0 ((renderPath_eq_slash_iff hn).mp e)
  unfold stripRoutePrefix
  rw [if_neg (by simp [hx, hslash])]
  by_cases heq : x = renderPath ns
  · rw [if_pos heq, heq, segments_renderPath hn]
    simp
  · rw [if_neg heq, hnr, trimRightByte_joinParts hn]
    by_cases hpfx : hasPrefix x (joinParts slash ns ++ [slash]) = true
    · obtain ⟨t, rfl⟩ := (hasPrefix_iff _ _).mp hpfx
      simp only [List.append_assoc, List.singleton_append, List.drop_left, reduceCtorEq, if_false]
      rw [segments_joinParts_slash hn, List.flatten_append, List.length_append]
      simp [segments]
      omega
    · simp [hpfx]

/-! ## What is forwarded -/

theorem segments_stripRoutePrefix_subset (routePath x : GoString) :
    segments (stripRoutePrefix routePath x) ⊆ segments x := by
  unfold stripRoutePrefix
  dsimp only
  split_ifs with h1 h2 h3 h4 h5
  · simp [segments]
  · exact fun s hs => hs
  · simp [segments]
  · simp [segments]
  · obtain ⟨t, rfl⟩ := (hasPrefix_iff _ _).mp h4
    intro s hs
    have hs' : s ∈ segments t := by
      simpa [segments] using hs
    rw [List.append_assoc, List.singleton_append, segments, fields_append_sep]
    exact List.mem_append_right _ hs'
  · exact fun s hs => hs

theorem exists_dotSegment_replace {s : GoString} (h : isDotSegment s = true) :
    ∃ t ∈ segments (replaceByte backslash slash s), isDotSegment t = true := by
  rw [isDotSegment, Bool.or_eq_true, decide_eq_true_eq, decide_eq_true_eq] at h
  refine ⟨cutBefore slash (replaceByte backslash slash s), cutBefore_mem_fields ?_, ?_⟩
  · rcases h with h | h <;> rcases cutBefore_cases semicolon s with hs | ⟨r, hs⟩ <;> rw [h] at hs <;> rw [hs] <;>
      simp [cutBefore, replaceByte, dot, slash, backslash]
  · rcases h with h | h <;> rcases cutBefore_cases semicolon s with hs | ⟨r, hs⟩ <;> rw [h] at hs <;> rw [hs] <;>
      simp [isDotSegment, cutBefore, replaceByte, dot, slash, backslash, semicolon]

theorem forwardURL_no_dotSegment {routePath : GoString} {u v : URL}
    (h : forwardURL routePath u = some v) : ∀ s ∈ segments v.path, isDotSegment s = false := by
  obtain ⟨canonical, hcan, rfl⟩ := Option.map_eq_some_iff.mp h
  obtain ⟨hseg, hdot, -⟩ := canonicalRequestPath_segments hcan
  intro s hs
  have hs' := segments_stripRoutePrefix_subset _ _ hs
  unfold canonicalizeURL at hs'
  split_ifs at hs' with hc
  · exact hdot s hs'
  · by_contra hd
    rw [Bool.not_eq_false] at hd
    obtain ⟨t, ht, htd⟩ := exists_dotSegment_replace hd
    have hmem : t ∈ segments (replaceByte backslash slash u.path) := by
      rw [segments, fields_replaceByte (by decide)]
      exact List.mem_flatMap.mpr ⟨s, (List.mem_filter.mp hs').1, ht⟩
    rw [← hseg] at hmem
    rw [hdot t hmem] at htd
    exact Bool.false_ne_true htd

theorem backslash_not_mem_renderPath (value : GoString) :
    backslash ∉ renderPath (segments (replaceByte backslash slash value)) := by
  intro h
  unfold renderPath at h
  split_ifs at h with hs
  · exact absurd h (by decide)
  · obtain ⟨part, hpart, hb⟩ := List.mem_flatMap.mp h
    rcases List.mem_cons.mp hb with hb | hb
    · exact absurd hb (by decide)
    · exact not_mem_replaceByte (by decide) value (mem_of_mem_fields hpart hb).1

theorem eq_nil_of_length_flatten (h : Clean segs) (h0 : segs.flatten.length = 0) :
    segs = [] := by
  cases segs with
  | nil => rfl
  | cons s segs =>
    have hs := (h s (by simp)).1
    rw [List.flatten_cons, List.length_append] at h0
    exact absurd (List.eq_nil_of_length_eq_zero (by omega)) hs

theorem segments_stripRoutePrefix_of_not_slash {ns : List GoString} (hn : Clean ns) {x : GoString}
    (hx : ¬ hasPrefix x [slash] = true) :
    segments (stripRoutePrefix (renderPath ns) x) = segments x := by
  unfold stripRoutePrefix
  by_cases hx0 : x = []
  · subst hx0
    simp [segments]
  by_cases hn0 : ns = []
  · subst hn0
    simp [renderPath, hx0]
  obtain ⟨n, ns', rfl⟩ := List.exists_cons_of_ne_nil hn0
  have hnr : renderPath (n :: ns') = slash :: (n ++ joinParts slash ns') := if_neg hn0
  have hslash : renderPath (n :: ns') ≠ [slash] := fun e => hn0 ((renderPath_eq_slash_iff hn).mp e)
  have hne : x ≠ renderPath (n :: ns') := by
    rintro rfl
    exact hx (by rw [hnr]; simp)
  have htrim : trimRightByte slash (renderPath (n :: ns')) = slash :: (n ++ joinParts slash ns') := by
    have h := trimRightByte_joinParts hn
    rw [joinParts_cons] at h
    rw [hnr, h]
  have hpfx : ¬ hasPrefix x (slash :: (n ++ joinParts slash ns') ++ [slash]) = true := by
    rw [hasPrefix_iff]
    rintro ⟨t, rfl⟩
    exact hx (by simp)
  rw [if_neg (by simp [hx0, hslash]), if_neg hne, htrim]
  simp only [hpfx, Bool.false_eq_true, if_false]

theorem bodyLen_le_canonicalizeURL {u : URL}
    (hseg : segments canonical = segments (replaceByte backslash slash u.path)) :
    bodyLen u.path ≤ (segments (canonicalizeURL canonical u).path).flatten.length := by
  unfold canonicalizeURL
  split_ifs with hc
  · simp only [hseg, length_segments_replace]
    exact le_rfl
  · exact (bodyLen_le_segments u.path).1

theorem forwardURL_agrees_iff {raw : GoString} {u v : URL} (hfwd : forwardURL (normalizePath raw) u = some v)
    (hmatch : matchesPath (normalizePath raw) (normalizePath u.path) = true) :
    segments (normalizePath u.path) = segments (normalizePath raw) ++ segments v.path ↔
      trimSpace u.path = u.path ∧ trimSpace (normalizePath raw) = normalizePath raw ∧
        (hasPrefix u.path [slash] = true ∨ normalizePath raw = [slash] ∧ backslash ∉ u.path) := by
  obtain ⟨canonical, hcan, rfl⟩ := Option.map_eq_some_iff.mp hfwd
  obtain ⟨hseg, -, hform⟩ := canonicalRequestPath_segments hcan
  set rs := segments (replaceByte backslash slash (trimSpace raw)) with hrs
  have hr : Clean rs := clean_segments _
  have hR : normalizePath raw = renderPath rs := normalizePath_eq raw
  have hback : backslash ∉ renderPath rs := backslash_not_mem_renderPath _
  set ns := segments (replaceByte backslash slash (trimSpace (renderPath rs))) with hns
  have hn : Clean ns := clean_segments _
  have hN : normalizePath (renderPath rs) = renderPath ns := normalizePath_eq _
  rw [hR, normalizePath_eq u.path] at hmatch
  rw [hR, segments_renderPath hr, segments_normalizePath]
  have hpre := (matchesPath_iff hr (clean_segments _)).mp hmatch
  simp only [directURL, hN]
  have hrsLen : rs.flatten.length = bodyLen (renderPath rs) := by
    rw [← length_segments_replace, replaceByte_of_not_mem hback, segments_renderPath hr]
  constructor
  · intro hagree
    have hlen := congrArg (fun l => (List.flatten l).length) hagree
    simp only [List.flatten_append, List.length_append, length_segments_replace] at hlen
    have hstrip := length_stripRoutePrefix hn (canonicalizeURL canonical u).path
    have hbody := bodyLen_le_canonicalizeURL hseg
    have hnsLen : ns.flatten.length = bodyLen (trimSpace (renderPath rs)) := length_segments_replace _
    obtain ⟨hp1, hp2⟩ := bodyLen_trimSpace u.path
    obtain ⟨hr1, hr2⟩ := bodyLen_trimSpace (renderPath rs)
    refine ⟨hp2 (by omega), hr2 (by omega), ?_⟩
    by_cases hsl : hasPrefix u.path [slash] = true
    · exact Or.inl hsl
    · have hcu : canonicalizeURL canonical u = u := by simp [canonicalizeURL, hsl]
      rw [hcu] at hstrip hbody hlen
      rw [segments_stripRoutePrefix_of_not_slash hn hsl] at hlen
      have hr0 : rs = [] := eq_nil_of_length_flatten hr (by omega)
      exact Or.inr ⟨by rw [hr0]; rfl, (bodyLen_le_segments u.path).2 (by omega)⟩
  · rintro ⟨hpt, hrt, hstart⟩
    have hnr : ns = rs := by
      rw [hns, hrt, replaceByte_of_not_mem hback, segments_renderPath hr]
    rw [hpt] at hpre ⊢
    rw [hnr]
    by_cases hsl : hasPrefix u.path [slash] = true
    · have hcu : (canonicalizeURL canonical u).path = canonical := by
        unfold canonicalizeURL
        split_ifs with hc
        · rfl
        · simpa [hsl, eq_comm] using hc
      rw [← hseg] at hpre ⊢
      rw [hcu]
      exact (segments_stripRoutePrefix hr (clean_segments _) hpre hform).symm
    · have hcu : canonicalizeURL canonical u = u := by simp [canonicalizeURL, hsl]
      obtain ⟨hroot, hnb⟩ := hstart.resolve_left hsl
      have hr0 := (renderPath_eq_slash_iff hr).mp hroot
      rw [hcu, segments_stripRoutePrefix_of_not_slash hr hsl, replaceByte_of_not_mem hnb, hr0]
      rfl

end Portlyn.Proxy
