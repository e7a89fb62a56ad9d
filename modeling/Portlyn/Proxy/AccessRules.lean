import Portlyn.Go.Utf8
import Portlyn.Proxy.Path

/-! # Access rules (`access_rules.go`)

A rule names sources, path patterns and an action; the first rule that hits decides. Rules are
matched against the request path as it is and against the path without its `;parameters`, because
upstreams that know path parameters serve the latter. A deny or authenticate rule hits when either
path matches, an allow rule when both do.

The path without parameters is not normalised again before it is matched. `alwaysParamsIgnored_iff`
says for which request paths that makes no difference. -/
namespace Portlyn.Proxy
open Go
set_option autoImplicit false

/-! ## Address lists (`manager.go`, `access.go`, `access_rules.go`)

Allow lists, block lists and the sources of access rules are texts, one address or network each.
They are compiled to prefixes once and asked for every request. -/

/-- One entry of `compileCIDRs`. -/
def compileCIDR (trimmed : GoString) : Option Prefix :=
  if slash ∈ trimmed then (parsePrefix trimmed).map Prefix.masked
  else (parseAddr trimmed).map fun addr => prefixFrom addr addr.bitLen le_rfl

def compileCIDRs (values : List GoString) : Option (List Prefix) :=
  ((values.map trimSpace).filter (· ≠ [])).mapM compileCIDR

def matchesAnyPrefix (ip : Addr) (prefixes : List Prefix) : Bool := prefixes.any (·.contains ip)

/-- `ParseAccessRuleSources`: the prefixes to include and those to exclude, or the first text that
is neither an address nor a network. -/
def parseAccessRuleSources : List GoString → Except GoString (List Prefix × List Prefix)
  | [] => .ok ([], [])
  | raw :: rest =>
    let value := trimSpace raw
    if value = [] then parseAccessRuleSources rest
    else
      let negate := hasPrefix value [0x21]
      let value := trimSpace (if negate then value.drop 1 else value)
      match compileCIDRs [value] with
      | some (p :: ps) =>
        (parseAccessRuleSources rest).map fun (inc, exc) =>
          if negate then (inc, p :: ps ++ exc) else (p :: ps ++ inc, exc)
      | _ => .error raw

/-! ## The functions of the source -/

inductive AccessRuleAction
  | allow
  | authenticate
  | deny
deriving DecidableEq, Repr

def AccessRuleAction.text : AccessRuleAction → GoString
  | .allow => str "allow"
  | .authenticate => str "authenticate"
  | .deny => str "deny"

structure AccessRule where
  name : GoString
  action : GoString
  sources : List GoString
  paths : List GoString

structure CompiledAccessRule where
  index : ℕ
  name : GoString
  action : AccessRuleAction
  included : List Prefix
  excluded : List Prefix
  patterns : List (List GoString)
  anyPath : Bool
deriving DecidableEq

/-- Why a rule does not compile; the number is the rule's position, counted from one. -/
inductive AccessRuleError
  | unknownAction (index : ℕ) (action : GoString)
  | invalidSource (index : ℕ) (raw : GoString)
deriving DecidableEq

def star : GoString := [0x2A]

def compileAccessRulePath (raw : GoString) : Option (List GoString) :=
  let value := trimSpace raw
  if value = [] then none else some (fields slash value)

section Tables
variable [UnicodeTables]

def parseAccessRuleAction (raw : GoString) : Option AccessRuleAction :=
  let action := toLower (trimSpace raw)
  [AccessRuleAction.allow, .authenticate, .deny].find? fun a => a.text = action

def compileAccessRule (index : ℕ) (rule : AccessRule) : Except AccessRuleError CompiledAccessRule :=
  match parseAccessRuleAction rule.action with
  | none => .error (.unknownAction index rule.action)
  | some action =>
    match parseAccessRuleSources rule.sources with
    | .error raw => .error (.invalidSource index raw)
    | .ok (inc, exc) =>
      let patterns := rule.paths.filterMap compileAccessRulePath
      .ok {
        index := index
        name := trimSpace rule.name
        action := action
        included := inc
        excluded := exc
        patterns := patterns
        anyPath := patterns.isEmpty }

def compileAccessRulesFrom : ℕ → List AccessRule → Except AccessRuleError (List CompiledAccessRule)
  | _, [] => .ok []
  | i, rule :: rules =>
    match compileAccessRule (i + 1) rule, compileAccessRulesFrom (i + 1) rules with
    | .ok compiled, .ok rest => .ok (compiled :: rest)
    | .error e, _ => .error e
    | _, .error e => .error e

def compileAccessRules (rules : List AccessRule) : Except AccessRuleError (List CompiledAccessRule) :=
  compileAccessRulesFrom 0 rules

def accessRulePathMatches (pattern segs : List GoString) (foldCase : Bool) : Bool :=
  if segs.length < pattern.length then false
  else
    (pattern.zip segs).all fun (part, seg) =>
      part = star || (foldCase && equalFold part seg) || part = seg

def pathSegments (path : GoString) : List GoString :=
  let segs := (trimByte slash path).splitOn slash
  if segs = [[]] then [] else segs

/-- The part of `matches` that looks at the client's address. -/
def CompiledAccessRule.matchesIP (r : CompiledAccessRule) (ip : Addr) : Bool :=
  (r.included = [] || matchesAnyPrefix ip r.included) && !matchesAnyPrefix ip r.excluded

def CompiledAccessRule.matches (r : CompiledAccessRule) (ip : Addr) (path : GoString) : Bool :=
  r.matchesIP ip &&
    (r.anyPath || r.patterns.any fun pattern => accessRulePathMatches pattern (pathSegments path) (r.action ≠ .allow))

/-- A rule hits two readings of one path: an allow rule must match both, any other rule either. -/
def CompiledAccessRule.hits (r : CompiledAccessRule) (ip : Addr) (raw plain : GoString) : Bool :=
  if r.action = .allow then r.matches ip raw && r.matches ip plain else r.matches ip raw || r.matches ip plain

def matchAccessRule (rules : List CompiledAccessRule) (ip : Addr) (path : GoString) : Option CompiledAccessRule :=
  rules.find? fun r => r.hits ip path (stripPathParams path)

end Tables

/-! ## Segments -/

theorem fields_dropWhile_sep (sep : UInt8) (s : GoString) : fields sep (s.dropWhile (· = sep)) = fields sep s := by
  induction s with
  | nil => rfl
  | cons b s ih =>
    by_cases hb : b = sep
    · subst hb
      rw [List.dropWhile_cons_of_pos (by simp), fields_cons_sep, ih]
    · rw [List.dropWhile_cons_of_neg (by simpa using hb)]

theorem fields_trimRightByte (sep : UInt8) (s : GoString) : fields sep (trimRightByte sep s) = fields sep s := by
  unfold trimRightByte
  induction s using List.reverseRecOn with
  | nil => rfl
  | append_singleton s b ih =>
    by_cases hb : b = sep
    · subst hb
      rw [List.rdropWhile_concat_pos _ _ _ (by simp), ih]
      simp
    · rw [List.rdropWhile_concat_neg _ _ _ (by simpa using hb)]

theorem segments_eq_filter (path : GoString) : segments path = (pathSegments path).filter (· ≠ []) := by
  have htrim : fields slash (trimByte slash path) = fields slash path := by
    rw [trimByte, fields_trimRightByte, fields_dropWhile_sep]
  rw [segments, ← htrim, fields, pathSegments]
  by_cases h : (trimByte slash path).splitOn slash = [[]]
  · simp [h]
  · simp [h]

theorem pathSegments_eq_segments {path : GoString} (h : [] ∉ pathSegments path) :
    pathSegments path = segments path := by
  rw [segments_eq_filter, eq_comm, List.filter_eq_self]
  intro s hs
  simpa using fun e : s = [] => h (e ▸ hs)

variable {segs : List GoString}

theorem pathSegments_renderPath (h : Clean segs) : pathSegments (renderPath segs) = segs := by
  by_cases hne : segs = []
  · subst hne
    decide
  · have hjoin : slash :: [slash].intercalate segs = joinParts slash segs := cons_intercalate slash hne
    have htr := trimRightByte_joinParts h
    rw [← hjoin, trimRightByte, List.rdropWhile_eq_self_iff] at htr
    obtain ⟨c, rest, rfl⟩ := List.exists_cons_of_ne_nil hne
    obtain ⟨hc, hcs⟩ := h c (by simp)
    obtain ⟨b, c', rfl⟩ := List.exists_cons_of_ne_nil hc
    have hb : ¬ b = slash := fun e => hcs (by simp [e])
    obtain ⟨x, hx⟩ : ∃ x, [slash].intercalate ((b :: c') :: rest) = b :: x := by
      cases rest with
      | nil => exact ⟨c', by simp⟩
      | cons d rest => exact ⟨_, by rw [List.intercalate_cons_cons]; rfl⟩
    have htrim : trimByte slash (slash :: b :: x) = b :: x := by
      rw [trimByte, List.dropWhile_cons_of_pos (by simp), List.dropWhile_cons_of_neg (by simpa using hb),
        trimRightByte, List.rdropWhile_eq_self_iff]
      intro hl
      rw [hx] at htr
      have hlast := htr (by simp)
      exact hlast
    have hsplit := List.splitOn_intercalate slash (fun l hl => (h l hl).2) hne
    rw [renderPath, if_neg hne, ← hjoin, hx, pathSegments, htrim, ← hx, hsplit]
    simp

theorem length_splitOn (sep : UInt8) (s : GoString) : (s.splitOn sep).length = s.count sep + 1 := by
  induction s with
  | nil => rfl
  | cons b s ih =>
    rw [List.splitOn_cons_eq_if_modifyHead]
    by_cases hb : b = sep
    · simp [hb, ih]
    · simp [hb, ih]

theorem length_pathSegments_le (x : GoString) : (pathSegments (slash :: x)).length ≤ x.count slash + 1 := by
  have hsub : (trimByte slash (slash :: x)).Sublist x := by
    rw [trimByte, List.dropWhile_cons_of_pos (by simp)]
    exact (List.rdropWhile_prefix _ _).sublist.trans (List.dropWhile_sublist _)
  have hcount := hsub.count_le slash
  have hlen := length_splitOn slash (trimByte slash (slash :: x))
  unfold pathSegments
  dsimp only
  split_ifs
  · simp
  · omega

theorem count_joinParts {parts : List GoString} (h : ∀ part ∈ parts, slash ∉ part) :
    (joinParts slash parts).count slash = parts.length := by
  induction parts with
  | nil => rfl
  | cons part parts ih =>
    have hpart : part.count slash = 0 := List.count_eq_zero.mpr (h part (by simp))
    rw [joinParts_cons, List.count_cons_self, List.count_append, hpart, ih fun p hp => h p (by simp [hp])]
    simp

theorem stripPathParams_joinParts (h : Clean segs) (hne : segs ≠ []) :
    stripPathParams (joinParts slash segs) = joinParts slash (segs.map (cutBefore semicolon)) := by
  have hsplit : (joinParts slash segs).splitOn slash = [] :: segs := by
    rw [← cons_intercalate slash hne]
    have happ := List.splitOn_append_cons_self (a := slash) [] ([slash].intercalate segs)
    rw [List.splitOn_intercalate slash (fun l hl => (h l hl).2) hne] at happ
    exact happ
  have hne' : segs.map (cutBefore semicolon) ≠ [] := by simpa using hne
  rw [stripPathParams, hsplit, List.map_cons, List.intercalate_cons_of_ne_nil hne', ← cons_intercalate slash hne']
  rfl

theorem stripPathParams_normalizePath_shape (value : GoString) :
    normalizePath value = [slash] ∨
    ∃ segs front y, normalizePath value = joinParts slash segs ∧ Clean segs ∧ segs ≠ [] ∧
      stripPathParams (normalizePath value) = joinParts slash front ++ slash :: y ∧ slash ∉ y ∧
      (∀ part ∈ front, slash ∉ part) ∧ front.length + 1 = segs.length ∧
      backslash ∉ stripPathParams (normalizePath value) := by
  set segs := segments (replaceByte backslash slash (trimSpace value)) with hsegs
  have hclean : Clean segs := clean_segments _
  have hp : normalizePath value = renderPath segs := normalizePath_eq value
  have hback : backslash ∉ renderPath segs := backslash_not_mem_renderPath _
  by_cases hne : segs = []
  · exact Or.inl (by rw [hp, hne]; rfl)
  · right
    have hr : renderPath segs = joinParts slash segs := if_neg hne
    obtain ⟨init, last, hil⟩ := (List.eq_nil_or_concat segs).resolve_left hne
    have hstrip := stripPathParams_joinParts hclean hne
    have hcut : ∀ seg ∈ segs, ∀ b ∈ cutBefore semicolon seg, b ∈ seg := fun seg _ b hb => mem_of_mem_cutBefore hb
    have hshape : stripPathParams (joinParts slash segs) =
        joinParts slash (init.map (cutBefore semicolon)) ++ slash :: cutBefore semicolon last := by
      rw [hstrip, hil, List.concat_eq_append, List.map_append, joinParts_append]
      simp
    refine ⟨segs, init.map (cutBefore semicolon), cutBefore semicolon last, by rw [hp, hr], hclean, hne,
      by rw [hp, hr, hshape], ?_, ?_, ?_, ?_⟩
    · intro hm
      have hl : last ∈ segs := by rw [hil]; simp
      exact (hclean last hl).2 (hcut last hl slash hm)
    · intro part hpart hm
      obtain ⟨seg, hseg, rfl⟩ := List.mem_map.mp hpart
      have hl : seg ∈ segs := by rw [hil]; simp [hseg]
      exact (hclean seg hl).2 (hcut seg hl slash hm)
    · rw [hil]
      simp
    · rw [hp, hr, hstrip]
      intro hm
      obtain ⟨part, hpart, hb⟩ := List.mem_flatMap.mp hm
      obtain ⟨seg, hseg, rfl⟩ := List.mem_map.mp hpart
      rcases List.mem_cons.mp hb with hb | hb
      · exact absurd hb (by decide)
      · rw [hr] at hback
        exact hback (List.mem_flatMap.mpr ⟨seg, hseg, List.mem_cons_of_mem _ (hcut seg hseg _ hb)⟩)

theorem segments_of_not_mem {z : GoString} (hz : slash ∉ z) (hne : z ≠ []) : segments z = [z] :=
  fields_of_not_mem hne hz

theorem slash_not_mem_trimRightSpace {y : GoString} (hy : slash ∉ y) : slash ∉ trimRightSpace y := by
  obtain ⟨us, hus, -⟩ := trimRightSpace_spec y
  intro h
  exact hy (by rw [hus]; exact List.mem_append_left _ h)

theorem length_segments_trimRightSpace_le {y : GoString} (hy : slash ∉ y) :
    (segments (trimRightSpace y)).length ≤ (segments y).length := by
  by_cases ht : trimRightSpace y = []
  · rw [ht]
    simp [segments]
  · have hne : y ≠ [] := by
      rintro rfl
      exact ht (by decide)
    rw [segments_of_not_mem (slash_not_mem_trimRightSpace hy) ht, segments_of_not_mem hy hne]
    simp

theorem trimSpace_joinParts (front : List GoString) (y : GoString) :
    trimSpace (joinParts slash front ++ slash :: y) = joinParts slash front ++ slash :: trimRightSpace y := by
  have hfront : trimLeftSpace (joinParts slash front) = joinParts slash front := by
    cases front with
    | nil => rfl
    | cons part front =>
      have hl := trimLeftSpace_append_cons notSpace_slash [] (part ++ joinParts slash front)
      rw [List.nil_append] at hl
      rfl
  rw [trimSpace_append_cons notSpace_slash, hfront]

theorem segments_joinParts_cons (front : List GoString) (y : GoString) :
    segments (joinParts slash front ++ slash :: y) = segments (joinParts slash front) ++ segments y := by
  rw [segments, fields_append_sep]
  rfl

theorem length_pathSegments_joinParts_le {front : List GoString} {y : GoString}
    (hclean : Clean segs) (hne : segs ≠ []) (hfront : ∀ part ∈ front, slash ∉ part) (hy : slash ∉ y)
    (hlen : front.length + 1 = segs.length) :
    (pathSegments (joinParts slash front ++ slash :: y)).length ≤
      (pathSegments (joinParts slash segs)).length := by
  have hrender := pathSegments_renderPath hclean
  rw [renderPath, if_neg hne] at hrender
  obtain ⟨x, hx⟩ : ∃ x, joinParts slash front ++ slash :: y = slash :: x := by
    cases front with
    | nil => exact ⟨y, rfl⟩
    | cons part front => exact ⟨_, rfl⟩
  have hcount := congrArg (List.count slash) hx
  rw [List.count_append, count_joinParts hfront, List.count_cons_self, List.count_cons_self,
    List.count_eq_zero.mpr hy] at hcount
  have hle := length_pathSegments_le x
  rw [hrender, hx]
  omega

/-! ## Patterns of wildcards -/

theorem clean_wildcards (n : ℕ) : Clean (List.replicate n star) := by
  intro s hs
  rw [List.eq_of_mem_replicate hs]
  decide

theorem clean_wildcards_last (n : ℕ) {part : GoString} (h : part ≠ [] ∧ slash ∉ part) :
    Clean (List.replicate n star ++ [part]) := by
  intro s hs
  rcases List.mem_append.mp hs with hs | hs
  · exact clean_wildcards n s hs
  · rw [List.mem_singleton.mp hs]
    exact h

section Matching
variable [UnicodeTables]

theorem accessRulePathMatches_wildcards (n : ℕ) (segs : List GoString) (foldCase : Bool) :
    accessRulePathMatches (List.replicate n star) segs foldCase = true ↔ n ≤ segs.length := by
  unfold accessRulePathMatches
  rw [List.length_replicate]
  split_ifs with h
  · simpa using h
  · refine ⟨fun _ => by omega, fun _ => ?_⟩
    rw [List.all_eq_true]
    rintro ⟨part, seg⟩ hmem
    have hpart := List.eq_of_mem_replicate (List.of_mem_zip hmem).1
    simp [hpart]

theorem accessRulePathMatches_last {n : ℕ} {segs : List GoString} {seg : GoString}
    (h : segs[n]? = some seg) (part : GoString) (foldCase : Bool) :
    accessRulePathMatches (List.replicate n star ++ [part]) segs foldCase = true ↔
      part = star ∨ foldCase = true ∧ equalFold part seg = true ∨ part = seg := by
  induction n generalizing segs with
  | zero =>
    cases segs with
    | nil => simp at h
    | cons s segs =>
      rw [List.getElem?_cons_zero, Option.some.injEq] at h
      simp [accessRulePathMatches, h, or_assoc]
  | succ n ih =>
    cases segs with
    | nil => simp at h
    | cons s segs =>
      rw [← ih h]
      simp [accessRulePathMatches, List.replicate_succ]

theorem not_accessRulePathMatches_last {n : ℕ} {segs : List GoString} {seg part : GoString}
    (h : segs[n]? = some seg) {foldCase : Bool} (hstar : part ≠ star)
    (hfold : foldCase = true → ¬ equalFold part seg = true) (hne : part ≠ seg) :
    accessRulePathMatches (List.replicate n star ++ [part]) segs foldCase = false := by
  rw [Bool.eq_false_iff, Ne, accessRulePathMatches_last h]
  rintro (h | h | h)
  · exact hstar h
  · exact hfold h.1 h.2
  · exact hne h

/-! ## Rules as an administrator writes them -/

def pathRule (action : AccessRuleAction) (pattern : List GoString) : AccessRule where
  name := []
  action := action.text
  sources := []
  paths := [joinParts slash pattern ++ [slash]]

def compiledPathRule (index : ℕ) (action : AccessRuleAction) (pattern : List GoString) : CompiledAccessRule where
  index := index
  name := []
  action := action
  included := []
  excluded := []
  patterns := [pattern]
  anyPath := false

def everywhereRule (action : AccessRuleAction) : AccessRule where
  name := []
  action := action.text
  sources := []
  paths := []

def compiledEverywhereRule (index : ℕ) (action : AccessRuleAction) : CompiledAccessRule where
  index := index
  name := []
  action := action
  included := []
  excluded := []
  patterns := []
  anyPath := true

theorem parseAccessRuleAction_text (a : AccessRuleAction) : parseAccessRuleAction a.text = some a := by
  have htrim : trimSpace a.text = a.text := by
    cases a <;> decide +kernel
  have hlow : toLower a.text = a.text := by
    apply toLower_eq_self_of_ascii
    cases a <;> decide +kernel
  have hinj : ∀ b : AccessRuleAction, b.text = a.text → b = a := by
    have hall : ∀ x ∈ [AccessRuleAction.allow, .authenticate, .deny],
        ∀ y ∈ [AccessRuleAction.allow, .authenticate, .deny],
        x.text = y.text → x = y := by decide +kernel
    intro b hb
    exact hall b (by cases b <;> simp) a (by cases a <;> simp) hb
  simp only [parseAccessRuleAction, htrim, hlow]
  cases hf : [AccessRuleAction.allow, .authenticate, .deny].find? fun b => b.text = a.text with
  | none =>
    have hno := List.find?_eq_none.mp hf a (by cases a <;> simp)
    simp at hno
  | some b =>
    have hb := List.find?_some hf
    rw [hinj b (by simpa using hb)]

variable {pattern : List GoString}

theorem compileAccessRule_path (h : Clean pattern) (index : ℕ) (action : AccessRuleAction) :
    compileAccessRule index (pathRule action pattern) = .ok (compiledPathRule index action pattern) := by
  have htrim : trimSpace (joinParts slash pattern ++ [slash]) = joinParts slash pattern ++ [slash] := by
    rw [trimSpace_append_cons notSpace_slash]
    cases pattern with
    | nil => rfl
    | cons part pattern =>
      have hl := trimLeftSpace_append_cons notSpace_slash [] (part ++ joinParts slash pattern)
      rw [List.nil_append] at hl
      rfl
  have hfields : fields slash (joinParts slash pattern ++ [slash]) = pattern := by
    simpa using fields_joinParts h []
  have hpath : compileAccessRulePath (joinParts slash pattern ++ [slash]) = some pattern := by
    simp only [compileAccessRulePath, htrim, hfields]
    simp
  have hnil : trimSpace [] = [] := by decide
  simp only [compileAccessRule, pathRule, parseAccessRuleAction_text, parseAccessRuleSources, hnil]
  simp [hpath, compiledPathRule]

theorem compileAccessRule_everywhere (index : ℕ) (action : AccessRuleAction) :
    compileAccessRule index (everywhereRule action) = .ok (compiledEverywhereRule index action) := by
  have hnil : trimSpace [] = [] := by decide
  simp only [compileAccessRule, everywhereRule, parseAccessRuleAction_text, parseAccessRuleSources, hnil]
  rfl

theorem compileAccessRules_one {rule : AccessRule} {compiled : CompiledAccessRule}
    (h : compileAccessRule 1 rule = .ok compiled) : compileAccessRules [rule] = .ok [compiled] := by
  simp [compileAccessRules, compileAccessRulesFrom, h]

theorem compileAccessRules_two {rule rule' : AccessRule} {compiled compiled' : CompiledAccessRule}
    (h : compileAccessRule 1 rule = .ok compiled) (h' : compileAccessRule 2 rule' = .ok compiled') :
    compileAccessRules [rule, rule'] = .ok [compiled, compiled'] := by
  simp [compileAccessRules, compileAccessRulesFrom, h, h']

theorem compiledPathRule_matches (index : ℕ) (action : AccessRuleAction) (pattern : List GoString) (ip : Addr)
    (path : GoString) : (compiledPathRule index action pattern).matches ip path =
      accessRulePathMatches pattern (pathSegments path) (action ≠ .allow) := by
  unfold CompiledAccessRule.matches CompiledAccessRule.matchesIP compiledPathRule matchesAnyPrefix
  simp only [List.any_nil, List.any_cons, Bool.or_false, Bool.false_or, decide_true, Bool.not_false, Bool.true_and]

theorem compiledEverywhereRule_matches (index : ℕ) (action : AccessRuleAction) (ip : Addr)
    (path : GoString) : (compiledEverywhereRule index action).matches ip path = true := by
  simp [CompiledAccessRule.matches, CompiledAccessRule.matchesIP, compiledEverywhereRule, matchesAnyPrefix]

theorem compiledPathRule_hits_allow (index : ℕ) (pattern : List GoString) (ip : Addr)
    (p s : GoString) :
    (compiledPathRule index .allow pattern).hits ip p s =
      (accessRulePathMatches pattern (pathSegments p) false &&
        accessRulePathMatches pattern (pathSegments s) false) := by
  have hact : (compiledPathRule index .allow pattern).action = .allow := rfl
  rw [CompiledAccessRule.hits, if_pos hact, compiledPathRule_matches, compiledPathRule_matches]
  rfl

theorem compiledPathRule_hits_deny (index : ℕ) (pattern : List GoString) (ip : Addr) (p s : GoString) :
    (compiledPathRule index .deny pattern).hits ip p s =
      (accessRulePathMatches pattern (pathSegments p) true || accessRulePathMatches pattern (pathSegments s) true) := by
  have hact : (compiledPathRule index .deny pattern).action = .deny := rfl
  rw [CompiledAccessRule.hits, hact, if_neg (by decide), compiledPathRule_matches, compiledPathRule_matches]
  rfl

/-! ## What path parameters can hide -/

/-- What a rule list must do for a request path `p` when the upstream serves `q`: the first deny or
authenticate rule that matches either path decides, and an allow rule decides only if it matches
both. -/
structure ParamsIgnored (rules : List CompiledAccessRule) (ip : Addr) (p q : GoString) : Prop where
  first : ∀ earlier rule later, rules = earlier ++ rule :: later → rule.action ≠ .allow →
    (rule.matches ip p = true ∨ rule.matches ip q = true) → (∀ e ∈ earlier, e.hits ip p q = false) →
      matchAccessRule rules ip p = some rule
  allow : ∀ rule, matchAccessRule rules ip p = some rule → rule.action = .allow →
    rule.matches ip p = true ∧ rule.matches ip q = true

theorem matches_congr {path path' : GoString} (h : pathSegments path = pathSegments path')
    (r : CompiledAccessRule) (ip : Addr) : r.matches ip path = r.matches ip path' := by
  simp only [CompiledAccessRule.matches, h]

variable {p q : GoString}

theorem paramsIgnored_of_pathSegments (h : pathSegments (stripPathParams p) = pathSegments q)
    (rules : List CompiledAccessRule) (ip : Addr) : ParamsIgnored rules ip p q := by
  have hhits : ∀ r : CompiledAccessRule, r.hits ip p (stripPathParams p) = r.hits ip p q := by
    intro r
    simp only [CompiledAccessRule.hits, matches_congr h]
  constructor
  · rintro earlier rule later rfl hact hm hno
    have hrule : rule.hits ip p q = true := by
      rw [CompiledAccessRule.hits, if_neg hact, Bool.or_eq_true]
      exact hm
    have hnone : earlier.find? (fun r => r.hits ip p q) = none := by
      rw [List.find?_eq_none]
      intro e he
      simp [hno e he]
    simp only [matchAccessRule, hhits, List.find?_append, hnone, List.find?_cons, hrule]
    rfl
  · intro rule hm hact
    have hhit := List.find?_some hm
    simp only [hhits] at hhit
    rw [CompiledAccessRule.hits, if_pos hact, Bool.and_eq_true] at hhit
    exact hhit

def AlwaysParamsIgnored (p q : GoString) : Prop :=
  ∀ (rules : List AccessRule) (compiled : List CompiledAccessRule) (ip : Addr),
    compileAccessRules rules = .ok compiled → ParamsIgnored compiled ip p q

theorem matchAccessRule_of_hits {rule : CompiledAccessRule} {ip : Addr}
    (h : rule.hits ip p (stripPathParams p) = true) (rest : List CompiledAccessRule) :
    matchAccessRule (rule :: rest) ip p = some rule := by
  rw [matchAccessRule, List.find?_cons, h]

theorem not_alwaysParamsIgnored_of_allow (hc : Clean pattern)
    (hp : accessRulePathMatches pattern (pathSegments p) false = true)
    (hs : accessRulePathMatches pattern (pathSegments (stripPathParams p)) false = true)
    (hq : accessRulePathMatches pattern (pathSegments q) false = false) : ¬ AlwaysParamsIgnored p q := by
  intro hall
  have hlaw := hall _ _ (.v4 0) (compileAccessRules_one (compileAccessRule_path hc 1 .allow))
  have hhit := compiledPathRule_hits_allow 1 pattern (.v4 0) p (stripPathParams p)
  rw [hp, hs] at hhit
  have hbad := (hlaw.allow _ (matchAccessRule_of_hits hhit []) rfl).2
  rw [compiledPathRule_matches] at hbad
  exact absurd (hbad.symm.trans hq) (by simp)

theorem not_alwaysParamsIgnored_of_deny (hc : Clean pattern)
    (hp : accessRulePathMatches pattern (pathSegments p) true = false)
    (hs : accessRulePathMatches pattern (pathSegments (stripPathParams p)) true = false)
    (hq : accessRulePathMatches pattern (pathSegments q) true = true) : ¬ AlwaysParamsIgnored p q := by
  intro hall
  have hlaw := hall _ _ (.v4 0) (compileAccessRules_one (compileAccessRule_path hc 1 .deny))
  have hhit := compiledPathRule_hits_deny 1 pattern (.v4 0) p (stripPathParams p)
  rw [hp, hs, Bool.or_false] at hhit
  have hmq : (compiledPathRule 1 .deny pattern).matches (.v4 0) q = true := by
    rw [compiledPathRule_matches]
    exact hq
  have hact : (compiledPathRule 1 .deny pattern).action ≠ .allow := by simp [compiledPathRule]
  have hfound := hlaw.first [] _ [] rfl hact (Or.inr hmq) (by simp)
  rw [matchAccessRule, List.find?_cons, hhit] at hfound
  exact absurd hfound (by simp)

theorem not_alwaysParamsIgnored_of_shadow (hc : Clean pattern)
    (hp : accessRulePathMatches pattern (pathSegments p) true = false)
    (hs : accessRulePathMatches pattern (pathSegments (stripPathParams p)) true = true)
    (hq : accessRulePathMatches pattern (pathSegments q) true = false) : ¬ AlwaysParamsIgnored p q := by
  intro hall
  have hlaw := hall _ _ (.v4 0)
    (compileAccessRules_two (compileAccessRule_path hc 1 .deny) (compileAccessRule_everywhere 2 .deny))
  have hhit := compiledPathRule_hits_deny 1 pattern (.v4 0) p (stripPathParams p)
  have hmiss := compiledPathRule_hits_deny 1 pattern (.v4 0) p q
  rw [hp, hs] at hhit
  rw [hp, hq] at hmiss
  have hfound := hlaw.first [compiledPathRule 1 .deny pattern] _ [] rfl (by decide)
    (Or.inl (compiledEverywhereRule_matches 2 .deny (.v4 0) p)) (by
      intro e he
      rw [List.mem_singleton.mp he]
      exact hmiss)
  rw [matchAccessRule_of_hits hhit] at hfound
  have hidx : (1 : ℕ) = 2 := congrArg CompiledAccessRule.index (Option.some.inj hfound)
  exact absurd hidx (by decide)

theorem not_alwaysParamsIgnored_of_shorter (hq : (pathSegments q).length < (pathSegments (stripPathParams p)).length)
    (hp : (pathSegments (stripPathParams p)).length ≤ (pathSegments p).length) : ¬ AlwaysParamsIgnored p q := by
  apply not_alwaysParamsIgnored_of_allow (clean_wildcards (pathSegments (stripPathParams p)).length)
  · rw [accessRulePathMatches_wildcards]
    exact hp
  · rw [accessRulePathMatches_wildcards]
  · rw [Bool.eq_false_iff, Ne, accessRulePathMatches_wildcards]
    omega

theorem not_alwaysParamsIgnored_of_trailing {y t : GoString} {front : List GoString}
    (hs : pathSegments (stripPathParams p) = front ++ [y]) (hq : pathSegments q = front ++ [t])
    (ht : trimRightSpace y = t) (hne : t ≠ []) (htrim : t ≠ y) (hslash : slash ∉ y)
    (hp : front.length < (pathSegments p).length) : ¬ AlwaysParamsIgnored p q := by
  obtain ⟨x, hx⟩ : ∃ x, (pathSegments p)[front.length]? = some x := ⟨_, List.getElem?_eq_getElem hp⟩
  have hsn : (pathSegments (stripPathParams p))[front.length]? = some y := by rw [hs]; simp
  have hqn : (pathSegments q)[front.length]? = some t := by rw [hq]; simp
  obtain ⟨rs, hsym, hsp, hrs⟩ := symbols_trimRightSpace y
  obtain ⟨us, hus, -⟩ := trimRightSpace_spec y
  rw [ht] at hsym hrs hus
  have hcount : (symbols y).length ≠ (symbols t).length := by
    have hpos := List.length_pos_iff.mpr fun e : rs = [] => htrim (hrs e)
    rw [hsym, List.length_append, List.length_map]
    omega
  have hy : y ≠ [] ∧ slash ∉ y := by
    refine ⟨?_, hslash⟩
    rintro rfl
    exact hne (List.append_eq_nil_iff.mp hus.symm).1
  have htc : t ≠ [] ∧ slash ∉ t := ⟨hne, fun h => hslash (by rw [hus]; exact List.mem_append_left _ h)⟩
  have hystar : y ≠ star := by
    have hstar : trimRightSpace star = star := by decide
    rintro rfl
    exact htrim (ht.symm.trans hstar)
  have hyt : ¬ equalFold y t = true := fun h => hcount (length_symbols_of_equalFold h)
  by_cases hxy : x = y
  · apply not_alwaysParamsIgnored_of_allow (clean_wildcards_last front.length hy)
    · rw [accessRulePathMatches_last hx]
      exact Or.inr (Or.inr hxy.symm)
    · rw [accessRulePathMatches_last hsn]
      exact Or.inr (Or.inr rfl)
    · exact not_accessRulePathMatches_last hqn hystar (fun h => absurd h (by decide)) htrim.symm
  by_cases hfold : equalFold y x = true
  · -- then the trimmed segment is no wildcard: `*` and white space fold with themselves only
    have htstar : t ≠ star := by
      rintro rfl
      have hst : symbols star = [.rune 0x2A] := by decide
      refine hxy (eq_of_equalFold_caseless hfold fun z hz => ?_)
      rw [hsym, hst, List.singleton_append, List.mem_cons] at hz
      rcases hz with rfl | hz
      · exact ⟨_, rfl, by decide⟩
      · obtain ⟨r, hr, rfl⟩ := List.mem_map.mp hz
        exact ⟨r, rfl, Or.inr (hsp r hr)⟩
    have hxt : (symbols t).length ≠ (symbols x).length := by
      rw [← length_symbols_of_equalFold hfold]
      exact hcount.symm
    apply not_alwaysParamsIgnored_of_deny (clean_wildcards_last front.length htc)
    · exact not_accessRulePathMatches_last hx htstar (fun _ h =>
        hxt (length_symbols_of_equalFold h)) fun h => hxt (by rw [h])
    · exact not_accessRulePathMatches_last hsn htstar (fun _ h => hcount (length_symbols_of_equalFold h).symm) htrim
    · rw [accessRulePathMatches_last hqn]
      exact Or.inr (Or.inr rfl)
  · apply not_alwaysParamsIgnored_of_shadow (clean_wildcards_last front.length hy)
    · exact not_accessRulePathMatches_last hx hystar (fun _ => hfold) fun h => hxy h.symm
    · rw [accessRulePathMatches_last hsn]
      exact Or.inr (Or.inr rfl)
    · exact not_accessRulePathMatches_last hqn hystar (fun _ => hyt) htrim.symm

/-- Deny and authenticate rules see past the path parameters, and allow rules are not fooled by
them, exactly when the path without parameters ends in no white space and has no empty segment
inside. -/
theorem alwaysParamsIgnored_iff (value : GoString) :
    AlwaysParamsIgnored (normalizePath value) (normalizePath (stripPathParams (normalizePath value))) ↔
      trimSpace (stripPathParams (normalizePath value)) = stripPathParams (normalizePath value) ∧
        [] ∉ pathSegments (stripPathParams (normalizePath value)) := by
  have hq : pathSegments (normalizePath (stripPathParams (normalizePath value))) =
      segments (replaceByte backslash slash (trimSpace (stripPathParams (normalizePath value)))) := by
    rw [normalizePath_eq (stripPathParams _), pathSegments_renderPath (clean_segments _)]
  rcases stripPathParams_normalizePath_shape value with hroot
    | ⟨segs, front, y, hp, hclean, hne, hs, hy, hfront, hlen, hback⟩
  · -- the root has nothing to strip
    have hs : stripPathParams [slash] = [slash] := by decide
    rw [hroot, hs] at hq ⊢
    have htrim : trimSpace [slash] = [slash] := by decide
    have hseg : pathSegments [slash] = [] := by decide
    refine ⟨fun _ => ⟨htrim, by rw [hseg]; simp⟩, fun _ rules compiled ip _ => ?_⟩
    apply paramsIgnored_of_pathSegments
    decide
  · set p := normalizePath value with hpdef
    set s := stripPathParams p with hsdef
    have htrim : trimSpace s = joinParts slash front ++ slash :: trimRightSpace y := by
      rw [hs, trimSpace_joinParts]
    have hnb : backslash ∉ trimSpace s := fun h => hback (mem_of_mem_trimSpace h)
    rw [replaceByte_of_not_mem hnb] at hq
    have hqs : pathSegments (normalizePath s) = segments (joinParts slash front) ++ segments (trimRightSpace y) := by
      rw [hq, htrim, segments_joinParts_cons]
    have hss : segments s = segments (joinParts slash front) ++ segments y := by
      rw [hs, segments_joinParts_cons]
    have hps : (pathSegments s).length ≤ (pathSegments p).length := by
      rw [hs, hp]
      exact length_pathSegments_joinParts_le hclean hne hfront hy hlen
    constructor
    · intro hall
      by_contra hcond
      by_cases hempty : [] ∈ pathSegments s
      · -- an empty segment inside is dropped when the path is normalised
        refine not_alwaysParamsIgnored_of_shorter ?_ hps hall
        have hlt : (segments s).length < (pathSegments s).length := by
          rw [segments_eq_filter]
          exact List.length_filter_lt_length_iff_exists.mpr ⟨[], hempty, by simp⟩
        have hle := length_segments_trimRightSpace_le hy
        rw [hss] at hlt
        rw [← hsdef, hqs]
        simp only [List.length_append] at hlt ⊢
        omega
      · have htr : trimRightSpace y ≠ y := by
          intro e
          exact hcond ⟨by rw [htrim, e, ← hs], hempty⟩
        have hy0 : y ≠ [] := by
          rintro rfl
          exact htr (by decide)
        have hS : pathSegments s = segments (joinParts slash front) ++ [y] := by
          rw [pathSegments_eq_segments hempty, hss, segments_of_not_mem hy hy0]
        by_cases ht0 : trimRightSpace y = []
        · refine not_alwaysParamsIgnored_of_shorter ?_ hps hall
          have hnil : segments [] = [] := rfl
          rw [hqs, hS, ht0, hnil]
          simp
        · rw [segments_of_not_mem (slash_not_mem_trimRightSpace hy) ht0] at hqs
          refine not_alwaysParamsIgnored_of_trailing hS hqs rfl ht0 htr hy ?_ hall
          rw [hS, List.length_append, List.length_singleton] at hps
          exact hps
    · rintro ⟨ht, hempty⟩ rules compiled ip _
      apply paramsIgnored_of_pathSegments
      rw [← hsdef, pathSegments_eq_segments hempty, hq, ht]

end Matching

/-- A deny rule for `/a/admin` does not see `/a/;x/admin`, which an upstream without parameters
serves as `/a/admin`. -/
theorem paramsIgnored_empty_segment :
    (@compileAccessRules asciiTables [⟨[], str "deny", [], [str "/a/admin"]⟩] =
        .ok [⟨1, [], .deny, [], [], [[str "a", str "admin"]], false⟩]) ∧
      normalizePath (str "/a/;x/admin") = str "/a/;x/admin" ∧
      normalizePath (stripPathParams (str "/a/;x/admin")) = str "/a/admin" ∧
      @CompiledAccessRule.matches asciiTables ⟨1, [], .deny, [], [], [[str "a", str "admin"]], false⟩
        (.v4 0xCB007105#32) (str "/a/admin") = true ∧
      @matchAccessRule asciiTables [⟨1, [], .deny, [], [], [[str "a", str "admin"]], false⟩]
        (.v4 0xCB007105#32) (str "/a/;x/admin") = none := by
  decide +kernel

end Portlyn.Proxy
