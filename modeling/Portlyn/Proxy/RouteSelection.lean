import Portlyn.Proxy.Manager

/-! # Which route a request gets (`routing_runtime.go`, `upsert.go`)

The routes of a host are sorted by the lengths of their paths, longest first, and the first one that
covers the request path is taken. Routes that cover one path are longer if they have more segments.
`sort.Slice` leaves routes of one length in any order, and the API stores two services with one
path. -/
namespace Portlyn.Proxy
open Go
set_option autoImplicit false

/-- What `sort.Slice` may leave of the routes, in whatever order the store lists them. -/
def SortedTable (routes table : List Route) : Prop :=
  table.Perm routes ∧ table.Pairwise fun a b => b.path.length ≤ a.path.length

/-- The loop of `matchRoute`. -/
def tableRoute (table : List Route) (path : GoString) : Option Route := table.find? fun route =>
    matchesPath route.path path

/-- The path of the route is a prefix of the request path, segment by segment. -/
def Covers (route : Route) (path : GoString) : Prop := segments route.path <+: segments path

structure Longest (routes : List Route) (path : GoString) (route : Route) : Prop where
  mem : route ∈ routes
  covers : Covers route path
  most : ∀ other ∈ routes, Covers other path → (segments other.path).length ≤ (segments route.path).length

theorem matchesPath_covers (route : Route) (raw : GoString) :
    matchesPath route.path (normalizePath raw) = true ↔ Covers route (normalizePath raw) := by
  rw [Covers, Route.path, segments_normalizePath, segments_normalizePath, normalizePath_eq, normalizePath_eq]
  exact matchesPath_iff (clean_segments _) (clean_segments _)

theorem path_eq (route : Route) : route.path = renderPath (segments route.path) := by
  rw [Route.path, segments_normalizePath, normalizePath_eq]

theorem length_renderPath_lt {rs ps : List GoString} (hclean : Clean ps) (h : rs <+: ps)
    (hlt : rs.length < ps.length) : (renderPath rs).length < (renderPath ps).length := by
  obtain ⟨rest, rfl⟩ := h
  cases rest with
  | nil => simp at hlt
  | cons s rest =>
    have hs : 0 < s.length := List.length_pos_iff.mpr (hclean s (by simp)).1
    have hps : renderPath (rs ++ s :: rest) = joinParts slash rs ++ joinParts slash (s :: rest) := by
      rw [renderPath, if_neg (List.append_ne_nil_of_right_ne_nil _ (List.cons_ne_nil _ _)), joinParts_append]
    rw [hps, renderPath]
    split
    · simp
      omega
    · simp

/-- Of two routes that cover a path, the one with more segments has the longer path. -/
theorem segments_le_of_length {a b : Route} {path : GoString} (ha : Covers a path) (hb : Covers b path)
    (h : b.path.length ≤ a.path.length) : (segments b.path).length ≤ (segments a.path).length := by
  by_contra hlt
  rw [not_le] at hlt
  have hpre : segments a.path <+: segments b.path := List.prefix_of_prefix_length_le ha hb hlt.le
  have := length_renderPath_lt (clean_segments _) hpre hlt
  rw [← path_eq, ← path_eq] at this
  omega

section Selection
variable {routes table : List Route} {raw : GoString}

theorem longest_of_tableRoute (h : SortedTable routes table) {route : Route}
    (hfound : tableRoute table (normalizePath raw) = some route) :
    Longest routes (normalizePath raw) route := by
  obtain ⟨hmatch, before, later, rfl, hbefore⟩ := List.find?_eq_some_iff_append.mp hfound
  have hcovers := (matchesPath_covers route raw).mp hmatch
  refine ⟨h.1.subset (by simp), hcovers, fun other hother hcover => ?_⟩
  rcases List.mem_append.mp (h.1.symm.subset hother) with hmem | hmem
  · have := hbefore other hmem
    rw [(matchesPath_covers other raw).mpr hcover] at this
    cases this
  · rcases List.mem_cons.mp hmem with rfl | hmem
    · exact le_rfl
    · exact segments_le_of_length hcovers hcover
        ((List.pairwise_cons.mp (List.pairwise_append.mp h.2).2.1).1 other hmem)

theorem tableRoute_eq_none (h : SortedTable routes table) :
    tableRoute table (normalizePath raw) = none ↔ ∀ route ∈ routes, ¬ Covers route (normalizePath raw) := by
  rw [tableRoute, List.find?_eq_none]
  refine forall_congr' fun route => ?_
  rw [h.1.mem_iff, matchesPath_covers]

/-- A longest match comes first in one of the tables. -/
theorem exists_table {route : Route} (h : Longest routes (normalizePath raw) route) :
    ∃ table, SortedTable routes table ∧ tableRoute table (normalizePath raw) = some route := by
  classical
  let le : Route → Route → Prop := fun a b => b.path.length ≤ a.path.length
  refine ⟨(route :: routes.erase route).insertionSort le, ⟨?_, List.pairwise_insertionSort le _⟩, ?_⟩
  · exact (List.perm_insertionSort le _).trans (List.perm_cons_erase h.mem).symm
  · rw [List.insertionSort_cons, List.orderedInsert_eq_take_drop, tableRoute, List.find?_append]
    -- what stands before the route is longer, so it does not cover the path
    have hbefore : (((routes.erase route).insertionSort le).takeWhile fun b => decide ¬ le route b).find?
        (fun r => matchesPath r.path (normalizePath raw)) = none := by
      refine List.find?_eq_none.mpr fun other hother hmatch => ?_
      have hlonger := List.mem_takeWhile_imp hother
      rw [decide_eq_true_eq, not_le] at hlonger
      have hmem := List.mem_of_mem_erase ((List.perm_insertionSort le _).subset (List.takeWhile_subset _ hother))
      have hcover := (matchesPath_covers other raw).mp hmatch
      have hpre := List.prefix_of_prefix_length_le hcover h.covers (h.most other hmem hcover)
      rw [path_eq route, path_eq other] at hlonger
      rcases hpre.length_le.lt_or_eq with hlt | heq
      · exact absurd (length_renderPath_lt (clean_segments _) hpre hlt) hlonger.not_gt
      · rw [hpre.eq_of_length heq] at hlonger
        exact lt_irrefl _ hlonger
    rw [hbefore, Option.none_or, List.find?_cons, (matchesPath_covers route raw).mpr h.covers]

end Selection

/-- For every set of routes and every request path: whatever order the store lists the routes in and
the sort leaves them in, a route of the most segments is taken if any covers the path, and the
service is always the same, if and only if all longest matches belong to one service. -/
theorem route_selection_iff (routes : List Route) (raw : GoString) :
    (∀ table table', SortedTable routes table → SortedTable routes table' →
      (∀ route, tableRoute table (normalizePath raw) = some route →
        Longest routes (normalizePath raw) route) ∧
      (tableRoute table (normalizePath raw) = none →
        ∀ route ∈ routes, ¬ Covers route (normalizePath raw)) ∧
      (tableRoute table (normalizePath raw)).map Route.serviceID =
        (tableRoute table' (normalizePath raw)).map Route.serviceID) ↔
    ∀ a b, Longest routes (normalizePath raw) a → Longest routes (normalizePath raw) b →
      a.serviceID = b.serviceID := by
  constructor
  · intro h a b ha hb
    obtain ⟨table, htable, hfound⟩ := exists_table ha
    obtain ⟨table', htable', hfound'⟩ := exists_table hb
    have hsame := (h table table' htable htable').2.2
    rw [hfound, hfound'] at hsame
    exact Option.some.inj hsame
  · intro h table table' htable htable'
    refine ⟨fun _ => longest_of_tableRoute htable, (tableRoute_eq_none htable).mp, ?_⟩
    cases hfound : tableRoute table (normalizePath raw) with
    | none => rw [(tableRoute_eq_none htable').mpr ((tableRoute_eq_none htable).mp hfound)]
    | some a =>
      cases hfound' : tableRoute table' (normalizePath raw) with
      | none => rw [(tableRoute_eq_none htable).mpr ((tableRoute_eq_none htable').mp hfound')] at hfound; cases hfound
      | some b =>
        exact congrArg some (h a b (longest_of_tableRoute htable hfound)
          (longest_of_tableRoute htable' hfound'))

/-! ## What the API stores -/

/-- The columns of a service that `FindByRoute` looks at. -/
structure StoredRoute where
  id : ℕ
  domainID : ℕ
  subdomain : GoString
  path : GoString

def findByRoute (rows : List StoredRoute) (domainID : ℕ) (subdomain path : GoString) : Option StoredRoute :=
  rows.find? fun row => row.domainID = domainID && row.subdomain = subdomain && row.path = path

/-- A service that is found keeps its number and these columns. -/
def upsertService (rows : List StoredRoute) (domainID : ℕ) (subdomain path : GoString) : List StoredRoute :=
  if (findByRoute rows domainID subdomain path).isSome then rows else rows ++
    [⟨rows.length + 1, domainID, subdomain, path⟩]

def storedRoute (row : StoredRoute) : Route :=
  ⟨row.id, row.path, [], ⟨[], row.subdomain, []⟩, ⟨.unset, [], []⟩, [], [], [], [], [], [], [], []⟩

/-- `/a` and `/a/` are two services with one path. -/
theorem route_selection_ambiguous :
    let routes := (upsertService (upsertService [] 1 [] (str "/a")) 1 [] (str "/a/")).map storedRoute
    SortedTable routes routes ∧ SortedTable routes routes.reverse ∧
      (tableRoute routes (normalizePath (str "/a"))).map Route.serviceID = some 1 ∧
      (tableRoute routes.reverse (normalizePath (str "/a"))).map Route.serviceID = some 2 := by
  intro routes
  refine ⟨⟨List.Perm.refl _, ?_⟩, ⟨List.reverse_perm _, ?_⟩, ?_, ?_⟩
  all_goals decide +kernel

end Portlyn.Proxy
