import Mathlib.Data.List.Forall2
import Portlyn.Go.Url

/-! # Routes (`go-chi/chi`)

A pattern is a list of segments. A parameter takes any text without a slash; only the last one may
not be empty. The path that is matched is the encoded one where the request keeps it. -/
namespace Portlyn.Go
set_option autoImplicit false

inductive Segment
  | literal (text : GoString)
  | param
deriving DecidableEq

def Segment.Fits (isParam : GoString → Prop) : Segment → GoString → Prop
  | .literal text, seg => seg = text
  | .param, seg => isParam seg

theorem Segment.Fits.imp {p q : GoString → Prop} (h : ∀ seg, p seg → q seg) {s : Segment}
    {seg : GoString} (hs : s.Fits p seg) : s.Fits q seg := by
  cases s with
  | literal text => exact hs
  | param => exact h seg hs

/-- The match of a pattern with the segments of a path, which gives the values of its parameters. -/
class SegmentMatcher where
  matchSegments : List Segment → List GoString → Option (List GoString)
  /-- Each segment is the literal of the pattern or one of the values. -/
  fits : ∀ {pattern segs params}, matchSegments pattern segs = some params →
    List.Forall₂ (Segment.Fits (· ∈ params)) pattern segs
  literals : ∀ {pattern segs params}, .param ∉ pattern → matchSegments pattern segs = some params → params = []

def routePath (u : URL) : GoString := if u.rawPath ≠ [] then u.rawPath else if u.path = [] then [slash] else u.path

structure Route (H : Type) where
  method : GoString
  pattern : List Segment
  handler : H
deriving DecidableEq

def Route.serves [SegmentMatcher] {H : Type} (route : Route H) (method : GoString) (u : URL) : Option (List GoString) :=
  if method = route.method then
    match (routePath u).splitOn slash with
    | [] :: segs => SegmentMatcher.matchSegments route.pattern segs
    | _ => none
  else none

variable {params : List GoString}

theorem serves_path [SegmentMatcher] {H : Type} {route : Route H} {method : GoString} {u : URL}
    (hpattern : route.pattern ≠ []) (h : route.serves method u = some params) :
    ∃ segs, List.Forall₂ (Segment.Fits (· ∈ params)) route.pattern segs ∧ (∀ seg ∈ segs, slash ∉ seg) ∧
      routePath u = joinParts slash segs := by
  rw [Route.serves] at h
  split at h
  · split at h
    · rename_i segs hsplit
      have hfits := SegmentMatcher.fits h
      have hne : segs ≠ [] := by
        rintro rfl
        exact hpattern (List.forall₂_nil_right_iff.mp hfits)
      refine ⟨segs, hfits, fun seg hseg => ?_, ?_⟩
      · exact not_mem_of_mem_splitOn (hsplit ▸ List.mem_cons_of_mem _ hseg)
      · calc routePath u = [slash].intercalate ((routePath u).splitOn slash) := (List.intercalate_splitOn slash).symm
          _ = [slash].intercalate ([] :: segs) := by rw [hsplit]
          _ = slash :: [slash].intercalate segs := by
            obtain ⟨seg, rest, rfl⟩ := List.exists_cons_of_ne_nil hne
            rw [List.intercalate_cons_cons, List.nil_append, List.singleton_append]
          _ = joinParts slash segs := cons_intercalate slash hne
    · cases h
  · cases h

/-! ## The matcher -/

def matchSegments : List Segment → List GoString → Option (List GoString)
  | [], [] => some []
  | .literal text :: pattern, seg :: segs => if seg = text then matchSegments pattern segs else none
  | [.param], [seg] => if seg = [] then none else some [seg]
  | .param :: pattern, seg :: segs => (matchSegments pattern segs).map (seg :: ·)
  | _, _ => none

theorem matchSegments_fits {pattern : List Segment} {segs : List GoString}
    (h : matchSegments pattern segs = some params) :
    List.Forall₂ (Segment.Fits (· ∈ params)) pattern segs := by
  fun_induction matchSegments pattern segs generalizing params with
  | case1 => exact .nil
  | case2 pattern seg segs ih => exact .cons rfl (ih h)
  | case3 => cases h
  | case4 => cases h
  | case5 seg hne =>
    cases h
    exact .cons List.mem_cons_self .nil
  | case6 pattern seg segs hlast ih =>
    obtain ⟨rest, hrest, rfl⟩ := Option.map_eq_some_iff.mp h
    exact .cons List.mem_cons_self ((ih hrest).imp fun _ _ => Segment.Fits.imp fun _ => List.mem_cons_of_mem _)
  | case7 => cases h

theorem matchSegments_literals {pattern : List Segment} {segs : List GoString}
    (hliteral : .param ∉ pattern) (h : matchSegments pattern segs = some params) : params = [] := by
  fun_induction matchSegments pattern segs generalizing params with
  | case1 =>
    cases h
    rfl
  | case2 pattern seg segs ih => exact ih (fun hmem => hliteral (List.mem_cons_of_mem _ hmem)) h
  | case3 => cases h
  | case4 => cases h
  | case5 seg hne => exact absurd List.mem_cons_self hliteral
  | case6 pattern seg segs hlast ih => exact absurd List.mem_cons_self hliteral
  | case7 => cases h

instance : SegmentMatcher := ⟨matchSegments, matchSegments_fits, matchSegments_literals⟩

end Portlyn.Go
