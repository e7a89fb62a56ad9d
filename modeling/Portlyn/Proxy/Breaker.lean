import Portlyn.Proxy.NodeRoutes
import Portlyn.Proxy.Transport

/-! # The circuit breakers (`transport.go`)

The reverse proxy of a route records each outcome of its upstream under the target that is
configured for the service, and the handler asks for the target of the route. `recorded` says what
the outcomes of a whole run leave under a key: the failures since the last success, as far as they
were recorded there. The two keys are one text unless the target was rewritten for the tunnel of a
node, and this is when the breaker works (`breakers_protect_iff`). -/
namespace Portlyn.Proxy
open Go Domain
set_option autoImplicit false

/-! ## The states of the targets -/

/-- `degradedUntil` is missing as long as it is the zero time. -/
structure TargetCircuitState where
  consecutiveFailures : ℕ
  lastError : GoString
  degradedUntil : Option Instant
deriving DecidableEq

abbrev Breakers := GoString → Option TargetCircuitState

/-- `30 * time.Second`. -/
def degradedFor : ℤ := 30 * 1000000000

def firstNonEmpty (values : List GoString) : GoString :=
  ((values.find? fun value => trimSpace value ≠ []).map trimSpace).getD []

def isTargetDegraded (breakers : Breakers) (now : Instant) (target : GoString) : Option GoString :=
  match breakers target with
  | none => none
  | some state =>
    if state.degradedUntil.any fun limit => now < limit then
      some (firstNonEmpty [state.lastError, str "circuit_open"]) else none

def TargetCircuitState.failure (state : TargetCircuitState) (now : Instant)
    (err : Option GoString) : TargetCircuitState where
  consecutiveFailures := state.consecutiveFailures + 1
  lastError := err.getD state.lastError
  degradedUntil := if 3 ≤ state.consecutiveFailures + 1 then some (now + degradedFor) else state.degradedUntil

def recordTargetFailure (breakers : Breakers) (now : Instant) (target : GoString) (err : Option GoString) : Breakers :=
  Function.update breakers target (some (((breakers target).getD ⟨0, [], none⟩).failure now err))

def recordTargetSuccess (breakers : Breakers) (target : GoString) : Breakers :=
  Function.update breakers target none

/-! ## What the reverse proxy of a route records -/

/-- What came of a request that was sent to the target: an error of the transport, or an answer. -/
inductive UpstreamOutcome
  | transportError (err : GoString)
  | response (status : ℕ)

def statusBadGateway : ℕ := 502

def UpstreamOutcome.failed : UpstreamOutcome → Bool
  | .transportError _ => true
  | .response status => statusBadGateway ≤ status

def UpstreamOutcome.error : UpstreamOutcome → GoString
  | .transportError err => err
  | .response status => str "returned status " ++ decimal status

/-- The callbacks of the reverse proxy of `routeFromConfig`: `ErrorHandler` for an error,
`ModifyResponse` for an answer. -/
def recordOutcome (breakers : Breakers) (now : Instant) (config : RouteConfig) : UpstreamOutcome → Breakers
  | .transportError err => recordTargetFailure breakers now config.targetURL (some err)
  | .response status =>
    if statusBadGateway ≤ status then
      recordTargetFailure breakers now config.targetURL (some (str "returned status " ++ decimal status))
    else recordTargetSuccess breakers config.targetURL

theorem recordOutcome_eq (breakers : Breakers) (now : Instant) (config : RouteConfig) (outcome : UpstreamOutcome) :
    recordOutcome breakers now config outcome =
      if outcome.failed then recordTargetFailure breakers now config.targetURL (some outcome.error)
      else recordTargetSuccess breakers config.targetURL := by
  cases outcome with
  | transportError err => rfl
  | response status => simp [recordOutcome, UpstreamOutcome.failed, UpstreamOutcome.error]

section Tables
variable [UnicodeTables]

/-- The request is handed to the reverse proxy of the route, unless the target of the route is
degraded. -/
def Manager.Admits (m : Manager) (r : Request) (route : Route) : Prop :=
  ∃ req, handler { m with degraded := fun _ => none } r = .proxied route req

def Manager.withBreakers (m : Manager) (breakers : Breakers) : Manager :=
  { m with degraded := isTargetDegraded breakers m.now }

structure ServedRoute where
  compiler : RouteCompiler
  config : RouteConfig
  route : CompiledRoute
  compiled : routeFromConfig compiler config = .ok route
  admits : ∃ m r, Manager.Admits m r route.toRoute

structure Recording where
  served : ServedRoute
  time : Instant
  outcome : UpstreamOutcome

def breakersAfter (run : List Recording) : Breakers :=
  run.foldl (fun breakers o => recordOutcome breakers o.time o.served.config o.outcome) fun _ => none

/-! ## What a run leaves under a key -/

def failures (run : List Recording) : List Recording := run.reverse.takeWhile (·.outcome.failed)

def circuit : List Recording → Option TargetCircuitState
  | [] => none
  | last :: rest => some {
      consecutiveFailures := rest.length + 1
      lastError := last.outcome.error
      degradedUntil := if 3 ≤ rest.length + 1 then some (last.time + degradedFor) else none }

def recordedUnder (key : GoString) (run : List Recording) : List Recording :=
  run.filter fun o => o.served.config.targetURL = key

theorem failures_concat (run : List Recording) (o : Recording) :
    failures (run ++ [o]) = if o.outcome.failed then o :: failures run else [] := by
  rw [failures, List.reverse_append]
  change List.takeWhile _ (o :: run.reverse) = _
  rw [List.takeWhile_cons]
  rfl

theorem recordedUnder_concat (key : GoString) (run : List Recording) (o : Recording) :
    recordedUnder key (run ++ [o]) =
      if o.served.config.targetURL = key then recordedUnder key run ++ [o] else recordedUnder key run := by
  rw [recordedUnder, List.filter_append, List.filter_singleton]
  by_cases hkey : o.served.config.targetURL = key
  · rw [if_pos hkey, decide_eq_true hkey]
    rfl
  · rw [if_neg hkey, decide_eq_false hkey]
    exact List.append_nil _

theorem circuit_cons (o : Recording) (recent : List Recording) :
    circuit (o :: recent) = some (((circuit recent).getD ⟨0, [], none⟩).failure o.time (some o.outcome.error)) := by
  cases recent with
  | nil => rfl
  | cons last rest =>
    rw [circuit, circuit, TargetCircuitState.failure]
    by_cases hthird : 3 ≤ rest.length + 1 + 1
    · simp [hthird]
    · have hsecond : ¬ 3 ≤ rest.length + 1 := by omega
      simp [hsecond]

theorem recordOutcome_apply {breakers : Breakers} {key : GoString} {recent : List Recording}
    (h : breakers key = circuit recent) (o : Recording) :
    recordOutcome breakers o.time o.served.config o.outcome key =
      if o.served.config.targetURL = key then circuit (if o.outcome.failed then o :: recent else [])
        else circuit recent := by
  rw [recordOutcome_eq]
  by_cases hkey : o.served.config.targetURL = key
  · subst hkey
    rw [if_pos rfl]
    by_cases hfailed : o.outcome.failed = true
    · rw [if_pos hfailed, if_pos hfailed, recordTargetFailure, Function.update_self, h, circuit_cons]
    · rw [if_neg hfailed, if_neg hfailed, recordTargetSuccess, Function.update_self]
      rfl
  · rw [← h]
    split
    · exact Function.update_of_ne (Ne.symm hkey) _ _
    · exact Function.update_of_ne (Ne.symm hkey) _ _

theorem breakersAfter_apply (run : List Recording) (key : GoString) :
    breakersAfter run key = circuit (failures (recordedUnder key run)) := by
  induction run using List.reverseRecOn with
  | nil => rfl
  | append_singleton run o ih =>
    rw [breakersAfter, List.foldl_append]
    change recordOutcome (breakersAfter run) o.time o.served.config o.outcome key = _
    rw [recordOutcome_apply ih, recordedUnder_concat]
    by_cases hkey : o.served.config.targetURL = key
    · rw [if_pos hkey, if_pos hkey, failures_concat]
    · rw [if_neg hkey, if_neg hkey]

/-! ## When a target is to be degraded -/

/-- The last outcomes, three or more, are failures, and the last one lies less than 30 seconds in
the past. -/
def Failing (outcomes : List Recording) (now : Instant) : Prop :=
  (∃ recent, recent <:+ outcomes ∧ 3 ≤ recent.length ∧ ∀ o ∈ recent, o.outcome.failed = true) ∧
    ∃ last, outcomes.getLast? = some last ∧ now - last.time < degradedFor

theorem three_failures_iff (outcomes : List Recording) :
    (∃ recent, recent <:+ outcomes ∧ 3 ≤ recent.length ∧ ∀ o ∈ recent, o.outcome.failed = true) ↔
      3 ≤ (failures outcomes).length := by
  constructor
  · rintro ⟨recent, ⟨earlier, rfl⟩, hlength, hfailed⟩
    have hall : ∀ o ∈ recent.reverse, o.outcome.failed = true := fun o ho => hfailed o (List.mem_reverse.mp ho)
    rw [failures, List.reverse_append, List.takeWhile_append_of_pos hall, List.length_append, List.length_reverse]
    omega
  · intro hlength
    refine ⟨(failures outcomes).reverse, ?_, ?_, fun o ho => ?_⟩
    · rw [← List.reverse_prefix, List.reverse_reverse]
      exact List.takeWhile_prefix _
    · rwa [List.length_reverse]
    · exact List.mem_takeWhile_imp (p := fun o : Recording => o.outcome.failed) (List.mem_reverse.mp ho)

theorem getLast_of_failures {outcomes rest : List Recording} {last : Recording}
    (h : failures outcomes = last :: rest) : outcomes.getLast? = some last := by
  rw [← List.head?_reverse]
  cases hreverse : outcomes.reverse with
  | nil =>
    rw [failures, hreverse] at h
    cases h
  | cons o earlier =>
    rw [failures, hreverse, List.takeWhile_cons] at h
    split at h
    · cases h
      rfl
    · cases h

theorem isTargetDegraded_iff (run : List Recording) (now : Instant) (key : GoString) :
    (isTargetDegraded (breakersAfter run) now key).isSome = true ↔ Failing (recordedUnder key run) now := by
  rw [isTargetDegraded, breakersAfter_apply, Failing, three_failures_iff]
  cases hfailures : failures (recordedUnder key run) with
  | nil =>
    refine iff_of_false (fun h => nomatch h) fun h => ?_
    have hlength := h.1
    rw [List.length_nil] at hlength
    omega
  | cons last rest =>
    rw [getLast_of_failures hfailures, List.length_cons]
    simp only [circuit, Option.some.injEq, exists_eq_left']
    by_cases hthird : 3 ≤ rest.length + 1
    · simp only [hthird, if_true, Option.any_some, true_and, decide_eq_true_eq]
      rw [sub_lt_iff_lt_add']
      split_ifs with hrecent
      · exact iff_of_true rfl hrecent
      · exact iff_of_false (fun h => nomatch h) hrecent
    · simp [hthird]

/-! ## The answer of the handler -/

variable {m : Manager} {r req : Request} {route : Route}

theorem serveRoute_degraded {host path canonicalPath : GoString} (degraded : GoString → Option GoString)
    (h : serveRoute { m with degraded := fun _ => none } r host path canonicalPath = .proxied route req) :
    serveRoute { m with degraded := degraded } r host path canonicalPath =
      match degraded route.targetURL with
      | some reason => .degraded reason
      | none => .proxied route req := by
  unfold serveRoute at h ⊢
  split at h
  · cases h
  · rename_i found hfound
    have hfound' : ({ m with degraded := degraded } : Manager).matchRoute host path = some found := hfound
    rw [hfound']
    dsimp only
    split_ifs at h with hambiguous
    have hambiguous' : ¬ ambiguousPath { m with degraded := degraded } host path found = true := hambiguous
    rw [if_neg hambiguous']
    dsimp only at h
    split at h
    · cases h
    · rename_i user huser
      have huser' : authorizeRoute { m with degraded := degraded } (sanitized r) found path = .ok user := huser
      rw [huser']
      cases h
      rfl

omit [UnicodeTables] in
theorem handleAdminHost_ne_proxied {path : GoString} : handleAdminHost m r path ≠ some (.proxied route req) := by
  unfold handleAdminHost
  split_ifs <;> exact fun h => nomatch h

theorem handler_degraded (degraded : GoString → Option GoString)
    (h : handler { m with degraded := fun _ => none } r = .proxied route req) :
    handler { m with degraded := degraded } r =
      match degraded route.targetURL with
      | some reason => .degraded reason
      | none => .proxied route req := by
  -- Nothing before the look-up of the route reads the breakers.
  have hallow : ∀ (d : GoString → Option GoString) host, ({ m with degraded := d } : Manager).allowAdminHost host r =
    m.allowAdminHost host r := fun _ _ => rfl
  have hadminRequest : ∀ d : GoString → Option GoString, adminRequest { m with degraded := d } r =
    adminRequest m r := fun _ => rfl
  have hhandle : ∀ (d : GoString → Option GoString) r' path, handleAdminHost { m with degraded := d } r' path =
    handleAdminHost m r' path := fun _ _ _ => rfl
  unfold handler at h ⊢
  simp only [hallow, hadminRequest, hhandle] at h ⊢
  generalize (if m.allowAdminHost (normalizeHost r.host) r = true then adminRequest m r else r) = r' at *
  split at h
  · cases h
  · split at h
    · cases h
    · split at h
      · rename_i verdict hverdict
        subst h
        split at hverdict
        · exact absurd hverdict handleAdminHost_ne_proxied
        · cases hverdict
      · split at h
        · cases h
        · rename_i hremote
          rw [if_neg hremote]
          exact serveRoute_degraded degraded h

theorem handler_degraded_iff {breakers : Breakers} (h : m.Admits r route) :
    (∃ reason, handler (m.withBreakers breakers) r = .degraded reason) ↔
      (isTargetDegraded breakers m.now route.targetURL).isSome = true := by
  obtain ⟨req, h⟩ := h
  rw [Manager.withBreakers, handler_degraded _ h]
  cases isTargetDegraded breakers m.now route.targetURL with
  | none => exact iff_of_false (fun ⟨_, h⟩ => nomatch h) fun h => nomatch h
  | some reason => exact iff_of_true ⟨reason, rfl⟩ rfl

theorem admits_of_single (hroutes : ∀ host, m.routesForHost host = some [route])
    (h : (handler { m with degraded := fun _ => none } r).isProxied = true) : m.Admits r route := by
  cases hv : handler { m with degraded := fun _ => none } r with
  | proxied found req =>
    have hmatched := (handler_forwards hv).1
    unfold Manager.matchRoute at hmatched
    simp only [hroutes, Option.bind_some] at hmatched
    split at hmatched
    · cases hmatched
    · obtain rfl := List.mem_singleton.mp (List.mem_of_find?_eq_some hmatched)
      exact ⟨req, hv⟩
  | _ => simp [hv, Verdict.isProxied] at h

/-! ## The breakers protect the targets -/

def outcomesOf (target : GoString) (run : List Recording) : List Recording :=
  run.filter fun o => o.served.route.targetURL = target

/-- In every run of the routes, each request that gets to one of them is refused exactly while its
target is failing. -/
def Protected (routes : Set ServedRoute) : Prop :=
  ∀ run : List Recording, (∀ o ∈ run, o.served ∈ routes) → ∀ served ∈ routes, ∀ (m : Manager) (r : Request),
    m.Admits r served.route.toRoute →
      ((∃ reason, handler (m.withBreakers (breakersAfter run)) r = .degraded reason) ↔
        Failing (outcomesOf served.route.targetURL run) m.now)

theorem outcomesOf_eq_recordedUnder {run : List Recording}
    (h : ∀ o ∈ run, o.served.route.targetURL = o.served.config.targetURL) (target : GoString) :
    outcomesOf target run = recordedUnder target run := by
  refine List.filter_congr fun o ho => ?_
  rw [h o ho]

def threeFailures (served : ServedRoute) (now : Instant) : List Recording :=
  List.replicate 3 ⟨served, now, .response statusBadGateway⟩

theorem failing_threeFailures (served : ServedRoute) (now : Instant) :
    Failing (outcomesOf served.route.targetURL (threeFailures served now)) now := by
  have hall : outcomesOf served.route.targetURL (threeFailures served now) = threeFailures served now := by
    refine List.filter_eq_self.mpr fun o ho => ?_
    rw [List.eq_of_mem_replicate ho]
    exact decide_eq_true rfl
  rw [hall]
  refine ⟨⟨threeFailures served now, List.suffix_rfl, le_rfl, fun o ho => ?_⟩, ⟨served, now, _⟩, rfl, ?_⟩
  · rw [List.eq_of_mem_replicate ho]
    rfl
  · rw [sub_self]
    decide

/-- The breakers protect a set of routes exactly if the target of none of them was rewritten into
another text. -/
theorem breakers_protect_iff (routes : Set ServedRoute) :
    Protected routes ↔ ∀ served ∈ routes, served.route.targetURL = served.config.targetURL := by
  constructor
  · intro hprotected served hserved
    obtain ⟨m, r, hadmits⟩ := served.admits
    have hrun : ∀ o ∈ threeFailures served m.now, o.served ∈ routes := by
      intro o ho
      rw [List.eq_of_mem_replicate ho]
      exact hserved
    have hdegraded := (hprotected _ hrun served hserved m r hadmits).mpr (failing_threeFailures served m.now)
    rw [handler_degraded_iff hadmits, isTargetDegraded_iff] at hdegraded
    obtain ⟨last, hlast, -⟩ := hdegraded.2
    have hmem := List.mem_filter.mp (List.mem_of_getLast? hlast)
    rw [List.eq_of_mem_replicate hmem.1] at hmem
    exact (of_decide_eq_true hmem.2).symm
  · intro hsame run hrun served hserved m r hadmits
    rw [handler_degraded_iff hadmits, isTargetDegraded_iff,
      outcomesOf_eq_recordedUnder fun o ho => hsame o.served (hrun o ho)]

end Tables

/-! ## A target behind a node -/

def tunnelConfig : RouteConfig := { nodeConfig nodeAddress with upstreamSkipVerify := true }

def tunnelRoute : CompiledRoute :=
  (@routeFromConfig asciiTables runningCompiler tunnelConfig).toOption.get (by decide +kernel)

theorem routeFromConfig_tunnelConfig : @routeFromConfig asciiTables runningCompiler tunnelConfig = .ok tunnelRoute := by
  have hroute : (@routeFromConfig asciiTables runningCompiler tunnelConfig).toOption = some tunnelRoute :=
    (Option.some_get _).symm
  cases hresult : @routeFromConfig asciiTables runningCompiler tunnelConfig with
  | error e =>
    rw [hresult] at hroute
    cases hroute
  | ok route =>
    rw [hresult] at hroute
    exact congrArg Except.ok (Option.some.inj hroute)

def tunnelManager : Manager :=
  { sampleManager with routesForHost := fun _ => some [tunnelRoute.toRoute] }

theorem tunnelManager_admits : @Manager.Admits asciiTables tunnelManager (sampleRequest [slash]) tunnelRoute.toRoute :=
  @admits_of_single asciiTables tunnelManager (sampleRequest [slash]) _ (fun _ => rfl) (by decide +kernel)

def tunnelServed : @ServedRoute asciiTables :=
  @ServedRoute.mk asciiTables runningCompiler tunnelConfig tunnelRoute routeFromConfig_tunnelConfig
    ⟨tunnelManager, sampleRequest [slash], tunnelManager_admits⟩

/-- The upstream behind the node answered 502 three times, and the next request is sent there all
the same. -/
theorem tunnelled_target_not_degraded :
    tunnelConfig.targetURL = str "http://db:8080" ∧ tunnelRoute.targetURL = str "http://10.0.0.2:8080" ∧
      @Failing asciiTables (@outcomesOf asciiTables tunnelRoute.targetURL (@threeFailures asciiTables tunnelServed 0))
        tunnelManager.now ∧
      ¬ ∃ reason, @handler asciiTables
        (tunnelManager.withBreakers (@breakersAfter asciiTables (@threeFailures asciiTables tunnelServed 0)))
        (sampleRequest [slash]) = .degraded reason := by
  refine ⟨rfl, by decide +kernel, @failing_threeFailures asciiTables tunnelServed 0, fun h => ?_⟩
  have hdegraded := (@handler_degraded_iff asciiTables _ _ _ _ tunnelManager_admits).mp h
  have hnone : isTargetDegraded
      (@breakersAfter asciiTables (@threeFailures asciiTables tunnelServed 0)) tunnelManager.now
      tunnelRoute.targetURL = none := by decide +kernel
  rw [hnone] at hdegraded
  cases hdegraded

end Portlyn.Proxy
