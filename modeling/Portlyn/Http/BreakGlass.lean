import Portlyn.Auth.Calls

/-! # The break-glass login (`break_glass.go`)

A request shows the token, then its credentials, and only when a session has been created is the
token consumed. The token is checked and consumed under a lock, which is free in between. If no
request has its token checked while another one, whose token was accepted, is still being handled,
then at most one of them obtains a session (`breakGlass_once`). -/
namespace Portlyn.Http
open Go Domain Lib Lib.Interleave Auth
set_option autoImplicit false

/-! ## The state of the token -/

/-- What never changes; `expiresAt` is `none` for the zero time. -/
structure BreakGlassConfig where
  enabled : Bool
  expiresAt : Option Instant
  allowInsecureDevMode : Bool

structure BreakGlassState where
  token : GoString
  used : Bool

structure BreakGlassStore where
  auth : Store
  breakGlass : BreakGlassState

inductive BreakGlassOp
  | auth (op : Op)
  | validToken (token : GoString)
  | consumeToken

@[reducible] def BreakGlassAns : BreakGlassOp → Type
  | .auth op => Ans op
  | .validToken _ => Bool
  | .consumeToken => Unit

section Tables
variable [UnicodeTables] (env : Env) (cfg : BreakGlassConfig)

def breakGlassValidToken (state : BreakGlassState) (now : Instant) (token : GoString) : Bool :=
  if !cfg.enabled || state.used || trimSpace state.token = [] then false
  else if cfg.expiresAt.any (· < now) then false
  else env.hashToken (trimSpace token) = env.hashToken (trimSpace state.token)

/-- The two functions that take the lock, next to the statements of the auth service. -/
def BreakGlassOp.exec : Semantics BreakGlassAns BreakGlassStore Chance
  | .auth op, i, s =>
    let result := Op.exec env op i s.auth
    (result.1, { s with auth := result.2 })
  | .validToken token, _, s => (breakGlassValidToken env cfg s.breakGlass s.auth.clock token, s)
  | .consumeToken, _, s => ((), { s with breakGlass := ⟨[], true⟩ })

/-! ## The handler -/

/-- A decoded request, with what `breakGlassAllowedSource` and `requestSecure` say of it. -/
structure BreakGlassRequest where
  email : GoString
  password : GoString
  token : GoString
  allowedSource : Bool
  secure : Bool
  metadata : RequestMetadata

inductive BreakGlassReply
  | error (status : ℕ) (code message : GoString)
  | loggedIn (result : LoginResult)
  /-- The answer of any other call of the service. -/
  | served (result : Except CallError Reply)

def breakGlassError : CallError → BreakGlassReply
  | .rateLimited => .error 429 (str "rate_limited") (str "too many break-glass attempts")
  | .inactiveUser => .error 403 (str "inactive_user") (str "user account is inactive")
  | .breakGlassRejected =>
    .error 403 (str "break_glass_rejected")
      (str "break-glass is restricted to local admin accounts")
  | .invalidCredentials => .error 401 (str "invalid_credentials") (str "invalid email or password")
  | _ => .error 500 (str "internal_error") (str "internal server error")

abbrev BreakGlassCall := Prog BreakGlassAns

def authCall {α : Type} (call : Call α) : BreakGlassCall α := call.lift BreakGlassOp.auth fun _ a => a

def validToken (token : GoString) : BreakGlassCall Bool := Prog.op (BreakGlassOp.validToken token)

def consumeBreakGlassToken : BreakGlassCall Unit := Prog.op BreakGlassOp.consumeToken

def handleBreakGlassLogin (t : ℕ) (r : BreakGlassRequest) : BreakGlassCall BreakGlassReply := do
  if !cfg.enabled then return .error 404 (str "break_glass_disabled") (str "break-glass login is disabled")
  else if !r.allowedSource then
    return .error 403 (str "break_glass_forbidden_source") (str "break-glass login is not allowed from this source")
  else if !r.secure && !cfg.allowInsecureDevMode then
    return .error 426 (str "insecure_transport") (str "break-glass login requires secure transport")
  else
    let valid ← validToken r.token
    if !valid then return .error 401 (str "invalid_break_glass_token") (str "break-glass token is invalid or expired")
    else
      match ← authCall (loginBreakGlass env t r.email r.password r.metadata) with
      | .error e => return breakGlassError e
      | .ok result =>
        consumeBreakGlassToken
        return .loggedIn result

inductive ConsoleRequest
  | breakGlass (r : BreakGlassRequest)
  | other (request : ServiceRequest)

def consoleCallOf (t : ℕ) : ConsoleRequest → BreakGlassCall BreakGlassReply
  | .breakGlass r => handleBreakGlassLogin env cfg t r
  | .other request => do
    let result ← authCall (callOf env t request)
    return .served result

def breakGlassSystem : System BreakGlassAns BreakGlassStore Chance ConsoleRequest BreakGlassReply where
  exec := BreakGlassOp.exec env cfg
  prog := fun t request => consoleCallOf env cfg t request

end Tables

abbrev BreakGlassWorld := World BreakGlassAns BreakGlassStore
abbrev BreakGlassRun := Config BreakGlassAns BreakGlassStore ConsoleRequest BreakGlassReply

/-! ## One at a time -/

def ObtainsSession (c : BreakGlassRun) (t : ℕ) : Prop :=
  ∃ task result, c.task t = some task ∧ task.rest = .ret (.loggedIn result)

def TokenAccepted (log : List (Entry BreakGlassAns)) (t : ℕ) : Prop :=
  ∃ token, (⟨t, .validToken token, true⟩ : Entry BreakGlassAns) ∈ log

def Ended (c : BreakGlassRun) (t : ℕ) : Prop := ∃ task reply, c.task t = some task ∧ task.rest = .ret reply

/-- A token is checked only when every request whose token was accepted has been answered. -/
def OneAtATime (c : BreakGlassRun) : Event ConsoleRequest Chance → Prop
  | .start _ _ => True
  | .step t _ =>
    match c.task t with
    | some ⟨_, _, .stmt (.validToken _) _⟩ => ∀ u, TokenAccepted c.world.log u → Ended c u
    | _ => True

/-! ## What the calls do -/

def Consumed (log : List (Entry BreakGlassAns)) (t : ℕ) : Prop :=
  (⟨t, .consumeToken, ()⟩ : Entry BreakGlassAns) ∈ log

def SessionPost (t : ℕ) (_ : ConsoleRequest) (own : List (Entry BreakGlassAns)) (reply : BreakGlassReply) : Prop :=
  ∀ result, reply = .loggedIn result → TokenAccepted own t ∧ Consumed own t

abbrev NoLaw : ℕ → List (Entry BreakGlassAns) → BreakGlassOp → Prop := fun _ _ _ => True

section Proofs

theorem obeys_authCall {t : ℕ} {α : Type} (call : Call α) (own : List (Entry BreakGlassAns)) :
    (authCall call).Obeys t (NoLaw t) (fun own' _ => ∀ e ∈ own, e ∈ own') own := by
  refine (obeys_of_all (fun _ _ _ => trivial) (all_trivial _)).imp ?_
  rintro own' _ ⟨more, rfl, -⟩ e he
  exact List.mem_append_right more he

theorem sessionPost_error (t : ℕ) (request : ConsoleRequest) (own : List (Entry BreakGlassAns)) (status : ℕ)
    (code message : GoString) : SessionPost t request own (.error status code message) :=
  fun _ heq => BreakGlassReply.noConfusion heq

theorem sessionPost_breakGlassError (t : ℕ) (request : ConsoleRequest)
    (own : List (Entry BreakGlassAns)) (e : CallError) :
    SessionPost t request own (breakGlassError e) := by
  cases e <;> exact sessionPost_error _ _ _ _ _ _

variable [UnicodeTables] {env : Env} {cfg : BreakGlassConfig}

theorem obeys_breakGlassLogin (t : ℕ) (r : BreakGlassRequest) :
    (handleBreakGlassLogin env cfg t r).Obeys t (NoLaw t) (SessionPost t (.breakGlass r)) [] := by
  refine obeys_ite (fun _ => obeys_ret (sessionPost_error _ _ _ _ _ _)) fun _ => ?_
  refine obeys_ite (fun _ => obeys_ret (sessionPost_error _ _ _ _ _ _)) fun _ => ?_
  refine obeys_ite (fun _ => obeys_ret (sessionPost_error _ _ _ _ _ _)) fun _ => ?_
  refine obeys_op trivial fun valid => obeys_ite (fun _ => obeys_ret (sessionPost_error _ _ _ _ _ _)) fun hvalid => ?_
  obtain rfl : valid = true := by simpa using hvalid
  refine obeys_bind ((obeys_authCall _ _).imp fun own result hown => ?_)
  cases result with
  | error e => exact obeys_ret (sessionPost_breakGlassError _ _ _ e)
  | ok result =>
    refine obeys_op trivial fun _ => obeys_ret fun _ _ => ?_
    exact ⟨⟨r.token, List.mem_cons_of_mem _ (hown _ List.mem_cons_self)⟩, List.mem_cons_self⟩

theorem breakGlass_obeys (t : ℕ) (request : ConsoleRequest) :
    ((breakGlassSystem env cfg).prog t request).Obeys t (NoLaw t) (SessionPost t request) [] := by
  cases request with
  | breakGlass r => exact obeys_breakGlassLogin t r
  | other request =>
    exact obeys_bind ((obeys_authCall _ _).imp fun _ _ _ => obeys_ret fun _ heq => BreakGlassReply.noConfusion heq)

def UsedInv (w : BreakGlassWorld) : Prop := ∀ t, Consumed w.log t → w.store.breakGlass.used = true

variable {w : BreakGlassWorld}

theorem usedInv_step (t : ℕ) (op : BreakGlassOp) (i : Chance) (h : UsedInv w) :
    UsedInv (w.step (BreakGlassOp.exec env cfg) t op i) := by
  intro u hu
  cases op with
  | consumeToken => rfl
  | _ => exact h u ((List.mem_cons.mp hu).resolve_left fun heq => by cases congrArg Entry.op heq)

theorem not_used_of_accepted {token : GoString} {i : Chance}
    (h : w.answer (BreakGlassOp.exec env cfg) (.validToken token) i = true) : w.store.breakGlass.used = false := by
  have hvalid : breakGlassValidToken env cfg w.store.breakGlass w.store.auth.clock token = true := h
  rw [breakGlassValidToken] at hvalid
  split_ifs at hvalid with hclosed
  simp only [Bool.or_eq_true, not_or, Bool.not_eq_true] at hclosed
  exact hclosed.1.2

def Open (c : BreakGlassRun) (t : ℕ) : Prop := ∀ task reply, c.task t = some task →
    task.rest = .ret reply → ∃ result, reply = .loggedIn result

structure BreakGlassInv (c : BreakGlassRun) : Prop where
  calls : Lawful NoLaw SessionPost c
  used : UsedInv c.world
  one : ∀ u u', TokenAccepted c.world.log u → TokenAccepted c.world.log u' → Open c u → Open c u' → u = u'

theorem not_open_of_accepted {c : BreakGlassRun} (h : BreakGlassInv c) {token : GoString}
    {i : Chance} (hanswer : c.world.answer (BreakGlassOp.exec env cfg) (.validToken token) i = true)
    {u : ℕ} (hended : Ended c u) : ¬ Open c u := by
  intro hopen
  obtain ⟨task, reply, htask, hret⟩ := hended
  obtain ⟨result, rfl⟩ := hopen task reply htask hret
  have hpost := h.calls.calls u task htask
  rw [hret] at hpost
  have hconsumed := (hpost result rfl).2
  have hused := h.used u (mem_own.mp hconsumed).1
  rw [not_used_of_accepted hanswer] at hused
  cases hused

theorem accepted_step {t u : ℕ} {op : BreakGlassOp} {i : Chance}
    (h : TokenAccepted (w.step (BreakGlassOp.exec env cfg) t op i).log u) :
    TokenAccepted w.log u ∨ u = t ∧ ∃ token, op = .validToken token ∧
      w.answer (BreakGlassOp.exec env cfg) (.validToken token) i = true := by
  obtain ⟨token, hmem⟩ := h
  rcases List.mem_cons.mp hmem with heq | hmem
  · cases op with
    | validToken token' =>
      obtain ⟨hcall, hop, hanswer⟩ := Entry.mk.inj heq
      cases hop
      exact Or.inr ⟨hcall, token, rfl, (eq_of_heq hanswer).symm⟩
    | _ => cases congrArg Entry.op heq
  · exact Or.inl ⟨token, hmem⟩

theorem breakGlassInv_next {c c' : BreakGlassRun} {e : Event ConsoleRequest Chance}
    (h : BreakGlassInv c) (hcond : OneAtATime c e)
    (hnext : (breakGlassSystem env cfg).next c e = some c') : BreakGlassInv c' := by
  have hallows : Allows (fun _ => True) (fun _ _ _ _ => True) c e :=
    allows_always (fun _ => trivial) (fun _ _ _ _ => trivial) c e
  have hcalls : Lawful NoLaw SessionPost c' :=
    lawful_next (fun t request _ => breakGlass_obeys t request) h.calls hallows hnext
  rcases next_cases hnext with ⟨t, request, rfl, hnone, rfl⟩ | ⟨t, i, request, start, op, next, rfl, htask, rfl⟩
  · -- a call that has just started has no accepted token
    have hother : ∀ u, TokenAccepted c.world.log u → u ≠ t := by
      rintro u ⟨token, hu⟩ rfl
      exact h.calls.started _ hu hnone
    refine ⟨hcalls, h.used, fun u u' hu hu' hopen hopen' => h.one u u' hu hu' ?_ ?_⟩
    · intro task reply htask
      exact hopen task reply ((Function.update_of_ne (hother u hu) ..).trans htask)
    · intro task reply htask
      exact hopen' task reply ((Function.update_of_ne (hother u' hu') ..).trans htask)
  · rw [OneAtATime, htask] at hcond
    refine ⟨hcalls, usedInv_step t op i h.used, fun u u' hu hu' hopen hopen' => ?_⟩
    have hbefore : ∀ v, Open ⟨c.world.step (BreakGlassOp.exec env cfg) t op i, Function.update c.task t
        (some ⟨request, start, next (c.world.answer (BreakGlassOp.exec env cfg) op i)⟩)⟩ v → Open c v := by
      intro v hv task reply hvtask hret
      by_cases hvt : v = t
      · subst hvt
        rw [htask] at hvtask
        cases hvtask
        cases hret
      · exact hv task reply ((Function.update_of_ne hvt ..).trans hvtask) hret
    -- who had an accepted token when another one is accepted has failed
    have hfailed : ∀ v token, op = .validToken token → c.world.answer (BreakGlassOp.exec env cfg)
        (.validToken token) i = true →
        TokenAccepted c.world.log v → ¬ Open c v := by
      rintro v token rfl hanswer hv
      exact not_open_of_accepted h hanswer (hcond v hv)
    rcases accepted_step hu with hold | ⟨rfl, token, hop, hanswer⟩ <;>
      rcases accepted_step hu' with hold' | ⟨rfl, token', hop', hanswer'⟩
    · exact h.one u u' hold hold' (hbefore u hopen) (hbefore u' hopen')
    · exact absurd (hbefore u hopen) (hfailed u token' hop' hanswer' hold)
    · exact absurd (hbefore u' hopen') (hfailed u' token hop hanswer hold')
    · rfl

end Proofs

/-- While one request at a time has its token checked, at most one obtains a session. -/
theorem breakGlass_once [UnicodeTables] (env : Env) (cfg : BreakGlassConfig) (s : BreakGlassStore)
    (events : List (Event ConsoleRequest Chance)) (c : BreakGlassRun)
    (hone : (breakGlassSystem env cfg).Along OneAtATime (Config.init s) events)
    (hrun : (breakGlassSystem env cfg).run (Config.init s) events = some c) (t t' : ℕ)
    (ht : ObtainsSession c t) (ht' : ObtainsSession c t') : t = t' := by
  have hinit : BreakGlassInv (Config.init s) := ⟨lawful_init, nofun, nofun⟩
  have hinv : BreakGlassInv c :=
    run_induction (fun _ _ _ h hcond hnext => breakGlassInv_next h hcond hnext) hinit hone hrun
  have hopen : ∀ u, ObtainsSession c u → TokenAccepted c.world.log u ∧ Open c u := by
    rintro u ⟨task, result, htask, hret⟩
    have hpost := hinv.calls.calls u task htask
    rw [hret] at hpost
    obtain ⟨token, haccepted⟩ := (hpost result rfl).1
    refine ⟨⟨token, (mem_own.mp haccepted).1⟩, fun task' reply htask' hret' => ⟨result, ?_⟩⟩
    rw [htask, Option.some.injEq] at htask'
    rw [← htask', hret] at hret'
    exact (Prog.ret.inj hret').symm
  exact hinv.one t t' (hopen t ht).1 (hopen t' ht').1 (hopen t ht).2 (hopen t' ht').2

/-! ## Two requests with the token -/

def breakGlassConfig : BreakGlassConfig := ⟨true, none, false⟩

def breakGlassStore : BreakGlassStore where
  auth := sampleStore { sampleUser with role := .admin, mfaEnabled := false } .empty
  breakGlass := ⟨[0x78], false⟩

def breakGlassRequest : ConsoleRequest :=
  .breakGlass ⟨[0x61], [0x70], [0x78], true, true, sampleMetadata⟩

def breakGlassSteps (t n : ℕ) : List (Event ConsoleRequest Chance) :=
  List.replicate n (.step t fine)

def overlappingLogins : List (Event ConsoleRequest Chance) :=
  [.start 1 breakGlassRequest, .start 2 breakGlassRequest] ++ breakGlassSteps 1 1 ++
    breakGlassSteps 2 10 ++ breakGlassSteps 1 9

def obtainsSession (c : BreakGlassRun) (t : ℕ) : Bool :=
  match c.task t with
  | some ⟨_, _, .ret (.loggedIn _)⟩ => true
  | _ => false

theorem obtainsSession_iff {c : BreakGlassRun} {t : ℕ} : obtainsSession c t = true ↔ ObtainsSession c t := by
  unfold obtainsSession
  split
  · rename_i request start result htask
    exact ⟨fun _ => ⟨_, result, htask, rfl⟩, fun _ => rfl⟩
  · rename_i hother
    refine ⟨nofun, fun ⟨task, result, htask, hret⟩ => absurd ?_ (hother task.request task.start result)⟩
    rw [htask, ← hret]

theorem breakGlass_twice :
    ∃ c, (@breakGlassSystem asciiTables sampleEnv breakGlassConfig).run
      (Config.init breakGlassStore) overlappingLogins = some c ∧
      ObtainsSession c 1 ∧ ObtainsSession c 2 := by
  refine ⟨_, rfl, obtainsSession_iff.mp ?_, obtainsSession_iff.mp ?_⟩
  · rfl
  · rfl

def acceptedCalls (log : List (Entry BreakGlassAns)) : List ℕ :=
  log.filterMap fun e =>
    match e with
    | ⟨t, .validToken _, true⟩ => some t
    | _ => none

def oneAtATime (c : BreakGlassRun) : Event ConsoleRequest Chance → Bool
  | .start _ _ => true
  | .step t _ =>
    match c.task t with
    | some ⟨_, _, .stmt (.validToken _) _⟩ => (acceptedCalls c.world.log).all (obtainsSession c)
    | _ => true

theorem oneAtATime_sound (c : BreakGlassRun) (e : Event ConsoleRequest Chance)
    (h : oneAtATime c e = true) : OneAtATime c e := by
  cases e with
  | start t request => trivial
  | step t i =>
    rw [OneAtATime]
    split
    · rename_i htask
      rw [oneAtATime, htask] at h
      rintro u ⟨token, hu⟩
      have hmem : u ∈ acceptedCalls c.world.log := List.mem_filterMap.mpr ⟨_, hu, rfl⟩
      obtain ⟨task, result, htask, hret⟩ := obtainsSession_iff.mp (List.all_eq_true.mp h u hmem)
      exact ⟨task, _, htask, hret⟩
    · trivial

def consecutiveLogins : List (Event ConsoleRequest Chance) :=
  [.start 1 breakGlassRequest] ++ breakGlassSteps 1 10 ++ [.start 2 breakGlassRequest] ++ breakGlassSteps 2 1

theorem breakGlass_once_consecutive :
    ∃ c, (@breakGlassSystem asciiTables sampleEnv breakGlassConfig).run
      (Config.init breakGlassStore) consecutiveLogins = some c ∧
      ObtainsSession c 1 ∧ ∀ t, ObtainsSession c t → t = 1 := by
  have hone : (@breakGlassSystem asciiTables sampleEnv breakGlassConfig).Along OneAtATime (Config.init breakGlassStore)
      consecutiveLogins := along_of_checks oneAtATime_sound rfl
  refine ⟨_, rfl, obtainsSession_iff.mp rfl, fun t ht => ?_⟩
  exact @breakGlass_once asciiTables sampleEnv breakGlassConfig breakGlassStore consecutiveLogins _ hone rfl t 1 ht
    (obtainsSession_iff.mp rfl)

end Portlyn.Http
