import Portlyn.Audit.Hash
import Portlyn.Go.Sql

/-! # Security alerts (`internal/http/security_rotation.go`)

The failed sign-ins of a window are counted with three patterns, of which the first finds what the
other two find. -/
namespace Portlyn.Http
open Go Audit
set_option autoImplicit false

/-! ## The functions of the source -/

def countByActionLikeSince (dialect : Dialect) (rows : List AuditLog) (actionLike : GoString) (since : Instant) : ℕ :=
  rows.countP fun row => like dialect actionLike row.action && since ≤ row.timestamp

structure AlertConfig where
  alertWindow : ℤ
  alertLoginFailSpikeThreshold : ℤ
  alertNodeHeartbeatFailThreshold : ℤ
  alertAuditAnomalyThreshold : ℤ

structure Alert where
  code : GoString
  severity : GoString
  value : ℕ
  threshold : ℤ
  window : ℤ
  description : GoString

structure SecurityAlerts where
  windowStart : Instant
  windowEnd : Instant
  alerts : List Alert
  loginFailures : ℕ
  nodeHeartbeatRejects : ℕ
  auditAnomalies : ℕ

def loginFailed : GoString := str "%login_failed%"
def otpLoginFailed : GoString := str "%otp_login_failed%"
def ssoLoginFailed : GoString := str "%sso_login_failed%"

def raiseAlert (window : ℤ) (code severity : GoString) (value : ℕ) (threshold : ℤ)
    (description : GoString) : List Alert :=
  if threshold ≤ value then [⟨code, severity, value, threshold, window, description⟩] else []

def handleSecurityAlerts (dialect : Dialect) (cfg : AlertConfig) (now : Instant)
    (rows : List AuditLog) : SecurityAlerts :=
  let windowStart := now - cfg.alertWindow
  let count := fun pattern => countByActionLikeSince dialect rows pattern windowStart
  let totalLoginFails := count loginFailed + count otpLoginFailed + count ssoLoginFailed
  let nodeHeartbeatFails := count (str "node_heartbeat_rejected")
  let auditAnomalies := count (str "%mfa_reset%") + count (str "%role_change%")
  { windowStart := windowStart
    windowEnd := now
    alerts :=
      raiseAlert cfg.alertWindow (str "login_fail_spike") (str "high") totalLoginFails cfg.alertLoginFailSpikeThreshold
        (str "Login failure spike detected") ++
      raiseAlert cfg.alertWindow (str "node_heartbeat_auth_fail_spike") (str "high") nodeHeartbeatFails
        cfg.alertNodeHeartbeatFailThreshold (str "Node heartbeat auth-fail spike detected") ++
      raiseAlert cfg.alertWindow (str "audit_anomaly_burst")
      (str "medium") auditAnomalies cfg.alertAuditAnomalyThreshold
        (str "Audit anomaly burst detected")
    loginFailures := totalLoginFails
    nodeHeartbeatRejects := nodeHeartbeatFails
    auditAnomalies := auditAnomalies }

/-! ## Each failure once -/

section
variable (dialect : Dialect) (cfg : AlertConfig) (now : Instant) (rows : List AuditLog)

/-- A failed sign-in of the window. -/
def RecordsFailure (row : AuditLog) : Prop :=
  str "login_failed" <:+: row.action ∧ now - cfg.alertWindow ≤ row.timestamp ∧ row.timestamp ≤ now

instance decidableRecordsFailure (row : AuditLog) : Decidable (RecordsFailure cfg now row) :=
  inferInstanceAs (Decidable (_ ∧ _))

/-- How often a row is counted. -/
def timesCounted (row : AuditLog) : ℕ :=
  [loginFailed, otpLoginFailed, ssoLoginFailed].countP fun pattern =>
    like dialect pattern row.action && now - cfg.alertWindow ≤ row.timestamp

/-- Neither of the longer patterns finds a row since the start of the window, and the first one
finds it if it is a failure of it. -/
def CountedOnce (row : AuditLog) : Prop :=
  now - cfg.alertWindow ≤ row.timestamp → ¬ like dialect otpLoginFailed row.action ∧
    ¬ like dialect ssoLoginFailed row.action ∧
    (like dialect loginFailed row.action ↔ str "login_failed" <:+: row.action ∧ row.timestamp ≤ now)

def FailuresOnce : Prop :=
  (∀ row ∈ rows, timesCounted dialect cfg now row = if RecordsFailure cfg now row then 1 else 0) ∧
    (handleSecurityAlerts dialect cfg now rows).loginFailures = rows.countP (RecordsFailure cfg now ·) ∧
    ((∃ a ∈ (handleSecurityAlerts dialect cfg now rows).alerts, a.code = str "login_fail_spike") ↔
      cfg.alertLoginFailSpikeThreshold ≤ rows.countP (RecordsFailure cfg now ·))

end

variable {dialect : Dialect} {cfg : AlertConfig} {now : Instant} {rows : List AuditLog}

theorem loginFailures_eq_sum :
    (handleSecurityAlerts dialect cfg now rows).loginFailures = (rows.map (timesCounted dialect cfg now)).sum := by
  unfold handleSecurityAlerts countByActionLikeSince
  induction rows with
  | nil => rfl
  | cons row rows ih =>
    simp only [List.map_cons, List.sum_cons, ← ih, List.countP_cons, timesCounted, List.countP_nil]
    omega

theorem code_raiseAlert {window threshold : ℤ} {code severity description wanted : GoString}
    {value : ℕ} :
    (∃ a ∈ raiseAlert window code severity value threshold description, a.code = wanted) ↔
      threshold ≤ value ∧ code = wanted := by
  rw [raiseAlert]
  split_ifs with h <;> simp [h]

theorem spike_raised_iff :
    (∃ a ∈ (handleSecurityAlerts dialect cfg now rows).alerts, a.code = str "login_fail_spike") ↔
      cfg.alertLoginFailSpikeThreshold ≤ (handleSecurityAlerts dialect cfg now rows).loginFailures := by
  have hnode : str "node_heartbeat_auth_fail_spike" ≠ str "login_fail_spike" := by decide +kernel
  have haudit : str "audit_anomaly_burst" ≠ str "login_fail_spike" := by decide +kernel
  simp only [handleSecurityAlerts, List.mem_append, or_and_right, exists_or, code_raiseAlert, hnode,
    haudit, and_false, or_false, and_true]

theorem likeSymbols_any {pattern text : List Symbol} :
    likeSymbols dialect (likeAny :: pattern) text = true ↔ ∃ rest, rest <:+ text ∧
      likeSymbols dialect pattern rest = true := by
  simp [likeSymbols]

/-- After a percent sign the beginning of a pattern can be left out. -/
theorem likeSymbols_drop {skipped pattern text : List Symbol}
    (h : likeSymbols dialect (likeAny :: (skipped ++ pattern)) text = true) :
    likeSymbols dialect (likeAny :: pattern) text = true := by
  induction skipped generalizing text with
  | nil => exact h
  | cons p skipped ih =>
    obtain ⟨rest, hrest, h⟩ := likeSymbols_any.mp h
    have hnext : ∃ rest', rest' <:+ rest ∧ likeSymbols dialect (likeAny :: (skipped ++ pattern)) rest' = true := by
      by_cases hp : p = likeAny
      · exact ⟨rest, List.suffix_rfl, hp ▸ h⟩
      · cases rest with
        | nil => simp [likeSymbols, hp] at h
        | cons c rest =>
          simp only [List.cons_append, likeSymbols, if_neg hp, Bool.and_eq_true] at h
          exact ⟨rest, List.suffix_cons c rest, likeSymbols_any.mpr ⟨rest, List.suffix_rfl, h.2⟩⟩
    obtain ⟨rest', hrest', h⟩ := hnext
    obtain ⟨last, hlast, h⟩ := likeSymbols_any.mp (ih h)
    exact likeSymbols_any.mpr ⟨last, hlast.trans (hrest'.trans hrest), h⟩

theorem loginFailed_of_longer {pattern text : GoString} (hpattern : pattern = otpLoginFailed ∨ pattern = ssoLoginFailed)
    (h : like dialect pattern text = true) : like dialect loginFailed text = true := by
  have hsplit : symbols (cString pattern) =
      likeAny :: (((symbols (cString pattern)).drop 1).take 4 ++ (symbols (cString loginFailed)).drop 1) := by
    rcases hpattern with rfl | rfl <;> decide +kernel
  have hshort : symbols (cString loginFailed) = likeAny :: (symbols (cString loginFailed)).drop 1 := by decide +kernel
  rw [like, hsplit] at h
  rw [like, hshort]
  exact likeSymbols_drop h

theorem timesCounted_eq_iff {row : AuditLog} :
    (timesCounted dialect cfg now row = if RecordsFailure cfg now row then 1 else 0) ↔
      CountedOnce dialect cfg now row := by
  have hotp := @loginFailed_of_longer dialect _ row.action (Or.inl rfl)
  have hsso := @loginFailed_of_longer dialect _ row.action (Or.inr rfl)
  by_cases hstart : now - cfg.alertWindow ≤ row.timestamp
  · cases hl : like dialect loginFailed row.action <;> cases ho : like dialect otpLoginFailed row.action <;>
      cases hs : like dialect ssoLoginFailed row.action <;>
      simp_all [timesCounted, RecordsFailure, CountedOnce]
    all_goals split_ifs <;> decide
  · simp [timesCounted, RecordsFailure, CountedOnce, hstart]

/-- The figure is that of the failed sign-ins of the window, each counted once, exactly if the
patterns find each row as they should. -/
theorem failuresOnce_iff (dialect : Dialect) (cfg : AlertConfig) (now : Instant) (rows : List AuditLog) :
    FailuresOnce dialect cfg now rows ↔ ∀ row ∈ rows, CountedOnce dialect cfg now row := by
  simp only [← timesCounted_eq_iff]
  refine ⟨And.left, fun h => ?_⟩
  have hfigure : (handleSecurityAlerts dialect cfg now rows).loginFailures =
    rows.countP (RecordsFailure cfg now ·) := by
    rw [loginFailures_eq_sum, List.map_congr_left h]
    clear h
    induction rows with
    | nil => rfl
    | cons row rows ih => rw [List.map_cons, List.sum_cons, ih, List.countP_cons, Nat.add_comm]; simp
  exact ⟨h, hfigure, hfigure ▸ spike_raised_iff⟩

/-- One wrong code is counted twice, and a threshold of two is reached. -/
theorem otp_failure_counted_twice : ∃ row, RecordsFailure ⟨10, 2, 5, 5⟩ 0 row ∧
    (handleSecurityAlerts .sqlite ⟨10, 2, 5, 5⟩ 0 [row]).loginFailures = 2 ∧
    ∃ a ∈ (handleSecurityAlerts .sqlite ⟨10, 2, 5, 5⟩ 0 [row]).alerts, a.code = str "login_fail_spike" :=
  ⟨⟨1, 0, [], none, str "otp_login_failed", [], none, [], [], [], 0, 0, [], [], [], [], []⟩, by
    decide +kernel, by decide +kernel,
    spike_raised_iff.mpr (by decide +kernel)⟩

end Portlyn.Http
