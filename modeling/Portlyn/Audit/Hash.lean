import Portlyn.Go.Json
import Portlyn.Lib.HashChain

/-! # Hashes of audit rows (`internal/store/audit_store.go`)

A row's hash is a keyed hash of the JSON of its fields and of the hash before it. Older versions
wrote a byte that is no UTF-8 as the escape of U+FFFD; for rows with such bytes verification accepts
that encoding too. It is recomputed by way of the marker U+FDD0, which a text may contain itself.

`mac` stands for HMAC-SHA256 under the store's key. -/
namespace Portlyn.Audit
open Go Lib
set_option autoImplicit false

/-! ## The functions of the source -/

structure AuditLog where
  id : ℕ
  timestamp : Instant
  requestID : GoString
  userID : Option ℕ
  action : GoString
  resourceType : GoString
  resourceID : Option ℕ
  method : GoString
  host : GoString
  path : GoString
  statusCode : ℤ
  latencyMs : ℤ
  remoteAddr : GoString
  userAgent : GoString
  details : GoString
  prevHash : GoString
  hash : GoString
deriving DecidableEq

/-- The texts of a row, in the order of `auditLogHasInvalidUTF8`. -/
def AuditLog.texts (item : AuditLog) : List GoString :=
  [item.requestID, item.action, item.resourceType, item.method, item.host, item.path, item.remoteAddr, item.userAgent,
    item.details]

def legacyInvalidUTF8Marker : GoString := encodeRune 0xFDD0

def legacyInvalidUTF8Escape : GoString := unicodeEscape 0xFFFD

/-- `string(utf8.RuneError)`. -/
def runeErrorText : GoString := encodeRune runeError

def replaceInvalidUTF8 (value replacement : GoString) : GoString :=
  if validString value then value
  else
    (symbols value).flatMap fun
      | .rune r => encodeRune r
      | .bad _ => replacement

/-- `json.Marshal` writes the keys of a map in their order. -/
def auditHashPayload (prevHash : GoString) (item : AuditLog) (invalid : GoString) : List (GoString × JsonField) :=
  let clean (value : GoString) : JsonField := .string (replaceInvalidUTF8 value invalid)
  [(str "action", clean item.action),
    (str "details", clean item.details),
    (str "host", clean item.host),
    (str "latency_ms", .number item.latencyMs),
    (str "method", clean item.method),
    (str "path", clean item.path),
    (str "prev_hash", .string prevHash),
    (str "remote_addr", clean item.remoteAddr),
    (str "request_id", clean item.requestID),
    (str "resource_id", .optional item.resourceID),
    (str "resource_type", clean item.resourceType),
    (str "status_code", .number item.statusCode),
    (str "timestamp", .string (formatRFC3339Nano item.timestamp)),
    (str "user_agent", clean item.userAgent),
    (str "user_id", .optional item.userID)]

section Mac
variable (mac : GoString → GoString)

def signAuditPayload (encoded : GoString) : GoString := hexEncode (mac encoded)

def computeAuditHash (prevHash : GoString) (item : AuditLog) : GoString :=
  signAuditPayload mac (objectText (auditHashPayload prevHash item runeErrorText))

def computeLegacyAuditHash (prevHash : GoString) (item : AuditLog) : GoString :=
  signAuditPayload mac (replaceAll legacyInvalidUTF8Marker legacyInvalidUTF8Escape
    (objectText (auditHashPayload prevHash item legacyInvalidUTF8Marker)))

def auditLogHasInvalidUTF8 (item : AuditLog) : Bool := item.texts.any fun value => !validString value

def sanitizeAuditLog (item : AuditLog) : AuditLog :=
  let valid (value : GoString) : GoString := replaceInvalidUTF8 value runeErrorText
  { item with
    requestID := valid item.requestID
    action := valid item.action
    resourceType := valid item.resourceType
    method := valid item.method
    host := valid item.host
    path := valid item.path
    remoteAddr := valid item.remoteAddr
    userAgent := valid item.userAgent
    details := valid item.details }

inductive ChainError
  | chainMismatch (id : ℕ)
  | hashMismatch (id : ℕ)
deriving DecidableEq

def verifyAuditChainSegment : GoString → List AuditLog → Except ChainError GoString
  | prevHash, [] => .ok prevHash
  | prevHash, item :: items =>
    if item.prevHash ≠ prevHash then .error (.chainMismatch item.id)
    else if item.hash ≠ computeAuditHash mac prevHash item ∧
        (auditLogHasInvalidUTF8 item = false ∨ item.hash ≠ computeLegacyAuditHash mac prevHash item) then
      .error (.hashMismatch item.id)
    else verifyAuditChainSegment item.hash items

def verifyAuditHashChainFrom : GoString → List AuditLog → Except ChainError Unit
  | _, [] => .ok ()
  | prevHash, item :: items =>
    match verifyAuditChainSegment mac prevHash [item] with
    | .error e => .error e
    | .ok next => verifyAuditHashChainFrom next items

def verifyAuditHashChain (items : List AuditLog) : Except ChainError Unit :=
  verifyAuditHashChainFrom mac [] items

/-! ## Verification is membership in a chain -/

def Accepts (prevHash : GoString) (item : AuditLog) : Prop :=
  item.prevHash = prevHash ∧ (item.hash = computeAuditHash mac prevHash item ∨
    auditLogHasInvalidUTF8 item = true ∧ item.hash = computeLegacyAuditHash mac prevHash item)

abbrev AuditChain (prevHash : GoString) (items : List AuditLog) : Prop :=
  HashChain.Chain (Accepts mac) AuditLog.hash prevHash items

abbrev endHash (prevHash : GoString) (items : List AuditLog) : GoString :=
  HashChain.endOf AuditLog.hash prevHash items

theorem verifyAuditChainSegment_cons (prevHash : GoString) (item : AuditLog) (items : List AuditLog) :
    (Accepts mac prevHash item ∧
      verifyAuditChainSegment mac prevHash (item :: items) = verifyAuditChainSegment mac item.hash items) ∨
    (¬ Accepts mac prevHash item ∧ ∃ e, verifyAuditChainSegment mac prevHash (item :: items) = .error e) := by
  rw [verifyAuditChainSegment]
  by_cases h1 : item.prevHash = prevHash
  · rw [if_neg (not_not.mpr h1)]
    by_cases h2 : item.hash ≠ computeAuditHash mac prevHash item ∧
        (auditLogHasInvalidUTF8 item = false ∨ item.hash ≠ computeLegacyAuditHash mac prevHash item)
    · rw [if_pos h2]
      refine Or.inr ⟨?_, _, rfl⟩
      rintro ⟨-, hcur | ⟨hinv, hleg⟩⟩
      · exact h2.1 hcur
      · rcases h2.2 with h | h
        · rw [hinv] at h
          exact absurd h (by decide)
        · exact h hleg
    · rw [if_neg h2]
      refine Or.inl ⟨⟨h1, ?_⟩, rfl⟩
      by_cases hcur : item.hash = computeAuditHash mac prevHash item
      · exact Or.inl hcur
      · rw [not_and, not_or, not_not, Bool.not_eq_false] at h2
        exact Or.inr (h2 hcur)
  · rw [if_pos h1]
    exact Or.inr ⟨fun h => h1 h.1, _, rfl⟩

theorem verifyAuditChainSegment_ok_iff (prevHash next : GoString) (items : List AuditLog) :
    verifyAuditChainSegment mac prevHash items = .ok next ↔ AuditChain mac prevHash items ∧
      next = endHash prevHash items := by
  induction items generalizing prevHash with
  | nil =>
    rw [verifyAuditChainSegment, Except.ok.injEq]
    exact ⟨fun h => ⟨trivial, h.symm⟩, fun h => h.2.symm⟩
  | cons item items ih =>
    rcases verifyAuditChainSegment_cons mac prevHash item items with ⟨hacc, heq⟩ | ⟨hnot, e, heq⟩
    · rw [heq, ih]
      exact ⟨fun h => ⟨⟨hacc, h.1⟩, h.2⟩, fun h => ⟨h.1.2, h.2⟩⟩
    · rw [heq]
      exact ⟨fun h => (by cases h), fun h => absurd h.1.1 hnot⟩

theorem verifyAuditHashChain_ok_iff (items : List AuditLog) :
    verifyAuditHashChain mac items = .ok () ↔ AuditChain mac [] items := by
  have hfrom : ∀ prevHash, verifyAuditHashChainFrom mac prevHash items = .ok () ↔ AuditChain mac prevHash items := by
    induction items with
    | nil => exact fun prevHash => ⟨fun _ => trivial, fun _ => rfl⟩
    | cons item items ih =>
      intro prevHash
      rw [verifyAuditHashChainFrom]
      rcases verifyAuditChainSegment_cons mac prevHash item [] with ⟨hacc, heq⟩ | ⟨hnot, e, heq⟩
      · rw [heq]
        exact ⟨fun h => ⟨hacc, (ih _).mp h⟩, fun h => (ih _).mpr h.2⟩
      · rw [heq]
        exact ⟨fun h => (by cases h), fun h => absurd h.1 hnot⟩
  exact hfrom []

end Mac
end Portlyn.Audit
