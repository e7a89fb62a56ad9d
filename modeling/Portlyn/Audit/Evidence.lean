import Portlyn.Audit.Hash

/-! # What the last hash commits to

Both encodings of a row are objects over one alphabet of tokens (`payloadWith`), so equal hashes
give equal tokens (`payloadWith_inj`). The current encoding tells texts apart up to the replacement
of bytes that are no UTF-8. The older one writes the same escape for such a byte and for the rune
U+FDD0: with two of them in a row there is a second row with the same hash. -/
namespace Portlyn.Audit
open Go Lib
set_option autoImplicit false

/-! ## The two encodings as tokens -/

def currentToken (x : Symbol) : JsonToken := .rune x.toRune

def legacyToken : Symbol → JsonToken
  | .rune r => if r = 0xFDD0 then .escaped else .rune r
  | .bad _ => .escaped

def textWith (token : Symbol → JsonToken) (s : GoString) : JsonField :=
  .text ((symbols s).map token)

def payloadWith (token : Symbol → JsonToken) (prevHash : GoString) (item : AuditLog) : List (GoString × JsonField) :=
  [(str "action", textWith token item.action),
    (str "details", textWith token item.details),
    (str "host", textWith token item.host),
    (str "latency_ms", .number item.latencyMs),
    (str "method", textWith token item.method),
    (str "path", textWith token item.path),
    (str "prev_hash", .string prevHash),
    (str "remote_addr", textWith token item.remoteAddr),
    (str "request_id", textWith token item.requestID),
    (str "resource_id", .optional item.resourceID),
    (str "resource_type", textWith token item.resourceType),
    (str "status_code", .number item.statusCode),
    (str "timestamp", .string (formatRFC3339Nano item.timestamp)),
    (str "user_agent", textWith token item.userAgent),
    (str "user_id", .optional item.userID)]

/-- A bad byte read as the rune `m`. -/
def Symbol.fill (m : ℕ) : Symbol → Symbol
  | .rune r => .rune r
  | .bad _ => .rune m

theorem symbols_replaceInvalidUTF8 {m : ℕ} (hm : IsScalar m) (s : GoString) :
    symbols (replaceInvalidUTF8 s (encodeRune m)) = (symbols s).map (Symbol.fill m) := by
  unfold replaceInvalidUTF8
  split_ifs with hvalid
  · have hrunes : ∀ x ∈ symbols s, Symbol.fill m x = x := by
      intro x hx
      have hx' := List.all_eq_true.mp hvalid x hx
      cases x with
      | rune r => rfl
      | bad b => simp at hx'
    exact ((List.map_congr_left hrunes).trans (List.map_id _)).symm
  · have hsc : ∀ r, Symbol.rune r ∈ symbols s → IsScalar r := fun r => isScalar_of_mem_symbols
    generalize symbols s = xs at hsc
    induction xs with
    | nil => rfl
    | cons x xs ih =>
      have htail := ih fun r hr => hsc r (by simp [hr])
      cases x with
      | rune r =>
        rw [List.flatMap_cons, symbols_encodeRune (hsc r (by simp)), htail]
        rfl
      | bad b =>
        rw [List.flatMap_cons, symbols_encodeRune hm, htail]
        rfl

theorem isScalar_runeError : IsScalar runeError := Or.inr (by decide)

theorem isScalar_marker : IsScalar 0xFDD0 := Or.inr (by decide)

theorem string_current (s : GoString) :
    JsonField.string (replaceInvalidUTF8 s runeErrorText) = textWith currentToken s := by
  rw [JsonField.string, runeErrorText, symbols_replaceInvalidUTF8 isScalar_runeError, List.map_map]
  congr 1
  apply List.map_congr_left
  intro x _
  cases x <;> rfl

theorem string_legacy (s : GoString) :
    (JsonField.string (replaceInvalidUTF8 s legacyInvalidUTF8Marker)).mark 0xFDD0 = textWith legacyToken s := by
  rw [JsonField.string, legacyInvalidUTF8Marker, symbols_replaceInvalidUTF8 isScalar_marker,
    JsonField.mark, List.map_map,
    List.map_map]
  congr 1
  apply List.map_congr_left
  intro x _
  cases x <;> rfl

def IsAscii (s : GoString) : Prop := ∀ b ∈ s, b.toNat < 0x80

theorem isAscii_formatRFC3339Nano (t : Instant) : IsAscii (formatRFC3339Nano t) := by
  intro b hb
  have hsep : ∀ c ∈ ([45, 84, 58, 46, 90] : GoString), c.toNat < 0x80 := by decide +kernel
  rcases mem_formatRFC3339Nano hb with h | h
  · have := h.2
    omega
  · exact hsep b h

theorem mark_string_of_ascii {s : GoString} (hs : IsAscii s) : (JsonField.string s).mark 0xFDD0 = .string s := by
  rw [JsonField.string, JsonField.mark, List.map_map, symbols_ascii hs, List.map_map, List.map_map]
  congr 1
  apply List.map_congr_left
  intro b hb
  have hlt := hs b hb
  have hne : b.toNat ≠ 0xFDD0 := by omega
  simp only [Function.comp_apply, Symbol.token, JsonToken.mark, if_neg hne]

theorem auditHashPayload_current (prevHash : GoString) (item : AuditLog) :
    auditHashPayload prevHash item runeErrorText = payloadWith currentToken prevHash item := by
  simp only [auditHashPayload, payloadWith, string_current]

theorem auditHashPayload_legacy {prevHash : GoString} (hp : IsAscii prevHash) (item : AuditLog) :
    ((auditHashPayload prevHash item legacyInvalidUTF8Marker).map fun e => (e.1, e.2.mark 0xFDD0)) =
      payloadWith legacyToken prevHash item := by
  simp only [auditHashPayload, payloadWith, List.map_cons, string_legacy, mark_string_of_ascii hp,
    mark_string_of_ascii (isAscii_formatRFC3339Nano _)]
  cases item.resourceID <;> cases item.userID <;> rfl

theorem legacy_text {prevHash : GoString} (hp : IsAscii prevHash) (item : AuditLog) :
    replaceAll legacyInvalidUTF8Marker legacyInvalidUTF8Escape
        (objectText (auditHashPayload prevHash item legacyInvalidUTF8Marker)) =
      objectText (payloadWith legacyToken prevHash item) := by
  have hkeys : ∀ e ∈ auditHashPayload prevHash item legacyInvalidUTF8Marker, ∀ b ∈ e.1, b.toNat < 0x80 := by
    have hall : ∀ key ∈ (auditHashPayload prevHash item legacyInvalidUTF8Marker).map Prod.fst,
      ∀ b ∈ key, b.toNat < 0x80 := by
      simp only [auditHashPayload, List.map_cons]
      decide +kernel
    exact fun e he => hall e.1 (List.mem_map_of_mem he)
  have hvalid : ∀ e ∈ auditHashPayload prevHash item legacyInvalidUTF8Marker, e.2.IsValid := by
    simp only [auditHashPayload, List.forall_mem_cons, List.not_mem_nil, false_implies, implies_true, and_true]
    refine ⟨?_, ?_, ?_, trivial, ?_, ?_, ?_, ?_, ?_, ?_, ?_, trivial, ?_, ?_, ?_⟩
    all_goals first | exact JsonField.string_isValid _ | exact JsonField.optional_isValid _
  have h := replaceAll_objectText isScalar_marker (by decide) (by decide) hkeys hvalid
  rw [auditHashPayload_legacy hp] at h
  exact h

/-! ## Equal texts, equal tokens -/

def AuditLog.plainFields (item : AuditLog) : Instant × Option ℕ × Option ℕ × ℤ × ℤ :=
  (item.timestamp, item.userID, item.resourceID, item.statusCode, item.latencyMs)

def ValidToken (token : Symbol → JsonToken) : Prop :=
  (∀ r, IsScalar r → (token (.rune r)).IsValid) ∧ ∀ b, (token (.bad b)).IsValid

theorem validToken_current : ValidToken currentToken :=
  ⟨fun _ hr => hr, fun _ => isScalar_runeError⟩

theorem validToken_legacy : ValidToken legacyToken := by
  refine ⟨fun r hr => ?_, fun _ => trivial⟩
  unfold legacyToken
  dsimp only
  split_ifs
  · trivial
  · exact hr

variable {token : Symbol → JsonToken}

theorem textWith_isValid (h : ValidToken token) (s : GoString) : (textWith token s).IsValid := by
  intro x hx
  obtain ⟨y, hy, rfl⟩ := List.mem_map.mp hx
  cases y with
  | rune r => exact h.1 r (isScalar_of_mem_symbols hy)
  | bad b => exact h.2 b

theorem payloadWith_isValid (h : ValidToken token) (prevHash : GoString) (item : AuditLog) :
    ∀ e ∈ payloadWith token prevHash item, e.2.IsValid := by
  simp only [payloadWith, List.forall_mem_cons, List.not_mem_nil, false_implies, implies_true, and_true]
  refine ⟨?_, ?_, ?_, trivial, ?_, ?_, ?_, ?_, ?_, ?_, ?_, trivial, ?_, ?_, ?_⟩
  all_goals first | exact textWith_isValid h _ | exact JsonField.string_isValid _ | exact JsonField.optional_isValid _

variable {token' : Symbol → JsonToken} {p : GoString} {a b : AuditLog}

theorem payloadWith_inj (ht : ValidToken token) (ht' : ValidToken token')
    {q : GoString} (hp : IsAscii p) (hq : IsAscii q)
    (h : objectText (payloadWith token p a) = objectText (payloadWith token' q b)) :
    p = q ∧ a.plainFields = b.plainFields ∧ a.texts.map (textWith token) = b.texts.map (textWith token') := by
  have hkeys : (payloadWith token p a).map Prod.fst = (payloadWith token' q b).map Prod.fst := rfl
  have heq := objectText_inj hkeys (payloadWith_isValid ht p a) (payloadWith_isValid ht' q b) h
  simp only [payloadWith, List.cons.injEq, Prod.mk.injEq, true_and, and_true] at heq
  obtain ⟨h1, h2, h3, h4, h5, h6, h7, h8, h9, h10, h11, h12, h13, h14, h15⟩ := heq
  have hts := formatRFC3339Nano_injective
    (JsonField.string_inj_of_ascii (isAscii_formatRFC3339Nano _) (isAscii_formatRFC3339Nano _) h13)
  refine ⟨JsonField.string_inj_of_ascii hp hq h7, ?_, ?_⟩
  · simp only [AuditLog.plainFields, hts, JsonField.optional_injective h15, JsonField.optional_injective h10,
      JsonField.number.inj h12, JsonField.number.inj h4]
  · simp only [AuditLog.texts, List.map_cons, List.map_nil, h1, h2, h3, h5, h6, h8, h9, h11, h14]

theorem payloadWith_congr (hplain : a.plainFields = b.plainFields)
    (htexts : a.texts.map (textWith token) = b.texts.map (textWith token')) :
    payloadWith token p a = payloadWith token' p b := by
  simp only [AuditLog.plainFields, Prod.mk.injEq] at hplain
  simp only [AuditLog.texts, List.map_cons, List.cons.injEq] at htexts
  obtain ⟨h1, h2, h3, h4, h5⟩ := hplain
  obtain ⟨t1, t2, t3, t4, t5, t6, t7, t8, t9⟩ := htexts
  simp only [payloadWith, h1, h2, h3, h4, h5, t1, t2, t3, t4, t5, t6, t7, t8, t9]

/-! ## Places that the older encoding escapes -/

def isEscape (x : Symbol) : Bool := legacyToken x = .escaped

def AuditLog.escapes (item : AuditLog) : ℕ := (item.texts.flatMap symbols).countP isEscape

def isBad : Symbol → Bool
  | .rune _ => false
  | .bad _ => true

theorem auditLogHasInvalidUTF8_iff (item : AuditLog) :
    auditLogHasInvalidUTF8 item = true ↔ ∃ x ∈ item.texts.flatMap symbols, isBad x = true := by
  have hvalid : ∀ s : GoString, validString s = false ↔ ∃ x ∈ symbols s, isBad x = true := by
    intro s
    rw [validString, List.all_eq_false]
    refine exists_congr fun x => and_congr_right fun _ => ?_
    cases x <;> simp [isBad]
  simp only [auditLogHasInvalidUTF8, List.any_eq_true, Bool.not_eq_true', hvalid, List.mem_flatMap]
  constructor
  · rintro ⟨s, hs, x, hx, hb⟩
    exact ⟨x, ⟨s, hs, hx⟩, hb⟩
  · rintro ⟨x, ⟨s, hs, hx⟩, hb⟩
    exact ⟨s, hs, x, hx, hb⟩

variable {l k : List GoString}

theorem textWith_inj (h : l.map (textWith token) = k.map (textWith token')) :
    List.Forall₂ (fun s t => (symbols s).map token = (symbols t).map token') l k := by
  induction l generalizing k with
  | nil =>
    cases k with
    | nil => exact List.Forall₂.nil
    | cons t k => simp at h
  | cons s l ih =>
    cases k with
    | nil => simp at h
    | cons t k =>
      rw [List.map_cons, List.map_cons, List.cons.injEq] at h
      exact List.Forall₂.cons (JsonField.text.inj h.1) (ih h.2)

theorem flatMap_tokens_eq (h : l.map (textWith token) = k.map (textWith token')) :
    (l.flatMap symbols).map token = (k.flatMap symbols).map token' := by
  have hf := textWith_inj h
  induction hf with
  | nil => rfl
  | cons hst _ ih => rw [List.flatMap_cons, List.flatMap_cons, List.map_append, List.map_append, hst,
      ih (by simp only [List.map_cons, List.cons.injEq] at h; exact h.2)]

/-! ## What is hashed -/

/-- Two rows agree on every hashed field, up to the replacement of bytes that are no UTF-8. -/
structure SameHashedFields (a b : AuditLog) : Prop where
  plain : a.plainFields = b.plainFields
  prevHash : a.prevHash = b.prevHash
  texts : a.texts.map (replaceInvalidUTF8 · runeErrorText) = b.texts.map (replaceInvalidUTF8 · runeErrorText)

def tokenRune : JsonToken → ℕ
  | .rune r => r
  | .escaped => 0

theorem clean_eq_iff (s t : GoString) : replaceInvalidUTF8 s runeErrorText = replaceInvalidUTF8 t runeErrorText ↔
    (symbols s).map currentToken = (symbols t).map currentToken := by
  have hfill : ∀ u, (symbols (replaceInvalidUTF8 u runeErrorText)).map Symbol.token = (symbols u).map currentToken :=
    fun u => JsonField.text.inj (string_current u)
  have hvalid : ∀ u, symbols (replaceInvalidUTF8 u runeErrorText) = (symbols u).map (Symbol.fill runeError) :=
    symbols_replaceInvalidUTF8 isScalar_runeError
  constructor
  · intro h
    rw [← hfill, ← hfill, h]
  · intro h
    apply symbols_injective
    rw [hvalid, hvalid]
    -- a filled symbol is a rune, so its token determines it
    have hback : ∀ x, Symbol.fill runeError x = .rune (Symbol.toRune x) := by
      intro x
      cases x <;> rfl
    have hrunes := congrArg (List.map fun token : JsonToken => Symbol.rune (tokenRune token)) h
    rw [List.map_map, List.map_map] at hrunes
    rw [List.map_congr_left fun x _ => hback x, List.map_congr_left fun x _ => hback x]
    exact hrunes

theorem cleanTexts_eq_iff (l k : List GoString) :
    l.map (replaceInvalidUTF8 · runeErrorText) = k.map (replaceInvalidUTF8 · runeErrorText) ↔
      l.map (textWith currentToken) = k.map (textWith currentToken) := by
  induction l generalizing k with
  | nil => cases k <;> simp
  | cons s l ih =>
    cases k with
    | nil => simp
    | cons t k => rw [List.map_cons, List.map_cons, List.map_cons, List.map_cons, List.cons.injEq, List.cons.injEq, ih,
        clean_eq_iff, textWith, textWith, JsonField.text.injEq]

variable {mac : GoString → GoString}

theorem isAscii_hash (h : Accepts mac p a) : IsAscii a.hash := by
  rcases h.2 with h | ⟨-, h⟩
  · rw [h]
    exact hexEncode_ascii _
  · rw [h]
    exact hexEncode_ascii _

theorem hash_ne_nil (hlen : ∀ x, mac x ≠ []) (h : Accepts mac p a) :
    a.hash ≠ [] := by
  intro hnil
  have hempty : ∀ x, signAuditPayload mac x ≠ [] := fun x hx => hlen x (hexEncode_injective hx)
  rcases h.2 with h | ⟨-, h⟩
  · exact hempty _ (h.symm.trans hnil)
  · exact hempty _ (h.symm.trans hnil)

theorem not_tokens_mixed (hinv : auditLogHasInvalidUTF8 b = true)
    (h : a.texts.map (textWith currentToken) = b.texts.map (textWith legacyToken)) : False := by
  obtain ⟨x, hx, hbad⟩ := (auditLogHasInvalidUTF8_iff b).mp hinv
  have hmem : JsonToken.escaped ∈ (b.texts.flatMap symbols).map legacyToken := by
    refine List.mem_map.mpr ⟨x, hx, ?_⟩
    cases x with
    | rune r => exact absurd hbad (by simp [isBad])
    | bad c => rfl
  rw [← flatMap_tokens_eq h] at hmem
  obtain ⟨y, -, hy⟩ := List.mem_map.mp hmem
  exact JsonToken.noConfusion hy

theorem noMark_of_escapes_one (ha : auditLogHasInvalidUTF8 a = true) (hone : a.escapes = 1) :
    ∀ s ∈ a.texts, Symbol.rune 0xFDD0 ∉ symbols s := by
  intro s hs hmem
  obtain ⟨x, hx, hbad⟩ := (auditLogHasInvalidUTF8_iff a).mp ha
  have hmark : Symbol.rune 0xFDD0 ∈ a.texts.flatMap symbols := List.mem_flatMap.mpr ⟨s, hs, hmem⟩
  have hesc : isEscape x = true := by
    cases x with
    | rune r => exact absurd hbad (by simp [isBad])
    | bad d => rfl
  have hlen : (((a.texts.flatMap symbols).filter isEscape)).length = 1 := by
    rw [← List.countP_eq_length_filter]
    exact hone
  obtain ⟨y, hy⟩ := List.length_eq_one_iff.mp hlen
  have h1 : x ∈ (a.texts.flatMap symbols).filter isEscape := List.mem_filter.mpr ⟨hx, hesc⟩
  have h2 : Symbol.rune 0xFDD0 ∈ (a.texts.flatMap symbols).filter isEscape := List.mem_filter.mpr ⟨hmark, by decide⟩
  rw [hy, List.mem_singleton] at h1 h2
  rw [h1, ← h2] at hbad
  exact absurd hbad (by decide)

def JsonToken.recover : JsonToken → JsonToken
  | .rune r => .rune r
  | .escaped => .rune runeError

def JsonField.recover : JsonField → JsonField
  | .text tokens => .text (tokens.map JsonToken.recover)
  | v => v

theorem textWith_recover {s : GoString} (h : Symbol.rune 0xFDD0 ∉ symbols s) :
    JsonField.recover (textWith legacyToken s) = textWith currentToken s := by
  rw [textWith, textWith, JsonField.recover, List.map_map]
  congr 1
  apply List.map_congr_left
  intro x hx
  cases x with
  | rune r =>
    have hr : r ≠ 0xFDD0 := by
      rintro rfl
      exact h hx
    rw [Function.comp_apply, legacyToken, if_neg hr]
    rfl
  | bad b => rfl

theorem escapes_eq_count (a : AuditLog) : a.escapes = ((a.texts.flatMap symbols).map legacyToken).count .escaped := by
  rw [List.count, List.countP_map]
  apply List.countP_congr
  intro x _
  simp [isEscape]

theorem tokens_of_escapes_one (ha : auditLogHasInvalidUTF8 a = true)
    (hb : auditLogHasInvalidUTF8 b = true) (hone : a.escapes = 1)
    (h : a.texts.map (textWith legacyToken) = b.texts.map (textWith legacyToken)) :
    a.texts.map (textWith currentToken) = b.texts.map (textWith currentToken) := by
  have honeb : b.escapes = 1 := by
    rw [escapes_eq_count, ← flatMap_tokens_eq h, ← escapes_eq_count, hone]
  have hrecover : ∀ c : AuditLog, auditLogHasInvalidUTF8 c = true → c.escapes = 1 →
      c.texts.map (textWith currentToken) = (c.texts.map (textWith legacyToken)).map JsonField.recover := by
    intro c hc hc1
    rw [List.map_map]
    apply List.map_congr_left
    intro s hs
    exact (textWith_recover (noMark_of_escapes_one hc hc1 s hs)).symm
  rw [hrecover a ha hone, hrecover b hb honeb, h]

/-! ## Rows with equal hashes -/

section Commit
variable {mac : GoString → GoString} (hinj : Function.Injective mac)
include hinj

theorem signAuditPayload_inj {x y : GoString} (h : signAuditPayload mac x = signAuditPayload mac y) : x = y :=
  hinj (hexEncode_injective h)

theorem sameHashedFields_of_hash_eq {p q : GoString} {a b : AuditLog} (hp : IsAscii p)
    (hq : IsAscii q) (ha : Accepts mac p a) (hb : Accepts mac q b)
    (hcond : a.hash = computeAuditHash mac a.prevHash a ∨ a.escapes = 1)
    (hash_eq : a.hash = b.hash) : p = q ∧ SameHashedFields a b := by
  obtain ⟨hpa, ha⟩ := ha
  obtain ⟨hqb, hb⟩ := hb
  subst hpa hqb
  simp only [computeAuditHash, computeLegacyAuditHash, auditHashPayload_current, legacy_text hp,
    legacy_text hq] at ha hb hcond
  -- the fields agree as soon as the current tokens do
  have hdone : a.prevHash = b.prevHash → a.plainFields = b.plainFields →
      a.texts.map (textWith currentToken) = b.texts.map (textWith currentToken) →
      a.prevHash = b.prevHash ∧ SameHashedFields a b :=
    fun h1 h2 h3 => ⟨h1, h2, h1, (cleanTexts_eq_iff _ _).mpr h3⟩
  rcases ha with ha | ⟨hainv, ha⟩
  · rw [ha] at hash_eq
    rcases hb with hb | ⟨hbinv, hb⟩
    · rw [hb] at hash_eq
      obtain ⟨h1, h2, h3⟩ :=
        payloadWith_inj validToken_current validToken_current hp hq
        (signAuditPayload_inj hinj hash_eq)
      exact hdone h1 h2 h3
    · rw [hb] at hash_eq
      obtain ⟨-, -, h3⟩ :=
        payloadWith_inj validToken_current validToken_legacy hp hq
        (signAuditPayload_inj hinj hash_eq)
      exact (not_tokens_mixed hbinv h3).elim
  · have hone : a.escapes = 1 := by
      rcases hcond with hcur | hone
      · rw [ha] at hcur
        obtain ⟨-, -, h3⟩ := payloadWith_inj validToken_legacy validToken_current hp hp (signAuditPayload_inj hinj hcur)
        exact (not_tokens_mixed hainv h3.symm).elim
      · exact hone
    rw [ha] at hash_eq
    rcases hb with hb | ⟨hbinv, hb⟩
    · rw [hb] at hash_eq
      obtain ⟨-, -, h3⟩ :=
        payloadWith_inj validToken_legacy validToken_current hp hq
        (signAuditPayload_inj hinj hash_eq)
      exact (not_tokens_mixed hainv h3.symm).elim
    · rw [hb] at hash_eq
      obtain ⟨h1, h2, h3⟩ :=
        payloadWith_inj validToken_legacy validToken_legacy hp hq
        (signAuditPayload_inj hinj hash_eq)
      exact hdone h1 h2 (tokens_of_escapes_one hainv hbinv hone h3)

theorem prevHash_eq_of_hash_eq {p q : GoString} {a b : AuditLog} (hp : IsAscii p) (hq : IsAscii q)
    (ha : Accepts mac p a) (hb : Accepts mac q b) (hash_eq : a.hash = b.hash) : p = q := by
  have hform : ∀ (p : GoString) (a : AuditLog), IsAscii p → Accepts mac p a →
      ∃ token, ValidToken token ∧ a.hash = signAuditPayload mac (objectText (payloadWith token p a)) := by
    rintro p a hp ⟨-, h | ⟨-, h⟩⟩
    · rw [computeAuditHash, auditHashPayload_current] at h
      exact ⟨currentToken, validToken_current, h⟩
    · rw [computeLegacyAuditHash, legacy_text hp] at h
      exact ⟨legacyToken, validToken_legacy, h⟩
  obtain ⟨token, ht, h⟩ := hform p a hp ha
  obtain ⟨token', ht', h'⟩ := hform q b hq hb
  rw [h, h'] at hash_eq
  exact (payloadWith_inj ht ht' hp hq (signAuditPayload_inj hinj hash_eq)).1

theorem nodup_prevHash (hlen : ∀ x, mac x ≠ []) {items : List AuditLog}
    (h : AuditChain mac [] items) : (items.map AuditLog.prevHash).Nodup := by
  have hs := HashChain.chain_strengthen _ _ (fun p a ha => isAscii_hash ha) (List.forall_mem_nil _) h
    (fun _ _ => trivial)
  refine HashChain.nodup_prev _ _ ?_ ?_ ?_ hs
  · exact fun p a ha => ha.2.2.1
  · exact fun p q a b ha hb => prevHash_eq_of_hash_eq hinj ha.1 hb.1 ha.2.2 hb.2.2
  · exact fun p a ha => hash_ne_nil hlen ha.2.2

end Commit

/-! ## A second row with the same older hash -/

def AuditLog.withTexts (item : AuditLog) : List GoString → AuditLog
  | [requestID, action, resourceType, method, host, path, remoteAddr, userAgent, details] =>
    { item with
      requestID := requestID
      action := action
      resourceType := resourceType
      method := method
      host := host
      path := path
      remoteAddr := remoteAddr
      userAgent := userAgent
      details := details }
  | _ => item

theorem withTexts_spec (item : AuditLog) (h : l.length = 9) :
    (item.withTexts l).texts = l ∧ (item.withTexts l).plainFields = item.plainFields ∧
      (item.withTexts l).prevHash = item.prevHash ∧ (item.withTexts l).hash = item.hash := by
  match l, h with
  | [_, _, _, _, _, _, _, _, _], _ => exact ⟨rfl, rfl, rfl, rfl⟩

/-- Symbols that a decoder reads back: every bad byte is `0xFF`, which is part of no rune. -/
def Writable (x : Symbol) : Prop :=
  match x with
  | .rune r => IsScalar r
  | .bad b => b = 0xFF

theorem decodeRune_ff (t : GoString) : decodeRune (0xFF :: t) = none := by
  unfold decodeRune
  rw [if_neg]
  rintro ⟨hsc, hpre⟩
  obtain ⟨b, u, hb, hbc, -⟩ := encodeRune_eq_cons hsc
  rw [hb, List.cons_prefix_cons] at hpre
  have hlead : ∀ r, IsScalar r → (encodeRune r).head? ≠ some 0xFF := by
    intro r hr hhead
    have hbound : r < 0x110000 := by
      rcases hr with h | h
      · omega
      · exact h.2
    unfold encodeRune at hhead
    split_ifs at hhead
    all_goals
      simp only [List.head?_cons, Option.some.injEq] at hhead
      have hval := congrArg UInt8.toNat hhead
      rw [UInt8.toNat_ofNat'] at hval
      have hff : (0xFF : UInt8).toNat = 255 := rfl
      omega
  exact hlead _ hsc (by rw [hb, hpre.1]; rfl)

theorem symbols_encodeSymbols {xs : List Symbol} (h : ∀ x ∈ xs, Writable x) : symbols (encodeSymbols xs) = xs := by
  induction xs with
  | nil => rfl
  | cons x xs ih =>
    have htail := ih fun y hy => h y (by simp [hy])
    have hx := h x (by simp)
    rw [encodeSymbols, List.flatMap_cons]
    cases x with
    | rune r =>
      rw [Symbol.encode, symbols_encodeRune hx]
      exact congrArg _ htail
    | bad b =>
      have hb : b = 0xFF := hx
      subst hb
      rw [Symbol.encode, List.singleton_append, symbols_bad (decodeRune_ff _)]
      exact congrArg _ htail

def AuditLog.respell (item : AuditLog) (yss : List (List Symbol)) : AuditLog :=
  item.withTexts (yss.map encodeSymbols)

variable {item : AuditLog}

theorem respell_accepts (hp : IsAscii p) (hprev : item.prevHash = p)
    (hhash : item.hash = computeLegacyAuditHash mac p item) {yss : List (List Symbol)}
    (hw : ∀ y ∈ yss.flatten, Writable y)
    (htok : yss.map (List.map legacyToken) = item.texts.map fun s => (symbols s).map legacyToken)
    (hbad : ∃ y ∈ yss.flatten, isBad y = true) :
    Accepts mac p (item.respell yss) ∧ (item.respell yss).hash = item.hash ∧
      (item.respell yss).texts.flatMap symbols = yss.flatten := by
  have hlen : (yss.map encodeSymbols).length = 9 := by
    have h := congrArg List.length htok
    rw [List.length_map, List.length_map] at h
    rw [List.length_map, h]
    rfl
  obtain ⟨htexts, hplain, hprev', hhash'⟩ := withTexts_spec item hlen
  have hsym : ∀ ys ∈ yss, symbols (encodeSymbols ys) = ys :=
    fun ys hys => symbols_encodeSymbols fun y hy => hw y (List.mem_flatten.mpr ⟨ys, hys, hy⟩)
  have hflat : (item.respell yss).texts.flatMap symbols = yss.flatten := by
    rw [AuditLog.respell, htexts, List.flatMap_map, List.flatMap_def, List.map_congr_left hsym, List.map_id']
  have hlegacy : (item.respell yss).texts.map (textWith legacyToken) = item.texts.map (textWith legacyToken) := by
    have h := congrArg (List.map JsonField.text) htok
    rw [List.map_map, List.map_map] at h
    rw [AuditLog.respell, htexts, List.map_map]
    refine Eq.trans (List.map_congr_left fun ys hys => ?_) h
    rw [Function.comp_apply, textWith, hsym ys hys]
    rfl
  refine ⟨⟨hprev'.trans hprev, Or.inr ⟨?_, ?_⟩⟩, hhash', hflat⟩
  · rw [auditLogHasInvalidUTF8_iff, hflat]
    exact hbad
  · have hpayload : payloadWith legacyToken p (item.respell yss) = payloadWith legacyToken p item :=
      payloadWith_congr hplain hlegacy
    rw [computeLegacyAuditHash, legacy_text hp] at hhash ⊢
    rw [hpayload]
    exact hhash'.trans hhash

def toBad (x : Symbol) : Symbol := if isEscape x then .bad 0xFF else x

theorem legacyToken_toBad (x : Symbol) : legacyToken (toBad x) = legacyToken x := by
  unfold toBad
  split_ifs with h
  · exact (of_decide_eq_true h).symm
  · rfl

variable {x : Symbol}

theorem writable_toBad (hx : x ∈ l.flatMap symbols) : Writable (toBad x) := by
  obtain ⟨s, -, hx⟩ := List.mem_flatMap.mp hx
  unfold toBad
  split_ifs with h
  · rfl
  · cases x with
    | rune r => exact isScalar_of_mem_symbols hx
    | bad b => exact absurd rfl h

/-- The texts `l`, one with the symbols `us`, `y` and `vs`, and the texts `k`; all escaped places
but that of `y` are bad bytes. -/
def variant (l : List GoString) (us vs : List Symbol) (k : List GoString) (y : Symbol) : List (List Symbol) :=
  l.map (fun t => (symbols t).map toBad) ++ (us.map toBad ++ y :: vs.map toBad) :: k.map fun t => (symbols t).map toBad

theorem flatten_variant (l : List GoString) (us vs : List Symbol) (k : List GoString) (y : Symbol) :
    (variant l us vs k y).flatten = (l.flatMap symbols ++ us).map toBad ++
      y :: (vs ++ k.flatMap symbols).map toBad := by
  simp only [variant, List.flatten_append, List.flatten_cons, List.map_append, List.append_assoc, List.cons_append,
    List.flatMap_def, List.map_flatten, List.map_map, Function.comp_def]

variable {us vs : List Symbol}

theorem tokens_variant {s : GoString} {y : Symbol} (hs : symbols s = us ++ x :: vs)
    (hxy : legacyToken y = legacyToken x) :
    (variant l us vs k y).map (List.map legacyToken) = (l ++ s :: k).map fun t => (symbols t).map legacyToken := by
  simp only [variant, List.map_append, List.map_cons, List.map_map, Function.comp_def, legacyToken_toBad, hs, hxy]

theorem current_marker_ne (left right : List Symbol) :
    (left ++ Symbol.bad 0xFF :: right).map currentToken ≠ (left ++ Symbol.rune 0xFDD0 :: right).map currentToken := by
  intro h
  simp only [List.map_append, List.map_cons] at h
  have hhead := (List.cons.inj (List.append_cancel_left h)).1
  exact absurd hhead (by decide)

theorem exists_other_escape {left right : List Symbol}
    (hsplit : item.texts.flatMap symbols = left ++ x :: right) (hx : isEscape x = true)
    (hne : item.escapes ≠ 1) : ∃ z ∈ left ++ right, isEscape z = true := by
  by_contra hno
  refine hne ?_
  have hzero : (left ++ right).countP isEscape = 0 := by
    rw [List.countP_eq_zero]
    exact fun z hz hze => hno ⟨z, hz, hze⟩
  rw [AuditLog.escapes, hsplit, List.countP_append, List.countP_cons, if_pos hx]
  rw [List.countP_append] at hzero
  omega

theorem writable_variant {texts : List GoString} {y : Symbol}
    (hsplit : texts.flatMap symbols = (l.flatMap symbols ++ us) ++ x :: (vs ++ k.flatMap symbols))
    (hy : Writable y) : ∀ z ∈ (variant l us vs k y).flatten, Writable z := by
  intro z hz
  rw [flatten_variant] at hz
  rcases List.mem_append.mp hz with hz | hz
  · obtain ⟨w, hw, rfl⟩ := List.mem_map.mp hz
    exact writable_toBad (hsplit ▸ List.mem_append_left _ hw)
  · rcases List.mem_cons.mp hz with rfl | hz
    · exact hy
    · obtain ⟨w, hw, rfl⟩ := List.mem_map.mp hz
      exact writable_toBad (hsplit ▸ List.mem_append_right _ (List.mem_cons_of_mem _ hw))

theorem bad_mem_variant
    (hother : ∃ z ∈ (l.flatMap symbols ++ us) ++ (vs ++ k.flatMap symbols), isEscape z = true)
    (y : Symbol) : ∃ z ∈ (variant l us vs k y).flatten, isBad z = true := by
  obtain ⟨z, hz, hze⟩ := hother
  refine ⟨.bad 0xFF, ?_, rfl⟩
  have hzb : toBad z = .bad 0xFF := if_pos hze
  rw [flatten_variant, ← hzb]
  rcases List.mem_append.mp hz with hz | hz
  · exact List.mem_append_left _ (List.mem_map_of_mem hz)
  · exact List.mem_append_right _ (List.mem_cons_of_mem _ (List.mem_map_of_mem hz))

theorem exists_other_row (hp : IsAscii p)
    (hprev : item.prevHash = p) (hinv : auditLogHasInvalidUTF8 item = true)
    (hhash : item.hash = computeLegacyAuditHash mac p item) (hne : item.escapes ≠ 1) :
    ∃ other, Accepts mac p other ∧ other.hash = item.hash ∧ ¬ SameHashedFields item other := by
  obtain ⟨x, hx, hxbad⟩ := (auditLogHasInvalidUTF8_iff item).mp hinv
  have hxesc : isEscape x = true := by
    cases x with
    | rune r => exact absurd hxbad (by simp [isBad])
    | bad d => rfl
  obtain ⟨s, hs, hxs⟩ := List.mem_flatMap.mp hx
  obtain ⟨l, k, hlk⟩ := List.append_of_mem hs
  obtain ⟨us, vs, huv⟩ := List.append_of_mem hxs
  have hxt : legacyToken x = .escaped := of_decide_eq_true hxesc
  have hsplit : item.texts.flatMap symbols = (l.flatMap symbols ++ us) ++ x :: (vs ++ k.flatMap symbols) := by
    rw [hlk, List.flatMap_append, List.flatMap_cons, huv]
    simp only [List.append_assoc, List.cons_append]
  have hother := exists_other_escape hsplit hxesc hne
  have haccept : ∀ y, Writable y → legacyToken y = .escaped → Accepts mac p (item.respell (variant l us vs k y)) ∧
      (item.respell (variant l us vs k y)).hash = item.hash ∧
      (item.respell (variant l us vs k y)).texts.flatMap symbols = (variant l us vs k y).flatten := by
    intro y hy hyt
    refine respell_accepts hp hprev hhash (writable_variant hsplit hy) ?_ (bad_mem_variant hother y)
    rw [hlk]
    exact tokens_variant huv (hyt.trans hxt.symm)
  obtain ⟨hA, hAhash, hAflat⟩ := haccept (.bad 0xFF) rfl rfl
  obtain ⟨hB, hBhash, hBflat⟩ := haccept (.rune 0xFDD0) isScalar_marker rfl
  by_cases hsame : SameHashedFields item (item.respell (variant l us vs k (.bad 0xFF)))
  · refine ⟨_, hB, hBhash, fun hsame' => ?_⟩
    have h := hsame.texts.symm.trans hsame'.texts
    rw [cleanTexts_eq_iff] at h
    have htok := flatMap_tokens_eq h
    rw [hAflat, hBflat, flatten_variant, flatten_variant] at htok
    exact current_marker_ne _ _ htok
  · exact ⟨_, hA, hAhash, hsame⟩

/-! ## Tamper evidence -/

/-- For every list that verification accepts: every accepted list with the same last hash agrees
with it row by row exactly when each of its rows is in the current encoding or has a single escaped
place. -/
theorem tamperEvident_iff (mac : GoString → GoString) (hinj : Function.Injective mac) (hlen : ∀ x, mac x ≠ [])
    (items : List AuditLog) (hok : verifyAuditHashChain mac items = .ok ()) :
    (∀ others, verifyAuditHashChain mac others = .ok () → endHash [] others = endHash [] items →
      List.Forall₂ SameHashedFields items others) ↔
      ∀ item ∈ items, item.hash = computeAuditHash mac item.prevHash item ∨ item.escapes = 1 := by
  rw [verifyAuditHashChain_ok_iff] at hok
  have hnil : IsAscii [] := fun b hb => absurd hb List.not_mem_nil
  have hstart : ∀ p a, Accepts mac p a → a.hash ≠ [] := fun p a => hash_ne_nil hlen
  constructor
  · intro hall item hitem
    by_contra hno
    rw [not_or] at hno
    obtain ⟨pre, post, rfl⟩ := List.append_of_mem hitem
    have hchain := (HashChain.chain_append _ _ _ _ _).mp hok
    have hacc : Accepts mac (endHash [] pre) item := hchain.2.1
    have hascii : IsAscii (endHash [] pre) := by
      have hs := HashChain.chain_strengthen _ _ (fun p a ha => isAscii_hash ha) hnil hok
        (Q := fun _ => True) (fun _ _ => trivial)
      exact ((HashChain.chain_append _ _ _ _ _).mp hs).2.1.1
    obtain ⟨hprev, hcur | ⟨hinv, hleg⟩⟩ := hacc
    · exact hno.1 (by rw [hprev]; exact hcur)
    · obtain ⟨other, hother, hhash, hdiff⟩ := exists_other_row hascii hprev hinv hleg hno.2
      obtain ⟨hchain', hend⟩ := HashChain.chain_exchange _ _ hok hother hhash
      have hrel := hall _ ((verifyAuditHashChain_ok_iff mac _).mpr hchain') hend
      have hdrop := List.forall₂_drop pre.length hrel
      rw [List.drop_left, List.drop_left] at hdrop
      cases hdrop with
      | cons h _ => exact hdiff h
  · intro hcond others hothers hend
    rw [verifyAuditHashChain_ok_iff] at hothers
    have h1 := HashChain.chain_strengthen _ _ (fun p a ha => isAscii_hash ha) hnil hok hcond
    have h2 := HashChain.chain_strengthen _ _ (fun p a ha => isAscii_hash ha) hnil hothers
      (Q := fun _ => True) (fun _ _ => trivial)
    refine HashChain.forall2_of_endOf_eq _ _ ?_ ?_ ?_ h1 h2 hend.symm
    · rintro p q a b ⟨hp, hca, ha⟩ ⟨hq, -, hb⟩ hab
      exact sameHashedFields_of_hash_eq hinj hp hq ha hb hca hab
    · exact fun p a ha => hstart p a ha.2.2
    · exact fun p a ha => hstart p a ha.2.2

def sampleMac (x : GoString) : GoString := 0 :: x

theorem sampleMac_injective : Function.Injective sampleMac := fun _ _ h => (List.cons.inj h).2

def sampleLog (path userAgent : GoString) : AuditLog where
  id := 1
  timestamp := 0
  requestID := []
  userID := none
  action := str "login"
  resourceType := str "user"
  resourceID := some 7
  method := str "GET"
  host := []
  path := path
  statusCode := 403
  latencyMs := 0
  remoteAddr := []
  userAgent := userAgent
  details := []
  prevHash := []
  hash := []

/-- Two rows, the second one behind the first. -/
def signedLogs (path : GoString) : List AuditLog :=
  let sign := fun prev item => { item with prevHash := prev, hash := computeAuditHash sampleMac prev item }
  let first := sign [] (sampleLog path [])
  [first, sign first.hash (sampleLog (str "/b") (str "x"))]

/-- A bad byte in the first path, and the list with U+FFFD in its place. -/
theorem tamperEvident_two_rows :
    let items := signedLogs (str "/a" ++ [0xFF])
    let others := signedLogs (str "/a" ++ runeErrorText)
    verifyAuditHashChain sampleMac items = .ok () ∧ verifyAuditHashChain sampleMac others = .ok () ∧
      items ≠ others ∧ List.Forall₂ SameHashedFields items others := by
  intro items others
  have hitems : verifyAuditHashChain sampleMac items = .ok () := by decide +kernel
  have hothers : verifyAuditHashChain sampleMac others = .ok () := by decide +kernel
  have hcurrent := (tamperEvident_iff sampleMac sampleMac_injective (fun _ => List.cons_ne_nil _ _) items hitems).mpr
    (by decide +kernel)
  exact ⟨hitems, hothers, by decide +kernel, hcurrent others hothers (by decide +kernel)⟩

/-- The hash both rows below carry: the older one of a row with a bad byte in its path and in its
user agent. -/
def forgedHash : GoString := computeLegacyAuditHash sampleMac [] (sampleLog (str "/a" ++ [0xFF]) (str "x" ++ [0xFF]))

/-- Writing U+FDD0 for the bad byte of the path leaves the hash as it is. -/
theorem verifyAuditHashChain_forged :
    verifyAuditHashChain sampleMac
      [{ sampleLog (str "/a" ++ [0xFF]) (str "x" ++ [0xFF]) with hash := forgedHash }] = .ok () ∧
      verifyAuditHashChain sampleMac
        [{ sampleLog (str "/a" ++ encodeRune 0xFDD0) (str "x" ++ [0xFF]) with hash := forgedHash }]
          = .ok () ∧
      replaceInvalidUTF8 (str "/a" ++ [0xFF]) runeErrorText ≠
        replaceInvalidUTF8 (str "/a" ++ encodeRune 0xFDD0) runeErrorText := by
  decide +kernel

end Portlyn.Audit
