import Portlyn.Go.Json
import Portlyn.Go.Sql
import Portlyn.Go.Url
import Portlyn.Store.AppSettings

/-! # The storage of certmagic in the database (`certmagic_storage.go`)

The rows of the bucket `certmagic` of the table `distributed_kvs`. Every statement names the bucket,
so the rows of the other ones are left out. Private keys are encrypted; whether a row holds one is
told from its key. -/
namespace Portlyn.Acme
open Go Secureconfig Store
set_option autoImplicit false

/-! ## Rows -/

/-- `domain.DistributedKV`. -/
structure KVRow where
  key : GoString
  value : GoString
  modifiedAt : Instant
deriving DecidableEq

/-- The rows in the order in which they were created. Bucket and key are a unique index. -/
structure KVTable where
  rows : List KVRow
  nodup : (rows.map KVRow.key).Nodup

namespace KVTable

def empty : KVTable := ⟨[], List.nodup_nil⟩

def find (t : KVTable) (key : GoString) : Option KVRow := t.rows.find? fun r => r.key = key

def deleteWhere (t : KVTable) (p : GoString → Bool) : KVTable where
  rows := t.rows.filter fun r => !p r.key
  nodup := t.nodup.sublist (List.filter_sublist.map _)

def replace (t : KVTable) (row : KVRow) : KVTable where
  rows := (t.deleteWhere (· = row.key)).rows ++ [row]
  nodup := by
    rw [List.map_append, List.map_singleton]
    refine List.nodup_append.mpr ⟨(t.deleteWhere _).nodup, List.nodup_singleton _, ?_⟩
    intro key hkey key' hkey' heq
    obtain ⟨r, hr, rfl⟩ := List.mem_map.mp hkey
    rw [List.mem_singleton.mp hkey'] at heq
    have hkept := (List.mem_filter.mp hr).2
    rw [Bool.not_eq_true', decide_eq_false_iff_not] at hkept
    exact hkept heq

/-- `ORDER BY key`. -/
def ordered (rows : List KVRow) : List KVRow := rows.insertionSort fun a b => bytesLE a.key b.key = true

theorem find_eq_some {t : KVTable} {key : GoString} {row : KVRow} :
    t.find key = some row ↔ row ∈ t.rows ∧ row.key = key := by
  constructor
  · intro h
    have hkey : row.key = key := by simpa using List.find?_some h
    exact ⟨List.mem_of_find?_eq_some h, hkey⟩
  · rintro ⟨hmem, rfl⟩
    cases hfind : t.rows.find? fun r => r.key = row.key with
    | none => exact absurd (decide_eq_true rfl) (List.find?_eq_none.mp hfind row hmem)
    | some found =>
      have hkey : found.key = row.key := by simpa using List.find?_some hfind
      rw [find, hfind, List.inj_on_of_nodup_map t.nodup (List.mem_of_find?_eq_some hfind) hmem hkey]

theorem find_deleteWhere (t : KVTable) (p : GoString → Bool) (key : GoString) :
    (t.deleteWhere p).find key = if p key then none else t.find key := by
  have hiff : ∀ row, (t.deleteWhere p).find key = some row ↔ p key = false ∧ t.find key = some row := by
    intro row
    rw [find_eq_some, find_eq_some, deleteWhere, List.mem_filter, Bool.not_eq_true']
    constructor
    · rintro ⟨⟨hmem, hp⟩, rfl⟩
      exact ⟨hp, hmem, rfl⟩
    · rintro ⟨hp, hmem, rfl⟩
      exact ⟨⟨hmem, hp⟩, rfl⟩
  refine Option.ext fun row => ?_
  rw [hiff]
  cases p key with
  | true => simp
  | false => simp

theorem find_replace (t : KVTable) (row : KVRow) (key : GoString) :
    (t.replace row).find key = if key = row.key then some row else t.find key := by
  have hiff : ∀ found, (t.replace row).find key = some found ↔
      (t.deleteWhere (· = row.key)).find key = some found ∨ found = row ∧ row.key = key := by
    intro found
    rw [find_eq_some, find_eq_some, replace, List.mem_append, List.mem_singleton, or_and_right]
    refine or_congr Iff.rfl ⟨?_, ?_⟩
    · rintro ⟨rfl, hkey⟩
      exact ⟨rfl, hkey⟩
    · rintro ⟨rfl, hkey⟩
      exact ⟨rfl, hkey⟩
  refine Option.ext fun found => ?_
  rw [hiff, find_deleteWhere]
  by_cases hkey : key = row.key
  · simp [hkey, eq_comm]
  · simp [hkey, Ne.symm hkey]

end KVTable

/-! ## Keys -/

def cleanKey (key : GoString) : GoString := trimByte slash (replaceByte backslash slash key)

section Keys
variable [UnicodeTables]

def isCertMagicPrivateKeyPath (key : GoString) : Bool :=
  let key := toLower (trimSpace key)
  hasSuffix key (str ".key") || decide (str "/private/" <:+: key) || decide (str "siteprivatekey" <:+: key) ||
    decide (str "site_private_key" <:+: key)

end Keys

/-! ## Values -/

inductive StorageErr
  | database
  | notExist
  | secret (e : SecretErr)
deriving DecidableEq

structure CertMagicStorage where
  dialect : Dialect
  dataSecrets : List GoString

namespace CertMagicStorage
variable [UnicodeTables] [Aead] (s : CertMagicStorage)

/-- The value that is stored for a key. Values that look encrypted are stored as they are. -/
def storedValue (fresh : Option Entropy) (key value : GoString) : Except SecretErr GoString :=
  match s.dataSecrets with
  | [] => .ok value
  | active :: _ =>
    if isCertMagicPrivateKeyPath key && !isEncryptedValue value then encryptStringV2 fresh active value else .ok value

def store (fresh : Option Entropy) (ok : Bool) (now : Instant) (key value : GoString)
    (t : KVTable) : Except StorageErr KVTable :=
  match s.storedValue fresh (cleanKey key) value with
  | .error e => .error (.secret e)
  | .ok stored => if ok then .ok (t.replace ⟨cleanKey key, stored, now⟩) else .error .database

def loadedValue (row : KVRow) : Except SecretErr GoString :=
  if isCertMagicPrivateKeyPath row.key && isEncryptedValue row.value then
    decryptStringAuto s.dataSecrets row.value else .ok row.value

def load (ok : Bool) (key : GoString) (t : KVTable) : Except StorageErr GoString :=
  if ok then
    match t.find (cleanKey key) with
    | none => .error .notExist
    | some row =>
      match s.loadedValue row with
      | .error e => .error (.secret e)
      | .ok value => .ok value
  else .error .database

variable {s}

variable {key value : GoString}

theorem storedValue_cases {fresh : Option Entropy} {stored : GoString}
    (h : s.storedValue fresh key value = .ok stored) :
    stored = value ∨ isCertMagicPrivateKeyPath key = true ∧ isEncryptedValue value = false ∧
      ∃ active ∈ s.dataSecrets.head?, ∃ entropy, stored = sealedTextV2 entropy active value := by
  rw [storedValue] at h
  split at h
  · cases h
    exact Or.inl rfl
  · rename_i active rest hsecrets
    split at h
    · rename_i hplain
      rw [Bool.and_eq_true, Bool.not_eq_true'] at hplain
      obtain ⟨entropy, -, rfl⟩ := encryptStringV2_eq_ok h
      rw [hsecrets]
      exact Or.inr ⟨hplain.1, hplain.2, active, rfl, entropy, rfl⟩
    · cases h
      exact Or.inl rfl

theorem loadedValue_plain (row : KVRow) (h : isEncryptedValue row.value = false) :
    s.loadedValue row = .ok row.value := by
  rw [loadedValue, h, Bool.and_false]
  rfl

theorem loadedValue_encrypted (row : KVRow) (hkey : isCertMagicPrivateKeyPath row.key = true)
    (h : isEncryptedValue row.value = true) : s.loadedValue row = decryptStringAuto s.dataSecrets row.value := by
  rw [loadedValue, hkey, h]
  rfl

theorem load_eq_ok {t : KVTable} {row : KVRow} (h : t.find (cleanKey key) = some row) :
    s.load true key t = .ok value ↔ s.loadedValue row = .ok value := by
  rw [load, h]
  dsimp only
  cases s.loadedValue row with
  | error e => simp
  | ok loaded => simp

theorem store_eq_ok {fresh : Option Entropy} {ok : Bool} {now : Instant} {t t' : KVTable}
    (h : s.store fresh ok now key value t = .ok t') :
    ∃ stored, s.storedValue fresh (cleanKey key) value = .ok stored ∧ t' = t.replace ⟨cleanKey key, stored, now⟩ := by
  rw [store] at h
  split at h
  · cases h
  · rename_i stored hstored
    split at h
    · cases h
      exact ⟨stored, hstored, rfl⟩
    · cases h

variable (s)

/-! ## The tree -/

/-- `key = ? OR key LIKE ?`. -/
def concerns (key other : GoString) : Bool := other = key || like s.dialect (key ++ [slash, percent]) other

def delete (ok : Bool) (key : GoString) (t : KVTable) : Except StorageErr KVTable :=
  if ok then .ok (t.deleteWhere (s.concerns (cleanKey key))) else .error .database

/-- `Exists`, which takes a failure of the database for an empty answer. -/
def existsKey (ok : Bool) (key : GoString) (t : KVTable) : Bool := ok && t.rows.any fun r =>
    s.concerns (cleanKey key) r.key

def trimPrefix (text pre : GoString) : GoString := if hasPrefix text pre then text.drop pre.length else text

/-- What `List` makes of a row when it does not walk the tree. -/
def listed (pre key : GoString) : GoString :=
  let relative := trimPrefix (trimPrefix key pre) [slash]
  if relative = [] then key
  else
    let head := (relative.splitOn slash).headD []
    if head = [] then pre else joinPath [pre, head]

/-- One turn of the loop of `List`. A row whose key is the one that was asked for is listed each
time. -/
def listStep (pre : GoString) (keys : List GoString × List GoString) (key : GoString) : List GoString × List GoString :=
  if trimPrefix (trimPrefix key pre) [slash] = [] then (keys.1 ++ [key], keys.2)
  else if keys.2.any (· = listed pre key) then keys
  else (keys.1 ++ [listed pre key], keys.2 ++ [listed pre key])

def list (ok : Bool) (pre : GoString) (recursive : Bool) (t : KVTable) : Except StorageErr (List GoString) :=
  if ok then
    let pre := cleanKey pre
    let rows := KVTable.ordered (t.rows.filter fun r => s.concerns pre r.key)
    let keys := if recursive then rows.map KVRow.key else ((rows.map KVRow.key).foldl (listStep pre) ([], [])).1
    if keys = [] then .error .notExist else .ok keys
  else .error .database

structure KeyInfo where
  key : GoString
  modified : Option Instant
  size : ℕ
  isTerminal : Bool
deriving DecidableEq

def stat (ok ok' : Bool) (key : GoString) (t : KVTable) : Except StorageErr KeyInfo :=
  if ok then
    match t.find (cleanKey key) with
    | some row => .ok ⟨cleanKey key, some row.modifiedAt, row.value.length, true⟩
    | none => if s.existsKey ok' (cleanKey key) t then .ok ⟨cleanKey key, none, 0, false⟩ else .error .notExist
  else .error .database

/-! ## Certificates of a domain -/

def safeCertFolder (name : GoString) : GoString := replaceAll (str "*") (str "wildcard_") (toLower (trimSpace name))

/-- The keys of the folders that are deleted, from the keys under `certificates`. -/
def folderPrefixes (folder : GoString) (keys : List GoString) : List GoString :=
  keys.flatMap fun key =>
    let parts := key.splitOn slash
    (List.range parts.length).filterMap fun i =>
      if toLower (parts.getD i []) = folder then some ([slash].intercalate (parts.take (i + 1))) else none

/-- The order in which a `range` loop visits the keys of a map. -/
structure MapOrder where
  order : List GoString → List GoString
  perm : ∀ keys, (order keys).Perm keys

/-- `DeleteCertificatesForDomain`, with the rows that it leaves; `oks` is for the deletions. -/
def deleteCertificatesForDomain (ok : Bool) (oks : List Bool) (visit : MapOrder) (domainName : GoString) (t : KVTable) :
    Except StorageErr Unit × KVTable :=
  let folder := safeCertFolder domainName
  if folder = [] then (.ok (), t)
  else
    match s.list ok (str "certificates") true t with
    | .error e => (.error e, t)
    | .ok keys => deleteAll oks (visit.order (folderPrefixes folder keys).dedup) t
where
  deleteAll : List Bool → List GoString → KVTable → Except StorageErr Unit × KVTable
    | _, [], t => (.ok (), t)
    | oks, key :: rest, t =>
      match s.delete (oks.headD true) key t with
      | .error e => (.error e, t)
      | .ok t => deleteAll oks.tail rest t

end CertMagicStorage
end Portlyn.Acme
