import Portlyn.Acme.Storage

/-! # The storage of certmagic as a tree of keys

What the storage is for: a map from keys to files, where a key stands for itself and for the keys
below it. `TreeRun` says what such a map answers to a sequence of calls. The storage finds the keys
below a key with `LIKE`, so it is one only for calls that meet a condition on the keys that are
stored (`storage_is_tree`). -/
namespace Portlyn.Acme
open Go Secureconfig Store
set_option autoImplicit false

/-! ## Keys below a key -/

def under (key other : GoString) : Bool := other = key || hasPrefix other (key ++ [slash])

def underRoot (key other : GoString) : Bool := key = [] || under key other

/-- What a key is listed as when the tree is not walked: itself, or the key one level below. -/
def child (key other : GoString) : GoString :=
  if other = key then other
  else if key = [] then cutBefore slash other
  else key ++ slash :: cutBefore slash (other.drop (key.length + 1))

theorem not_mem_cleanKey (key : GoString) : backslash ∉ cleanKey key := by
  intro h
  have hmem : backslash ∈ (replaceByte backslash slash key).dropWhile (· = slash) :=
    (List.rdropWhile_prefix _ _).subset h
  exact not_mem_replaceByte (by decide) key ((List.dropWhile_suffix _).subset hmem)

theorem head_cleanKey (key : GoString) : (cleanKey key).head? ≠ some slash := by
  intro h
  have hpre : cleanKey key <+: (replaceByte backslash slash key).dropWhile (· = slash) := List.rdropWhile_prefix _ _
  obtain ⟨rest, hrest⟩ := hpre
  have hhead : ((replaceByte backslash slash key).dropWhile (· = slash)).head? = some slash := by
    rw [← hrest, List.head?_append, h]
    rfl
  have hnot := List.head?_dropWhile_not (fun b => decide (b = slash)) (replaceByte backslash slash key)
  rw [hhead] at hnot
  exact absurd hnot (by decide)

theorem last_cleanKey (key : GoString) : (cleanKey key).getLast? ≠ some slash := by
  intro h
  obtain ⟨hne, hlast⟩ := List.mem_getLast?_eq_getLast h
  refine List.rdropWhile_last_not (fun b => decide (b = slash))
    ((replaceByte backslash slash key).dropWhile (· = slash)) hne ?_
  exact decide_eq_true hlast.symm

theorem cleanKey_eq_self {key : GoString} (hslash : backslash ∉ key)
    (hhead : key.head? ≠ some slash) (hlast : key.getLast? ≠ some slash) : cleanKey key = key := by
  have hdrop : key.dropWhile (· = slash) = key := by
    cases key with
    | nil => rfl
    | cons b rest =>
      have hb : b ≠ slash := fun heq => hhead (congrArg some heq)
      rw [List.dropWhile_cons, if_neg (by rwa [decide_eq_true_eq])]
  rw [cleanKey, replaceByte_of_not_mem hslash, trimByte, hdrop, trimRightByte, List.rdropWhile_eq_self_iff]
  intro hne heq
  exact hlast ((List.getLast?_eq_getLast_of_ne_nil hne).trans (congrArg some (of_decide_eq_true heq)))

theorem cleanKey_cleanKey (key : GoString) : cleanKey (cleanKey key) = cleanKey key :=
  cleanKey_eq_self (not_mem_cleanKey key) (head_cleanKey key) (last_cleanKey key)

/-! ## The tree -/

structure File where
  value : GoString
  modified : Instant

abbrev Tree := GoString → Option File

inductive StorageCall
  | store (key value : GoString)
  | load (key : GoString)
  | delete (key : GoString)
  | existsKey (key : GoString)
  | list (key : GoString) (recursive : Bool)
  | stat (key : GoString)
  | deleteCertificatesForDomain (domainName : GoString)

inductive StorageAnswer
  | done
  | failed (e : StorageErr)
  | value (value : GoString)
  | found (found : Bool)
  | keys (keys : List GoString)
  | info (info : CertMagicStorage.KeyInfo)
deriving DecidableEq

/-- Whether the database and the source of randomness answer, the time, and the order of a `range`
loop. -/
structure StorageChance where
  ok : Bool
  ok' : Bool
  oks : List Bool
  fresh : Option Entropy
  now : Instant
  visit : CertMagicStorage.MapOrder

section Tree
variable [UnicodeTables]

/-- The keys of the certificates of a domain: `certificates`, the issuer, and the folder of the
domain. -/
def InFolder (domainName key : GoString) : Prop :=
  ∃ issuer name rest, key.splitOn slash = str "certificates" :: issuer :: name :: rest ∧
    toLower name = CertMagicStorage.safeCertFolder domainName

def Behaves (i : StorageChance) (before after : Tree) : StorageCall → StorageAnswer → Prop
  | .store key value, answer =>
    answer = .done ∧ after = Function.update before (cleanKey key) (some ⟨value, i.now⟩) ∨
      (i.ok = false ∨ i.fresh = none) ∧ (∃ e, answer = .failed e) ∧ after = before
  | .load key, answer =>
    after = before ∧ answer = if i.ok then
      match before (cleanKey key) with
      | some file => .value file.value
      | none => .failed .notExist
    else .failed .database
  | .delete key, answer =>
    if i.ok then answer = .done ∧ after = fun k => if under (cleanKey key) k then none else before k
    else answer = .failed .database ∧ after = before
  | .existsKey key, answer =>
    after = before ∧ ∃ found, answer = .found found ∧
      (found = true ↔ i.ok = true ∧ ∃ k, (before k).isSome ∧ under (cleanKey key) k = true)
  | .list key recursive, answer =>
    after = before ∧ (i.ok = false → answer = .failed .database) ∧
      (i.ok = true → ∃ keys : List GoString, keys.Nodup ∧
        (∀ x, x ∈ keys ↔ ∃ k, (before k).isSome ∧ underRoot (cleanKey key) k = true ∧
          x = if recursive then k else child (cleanKey key) k) ∧
        answer = if keys = [] then .failed .notExist else .keys keys)
  | .stat key, answer =>
    after = before ∧ if i.ok then
      match before (cleanKey key) with
      | some file => answer = .info ⟨cleanKey key, some file.modified, file.value.length, true⟩
      | none =>
        (i.ok' = true ∧ ∃ k, (before k).isSome ∧ under (cleanKey key) k = true) ∧
          answer = .info ⟨cleanKey key, none, 0, false⟩ ∨
          ¬ (i.ok' = true ∧ ∃ k, (before k).isSome ∧ under (cleanKey key) k = true) ∧ answer = .failed .notExist
    else answer = .failed .database
  | .deleteCertificatesForDomain domainName, _ => ∀ k, after k = before k ∨ after k = none ∧ InFolder domainName k

def TreeRun : Tree → List (StorageChance × StorageCall) → List StorageAnswer → Tree → Prop
  | tree, [], answers, tree' => answers = [] ∧ tree' = tree
  | tree, (i, call) :: calls, answers, tree' =>
    ∃ answer rest mid, answers = answer :: rest ∧ Behaves i tree mid call answer ∧
    TreeRun mid calls rest tree'

end Tree

namespace CertMagicStorage
variable [UnicodeTables] [Aead] (s : CertMagicStorage)

/-! ## Calls of the storage -/

def answerOf {α : Type} (f : α → StorageAnswer) : Except StorageErr α → StorageAnswer
  | .ok a => f a
  | .error e => .failed e

def call (i : StorageChance) : StorageCall → KVTable → StorageAnswer × KVTable
  | .store key value, t =>
    match s.store i.fresh i.ok i.now key value t with
    | .ok t' => (.done, t')
    | .error e => (.failed e, t)
  | .load key, t => (answerOf .value (s.load i.ok key t), t)
  | .delete key, t =>
    match s.delete i.ok key t with
    | .ok t' => (.done, t')
    | .error e => (.failed e, t)
  | .existsKey key, t => (.found (s.existsKey i.ok key t), t)
  | .list key recursive, t => (answerOf .keys (s.list i.ok key recursive t), t)
  | .stat key, t => (answerOf .info (s.stat i.ok i.ok' key t), t)
  | .deleteCertificatesForDomain domainName, t =>
    let (result, t') := s.deleteCertificatesForDomain i.ok i.oks i.visit domainName t
    (answerOf (fun _ => .done) result, t')

def run : List (StorageChance × StorageCall) → KVTable → List StorageAnswer × KVTable
  | [], t => ([], t)
  | (i, c) :: calls, t =>
    let (answer, t') := s.call i c t
    let (answers, t'') := run calls t'
    (answer :: answers, t'')

def tree (t : KVTable) : Tree := fun key =>
  (t.find key).bind fun row => (s.loadedValue row).toOption.map fun value => ⟨value, row.modifiedAt⟩

/-! ## The condition -/

/-- `LIKE` finds no stored key that is not below the key. -/
def exact (key : GoString) (t : KVTable) : Bool := t.rows.all fun r => s.concerns key r.key = under key r.key

def listExact (key : GoString) (t : KVTable) : Bool :=
  if key = [] then t.rows.all fun r => r.key = [] else s.exact key t

def ordinary (path : GoString) : Bool := (path.splitOn slash).all fun part => part ≠ [] &&
    part ≠ [dot] && part ≠ [dot, dot]

def sealed (row : KVRow) : Bool := isCertMagicPrivateKeyPath row.key && isEncryptedValue row.value

/-- The domain is found only where the folder of a domain is, and `LIKE` finds no key that is not in
such a folder. -/
def foldersExact (domainName : GoString) (t : KVTable) : Bool :=
  s.listExact (str "certificates") t &&
    (folderPrefixes (safeCertFolder domainName)
      ((t.rows.filter fun r => s.concerns (str "certificates") r.key).map KVRow.key)).all
      fun p => (p.splitOn slash).length = 3 && s.exact (cleanKey p) t

def admits (t : KVTable) : StorageCall → Bool
  | .store key value => !(isCertMagicPrivateKeyPath (cleanKey key) && isEncryptedValue value)
  | .load _ => true
  | .delete key => s.exact (cleanKey key) t
  | .existsKey key => s.exact (cleanKey key) t
  | .list key recursive => s.listExact (cleanKey key) t &&
    (recursive || t.rows.all fun r => !under (cleanKey key) r.key || r.key = cleanKey key ||
      ordinary (child (cleanKey key) r.key))
  | .stat key =>
    match t.find (cleanKey key) with
    | some row => !sealed row
    | none => s.exact (cleanKey key) t
  | .deleteCertificatesForDomain domainName => s.foldersExact domainName t

def admitsAll : List (StorageChance × StorageCall) → KVTable → Bool
  | [], _ => true
  | (i, c) :: calls, t => s.admits t c && admitsAll calls (s.call i c t).2

/-! ## Tables that stand for trees -/

structure Sound (t : KVTable) : Prop where
  readable : ∀ row ∈ t.rows, ∃ value, s.loadedValue row = .ok value
  clean : ∀ row ∈ t.rows, cleanKey row.key = row.key

variable {s} {t : KVTable}

theorem tree_of_row (h : s.Sound t) {row : KVRow} (hrow : row ∈ t.rows) :
    ∃ value, s.loadedValue row = .ok value ∧ s.tree t row.key = some ⟨value, row.modifiedAt⟩ := by
  obtain ⟨value, hvalue⟩ := h.readable row hrow
  refine ⟨value, hvalue, ?_⟩
  rw [tree, KVTable.find_eq_some.mpr ⟨hrow, rfl⟩, Option.bind_some, hvalue]
  rfl

theorem isSome_tree (h : s.Sound t) (key : GoString) : (s.tree t key).isSome ↔ ∃ row ∈ t.rows, row.key = key := by
  constructor
  · intro hsome
    obtain ⟨file, hfile⟩ := Option.isSome_iff_exists.mp hsome
    obtain ⟨row, hrow, -⟩ := Option.bind_eq_some_iff.mp hfile
    exact ⟨row, KVTable.find_eq_some.mp hrow⟩
  · rintro ⟨row, hrow, rfl⟩
    obtain ⟨value, -, htree⟩ := tree_of_row h hrow
    rw [htree]
    rfl

theorem tree_deleteWhere (p : GoString → Bool) (key : GoString) :
    s.tree (t.deleteWhere p) key = if p key then none else s.tree t key := by
  rw [tree, KVTable.find_deleteWhere]
  cases p key with
  | true => rfl
  | false => rfl

theorem Sound.deleteWhere (h : s.Sound t) (p : GoString → Bool) : s.Sound (t.deleteWhere p) where
  readable := fun row hrow => h.readable row (List.mem_filter.mp hrow).1
  clean := fun row hrow => h.clean row (List.mem_filter.mp hrow).1

/-! ## One call -/

variable {key : GoString}

theorem concerned (h : s.Sound t) (hexact : s.exact key t = true) :
    (t.rows.any fun r => s.concerns key r.key) = true ↔ ∃ k, (s.tree t k).isSome ∧ under key k = true := by
  have hconcerns : ∀ row ∈ t.rows, s.concerns key row.key = under key row.key :=
    fun row hrow => of_decide_eq_true (List.all_eq_true.mp hexact row hrow)
  rw [List.any_eq_true]
  constructor
  · rintro ⟨row, hrow, hconcern⟩
    exact ⟨row.key, (isSome_tree h row.key).mpr ⟨row, hrow, rfl⟩, hconcerns row hrow ▸ hconcern⟩
  · rintro ⟨k, hsome, hunder⟩
    obtain ⟨row, hrow, rfl⟩ := (isSome_tree h k).mp hsome
    exact ⟨row, hrow, (hconcerns row hrow).trans hunder⟩

theorem tree_delete (h : s.Sound t) (hexact : s.exact key t = true) :
    s.tree (t.deleteWhere (s.concerns key)) = fun k => if under key k then none else s.tree t k := by
  funext k
  rw [tree_deleteWhere]
  cases hk : s.tree t k with
  | none => rw [ite_self, ite_self]
  | some file =>
    obtain ⟨row, hrow, rfl⟩ := (isSome_tree h k).mp (by rw [hk]; rfl)
    rw [of_decide_eq_true (List.all_eq_true.mp hexact row hrow)]

theorem behaves_delete (h : s.Sound t) (i : StorageChance) (hexact : s.exact (cleanKey key) t = true) :
    Behaves i (s.tree t) (s.tree (s.call i (.delete key) t).2) (.delete key) (s.call i (.delete key) t).1 ∧
      s.Sound (s.call i (.delete key) t).2 := by
  rw [Behaves, call]
  cases i.ok with
  | true => exact ⟨⟨rfl, tree_delete h hexact⟩, h.deleteWhere _⟩
  | false => exact ⟨⟨rfl, rfl⟩, h⟩

theorem behaves_existsKey (h : s.Sound t) (i : StorageChance) (hexact : s.exact (cleanKey key) t = true) :
    Behaves i (s.tree t) (s.tree (s.call i (.existsKey key) t).2) (.existsKey key) (s.call i (.existsKey key) t).1 := by
  refine ⟨rfl, _, rfl, ?_⟩
  rw [existsKey, Bool.and_eq_true, concerned h hexact]

theorem behaves_load (h : s.Sound t) (i : StorageChance) (key : GoString) :
    Behaves i (s.tree t) (s.tree (s.call i (.load key) t).2) (.load key) (s.call i (.load key) t).1 := by
  refine ⟨rfl, ?_⟩
  rw [call, load]
  cases i.ok with
  | false => rfl
  | true =>
    cases hfind : t.find (cleanKey key) with
    | none =>
      rw [tree, hfind]
      rfl
    | some row =>
      obtain ⟨hrow, hkey⟩ := KVTable.find_eq_some.mp hfind
      obtain ⟨value, hvalue, htree⟩ := tree_of_row h hrow
      rw [← hkey, htree]
      dsimp only
      rw [hvalue]
      rfl

theorem loadedValue_unsealed {row : KVRow} (h : sealed row = false) : s.loadedValue row = .ok row.value := by
  rw [sealed] at h
  rw [loadedValue, h]
  rfl

theorem behaves_stat (h : s.Sound t) (i : StorageChance) (hcond : s.admits t (.stat key) = true) :
    Behaves i (s.tree t) (s.tree (s.call i (.stat key) t).2) (.stat key) (s.call i (.stat key) t).1 := by
  refine ⟨rfl, ?_⟩
  rw [call, stat]
  rw [admits] at hcond
  cases i.ok with
  | false => rfl
  | true =>
    cases hfind : t.find (cleanKey key) with
    | none =>
      rw [hfind] at hcond
      have hnone : s.tree t (cleanKey key) = none := by
        rw [tree, hfind]
        rfl
      have hfound : s.existsKey i.ok' (cleanKey key) t = true ↔
          i.ok' = true ∧ ∃ k, (s.tree t k).isSome ∧ under (cleanKey key) k = true := by
        rw [existsKey, Bool.and_eq_true, cleanKey_cleanKey, concerned h hcond]
      rw [hnone]
      by_cases hexists : s.existsKey i.ok' (cleanKey key) t = true
      · rw [if_pos hexists]
        exact Or.inl ⟨hfound.mp hexists, rfl⟩
      · rw [if_neg hexists]
        exact Or.inr ⟨mt hfound.mpr hexists, rfl⟩
    | some row =>
      rw [hfind, Bool.not_eq_true'] at hcond
      obtain ⟨hrow, hkey⟩ := KVTable.find_eq_some.mp hfind
      obtain ⟨value, hvalue, htree⟩ := tree_of_row h hrow
      rw [loadedValue_unsealed hcond] at hvalue
      rw [← hkey, htree, ← Except.ok.inj hvalue]
      rfl

/-! ## Files -/

variable {value stored : GoString}

theorem loadedValue_stored (hsecrets : ∀ secret ∈ s.dataSecrets, secret ≠ []) {fresh : Option Entropy} (now : Instant)
    (hcond : (isCertMagicPrivateKeyPath key && isEncryptedValue value) = false)
    (h : s.storedValue fresh key value = .ok stored) : s.loadedValue ⟨key, stored, now⟩ = .ok value := by
  rcases storedValue_cases h with rfl | ⟨hkey, -, active, hactive, entropy, rfl⟩
  · exact @loadedValue_unsealed _ _ s ⟨key, stored, now⟩ hcond
  · have hmem : active ∈ s.dataSecrets := List.mem_of_mem_head? hactive
    rw [loadedValue_encrypted ⟨key, sealedTextV2 entropy active value,
      now⟩ hkey (isEncryptedValue_sealedTextV2 entropy active value)]
    exact decryptStringAuto_sealedTextV2 hmem (hsecrets active hmem) entropy value

theorem tree_replace {now : Instant} (h : s.loadedValue ⟨key, stored, now⟩ = .ok value) :
    s.tree (t.replace ⟨key, stored, now⟩) = Function.update (s.tree t) key (some ⟨value, now⟩) := by
  funext k
  rw [tree, KVTable.find_replace]
  by_cases hk : k = key
  · subst hk
    rw [if_pos rfl, Option.bind_some, h, Function.update_self]
    rfl
  · rw [if_neg hk, Function.update_of_ne hk]
    rfl

theorem Sound.replace (h : s.Sound t) {now : Instant}
    (hvalue : s.loadedValue ⟨key, stored, now⟩ = .ok value) (hclean : cleanKey key = key) :
    s.Sound (t.replace ⟨key, stored, now⟩) := by
  have hrows : ∀ row ∈ (t.replace ⟨key, stored, now⟩).rows, row ∈ t.rows ∨ row = ⟨key, stored, now⟩ := by
    intro row hrow
    rcases List.mem_append.mp hrow with hrow | hrow
    · exact Or.inl (List.mem_filter.mp hrow).1
    · exact Or.inr (List.mem_singleton.mp hrow)
  refine ⟨fun row hrow => ?_, fun row hrow => ?_⟩
  · rcases hrows row hrow with hrow | rfl
    · exact h.readable row hrow
    · exact ⟨value, hvalue⟩
  · rcases hrows row hrow with hrow | rfl
    · exact h.clean row hrow
    · exact hclean

theorem store_failed {i : StorageChance} {e : StorageErr}
    (h : s.store i.fresh i.ok i.now key value t = .error e) : i.ok = false ∨ i.fresh = none := by
  rw [store] at h
  split at h
  · rename_i e' he'
    rw [storedValue] at he'
    split at he'
    · cases he'
    · split at he'
      · cases hfresh : i.fresh with
        | none => exact Or.inr rfl
        | some entropy =>
          rw [hfresh] at he'
          cases he'
      · cases he'
  · split at h
    · cases h
    · rename_i hok
      exact Or.inl (Bool.eq_false_iff.mpr hok)

theorem behaves_store (hsecrets : ∀ secret ∈ s.dataSecrets, secret ≠ []) (h : s.Sound t)
    (i : StorageChance) (hcond : s.admits t (.store key value) = true) :
    Behaves i (s.tree t) (s.tree (s.call i (.store key value) t).2) (.store key value)
      (s.call i (.store key value) t).1 ∧
      s.Sound (s.call i (.store key value) t).2 := by
  rw [admits, Bool.not_eq_true'] at hcond
  rw [call]
  cases hstore : s.store i.fresh i.ok i.now key value t with
  | error e => exact ⟨Or.inr ⟨store_failed hstore, ⟨e, rfl⟩, rfl⟩, h⟩
  | ok t' =>
    obtain ⟨stored, hstored, rfl⟩ := store_eq_ok hstore
    have hvalue := loadedValue_stored hsecrets i.now hcond hstored
    exact ⟨Or.inl ⟨rfl, tree_replace hvalue⟩, h.replace hvalue (cleanKey_cleanKey key)⟩

/-! ## Listing -/

section Paths
omit [UnicodeTables] [Aead]

theorem ordinary_part {path part : GoString} (h : ordinary path = true)
    (hpart : part ∈ path.splitOn slash) : part ≠ [] ∧ part ≠ [dot] ∧ part ≠ [dot, dot] := by
  have hall := List.all_eq_true.mp h part hpart
  simpa [and_assoc] using hall

variable {pre : GoString}

theorem joinPath_ordinary {head : GoString} (hpre : pre ≠ []) (hhead : head ≠ []) (hslash : pre.head? ≠ some slash)
    (h : ordinary (pre ++ slash :: head) = true) : joinPath [pre, head] = pre ++ slash :: head := by
  have hfirst : (pre ++ slash :: head).head? ≠ some slash := by
    cases pre with
    | nil => exact absurd rfl hpre
    | cons b rest => exact hslash
  have hfields : fields slash (pre ++ slash :: head) = (pre ++ slash :: head).splitOn slash :=
    List.filter_eq_self.mpr fun part hpart => decide_eq_true (ordinary_part h hpart).1
  have hkept : [pre, head].filter (· ≠ []) = [pre, head] := by simp [hpre, hhead]
  have hjoined : [slash].intercalate [pre, head] = pre ++ slash :: head := by simp [List.intercalate]
  rw [joinPath, hkept, if_neg (List.cons_ne_nil _ _), hjoined, cleanPath, if_neg hfirst, hfields,
    foldl_relativeStep (fun part hpart => (ordinary_part h hpart).2), List.nil_append, if_neg (List.splitOn_ne_nil _ _),
    List.intercalate_splitOn]

theorem headD_splitOn (sep : UInt8) (text : GoString) : (text.splitOn sep).headD [] = cutBefore sep text := by
  have hnot := not_mem_cutBefore sep text
  rcases cutBefore_cases sep text with htext | ⟨rest, htext⟩
  · rw [← htext] at hnot ⊢
    rw [List.splitOn_eq_singleton hnot]
    rfl
  · generalize cutBefore sep text = head at hnot htext ⊢
    rw [htext, List.splitOn_append_cons_self_of_not_mem hnot]
    rfl

theorem trimPrefix_append (pre rest : GoString) : trimPrefix (pre ++ rest) pre = rest := by
  rw [trimPrefix, if_pos ((hasPrefix_iff _ _).mpr (List.prefix_append pre rest)), List.drop_left]

theorem under_cases {key : GoString} (h : under pre key = true) : key = pre ∨ ∃ rest, key = pre ++ slash :: rest := by
  rw [under, Bool.or_eq_true, decide_eq_true_eq, hasPrefix_iff] at h
  refine h.imp_right ?_
  rintro ⟨rest, rfl⟩
  exact ⟨rest, by rw [List.append_assoc, List.singleton_append]⟩

theorem relative_self (pre : GoString) : trimPrefix (trimPrefix pre pre) [slash] = [] := by
  have h := trimPrefix_append pre []
  rw [List.append_nil] at h
  rw [h]
  rfl

theorem listed_self (pre : GoString) : listed pre pre = pre := by
  rw [listed, relative_self]
  exact if_pos rfl

theorem listed_below {rest : GoString} (hpre : pre ≠ []) (hslash : pre.head? ≠ some slash)
    (hrest : rest ≠ []) (h : ordinary (child pre (pre ++ slash :: rest)) = true) :
    listed pre (pre ++ slash :: rest) = child pre (pre ++ slash :: rest) ∧
      child pre (pre ++ slash :: rest) ≠ pre := by
  have hlonger : ∀ text : GoString, pre ++ slash :: text ≠ pre := by
    intro text heq
    have hlength := congrArg List.length heq
    rw [List.length_append, List.length_cons] at hlength
    omega
  have hdrop : (pre ++ slash :: rest).drop (pre.length + 1) = rest := by
    rw [List.drop_length_add_append]
    rfl
  have hchild : child pre (pre ++ slash :: rest) = pre ++ slash :: cutBefore slash rest := by
    rw [child, if_neg (hlonger rest), if_neg hpre, hdrop]
  rw [hchild] at h ⊢
  have hhead : cutBefore slash rest ≠ [] := by
    refine (ordinary_part h ?_).1
    rw [List.splitOn_append_cons_self, List.splitOn_eq_singleton (not_mem_cutBefore slash rest)]
    exact List.mem_append_right _ (List.mem_singleton_self _)
  refine ⟨?_, hlonger _⟩
  have hrelative : trimPrefix (trimPrefix (pre ++ slash :: rest) pre) [slash] = rest := by
    rw [trimPrefix_append]
    exact trimPrefix_append [slash] rest
  rw [listed, hrelative]
  rw [if_neg hrest, headD_splitOn, if_neg hhead]
  exact joinPath_ordinary hpre hhead hslash h

end Paths

/-- What the loop of `List` has made of the keys `visited`. -/
structure Listing (pre : GoString) (visited : List GoString) (state : List GoString × List GoString) : Prop where
  members : ∀ x, x ∈ state.1 ↔ ∃ key ∈ visited, listed pre key = x
  seen : ∀ x, x ∈ state.2 ↔ x ≠ pre ∧ ∃ key ∈ visited, listed pre key = x
  nodup : state.1.Nodup

section Loop
omit [UnicodeTables] [Aead]

variable {key : GoString}

theorem Listing.step {pre : GoString} {visited : List GoString}
    {state : List GoString × List GoString} (h : Listing pre visited state) (hnew : key ∉ visited)
    (hvisited : ∀ key' ∈ visited, listed pre key' = pre → key' = pre)
    (hkey : key = pre ∨ trimPrefix (trimPrefix key pre) [slash] ≠ [] ∧ listed pre key ≠ pre) :
    Listing pre (visited ++ [key]) (listStep pre state key) := by
  have hsplit : ∀ x, (∃ key' ∈ visited ++ [key], listed pre key' = x) ↔
    (∃ key' ∈ visited, listed pre key' = x) ∨ listed pre key = x := by
    intro x
    simp [or_and_right, exists_or]
  have hsnoc : ∀ x, x ∉ state.1 → (state.1 ++ [x]).Nodup := by
    intro x hx
    refine List.nodup_append.mpr ⟨h.nodup, List.nodup_singleton x, fun y hy y' hy' heq => hx ?_⟩
    rw [← List.mem_singleton.mp hy', ← heq]
    exact hy
  rcases hkey with rfl | ⟨hrelative, hne⟩
  · -- the key that was asked for, which is visited once
    rw [listStep, if_pos (relative_self key)]
    refine ⟨fun x => ?_, fun x => ?_, hsnoc key fun hmem => ?_⟩
    · rw [List.mem_append, List.mem_singleton, h.members, hsplit, listed_self, eq_comm]
    · rw [h.seen, hsplit, listed_self]
      exact and_congr_right fun hx => (or_iff_left hx.symm).symm
    · obtain ⟨key', hkey', hlisted⟩ := (h.members key).mp hmem
      exact hnew (hvisited key' hkey' hlisted ▸ hkey')
  · rw [listStep, if_neg hrelative]
    by_cases hseen : (state.2.any fun x => x = listed pre key) = true
    · rw [if_pos hseen]
      obtain ⟨x, hx, heq⟩ := List.any_eq_true.mp hseen
      obtain rfl := of_decide_eq_true heq
      have hlisted := ((h.seen _).mp hx).2
      have habsorb : ∀ y, (∃ key' ∈ visited, listed pre key' = y) ∨ listed pre key = y ↔
        ∃ key' ∈ visited, listed pre key' = y :=
        fun y => or_iff_left_of_imp fun hy => hy ▸ hlisted
      refine ⟨fun y => ?_, fun y => ?_, h.nodup⟩
      · rw [h.members, hsplit, habsorb]
      · rw [h.seen, hsplit, habsorb]
    · rw [if_neg hseen]
      have hunseen : listed pre key ∉ state.2 := fun hmem => hseen (List.any_eq_true.mpr ⟨_, hmem, decide_eq_true rfl⟩)
      refine ⟨fun x => ?_, fun x => ?_, hsnoc _ fun hmem => hunseen ?_⟩
      · rw [List.mem_append, List.mem_singleton, h.members, hsplit, eq_comm (a := x)]
      · rw [List.mem_append, List.mem_singleton, h.seen, hsplit, eq_comm (a := x), and_or_left]
        refine or_congr_right ⟨fun hx => ⟨hx ▸ hne, hx⟩, fun hx => hx.2⟩
      · exact (h.seen _).mpr ⟨hne, (h.members _).mp hmem⟩

theorem listing_foldl {pre : GoString} {keys visited : List GoString} {state : List GoString × List GoString}
    (h : Listing pre visited state) (hnodup : (visited ++ keys).Nodup)
    (hkeys : ∀ key ∈ visited ++ keys, key = pre ∨ trimPrefix (trimPrefix key pre) [slash] ≠ [] ∧ listed pre key ≠ pre) :
    Listing pre (visited ++ keys) (keys.foldl (listStep pre) state) := by
  induction keys generalizing visited state with
  | nil =>
    rw [List.append_nil]
    exact h
  | cons key keys ih =>
    have happend : visited ++ key :: keys = visited ++ [key] ++ keys := by rw [List.append_assoc, List.singleton_append]
    have hnew : key ∉ visited := fun hmem => (List.nodup_append.mp hnodup).2.2 key hmem key List.mem_cons_self rfl
    have hvisited : ∀ key' ∈ visited, listed pre key' = pre → key' = pre := by
      intro key' hkey' hlisted
      exact (hkeys key' (List.mem_append_left _ hkey')).resolve_right fun hbelow => hbelow.2 hlisted
    have hstep := h.step hnew hvisited (hkeys key (List.mem_append_right _ List.mem_cons_self))
    rw [happend] at hnodup hkeys ⊢
    exact ih hstep hnodup hkeys

theorem concerns_listExact (hexact : s.listExact key t = true) {row : KVRow} (hrow : row ∈ t.rows) :
    s.concerns key row.key = underRoot key row.key := by
  rw [listExact] at hexact
  split at hexact
  · rename_i hroot
    have hempty : row.key = [] := of_decide_eq_true (List.all_eq_true.mp hexact row hrow)
    rw [concerns, underRoot, hroot, hempty]
    rfl
  · rename_i hroot
    rw [of_decide_eq_true (List.all_eq_true.mp hexact row hrow), underRoot, decide_eq_false hroot, Bool.false_or]

theorem mem_ordered {rows : List KVRow} {row : KVRow} : row ∈ KVTable.ordered rows ↔ row ∈ rows :=
  (List.perm_insertionSort _ rows).mem_iff

theorem mem_concernedKeys {x : GoString} :
    x ∈ (KVTable.ordered (t.rows.filter fun r => s.concerns key r.key)).map KVRow.key ↔
      ∃ row ∈ t.rows, s.concerns key row.key = true ∧ row.key = x := by
  simp only [List.mem_map, mem_ordered, List.mem_filter, and_assoc]

theorem nodup_concernedKeys (key : GoString) :
    ((KVTable.ordered (t.rows.filter fun r => s.concerns key r.key)).map KVRow.key).Nodup := by
  rw [KVTable.ordered, ((List.perm_insertionSort _ _).map KVRow.key).nodup_iff]
  exact t.nodup.sublist (List.filter_sublist.map _)

end Loop

theorem listed_stored (h : s.Sound t) (hcond : s.admits t (.list key false) = true) {row : KVRow}
    (hrow : row ∈ t.rows) (hunder : underRoot (cleanKey key) row.key = true) :
    listed (cleanKey key) row.key = child (cleanKey key) row.key ∧
      (row.key = cleanKey key ∨
        trimPrefix (trimPrefix row.key (cleanKey key)) [slash] ≠ [] ∧
          listed (cleanKey key) row.key ≠ cleanKey key) := by
  obtain ⟨hexact, hordinary⟩ := Bool.and_eq_true_iff.mp hcond
  by_cases hsame : row.key = cleanKey key
  · rw [hsame, listed_self, child, if_pos rfl]
    exact ⟨rfl, Or.inl rfl⟩
  · have hroot : cleanKey key ≠ [] := by
      intro hroot
      rw [listExact, if_pos hroot] at hexact
      exact hsame ((of_decide_eq_true (List.all_eq_true.mp hexact row hrow)).trans hroot.symm)
    rw [underRoot, decide_eq_false hroot, Bool.false_or] at hunder
    obtain ⟨rest, hrest⟩ := (under_cases hunder).resolve_left hsame
    have hbelow : ordinary (child (cleanKey key) row.key) = true := by
      have hrow' := List.all_eq_true.mp hordinary row hrow
      rw [hunder, decide_eq_false hsame] at hrow'
      exact hrow'
    have hne : rest ≠ [] := by
      rintro rfl
      refine last_cleanKey row.key ?_
      rw [h.clean row hrow, hrest, List.getLast?_concat]
    rw [hrest] at hbelow ⊢
    obtain ⟨hlisted, hlonger⟩ := listed_below hroot (head_cleanKey key) hne hbelow
    refine ⟨hlisted, Or.inr ⟨?_, hlisted ▸ hlonger⟩⟩
    rw [trimPrefix_append]
    exact (trimPrefix_append [slash] rest).symm ▸ hne

def listedKeys (s : CertMagicStorage) (key : GoString) (recursive : Bool) (t : KVTable) : List GoString :=
  let keys := (KVTable.ordered (t.rows.filter fun r => s.concerns key r.key)).map KVRow.key
  if recursive then keys else (keys.foldl (listStep key) ([], [])).1

variable {recursive : Bool} {keys : List GoString}

omit [UnicodeTables] [Aead] in
theorem list_eq_ok {ok : Bool} (h : s.list ok key recursive t = .ok keys) :
    keys = listedKeys s (cleanKey key) recursive t := by
  rw [list] at h
  split at h
  · change (if listedKeys s (cleanKey key) recursive t = [] then Except.error StorageErr.notExist
      else Except.ok _) = _ at h
    split at h
    · cases h
    · exact (Except.ok.inj h).symm
  · cases h

theorem mem_listedKeys (h : s.Sound t) (hcond : s.admits t (.list key recursive) = true) :
    (listedKeys s (cleanKey key) recursive t).Nodup ∧
      ∀ x, x ∈ listedKeys s (cleanKey key) recursive t ↔
      ∃ k, (s.tree t k).isSome ∧ underRoot (cleanKey key) k = true ∧ x = if recursive then k
        else child (cleanKey key) k := by
  have hexact : s.listExact (cleanKey key) t = true := (Bool.and_eq_true_iff.mp hcond).1
  have hnodup := @nodup_concernedKeys s t (cleanKey key)
  have hstored : ∀ x, x ∈ (KVTable.ordered (t.rows.filter fun r => s.concerns (cleanKey key) r.key)).map KVRow.key ↔
      ∃ row ∈ t.rows, underRoot (cleanKey key) row.key = true ∧ row.key = x := by
    intro x
    rw [mem_concernedKeys]
    refine exists_congr fun row => and_congr_right fun hrow => ?_
    rw [concerns_listExact hexact hrow]
  cases recursive with
  | true =>
    refine ⟨hnodup, fun x => (hstored x).trans ⟨?_, ?_⟩⟩
    · rintro ⟨row, hrow, hunder, rfl⟩
      exact ⟨row.key, (isSome_tree h row.key).mpr ⟨row, hrow, rfl⟩, hunder, rfl⟩
    · rintro ⟨k, hsome, hunder, hx⟩
      obtain ⟨row, hrow, rfl⟩ := (isSome_tree h k).mp hsome
      exact ⟨row, hrow, hunder, hx.symm⟩
  | false =>
    have hkeys : ∀ x ∈ (KVTable.ordered (t.rows.filter fun r => s.concerns (cleanKey key) r.key)).map KVRow.key,
        x = cleanKey key ∨ trimPrefix (trimPrefix x (cleanKey key)) [slash] ≠ [] ∧
        listed (cleanKey key) x ≠ cleanKey key := by
      intro x hx
      obtain ⟨row, hrow, hunder, rfl⟩ := (hstored x).mp hx
      exact (listed_stored h hcond hrow hunder).2
    have hinit : Listing (cleanKey key) [] ([], []) := ⟨by simp, by simp, List.nodup_nil⟩
    have hlisting := listing_foldl hinit hnodup hkeys
    refine ⟨hlisting.nodup, fun x => (hlisting.members x).trans ⟨?_, ?_⟩⟩
    · rintro ⟨k, hk, rfl⟩
      obtain ⟨row, hrow, hunder, rfl⟩ := (hstored k).mp hk
      exact ⟨row.key, (isSome_tree h row.key).mpr ⟨row, hrow, rfl⟩, hunder, (listed_stored h hcond hrow hunder).1⟩
    · rintro ⟨k, hsome, hunder, rfl⟩
      obtain ⟨row, hrow, rfl⟩ := (isSome_tree h k).mp hsome
      exact ⟨row.key, (hstored row.key).mpr ⟨row, hrow, hunder, rfl⟩, (listed_stored h hcond hrow hunder).1⟩

theorem behaves_list (h : s.Sound t) (i : StorageChance)
    (hcond : s.admits t (.list key recursive) = true) :
    Behaves i (s.tree t) (s.tree (s.call i (.list key recursive) t).2) (.list key recursive)
      (s.call i (.list key recursive) t).1 := by
  refine ⟨rfl, fun hok => ?_, fun hok => ?_⟩
  · rw [call, list, hok]
    rfl
  · obtain ⟨hnodup, hmem⟩ := mem_listedKeys h hcond
    refine ⟨listedKeys s (cleanKey key) recursive t, hnodup, hmem, ?_⟩
    rw [call, list, hok]
    change answerOf .keys (if listedKeys s (cleanKey key) recursive t = [] then .error .notExist else .ok _) = _
    split
    · rfl
    · rfl

/-! ## Certificates of a domain -/

omit [UnicodeTables] [Aead] in
theorem exact_of_subset {t' : KVTable} (h : s.exact key t = true)
    (hrows : ∀ row ∈ t'.rows, row ∈ t.rows) : s.exact key t' = true :=
  List.all_eq_true.mpr fun row hrow => List.all_eq_true.mp h row (hrows row hrow)

theorem deleteAll_removes (keys : List GoString) (oks : List Bool)
    (hkeys : ∀ key ∈ keys, s.exact (cleanKey key) t = true) (h : s.Sound t) :
    s.Sound (deleteCertificatesForDomain.deleteAll s oks keys t).2 ∧
      ∀ k, s.tree (deleteCertificatesForDomain.deleteAll s oks keys t).2 k = s.tree t k ∨
        s.tree (deleteCertificatesForDomain.deleteAll s oks keys t).2 k = none ∧
          ∃ key ∈ keys, under (cleanKey key) k = true := by
  induction keys generalizing oks t with
  | nil => exact ⟨h, fun _ => Or.inl rfl⟩
  | cons key keys ih =>
    rw [deleteCertificatesForDomain.deleteAll, delete]
    cases oks.headD true with
    | false => exact ⟨h, fun _ => Or.inl rfl⟩
    | true =>
      rw [if_pos rfl]
      have hexact := hkeys key List.mem_cons_self
      have hsubset : ∀ row ∈ (t.deleteWhere (s.concerns (cleanKey key))).rows, row ∈ t.rows :=
        fun row hrow => (List.mem_filter.mp hrow).1
      obtain ⟨hsound, hrest⟩ :=
        ih oks.tail (fun key' hkey' =>
        exact_of_subset (hkeys key' (List.mem_cons_of_mem _ hkey')) hsubset)
        (h.deleteWhere (s.concerns (cleanKey key)))
      refine ⟨hsound, fun k => ?_⟩
      rcases hrest k with hsame | ⟨hnone, key', hkey', hunder⟩
      · -- the first deletion decides
        rw [hsame, tree_delete h hexact]
        by_cases hk : under (cleanKey key) k = true
        · exact Or.inr ⟨if_pos hk, key, List.mem_cons_self, hk⟩
        · exact Or.inl (if_neg hk)
      · exact Or.inr ⟨hnone, key', List.mem_cons_of_mem _ hkey', hunder⟩

variable {p : GoString}

omit [Aead] in
theorem mem_folderPrefixes {folder : GoString} (h : p ∈ folderPrefixes folder keys) :
    ∃ key ∈ keys, ∃ i < (key.splitOn slash).length, toLower ((key.splitOn slash).getD i []) = folder ∧
      p.splitOn slash = (key.splitOn slash).take (i + 1) := by
  obtain ⟨key, hkey, hp⟩ := List.mem_flatMap.mp h
  obtain ⟨i, hi, hp⟩ := List.mem_filterMap.mp hp
  obtain ⟨hfolder, hp⟩ := Option.ite_none_right_eq_some.mp hp
  obtain rfl := Option.some.inj hp
  have hne : (key.splitOn slash).take (i + 1) ≠ [] := by
    rw [Ne, List.take_eq_nil_iff, not_or]
    exact ⟨Nat.succ_ne_zero i, List.splitOn_ne_nil _ _⟩
  refine ⟨key, hkey, i, List.mem_range.mp hi, hfolder, ?_⟩
  exact List.splitOn_intercalate slash (fun part hpart => not_mem_of_mem_splitOn (List.mem_of_mem_take hpart)) hne

omit [UnicodeTables] [Aead] in
theorem splitOn_certificates (h : underRoot (str "certificates") key = true) :
    (key.splitOn slash).head? = some (str "certificates") := by
  have hroot : str "certificates" ≠ [] := by decide +kernel
  have hslash : slash ∉ str "certificates" := by decide +kernel
  rw [underRoot, decide_eq_false hroot, Bool.false_or] at h
  rcases under_cases h with rfl | ⟨rest, rfl⟩
  · rw [List.splitOn_eq_singleton hslash]
    rfl
  · rw [List.splitOn_append_cons_self_of_not_mem hslash]
    rfl

omit [Aead] in
theorem folder_of_prefix {folder : GoString} (hp : p ∈ folderPrefixes folder keys)
    (hlength : (p.splitOn slash).length = 3)
    (hkeys : ∀ key ∈ keys, underRoot (str "certificates") key = true ∧ cleanKey key = key) :
    ∃ issuer name, p.splitOn slash = [str "certificates", issuer, name] ∧ toLower name = folder ∧ backslash ∉ p := by
  obtain ⟨key, hkey, i, hi, hfolder, hsplit⟩ := mem_folderPrefixes hp
  obtain ⟨hunder, hclean⟩ := hkeys key hkey
  have hhead := splitOn_certificates hunder
  have hthird : i = 2 := by
    rw [hsplit, List.length_take_of_le hi] at hlength
    omega
  subst hthird
  have hbytes : ∀ part ∈ key.splitOn slash, backslash ∉ part := by
    intro part hpart hmem
    have hfield : part ∈ fields slash key := List.mem_filter.mpr ⟨hpart, decide_eq_true (List.ne_nil_of_mem hmem)⟩
    exact not_mem_cleanKey key (hclean.symm ▸ (mem_of_mem_fields hfield hmem).1)
  have hjoined := @List.intercalate_splitOn _ p _ _ slash
  rw [hsplit] at hjoined ⊢
  generalize key.splitOn slash = parts at hi hfolder hhead hbytes hjoined ⊢
  rcases parts with - | ⟨first, - | ⟨issuer, - | ⟨name, rest⟩⟩⟩
  · exact absurd hi (Nat.not_lt_zero 2)
  · exact absurd hi (by simp)
  · exact absurd hi (by simp)
  · obtain rfl := Option.some.inj hhead
    refine ⟨issuer, name, rfl, hfolder, fun hmem => ?_⟩
    rw [← hjoined] at hmem
    have hne : backslash ≠ slash := by decide
    simp [List.intercalate, hbytes, hne] at hmem

omit [UnicodeTables] [Aead] in
theorem cleanKey_folder {issuer name : GoString}
    (hsplit : p.splitOn slash = [str "certificates", issuer, name]) (hname : name ≠ [])
    (hp : backslash ∉ p) : cleanKey p = p := by
  have hslash : slash ∉ name := not_mem_of_mem_splitOn (by rw [hsplit]; simp)
  have hjoined : p = (str "certificates" ++ slash :: (issuer ++ [slash])) ++ name := by
    rw [← @List.intercalate_splitOn _ p _ _ slash, hsplit]
    simp [List.intercalate]
  refine cleanKey_eq_self hp (fun hhead => ?_) fun hlast => hslash ?_
  · rw [hjoined, List.append_assoc, List.head?_append] at hhead
    have hfirst : (str "certificates").head? = some 0x63 := by decide +kernel
    rw [hfirst] at hhead
    exact absurd (Option.some.inj hhead) (by decide)
  · rw [hjoined, List.getLast?_append_of_ne_nil _ hname] at hlast
    exact List.mem_of_getLast? hlast

omit [Aead] in
theorem inFolder_of_under {domainName k issuer name : GoString}
    (hsplit : p.splitOn slash = [str "certificates", issuer, name])
    (hname : toLower name = safeCertFolder domainName) (hunder : under p k = true) :
    InFolder domainName k := by
  rcases under_cases hunder with rfl | ⟨rest, rfl⟩
  · exact ⟨issuer, name, [], hsplit, hname⟩
  · refine ⟨issuer, name, rest.splitOn slash, ?_, hname⟩
    rw [List.splitOn_append_cons_self, hsplit]
    rfl

theorem deleteCertificates_removes (h : s.Sound t) {domainName : GoString}
    (hcond : s.foldersExact domainName t = true) (ok : Bool) (oks : List Bool) (visit : MapOrder) :
    s.Sound (s.deleteCertificatesForDomain ok oks visit domainName t).2 ∧
      ∀ k, s.tree (s.deleteCertificatesForDomain ok oks visit domainName t).2 k = s.tree t k ∨
        s.tree (s.deleteCertificatesForDomain ok oks visit domainName t).2 k = none ∧
          InFolder domainName k := by
  have hsame : s.Sound t ∧ ∀ k, s.tree t k = s.tree t k ∨ s.tree t k = none ∧
    InFolder domainName k := ⟨h, fun _ => Or.inl rfl⟩
  rw [deleteCertificatesForDomain]
  split
  · exact hsame
  · rename_i hfolder
    split
    · exact hsame
    · rename_i keys hkeys
      obtain ⟨hexact, hprefixes⟩ := Bool.and_eq_true_iff.mp hcond
      have hclean : cleanKey (str "certificates") = str "certificates" := by decide +kernel
      have hmem : ∀ x ∈ keys, ∃ row ∈ t.rows, s.concerns (str "certificates") row.key = true ∧ row.key = x := by
        rw [list_eq_ok hkeys, hclean]
        exact fun x => mem_concernedKeys.mp
      have hunder : ∀ x ∈ keys, underRoot (str "certificates") x = true ∧ cleanKey x = x := by
        intro x hx
        obtain ⟨row, hrow, hconcerns, rfl⟩ := hmem x hx
        exact ⟨(concerns_listExact hexact hrow).symm.trans hconcerns, h.clean row hrow⟩
      have hfound : ∀ p ∈ folderPrefixes (safeCertFolder domainName) keys,
          (p.splitOn slash).length = 3 ∧ s.exact (cleanKey p) t = true := by
        intro p hp
        obtain ⟨x, hx, hfrom⟩ := List.mem_flatMap.mp hp
        obtain ⟨row, hrow, hconcerns, rfl⟩ := hmem x hx
        have hall := List.all_eq_true.mp hprefixes p
          (List.mem_flatMap.mpr ⟨row.key, List.mem_map.mpr ⟨row, List.mem_filter.mpr ⟨hrow, hconcerns⟩, rfl⟩, hfrom⟩)
        rwa [Bool.and_eq_true, decide_eq_true_eq] at hall
      have hvisited : ∀ p ∈ visit.order (folderPrefixes (safeCertFolder domainName) keys).dedup,
          p ∈ folderPrefixes (safeCertFolder domainName) keys :=
          fun p hp => List.mem_dedup.mp ((visit.perm _).mem_iff.mp hp)
      obtain ⟨hsound, hremoves⟩ :=
        deleteAll_removes (visit.order (folderPrefixes (safeCertFolder domainName) keys).dedup) oks
        (fun p hp => (hfound p (hvisited p hp)).2) h
      refine ⟨hsound, fun k => (hremoves k).imp_right ?_⟩
      rintro ⟨hnone, p, hp, hbelow⟩
      obtain ⟨issuer, name, hsplit, hname, hbytes⟩ := folder_of_prefix (hvisited p hp)
        (hfound p (hvisited p hp)).1 hunder
      have hne : name ≠ [] := by
        rintro rfl
        exact hfolder (hname.symm.trans rfl)
      rw [cleanKey_folder hsplit hne hbytes] at hbelow
      exact ⟨hnone, inFolder_of_under hsplit hname hbelow⟩

end CertMagicStorage

def newCertMagicStorage (dialect : Dialect) (dataSecrets : List GoString) : CertMagicStorage :=
  ⟨dialect, dataEncryptionBytes dataSecrets⟩

section Runs
variable [UnicodeTables] [Aead]
open CertMagicStorage

theorem call_behaves {s : CertMagicStorage} (hsecrets : ∀ secret ∈ s.dataSecrets, secret ≠ [])
    {t : KVTable} (h : s.Sound t) (i : StorageChance) (c : StorageCall)
    (hcond : s.admits t c = true) :
    Behaves i (s.tree t) (s.tree (s.call i c t).2) c (s.call i c t).1 ∧
      s.Sound (s.call i c t).2 := by
  cases c with
  | store key value => exact behaves_store hsecrets h i hcond
  | load key => exact ⟨behaves_load h i key, h⟩
  | delete key => exact behaves_delete h i hcond
  | existsKey key => exact ⟨behaves_existsKey h i hcond, h⟩
  | list key recursive => exact ⟨behaves_list h i hcond, h⟩
  | stat key => exact ⟨behaves_stat h i hcond, h⟩
  | deleteCertificatesForDomain domainName =>
    obtain ⟨hsound, hremoves⟩ := deleteCertificates_removes h hcond i.ok i.oks i.visit
    exact ⟨hremoves, hsound⟩

/-- From a table whose rows can be read, and in every sequence of calls that meet the condition in
the tables that they find, the storage answers as the tree of its keys does. -/
theorem storage_is_tree (dialect : Dialect) (dataSecrets : List GoString) {t : KVTable}
    (h : (newCertMagicStorage dialect dataSecrets).Sound t)
    {calls : List (StorageChance × StorageCall)}
    (hcond : (newCertMagicStorage dialect dataSecrets).admitsAll calls t = true) :
    TreeRun ((newCertMagicStorage dialect dataSecrets).tree t) calls
      ((newCertMagicStorage dialect dataSecrets).run calls t).1
      ((newCertMagicStorage dialect dataSecrets).tree
        ((newCertMagicStorage dialect dataSecrets).run calls t).2) := by
  induction calls generalizing t with
  | nil => exact ⟨rfl, rfl⟩
  | cons first calls ih =>
    obtain ⟨i, c⟩ := first
    obtain ⟨hfirst, hrest⟩ := Bool.and_eq_true_iff.mp hcond
    obtain ⟨hbehaves, hsound⟩ := call_behaves (fun _ => ne_nil_of_mem_dataEncryptionBytes) h i c hfirst
    exact ⟨_, _, _, rfl, hbehaves, ih hsound hrest⟩

end Runs

/-! ## Runs on SQLite -/

/-- Everything answers, and a `range` loop goes through the map in the order of its keys. -/
def calm : StorageChance :=
  ⟨true, true, [], some ⟨List.replicate 16 0, List.replicate 12 0, rfl, rfl⟩, 0,
    ⟨id, fun _ => List.Perm.refl _⟩⟩

def sqliteStorage : CertMagicStorage := newCertMagicStorage .sqlite [str "secret"]

def ordinaryCalls : List (StorageChance × StorageCall) :=
  [(calm, .store (str "/acme/users/a.json") (str "v")), (calm, .store (str "acme/users/a.key") (str "k")),
    (calm, .list (str "acme") false), (calm, .stat (str "acme/users/a.json")),
    (calm, .delete (str "acme/users/a.json")),
    (calm, .existsKey (str "acme")), (calm, .load (str "acme/users/a.key")), (calm, .load (str "acme/users/a.json"))]

theorem storage_is_tree_ordinary :
    (@CertMagicStorage.run asciiTables plainAead sqliteStorage ordinaryCalls .empty).1 =
        [.done, .done, .keys [str "acme/users"], .info ⟨str "acme/users/a.json", some 0, 1, true⟩, .done, .found true,
          .value (str "k"), .failed .notExist] ∧
      @TreeRun asciiTables (@CertMagicStorage.tree asciiTables plainAead sqliteStorage .empty) ordinaryCalls
        (@CertMagicStorage.run asciiTables plainAead sqliteStorage ordinaryCalls .empty).1
        (@CertMagicStorage.tree asciiTables plainAead sqliteStorage
          (@CertMagicStorage.run asciiTables plainAead sqliteStorage ordinaryCalls .empty).2) :=
  ⟨by decide +kernel, @storage_is_tree asciiTables plainAead .sqlite [str "secret"] .empty
    (@CertMagicStorage.Sound.mk asciiTables plainAead sqliteStorage .empty nofun nofun) ordinaryCalls
    (by decide +kernel)⟩

def wildcardCalls : List (StorageChance × StorageCall) :=
  [(calm, .store (str "axb/f") (str "v")), (calm, .delete (str "a_b")), (calm, .load (str "axb/f"))]

theorem delete_takes_other_keys :
    (@CertMagicStorage.run asciiTables plainAead sqliteStorage wildcardCalls .empty).1 =
      [.done, .done, .failed .notExist] ∧
      ∀ after, ¬ @TreeRun asciiTables
        (@CertMagicStorage.tree asciiTables plainAead sqliteStorage .empty) wildcardCalls
        (@CertMagicStorage.run asciiTables plainAead sqliteStorage wildcardCalls .empty).1
          after := by
  have hrun : (@CertMagicStorage.run asciiTables plainAead sqliteStorage wildcardCalls .empty).1 =
      [.done, .done, .failed .notExist] := by decide +kernel
  refine ⟨hrun, fun after h => ?_⟩
  rw [hrun] at h
  -- the tree keeps the file, so loading it cannot fail
  obtain ⟨_, _, stored, heq, hstore, _, _, deleted, heq', hdelete, _, _, loaded, heq'', hload, _⟩ := h
  obtain ⟨rfl, rfl⟩ := List.cons.inj heq
  obtain ⟨rfl, rfl⟩ := List.cons.inj heq'
  obtain ⟨rfl, rfl⟩ := List.cons.inj heq''
  obtain ⟨-, hafter⟩ := hdelete
  have hstored : stored (cleanKey (str "axb/f")) = some ⟨str "v", 0⟩ := by
    rcases hstore with ⟨-, rfl⟩ | ⟨-, ⟨_, hfailed⟩, -⟩
    · exact Function.update_self ..
    · cases hfailed
  have hkept : deleted (cleanKey (str "axb/f")) = some ⟨str "v", 0⟩ := by
    have hunder : ¬ under (cleanKey (str "a_b")) (cleanKey (str "axb/f")) = true := by decide +kernel
    rw [hafter]
    exact (if_neg hunder).trans hstored
  have hanswer := hload.2
  have hcalm : calm.ok = true := rfl
  rw [hkept] at hanswer
  cases hanswer

end Portlyn.Acme
