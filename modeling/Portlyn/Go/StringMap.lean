import Mathlib.Data.List.Sort
import Portlyn.Go.Json
import Portlyn.Go.Sql

/-! # Maps of strings as JSON (`encoding/json`)

`json.Marshal` of a `map[string]string`, and `json.Unmarshal` of a text for one. A text that is no
JSON and one with other values than strings and null are both refused. -/
namespace Portlyn.Go

/-- A `map[string]string`, in the order of its keys. A nil map is an empty one. -/
abbrev StringMap := List (GoString × GoString)

namespace StringMap

def keyLE (a b : GoString × GoString) : Prop := bytesLE a.1 b.1 = true

instance : DecidableRel keyLE := fun _ _ => inferInstanceAs (Decidable (_ = true))

/-- The map with these entries, of which the last one for a key counts. -/
def ofEntries (entries : List (GoString × GoString)) : StringMap :=
  (keepLast entries).insertionSort keyLE
where
  keepLast : List (GoString × GoString) → List (GoString × GoString)
    | [] => []
    | e :: rest => if rest.any (·.1 = e.1) then keepLast rest else e :: keepLast rest

/-! ## Writing -/

def memberText (e : GoString × GoString) : GoString := (JsonField.string e.1).bytes ++
    colon :: (JsonField.string e.2).bytes

def membersText : StringMap → GoString
  | [] => [0x7D]
  | [e] => memberText e ++ [0x7D]
  | e :: next :: rest => memberText e ++ comma :: membersText (next :: rest)

def marshal (m : StringMap) : GoString := 0x7B :: membersText m

/-! ## Reading -/

/-- The runes of a text, with U+FFFD for a byte that is no UTF-8. -/
def runes (text : GoString) : List ℕ :=
  (symbols text).map fun
    | .rune r => r
    | .bad _ => 0xFFFD

def skipSpace (t : List ℕ) : List ℕ := t.dropWhile fun r => r = 0x20 || r = 0x09 || r = 0x0A ||
    r = 0x0D

def hexRune (r : ℕ) : Option ℕ :=
  if 48 ≤ r ∧ r ≤ 57 then some (r - 48)
  else if 97 ≤ r ∧ r ≤ 102 then some (r - 87)
  else if 65 ≤ r ∧ r ≤ 70 then some (r - 55)
  else none

/-- The characters behind a backslash, with what they stand for. -/
def escapes : List (ℕ × ℕ) :=
  [(0x22, 0x22), (0x5C, 0x5C), (0x2F, 0x2F), (0x62, 0x08), (0x66, 0x0C), (0x6E, 0x0A), (0x72, 0x0D),
    (0x74, 0x09)]

/-- What stands before the closing quote, and what follows it. The halves of a surrogate pair are
still apart. -/
def readUnits : List ℕ → Option (List ℕ × List ℕ)
  | 0x22 :: rest => some ([], rest)
  | 0x5C :: 0x75 :: a :: b :: c :: d :: rest => do
    let unit := (((← hexRune a) * 16 + (← hexRune b)) * 16 + (← hexRune c)) * 16 + (← hexRune d)
    (readUnits rest).map fun read => (unit :: read.1, read.2)
  | 0x5C :: c :: rest => do
    let unit ← escapes.lookup c
    (readUnits rest).map fun read => (unit :: read.1, read.2)
  | r :: rest =>
    if r < 0x20 ∨ r = 0x5C then none else (readUnits rest).map fun read => (r :: read.1, read.2)
  | [] => none

/-- A half without its other half becomes U+FFFD. -/
def joinSurrogates : List ℕ → List ℕ
  | hi :: lo :: rest =>
    if (0xD800 ≤ hi ∧ hi < 0xDC00) ∧ 0xDC00 ≤ lo ∧ lo < 0xE000 then
      (0x10000 + (hi - 0xD800) * 0x400 + (lo - 0xDC00)) :: joinSurrogates rest
    else (if IsScalar hi then hi else 0xFFFD) :: joinSurrogates (lo :: rest)
  | [r] => [if IsScalar r then r else 0xFFFD]
  | [] => []

def readString : List ℕ → Option (GoString × List ℕ)
  | 0x22 :: rest =>
    (readUnits rest).map fun read => ((joinSurrogates read.1).flatMap encodeRune, read.2)
  | _ => none

/-- A value: a string, or null, which leaves the empty string. -/
def readValue : List ℕ → Option (GoString × List ℕ)
  | 0x6E :: 0x75 :: 0x6C :: 0x6C :: rest => some ([], rest)
  | t => readString t

/-- The members and the closing brace; the number bounds how many there are. -/
def readMembers : ℕ → List ℕ → Option (List (GoString × GoString) × List ℕ)
  | 0, _ => none
  | n + 1, t => do
    let key ← readString (skipSpace t)
    match skipSpace key.2 with
    | 0x3A :: t =>
      let value ← readValue (skipSpace t)
      match skipSpace value.2 with
      | 0x2C :: t => (readMembers n t).map fun read => ((key.1, value.1) :: read.1, read.2)
      | 0x7D :: t => some ([(key.1, value.1)], t)
      | _ => none
    | _ => none

def readObject (n : ℕ) (t : List ℕ) : Option (List (GoString × GoString) × List ℕ) :=
  match t with
  | 0x6E :: 0x75 :: 0x6C :: 0x6C :: rest => some ([], rest)
  | 0x7B :: t =>
    match skipSpace t with
    | 0x7D :: t => some ([], t)
    | t => readMembers n t
  | _ => none

/-- `json.Unmarshal`. -/
def unmarshal (text : GoString) : Option StringMap := do
  let read ← readObject text.length (skipSpace (runes text))
  if skipSpace read.2 = [] then return ofEntries read.1 else none

example : unmarshal (str " \x7b\"b\" : \"x\", \"a\":null,\"b\":\"\\n<\\u00e9\"\x7d ") =
      some [(str "a", []), (str "b", str "\n<é")] ∧
    unmarshal (marshal [(str "a", str "<\n")]) = some [(str "a", str "<\n")] ∧
    unmarshal (str "\x7b\"a\":1\x7d") = none ∧ unmarshal (str "token") = none := by
  decide +kernel

end StringMap

end Portlyn.Go
