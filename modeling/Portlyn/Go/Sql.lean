import Portlyn.Go.Utf8

/-! # Texts in SQL: their order and the `LIKE` operator

A percent sign stands for any characters and an underscore for one. SQLite compares the letters of
ASCII without regard to their case. Texts end where a zero byte stands. -/
namespace Portlyn.Go
set_option autoImplicit false

/-! ## Order -/

def bytesLE : GoString → GoString → Bool
  | [], _ => true
  | _ :: _, [] => false
  | a :: s, b :: t => a.toNat < b.toNat || (a = b && bytesLE s t)

/-! ## Patterns -/

inductive Dialect
  | sqlite
  | postgres
deriving DecidableEq

def likeAny : Symbol := .rune 0x25
def likeOne : Symbol := .rune 0x5F

def Symbol.lower : Symbol → Symbol
  | .rune r => .rune (asciiLower r)
  | .bad b => .bad b

def Dialect.same : Dialect → Symbol → Symbol → Bool
  | .sqlite, p, c => p.lower = c.lower
  | .postgres, p, c => p = c

def likeSymbols (dialect : Dialect) : List Symbol → List Symbol → Bool
  | [], text => text.isEmpty
  | p :: pattern, text =>
    if p = likeAny then text.tails.any fun rest => likeSymbols dialect pattern rest
    else
      match text with
      | [] => false
      | c :: text => (p = likeOne || dialect.same p c) && likeSymbols dialect pattern text

def cString (s : GoString) : GoString := s.takeWhile (· ≠ 0)

def like (dialect : Dialect) (pattern text : GoString) : Bool :=
  likeSymbols dialect (symbols (cString pattern)) (symbols (cString text))

end Portlyn.Go
