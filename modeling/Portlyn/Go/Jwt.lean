import Mathlib.Logic.Equiv.List
import Mathlib.Tactic.DeriveCountable
import Portlyn.Go.Time

/-! # Signed tokens of package `jwt`

A token is the signed text of a set of claims `C`. Signatures are ideal: a token verifies with the
key it was signed with and with no other, and gives back its claims. What a parser still checks are
the dates and the audience. -/
namespace Portlyn.Go
set_option autoImplicit false

instance countableByte : Countable UInt8 :=
  Function.Injective.countable (f := UInt8.toNat) fun _ _ => UInt8.toNat_inj.mp

/-! ## Registered claims -/

/-- `jwt.RegisteredClaims`. A member that is missing is read as the empty text, as no audience or as
no date; dates are in seconds. -/
structure RegisteredClaims where
  issuer : GoString
  subject : GoString
  audience : List GoString
  expiresAt : Option ℤ
  notBefore : Option ℤ
  issuedAt : Option ℤ
  id : GoString
deriving DecidableEq, Countable

/-- `jwt.NewNumericDate`: whole seconds. -/
def numericDate (t : Instant) : ℤ := t.unix

def dateInstant (seconds : ℤ) : Instant := seconds * 1000000000

/-- `jwt.WithAudience` and `jwt.WithExpirationRequired`. -/
structure ParserOptions where
  audience : Option GoString
  expirationRequired : Bool

def ParserOptions.default : ParserOptions := ⟨none, false⟩

/-- What `Validator.Validate` checks. -/
def RegisteredClaims.isValid (c : RegisteredClaims) (options : ParserOptions) (now : Instant) :
    Bool :=
  (match c.expiresAt with
    | none => !options.expirationRequired
    | some date => now < dateInstant date) &&
  (match c.notBefore with
    | none => true
    | some date => dateInstant date ≤ now) &&
  (match options.audience with
    | none => true
    | some host => host ∈ c.audience)

/-! ## Signatures -/

structure Signatures (C : Type) where
  sign : (key : GoString) → C → GoString
  verify : (key token : GoString) → Option C
  verify_sign : ∀ key key' claims, verify key (sign key' claims) = if key = key' then some claims
    else none
  /-- The compact form has no white space. -/
  notSpace_sign : ∀ key claims, ∀ b ∈ sign key claims, NotSpace b
  sign_ne_nil : ∀ key claims, sign key claims ≠ []
  validate : RegisteredClaims → ParserOptions → Instant → Bool
  validate_eq : ∀ c options now, validate c options now = c.isValid options now

section Parsing
variable {C : Type} (signatures : Signatures C) (registered : C → RegisteredClaims)

/-- `jwt.ParseWithClaims` with the key that a parser expects. -/
def Signatures.parse (key : GoString) (options : ParserOptions) (now : Instant) (token : GoString) :
    Option C :=
  (signatures.verify key token).filter fun claims =>
    signatures.validate (registered claims) options now

theorem parse_sign (key key' : GoString) (options : ParserOptions) (now : Instant) (claims : C) :
    signatures.parse registered key options now (signatures.sign key' claims) =
      if key = key' ∧ (registered claims).isValid options now = true then some claims else none := by
  rw [Signatures.parse, signatures.verify_sign]
  by_cases hkey : key = key'
  · rw [if_pos hkey, Option.filter_some]
    simp only [hkey, true_and, signatures.validate_eq]
  · rw [if_neg hkey, if_neg fun h => hkey h.1, Option.filter_none]

theorem verify_of_parse {key token : GoString} {options : ParserOptions} {now : Instant}
    {claims : C} (h : signatures.parse registered key options now token = some claims) :
    signatures.verify key token = some claims :=
  (Option.filter_eq_some_iff.mp h).1

variable {signatures}

theorem trimSpace_sign (key : GoString) (claims : C) :
    trimSpace (signatures.sign key claims) = signatures.sign key claims :=
  trimSpace_eq_self_of_notSpace (signatures.notSpace_sign key claims)

end Parsing

/-! ## Signatures exist -/

theorem decimal_ne_nil (n : ℕ) : decimal n ≠ [] := by
  unfold decimal
  split_ifs with h
  · exact List.cons_ne_nil _ _
  · simp [Nat.digits_eq_nil_iff_eq_zero, h]

noncomputable def Signatures.ofCountable (C : Type) [Countable C] : Signatures C :=
  letI : Encodable (GoString × C) := Encodable.ofCountable _
  { sign := fun key claims => decimal (Encodable.encode (key, claims))
    verify := fun key token =>
      (Encodable.decode (decValue token)).bind fun (signed : GoString × C) => if key = signed.1 then
      some signed.2 else none
    verify_sign := fun key key' claims => by
      rw [decValue_decimal, Encodable.encodek, Option.bind_some]
    notSpace_sign := fun _ _ b hb => notSpace_of_isDecDigit (isDecDigit_decimal _ b hb)
    sign_ne_nil := fun _ _ => decimal_ne_nil _
    validate := RegisteredClaims.isValid
    validate_eq := fun _ _ _ => rfl }

end Portlyn.Go
