import Portlyn.Http.Users

/-! # The account that a sign-in with OpenID Connect leads to

A subject is looked up without its issuer, an e-mail that is missing passes the check of its domain,
and only accounts that are marked as local need the permission to be linked.
`oidcSignIn_rightAccount` says that these are the ways to a wrong account, and the only ones. -/
namespace Portlyn.Http
open Go Domain Lib Lib.Interleave Auth
set_option autoImplicit false

/-! ## The right account -/

def BoundTo (issuer subject : GoString) (row : UserRow) : Prop :=
  row.authProvider = .oidc ∧ row.authProviderRef = subject ∧ row.authIssuer = issuer

/-- An e-mail may lead to the account: no subject is bound to it, and accounts of another kind are
linked only if that is configured. -/
def Linkable (cfg : OIDCConfig) (row : UserRow) : Prop :=
  ¬ (row.authProvider = .oidc ∧ row.authProviderRef ≠ []) ∧ (row.authProvider ≠ .oidc → cfg.allowEmailLinking = true)

/-- The account leaves no room for a mistake: a subject that is bound to it is one of the configured
issuer, and an account that is neither local nor of OpenID Connect may be linked. -/
structure WellKept (cfg : OIDCConfig) (row : UserRow) : Prop where
  issuer : row.authProvider = .oidc → row.authProviderRef ≠ [] → row.authIssuer = cfg.issuerURL
  provider : row.authProvider ≠ .oidc → row.authProvider ≠ .password → cfg.allowEmailLinking = true

section Tables
variable [UnicodeTables] (env : Env)

def RightAccount (cfg : OIDCConfig) (identity : OIDCIdentity) (row : UserRow) : Prop :=
  BoundTo cfg.issuerURL (trimSpace identity.subject) row ∨
    (identity.emailVerified = true ∧ env.sqlLower row.email = toLower identity.normalizedEmail ∧ Linkable cfg row)

/-- The call has found the user by the subject or by the e-mail, and this was its row. -/
def Found (t : ℕ) (log : UserHistory) (identity : OIDCIdentity) (id : ℕ) (row : UserRow) : Prop :=
  FoundBySubject t log identity id row ∨ FoundByEmail t log identity id row

def Held (s : Store) (events : List (Event UserRequest Chance)) (id : ℕ) (row : UserRow) : Prop :=
  ∃ before after c, events = before ++ after ∧ (accounts env).run (Config.init s) before = some c ∧
    c.world.store.users.get id = some row

/-- The call has signed the identity in to the user `id`. -/
def SignedIn (c : Config Ans Store UserRequest UserAnswer) (t : ℕ) (cfg : OIDCConfig)
    (identity : OIDCIdentity) (id : ℕ) : Prop :=
  ∃ start login, c.task t = some ⟨.completeOIDC cfg identity, start, .ret (.signedIn (.ok (id, login)))⟩

/-! ## What a look-up answers -/

section Lookups
variable {env} {s : Store} {events : List (Event UserRequest Chance)}
  {c : Config Ans Store UserRequest UserAnswer}
  {t id : ℕ} {identity : OIDCIdentity} {row : UserRow}

theorem foundBySubject_held (hrun : (accounts env).run (Config.init s) events = some c)
    (h : FoundBySubject t c.world.log identity id row) :
    Held env s events id row ∧ row.authProvider = .oidc ∧ row.authProviderRef = trimSpace identity.subject := by
  obtain ⟨before, after, c₁, -, i, rfl, hbefore, -, -, hans⟩ := statement_moment hrun h List.not_mem_nil
  obtain ⟨hval, -⟩ := users_ok (eq_of_heq (Entry.mk.inj hans).2.2).symm
  obtain ⟨hget, hquery⟩ := Table.first_some (orNotFound_ok hval)
  simp only [Bool.and_eq_true, decide_eq_true_eq, trimSpace_trimSpace] at hquery
  exact ⟨⟨before, _, c₁, rfl, hbefore, hget⟩, hquery⟩

theorem foundByEmail_held (hrun : (accounts env).run (Config.init s) events = some c)
    (h : FoundByEmail t c.world.log identity id row) :
    Held env s events id row ∧ env.sqlLower row.email = toLower identity.normalizedEmail := by
  obtain ⟨before, after, c₁, -, i, rfl, hbefore, -, -, hans⟩ := statement_moment hrun h List.not_mem_nil
  obtain ⟨hval, -⟩ := users_ok (eq_of_heq (Entry.mk.inj hans).2.2).symm
  obtain ⟨hget, hquery⟩ := Table.first_some (orNotFound_ok hval)
  exact ⟨⟨before, _, c₁, rfl, hbefore, hget⟩, of_decide_eq_true hquery⟩

end Lookups

/-! ## Which accounts are right -/

section Accounts
variable {env} {cfg : OIDCConfig} {identity : OIDCIdentity} {row : UserRow}

theorem rightAccount_of_bound (hprovider : row.authProvider = .oidc)
    (hbound : row.authProviderRef ≠ []) (href : row.authProviderRef = trimSpace identity.subject) :
    RightAccount env cfg identity row ↔ WellKept cfg row := by
  constructor
  · rintro (⟨-, -, hissuer⟩ | ⟨-, -, hlink, -⟩)
    · exact ⟨fun _ _ => hissuer, fun hother => absurd hprovider hother⟩
    · exact absurd ⟨hprovider, hbound⟩ hlink
  · exact fun h => Or.inl ⟨hprovider, href, h.issuer hprovider hbound⟩

omit [UnicodeTables] in
theorem linkDenied_eq_false (h : linkDenied cfg identity row = false) :
    identity.emailVerified = true ∧ (row.authProvider = .password → cfg.allowEmailLinking = true) ∧
      (row.authProvider = .oidc → row.authProviderRef ≠ [] → row.authProviderRef = trimSpace identity.subject) := by
  simp only [linkDenied, Bool.or_eq_false_iff, Bool.and_eq_false_iff, Bool.not_eq_false', decide_eq_false_iff_not] at h
  obtain ⟨⟨hverified, hlocal⟩, hbound⟩ := h
  refine ⟨hverified, fun hpassword => hlocal.resolve_left (absurd hpassword), fun hoidc href => ?_⟩
  rcases hbound with (hnot | hnot) | hsame
  · exact absurd hoidc hnot
  · exact absurd href hnot
  · exact not_not.mp hsame

theorem rightAccount_of_linked (hemail : env.sqlLower row.email = toLower identity.normalizedEmail)
    (hlink : linkDenied cfg identity row = false) : RightAccount env cfg identity row ↔ WellKept cfg row := by
  obtain ⟨hverified, hlocal, href⟩ := linkDenied_eq_false hlink
  by_cases hbound : row.authProvider = .oidc ∧ row.authProviderRef ≠ []
  · exact rightAccount_of_bound hbound.1 hbound.2 (href hbound.1 hbound.2)
  constructor
  · rintro (⟨hoidc, hsubject, hissuer⟩ | ⟨-, -, -, hallowed⟩)
    · exact ⟨fun _ _ => hissuer, fun hother => absurd hoidc hother⟩
    · exact ⟨fun hoidc hsome => absurd ⟨hoidc, hsome⟩ hbound, fun hother _ => hallowed hother⟩
  · intro h
    refine Or.inr ⟨hverified, hemail, hbound, fun hother => ?_⟩
    by_cases hpassword : row.authProvider = .password
    · exact hlocal hpassword
    · exact h.provider hother hpassword

theorem listsDomain_of_valid {email : GoString} (h : cfg.validateAllowedEmailDomain email = true)
    (hlist : cfg.allowedEmailDomains ≠ []) : cfg.listsDomain email = true ↔ email ≠ [] := by
  constructor
  · rintro hlists rfl
    cases hlists
  · intro hemail
    rw [OIDCConfig.validateAllowedEmailDomain, if_neg (not_or.mpr ⟨hlist, hemail⟩)] at h
    exact h

end Accounts

/-! ## Every run -/

/-- For every table, every schedule and every configuration of each sign-in: the user whom a sign-in
leads to was found in the table or is new. It is the right account, and its e-mail is in the list of
domains if there is one, if and only if the account is well kept and the e-mail is not missing where
domains are listed. -/
theorem oidcSignIn_rightAccount (s : Store) (events : List (Event UserRequest Chance))
    (c : Config Ans Store UserRequest UserAnswer) (hrun : (accounts env).run (Config.init s) events = some c) (t : ℕ)
    (cfg : OIDCConfig) (identity : OIDCIdentity) (id : ℕ) (hsigned : SignedIn c t cfg identity id) :
    ((∃ row, Found t c.world.log identity id row) ∨ CreatedFor t c.world.log cfg identity id) ∧
    (∀ row, Found t c.world.log identity id row → Held env s events id row) ∧
    ((∀ row, Found t c.world.log identity id row → RightAccount env cfg identity row) ∧
        (cfg.allowedEmailDomains ≠ [] → cfg.listsDomain identity.normalizedEmail = true) ↔
      (∀ row, Found t c.world.log identity id row → WellKept cfg row) ∧
        (cfg.allowedEmailDomains ≠ [] → identity.normalizedEmail ≠ [])) := by
  have hprog : ∀ t request, True → ((accounts env).prog t request).Obeys t (UserLaw t)
    (fun own => UserOutcome t own request) [] :=
    fun t request _ => userCallOf_obeys env request
  have hkeeps : Keeps (Op.exec env) UserLaw (fun _ _ _ _ => True) fun _ => True := fun _ _ _ _ _ _ _ => trivial
  obtain ⟨-, hpost⟩ := lawful_run (accounts env) hprog hkeeps trivial
    (along_always (fun _ => trivial) (fun _ _ _ _ => trivial) _ events) hrun
  obtain ⟨start, login, htask⟩ := hsigned
  obtain ⟨hresolved, hvalid⟩ := hpost t _ _ htask rfl
  -- what the call has found is in the log of all calls, and the other way round
  have hlog : ∀ e : Entry Ans, e.call = t → (e ∈ c.world.own t ↔ e ∈ c.world.log) :=
    fun e he => mem_own.trans (and_iff_left he)
  have hright : ∀ row, Found t c.world.log identity id row →
    (RightAccount env cfg identity row ↔ WellKept cfg row) := by
    rintro row (hfound | hfound)
    · obtain ⟨-, hprovider, href⟩ := foundBySubject_held hrun hfound
      exact rightAccount_of_bound hprovider (fun hnil => hresolved.subject (href.symm.trans hnil)) href
    · obtain ⟨-, hemail⟩ := foundByEmail_held hrun hfound
      exact rightAccount_of_linked hemail (hresolved.linked id row ((hlog _ rfl).mpr hfound)).2
  refine ⟨?_, ?_, and_congr (forall₂_congr hright) (forall_congr' fun hlist => listsDomain_of_valid hvalid hlist)⟩
  · rcases hresolved.user with ⟨row, hfound⟩ | ⟨row, hfound⟩ | hcreated
    · exact Or.inl ⟨row, Or.inl ((hlog _ rfl).mp hfound)⟩
    · exact Or.inl ⟨row, Or.inr ((hlog _ rfl).mp hfound)⟩
    · exact Or.inr ((hlog _ rfl).mp hcreated)
  · rintro row (hfound | hfound)
    · exact (foundBySubject_held hrun hfound).1
    · exact (foundByEmail_held hrun hfound).1

end Tables

/-! ## Accounts to sign in to -/

def signedInto (c : Config Ans Store UserRequest UserAnswer) (t : ℕ) : Option ℕ :=
  match c.task t with
  | some ⟨_, _, .ret (.signedIn (.ok (id, _)))⟩ => some id
  | _ => none

def signIn (cfg : OIDCConfig) (identity : OIDCIdentity) (n : ℕ) : List (Event UserRequest Chance) :=
  .start 0 (.completeOIDC cfg identity) :: userSteps 0 n

theorem signedIn_of_signedInto [UnicodeTables] {env : Env} {s : Store} {cfg : OIDCConfig}
    {identity : OIDCIdentity} {n id : ℕ}
    (h : ((accounts env).run (Config.init s) (signIn cfg identity n)).map (fun c =>
      signedInto c 0) = some (some id)) :
    ∃ c, (accounts env).run (Config.init s) (signIn cfg identity n) = some c ∧
      SignedIn c 0 cfg identity id := by
  obtain ⟨c, hrun, hsigned⟩ := Option.map_eq_some_iff.mp h
  obtain ⟨c₁, hnext, hrest⟩ := run_cons hrun
  have hstarted : c₁.task 0 =
    some ⟨.completeOIDC cfg identity, ⟨s, []⟩, userCallOf env 0 (.completeOIDC cfg identity)⟩ := by
    cases hnext
    rfl
  obtain ⟨rest, htask⟩ := task_kept hrest hstarted
  refine ⟨c, hrun, ⟨s, []⟩, ?_⟩
  rw [signedInto, htask] at hsigned
  split at hsigned
  · rename_i _ _ id' login hsome
    cases hsigned
    cases hsome
    exact ⟨login, htask⟩
  · cases hsigned

def boundStore : Store :=
  sampleStore { sampleUser with
    mfaEnabled := false, authProvider := .oidc, authProviderRef := [0x73], authIssuer := [0x69] } .empty

def readsBound (cfg : OIDCConfig) : Entry Ans → Bool
  | ⟨_, .users (.getByProviderRef _ _), .ok found⟩ => found.2.authProvider = .oidc && found.2.authIssuer = cfg.issuerURL
  | ⟨_, .users (.getByEmail _), .ok _⟩ => false
  | _ => true

theorem wellKept_of_readsBound [UnicodeTables] {cfg : OIDCConfig} {log : UserHistory}
    (h : log.all (readsBound cfg) = true) {t id : ℕ} {identity : OIDCIdentity} {row : UserRow}
    (hfound : Found t log identity id row) : WellKept cfg row := by
  rcases hfound with hfound | hfound
  · have hread : row.authProvider = .oidc && row.authIssuer = cfg.issuerURL := List.all_eq_true.mp h _ hfound
    rw [Bool.and_eq_true, decide_eq_true_eq, decide_eq_true_eq] at hread
    exact ⟨fun _ _ => hread.2, fun hother => absurd hread.1 hother⟩
  · exact absurd (List.all_eq_true.mp h _ hfound) Bool.false_ne_true

theorem oidcSignIn_rightAccount_bound :
    ∃ c, (@accounts asciiTables sampleEnv).run (Config.init boundStore) (signIn sampleOIDC sampleIdentity 6) = some c ∧
      SignedIn c 0 sampleOIDC sampleIdentity 1 ∧
      ∀ row, @Found asciiTables 0 c.world.log sampleIdentity 1 row →
        @RightAccount asciiTables sampleEnv sampleOIDC sampleIdentity row := by
  have hrun : ((@accounts asciiTables sampleEnv).run (Config.init boundStore) (signIn sampleOIDC sampleIdentity 6)).map
      (fun c => signedInto c 0) = some (some 1) := by decide +kernel
  have hreads : ((@accounts asciiTables sampleEnv).run (Config.init boundStore)
      (signIn sampleOIDC sampleIdentity 6)).map (fun c => c.world.log.all (readsBound sampleOIDC)) = some true := by decide +kernel
  obtain ⟨c, hc, hsigned⟩ := @signedIn_of_signedInto asciiTables _ _ _ _ _ _ hrun
  rw [hc, Option.map_some, Option.some.injEq] at hreads
  obtain ⟨-, -, hiff⟩ :=
    @oidcSignIn_rightAccount asciiTables sampleEnv boundStore _
    c hc 0 sampleOIDC sampleIdentity 1 hsigned
  refine ⟨c, hc, hsigned,
    (hiff.mpr ⟨fun row hfound => @wellKept_of_readsBound asciiTables _ _ hreads _ _ _ _ hfound,
    ?_⟩).1⟩
  exact fun hlist => absurd rfl hlist

def otherIssuer : Store :=
  sampleStore { sampleUser with
    mfaEnabled := false, authProvider := .oidc, authProviderRef := [0x73], authIssuer := [0x6f] } .empty

def otherEmail : OIDCIdentity := { sampleIdentity with email := [0x62] }

def noProvider : Store :=
  sampleStore { sampleUser with mfaEnabled := false, authProvider := .other [] } .empty

def listedDomains : OIDCConfig := { sampleOIDC with allowedEmailDomains := [[0x64]] }

def noEmail : OIDCIdentity := { sampleIdentity with email := [] }

/-- A sign-in leads to an account of another issuer; to an account that was not to be linked; and
past the list of domains. -/
theorem oidcSignIn_wrongAccount :
    (∃ row, otherIssuer.users.get 1 = some row ∧ ¬ @RightAccount asciiTables sampleEnv sampleOIDC otherEmail row ∧
      ∃ c, (@accounts asciiTables sampleEnv).run (Config.init otherIssuer) (signIn sampleOIDC otherEmail 6) = some c ∧
        SignedIn c 0 sampleOIDC otherEmail 1) ∧
    (∃ row, noProvider.users.get 1 = some row ∧ ¬ @RightAccount asciiTables sampleEnv sampleOIDC sampleIdentity row ∧
      ∃ c, (@accounts asciiTables sampleEnv).run (Config.init noProvider)
        (signIn sampleOIDC sampleIdentity 7) = some c ∧
        SignedIn c 0 sampleOIDC sampleIdentity 1) ∧
    listedDomains.allowedEmailDomains ≠ [] ∧
      @OIDCConfig.listsDomain asciiTables listedDomains (@OIDCIdentity.normalizedEmail asciiTables noEmail) = false ∧
      ∃ c, (@accounts asciiTables sampleEnv).run (Config.init boundStore) (signIn listedDomains noEmail 6) = some c ∧
        SignedIn c 0 listedDomains noEmail 1 := by
  refine ⟨⟨_, rfl, ?_, ?_⟩, ⟨_, rfl, ?_, ?_⟩, List.cons_ne_nil _ _, by decide +kernel, ?_⟩
  · rintro (⟨-, -, hissuer⟩ | ⟨-, -, hlink, -⟩)
    · cases hissuer
    · exact hlink ⟨rfl, List.cons_ne_nil _ _⟩
  · exact @signedIn_of_signedInto asciiTables _ _ _ _ _ _ (by decide +kernel)
  · rintro (⟨hprovider, -⟩ | ⟨-, -, -, hlink⟩)
    · cases hprovider
    · cases hlink nofun
  · exact @signedIn_of_signedInto asciiTables _ _ _ _ _ _ (by decide +kernel)
  · exact @signedIn_of_signedInto asciiTables _ _ _ _ _ _ (by decide +kernel)

end Portlyn.Http
