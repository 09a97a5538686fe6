import OpenTams.Fallible
import OpenTams.Finalise

/-!
# Authentication

From the environment to a request: what `config.Load` reads and checks of `APP_ENV`
and the issuers, `buildAuth` of the server, `pkg/jwtauth`, `internal/auth` and the
middleware. What the libraries make of URLs and tokens is a parameter.
-/

namespace OpenTams.Auth

abbrev TokenValidator := Str → Option Str

/-- `newValidator` is of the string of an issuer's URL and its audience. -/
structure Libraries where
  trimSpace : Str → Str
  parseURL : Str → Option Str
  newValidator : Str → List Str → Option TokenValidator
  isExpiredToken : Str → Bool

/-! ## Configuration -/

structure Config where
  appEnv : Str
  externalIssuerURL : Str
  externalAudience : Str
  internalIssuerURL : Str
  internalAudience : Str
  internalAllowedSubjects : List Str

inductive ConfigError where
  | invalidValue (key : String) (value : Str) (valid : List String)
  | required (text : String)
  deriving DecidableEq

/-- A variable that is not set is empty. -/
def getEnum (env : String → Str) (key fallback : String) (valid : List String) : Str × List ConfigError :=
  if env key = [] then (lit fallback, [])
  else if valid.any fun x => lit x = env key then (env key, [])
  else (lit fallback, [.invalidValue key (env key) valid])

def getStringSlice (L : Libraries) (env : String → Str) (key : String) : List Str :=
  if env key = [] then [] else (((env key).splitOn (ch ',')).map L.trimSpace).filter (· ≠ [])

def Config.violations (c : Config) : List ConfigError :=
  (if c.appEnv = lit "development" then [] else
    (if c.externalIssuerURL = [] then [.required "AUTH_EXTERNAL_ISSUER_URL is required in production"] else []) ++
      if c.externalAudience = [] then [.required "AUTH_EXTERNAL_AUDIENCE is required in production"] else []) ++
  (if c.internalIssuerURL = [] then
    if c.internalAudience = [] then [] else
      [.required "AUTH_INTERNAL_ISSUER_URL is required when AUTH_INTERNAL_AUDIENCE is set"]
  else if c.internalAudience = [] then
    [.required "AUTH_INTERNAL_AUDIENCE is required when AUTH_INTERNAL_ISSUER_URL is set"] else []) ++
  if c.internalIssuerURL = [] then [] else if c.internalAllowedSubjects = [] then
    [.required "AUTH_INTERNAL_ALLOWED_SUBJECTS is required when AUTH_INTERNAL_ISSUER_URL is set"] else []

/-- `Load` as far as it is about authentication; it fails if any part of it does. -/
def load (L : Libraries) (env : String → Str) : Except (List ConfigError) Config :=
  let appEnv := getEnum env "APP_ENV" "production" ["production", "development"]
  let c : Config := {
    appEnv := appEnv.1
    externalIssuerURL := env "AUTH_EXTERNAL_ISSUER_URL"
    externalAudience := env "AUTH_EXTERNAL_AUDIENCE"
    internalIssuerURL := env "AUTH_INTERNAL_ISSUER_URL"
    internalAudience := env "AUTH_INTERNAL_AUDIENCE"
    internalAllowedSubjects := getStringSlice L env "AUTH_INTERNAL_ALLOWED_SUBJECTS" }
  if appEnv.2 ++ c.violations = [] then .ok c else .error (appEnv.2 ++ c.violations)

/-! ## Providers -/

inductive Issuer where
  | external
  | internal
  | dev
  deriving DecidableEq

structure Principal where
  subject : Str
  issuerType : Issuer

inductive Provider where
  | dev
  | jwt (validators : List (Issuer × TokenValidator)) (internalAllowed : List Str)

inductive BuildError where
  | url (issuer : Issuer)
  | validator (issuer : Issuer)

structure IssuerConfig where
  name : Issuer
  issuerURL : Str
  audience : List Str

/-- `jwtauth.New`. -/
def new (L : Libraries) : List IssuerConfig → Except BuildError (List (Issuer × TokenValidator))
  | [] => .ok []
  | iss :: issuers => match L.newValidator iss.issuerURL iss.audience with
    | none => .error (.validator iss.name)
    | some v => do
      let vs ← new L issuers
      .ok ((iss.name, v) :: vs)

def issuer (L : Libraries) (name : Issuer) (url audience : Str) : Except BuildError IssuerConfig :=
  match L.parseURL url with
  | none => .error (.url name)
  | some u => .ok ⟨name, u, [audience]⟩

def issuers (L : Libraries) (c : Config) : Except BuildError (List IssuerConfig) := do
  let external ← issuer L .external c.externalIssuerURL c.externalAudience
  if c.internalIssuerURL = [] then .ok [external]
  else do
    let internal ← issuer L .internal c.internalIssuerURL c.internalAudience
    .ok [external, internal]

def buildAuth (L : Libraries) (c : Config) : Except BuildError Provider :=
  if c.appEnv = lit "development" then .ok .dev
  else do
    let issuers ← issuers L c
    let v ← new L issuers
    .ok (.jwt v c.internalAllowedSubjects)

inductive ErrCode where
  | expired
  | noMatch

def validate (L : Libraries) (rawToken : Str) : List (Issuer × TokenValidator) → Except ErrCode Principal
  | [] => .error (if L.isExpiredToken rawToken then .expired else .noMatch)
  | (name, v) :: rest => match v rawToken with
    | some subject => .ok ⟨subject, name⟩
    | none => validate L rawToken rest

def authenticate (L : Libraries) (rawToken : Str) : Provider → Except Err Principal
  | .dev => .ok ⟨lit "dev", .dev⟩
  | .jwt validators internalAllowed => match validate L rawToken validators with
    | .ok tok =>
      if tok.issuerType = .internal && !internalAllowed.contains tok.subject then
        .error (.app (.new .forbidden [.text "service account not permitted"]))
      else .ok tok
    | .error .expired => .error (.app (.new .tokenExpired [.text "token has expired"]))
    | .error .noMatch => .error (.app (.new .unauthorized [.text "token is not valid"]))

def middleware (L : Libraries) (provider : Provider) (header : Str) : Except Err Str :=
  if header.take 7 = lit "Bearer " ∧ header.drop 7 ≠ [] then
    match authenticate L (header.drop 7) provider with
    | .ok principal => .ok principal.subject
    | .error _ => .error (.app (.new .unauthorized [.text "authentication failed"]))
  else .error (.app (.new .unauthorized [.text "missing or malformed Authorization header"]))

/-! ## Who is let in -/

section
variable {L : Libraries} {env : String → Str} {c : Config} {p : Provider} {header subject token : Str}

theorem load_production (h : load L env = .ok c) (henv : env "APP_ENV" ≠ lit "development") :
    c.appEnv ≠ lit "development" ∧ c.violations = [] := by
  unfold load at h
  dsimp only at h
  split at h
  · rename_i hnone
    cases h
    refine ⟨?_, (List.append_eq_nil_iff.mp hnone).2⟩
    have hdefault : lit "production" ≠ lit "development" := by decide
    dsimp only
    unfold getEnum
    split
    · exact hdefault
    split
    · exact henv
    · exact hdefault
  · cases h

theorem middleware_ok : middleware L p header = .ok subject ↔
    ∃ token principal, header = lit "Bearer " ++ token ∧ token ≠ [] ∧ authenticate L token p = .ok principal ∧
      principal.subject = subject := by
  unfold middleware
  constructor
  · intro h
    split at h
    · rename_i hb
      cases ha : authenticate L (header.drop 7) p with
      | error e => simp [ha] at h
      | ok principal =>
        simp only [ha, Except.ok.injEq] at h
        refine ⟨header.drop 7, principal, ?_, hb.2, ha, h⟩
        rw [← hb.1, List.take_append_drop]
    · cases h
  · rintro ⟨token, principal, rfl, hne, ha, rfl⟩
    have hdrop : (lit "Bearer " ++ token).drop 7 = token := rfl
    have htake : (lit "Bearer " ++ token).take 7 = lit "Bearer " := rfl
    rw [hdrop, htake, if_pos ⟨rfl, hne⟩, ha]

/-- An error of the provider is not handed on. -/
theorem middleware_error {e : Err} (h : middleware L p header = .error e) : (errorHandler e).status = 401 := by
  unfold middleware at h
  split at h
  · split at h
    · cases h
    · cases h
      rfl
  · cases h
    rfl

theorem violations_nil (h : c.violations = []) (hprod : c.appEnv ≠ lit "development") :
    c.externalIssuerURL ≠ [] ∧ c.externalAudience ≠ [] ∧
      (c.internalIssuerURL ≠ [] → c.internalAudience ≠ [] ∧ c.internalAllowedSubjects ≠ []) ∧
      (c.internalIssuerURL = [] → c.internalAudience = []) := by
  simp only [Config.violations, hprod, if_false, List.append_eq_nil_iff] at h
  obtain ⟨⟨⟨hurl, haudience⟩, hpair⟩, hsubjects⟩ := h
  refine ⟨fun he => by simp [he] at hurl, fun he => by simp [he] at haudience,
    fun hinternal => ⟨fun he => ?_, fun he => ?_⟩, fun hnone => ?_⟩
  · simp [hinternal, he] at hpair
  · simp [hinternal, he] at hsubjects
  · by_contra he
    simp [hnone, he] at hpair

def validator (L : Libraries) (url audience : Str) : Option TokenValidator :=
  (L.parseURL url).bind fun u => L.newValidator u [audience]

theorem new_issuer {name : Issuer} {url audience : Str} {iss : IssuerConfig} {issuers : List IssuerConfig}
    {vs : List (Issuer × TokenValidator)} (hiss : issuer L name url audience = .ok iss)
    (h : new L (iss :: issuers) = .ok vs) :
    ∃ v rest, validator L url audience = some v ∧ new L issuers = .ok rest ∧ vs = (name, v) :: rest := by
  unfold issuer at hiss
  split at hiss
  · cases hiss
  rename_i u hu
  cases hiss
  unfold new at h
  split at h
  · cases h
  rename_i v hv
  obtain ⟨rest, hrest, hret⟩ := Fallible.bind_ok.mp h
  cases hret
  exact ⟨v, rest, by simp [validator, hu, hv], hrest, rfl⟩

/-- The subject that a server in production finds a token to be of. -/
def Admits (L : Libraries) (c : Config) (token subject : Str) : Prop :=
  ∃ external, validator L c.externalIssuerURL c.externalAudience = some external ∧
    (external token = some subject ∨ external token = none ∧ c.internalIssuerURL ≠ [] ∧
      ∃ internal, validator L c.internalIssuerURL c.internalAudience = some internal ∧
        internal token = some subject ∧ subject ∈ c.internalAllowedSubjects)

theorem authenticate_iff (hprod : c.appEnv ≠ lit "development") (hbuild : buildAuth L c = .ok p) :
    (∃ principal, authenticate L token p = .ok principal ∧ principal.subject = subject) ↔ Admits L c token subject := by
  rw [buildAuth, if_neg hprod] at hbuild
  obtain ⟨list, hlist, hrest⟩ := Fallible.bind_ok.mp hbuild
  obtain ⟨vs, hnew, hret⟩ := Fallible.bind_ok.mp hrest
  cases hret
  obtain ⟨iss, hiss, hissuers⟩ := Fallible.bind_ok.mp hlist
  split at hissuers
  · cases hissuers
    obtain ⟨external, rest, hexternal, hnil, rfl⟩ := new_issuer hiss hnew
    cases hnil
    cases hx : external token <;> cases hexp : L.isExpiredToken token <;> simp [Admits, authenticate, validate, *]
  · obtain ⟨iss', hiss', hissuers⟩ := Fallible.bind_ok.mp hissuers
    cases hissuers
    obtain ⟨external, rest, hexternal, hnew', rfl⟩ := new_issuer hiss hnew
    obtain ⟨internal, rest, hinternal, hnil, rfl⟩ := new_issuer hiss' hnew'
    cases hnil
    cases hx : external token with
    | some s => simp [Admits, authenticate, validate, *]
    | none =>
      cases hy : internal token with
      | none => cases hexp : L.isExpiredToken token <;> simp [Admits, authenticate, validate, *]
      | some s =>
        -- only here the list of subjects decides
        by_cases hs : s ∈ c.internalAllowedSubjects
        · simp [Admits, authenticate, validate, *]
          rintro rfl
          exact hs
        · simp [Admits, authenticate, validate, *]
          rintro rfl
          exact hs

/-- **In production only tokens of the issuers are let in.** If the configuration loads and `APP_ENV` is not set to
`development`, the external issuer is configured in full, and so is the internal one if it is at all. A request is then
handed on exactly if it has a bearer token that the external issuer accepts, or that only the internal one does and
whose subject is listed; every other request is answered 401. -/
theorem production_admits (hload : load L env = .ok c) (henv : env "APP_ENV" ≠ lit "development")
    (hbuild : buildAuth L c = .ok p) :
    c.externalIssuerURL ≠ [] ∧ c.externalAudience ≠ [] ∧
      (c.internalIssuerURL ≠ [] → c.internalAudience ≠ [] ∧ c.internalAllowedSubjects ≠ []) ∧
      (c.internalIssuerURL = [] → c.internalAudience = []) ∧
      (∀ header subject, middleware L p header = .ok subject ↔
        ∃ token, header = lit "Bearer " ++ token ∧ token ≠ [] ∧ Admits L c token subject) ∧
      ∀ header e, middleware L p header = .error e → (errorHandler e).status = 401 := by
  obtain ⟨hprod, hnone⟩ := load_production hload henv
  obtain ⟨hurl, haudience, hinternal, hno⟩ := violations_nil hnone hprod
  refine ⟨hurl, haudience, hinternal, hno, fun header subject => ?_, fun header e => middleware_error⟩
  rw [middleware_ok]
  constructor
  · rintro ⟨token, principal, hheader, hne, ha, hs⟩
    exact ⟨token, hheader, hne, (authenticate_iff hprod hbuild).mp ⟨principal, ha, hs⟩⟩
  · rintro ⟨token, hheader, hne, hadmits⟩
    obtain ⟨principal, ha, hs⟩ := (authenticate_iff hprod hbuild).mpr hadmits
    exact ⟨token, principal, hheader, hne, ha, hs⟩

def urlTokens : Libraries :=
  ⟨id, some, fun url _ => some fun token => if url.isPrefixOf token then some (token.drop url.length) else none,
    fun _ => false⟩

def twoIssuers (key : String) : Str :=
  if key = "AUTH_EXTERNAL_ISSUER_URL" then lit "e/"
  else if key = "AUTH_INTERNAL_ISSUER_URL" then lit "i/"
  else if key = "AUTH_EXTERNAL_AUDIENCE" ∨ key = "AUTH_INTERNAL_AUDIENCE" then lit "tams"
  else if key = "AUTH_INTERNAL_ALLOWED_SUBJECTS" then lit "probe,loader"
  else []

theorem production_admits_one :
    ∃ c p, load urlTokens twoIssuers = .ok c ∧ buildAuth urlTokens c = .ok p ∧
      (∀ header subject, middleware urlTokens p header = .ok subject ↔
        ∃ token, header = lit "Bearer " ++ token ∧ token ≠ [] ∧ Admits urlTokens c token subject) ∧
      middleware urlTokens p (lit "Bearer e/user") = .ok (lit "user") ∧
      middleware urlTokens p (lit "Bearer i/loader") = .ok (lit "loader") ∧
      ∀ header ∈ [lit "Bearer i/user", lit "Bearer x/loader", lit "e/user"], ∃ e,
        middleware urlTokens p header = .error e ∧ (errorHandler e).status = 401 := by
  have h := @production_admits urlTokens twoIssuers _ _ rfl (by decide) rfl
  obtain ⟨-, -, -, -, hiff, herr⟩ := h
  refine ⟨_, _, rfl, rfl, hiff, rfl, rfl, ?_⟩
  simp only [List.forall_mem_cons]
  exact ⟨⟨_, rfl, herr (lit "Bearer i/user") _ rfl⟩, ⟨_, rfl, herr (lit "Bearer x/loader") _ rfl⟩,
    ⟨_, rfl, herr (lit "e/user") _ rfl⟩, nofun⟩

end

end OpenTams.Auth
