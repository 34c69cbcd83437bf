import UniDb.Authz.Store

/-!
# Sessions, second factors and one-time tokens (`authz/mod.rs`)

The calls of the role store that issue and redeem credentials. A redeeming call reports what it
accepted (`Credential`).

* `Env.draw n` is the `n`-th string drawn at random. Every call has draws of its own, at most ten.
* A code typed by a user is the text after `trim`. A secret is its base32 text, which always
  decodes.
* Every change is written to `roles.json` at once; if that fails the call fails, and the change
  stays in memory.
-/

namespace UniDb.Authz

open Function

/-- What the store takes from outside. -/
structure Env where
  draw : Nat → String
  draw_injective : Function.Injective draw
  totpAt : String → Int → Option String

inductive Credential where
  | refresh (token : String)
  | challenge (token : String)
  /-- A time step of an enrollment. -/
  | totp (secret : String) (step : Int)
  | recoveryCode (code : String)
  | oauthState (token : String)
  | recovery (token : String)
  | magiclink (token : String)
deriving DecidableEq, Repr

def refreshTokenTtlSecs : Nat := 30 * 24 * 3600
def mfaChallengeTtlSecs : Nat := 5 * 60
def oauthStateTtlSecs : Nat := 10 * 60
def recoveryTokenTtlSecs : Nat := 60 * 60
def magiclinkTokenTtlSecs : Nat := 15 * 60
def totpStepSecs : Nat := 30
def recoveryCodeCount : Nat := 8

/-! ## Second factors -/

/-- `verify_totp_code`: the step that matches, in a window of one step to either side. -/
def verifyTotpCode (E : Env) (secret code : String) (lastUsedStep : Option Int) (now : Nat) :
    Option Int :=
  if code.toList.length ≠ 6 || !code.toList.all Char.isDigit then none
  else
    [-1, 0, 1].findSome? fun delta =>
      let step : Int := (now / totpStepSecs : Nat) + delta
      if step < 0 then none
      else if lastUsedStep.any (step ≤ ·) then none
      else if E.totpAt secret step = some code then some step
      else none

/-- A TOTP code, or else a recovery code; the record after its use, and what was used. -/
def secondFactor (E : Env) (r : MfaRecord) (code : String) (now : Nat) :
    Option (MfaRecord × Credential) :=
  match verifyTotpCode E r.secret code r.lastUsedStep now with
  | some step => some ({ r with lastUsedStep := some step }, .totp r.secret step)
  | none =>
    if code ∈ r.recoveryCodes then
      some ({ r with recoveryCodes := r.recoveryCodes.erase code }, .recoveryCode code)
    else none

/-! ## One-time tokens -/

/-- The stores of mailed tokens and of login challenges. -/
abbrev TokenStore := String → Option TokenRec

def TokenStore.issue (m : TokenStore) (token user : String) (expiresAt : Nat) : TokenStore :=
  update m token (some ⟨user, expiresAt, false⟩)

def TokenStore.markUsed (m : TokenStore) (token : String) : TokenStore :=
  update m token ((m token).map fun r => { r with used := true })

/-- The owner of a token that can be redeemed. -/
def TokenStore.live (m : TokenStore) (now : Nat) (token : String) : Option String :=
  (m token).bind fun r => if r.used || decide (r.expiresAt ≤ now) then none else some r.username

namespace AuthState
variable (s : AuthState) (E : Env) (n now : Nat) (user token : String) (provider : String)
  (code : String)

/-! ## Sessions -/

def createSession : AuthState :=
  { s with
    sessions := update s.sessions (E.draw n)
      (some ⟨E.draw (n + 1), user, now + refreshTokenTtlSecs, false⟩) }

def verifySession : Option String :=
  (s.sessions token).bind fun r =>
    if !r.revoked && decide (now < r.expiresAt) then some r.username else none

def revokeSession : AuthState :=
  { s with
    sessions := update s.sessions token
      ((s.sessions token).map fun r => { r with revoked := true }) }

def revokeWhere (p : SessionRec → Bool) : AuthState :=
  { s with
    sessions := fun token =>
      (s.sessions token).map fun r => if p r then { r with revoked := true } else r }

/-- `revoke_session_by_id`: ids are drawn, so at most one session has this one. -/
def revokeSessionById (id : String) : AuthState := s.revokeWhere fun r => r.sessionId == id

def revokeAllSessionsForUser : AuthState := s.revokeWhere fun r => r.username == user

def rotateSession : Option AuthState :=
  (s.verifySession now token).map fun username =>
    (s.revokeSession token).createSession E n now username

/-! ## Multi-factor login -/

def mfaEnabled : Bool := (s.mfa user).any (·.enabled)

def mfaEnroll : Except AuthError AuthState :=
  if !s.hasUser user then .error (.authz s!"user '{user}' not found")
  else if s.mfaEnabled user then
    .error (.authz "MFA is already enabled for this user — disable it before re-enrolling")
  else .ok { s with mfa := update s.mfa user (some ⟨E.draw n, false, [], none⟩) }

/-- `mfa_confirm`; nothing for a wrong code. -/
def mfaConfirm : Except AuthError (Option (AuthState × Credential)) :=
  match s.mfa user with
  | none =>
    .error (.authz "no pending MFA enrollment for this user — call POST /auth/mfa/enroll first")
  | some r =>
    if r.enabled then .error (.authz "MFA is already enabled for this user")
    else
      .ok ((verifyTotpCode E r.secret code r.lastUsedStep now).map fun step =>
        ({ s with
            mfa := update s.mfa user (some ⟨r.secret, true,
              (List.range recoveryCodeCount).map fun i => E.draw (n + i), some step⟩) },
          .totp r.secret step))

/-- `mfa_disable`; nothing for a wrong or missing code. -/
def mfaDisable (code : Option String) (skipCodeCheck : Bool) :
    Except AuthError (Option (AuthState × List Credential)) :=
  match s.mfa user with
  | none => .error (.authz "MFA is not enabled for this user")
  | some r =>
    if !r.enabled then .error (.authz "MFA is not enabled for this user")
    else
      let removed : AuthState := { s with mfa := update s.mfa user none }
      if skipCodeCheck then .ok (some (removed, []))
      else
        .ok (code.bind fun code => (secondFactor E r code now).map fun used => (removed, [used.2]))

def createMfaChallenge : AuthState :=
  { s with
    mfaChallenges :=
      TokenStore.issue s.mfaChallenges (E.draw n) user (now + mfaChallengeTtlSecs) }

def verifyMfaChallenge : Option (AuthState × Credential) :=
  (TokenStore.live s.mfaChallenges now token).bind fun username =>
    (s.mfa username).bind fun r =>
      if !r.enabled then none
      else
        (secondFactor E r code now).map fun used =>
          ({ s with
            mfa := update s.mfa username (some used.1)
            mfaChallenges := TokenStore.markUsed s.mfaChallenges token }, used.2)

/-! ## OAuth states and mailed tokens -/

def createOauthState : AuthState :=
  { s with
    oauthStates := update s.oauthStates (E.draw n)
      (some ⟨provider, E.draw (n + 1), now + oauthStateTtlSecs, false⟩) }

def verifyOauthState : Option AuthState :=
  (s.oauthStates token).bind fun r =>
    if r.used || decide (r.expiresAt ≤ now) || r.provider != provider then none
    else some { s with oauthStates := update s.oauthStates token (some { r with used := true }) }

def createRecoveryToken : AuthState :=
  { s with
    recoveryTokens :=
      TokenStore.issue s.recoveryTokens (E.draw n) user (now + recoveryTokenTtlSecs) }

def verifyRecoveryToken : Option AuthState :=
  (TokenStore.live s.recoveryTokens now token).map fun _ =>
    { s with recoveryTokens := TokenStore.markUsed s.recoveryTokens token }

def createMagiclinkToken : AuthState :=
  { s with
    magiclinkTokens := TokenStore.issue s.magiclinkTokens (E.draw n) user
      (now + magiclinkTokenTtlSecs) }

def verifyMagiclinkToken : Option AuthState :=
  (TokenStore.live s.magiclinkTokens now token).map fun _ =>
    { s with magiclinkTokens := TokenStore.markUsed s.magiclinkTokens token }

end AuthState

/-! ## Calls -/

inductive Call where
  | stmt (stmt : AuthStmt)
  | oauthLogin (provider providerUserId hint : String)
  | createSession (user : String)
  | rotateSession (token : String)
  | revokeSession (token : String)
  | revokeSessionById (id : String)
  | revokeAllSessionsForUser (user : String)
  | mfaEnroll (user : String)
  | mfaConfirm (user code : String)
  | mfaDisable (user : String) (code : Option String) (skipCodeCheck : Bool)
  | createMfaChallenge (user : String)
  | verifyMfaChallenge (token code : String)
  | createOauthState (provider : String)
  | verifyOauthState (token provider : String)
  | createRecoveryToken (user : String)
  | verifyRecoveryToken (token : String)
  | createMagiclinkToken (user : String)
  | verifyMagiclinkToken (token : String)
deriving DecidableEq, Repr

/-- A call that redeems something: the store stays as it is if it is refused. -/
def redeemed (s : AuthState) (credentials : List Credential) : Option AuthState →
    AuthState × List Credential
  | some s' => (s', credentials)
  | none => (s, [])

/-- A call at the time `now` with the draws from `n` on; the store after it and what it accepted. -/
def AuthState.exec (s : AuthState) (E : Env) (n now : Nat) :
    Call → Except AuthError (AuthState × List Credential)
  | .stmt stmt => (s.apply stmt).map fun s' => (s', [])
  | .oauthLogin provider id hint => .ok ((s.oauthLinkOrCreate provider id hint (E.draw n)).1, [])
  | .createSession user => .ok (s.createSession E n now user, [])
  | .rotateSession token => .ok (redeemed s [.refresh token] (s.rotateSession E n now token))
  | .revokeSession token => .ok (s.revokeSession token, [])
  | .revokeSessionById id => .ok (s.revokeSessionById id, [])
  | .revokeAllSessionsForUser user => .ok (s.revokeAllSessionsForUser user, [])
  | .mfaEnroll user => (s.mfaEnroll E n user).map fun s' => (s', [])
  | .mfaConfirm user code =>
    (s.mfaConfirm E n now user code).map fun
      | some (s', used) => (s', [used])
      | none => (s, [])
  | .mfaDisable user code skip =>
    (s.mfaDisable E now user code skip).map fun res => res.getD (s, [])
  | .createMfaChallenge user => .ok (s.createMfaChallenge E n now user, [])
  | .verifyMfaChallenge token code =>
    .ok (match s.verifyMfaChallenge E now token code with
      | some (s', used) => (s', [.challenge token, used])
      | none => (s, []))
  | .createOauthState provider => .ok (s.createOauthState E n now provider, [])
  | .verifyOauthState token provider =>
    .ok (redeemed s [.oauthState token] (s.verifyOauthState now token provider))
  | .createRecoveryToken user => .ok (s.createRecoveryToken E n now user, [])
  | .verifyRecoveryToken token =>
    .ok (redeemed s [.recovery token] (s.verifyRecoveryToken now token))
  | .createMagiclinkToken user => .ok (s.createMagiclinkToken E n now user, [])
  | .verifyMagiclinkToken token =>
    .ok (redeemed s [.magiclink token] (s.verifyMagiclinkToken now token))

/-- A call, when it comes, and whether `roles.json` can be written. -/
structure Request where
  call : Call
  now : Nat
  persists : Bool
deriving DecidableEq, Repr

structure Server where
  store : AuthState
  /-- The strings drawn so far. -/
  draws : Nat

def Server.init : Server := ⟨.empty, 0⟩

def Server.step (E : Env) (s : Server) (r : Request) : Option Server :=
  match s.store.exec E s.draws r.now r.call with
  | .ok (store, _) => some ⟨store, s.draws + 10⟩
  | .error _ => some ⟨s.store, s.draws + 10⟩

/-- The call succeeds and accepts `c`. -/
def Accepts (E : Env) (c : Credential) (s : Server) (r : Request) : Prop :=
  r.persists = true ∧ ∃ store accepted,
    s.store.exec E s.draws r.now r.call = .ok (store, accepted) ∧ c ∈ accepted

end UniDb.Authz
