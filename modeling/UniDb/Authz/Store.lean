import UniDb.Lib.Graph

/-!
# The role store (`authz/mod.rs`: `AuthState`, `RoleStore`)

Users and roles are two sets of names; grants and memberships are keyed by the name alone.

* Maps that are only looked up are functions; `users`, which is counted, is an association list, and
  `memberships` a graph.
* Token stores are keyed by the SHA-256 hash of the token in the source, here by the token itself,
  and recovery codes are kept as they are.
* Left out: metadata and bans of users, secrets, webhooks, channel policies, cron jobs, functions,
  and the times of issue, which no check reads.
-/

namespace UniDb.Authz

open Function

/-! ## The state -/

inductive Privilege where
  | select | insert | update | delete
deriving DecidableEq, Repr

inductive GrantScope where
  /-- Every column, present and future. -/
  | all
  | columns (set : Finset String)
deriving DecidableEq

inductive ColumnGrant where
  | none
  | all
  | columns (set : Finset String)
deriving DecidableEq

inductive AuthError where
  | authz (message : String)
  | permissionDenied (message : String)
deriving DecidableEq, Repr

structure SessionRec where
  sessionId : String
  username : String
  expiresAt : Nat
  revoked : Bool
deriving DecidableEq, Repr

/-- `MfaChallengeRec` and `EmailTokenRec`. -/
structure TokenRec where
  username : String
  expiresAt : Nat
  used : Bool
deriving DecidableEq, Repr

structure OAuthStateRec where
  provider : String
  codeVerifier : String
  expiresAt : Nat
  used : Bool
deriving DecidableEq, Repr

structure MfaRecord where
  secret : String
  enabled : Bool
  recoveryCodes : List String
  lastUsedStep : Option Int
deriving DecidableEq, Repr

/-- The grants of one grantee on one table (`TablePrivs`). -/
abbrev TablePrivs := Privilege → Option GrantScope

structure AuthState where
  /-- Is the user a superuser? -/
  users : AList fun _ : String => Bool
  roles : Finset String
  /-- The roles a user or role is a member of. -/
  memberships : List (String × List String)
  tableGrants : String → String → TablePrivs
  credentials : String → Option String
  sessions : String → Option SessionRec
  mfa : String → Option MfaRecord
  mfaChallenges : String → Option TokenRec
  oauthIdentities : String → String → Option String
  oauthStates : String → Option OAuthStateRec
  recoveryTokens : String → Option TokenRec
  magiclinkTokens : String → Option TokenRec

def AuthState.empty : AuthState where
  users := ∅
  roles := ∅
  memberships := []
  tableGrants _ _ _ := none
  credentials _ := none
  sessions _ := none
  mfa _ := none
  mfaChallenges _ := none
  oauthIdentities _ _ := none
  oauthStates _ := none
  recoveryTokens _ := none
  magiclinkTokens _ := none

/-! ## Grants -/

/-- One privilege of a GRANT: only ever wider. -/
def TablePrivs.widen (columns : Option (List String)) (entry : TablePrivs) (p : Privilege) :
    TablePrivs :=
  match columns with
  | none => update entry p (some .all)
  | some cols =>
    match entry p with
    | some .all => entry
    | some (.columns set) => update entry p (some (.columns (set ∪ cols.toFinset)))
    | none => update entry p (some (.columns cols.toFinset))

/-- One privilege of a REVOKE; a grant of the whole table is not narrowed to columns here. -/
def TablePrivs.narrow (columns : Option (List String)) (entry : TablePrivs) (p : Privilege) :
    TablePrivs :=
  match columns with
  | none => update entry p none
  | some cols =>
    match entry p with
    | some .all => entry
    | some (.columns set) =>
      if set \ cols.toFinset = ∅ then update entry p none
      else update entry p (some (.columns (set \ cols.toFinset)))
    | none => entry

/-- A grant of the whole table becomes one of all its columns. -/
def TablePrivs.materialize (allColumns : List String) (entry : TablePrivs) (p : Privilege) :
    TablePrivs :=
  match entry p with
  | some .all => update entry p (some (.columns allColumns.toFinset))
  | _ => entry

namespace AuthState
variable (s : AuthState) (grantee table : String)

def setGrants (entry : TablePrivs) : AuthState :=
  { s with
    tableGrants := update s.tableGrants grantee
      (update (s.tableGrants grantee) table entry) }

/-- `materialize_all_to_columns`, for a list of privileges. -/
def materializeAllToColumns (privs : List Privilege) (allColumns : List String) : AuthState :=
  s.setGrants grantee table (privs.foldl (TablePrivs.materialize allColumns)
    (s.tableGrants grantee table))

end AuthState

/-! ## Statements -/

/-- A parsed statement; a password is its hash. -/
inductive AuthStmt where
  | createUser (name : String) (superuser : Bool) (password : Option String)
  | dropUser (name : String)
  | alterUserPassword (name password : String)
  | createRole (name : String)
  | dropRole (name : String)
  | grantPrivs (privs : List Privilege) (table grantee : String) (columns : Option (List String))
  | revokePrivs (privs : List Privilege) (table grantee : String) (columns : Option (List String))
  | grantRole (role grantee : String)
  | revokeRole (role grantee : String)
deriving DecidableEq, Repr

def reservedRoles : List String := ["anon", "authenticated", "service_role"]

def isReservedRole (name : String) : Bool := reservedRoles.contains name

namespace AuthState
variable (s : AuthState) (user table : String) (name : String) (p : Privilege) (grantee : String)

def hasUser : Bool := (s.users.lookup name).isSome

def superusers : Nat := (s.users.entries.filter fun e => e.2).length

def requireGrantee : Except AuthError Unit :=
  if s.hasUser grantee || decide (grantee ∈ s.roles) then .ok ()
  else .error (.authz s!"grantee '{grantee}' is not a known user or role")

/-- The record of a user goes; sessions, challenges and mailed tokens are not touched. -/
def removeUser : AuthState :=
  { s with
    users := s.users.erase name
    memberships := s.memberships.filter fun e => e.1 ≠ name
    tableGrants := update s.tableGrants name fun _ _ => none
    credentials := update s.credentials name none
    mfa := update s.mfa name none
    oauthIdentities := fun provider id => (s.oauthIdentities provider id).filter (· ≠ name) }

def removeRole : AuthState :=
  { s with
    roles := s.roles.erase name
    memberships := (s.memberships.filter fun e => e.1 ≠ name).map fun e =>
      (e.1, e.2.filter (· ≠ name))
    tableGrants := update s.tableGrants name fun _ _ => none }

def setRoles (roles : List String) : AuthState :=
  { s with memberships := (grantee, roles) :: s.memberships.filter fun e => e.1 ≠ grantee }

def apply : AuthStmt → Except AuthError AuthState
  | .createUser name superuser password =>
    if s.hasUser name then .error (.authz s!"user '{name}' already exists")
    else .ok { s with
      users := s.users.insert name superuser
      credentials := password.elim s.credentials fun h => update s.credentials name (some h) }
  | .dropUser name =>
    match s.users.lookup name with
    | none => .error (.authz s!"user '{name}' not found")
    | some isSuper =>
      if isSuper && decide (s.superusers ≤ 1) then
        .error (.permissionDenied s!"cannot drop user '{name}': it is the last remaining superuser")
      else .ok (s.removeUser name)
  | .alterUserPassword name password =>
    if !s.hasUser name then .error (.authz s!"user '{name}' not found")
    else .ok { s with credentials := update s.credentials name (some password) }
  | .createRole name =>
    if isReservedRole name then
      .error (.authz s!"role '{name}' is reserved (built-in) and cannot be created")
    else if name ∈ s.roles then .error (.authz s!"role '{name}' already exists")
    else .ok { s with roles := insert name s.roles }
  | .dropRole name =>
    if isReservedRole name then
      .error (.authz s!"role '{name}' is reserved (built-in) and cannot be dropped")
    else if name ∉ s.roles then .error (.authz s!"role '{name}' not found")
    else .ok (s.removeRole name)
  | .grantPrivs privs table grantee columns => do
    s.requireGrantee grantee
    .ok (s.setGrants grantee table
      (privs.foldl (TablePrivs.widen columns) (s.tableGrants grantee table)))
  | .revokePrivs privs table grantee columns =>
    .ok (s.setGrants grantee table
      (privs.foldl (TablePrivs.narrow columns) (s.tableGrants grantee table)))
  | .grantRole role grantee => do
    if role ∉ s.roles then throw (.authz s!"role '{role}' does not exist")
    s.requireGrantee grantee
    .ok (s.setRoles grantee ((successors s.memberships grantee).insert role))
  | .revokeRole role grantee =>
    .ok (s.setRoles grantee ((successors s.memberships grantee).filter (· ≠ role)))

/-- `Engine::exec_auth_stmt`; `live`: the columns of the table, if the catalog has it. -/
def execAuthStmt (live : Option (List String)) : AuthStmt → Except AuthError AuthState
  | .revokePrivs privs table grantee (some cols) =>
    match live with
    | some all =>
      (s.materializeAllToColumns grantee table privs all).apply
        (.revokePrivs privs table grantee (some cols))
    | none => s.apply (.revokePrivs privs table grantee (some cols))
  | stmt => s.apply stmt

/-- `create_user_with_password`: sign-up. -/
def createUserWithPassword (user password : String) : Except AuthError AuthState :=
  s.apply (.createUser user false (some password))

def oauthUsername (hint suffix : String) : String :=
  if s.hasUser hint then s!"{hint}_{suffix}" else hint

/-- `oauth_link_or_create`; `suffix` is drawn at random. -/
def oauthLinkOrCreate (provider providerUserId hint suffix : String) : AuthState × String :=
  match s.oauthIdentities provider providerUserId with
  | some existing => (s, existing)
  | none =>
    let username := s.oauthUsername hint suffix
    ({ s with
        users := s.users.insert username false
        oauthIdentities := update s.oauthIdentities provider
          (update (s.oauthIdentities provider) providerUserId (some username)) }, username)

/-! ## Privileges -/

/-- The loop over the grantees: the whole table wins, otherwise the columns add up. -/
def resolveLoop (table : String) (p : Privilege) : List String → Bool → Finset String → ColumnGrant
  | [], sawAny, cols => if sawAny then .columns cols else .none
  | g :: gs, sawAny, cols =>
    match s.tableGrants g table p with
    | none => resolveLoop table p gs sawAny cols
    | some .all => .all
    | some (.columns set) => resolveLoop table p gs true (cols ∪ set)

def resolveColumnGrant : ColumnGrant :=
  s.resolveLoop table p (reach s.memberships [] [user]) false ∅

def isSuperuser : Bool := (s.users.lookup user).getD false

def hasPrivilege : Bool :=
  s.isSuperuser user || decide (s.resolveColumnGrant user table p ≠ .none)

def columnGrant : ColumnGrant :=
  if s.isSuperuser user then .all else s.resolveColumnGrant user table p

end AuthState

end UniDb.Authz
