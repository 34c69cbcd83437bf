import UniDb.Authz.Store
import UniDb.Lib.Checked
import UniDb.Lib.Run

/-!
# Privileges come from grants

`Ledger` is what the privileges of an account are to follow from: every `CREATE` of a user or role
is a new account, and grants and memberships are made to accounts, not to names.

* `Lawful`: the privileges that the store gives a user are those of the accounts that its own can
  reach.
* `user_named_like_role`: the store keys grants by name, so a user who signs up under the name of a
  role has the grants of the role.
* `privileges_follow_ledger`: they are, as long as no name is a user and a role at once (`NoClash`).
  The store then simulates the ledger (`Sim`).
-/

namespace UniDb.Authz

open Relation AuthState TablePrivs Function

/-! ## The ledger -/

/-- The accounts that ever were; an account is the number of its creation. -/
structure Ledger where
  next : Nat
  user : String → Option Nat
  role : String → Option Nat
  grants : Nat → String → TablePrivs
  member : Nat → Nat → Prop

namespace Ledger
variable (l : Ledger)

def empty : Ledger where
  next := 0
  user _ := none
  role _ := none
  grants _ _ _ := none
  member _ _ := False

/-- The account `i` now bears the name `n`. -/
def Named (n : String) (i : Nat) : Prop := l.user n = some i ∨ l.role n = some i

instance (n : String) (i : Nat) : Decidable (l.Named n i) := inferInstanceAs (Decidable (_ ∨ _))

def edit (grantee table : String) (f : TablePrivs → TablePrivs) : Ledger :=
  { l with
    grants := fun i t =>
      if l.Named grantee i ∧ t = table then f (l.grants i t) else l.grants i t }

/-- What a statement that was carried out means. A REVOKE of columns leaves the other columns of the
table (`live`; none if there is no such table). -/
def record (live : Option (List String)) : AuthStmt → Ledger
  | .createUser name _ _ => { l with next := l.next + 1, user := update l.user name (some l.next) }
  | .dropUser name => { l with user := update l.user name none }
  | .alterUserPassword _ _ => l
  | .createRole name => { l with next := l.next + 1, role := update l.role name (some l.next) }
  | .dropRole name => { l with role := update l.role name none }
  | .grantPrivs privs table grantee columns => l.edit grantee table (privs.foldl (widen columns))
  | .revokePrivs privs table grantee none => l.edit grantee table (privs.foldl (narrow none))
  | .revokePrivs privs table grantee (some cols) => l.edit grantee table fun entry =>
      privs.foldl (narrow (some cols)) (privs.foldl (materialize (live.getD [])) entry)
  | .grantRole role grantee =>
    { l with member := fun i j => l.member i j ∨ (l.Named grantee i ∧ l.role role = some j) }
  | .revokeRole role grantee =>
    { l with member := fun i j => l.member i j ∧ ¬(l.Named grantee i ∧ l.role role = some j) }

/-- `i` is a member of `j`, a role that has not been dropped. -/
def Edge (i j : Nat) : Prop := l.member i j ∧ ∃ r, l.role r = some j

end Ledger

/-! ## The property -/

/-- Scopes that come together: the whole table wins, otherwise the columns add up. -/
def Combines (R : GrantScope → Prop) : ColumnGrant → Prop
  | .none => ∀ scope, ¬R scope
  | .all => R .all
  | .columns set => ¬R .all ∧ (∃ S, R (.columns S)) ∧ ∀ c, c ∈ set ↔ ∃ S, R (.columns S) ∧ c ∈ S

/-- The grant was made to `i` or to a role it can reach. -/
def Granted (l : Ledger) (i : Nat) (table : String) (p : Privilege) (scope : GrantScope) : Prop :=
  ∃ j, ReflTransGen l.Edge i j ∧ l.grants j table p = some scope

def Lawful (s : AuthState) (l : Ledger) : Prop :=
  ∀ n, s.users.lookup n = some false → ∃ i, l.user n = some i ∧ ∀ table p,
    Combines (Granted l i table p) (s.columnGrant n table p) ∧
      (s.hasPrivilege n table p = true ↔ ∃ scope, Granted l i table p scope)

/-! ## Runs -/

inductive Act where
  | stmt (live : Option (List String)) (stmt : AuthStmt)
  | signup (user password : String)
  | oauthLogin (provider providerUserId hint suffix : String)
deriving DecidableEq, Repr

/-- The store, and the ledger of what it reported as done. -/
structure Sys where
  store : AuthState
  ledger : Ledger

def Sys.init : Sys := ⟨.empty, .empty⟩

/-- A failed call changes nothing; a repeated login neither. -/
def Sys.step (s : Sys) : Act → Option Sys
  | .stmt live stmt =>
    match s.store.execAuthStmt live stmt with
    | .ok store => some ⟨store, s.ledger.record live stmt⟩
    | .error _ => some s
  | .signup user password =>
    match s.store.createUserWithPassword user password with
    | .ok store => some ⟨store, s.ledger.record none (.createUser user false (some password))⟩
    | .error _ => some s
  | .oauthLogin provider id hint suffix =>
    match s.store.oauthIdentities provider id with
    | some _ => some s
    | none =>
      let (store, username) := s.store.oauthLinkOrCreate provider id hint suffix
      some ⟨store, s.ledger.record none (.createUser username false none)⟩

/-- The condition on a step: a name is not given to a user and a role at once, nor to two users, and
columns are revoked of tables that exist, or from grantees that do not hold the whole table. -/
def NoClash (s : Sys) : Act → Prop
  | .stmt _ (.createUser name _ _) | .signup name _ => name ∉ s.store.roles
  | .stmt _ (.createRole name) => s.store.hasUser name = false
  | .stmt live (.revokePrivs privs table grantee (some _)) =>
    live ≠ none ∨ ∀ p ∈ privs, s.store.tableGrants grantee table p ≠ some .all
  | .oauthLogin provider id hint suffix =>
    s.store.oauthIdentities provider id = none →
      s.store.oauthUsername hint suffix ∉ s.store.roles ∧
        s.store.hasUser (s.store.oauthUsername hint suffix) = false
  | _ => True

instance (s : Sys) (a : Act) : Decidable (NoClash s a) := by
  unfold NoClash
  split <;> infer_instance

/-! ## Resolution -/

variable {R R' : GrantScope → Prop} {g : ColumnGrant}

lemma Combines.congr (hall : R .all ↔ R' .all)
    (hcols : (∃ S, R (.columns S)) ↔ ∃ S, R' (.columns S))
    (hmem : ∀ c, (∃ S, R (.columns S) ∧ c ∈ S) ↔ ∃ S, R' (.columns S) ∧ c ∈ S) (h : Combines R g) :
    Combines R' g := by
  cases g with
  | none =>
    intro scope hscope
    cases scope with
    | all => exact h .all (hall.2 hscope)
    | columns S =>
      obtain ⟨S', hS'⟩ := hcols.2 ⟨S, hscope⟩
      exact h _ hS'
  | all => exact hall.1 h
  | columns set =>
    obtain ⟨hnot, hany, hset⟩ := h
    exact ⟨fun h' => hnot (hall.2 h'), hcols.1 hany, fun c => (hset c).trans (hmem c)⟩

lemma Combines.of_iff (h : ∀ scope, R scope ↔ R' scope) (hg : Combines R g) : Combines R' g := by
  obtain rfl : R = R' := funext fun scope => propext (h scope)
  exact hg

lemma Combines.ne_none_iff (h : Combines R g) : g ≠ .none ↔ ∃ scope, R scope := by
  cases g with
  | none => exact iff_of_false (fun hne => hne rfl) fun ⟨scope, hs⟩ => h scope hs
  | all => exact iff_of_true nofun ⟨_, h⟩
  | columns set => exact iff_of_true nofun ⟨_, h.2.1.choose_spec⟩

lemma resolveLoop_combines (s : AuthState) (table : String) (p : Privilege) (gs : List String)
    (sawAny : Bool) (cols : Finset String) :
    Combines (fun scope => (sawAny = true ∧ scope = .columns cols) ∨
        ∃ g ∈ gs, s.tableGrants g table p = some scope)
      (s.resolveLoop table p gs sawAny (if sawAny then cols else ∅)) := by
  induction gs generalizing sawAny cols with
  | nil =>
    cases sawAny with
    | false =>
      intro scope h
      simp at h
    | true =>
      refine ⟨by simp, ⟨cols, by simp⟩, fun c => ?_⟩
      simp
  | cons g gs ih =>
    unfold resolveLoop
    split
    · next hg =>
      refine (ih sawAny cols).of_iff fun scope => ?_
      simp [hg]
    · next hg => exact .inr ⟨g, .head _, hg⟩
    · next set hg =>
      refine (ih true ((if sawAny then cols else ∅) ∪ set)).congr ?_ ?_ fun c => ?_
      · simp [hg]
      · refine iff_of_true ⟨_, .inl ⟨rfl, rfl⟩⟩ ⟨set, .inr ⟨g, .head _, hg⟩⟩
      · cases sawAny
        · simp [hg]
        · grind

lemma resolveColumnGrant_combines (s : AuthState) (user table : String) (p : Privilege) :
    Combines (fun scope => ∃ g, ReflTransGen (Edge s.memberships) user g ∧
      s.tableGrants g table p = some scope) (s.resolveColumnGrant user table p) := by
  refine (resolveLoop_combines s table p (reach s.memberships [] [user]) false ∅).of_iff
    fun scope => ?_
  simp [mem_reach]

/-! ## The store simulates the ledger -/

structure Sim (s : AuthState) (l : Ledger) : Prop where
  users : ∀ n, s.hasUser n = true ↔ ∃ i, l.user n = some i
  roles : ∀ n, n ∈ s.roles ↔ ∃ i, l.role n = some i
  disjoint : ∀ n, n ∈ s.roles → s.hasUser n = false
  issued : ∀ n i, l.Named n i → i < l.next
  inj : ∀ n m i, l.Named n i → l.Named m i → n = m
  /-- A new account starts with nothing. -/
  unused : ∀ i, l.next ≤ i → (l.grants i = fun _ _ => none) ∧ ∀ j, ¬l.member i j ∧ ¬l.member j i
  grants : ∀ n i, l.Named n i → s.tableGrants n = l.grants i
  grants_none : ∀ n, (∀ i, ¬l.Named n i) → s.tableGrants n = fun _ _ => none
  members : ∀ n i, l.Named n i → ∀ r,
    r ∈ successors s.memberships n ↔ ∃ j, l.role r = some j ∧ l.member i j
  members_none : ∀ n, (∀ i, ¬l.Named n i) → successors s.memberships n = []

lemma sim_empty : Sim .empty .empty where
  users n := by simp [hasUser, empty, Ledger.empty]
  roles n := by simp [empty, Ledger.empty]
  disjoint n hn := by simp [empty] at hn
  issued n i hn := by simp [Ledger.Named, Ledger.empty] at hn
  inj n m i hn := by simp [Ledger.Named, Ledger.empty] at hn
  unused i _ := ⟨rfl, fun j => ⟨id, id⟩⟩
  grants n i hn := by simp [Ledger.Named, Ledger.empty] at hn
  grants_none n _ := rfl
  members n i hn := by simp [Ledger.Named, Ledger.empty] at hn
  members_none n _ := rfl

section
variable {s s' : AuthState} {l l' : Ledger} {n : String} {i : Nat}

lemma Sim.exists_path (h : Sim s l) (hn : l.Named n i) {j : Nat} (hpath : ReflTransGen l.Edge i j) :
    ∃ m, l.Named m j ∧ ReflTransGen (Edge s.memberships) n m := by
  induction hpath with
  | refl => exact ⟨n, hn, .refl⟩
  | tail _ hedge ih =>
    obtain ⟨m, hm, hpath⟩ := ih
    obtain ⟨hmember, r, hr⟩ := hedge
    exact ⟨r, .inr hr, hpath.tail ((h.members m _ hm r).2 ⟨_, hr, hmember⟩)⟩

lemma Sim.path_account (h : Sim s l) (hn : l.Named n i) {m : String}
    (hpath : ReflTransGen (Edge s.memberships) n m) : ∃ j, l.Named m j ∧
        ReflTransGen l.Edge i j := by
  induction hpath with
  | refl => exact ⟨i, hn, .refl⟩
  | tail _ hedge ih =>
    obtain ⟨j, hj, hpath⟩ := ih
    obtain ⟨k, hk, hmember⟩ := (h.members _ j hj _).1 hedge
    exact ⟨k, .inr hk, hpath.tail ⟨hmember, _, hk⟩⟩

theorem Sim.lawful (h : Sim s l) : Lawful s l := by
  intro n hn
  have huser : s.hasUser n = true := by simp [hasUser, hn]
  obtain ⟨i, hi⟩ := (h.users n).1 huser
  have hsuper : s.isSuperuser n = false := by simp [isSuperuser, hn]
  refine ⟨i, hi, fun table p => ?_⟩
  have hcombines : Combines (Granted l i table p) (s.resolveColumnGrant n table p) := by
    refine (resolveColumnGrant_combines s n table p).of_iff fun scope => ?_
    constructor
    · rintro ⟨m, hpath, hgrant⟩
      obtain ⟨j, hj, hpath⟩ := h.path_account (.inl hi) hpath
      exact ⟨j, hpath, by rw [← h.grants m j hj]; exact hgrant⟩
    · rintro ⟨j, hpath, hgrant⟩
      obtain ⟨m, hm, hpath⟩ := h.exists_path (.inl hi) hpath
      exact ⟨m, hpath, by rw [h.grants m j hm]; exact hgrant⟩
  constructor
  · rw [columnGrant, if_neg (by simp [hsuper])]
    exact hcombines
  · rw [hasPrivilege, hsuper, Bool.false_or, decide_eq_true_eq]
    exact hcombines.ne_none_iff

lemma Sim.role_of_mem (h : Sim s l) {r : String} (hr : r ∈ successors s.memberships n) :
    ∃ j, l.role r = some j := by
  by_cases hn : ∃ i, l.Named n i
  · obtain ⟨i, hi⟩ := hn
    obtain ⟨j, hj, -⟩ := (h.members n i hi r).1 hr
    exact ⟨j, hj⟩
  · rw [h.members_none n fun i hi => hn ⟨i, hi⟩] at hr
    cases hr

lemma Sim.free_of_not_user (h : Sim s l) (huser : s.hasUser n = false) (hrole : n ∉ s.roles) :
    ∀ i, ¬l.Named n i := by
  rintro i (hi | hi)
  · rw [(h.users n).2 ⟨i, hi⟩] at huser
    cases huser
  · exact hrole ((h.roles n).2 ⟨i, hi⟩)

variable {name grantee : String} {privs : List Privilege}

lemma Sim.create (h : Sim s l) (hfree : ∀ i, ¬l.Named name i) (hnext : l'.next = l.next + 1)
    (hlgrants : l'.grants = l.grants) (hlmember : l'.member = l.member)
    (hnamed : ∀ n i, l'.Named n i ↔ (n = name ∧ i = l.next) ∨ l.Named n i)
    (hrole : ∀ r j, l'.role r = some j ↔ (l.role r = some j ∨ (l'.role r = some j ∧ j = l.next)))
    (hsgrants : s'.tableGrants = s.tableGrants) (hsmember : s'.memberships = s.memberships)
    (husers : ∀ n, s'.hasUser n = true ↔ ∃ i, l'.user n = some i)
    (hroles : ∀ n, n ∈ s'.roles ↔ ∃ i, l'.role n = some i)
    (hdisjoint : ∀ n, n ∈ s'.roles → s'.hasUser n = false) : Sim s' l' := by
  have hunused := h.unused l.next (Nat.le_refl _)
  have hmember : ∀ i r, (∃ j, l'.role r = some j ∧ l.member i j) ↔
      ∃ j, l.role r = some j ∧ l.member i j := by
    intro i r
    constructor
    · rintro ⟨j, hj, hm⟩
      rcases (hrole r j).1 hj with hj | ⟨-, rfl⟩
      · exact ⟨j, hj, hm⟩
      · exact absurd hm (hunused.2 i).2
    · rintro ⟨j, hj, hm⟩
      exact ⟨j, (hrole r j).2 (.inl hj), hm⟩
  refine ⟨husers, hroles, hdisjoint, fun n i hn => ?_, fun n m i hn hm => ?_, fun i hi => ?_,
    fun n i hn => ?_, fun n hn => ?_, fun n i hn r => ?_, fun n hn => ?_⟩
  · rw [hnext]
    rcases (hnamed n i).1 hn with ⟨-, rfl⟩ | hn
    · exact Nat.lt_succ_self _
    · exact Nat.lt_succ_of_lt (h.issued n i hn)
  · rcases (hnamed n i).1 hn with ⟨rfl, rfl⟩ | hn <;> rcases (hnamed m _).1 hm with ⟨rfl, hi⟩ | hm
    · rfl
    · exact absurd (h.issued m _ hm) (Nat.lt_irrefl _)
    · exact absurd (hi ▸ h.issued n _ hn) (Nat.lt_irrefl _)
    · exact h.inj n m i hn hm
  · rw [hlgrants, hlmember]
    exact h.unused i (by omega)
  · rw [hsgrants, hlgrants]
    rcases (hnamed n i).1 hn with ⟨rfl, rfl⟩ | hn
    · rw [h.grants_none n hfree, hunused.1]
    · exact h.grants n i hn
  · rw [hsgrants]
    exact h.grants_none n fun i hi => hn i ((hnamed n i).2 (.inr hi))
  · rw [hsmember, hlmember, hmember]
    rcases (hnamed n i).1 hn with ⟨rfl, rfl⟩ | hn
    · rw [h.members_none n hfree]
      refine iff_of_false nofun ?_
      rintro ⟨j, -, hm⟩
      exact (hunused.2 j).1 hm
    · exact h.members n i hn r
  · rw [hsmember]
    exact h.members_none n fun i hi => hn i ((hnamed n i).2 (.inr hi))

lemma Sim.drop (h : Sim s l) (name : String) (hnext : l'.next = l.next)
    (hlgrants : l'.grants = l.grants) (hlmember : l'.member = l.member)
    (hnamed : ∀ n i, l'.Named n i ↔ n ≠ name ∧ l.Named n i)
    (hrole : ∀ r j, l'.role r = some j ↔ r ≠ name ∧ l.role r = some j)
    (hsgrants : s'.tableGrants = update s.tableGrants name fun _ _ => none)
    (hsself : successors s'.memberships name = [])
    (hsmember : ∀ n ≠ name, ∀ r, r ∈ successors s'.memberships n ↔
      r ≠ name ∧ r ∈ successors s.memberships n)
    (husers : ∀ n, s'.hasUser n = true ↔ ∃ i, l'.user n = some i)
    (hroles : ∀ n, n ∈ s'.roles ↔ ∃ i, l'.role n = some i)
    (hdisjoint : ∀ n, n ∈ s'.roles → s'.hasUser n = false) : Sim s' l' := by
  have hfree : ∀ n, n ≠ name → (∀ i, ¬l'.Named n i) → ∀ i, ¬l.Named n i :=
    fun n hne hn i hi => hn i ((hnamed n i).2 ⟨hne, hi⟩)
  refine ⟨husers, hroles, hdisjoint, fun n i hn => ?_, fun n m i hn hm => ?_, fun i hi => ?_,
    fun n i hn => ?_, fun n hn => ?_, fun n i hn r => ?_, fun n hn => ?_⟩
  · rw [hnext]
    exact h.issued n i ((hnamed n i).1 hn).2
  · exact h.inj n m i ((hnamed n i).1 hn).2 ((hnamed m i).1 hm).2
  · rw [hlgrants, hlmember]
    exact h.unused i (hnext ▸ hi)
  · obtain ⟨hne, hn⟩ := (hnamed n i).1 hn
    rw [hsgrants, hlgrants, update_of_ne hne]
    exact h.grants n i hn
  · rw [hsgrants]
    by_cases hne : n = name
    · subst hne
      exact update_self ..
    · rw [update_of_ne hne]
      exact h.grants_none n (hfree n hne hn)
  · obtain ⟨hne, hn⟩ := (hnamed n i).1 hn
    rw [hsmember n hne, h.members n i hn, hlmember]
    constructor
    · rintro ⟨hr, j, hj, hm⟩
      exact ⟨j, (hrole r j).2 ⟨hr, hj⟩, hm⟩
    · rintro ⟨j, hj, hm⟩
      exact ⟨((hrole r j).1 hj).1, j, ((hrole r j).1 hj).2, hm⟩
  · by_cases hne : n = name
    · subst hne
      exact hsself
    · refine List.eq_nil_iff_forall_not_mem.2 fun r hr => ?_
      rw [hsmember n hne, h.members_none n (hfree n hne hn)] at hr
      cases hr.2

lemma Sim.edit (h : Sim s l) (grantee table : String) (f : TablePrivs → TablePrivs)
    (hnone : (∃ i, l.Named grantee i) ∨ f (fun _ => none) = fun _ => none) :
    Sim (s.setGrants grantee table (f (s.tableGrants grantee table))) (l.edit grantee table f) := by
  refine ⟨h.users, h.roles, h.disjoint, h.issued, h.inj, fun i hi => ⟨?_, (h.unused i hi).2⟩,
    fun n i hn => ?_, fun n hn => ?_, h.members, h.members_none⟩
  · have hnot : ¬l.Named grantee i := fun hg => absurd (h.issued grantee i hg) (Nat.not_lt.2 hi)
    simp [Ledger.edit, hnot, (h.unused i hi).1]
  · funext t
    by_cases hng : n = grantee
    · subst hng
      by_cases ht : t = table
      · subst ht
        simp [setGrants, Ledger.edit, show l.Named n i from hn, h.grants n i hn]
      · simp [setGrants, Ledger.edit, h.grants n i hn, ht]
    · have hnot : ¬l.Named grantee i := fun hg => hng (h.inj n grantee i hn hg)
      simp [setGrants, Ledger.edit, hng, hnot, h.grants n i hn]
  · funext t
    have hold := h.grants_none n hn
    by_cases hng : n = grantee
    · subst hng
      have hf := hnone.resolve_left fun ⟨i, hi⟩ => hn i hi
      by_cases ht : t = table
      · simp [setGrants, hold, hf]
      · simp [setGrants, hold, ht]
    · simp [setGrants, hng, hold]

lemma Sim.setRoles (h : Sim s l) (grantee : String) (roles : List String)
    {member : Nat → Nat → Prop}
    (hroles : ∀ i, l.Named grantee i → ∀ r, r ∈ roles ↔ ∃ j, l.role r = some j ∧ member i j)
    (hnone : (∃ i, l.Named grantee i) ∨ roles = [])
    (hother : ∀ i, ¬l.Named grantee i → ∀ j, member i j ↔ l.member i j)
    (hunused : ∀ i, l.next ≤ i → ∀ j, ¬member j i) :
    Sim (s.setRoles grantee roles) { l with member := member } := by
  have hself : successors (s.setRoles grantee roles).memberships grantee = roles := by
    rw [AuthState.setRoles, successors_cons, if_pos rfl]
  have hne : ∀ n ≠ grantee, successors (s.setRoles grantee roles).memberships n =
      successors s.memberships n := by
    intro n hn
    rw [AuthState.setRoles, successors_cons, if_neg hn, successors_filter_ne hn]
  refine ⟨h.users, h.roles, h.disjoint, h.issued, h.inj,
    fun i hi => ⟨(h.unused i hi).1, fun j => ⟨?_, hunused i hi j⟩⟩, h.grants, h.grants_none,
    fun n i hn r => ?_, fun n hn => ?_⟩
  · have hnot : ¬l.Named grantee i := fun hg => absurd (h.issued grantee i hg) (Nat.not_lt.2 hi)
    exact fun hm => ((h.unused i hi).2 j).1 ((hother i hnot j).1 hm)
  · by_cases hng : n = grantee
    · subst hng
      rw [hself]
      exact hroles i hn r
    · have hnot : ¬l.Named grantee i := fun hg => hng (h.inj n grantee i hn hg)
      rw [hne n hng, h.members n i hn]
      exact exists_congr fun j => and_congr_right fun _ => (hother i hnot j).symm
  · by_cases hng : n = grantee
    · subst hng
      rw [hself]
      exact hnone.resolve_left fun ⟨i, hi⟩ => hn i hi
    · rw [hne n hng]
      exact h.members_none n hn

/-! ## Statements -/

lemma hasUser_insert {users : AList fun _ : String => Bool} (name : String) (superuser : Bool)
    (n : String) :
    ((users.insert name superuser).lookup n).isSome = true ↔
        n = name ∨ (users.lookup n).isSome = true := by
  by_cases hn : n = name
  · subst hn
    simp
  · rw [AList.lookup_insert_ne hn]
    simp [hn]

lemma Sim.createUser (h : Sim s l) {superuser : Bool} (live : Option (List String))
    (password : Option String) (huser : s.hasUser name = false) (hrole : name ∉ s.roles)
    (husers : s'.users = s.users.insert name superuser) (hroles : s'.roles = s.roles)
    (hgrants : s'.tableGrants = s.tableGrants) (hmember : s'.memberships = s.memberships) :
    Sim s' (l.record live (.createUser name superuser password)) := by
  have hfree := h.free_of_not_user huser hrole
  have hname : ∀ n, s'.hasUser n = true ↔ n = name ∨ s.hasUser n = true := by
    intro n
    rw [hasUser, husers]
    exact hasUser_insert name superuser n
  refine h.create hfree rfl rfl rfl (fun n i => ?_) (fun r j => ?_) hgrants hmember (fun n => ?_)
    (fun n => ?_) fun n hn => ?_
  · by_cases hn : n = name
    · subst hn
      have hnot := not_or.1 (hfree i)
      simp [Ledger.Named, Ledger.record, hnot, eq_comm]
    · simp [Ledger.Named, Ledger.record, hn]
  · simp only [Ledger.record]
    exact ⟨.inl, fun hor => hor.elim id And.left⟩
  · rw [hname, h.users]
    by_cases hn : n = name
    · subst hn
      simp [Ledger.record]
    · simp [Ledger.record, hn]
  · rw [hroles]
    exact h.roles n
  · rw [hroles] at hn
    rw [← Bool.not_eq_true, hname, not_or, Bool.not_eq_true]
    exact ⟨fun he => hrole (he ▸ hn), h.disjoint n hn⟩

lemma Sim.dropUser (h : Sim s l) (live : Option (List String)) (huser : s.hasUser name = true) :
    Sim (s.removeUser name) (l.record live (.dropUser name)) := by
  have hnotrole : ∀ j, l.role name ≠ some j := by
    intro j hj
    rw [h.disjoint name ((h.roles name).2 ⟨j, hj⟩)] at huser
    cases huser
  have hname : ∀ n, (s.removeUser name).hasUser n = true ↔ n ≠ name ∧ s.hasUser n = true := by
    intro n
    by_cases hn : n = name
    · subst hn
      simp [hasUser, removeUser]
    · simp [hasUser, removeUser, hn]
  refine h.drop name rfl rfl rfl (fun n i => ?_) (fun r j => ?_) rfl
    (successors_filter_self name _) (fun n hn r => ?_) (fun n => ?_) h.roles fun n hn => ?_
  · by_cases hn : n = name
    · subst hn
      simp [Ledger.Named, Ledger.record, hnotrole i]
    · simp [Ledger.Named, Ledger.record, hn]
  · refine ⟨fun hj => ⟨?_, hj⟩, And.right⟩
    rintro rfl
    exact hnotrole j hj
  · rw [removeUser, successors_filter_ne hn]
    refine ⟨fun hr => ⟨?_, hr⟩, And.right⟩
    rintro rfl
    obtain ⟨j, hj⟩ := h.role_of_mem hr
    exact hnotrole j hj
  · rw [hname, h.users]
    by_cases hn : n = name
    · subst hn
      simp [Ledger.record]
    · simp [Ledger.record, hn]
  · rw [← Bool.not_eq_true, hname, not_and, Bool.not_eq_true]
    exact fun _ => h.disjoint n hn

lemma Sim.createRole (h : Sim s l) (live : Option (List String))
    (huser : s.hasUser name = false) (hrole : name ∉ s.roles) :
    Sim { s with roles := insert name s.roles } (l.record live (.createRole name)) := by
  have hfree := h.free_of_not_user huser hrole
  refine h.create hfree rfl rfl rfl (fun n i => ?_) (fun r j => ?_) rfl rfl h.users (fun n => ?_)
    fun n hn => ?_
  · by_cases hn : n = name
    · subst hn
      have hnot := not_or.1 (hfree i)
      simp [Ledger.Named, Ledger.record, hnot, eq_comm]
    · simp [Ledger.Named, Ledger.record, hn]
  · by_cases hr : r = name
    · subst hr
      have hnot := (not_or.1 (hfree j)).2
      simp [Ledger.record, hnot, eq_comm]
    · simp only [Ledger.record, update_of_ne hr]
      exact ⟨.inl, fun hor => hor.elim id And.left⟩
  · rw [Finset.mem_insert, h.roles]
    by_cases hn : n = name
    · subst hn
      simp [Ledger.record]
    · simp [Ledger.record, hn]
  · rcases Finset.mem_insert.1 hn with rfl | hn
    · exact huser
    · exact h.disjoint n hn

lemma Sim.dropRole (h : Sim s l) (live : Option (List String)) (hrole : name ∈ s.roles) :
    Sim (s.removeRole name) (l.record live (.dropRole name)) := by
  have hnotuser : ∀ i, l.user name ≠ some i := by
    intro i hi
    have huser := (h.users name).2 ⟨i, hi⟩
    rw [h.disjoint name hrole] at huser
    cases huser
  refine h.drop name rfl rfl rfl (fun n i => ?_) (fun r j => ?_) rfl ?_ (fun n hn r => ?_)
    h.users (fun n => ?_) fun n hn => ?_
  · by_cases hn : n = name
    · subst hn
      simp [Ledger.Named, Ledger.record, hnotuser i]
    · simp [Ledger.Named, Ledger.record, hn]
  · by_cases hr : r = name
    · subst hr
      simp [Ledger.record]
    · simp [Ledger.record, hr]
  · rw [removeRole, successors_map_filter, successors_filter_self]
    rfl
  · rw [removeRole, successors_map_filter, successors_filter_ne hn, List.mem_filter,
      decide_eq_true_eq, and_comm]
  · rw [removeRole, Finset.mem_erase, h.roles]
    by_cases hn : n = name
    · subst hn
      simp [Ledger.record]
    · simp [Ledger.record, hn]
  · exact h.disjoint n (Finset.mem_of_mem_erase hn)

lemma requireGrantee_ok (h : s.requireGrantee grantee = .ok ()) :
    s.hasUser grantee = true ∨ grantee ∈ s.roles := by
  obtain ⟨hor, h⟩ := ite_error_right_eq_ok.1 h
  simpa using hor

lemma Sim.named_of_grantee (h : Sim s l) (hg : s.hasUser grantee = true ∨ grantee ∈ s.roles) :
    ∃ i, l.Named grantee i := by
  rcases hg with hg | hg
  · obtain ⟨i, hi⟩ := (h.users grantee).1 hg
    exact ⟨i, .inl hi⟩
  · obtain ⟨i, hi⟩ := (h.roles grantee).1 hg
    exact ⟨i, .inr hi⟩

lemma Sim.grantRole (h : Sim s l) {role : String} (live : Option (List String))
    (hrole : role ∈ s.roles) (hg : s.hasUser grantee = true ∨ grantee ∈ s.roles) :
    Sim (s.setRoles grantee ((successors s.memberships grantee).insert role))
      (l.record live (.grantRole role grantee)) := by
  obtain ⟨k, hk⟩ := (h.roles role).1 hrole
  refine h.setRoles grantee _ (fun i hi r => ?_) (.inl (h.named_of_grantee hg)) (fun i hi j => ?_)
    fun i hi j => ?_
  · rw [List.mem_insert_iff, h.members grantee i hi]
    constructor
    · rintro (rfl | ⟨j, hj, hm⟩)
      · exact ⟨k, hk, .inr ⟨hi, hk⟩⟩
      · exact ⟨j, hj, .inl hm⟩
    · rintro ⟨j, hj, hm | ⟨-, hj'⟩⟩
      · exact .inr ⟨j, hj, hm⟩
      · exact .inl (h.inj r role j (.inr hj) (.inr hj'))
  · simp [hi]
  · rintro (hm | ⟨-, hj⟩)
    · exact ((h.unused i hi).2 j).2 hm
    · exact absurd (h.issued role i (.inr hj)) (Nat.not_lt.2 hi)

lemma Sim.revokeRole (h : Sim s l) (role grantee : String) (live : Option (List String)) :
    Sim (s.setRoles grantee ((successors s.memberships grantee).filter (· ≠ role)))
      (l.record live (.revokeRole role grantee)) := by
  refine h.setRoles grantee _ (fun i hi r => ?_) ?_ (fun i hi j => ?_) fun i hi j => ?_
  · rw [List.mem_filter, decide_eq_true_eq, h.members grantee i hi]
    constructor
    · rintro ⟨⟨j, hj, hm⟩, hr⟩
      exact ⟨j, hj, hm, fun hrole => hr (h.inj r role j (.inr hj) (.inr hrole.2))⟩
    · rintro ⟨j, hj, hm, hnot⟩
      refine ⟨⟨j, hj, hm⟩, ?_⟩
      rintro rfl
      exact hnot ⟨hi, hj⟩
  · by_cases hn : ∃ i, l.Named grantee i
    · exact .inl hn
    · rw [h.members_none grantee fun i hi => hn ⟨i, hi⟩]
      exact .inr rfl
  · simp [hi]
  · exact fun hm => ((h.unused i hi).2 j).2 hm.1

lemma foldl_narrow_none (columns : Option (List String)) (privs : List Privilege) :
    privs.foldl (narrow columns) (fun _ => none) = fun _ => none := by
  induction privs with
  | nil => rfl
  | cons p privs ih =>
    have hstep : narrow columns (fun _ => none) p = fun _ => none := by
      cases columns with
      | none => exact update_eq_self p _
      | some cols => rfl
    rw [List.foldl_cons, hstep, ih]

lemma foldl_materialize_of_not_all {entry : TablePrivs} (h : ∀ p ∈ privs, entry p ≠ some .all)
    (all : List String) : privs.foldl (materialize all) entry = entry := by
  induction privs with
  | nil => rfl
  | cons p privs ih =>
    have hstep : materialize all entry p = entry := by
      unfold materialize
      split
      · next hall => exact absurd hall (h p (.head _))
      · rfl
    rw [List.foldl_cons, hstep, ih fun q hq => h q (.tail _ hq)]

lemma setGrants_setGrants (grantee table : String) (e e' : TablePrivs) :
    (s.setGrants grantee table e).setGrants grantee table e' = s.setGrants grantee table e' := by
  simp [setGrants]

lemma setGrants_tableGrants (grantee table : String) (e : TablePrivs) :
    (s.setGrants grantee table e).tableGrants grantee table = e := by
  simp [setGrants]

lemma Sim.revokeColumns (h : Sim s l) (live : Option (List String)) {table : String}
    (cols : List String)
    (hclash : live ≠ none ∨ ∀ p ∈ privs, s.tableGrants grantee table p ≠ some .all)
    (hexec : s.execAuthStmt live (.revokePrivs privs table grantee (some cols)) = .ok s') :
    Sim s' (l.record live (.revokePrivs privs table grantee (some cols))) := by
  have hnone : ∀ all, privs.foldl (narrow (some cols))
      (privs.foldl (materialize all) fun _ => none) = fun _ => none := by
    intro all
    have hnot : ∀ p ∈ privs, (fun _ => none : TablePrivs) p ≠ some .all := fun _ _ => nofun
    rw [foldl_materialize_of_not_all hnot, foldl_narrow_none]
  have hedit := h.edit grantee table (fun entry => privs.foldl (narrow (some cols))
    (privs.foldl (materialize (live.getD [])) entry)) (.inr (hnone (live.getD [])))
  cases live with
  | some all =>
    cases hexec
    rw [materializeAllToColumns, setGrants_setGrants, setGrants_tableGrants]
    exact hedit
  | none =>
    cases hexec
    have hheld := hclash.resolve_left fun hne => hne rfl
    rw [foldl_materialize_of_not_all hheld] at hedit
    exact hedit

theorem Sim.exec (h : Sim s l) {live : Option (List String)} {stmt : AuthStmt}
    (hclash : NoClash ⟨s, l⟩ (.stmt live stmt)) (hexec : s.execAuthStmt live stmt = .ok s') :
    Sim s' (l.record live stmt) := by
  cases stmt with
  | createUser name superuser password =>
    simp only [execAuthStmt, apply] at hexec
    split at hexec <;> cases hexec
    next huser =>
    exact h.createUser live password (Bool.eq_false_iff.2 huser) hclash rfl rfl rfl rfl
  | dropUser name =>
    simp only [execAuthStmt, apply] at hexec
    split at hexec
    · cases hexec
    · next isSuper hname =>
      split at hexec <;> cases hexec
      exact h.dropUser live (by simp [hasUser, hname])
  | alterUserPassword name password =>
    simp only [execAuthStmt, apply] at hexec
    split at hexec <;> cases hexec
    exact ⟨h.users, h.roles, h.disjoint, h.issued, h.inj, h.unused, h.grants, h.grants_none,
      h.members, h.members_none⟩
  | createRole name =>
    obtain ⟨-, hexec⟩ := ite_error_left_eq_ok.1 hexec
    split at hexec <;> cases hexec
    exact h.createRole live hclash ‹_›
  | dropRole name =>
    obtain ⟨-, hexec⟩ := ite_error_left_eq_ok.1 hexec
    split at hexec <;> cases hexec
    next hrole => exact h.dropRole live (not_not.1 hrole)
  | grantPrivs privs table grantee columns =>
    obtain ⟨_, hg, ⟨⟩⟩ := bind_eq_ok.1 hexec
    exact h.edit grantee table (privs.foldl (widen columns))
      (.inl (h.named_of_grantee (requireGrantee_ok hg)))
  | revokePrivs privs table grantee columns =>
    cases columns with
    | none =>
      cases hexec
      exact h.edit grantee table (privs.foldl (narrow none)) (.inr (foldl_narrow_none none privs))
    | some cols => exact h.revokeColumns live cols hclash hexec
  | grantRole role grantee =>
    obtain ⟨hrole, hexec⟩ := ite_error_left_eq_ok.1 hexec
    obtain ⟨_, hg, ⟨⟩⟩ := bind_eq_ok.1 hexec
    exact h.grantRole live (not_not.1 hrole) (requireGrantee_ok hg)
  | revokeRole role grantee =>
    cases hexec
    exact h.revokeRole role grantee live

end

lemma Sim.step {s s' : Sys} {a : Act} (h : Sim s.store s.ledger) (hclash : NoClash s a)
    (hstep : s.step a = some s') : Sim s'.store s'.ledger := by
  cases a with
  | stmt live stmt =>
    simp only [Sys.step] at hstep
    split at hstep <;> cases hstep
    · next hexec => exact h.exec hclash hexec
    · exact h
  | signup user password =>
    simp only [Sys.step, createUserWithPassword, apply] at hstep
    by_cases huser : s.store.hasUser user = true
    · rw [if_pos huser] at hstep
      cases hstep
      exact h
    · rw [if_neg huser] at hstep
      cases hstep
      exact h.createUser none (some password) (Bool.eq_false_iff.2 huser) hclash rfl rfl rfl rfl
  | oauthLogin provider id hint suffix =>
    simp only [Sys.step] at hstep
    split at hstep
    · cases hstep
      exact h
    · next hlink =>
      obtain ⟨hrole, huser⟩ := hclash hlink
      simp only [oauthLinkOrCreate, hlink] at hstep
      cases hstep
      exact h.createUser none none huser hrole rfl rfl rfl rfl

/-! ## Main results -/

/-- A role with a grant, then a sign-up under its name. -/
def impostor : Sys :=
  runState Sys.step Sys.init [.stmt none (.createRole "analyst"),
    .stmt none (.grantPrivs [.select] "accounts" "analyst" none), .signup "analyst" "hash"]

theorem user_named_like_role :
    ¬∀ s, Reached Sys.step (fun _ _ => True) Sys.init s → Lawful s.store s.ledger := by
  intro h
  have hreached : Reached Sys.step (fun _ _ => True) Sys.init impostor :=
    reached_runState (by simp) (by decide)
  obtain ⟨i, hi, hgrant⟩ := h impostor hreached "analyst" rfl
  obtain rfl : 1 = i := Option.some.inj hi
  have hprivilege : impostor.store.hasPrivilege "analyst" "accounts" .select = true := by
    decide +kernel
  obtain ⟨scope, j, hpath, hj⟩ := (hgrant "accounts" .select).2.1 hprivilege
  -- the new account is a member of nothing
  rcases ReflTransGen.cases_head hpath with rfl | ⟨k, hk, -⟩
  · cases hj
  · exact hk.1

/-- **Privileges come only from grants**, in every run without clashes of names. -/
theorem privileges_follow_ledger {s : Sys} (h : Reached Sys.step NoClash Sys.init s) :
    Lawful s.store s.ledger :=
  (h.invariant (fun s => Sim s.store s.ledger) sim_empty fun _ _ _ hsim hok hstep =>
    hsim.step hok hstep).lawful

def clerk : Sys :=
  runState Sys.step Sys.init [.stmt none (.createRole "analyst"), .signup "ann" "hash",
    .stmt none (.grantPrivs [.select] "accounts" "analyst" (some ["id"])),
    .stmt none (.grantRole "analyst" "ann")]

theorem privileges_follow_ledger_clerk : Lawful clerk.store clerk.ledger ∧
      clerk.store.columnGrant "ann" "accounts" .select = .columns ["id"].toFinset :=
  ⟨privileges_follow_ledger (RunAllowed.reached_runState (by decide +kernel) (by decide +kernel)),
    by decide +kernel⟩

end UniDb.Authz
