import UniDb.Authz.Store
import UniDb.Lib.Run

/-!
# The file of the role store (`RoleStore::open`, `persist`, `is_effective_superuser`)

Every statement rewrites `roles.json`: a new file is written and renamed over the old one, without
an fsync. After a crash the name may stand for the new file, the old one, none (if it was the
first), or the new file without its bytes; a corruption leaves any bytes. What `open` cannot parse
it replaces by an empty store, and in an empty store everybody counts as a superuser
(`unreadable_file_opens`). `reopen_closed_iff` says for which files the store stays closed.

Session ids of older files are filled in when they are opened, which writes the file again.
-/

namespace UniDb.Authz

/-- `serde_json::from_slice`. -/
structure Decoder where
  decode : List UInt8 → Option AuthState
  /-- The empty text is no JSON document. -/
  decode_nil : decode [] = none

/-- `roles.json` as `open` finds it. -/
inductive RolesFile where
  | missing
  | ioError
  | bytes (b : List UInt8)
deriving DecidableEq, Repr

/-- `RoleStore::open`; `backfillFails`: the file has sessions without ids, and cannot be written. -/
def openStore (D : Decoder) (backfillFails : Bool) : RolesFile → Except AuthError AuthState
  | .missing => .ok .empty
  | .ioError => .error (.authz "io error")
  | .bytes b =>
    match D.decode b with
    | none => .ok .empty
    | some st => if backfillFails then .error (.authz "io error") else .ok st

namespace AuthState
variable (s : AuthState)

def hasUsers : Bool := !s.users.entries.isEmpty

def isEffectiveSuperuser : Option String → Bool
  | none => true
  | some u => s.isSuperuser u || !s.hasUsers

end AuthState

/-! ## The property -/

/-- The last two states that were persisted. -/
structure Persisted where
  prev : AuthState
  last : AuthState

def Persisted.init : Persisted := ⟨.empty, .empty⟩

def Persisted.step (p : Persisted) (a : AuthStmt × Option (List String)) : Option Persisted :=
  match p.last.execAuthStmt a.2 a.1 with
  | .ok st => some ⟨p.last, st⟩
  | .error _ => none

/-- A history of statements after which there is a user, and what is found when the database is
opened again. -/
structure Reopening (D : Decoder) where
  persisted : Persisted
  history : Reached Persisted.step (fun _ _ => True) .init persisted
  hasUsers : persisted.last.hasUsers = true
  file : RolesFile
  backfillFails : Bool

/-- **The role store does not fail open.** -/
def StaysClosed {D : Decoder} (c : Reopening D) : Prop :=
  ∀ st, openStore D c.backfillFails c.file = .ok st → ∀ u, st.isEffectiveSuperuser (some u) = true →
    c.persisted.last.isSuperuser u = true ∨ c.persisted.prev.isSuperuser u = true

/-- The condition on the file: it cannot be read, or it parses to a state with a user whose
superusers are among those of the last two states. -/
def Sound {D : Decoder} (c : Reopening D) : Prop :=
  match c.file with
  | .missing => False
  | .ioError => True
  | .bytes b =>
    match D.decode b with
    | none => False
    | some st => c.backfillFails = true ∨ (st.hasUsers = true ∧ ∀ u, st.isSuperuser u = true →
        c.persisted.last.isSuperuser u = true ∨ c.persisted.prev.isSuperuser u = true)

/-! ## Main results -/

lemma mem_keys_of_isSuperuser {s : AuthState} {u : String} (h : s.isSuperuser u = true) :
    u ∈ s.users.keys := by
  rw [← AList.mem_keys, ← AList.lookup_isSome]
  unfold AuthState.isSuperuser at h
  cases hu : s.users.lookup u with
  | none => rw [hu] at h; cases h
  | some b => rfl

lemma exists_not_superuser (p : Persisted) :
    ∃ u, ¬(p.last.isSuperuser u = true ∨ p.prev.isSuperuser u = true) := by
  obtain ⟨u, hu⟩ := Infinite.exists_notMem_finset (p.last.users.keys ++ p.prev.users.keys).toFinset
  rw [List.mem_toFinset, List.mem_append, not_or] at hu
  refine ⟨u, ?_⟩
  rintro (h | h)
  · exact hu.1 (mem_keys_of_isSuperuser h)
  · exact hu.2 (mem_keys_of_isSuperuser h)

lemma not_closed_of_no_users {p : Persisted} {st : AuthState} (h : st.hasUsers = false) :
    ¬∀ u, st.isEffectiveSuperuser (some u) = true →
      p.last.isSuperuser u = true ∨ p.prev.isSuperuser u = true := by
  intro hclosed
  obtain ⟨u, hu⟩ := exists_not_superuser p
  exact hu (hclosed u (by simp [AuthState.isEffectiveSuperuser, h]))

lemma isEffectiveSuperuser_of_users {st : AuthState} (h : st.hasUsers = true) (u : String) :
    st.isEffectiveSuperuser (some u) = st.isSuperuser u := by
  simp [AuthState.isEffectiveSuperuser, h]

/-- **The store stays closed** exactly if the file is sound. -/
theorem reopen_closed_iff {D : Decoder} (c : Reopening D) : StaysClosed c ↔ Sound c := by
  have hopen : ∀ st, openStore D c.backfillFails c.file = .ok st →
      (StaysClosed c ↔ ∀ u, st.isEffectiveSuperuser (some u) = true →
        c.persisted.last.isSuperuser u = true ∨ c.persisted.prev.isSuperuser u = true) := by
    intro st hst
    refine ⟨fun h => h st hst, fun h st' hst' => ?_⟩
    cases hst.symm.trans hst'
    exact h
  have hempty : openStore D c.backfillFails c.file = .ok .empty → ¬StaysClosed c :=
    fun h => (hopen _ h).not.2 (not_closed_of_no_users rfl)
  have herror : ∀ e, openStore D c.backfillFails c.file = .error e → StaysClosed c := by
    intro e he st hst
    cases he.symm.trans hst
  unfold Sound
  cases hfile : c.file with
  | missing => exact iff_of_false (hempty (by rw [hfile]; rfl)) id
  | ioError => exact iff_of_true (herror _ (by rw [hfile]; rfl)) trivial
  | bytes b =>
    dsimp only
    cases hb : D.decode b with
    | none =>
      refine iff_of_false (hempty ?_) id
      simp only [openStore, hfile, hb]
    | some st =>
      cases hfails : c.backfillFails with
      | true =>
        refine iff_of_true (herror (.authz "io error") ?_) (.inl rfl)
        simp only [openStore, hfile, hb, hfails, ↓reduceIte]
      | false =>
        have hst : openStore D c.backfillFails c.file = .ok st := by
          simp only [openStore, hfile, hb, hfails, Bool.false_eq_true, ↓reduceIte]
        rw [hopen st hst]
        cases husers : st.hasUsers with
        | false => exact iff_of_false (not_closed_of_no_users husers) (by simp [husers])
        | true => simp [isEffectiveSuperuser_of_users husers, husers]

/-- `root` is created; after a crash the file is empty: the rename survived, the bytes did not. -/
def emptyFile (D : Decoder) : Reopening D where
  persisted := runState Persisted.step .init [(.createUser "root" true none, none)]
  history := reached_runState (by simp) (by decide)
  hasUsers := by decide
  file := .bytes []
  backfillFails := false

/-- A decoder that knows one text, of a store without users. -/
def oneText : Decoder := ⟨fun b => if b = [123, 125] then some .empty else none, rfl⟩

/-- **Everybody is a superuser** after a crash that loses the bytes of the file. -/
theorem unreadable_file_opens : ¬∀ (D : Decoder) (c : Reopening D), StaysClosed c := by
  intro h
  exact not_closed_of_no_users rfl (h oneText (emptyFile oneText) _ rfl)

end UniDb.Authz
