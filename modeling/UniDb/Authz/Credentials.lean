import UniDb.Authz.Tokens
import UniDb.Lib.Run

/-!
# Credentials die with use, and are to die with the account

In every run of calls each credential is accepted at most once, and a refresh token not after its
revocation or expiry. They do not die with the account: `DROP USER` leaves sessions, challenges and
mailed tokens alone (`dropped_user_session_accepted`). `credentials_die`: they do if all of them are
used up or revoked when the user is dropped.

* `Evolves`: what one call may do to the stores. Only new draws are added, and nothing used comes
  back.
* `Spent`: a credential that was issued and is not accepted any more.
-/

namespace UniDb.Authz

open List AuthState Function TokenRec Option

/-! ## The property -/

def owner (s : AuthState) : Credential → Option String
  | .refresh token => (s.sessions token).map (·.username)
  | .challenge token => (s.mfaChallenges token).map (·.username)
  | .recovery token => (s.recoveryTokens token).map (·.username)
  | .magiclink token => (s.magiclinkTokens token).map (·.username)
  | _ => none

def DropsUser (E : Env) (user : String) (s : Server) (r : Request) : Prop :=
  r.call = .stmt (.dropUser user) ∧ ∃ res, s.store.exec E s.draws r.now r.call = .ok res

def Revokes (token : String) (s : Server) (r : Request) : Prop :=
  ∃ rec, s.store.sessions token = some rec ∧
    (r.call = .revokeSession token ∨ r.call = .revokeSessionById rec.sessionId ∨
      r.call = .revokeAllSessionsForUser rec.username)

def AnyRequest (_ : Server) (_ : Request) : Prop := True

/-- **Credentials die with use and with the account**; `clean`: the state in which a user is
dropped. -/
structure CredentialsDie (E : Env) (clean : AuthState → String → Prop) : Prop where
  once : ∀ c, NeverAfter (Server.step E) AnyRequest .init (Accepts E c) (Accepts E c)
  revoked : ∀ token, NeverAfter (Server.step E) AnyRequest .init (Revokes token)
    (Accepts E (.refresh token))
  expired : ∀ s r token, Accepts E (.refresh token) s r →
    ∃ rec, s.store.sessions token = some rec ∧ r.now < rec.expiresAt
  dropped : ∀ c user, NeverAfter (Server.step E) AnyRequest .init
    (fun s r => DropsUser E user s r ∧ owner s.store c = some user ∧ clean s.store user)
      (Accepts E c)

/-- The condition on the state in which `user` is dropped: nothing issued for the name is left. -/
structure NothingLeft (s : AuthState) (user : String) : Prop where
  sessions : ∀ token r, s.sessions token = some r → r.username = user → r.revoked = true
  challenges : ∀ token r, s.mfaChallenges token = some r → r.username = user → r.used = true
  recovery : ∀ token r, s.recoveryTokens token = some r → r.username = user → r.used = true
  magiclink : ∀ token r, s.magiclinkTokens token = some r → r.username = user → r.used = true

/-! ## Draws -/

namespace Env
variable (E : Env)

def Issued (n : Nat) (t : String) : Prop := ∃ i < n, t = E.draw i

def New (n : Nat) (t : String) : Prop := ∃ i, n ≤ i ∧ i < n + 10 ∧ t = E.draw i

variable {E} {n : Nat} {t : String}

lemma Issued.mono (h : E.Issued n t) : E.Issued (n + 10) t := by
  obtain ⟨i, hi, rfl⟩ := h
  exact ⟨i, by omega, rfl⟩

lemma New.issued (h : E.New n t) : E.Issued (n + 10) t := by
  obtain ⟨i, -, hi, rfl⟩ := h
  exact ⟨i, hi, rfl⟩

lemma New.not_issued (h : E.New n t) : ¬E.Issued n t := by
  obtain ⟨i, hi, -, rfl⟩ := h
  rintro ⟨j, hj, heq⟩
  have hij := E.draw_injective heq
  omega

lemma new_draw (i : Nat) (hi : i < 10) : E.New n (E.draw (n + i)) :=
  ⟨n + i, by omega, by omega, rfl⟩

end Env

/-! ## What a call may do -/

/-- A step of a token store: new draws come in, records stay, and what is dead stays dead. -/
structure StoreStep {ρ : Type} (dead : ρ → Bool) (New : String → Prop) (m m' : String → Option ρ) :
    Prop where
  keeps : ∀ t r, m t = some r → ¬New t → ∃ r', m' t = some r' ∧ (dead r = true → dead r' = true)
  fresh : ∀ t, m' t ≠ none → m t ≠ none ∨ New t

variable {token user code : String} {E : Env} {n : Nat} {r r₀ r' : MfaRecord}
  {m : String → Option MfaRecord} {c : Credential} {acc : List Credential} {o : Option MfaRecord}

namespace StoreStep
variable {ρ : Type} {dead : ρ → Bool} {New : String → Prop} {m m' : String → Option ρ}

lemma refl (m : String → Option ρ) : StoreStep dead New m m :=
  ⟨fun _ r hr _ => ⟨r, hr, id⟩, fun _ => .inl⟩

lemma insert (htoken : New token) (r : ρ) : StoreStep dead New m (update m token (some r)) := by
  refine ⟨fun t r' hr hnew => ?_, fun t ht => ?_⟩
  · have hne : t ≠ token := fun he => hnew (he ▸ htoken)
    exact ⟨r', by rw [update_of_ne hne]; exact hr, id⟩
  · by_cases he : t = token
    · exact .inr (he ▸ htoken)
    · rw [update_of_ne he] at ht
      exact .inl ht

/-- Records change, and do not come back to life. -/
lemma map {f : String → ρ → ρ} (hdead : ∀ t r, dead r = true → dead (f t r) = true)
    (hm : ∀ t, m' t = (m t).map (f t)) : StoreStep dead New m m' := by
  refine ⟨fun t r hr _ => ⟨f t r, by rw [hm, hr]; rfl, hdead t r⟩, fun t ht => .inl ?_⟩
  rw [hm] at ht
  simpa using ht

lemma update {f : ρ → ρ} (hdead : ∀ r, dead r = true → dead (f r) = true) :
    StoreStep dead New m (update m token ((m token).map f)) := by
  refine map (f := fun t r => if t = token then f r else r) (fun t r hr => ?_) (fun t => ?_)
  · split
    · exact hdead r hr
    · exact hr
  · by_cases ht : t = token
    · subst ht
      simp
    · simp [ht]

lemma trans {m'' : String → Option ρ} (h : StoreStep dead New m m')
    (h' : StoreStep dead New m' m'') :
    StoreStep dead New m m'' := by
  refine ⟨fun t r hr hnew => ?_, fun t ht => ?_⟩
  · obtain ⟨r', hr', hdead⟩ := h.keeps t r hr hnew
    obtain ⟨r'', hr'', hdead'⟩ := h'.keeps t r' hr' hnew
    exact ⟨r'', hr'', fun hd => hdead' (hdead hd)⟩
  · rcases h'.fresh t ht with ht | hnew
    · exact h.fresh t ht
    · exact .inr hnew

end StoreStep

/-- The recovery codes that a call draws. -/
def newCodes (E : Env) (n : Nat) : List String :=
  (List.range recoveryCodeCount).map fun i => E.draw (n + i)

/-- The enrollment of one user changes to `r`: a new one; or the same secret, a step not before the
last one used, and codes that are left or new. -/
def RecordStep (E : Env) (n : Nat) (old : Option MfaRecord) (r : MfaRecord) : Prop :=
  (r.secret = E.draw n ∧ r.recoveryCodes = []) ∨
    ∃ r₀ ∈ old, r.secret = r₀.secret ∧ (∀ last ∈ r₀.lastUsedStep, ∃ last' ∈ r.lastUsedStep,
      last ≤ last') ∧ (r.recoveryCodes.Sublist r₀.recoveryCodes ∨ r.recoveryCodes = newCodes E n)

def MfaStep (E : Env) (n : Nat) (m m' : String → Option MfaRecord) : Prop :=
  ∃ user o, m' = update m user o ∧ ∀ r ∈ o, RecordStep E n (m user) r

lemma RecordStep.of_same (hsecret : r.secret = r₀.secret)
    (hlast : r.lastUsedStep = r₀.lastUsedStep) (hcodes : r.recoveryCodes.Sublist r₀.recoveryCodes) :
    RecordStep E n (some r₀) r :=
  .inr ⟨r₀, rfl, hsecret, fun last hmem => ⟨last, hlast ▸ hmem, Int.le_refl _⟩, .inl hcodes⟩

lemma MfaStep.refl (m : String → Option MfaRecord) : MfaStep E n m m := by
  refine ⟨"", m "", (update_eq_self ..).symm, fun r hr => ?_⟩
  rw [show m "" = some r from hr]
  exact .of_same rfl rfl (List.Sublist.refl _)

lemma MfaStep.remove (m : String → Option MfaRecord) (user : String) :
    MfaStep E n m (update m user none) := ⟨user, none, rfl, nofun⟩

/-- A later time step is used; the codes stay, or there are new ones. -/
lemma MfaStep.used {step : Int} (hr : m user = some r₀)
    (hstep : ∀ last ∈ r₀.lastUsedStep, last < step) (hsecret : r.secret = r₀.secret)
    (hlast : r.lastUsedStep = some step)
    (hcodes : r.recoveryCodes = r₀.recoveryCodes ∨ r.recoveryCodes = newCodes E n) :
    MfaStep E n m (update m user (some r)) := by
  refine ⟨user, some r, rfl, fun r' hr' => ?_⟩
  cases hr'
  refine .inr ⟨r₀, hr, hsecret, fun last hmem => ⟨step, hlast, Int.le_of_lt (hstep last hmem)⟩, ?_⟩
  rcases hcodes with hcodes | hcodes
  · rw [hcodes]
    exact .inl (List.Sublist.refl _)
  · exact .inr hcodes

structure Evolves (E : Env) (n : Nat) (s s' : AuthState) : Prop where
  sessions : StoreStep SessionRec.revoked (E.New n) s.sessions s'.sessions
  challenges : StoreStep used (E.New n) s.mfaChallenges s'.mfaChallenges
  oauthStates : StoreStep OAuthStateRec.used (E.New n) s.oauthStates s'.oauthStates
  recovery : StoreStep used (E.New n) s.recoveryTokens s'.recoveryTokens
  magiclink : StoreStep used (E.New n) s.magiclinkTokens s'.magiclinkTokens
  mfa : MfaStep E n s.mfa s'.mfa

section
variable {E : Env} {n now : Nat} {s s' : AuthState}

lemma Evolves.refl (s : AuthState) : Evolves E n s s :=
  ⟨.refl _, .refl _, .refl _, .refl _, .refl _, .refl _⟩

lemma verifyTotpCode_lt {secret : String} {lastUsedStep : Option Int} {step : Int}
    (h : verifyTotpCode E secret code lastUsedStep now = some step) :
    ∀ last ∈ lastUsedStep, last < step := by
  obtain ⟨-, h⟩ := ite_none_left_eq_some.1 h
  obtain ⟨delta, -, h⟩ := exists_of_findSome?_eq_some h
  obtain ⟨-, h⟩ := ite_none_left_eq_some.1 h
  split at h
  · cases h
  · next hlast =>
    split at h <;> cases h
    intro last hmem
    by_contra hle
    exact hlast ((any_eq_true _ _).2 ⟨last, hmem, decide_eq_true (Int.not_lt.1 hle)⟩)

lemma secondFactor_cases (h : secondFactor E r code now = some (r', c)) :
    (∃ step, c = .totp r.secret step ∧ r' = { r with lastUsedStep := some step } ∧
      ∀ last ∈ r.lastUsedStep, last < step) ∨ (c = .recoveryCode code ∧ code ∈ r.recoveryCodes ∧
      r' = { r with recoveryCodes := r.recoveryCodes.erase code }) := by
  unfold secondFactor at h
  split at h
  · next step hstep =>
    cases h
    exact .inl ⟨step, rfl, rfl, verifyTotpCode_lt hstep⟩
  · split at h <;> cases h
    exact .inr ⟨rfl, ‹_›, rfl⟩

lemma apply_evolves {stmt : AuthStmt} (h : s.apply stmt = .ok s') : Evolves E n s s' := by
  cases stmt with
  | createUser name superuser password | alterUserPassword name password =>
    simp only [apply] at h
    split at h <;> cases h
    exact { Evolves.refl s with }
  | dropUser name =>
    simp only [apply] at h
    split at h
    · cases h
    · split at h <;> cases h
      exact { Evolves.refl s with mfa := .remove _ name }
  | createRole name | dropRole name =>
    simp only [apply] at h
    split at h
    · cases h
    · split at h <;> cases h
      exact { Evolves.refl s with }
  | grantPrivs privs table grantee columns =>
    simp only [apply] at h
    cases hg : s.requireGrantee grantee <;> rw [hg] at h <;> cases h
    exact { Evolves.refl s with }
  | grantRole role grantee =>
    simp only [apply] at h
    split at h
    · cases h
    · cases hg : s.requireGrantee grantee <;> rw [hg] at h <;> cases h
      exact { Evolves.refl s with }
  | revokePrivs privs table grantee columns | revokeRole role grantee =>
    cases h
    exact { Evolves.refl s with }

lemma oauthLinkOrCreate_evolves (provider id hint suffix : String) :
    Evolves E n s (s.oauthLinkOrCreate provider id hint suffix).1 := by
  unfold oauthLinkOrCreate
  split
  · exact { Evolves.refl s with }
  · exact ⟨.refl _, .refl _, .refl _, .refl _, .refl _, .refl _⟩

lemma createSession_evolves (user : String) : Evolves E n s (s.createSession E n now user) :=
  { Evolves.refl s with sessions := .insert (Env.new_draw 0 (by omega)) _ }

lemma revokeSession_evolves (token : String) : Evolves E n s (s.revokeSession token) :=
  { Evolves.refl s with sessions := .update fun _ _ => rfl }

lemma revokeWhere_evolves (p : SessionRec → Bool) : Evolves E n s (s.revokeWhere p) := by
  refine { Evolves.refl s with sessions := .map (fun _ r hr => ?_) fun _ => rfl }
  split
  · rfl
  · exact hr

lemma rotateSession_evolves (h : s.rotateSession E n now token = some s') : Evolves E n s s' := by
  obtain ⟨username, -, rfl⟩ := map_eq_some_iff.1 h
  exact { Evolves.refl s with
    sessions := (revokeSession_evolves token).sessions.trans
      (.insert (Env.new_draw 0 (by omega)) _) }

lemma mfaEnroll_evolves (h : s.mfaEnroll E n user = .ok s') : Evolves E n s s' := by
  unfold mfaEnroll at h
  split at h
  · cases h
  · split at h <;> cases h
    refine ⟨.refl _, .refl _, .refl _, .refl _, .refl _, user, _, rfl, fun r hr => ?_⟩
    cases hr
    exact .inl ⟨rfl, rfl⟩

lemma mfaConfirm_cases (h : s.mfaConfirm E n now user code = .ok (some (s', c))) :
    ∃ r step, s.mfa user = some r ∧ c = .totp r.secret step ∧
      (∀ last ∈ r.lastUsedStep, last < step) ∧ s' = { s with
        mfa := update s.mfa user (some ⟨r.secret, true,
          (List.range recoveryCodeCount).map fun i => E.draw (n + i), some step⟩) } := by
  unfold mfaConfirm at h
  split at h
  · cases h
  · next r hr =>
    split at h
    · cases h
    · obtain ⟨step, hstep, heq⟩ := map_eq_some_iff.1 (Except.ok.inj h)
      cases heq
      exact ⟨r, step, hr, rfl, verifyTotpCode_lt hstep, rfl⟩

lemma mfaDisable_cases {code : Option String} {skip : Bool}
    (h : s.mfaDisable E now user code skip = .ok (some (s', acc))) :
    s' = { s with mfa := update s.mfa user none } ∧ ∀ c ∈ acc, ∃ r r' code,
      s.mfa user = some r ∧ secondFactor E r code now = some (r', c) := by
  unfold mfaDisable at h
  split at h
  · cases h
  · next r hr =>
    split at h
    · cases h
    · split at h
      · cases h
        exact ⟨rfl, nofun⟩
      · obtain ⟨code, -, h⟩ := bind_eq_some_iff.1 (Except.ok.inj h)
        obtain ⟨⟨r', used⟩, hused, heq⟩ := map_eq_some_iff.1 h
        cases heq
        refine ⟨rfl, fun c hc => ?_⟩
        rw [mem_singleton.1 hc]
        exact ⟨r, r', code, hr, hused⟩

lemma live_eq_some {m : TokenStore} (h : m.live now token = some user) :
    ∃ r, m token = some r ∧ r.used = false ∧ r.username = user := by
  obtain ⟨r, hr, h⟩ := bind_eq_some_iff.1 h
  obtain ⟨hdead, ⟨⟩⟩ := ite_none_left_eq_some.1 h
  simp only [Bool.or_eq_true, not_or, Bool.not_eq_true] at hdead
  exact ⟨r, hr, hdead.1, rfl⟩

lemma verifyMfaChallenge_cases (h : s.verifyMfaChallenge E now token code = some (s', c)) :
    ∃ user r r', TokenStore.live s.mfaChallenges now token = some user ∧ s.mfa user = some r ∧
      secondFactor E r code now = some (r', c) ∧ s' = { s with
        mfa := update s.mfa user (some r')
        mfaChallenges := TokenStore.markUsed s.mfaChallenges token } := by
  obtain ⟨user, hlive, h⟩ := bind_eq_some_iff.1 h
  obtain ⟨r, hr, h⟩ := bind_eq_some_iff.1 h
  split at h
  · cases h
  · obtain ⟨⟨r', used⟩, hused, heq⟩ := map_eq_some_iff.1 h
    cases heq
    exact ⟨user, r, r', hlive, hr, hused, rfl⟩

lemma secondFactor_mfaStep (hr : m user = some r) (h : secondFactor E r code now = some (r', c)) :
    MfaStep E n m (update m user (some r')) := by
  rcases secondFactor_cases h with ⟨step, -, rfl, hstep⟩ | ⟨-, -, rfl⟩
  · exact .used hr hstep rfl rfl (.inl rfl)
  · refine ⟨user, _, rfl, fun r' hr' => ?_⟩
    cases hr'
    rw [hr]
    exact .of_same rfl rfl erase_sublist

end

/-! ## Enrollments -/

/-- Secrets and recovery codes are draws, all different. -/
structure MfaDrawn (E : Env) (n : Nat) (m : String → Option MfaRecord) : Prop where
  secret : ∀ u r, m u = some r → E.Issued n r.secret
  secret_inj : ∀ u v r r', m u = some r → m v = some r' → r.secret = r'.secret → u = v
  code : ∀ u r, m u = some r → ∀ c ∈ r.recoveryCodes, E.Issued n c
  code_nodup : ∀ u r, m u = some r → r.recoveryCodes.Nodup
  code_inj : ∀ u v r r' c, m u = some r → m v = some r' → c ∈ r.recoveryCodes →
    c ∈ r'.recoveryCodes → u = v

def MfaSpent (E : Env) (n : Nat) (m : String → Option MfaRecord) : Credential → Prop
  | .totp secret step => E.Issued n secret ∧
      ∀ u r, m u = some r → r.secret = secret → ∃ last ∈ r.lastUsedStep, step ≤ last
  | .recoveryCode code => E.Issued n code ∧ ∀ u r, m u = some r → code ∉ r.recoveryCodes
  | _ => True

section
variable {E : Env} {n now : Nat} {m m' : String → Option MfaRecord} {user : String}
  {r r' : MfaRecord}

lemma mem_newCodes {c : String} (hc : c ∈ newCodes E n) : E.New n c := by
  obtain ⟨i, hi, rfl⟩ := mem_map.1 hc
  have hlt : i < recoveryCodeCount := mem_range.1 hi
  exact Env.new_draw i (by unfold recoveryCodeCount at hlt; omega)

lemma nodup_newCodes : (newCodes E n).Nodup :=
  (nodup_map_iff fun _ _ hij => Nat.add_left_cancel (E.draw_injective hij)).2 nodup_range

lemma RecordStep.secret (hstep : RecordStep E n (m user) r) (h : MfaDrawn E n m) :
    E.Issued (n + 10) r.secret ∧ ∀ v r', v ≠ user → m v = some r' → r'.secret ≠ r.secret := by
  rcases hstep with ⟨hsecret, -⟩ | ⟨r₀, hr0, hsecret, -⟩
  · have hnew : E.New n (E.draw n) := Env.new_draw 0 (by omega)
    rw [hsecret]
    exact ⟨hnew.issued, fun v r' _ hr' heq => hnew.not_issued (heq ▸ h.secret v r' hr')⟩
  · rw [hsecret]
    exact ⟨(h.secret user r₀ hr0).mono, fun v r' hv hr' heq =>
      hv (h.secret_inj v user r' r₀ hr' hr0 heq)⟩

lemma RecordStep.codes (hstep : RecordStep E n (m user) r) (h : MfaDrawn E n m) :
    r.recoveryCodes.Nodup ∧ ∀ c ∈ r.recoveryCodes, E.Issued (n + 10) c ∧
      ∀ v r', v ≠ user → m v = some r' → c ∉ r'.recoveryCodes := by
  rcases hstep with ⟨-, hcodes⟩ | ⟨r₀, hr0, -, -, hsub | hcodes⟩
  · rw [hcodes]
    exact ⟨nodup_nil, nofun⟩
  · refine ⟨(h.code_nodup user r₀ hr0).sublist hsub, fun c hc => ?_⟩
    have hc0 := hsub.subset hc
    exact ⟨(h.code user r₀ hr0 c hc0).mono,
      fun v r' hv hr' hc' => hv (h.code_inj v user r' r₀ c hr' hr0 hc' hc0)⟩
  · rw [hcodes]
    refine ⟨nodup_newCodes, fun c hc => ⟨(mem_newCodes hc).issued, fun v r' _ hr' hc' => ?_⟩⟩
    exact (mem_newCodes hc).not_issued (h.code v r' hr' c hc')

lemma MfaDrawn.step (h : MfaDrawn E n m) (hstep : MfaStep E n m m') : MfaDrawn E (n + 10) m' := by
  obtain ⟨user, o, rfl, ho⟩ := hstep
  refine ⟨fun u r hr => ?_, fun u v r r' hu hv heq => ?_, fun u r hr => ?_, fun u r hr => ?_,
    fun u v r r' c hu hv hc hc' => ?_⟩
  · rcases eq_of_update hr with ⟨-, hr⟩ | ⟨-, hr⟩
    · exact ((ho r hr).secret h).1
    · exact (h.secret u r hr).mono
  · rcases eq_of_update hu with ⟨hu1, hu2⟩ | ⟨hu1, hu2⟩ <;>
      rcases eq_of_update hv with ⟨hv1, hv2⟩ | ⟨hv1, hv2⟩
    · exact hu1.trans hv1.symm
    · exact absurd heq.symm (((ho r hu2).secret h).2 v r' hv1 hv2)
    · exact absurd heq (((ho r' hv2).secret h).2 u r hu1 hu2)
    · exact h.secret_inj u v r r' hu2 hv2 heq
  · rcases eq_of_update hr with ⟨-, hr⟩ | ⟨-, hr⟩
    · exact fun c hc => (((ho r hr).codes h).2 c hc).1
    · exact fun c hc => (h.code u r hr c hc).mono
  · rcases eq_of_update hr with ⟨-, hr⟩ | ⟨-, hr⟩
    · exact ((ho r hr).codes h).1
    · exact h.code_nodup u r hr
  · rcases eq_of_update hu with ⟨hu1, hu2⟩ | ⟨hu1, hu2⟩ <;>
      rcases eq_of_update hv with ⟨hv1, hv2⟩ | ⟨hv1, hv2⟩
    · exact hu1.trans hv1.symm
    · exact absurd hc' ((((ho r hu2).codes h).2 c hc).2 v r' hv1 hv2)
    · exact absurd hc ((((ho r' hv2).codes h).2 c hc').2 u r hu1 hu2)
    · exact h.code_inj u v r r' c hu2 hv2 hc hc'

lemma MfaSpent.step (h : MfaSpent E n m c) (hstep : MfaStep E n m m') :
    MfaSpent E (n + 10) m' c := by
  obtain ⟨user, o, rfl, ho⟩ := hstep
  cases c with
  | totp secret step =>
    obtain ⟨hissued, hlast⟩ := h
    refine ⟨hissued.mono, fun u r hr hsecret => ?_⟩
    rcases eq_of_update hr with ⟨-, hr⟩ | ⟨-, hr⟩
    · rcases ho r hr with ⟨hnew, -⟩ | ⟨r₀, hr0, hsame, hlater, -⟩
      · have hdraw : E.New n (E.draw n) := Env.new_draw 0 (by omega)
        rw [← hsecret, hnew] at hissued
        exact absurd hissued hdraw.not_issued
      · obtain ⟨last, hmem, hle⟩ := hlast user r₀ hr0 (hsame.symm.trans hsecret)
        obtain ⟨last', hmem', hle'⟩ := hlater last hmem
        exact ⟨last', hmem', Int.le_trans hle hle'⟩
    · exact hlast u r hr hsecret
  | recoveryCode code =>
    obtain ⟨hissued, hnot⟩ := h
    refine ⟨hissued.mono, fun u r hr => ?_⟩
    rcases eq_of_update hr with ⟨-, hr⟩ | ⟨-, hr⟩
    · rcases ho r hr with ⟨-, hcodes⟩ | ⟨r₀, hr0, -, -, hsub | hcodes⟩
      · rw [hcodes]
        exact not_mem_nil
      · exact fun hc => hnot user r₀ hr0 (hsub.subset hc)
      · rw [hcodes]
        exact fun hc => (mem_newCodes hc).not_issued hissued
    · exact hnot u r hr
  | refresh | challenge | oauthState | recovery | magiclink => trivial

/-- **A time step that is used is spent**, whether the record stays or goes. -/
theorem spends_totp (h : MfaDrawn E n m) (hr : m user = some r) {step : Int}
    (hstep : ∀ last ∈ r.lastUsedStep, last < step) (ho : ∀ r' ∈ o, r'.lastUsedStep = some step) :
    ¬MfaSpent E n m (.totp r.secret step) ∧
      MfaSpent E (n + 10) (update m user o) (.totp r.secret step) := by
  constructor
  · rintro ⟨-, hlast⟩
    obtain ⟨last, hmem, hle⟩ := hlast user r hr rfl
    exact absurd (hstep last hmem) (Int.not_lt.2 hle)
  · refine ⟨(h.secret user r hr).mono, fun u r' hr' hsecret => ?_⟩
    rcases eq_of_update hr' with ⟨-, hr'⟩ | ⟨hne, hr'⟩
    · exact ⟨step, ho r' hr', Int.le_refl _⟩
    · exact absurd (h.secret_inj u user r' r hr' hr hsecret) hne

theorem spends_recoveryCode (h : MfaDrawn E n m) (hr : m user = some r)
    (hcode : code ∈ r.recoveryCodes)
    (ho : ∀ r' ∈ o, r'.recoveryCodes = r.recoveryCodes.erase code) :
    ¬MfaSpent E n m (.recoveryCode code) ∧
      MfaSpent E (n + 10) (update m user o) (.recoveryCode code) := by
  constructor
  · exact fun hspent => hspent.2 user r hr hcode
  · refine ⟨(h.code user r hr code hcode).mono, fun u r' hr' => ?_⟩
    rcases eq_of_update hr' with ⟨-, hr'⟩ | ⟨hne, hr'⟩
    · rw [ho r' hr']
      exact (h.code_nodup user r hr).not_mem_erase
    · exact fun hc => hne (h.code_inj u user r' r code hr' hr hc hcode)

lemma secondFactor_spends (h : MfaDrawn E n m) (hr : m user = some r)
    (hused : secondFactor E r code now = some (r', c)) (ho : ∀ r1 ∈ o, r1 = r') :
    ¬MfaSpent E n m c ∧ MfaSpent E (n + 10) (update m user o) c := by
  rcases secondFactor_cases hused with ⟨step, rfl, rfl, hstep⟩ | ⟨rfl, hcode, rfl⟩
  · exact spends_totp h hr hstep fun r1 hr1 => by rw [ho r1 hr1]
  · exact spends_recoveryCode h hr hcode fun r1 hr1 => by rw [ho r1 hr1]

end

/-! ## All stores -/

/-- A token of the store that is not accepted any more. -/
def DeadIn {ρ : Type} (dead : ρ → Bool) (m : String → Option ρ) (t : String) : Prop :=
  ∃ r, m t = some r ∧ dead r = true

def Spent (E : Env) (s : Server) : Credential → Prop
  | .refresh t => DeadIn SessionRec.revoked s.store.sessions t
  | .challenge t => DeadIn used s.store.mfaChallenges t
  | .oauthState t => DeadIn OAuthStateRec.used s.store.oauthStates t
  | .recovery t => DeadIn used s.store.recoveryTokens t
  | .magiclink t => DeadIn used s.store.magiclinkTokens t
  | .totp secret step => MfaSpent E s.draws s.store.mfa (.totp secret step)
  | .recoveryCode code => MfaSpent E s.draws s.store.mfa (.recoveryCode code)

structure Drawn (E : Env) (s : Server) : Prop where
  sessions : ∀ t, s.store.sessions t ≠ none → E.Issued s.draws t
  challenges : ∀ t, s.store.mfaChallenges t ≠ none → E.Issued s.draws t
  oauthStates : ∀ t, s.store.oauthStates t ≠ none → E.Issued s.draws t
  recovery : ∀ t, s.store.recoveryTokens t ≠ none → E.Issued s.draws t
  magiclink : ∀ t, s.store.magiclinkTokens t ≠ none → E.Issued s.draws t
  mfa : MfaDrawn E s.draws s.store.mfa

lemma drawn_init (E : Env) : Drawn E .init :=
  ⟨fun _ h => absurd rfl h, fun _ h => absurd rfl h, fun _ h => absurd rfl h,
    fun _ h => absurd rfl h, fun _ h => absurd rfl h, nofun, nofun, nofun, nofun, nofun⟩

section
variable {E : Env} {n now : Nat} {s s' : AuthState} {ρ : Type} {dead : ρ → Bool}
  {m m' : String → Option ρ}

lemma StoreStep.issued (hstep : StoreStep dead (E.New n) m m')
    (h : ∀ t, m t ≠ none → E.Issued n t) :
    ∀ t, m' t ≠ none → E.Issued (n + 10) t := by
  intro t ht
  rcases hstep.fresh t ht with ht | hnew
  · exact (h t ht).mono
  · exact hnew.issued

lemma DeadIn.step {t : String} (hdead : DeadIn dead m t) (hstep : StoreStep dead (E.New n) m m')
    (h : ∀ t, m t ≠ none → E.Issued n t) : DeadIn dead m' t := by
  obtain ⟨r, hr, hd⟩ := hdead
  have hold : ¬E.New n t := fun hnew => hnew.not_issued (h t (by simp [hr]))
  obtain ⟨r', hr', hd'⟩ := hstep.keeps t r hr hold
  exact ⟨r', hr', hd' hd⟩

lemma not_deadIn {t : String} {r : ρ} (hr : m t = some r) (hlive : dead r = false) :
    ¬DeadIn dead m t := by
  rintro ⟨r', hr', hdead⟩
  cases hr.symm.trans hr'
  rw [hlive] at hdead
  cases hdead

lemma Drawn.evolves (h : Drawn E ⟨s, n⟩) (he : Evolves E n s s') : Drawn E ⟨s', n + 10⟩ :=
  ⟨he.sessions.issued h.sessions, he.challenges.issued h.challenges,
    he.oauthStates.issued h.oauthStates,
    he.recovery.issued h.recovery, he.magiclink.issued h.magiclink, h.mfa.step he.mfa⟩

lemma Spent.evolves (hc : Spent E ⟨s, n⟩ c) (h : Drawn E ⟨s, n⟩) (he : Evolves E n s s') :
    Spent E ⟨s', n + 10⟩ c := by
  cases c with
  | refresh t => exact DeadIn.step hc he.sessions h.sessions
  | challenge t => exact DeadIn.step hc he.challenges h.challenges
  | oauthState t => exact DeadIn.step hc he.oauthStates h.oauthStates
  | recovery t => exact DeadIn.step hc he.recovery h.recovery
  | magiclink t => exact DeadIn.step hc he.magiclink h.magiclink
  | totp secret step =>
    have hc : MfaSpent E n s.mfa (.totp secret step) := hc
    exact hc.step he.mfa
  | recoveryCode code =>
    have hc : MfaSpent E n s.mfa (.recoveryCode code) := hc
    exact hc.step he.mfa

/-! ## Calls that accept -/

lemma verifySession_eq_some (h : s.verifySession now token = some user) :
    ∃ r, s.sessions token = some r ∧ r.revoked = false ∧ now < r.expiresAt := by
  obtain ⟨r, hr, h⟩ := bind_eq_some_iff.1 h
  split at h
  · next hlive =>
    simp only [Bool.and_eq_true, Bool.not_eq_true', decide_eq_true_eq] at hlive
    exact ⟨r, hr, hlive⟩
  · cases h

lemma rotateSession_spends (h : ∀ t, s.sessions t ≠ none → E.Issued n t)
    (hrotate : s.rotateSession E n now token = some s') :
    ¬DeadIn SessionRec.revoked s.sessions token ∧ DeadIn SessionRec.revoked s'.sessions token := by
  obtain ⟨user, huser, rfl⟩ := map_eq_some_iff.1 hrotate
  obtain ⟨r, hr, hlive, -⟩ := verifySession_eq_some huser
  have hne : token ≠ E.draw n := by
    rintro rfl
    exact (Env.new_draw 0 (by omega)).not_issued (h _ (by simp [hr]))
  refine ⟨not_deadIn hr hlive, { r with revoked := true }, ?_, rfl⟩
  simp [createSession, revokeSession, hne, hr]

lemma markUsed_spends {m : TokenStore} (h : m.live now token = some user) :
    ¬DeadIn used m token ∧ DeadIn used (m.markUsed token) token := by
  obtain ⟨r, hr, hlive, -⟩ := live_eq_some h
  refine ⟨not_deadIn hr hlive, { r with used := true }, ?_, rfl⟩
  rw [TokenStore.markUsed, update_self, hr]
  rfl

variable {provider : String}

lemma verifyOauthState_cases (h : s.verifyOauthState now token provider = some s') :
    ∃ r, s.oauthStates token = some r ∧ r.used = false ∧
      s' = { s with oauthStates := update s.oauthStates token (some { r with used := true }) } := by
  obtain ⟨r, hr, h⟩ := bind_eq_some_iff.1 h
  obtain ⟨hdead, ⟨⟩⟩ := ite_none_left_eq_some.1 h
  simp only [Bool.or_eq_true, not_or, Bool.not_eq_true] at hdead
  exact ⟨r, hr, hdead.1.1, rfl⟩

lemma verifyOauthState_evolves (h : s.verifyOauthState now token provider = some s') :
    Evolves E n s s' := by
  obtain ⟨r, hr, -, rfl⟩ := verifyOauthState_cases h
  have hstep : StoreStep OAuthStateRec.used (E.New n) s.oauthStates (update s.oauthStates token
      ((s.oauthStates token).map fun r => { r with used := true })) := .update fun _ _ => rfl
  rw [hr] at hstep
  exact { Evolves.refl s with oauthStates := hstep }

/-- What a call accepts was good before and is spent afterwards; a refresh token is one of a live
session. -/
structure Uses (E : Env) (n now : Nat) (s s' : AuthState) (c : Credential) : Prop where
  spends : Drawn E ⟨s, n⟩ → ¬Spent E ⟨s, n⟩ c ∧ Spent E ⟨s', n + 10⟩ c
  live : ∀ token, c = .refresh token → ∃ user, s.verifySession now token = some user

lemma Uses.of_secondFactor (hr : s.mfa user = some r)
    (hused : secondFactor E r code now = some (r', c)) (ho : ∀ r1 ∈ o, r1 = r')
    (hs' : s'.mfa = update s.mfa user o) : Uses E n now s s' c := by
  have hspends : MfaDrawn E n s.mfa → ¬MfaSpent E n s.mfa c ∧ MfaSpent E (n + 10) s'.mfa c :=
      fun h =>
    hs' ▸ secondFactor_spends h hr hused ho
  rcases secondFactor_cases hused with ⟨step, rfl, -⟩ | ⟨rfl, -⟩
  · exact ⟨fun h => hspends h.mfa, nofun⟩
  · exact ⟨fun h => hspends h.mfa, nofun⟩

/-- What a call may do: the stores evolve, and what it accepts is used. -/
structure Performs (E : Env) (n now : Nat) (s s' : AuthState) (acc : List Credential) : Prop where
  evolves : Evolves E n s s'
  uses : ∀ c ∈ acc, Uses E n now s s' c

namespace Performs

lemma nothing (s : AuthState) : Performs E n now s s [] := ⟨.refl s, nofun⟩

/-- Statements, and the calls that issue or revoke credentials. -/
lemma accepts_none (h : Evolves E n s s') : Performs E n now s s' [] := ⟨h, nofun⟩

lemma redeemed {redeem : Option AuthState}
    (h : UniDb.Authz.redeemed s [c] redeem = (s', acc))
    (hredeem : ∀ s1, redeem = some s1 → Evolves E n s s1 ∧ Uses E n now s s1 c) :
    Performs E n now s s' acc := by
  cases redeem with
  | none =>
    cases h
    exact nothing s
  | some s1 =>
    cases h
    exact ⟨(hredeem _ rfl).1, forall_mem_singleton.2 (hredeem _ rfl).2⟩

lemma uses_rotateSession (h : s.rotateSession E n now token = some s') :
    Evolves E n s s' ∧ Uses E n now s s' (.refresh token) := by
  refine ⟨rotateSession_evolves h, fun hdrawn => rotateSession_spends hdrawn.sessions h, ?_⟩
  rintro _ ⟨⟩
  obtain ⟨user, huser, -⟩ := map_eq_some_iff.1 h
  exact ⟨user, huser⟩

lemma uses_verifyOauthState (h : s.verifyOauthState now token provider = some s') :
    Evolves E n s s' ∧ Uses E n now s s' (.oauthState token) := by
  refine ⟨verifyOauthState_evolves h, ?_, nofun⟩
  obtain ⟨r, hr, hlive, rfl⟩ := verifyOauthState_cases h
  exact fun _ => ⟨not_deadIn hr hlive, _, update_self .., rfl⟩

lemma uses_verifyRecoveryToken (h : s.verifyRecoveryToken now token = some s') :
    Evolves E n s s' ∧ Uses E n now s s' (.recovery token) := by
  obtain ⟨user, hlive, rfl⟩ := map_eq_some_iff.1 h
  exact ⟨{ Evolves.refl s with recovery := .update fun _ _ => rfl },
    fun _ => markUsed_spends hlive, nofun⟩

lemma uses_verifyMagiclinkToken (h : s.verifyMagiclinkToken now token = some s') :
    Evolves E n s s' ∧ Uses E n now s s' (.magiclink token) := by
  obtain ⟨user, hlive, rfl⟩ := map_eq_some_iff.1 h
  exact ⟨{ Evolves.refl s with magiclink := .update fun _ _ => rfl },
    fun _ => markUsed_spends hlive, nofun⟩

/-! The calls with a second factor. -/

lemma mfaConfirm (h : s.mfaConfirm E n now user code = .ok (some (s', c))) :
    Performs E n now s s' [c] := by
  obtain ⟨r, step, hr, rfl, hstep, rfl⟩ := mfaConfirm_cases h
  refine ⟨{ Evolves.refl s with mfa := .used hr hstep rfl rfl (.inr rfl) },
    forall_mem_singleton.2 ⟨fun hdrawn => spends_totp hdrawn.mfa hr hstep ?_, nofun⟩⟩
  rintro r' ⟨⟩
  rfl

lemma mfaDisable {code : Option String} {skip : Bool}
    (h : s.mfaDisable E now user code skip = .ok (some (s', acc))) : Performs E n now s s' acc := by
  obtain ⟨rfl, hused⟩ := mfaDisable_cases h
  refine ⟨{ Evolves.refl s with mfa := .remove _ user }, fun c hc => ?_⟩
  obtain ⟨r, r', code, hr, hfactor⟩ := hused c hc
  exact .of_secondFactor (o := none) hr hfactor nofun rfl

lemma verifyMfaChallenge (h : s.verifyMfaChallenge E now token code = some (s', c)) :
    Performs E n now s s' [.challenge token, c] := by
  obtain ⟨user, r, r', hlive, hr, hfactor, rfl⟩ := verifyMfaChallenge_cases h
  refine ⟨{ Evolves.refl s with
    challenges := .update fun _ _ => rfl, mfa := secondFactor_mfaStep hr hfactor },
    forall_mem_cons.2 ⟨⟨fun _ => markUsed_spends hlive, nofun⟩, forall_mem_singleton.2 ?_⟩⟩
  exact .of_secondFactor hr hfactor (fun r1 hr1 => (some.inj hr1).symm) rfl

end Performs

theorem exec_spec {call : Call} (hexec : s.exec E n now call = .ok (s', acc)) :
    Performs E n now s s' acc := by
  have hnew : E.New n (E.draw n) := Env.new_draw 0 (by omega)
  cases call with
  | stmt stmt =>
    simp only [exec] at hexec
    cases hs : s.apply stmt <;> rw [hs] at hexec <;> cases hexec
    exact .accepts_none (apply_evolves hs)
  | mfaEnroll user =>
    simp only [exec] at hexec
    cases hs : s.mfaEnroll E n user <;> rw [hs] at hexec <;> cases hexec
    exact .accepts_none (mfaEnroll_evolves hs)
  | mfaConfirm user code =>
    simp only [exec] at hexec
    rcases hs : s.mfaConfirm E n now user code with e | (_ | ⟨s1, used⟩) <;> rw [hs] at hexec <;>
      cases hexec
    · exact .nothing s
    · exact .mfaConfirm hs
  | mfaDisable user code skip =>
    simp only [exec] at hexec
    rcases hs : s.mfaDisable E now user code skip with e | (_ | ⟨s1, used⟩) <;> rw [hs] at hexec <;>
      cases hexec
    · exact .nothing s
    · exact .mfaDisable hs
  | verifyMfaChallenge token code =>
    simp only [exec] at hexec
    rcases hs : s.verifyMfaChallenge E now token code with _ | ⟨s1, used⟩ <;> rw [hs] at hexec <;>
      cases hexec
    · exact .nothing s
    · exact .verifyMfaChallenge hs
  | oauthLogin provider id hint =>
    cases hexec
    exact .accepts_none (oauthLinkOrCreate_evolves provider id hint _)
  | createSession user =>
    cases hexec
    exact .accepts_none (createSession_evolves user)
  | createMfaChallenge user =>
    cases hexec
    exact .accepts_none { Evolves.refl s with challenges := .insert hnew _ }
  | createOauthState provider =>
    cases hexec
    exact .accepts_none { Evolves.refl s with oauthStates := .insert hnew _ }
  | createRecoveryToken user =>
    cases hexec
    exact .accepts_none { Evolves.refl s with recovery := .insert hnew _ }
  | createMagiclinkToken user =>
    cases hexec
    exact .accepts_none { Evolves.refl s with magiclink := .insert hnew _ }
  | revokeSession token =>
    cases hexec
    exact .accepts_none (revokeSession_evolves token)
  | revokeSessionById id | revokeAllSessionsForUser user =>
    cases hexec
    exact .accepts_none (revokeWhere_evolves _)
  | rotateSession token =>
    exact .redeemed (Except.ok.inj hexec) fun _ => Performs.uses_rotateSession
  | verifyOauthState token provider =>
    exact .redeemed (Except.ok.inj hexec) fun _ => Performs.uses_verifyOauthState
  | verifyRecoveryToken token =>
    exact .redeemed (Except.ok.inj hexec) fun _ => Performs.uses_verifyRecoveryToken
  | verifyMagiclinkToken token =>
    exact .redeemed (Except.ok.inj hexec) fun _ => Performs.uses_verifyMagiclinkToken

end

/-! ## Main results -/

section
variable {E : Env} {s s' : Server} {r : Request}

lemma step_evolves (hstep : s.step E r = some s') :
    Evolves E s.draws s.store s'.store ∧ s'.draws = s.draws + 10 := by
  unfold Server.step at hstep
  split at hstep <;> cases hstep
  · next hexec => exact ⟨(exec_spec hexec).evolves, rfl⟩
  · exact ⟨.refl _, rfl⟩

lemma Drawn.step (h : Drawn E s) (hstep : s.step E r = some s') : Drawn E s' := by
  obtain ⟨he, hdraws⟩ := step_evolves hstep
  obtain ⟨store, draws⟩ := s'
  cases hdraws
  exact h.evolves he

lemma Spent.step (hc : Spent E s c) (h : Drawn E s) (hstep : s.step E r = some s') :
    Spent E s' c := by
  obtain ⟨he, hdraws⟩ := step_evolves hstep
  obtain ⟨store, draws⟩ := s'
  cases hdraws
  exact hc.evolves h he

lemma Spent.refused (hc : Spent E s c) (h : Drawn E s) : ¬Accepts E c s r := by
  rintro ⟨-, store, acc, hexec, hmem⟩
  exact (((exec_spec hexec).uses c hmem).spends h).1 hc

lemma Accepts.spent (hc : Accepts E c s r) (h : Drawn E s) (hstep : s.step E r = some s') :
    Spent E s' c := by
  obtain ⟨-, store, acc, hexec, hmem⟩ := hc
  unfold Server.step at hstep
  rw [hexec] at hstep
  cases hstep
  exact (((exec_spec hexec).uses c hmem).spends h).2

lemma Revokes.spent (hr : Revokes token s r) (hstep : s.step E r = some s') :
    Spent E s' (.refresh token) := by
  obtain ⟨rec, hrec, hcall⟩ := hr
  refine ⟨{ rec with revoked := true }, ?_, rfl⟩
  unfold Server.step at hstep
  rcases hcall with hcall | hcall | hcall <;> rw [hcall] at hstep <;> cases hstep
  · simp [revokeSession, hrec]
  · simp [revokeSessionById, revokeWhere, hrec]
  · simp [revokeAllSessionsForUser, revokeWhere, hrec]

/-- Nothing is left for the name, so what was issued for it is spent. -/
lemma NothingLeft.spent (h : NothingLeft s.store user) (hc : owner s.store c = some user) :
    Spent E s c := by
  have dead : ∀ {ρ : Type} {used : ρ → Bool} {m : String → Option ρ} {name : ρ → String}
    {token : String},
      (∀ token r, m token = some r → name r = user → used r = true) →
        (m token).map name = some user →
      DeadIn used m token := by
    intro ρ used m name token hleft hc
    obtain ⟨r, hr, huser⟩ := map_eq_some_iff.1 hc
    exact ⟨r, hr, hleft token r hr huser⟩
  cases c with
  | refresh token => exact dead h.sessions hc
  | challenge token => exact dead h.challenges hc
  | recovery token => exact dead h.recovery hc
  | magiclink token => exact dead h.magiclink hc
  | totp | recoveryCode | oauthState => cases hc

lemma neverAfter_of_spent {event : Server → Request → Prop}
    (hspends : ∀ s r s', Drawn E s → s.step E r = some s' → event s r → Spent E s' c) :
    NeverAfter (Server.step E) AnyRequest .init event (Accepts E c) :=
  .of_spent (Drawn E) (Spent E · c) (drawn_init E) (fun _ _ _ h _ hstep => h.step hstep)
    (fun s r s' h _ hstep hevent => hspends s r s' h hstep hevent)
    (fun _ _ _ h hc _ hstep => hc.step h hstep) (fun _ _ h hc => hc.refused h)

end

/-- **Credentials die with use, and with the account** if nothing issued for it is left when it is
dropped. -/
theorem credentials_die (E : Env) : CredentialsDie E NothingLeft where
  once c := neverAfter_of_spent fun _ _ _ h hstep hc => hc.spent h hstep
  revoked token := neverAfter_of_spent fun _ _ _ _ hstep hr => hr.spent hstep
  expired s r token hc := by
    obtain ⟨-, store, acc, hexec, hmem⟩ := hc
    obtain ⟨user, huser⟩ := ((exec_spec hexec).uses _ hmem).live token rfl
    obtain ⟨rec, hrec, -, hlt⟩ := verifySession_eq_some huser
    exact ⟨rec, hrec, hlt⟩
  dropped c user := neverAfter_of_spent fun s _ _ h hstep hd => (hd.2.2.spent hd.2.1).step h hstep

/-- Draws of different lengths, and an authenticator without codes. -/
def unaryEnv : Env where
  draw n := String.ofList (List.replicate n 'x')
  draw_injective m n h := by
    have hlist := String.ofList_injective h
    simpa using congrArg List.length hlist
  totpAt _ _ := none

def annLoggedIn : Server :=
  runState (Server.step unaryEnv) .init [⟨.stmt (.createUser "ann" false none), 0, true⟩,
    ⟨.createSession "ann", 0, true⟩]

def dropAnn : Request := ⟨.stmt (.dropUser "ann"), 1, true⟩

/-- **The session of a dropped user is accepted.** -/
theorem dropped_user_session_accepted : ¬∀ E, CredentialsDie E fun _ _ => True := by
  intro h
  have hreached : Reached (Server.step unaryEnv) AnyRequest .init annLoggedIn :=
    reached_runState (fun _ _ _ => trivial) (by decide +kernel)
  obtain ⟨after, hafter⟩ : ∃ s', annLoggedIn.step unaryEnv dropAnn = some s' := ⟨_, rfl⟩
  have hnever := (h unaryEnv).dropped (.refresh (unaryEnv.draw 10)) "ann" annLoggedIn dropAnn after
    hreached
    trivial hafter ⟨⟨rfl, _, rfl⟩, rfl, trivial⟩ after
      ⟨.rotateSession (unaryEnv.draw 10), 2, true⟩ .init trivial
  cases hafter
  exact hnever ⟨rfl, _, _, rfl, .head _⟩

end UniDb.Authz
