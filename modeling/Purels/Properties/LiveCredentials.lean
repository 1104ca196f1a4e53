import Purels.Lib.Progress
import Purels.Properties.TokenScopes

/-!
# How long a credential lives

Requests are authenticated and served in any order, while accounts sign in, roles and accounts
are edited and tokens are minted.  A session ends with a logout and a token with its
revocation, for good; otherwise with the session's expiry, or as long as the account is
disabled.  Nothing else ends them.

* `CredentialEffect` and `tokenCalls_tables`: what a step does to the tables.
* `LogsOut`, `Revokes`: the steps that end a credential.
* `SessionKept`, `TokenKept`: what every step keeps of a row.
* `credentials_live`, the run theorem.
-/

namespace Purels.Properties

open Go Security Store Service Http Lib CredentialStore

/-! ## Effects -/

/-- What a revocation makes of a row. -/
def revokedRow (userID id : Uuid) (now : Instant) (row : TokenRow) : TokenRow :=
  if row.id == id && row.userID == userID && row.revokedAt.isNone then
    { row with revokedAt := some now }
  else row

theorem revokedRow_cases (userID id : Uuid) (now : Instant) (row : TokenRow) :
    revokedRow userID id now row = row ∧
        (row.id = id → row.userID = userID → row.revokedAt ≠ none) ∨
      revokedRow userID id now row = { row with revokedAt := some now } ∧
        row.id = id ∧ row.userID = userID := by
  unfold revokedRow
  split_ifs with htouched
  · simp only [Bool.and_eq_true, beq_iff_eq] at htouched
    exact .inr ⟨rfl, htouched.1⟩
  · refine .inl ⟨rfl, fun hid huser hnone => htouched ?_⟩
    simp [hid, huser, hnone]

/-- A revocation that finds nothing leaves the table as well. -/
theorem RevokeToken_tokens (s : CredentialStore) (userID : Uuid) {text : GoString} {id : Uuid}
    (hid : Uuid.parse text = some id) (now : Instant) :
    (s.RevokeToken userID text now).2 =
      { s with tokens := s.tokens.map (revokedRow userID id now) } := by
  simp only [RevokeToken, hid]
  split
  · rename_i hnone
    rw [Bool.not_eq_true', List.any_eq_false] at hnone
    have hsame : s.tokens.map (revokedRow userID id now) = s.tokens :=
      calc s.tokens.map (revokedRow userID id now)
          = s.tokens.map fun row => row :=
            List.map_congr_left fun row hrow => if_neg (hnone row hrow)
        _ = s.tokens := List.map_id' _
    rw [hsame]
  · rfl

/-- No account is deleted and no role is made. -/
structure AccountsKept (s t : AccountStore) : Prop where
  users : ∀ user ∈ s.users, ∃ kept ∈ t.users, kept.id = user.id
  roles : ∀ role ∈ t.roles, ∃ kept ∈ s.roles, kept.name = role.name

theorem AccountsKept.refl (s : AccountStore) : AccountsKept s s :=
  ⟨fun user huser => ⟨user, huser, rfl⟩, fun role hrole => ⟨role, hrole, rfl⟩⟩

theorem AuthzWrite.kept (s : AccountStore) (write : AccountStore.AuthzWrite) :
    AccountsKept s (write.apply s) := by
  cases write with
  | user edit =>
    refine ⟨fun user huser => ⟨_, List.mem_map_of_mem huser, ?_⟩, fun role hrole =>
      ⟨role, hrole, rfl⟩⟩
    split
    · rfl
    · rfl
  | role edit =>
    refine ⟨fun user huser => ⟨user, huser, rfl⟩, fun role hrole => ?_⟩
    obtain ⟨before, hbefore, rfl⟩ := List.mem_map.mp hrole
    refine ⟨before, hbefore, ?_⟩
    split
    · rfl
    · rfl

theorem AuthzRequest.kept (s : AccountStore) (request : AccountStore.AuthzRequest) :
    AccountsKept s (request.run s).2 := by
  unfold AccountStore.AuthzRequest.run
  split
  · exact .refl s
  · rename_i write _
    split
    · exact .refl s
    · exact AuthzWrite.kept s write

theorem UserService.kept (s : AccountStore) (actorID targetID : GoString)
    (req : UpdateUserRequest) : AccountsKept s (UserService.Update s actorID targetID req).2 := by
  unfold UserService.Update
  split_ifs
  · exact .refl s
  · exact .refl s
  · split
    · exact AuthzRequest.kept s _
    · split
      · exact .refl s
      · exact .refl s
      · exact AuthzRequest.kept s _

theorem RoleService.kept (s : AccountStore) (name : GoString) (req : UpdateRoleRequest) :
    AccountsKept s (RoleService.Update s name req).2 := by
  unfold RoleService.Update
  split
  · exact .refl s
  · exact AuthzRequest.kept s _

section

variable {u : Unicode} {crypto : Crypto}

/-- What a step does to the tables. -/
inductive CredentialEffect (crypto : Crypto) (s : CredentialStore) (call : TokenCall)
    (action : TokenAction) : CredentialStore → Prop
  | accounts (users : List UserRow) (roles : List RoleRow)
      (hkept : AccountsKept s.toAccountStore ⟨users, roles⟩) :
      CredentialEffect crypto s call action { s with users, roles }
  | signedIn (session : SessionRow)
      (hnew : ∀ other ∈ s.sessions, other.tokenHash ≠ session.tokenHash) :
      CredentialEffect crypto s call action { s with sessions := s.sessions ++ [session] }
  | minted (token : TokenRow)
      (hnew : ∀ other ∈ s.tokens, other.id ≠ token.id ∧ other.tokenHash ≠ token.tokenHash) :
      CredentialEffect crypto s call action { s with tokens := s.tokens ++ [token] }
  | revoked (caller : Caller) (credentials : Credentials) (text : GoString) (userID id : Uuid)
      (draw : TokenDraw) (now : Instant) (haction : action = .serve draw now)
      (hcall : call = .admitted caller credentials (.revokeToken text))
      (hactor : caller.actorID = some userID) (hid : Uuid.parse text = some id) :
      CredentialEffect crypto s call action { s with
        tokens := s.tokens.map (revokedRow userID id now) }
  | loggedOut (caller : Caller) (credentials : Credentials) (cookie : GoString)
      (draw : TokenDraw) (now : Instant) (haction : action = .serve draw now)
      (hcall : call = .admitted caller credentials .logout)
      (hcookie : credentials.session = some cookie) :
      CredentialEffect crypto s call action
        { s with revokedSessions := crypto.sha256 cookie :: s.revokedSessions }

theorem CredentialEffect.same (s : CredentialStore) (call : TokenCall) (action : TokenAction) :
    CredentialEffect crypto s call action s := .accounts s.users s.roles (.refl _)

theorem mintStep_tables (s : CredentialStore) (caller : Caller) (userID : Uuid) (name : GoString)
    (draw : TokenDraw) (call : TokenCall) (action : TokenAction) :
    CredentialEffect crypto s call action
      (TokenService.Create crypto s caller userID name draw).2 := by
  unfold TokenService.Create
  split
  · exact .same s call action
  · unfold CreateToken
    split_ifs with hname htaken hmissing
    · exact .same s call action
    · exact .same s call action
    · exact .same s call action
    · refine .minted _ fun other hother => ?_
      have hfree := List.any_eq_false.mp (Bool.eq_false_of_not_eq_true htaken) other hother
      simpa using hfree

theorem handleAdmin_tables (s : CredentialStore) (caller : Caller) (credentials : Credentials)
    (draw : TokenDraw) (now : Instant) (request : AdminRequest) :
    CredentialEffect crypto s (.admitted caller credentials request) (.serve draw now)
      (handleAdmin crypto s caller credentials draw now request).2 := by
  cases request with
  | updateUser id req => exact .accounts _ _ (UserService.kept ..)
  | updateRole name req => exact .accounts _ _ (RoleService.kept ..)
  | createToken name =>
    cases hactor : caller.actorID with
    | none =>
      simp only [handleAdmin, hactor]
      exact .same s _ _
    | some userID =>
      have hstore : (handleAdmin crypto s caller credentials draw now (.createToken name)).2 =
          (TokenService.Create crypto s caller userID name draw).2 := by
        simp only [handleAdmin, hactor]
        split <;> simp only [*]
      rw [hstore]
      exact mintStep_tables s caller userID name draw _ _
  | revokeToken id =>
    cases hactor : caller.actorID with
    | none =>
      simp only [handleAdmin, hactor]
      exact .same s _ _
    | some userID =>
      simp only [handleAdmin, hactor, TokenService.Revoke]
      cases hid : Uuid.parse id with
      | none =>
        simp only [RevokeToken, hid]
        exact .same s _ _
      | some tokenID =>
        rw [RevokeToken_tokens s userID hid now]
        exact .revoked caller credentials id userID tokenID draw now rfl rfl hactor hid
  | logout =>
    cases hcookie : credentials.session with
    | none =>
      simp only [handleAdmin, hcookie]
      exact .same s _ _
    | some cookie =>
      simp only [handleAdmin, hcookie, RevokeSession]
      split
      · exact .loggedOut caller credentials cookie draw now rfl rfl hcookie
      · exact .same s _ _

/-- `CreateSession` inserts its row or does nothing. -/
theorem CreateSession_cases (s : MfaStore) (session : SessionRow) :
    (∃ e, s.CreateSession session = (.error e, s)) ∨
      s.CreateSession session = (.ok (), { s with sessions := s.sessions ++ [session] }) ∧
        ∀ other ∈ s.sessions, other.tokenHash ≠ session.tokenHash := by
  unfold MfaStore.CreateSession
  split_ifs with hrefused
  · exact .inl ⟨_, rfl⟩
  · refine .inr ⟨rfl, fun other hother heq => ?_⟩
    simp only [Bool.or_eq_true, not_or, List.any_eq_true, not_exists, not_and] at hrefused
    exact hrefused.1.1.2 other hother (beq_iff_eq.mpr heq)

theorem createSession_tables (s : CredentialStore) (session : SessionRow) (call : TokenCall)
    (action : TokenAction) :
    CredentialEffect crypto s call action
      { s with sessions := (s.toMfaStore.CreateSession session).2.sessions } := by
  rcases CreateSession_cases s.toMfaStore session with ⟨e, heq⟩ | ⟨heq, hnew⟩
  · rw [heq]
    exact .same s _ _
  · rw [heq]
    exact .signedIn session hnew

/-- The step lemma. -/
theorem tokenCalls_tables {s s' : CredentialStore} {call call' : TokenCall} {action : TokenAction}
    (h : (tokenCalls u crypto).step s call action = some (s', call')) :
    CredentialEffect crypto s call action s' := by
  cases action with
  | start credentials request =>
    obtain ⟨-, heq⟩ := Option.ite_none_right_eq_some.mp h
    obtain ⟨rfl, -⟩ := Prod.mk.inj (Option.some.inj heq)
    exact .same s _ _
  | authenticate now =>
    cases call with
    | arrived credentials request =>
      obtain ⟨rfl, -⟩ := Prod.mk.inj (Option.some.inj h)
      exact .same s _ _
    | _ => simp [tokenCalls] at h
  | serve draw now =>
    cases call with
    | admitted caller credentials request =>
      obtain ⟨rfl, -⟩ := Prod.mk.inj (Option.some.inj h)
      exact handleAdmin_tables s caller credentials draw now request
    | _ => simp [tokenCalls] at h
  | abort =>
    obtain ⟨-, heq⟩ := Option.ite_none_left_eq_some.mp h
    obtain ⟨rfl, -⟩ := Prod.mk.inj (Option.some.inj heq)
    exact .same s _ _
  | register user =>
    simp only [tokenCalls] at h
    split at h
    · obtain ⟨rfl, -⟩ := Prod.mk.inj (Option.some.inj h)
      exact .same s _ _
    · rename_i accounts hcreated
      obtain ⟨rfl, -⟩ := Prod.mk.inj (Option.some.inj h)
      obtain rfl := AccountStore.CreateUser_ok hcreated
      exact .accounts _ _ ⟨fun user huser => ⟨user, List.mem_append_left _ huser, rfl⟩,
        fun role hrole => ⟨role, hrole, rfl⟩⟩
  | signIn session =>
    obtain ⟨rfl, -⟩ := Prod.mk.inj (Option.some.inj h)
    exact createSession_tables s session _ _

/-! ## The steps that end a credential -/

/-- A logout with the cookie of the session is served. -/
def LogsOut (crypto : Crypto) (tokenHash : List UInt8) (v : Pool CredentialStore TokenCall)
    (a : ℕ × TokenAction) : Prop :=
  ∃ draw now caller credentials cookie, a.2 = .serve draw now ∧
    v.locals a.1 = .admitted caller credentials .logout ∧ credentials.session = some cookie ∧
    crypto.sha256 cookie = tokenHash

/-- A revocation of the token by its owner is served. -/
def Revokes (token : TokenRow) (v : Pool CredentialStore TokenCall) (a : ℕ × TokenAction) : Prop :=
  ∃ draw now caller credentials text, a.2 = .serve draw now ∧
    v.locals a.1 = .admitted caller credentials (.revokeToken text) ∧
    caller.actorID = some token.userID ∧ Uuid.parse text = some token.id

/-! ## Sessions -/

/-- The session is stored, and its hash is its own. -/
structure SessionKept (session : SessionRow) (s : CredentialStore) : Prop where
  there : session ∈ s.sessions
  only : ∀ other ∈ s.sessions, other.tokenHash = session.tokenHash → other = session

variable {s t : Pool CredentialStore TokenCall} {a : ℕ × TokenAction}
  {as : List (ℕ × TokenAction)} {session : SessionRow} {token row : TokenRow}

theorem SessionKept.effect {s s' : CredentialStore} {call : TokenCall} {action : TokenAction}
    (h : SessionKept session s) (heffect : CredentialEffect crypto s call action s') :
    SessionKept session s' := by
  cases heffect with
  | accounts users roles hkept => exact ⟨h.there, h.only⟩
  | minted new hnew => exact ⟨h.there, h.only⟩
  | revoked => exact ⟨h.there, h.only⟩
  | loggedOut => exact ⟨h.there, h.only⟩
  | signedIn new hnew =>
    refine ⟨List.mem_append_left _ h.there, fun other hother hsame => ?_⟩
    rcases List.mem_append.mp hother with hold | hlast
    · exact h.only other hold hsame
    · rw [List.mem_singleton.mp hlast] at hsame
      exact absurd hsame.symm (hnew session h.there)

theorem SessionKept.step (h : SessionKept session s.shared)
    (hstep : (tokenCalls u crypto).machine.step s a = some t) : SessionKept session t.shared := by
  obtain ⟨call', hcall, -, -⟩ := Process.step_cases hstep
  exact h.effect (tokenCalls_tables hcall)

/-- A step revokes the session exactly when it is a logout with its cookie. -/
theorem SessionKept.revoked_step (h : SessionKept session s.shared)
    (hstep : (tokenCalls u crypto).machine.step s a = some t) :
    session.tokenHash ∈ t.shared.revokedSessions ↔
      session.tokenHash ∈ s.shared.revokedSessions ∨ LogsOut crypto session.tokenHash s a := by
  obtain ⟨i, action⟩ := a
  obtain ⟨call', hcall, -, -⟩ := Process.step_cases hstep
  have hlogout : LogsOut crypto session.tokenHash s (i, action) →
      session.tokenHash ∈ t.shared.revokedSessions := by
    rintro ⟨draw, now, caller, credentials, cookie, haction, hlocal, hcookie, hhash⟩
    dsimp only at haction hlocal
    have hany : (s.shared.sessions.any fun other => other.tokenHash == session.tokenHash) = true :=
      List.any_eq_true.mpr ⟨session, h.there, beq_self_eq_true _⟩
    rw [haction, hlocal] at hcall
    simp only [tokenCalls, handleAdmin, hcookie, RevokeSession, hhash, hany, if_true] at hcall
    rw [← (Prod.mk.inj (Option.some.inj hcall)).1]
    exact List.mem_cons_self
  generalize t.shared = s' at hcall hlogout ⊢
  cases tokenCalls_tables hcall with
  | accounts users roles hkept => exact ⟨Or.inl, fun hcases => hcases.elim id hlogout⟩
  | minted new hnew => exact ⟨Or.inl, fun hcases => hcases.elim id hlogout⟩
  | revoked => exact ⟨Or.inl, fun hcases => hcases.elim id hlogout⟩
  | signedIn new hnew => exact ⟨Or.inl, fun hcases => hcases.elim id hlogout⟩
  | loggedOut caller credentials cookie draw now haction hlocal hcookie =>
    constructor
    · intro hmem
      rcases List.mem_cons.mp hmem with hsame | hold
      · exact Or.inr ⟨draw, now, caller, credentials, cookie, haction, hlocal, hcookie, hsame.symm⟩
      · exact Or.inl hold
    · rintro (hold | hout)
      · exact List.mem_cons_of_mem _ hold
      · exact hlogout hout

/-- In a run. -/
theorem SessionKept.run (h : SessionKept session s.shared)
    (hrun : (tokenCalls u crypto).machine.run s as = some t) :
    SessionKept session t.shared ∧ (session.tokenHash ∉ t.shared.revokedSessions ↔
      session.tokenHash ∉ s.shared.revokedSessions ∧ (tokenCalls u crypto).machine.Along
        (fun v a => ¬ LogsOut crypto session.tokenHash v a) s as) := by
  refine (tokenCalls u crypto).machine.run_iff_along
    (I := fun v => SessionKept session v.shared)
    (P := fun v => session.tokenHash ∉ v.shared.revokedSessions) ?_ h hrun
  intro v a w hkept hstep
  refine ⟨hkept.step hstep, ?_⟩
  rw [hkept.revoked_step hstep, not_or]

/-- The cookie of a session names it. -/
theorem SessionKept.found {s : CredentialStore} (h : SessionKept session s)
    {credentials : Credentials} {cookie : GoString} (hcookie : credentials.session = some cookie)
    (hhash : crypto.sha256 cookie = session.tokenHash) (now : Instant) :
    (requireSession crypto s credentials now).isSome ↔
      session.tokenHash ∉ s.revokedSessions ∧ now < session.expiresAt ∧
        (s.account session.userID).isSome := by
  unfold requireSession GetSession
  rw [hcookie]
  dsimp only
  rw [hhash]
  cases hfind : s.sessions.find? fun other => other.tokenHash == session.tokenHash &&
      !s.revokedSessions.contains other.tokenHash && decide (now < other.expiresAt) with
  | none =>
    have hmissing := List.find?_eq_none.mp hfind session h.there
    simp only [beq_self_eq_true, Bool.true_and, Bool.and_eq_true, Bool.not_eq_true',
      decide_eq_true_eq, List.contains_eq_mem, decide_eq_false_iff_not] at hmissing
    simp only [Option.isSome_none, Bool.false_eq_true, false_iff]
    exact fun hall => hmissing ⟨hall.1, hall.2.1⟩
  | some other =>
    have hsame := List.find?_some hfind
    simp only [Bool.and_eq_true, beq_iff_eq, Bool.not_eq_true', decide_eq_true_eq,
      List.contains_eq_mem, decide_eq_false_iff_not] at hsame
    obtain rfl := h.only other (List.mem_of_find?_eq_some hfind) hsame.1.1
    dsimp only
    cases haccount : s.account other.userID with
    | none => simp
    | some account => simp [hsame.1.2, hsame.2]

/-! ## Tokens -/

/-- The token is stored, revoked or not, and its identifier and its hash are its own. -/
structure TokenKept (token row : TokenRow) (s : CredentialStore) : Prop where
  there : row ∈ s.tokens
  id : row.id = token.id
  tokenHash : row.tokenHash = token.tokenHash
  userID : row.userID = token.userID
  only : ∀ other ∈ s.tokens, other.id = token.id ∨ other.tokenHash = token.tokenHash → other = row

/-- A token that was minted after it has another identifier and another hash. -/
theorem TokenKept.append {s : CredentialStore} (h : TokenKept token row s) (new : TokenRow)
    (hnew : ∀ other ∈ s.tokens, other.id ≠ new.id ∧ other.tokenHash ≠ new.tokenHash) :
    TokenKept token row { s with tokens := s.tokens ++ [new] } := by
  refine ⟨List.mem_append_left _ h.there, h.id, h.tokenHash, h.userID, fun other hother hsame => ?_⟩
  rcases List.mem_append.mp hother with hold | hlast
  · exact h.only other hold hsame
  · obtain ⟨hid, hhash⟩ := hnew row h.there
    rw [h.id] at hid
    rw [h.tokenHash] at hhash
    rw [List.mem_singleton.mp hlast] at hsame
    exact absurd hsame (not_or.mpr ⟨Ne.symm hid, Ne.symm hhash⟩)

theorem TokenKept.revoke {s : CredentialStore} (h : TokenKept token row s) (userID id : Uuid)
    (now : Instant) :
    TokenKept token (revokedRow userID id now row)
      { s with tokens := s.tokens.map (revokedRow userID id now) } := by
  have hkeeps : ∀ other, (revokedRow userID id now other).id = other.id ∧
      (revokedRow userID id now other).tokenHash = other.tokenHash ∧
      (revokedRow userID id now other).userID = other.userID := by
    intro other
    rcases revokedRow_cases userID id now other with ⟨heq, -⟩ | ⟨heq, -⟩ <;> simp [heq]
  refine ⟨List.mem_map_of_mem h.there, (hkeeps row).1.trans h.id,
    (hkeeps row).2.1.trans h.tokenHash,
    (hkeeps row).2.2.trans h.userID, fun other hother hsame => ?_⟩
  obtain ⟨old, hold, rfl⟩ := List.mem_map.mp hother
  rw [(hkeeps old).1, (hkeeps old).2.1] at hsame
  rw [h.only old hold hsame]

/-- A step revokes the token exactly when it is its owner's revocation. -/
theorem TokenKept.step (h : TokenKept token row s.shared)
    (hstep : (tokenCalls u crypto).machine.step s a = some t) :
    ∃ row', TokenKept token row' t.shared ∧
      (row'.revokedAt = none ↔ row.revokedAt = none ∧ ¬ Revokes token s a) := by
  obtain ⟨i, action⟩ := a
  obtain ⟨call', hcall, -, -⟩ := Process.step_cases hstep
  by_cases hrevokes : Revokes token s (i, action)
  · obtain ⟨draw, now, caller, credentials, text, haction, hlocal, hactor, hid⟩ := hrevokes
    dsimp only at haction hlocal
    rw [haction, hlocal] at hcall
    simp only [tokenCalls, handleAdmin, hactor, TokenService.Revoke,
      RevokeToken_tokens s.shared token.userID hid now] at hcall
    rw [← (Prod.mk.inj (Option.some.inj hcall)).1]
    refine ⟨_, h.revoke token.userID token.id now, ?_⟩
    rcases revokedRow_cases token.userID token.id now row with ⟨heq, hdone⟩ | ⟨heq, -⟩
    · have hrevoked : row.revokedAt ≠ none := hdone h.id h.userID
      simp [heq, hrevoked]
    · have hby : Revokes token s (i, action) :=
        ⟨draw, now, caller, credentials, text, haction, hlocal, hactor, hid⟩
      simp [heq, hby]
  · generalize t.shared = s' at hcall ⊢
    cases tokenCalls_tables hcall with
    | accounts users roles hkept =>
      exact ⟨row, ⟨h.there, h.id, h.tokenHash, h.userID, h.only⟩, by simp [hrevokes]⟩
    | signedIn new hnew =>
      exact ⟨row, ⟨h.there, h.id, h.tokenHash, h.userID, h.only⟩, by simp [hrevokes]⟩
    | loggedOut => exact ⟨row, ⟨h.there, h.id, h.tokenHash, h.userID, h.only⟩, by simp [hrevokes]⟩
    | minted new hnew => exact ⟨row, h.append new hnew, by simp [hrevokes]⟩
    | revoked caller credentials text userID id draw now haction hlocal hactor hid =>
      refine ⟨_, h.revoke userID id now, ?_⟩
      rcases revokedRow_cases userID id now row with ⟨heq, -⟩ | ⟨-, hrow, huser⟩
      · simp [heq, hrevokes]
      · have hby : Revokes token s (i, action) :=
          ⟨draw, now, caller, credentials, text, haction, hlocal,
            by rw [hactor, ← huser, h.userID], by rw [hid, ← hrow, h.id]⟩
        exact absurd hby hrevokes

theorem TokenKept.unique {s : CredentialStore} {other : TokenRow} (h : TokenKept token row s)
    (hother : TokenKept token other s) : other = row :=
  h.only other hother.there (Or.inl hother.id)

/-- In a run. -/
theorem TokenKept.run (h : TokenKept token row s.shared)
    (hrun : (tokenCalls u crypto).machine.run s as = some t) :
    ∃ row', TokenKept token row' t.shared ∧ (row'.revokedAt = none ↔ row.revokedAt = none ∧
      (tokenCalls u crypto).machine.Along (fun v a => ¬ Revokes token v a) s as) := by
  have hrows := (tokenCalls u crypto).machine.run_iff_along
    (I := fun v => ∃ row, TokenKept token row v.shared)
    (P := fun v => ∀ row, TokenKept token row v.shared → row.revokedAt = none)
    (C := fun v a => ¬ Revokes token v a) ?_ ⟨row, h⟩ hrun
  · obtain ⟨⟨last, hlast⟩, hiff⟩ := hrows
    refine ⟨last, hlast, ?_⟩
    have hfirst : (∀ other, TokenKept token other s.shared → other.revokedAt = none) ↔
        row.revokedAt = none :=
      ⟨fun hall => hall row h, fun hnone other hother => by rw [h.unique hother, hnone]⟩
    have hend : (∀ other, TokenKept token other t.shared → other.revokedAt = none) ↔
        last.revokedAt = none :=
      ⟨fun hall => hall last hlast, fun hnone other hother => by rw [hlast.unique hother, hnone]⟩
    rw [← hfirst, ← hend]
    exact hiff
  · rintro v a w ⟨before, hbefore⟩ hstep
    obtain ⟨after, hafter, hiff⟩ := hbefore.step hstep
    refine ⟨⟨after, hafter⟩, fun hall => ?_, fun ⟨hall, hnot⟩ other hother => ?_⟩
    · obtain ⟨hnone, hnot⟩ := hiff.mp (hall after hafter)
      exact ⟨fun other hother => by rw [hbefore.unique hother, hnone], hnot⟩
    · rw [hafter.unique hother]
      exact hiff.mpr ⟨hall before hbefore, hnot⟩

/-- The hash of a token names it. -/
theorem TokenKept.found {s : CredentialStore} (h : TokenKept token row s) :
    (s.AuthenticateToken token.tokenHash).isSome ↔
      row.revokedAt = none ∧ (s.account token.userID).isSome := by
  unfold AuthenticateToken
  cases hfind : s.tokens.find? fun other =>
      other.tokenHash == token.tokenHash && other.revokedAt.isNone with
  | none =>
    have hmissing := List.find?_eq_none.mp hfind row h.there
    rw [h.tokenHash, beq_self_eq_true, Bool.true_and, Option.isNone_iff_eq_none] at hmissing
    simp [hmissing]
  | some other =>
    have hsame := List.find?_some hfind
    rw [Bool.and_eq_true, beq_iff_eq, Option.isNone_iff_eq_none] at hsame
    obtain rfl := h.only other (List.mem_of_find?_eq_some hfind) (Or.inr hsame.1)
    dsimp only
    rw [h.userID]
    cases haccount : s.account token.userID with
    | none => simp
    | some account => simp [hsame.2]

/-! ## Credentials -/

/-- After any run a session that was not revoked is accepted exactly when no logout with its cookie
was served, it has not expired and its account may sign in; a token that was not revoked, exactly
when its owner's revocation was not served and its account may sign in. -/
theorem credentials_live (hrun : (tokenCalls u crypto).machine.run s as = some t) :
    (∀ session, SessionKept session s.shared →
      session.tokenHash ∉ s.shared.revokedSessions →
      ∀ (credentials : Credentials) (cookie : GoString) (now : Instant),
        credentials.session = some cookie → crypto.sha256 cookie = session.tokenHash →
        ((requireSession crypto t.shared credentials now).isSome ↔
          (tokenCalls u crypto).machine.Along
              (fun v a => ¬ LogsOut crypto session.tokenHash v a) s as ∧
            now < session.expiresAt ∧ (t.shared.account session.userID).isSome)) ∧
    ∀ token, TokenKept token token s.shared → token.revokedAt = none →
      ((t.shared.AuthenticateToken token.tokenHash).isSome ↔
        (tokenCalls u crypto).machine.Along (fun v a => ¬ Revokes token v a) s as ∧
          (t.shared.account token.userID).isSome) := by
  refine ⟨fun session hsession hlive credentials cookie now hcookie hhash => ?_,
    fun token htoken hlive => ?_⟩
  · obtain ⟨hkept, hiff⟩ := hsession.run hrun
    rw [hkept.found hcookie hhash now, hiff]
    simp only [hlive, not_false_eq_true, true_and]
  · obtain ⟨row, hkept, hiff⟩ := htoken.run hrun
    rw [hkept.found, hiff]
    simp only [hlive, true_and]

end

/-- The plain account mints a token and signs out; the administrator stays signed in. -/
def signOutSteps : List (ℕ × TokenAction) :=
  mintSteps ++ requestSteps 1 (cookiesOf "bob") .logout

/-- Only the session that was signed out has ended. -/
theorem credentials_live_signOut :
    ∃ t, (tokenCalls .ascii plainCrypto).machine.run ⟨twoSessions, fun _ => .idle⟩ signOutSteps =
        some t ∧
      (tokenCalls .ascii plainCrypto).machine.Along
        (fun v a => ¬ LogsOut plainCrypto (lit "root") v a) ⟨twoSessions, fun _ => .idle⟩
        signOutSteps ∧
      ¬ (tokenCalls .ascii plainCrypto).machine.Along
        (fun v a => ¬ LogsOut plainCrypto (lit "bob") v a) ⟨twoSessions, fun _ => .idle⟩
        signOutSteps := by
  have hruns : (((tokenCalls .ascii plainCrypto).machine.run ⟨twoSessions, fun _ => .idle⟩
      signOutSteps).map fun t =>
        (requireSession plainCrypto t.shared (cookiesOf "root") 0).isSome &&
          !(requireSession plainCrypto t.shared (cookiesOf "bob") 0).isSome &&
          (t.shared.account (Uuid.filled (Fin.last 15))).isSome) = some true := by
    decide
  obtain ⟨t, ht, hends⟩ := Option.map_eq_some_iff.mp hruns
  simp only [Bool.and_eq_true, Bool.not_eq_true'] at hends
  obtain ⟨⟨hroot, hbob⟩, haccount⟩ := hends
  have hsessions := (credentials_live ht).1
  refine ⟨t, ht, ?_, fun hstays => ?_⟩
  · exact ((hsessions (sessionOf "root" default) ⟨by decide, by decide⟩ (by decide)
      (cookiesOf "root") (lit "root") 0 rfl rfl).mp hroot).1
  · have hlives := (hsessions (sessionOf "bob" (Uuid.filled (Fin.last 15))) ⟨by decide, by decide⟩
      (by decide) (cookiesOf "bob") (lit "bob") 0 rfl rfl).mpr ⟨hstays, by decide, haccount⟩
    rw [hbob] at hlives
    cases hlives

end Purels.Properties
