import Purels.Http.Tokens
import Purels.Properties.FactorKept

/-!
# What a token is minted with

Edits of roles and accounts, sign-ins and the minting of tokens in any order, with any
number of requests on their way.

* `TokenEffect` and `tokenCalls_effect`: the step lemma.
* `MintedBy`: what is known of a stored token and of the credential that minted it.
* `minted_tokens`, for every run: a token carries the default scopes, a session that held
  `tokens:manage` minted it, and its scopes are among that session's exactly when the
  session held the default ones.
* `minted_beyond_role`: a role with `tokens:manage` alone mints a token that writes links.
-/

namespace Purels.Properties

open Go Security Store Service Http Lib CredentialStore

section

variable (u : Unicode) (crypto : Crypto)

/-! ## Steps -/

/-- What one step does to the tokens, and to the request that takes it. -/
inductive TokenEffect (s : CredentialStore) (call : TokenCall) (s' : CredentialStore)
    (call' : TokenCall) : Prop
  | admitted (caller : Caller) (credentials : Credentials) (request : AdminRequest) (now : Instant)
      (htokens : s' = s) (hcaller : Require u crypto s credentials now = some caller)
      (hscope : RequireScope caller request) (hcall' : call' = .admitted caller credentials request)
  | mint (caller : Caller) (credentials : Credentials) (name : GoString) (userID : Uuid)
      (draw : TokenDraw) (hcall : call = .admitted caller credentials (.createToken name))
      (hactor : caller.actorID = some userID) (hfree : call'.free)
      (htokens : s'.tokens = s.tokens ++ [TokenService.row crypto caller userID name draw])
  | keep (hcall : call' = call ∨ call'.past = false)
      (htokens : ∀ token ∈ s'.tokens, ∃ before ∈ s.tokens, token.scopes = before.scopes ∧
        token.creator = before.creator ∧ token.userID = before.userID)

variable {u crypto}

/-- A step that leaves the tokens alone. -/
theorem TokenEffect.same {s s' : CredentialStore} {call call' : TokenCall}
    (htokens : s'.tokens = s.tokens) (hcall : call' = call ∨ call'.past = false) :
    TokenEffect u crypto s call s' call' := by
  refine .keep hcall ?_
  intro token htoken
  exact ⟨token, htokens ▸ htoken, rfl, rfl, rfl⟩

theorem admit_effect (s : CredentialStore) (credentials : Credentials) (request : AdminRequest)
    (now : Instant) (call : TokenCall) :
    TokenEffect u crypto s call s (admitCall u crypto s credentials request now) := by
  unfold admitCall
  split
  · exact .same rfl (.inr rfl)
  · rename_i caller hcaller
    split
    · exact .same rfl (.inr rfl)
    · split_ifs with hscope
      · exact .same rfl (.inr rfl)
      · exact .admitted caller credentials request now rfl hcaller (by simpa using hscope) rfl

theorem handleAdmin_effect (s : CredentialStore) (caller : Caller) (credentials : Credentials)
    (draw : TokenDraw) (now : Instant) (request : AdminRequest) :
    TokenEffect u crypto s (.admitted caller credentials request)
      (handleAdmin crypto s caller credentials draw now request).2
      (.done (handleAdmin crypto s caller credentials draw now request).1) := by
  cases request with
  | updateUser id req => exact .same rfl (.inr rfl)
  | updateRole name req => exact .same rfl (.inr rfl)
  | createToken name =>
    cases hactor : caller.actorID with
    | none =>
      refine .same ?_ (.inr rfl)
      simp only [handleAdmin, hactor]
    | some userID =>
      have hstore : (handleAdmin crypto s caller credentials draw now (.createToken name)).2 =
          (TokenService.Create crypto s caller userID name draw).2 := by
        simp only [handleAdmin, hactor]
        split <;> simp only [*]
      rcases TokenService.Create_cases crypto s caller userID name draw with hsame | hminted
      · refine .same ?_ (.inr rfl)
        rw [hstore, hsame]
      · refine .mint caller credentials name userID draw rfl hactor rfl ?_
        rw [hstore, hminted]
  | revokeToken id =>
    cases hactor : caller.actorID with
    | none =>
      refine .same ?_ (.inr rfl)
      simp only [handleAdmin, hactor]
    | some userID =>
      have hstore : (handleAdmin crypto s caller credentials draw now (.revokeToken id)).2 =
          (s.RevokeToken userID id now).2 := by
        simp only [handleAdmin, hactor, TokenService.Revoke]
      refine .keep (.inr rfl) ?_
      rw [hstore]
      intro token htoken
      exact mem_RevokeToken htoken
  | logout =>
    refine .same ?_ (.inr rfl)
    cases hcookie : credentials.session with
    | none => simp only [handleAdmin, hcookie]
    | some cookie =>
      simp only [handleAdmin, hcookie]
      exact RevokeSession_tokens s _

/-- The step lemma. -/
theorem tokenCalls_effect {s s' : CredentialStore} {call call' : TokenCall} {action : TokenAction}
    (h : (tokenCalls u crypto).step s call action = some (s', call')) :
    TokenEffect u crypto s call s' call' := by
  cases action with
  | start credentials request =>
    simp only [tokenCalls] at h
    split_ifs at h
    obtain ⟨rfl, rfl⟩ := Prod.mk.inj (Option.some.inj h)
    exact .same rfl (.inr rfl)
  | authenticate now =>
    cases call with
    | arrived credentials request =>
      obtain ⟨rfl, rfl⟩ := Prod.mk.inj (Option.some.inj h)
      exact admit_effect _ credentials request now _
    | _ => simp [tokenCalls] at h
  | serve draw now =>
    cases call with
    | admitted caller credentials request =>
      obtain ⟨rfl, rfl⟩ := Prod.mk.inj (Option.some.inj h)
      exact handleAdmin_effect s caller credentials draw now request
    | _ => simp [tokenCalls] at h
  | abort =>
    simp only [tokenCalls] at h
    split_ifs at h
    obtain ⟨rfl, rfl⟩ := Prod.mk.inj (Option.some.inj h)
    exact .same rfl (.inr rfl)
  | register user =>
    simp only [tokenCalls] at h
    split at h
    · obtain ⟨rfl, rfl⟩ := Prod.mk.inj (Option.some.inj h)
      exact .same rfl (.inl rfl)
    · obtain ⟨rfl, rfl⟩ := Prod.mk.inj (Option.some.inj h)
      exact .same rfl (.inl rfl)
  | signIn session =>
    obtain ⟨rfl, rfl⟩ := Prod.mk.inj (Option.some.inj h)
    exact .same rfl (.inl rfl)

/-! ## Callers -/

/-- A session holds what its account's role grants at that moment. -/
theorem requireSession_cases {s : CredentialStore} {credentials : Credentials} {now : Instant}
    {caller : Caller} (h : requireSession crypto s credentials now = some caller) :
    caller.session.isSome ∧ ∃ userID user role, caller.actorID = some userID ∧
      s.account userID = some (user, role) ∧ caller.scopes = role.scopes := by
  unfold requireSession at h
  split at h
  · cases h
  · split at h
    · cases h
    · rename_i session user hsession
      obtain rfl := Option.some.inj h
      obtain ⟨row, role, haccount, hid, hscopes⟩ := GetSession_cases hsession
      refine ⟨rfl, user.id, row, role, rfl, ?_, hscopes⟩
      rw [hid, account_id haccount]
      exact haccount

/-- A caller came with a token, and holds what that was minted with, or with a session. -/
theorem Require_cases {s : CredentialStore} {credentials : Credentials} {now : Instant}
    {caller : Caller} (h : Require u crypto s credentials now = some caller) :
    (caller.session = none ∧ ∃ token ∈ s.tokens, caller.scopes = token.scopes) ∨
      caller.session.isSome ∧ ∃ userID user role, caller.actorID = some userID ∧
        s.account userID = some (user, role) ∧ caller.scopes = role.scopes := by
  unfold Require at h
  split at h
  · exact .inr (requireSession_cases h)
  · split at h
    · rename_i user htoken
      obtain rfl := Option.some.inj h
      obtain ⟨token, hmem, hscopes⟩ := AuthenticateToken_cases htoken
      exact .inl ⟨rfl, token, hmem, hscopes⟩
    · exact .inr (requireSession_cases h)

/-! ## The invariant -/

variable (u crypto)

/-- At some point the credentials of a request were resolved to this caller: a session, which
held what the role of the account granted then. -/
def HeldBySession (vs : List CredentialStore) (caller : Caller) (userID : Uuid) : Prop :=
  ∃ v ∈ vs, ∃ credentials now user role, Require u crypto v credentials now = some caller ∧
    v.account userID = some (user, role) ∧ caller.scopes = role.scopes

/-- What is known of a stored token, `vs` being the tables there have been. -/
structure MintedBy (vs : List CredentialStore) (token : TokenRow) : Prop where
  scopes : token.scopes = defaultTokenScopes
  creator : token.creator.session.isSome
  held : HeldBySession u crypto vs token.creator token.userID
  manages : token.creator.hasScope .tokensManage

/-- What is known of a request past the middleware. -/
def Admitted (vs : List CredentialStore) : TokenCall → Prop
  | .admitted caller _ request => RequireScope caller request ∧
      ((caller.session = none ∧ caller.scopes = defaultTokenScopes) ∨
        caller.session.isSome ∧ ∃ userID, caller.actorID = some userID ∧
          HeldBySession u crypto vs caller userID)
  | _ => True

structure TokensMinted (vs : List CredentialStore) (s : Pool CredentialStore TokenCall) : Prop where
  tokens : ∀ token ∈ s.shared.tokens, MintedBy u crypto vs token
  calls : ∀ i, Admitted u crypto vs (s.locals i)

variable {u crypto}

theorem MintedBy.later {vs : List CredentialStore} {token : TokenRow} (v : CredentialStore)
    (h : MintedBy u crypto vs token) : MintedBy u crypto (vs ++ [v]) token := by
  obtain ⟨w, hw, hheld⟩ := h.held
  exact ⟨h.scopes, h.creator, ⟨w, List.mem_append_left _ hw, hheld⟩, h.manages⟩

theorem Admitted.later {vs : List CredentialStore} {call : TokenCall} (v : CredentialStore)
    (h : Admitted u crypto vs call) : Admitted u crypto (vs ++ [v]) call := by
  cases call with
  | admitted caller credentials request =>
    obtain ⟨hscope, hbearer | ⟨hsession, userID, hactor, w, hw, hheld⟩⟩ := h
    · exact ⟨hscope, .inl hbearer⟩
    · exact ⟨hscope, .inr ⟨hsession, userID, hactor, w, List.mem_append_left _ hw, hheld⟩⟩
  | _ => trivial

/-- A token that is now stored was minted before, or is being minted. -/
theorem tokensMinted_step {vs : List CredentialStore} {s t : Pool CredentialStore TokenCall}
    {a : ℕ × TokenAction} (hvs : s.shared ∈ vs) (h : TokensMinted u crypto vs s)
    (hstep : (tokenCalls u crypto).machine.step s a = some t) :
    TokensMinted u crypto (vs ++ [t.shared]) t := by
  obtain ⟨i, action⟩ := a
  obtain ⟨call, hcall, hlocal, hothers⟩ := Process.step_cases hstep
  -- The requests that do not move stay as they were.
  have hcalls : Admitted u crypto (vs ++ [t.shared]) call →
      ∀ j, Admitted u crypto (vs ++ [t.shared]) (t.locals j) := by
    intro hown j
    by_cases hj : j = i
    · rw [hj, hlocal]
      exact hown
    · rw [hothers j hj]
      exact (h.calls j).later t.shared
  cases tokenCalls_effect hcall with
  | admitted caller credentials request now htokens hcaller hscope hcall' =>
    refine ⟨fun token htoken => ?_, hcalls ?_⟩
    · exact (h.tokens token (htokens ▸ htoken)).later t.shared
    · rw [hcall']
      refine ⟨hscope, ?_⟩
      rcases Require_cases hcaller with ⟨hbearer, token, hmem, hscopes⟩ |
        ⟨hsession, userID, user, role, hactor, haccount, hscopes⟩
      · exact .inl ⟨hbearer, hscopes.trans (h.tokens token hmem).scopes⟩
      · exact .inr ⟨hsession, userID, hactor, s.shared, List.mem_append_left _ hvs, credentials,
          now, user, role, hcaller, haccount, hscopes⟩
  | mint caller credentials name userID draw hbefore hactor hfree htokens =>
    refine ⟨fun token htoken => ?_, hcalls ?_⟩
    · rw [htokens] at htoken
      rcases List.mem_append.mp htoken with hold | hnew
      · exact (h.tokens token hold).later t.shared
      · rw [List.mem_singleton.mp hnew]
        have hadmitted := h.calls i
        rw [hbefore] at hadmitted
        obtain ⟨hscope, ⟨-, hdefault⟩ | ⟨hsession, other, hother, hheld⟩⟩ := hadmitted
        · -- A bearer token does not hold the capability to mint.
          have hmanages : Scope.tokensManage ∈ caller.scopes := by
            simpa [RequireScope, AdminRequest.scope, Context.hasScope] using hscope
          rw [hdefault] at hmanages
          exact absurd hmanages (by decide)
        · obtain rfl := Option.some.inj (hactor.symm.trans hother)
          have hminted : MintedBy u crypto vs (TokenService.row crypto caller userID name draw) :=
            ⟨rfl, hsession, hheld, hscope⟩
          exact hminted.later t.shared
    · cases call with
      | admitted caller credentials request => cases hfree
      | _ => trivial
  | keep hsame htokens =>
    refine ⟨fun token htoken => ?_, hcalls ?_⟩
    · obtain ⟨before, hmem, hscopes, hcreator, hid⟩ := htokens token htoken
      have hbefore := (h.tokens before hmem).later t.shared
      exact ⟨hscopes.trans hbefore.scopes, hcreator ▸ hbefore.creator,
        hcreator ▸ hid ▸ hbefore.held, hcreator ▸ hbefore.manages⟩
    · rcases hsame with rfl | hleft
      · exact (h.calls i).later t.shared
      · cases call with
        | admitted caller credentials request => cases hleft
        | _ => trivial

/-! ## Every run -/

/-- The tables that a run passes through. -/
def tablesOf (m : Machine (Pool CredentialStore TokenCall) (ℕ × TokenAction))
    (s : Pool CredentialStore TokenCall) (as : List (ℕ × TokenAction)) : List CredentialStore :=
  (m.visited s as).map Pool.shared

/-- Minting a token never passes on a capability of administration.  In every run that begins
without tokens, a stored token carries the default scopes, and a session that held
`tokens:manage` minted it.  Its scopes are among those that this session held, which were the
ones of its account's role at that moment, exactly when these include the default scopes.  A
request that comes with a bearer token holds the default scopes. -/
theorem minted_tokens {s t : Pool CredentialStore TokenCall} {as : List (ℕ × TokenAction)}
    (hnone : s.shared.tokens = []) (hidle : ∀ i, s.locals i = .idle)
    (hrun : (tokenCalls u crypto).machine.run s as = some t) :
    (∀ token ∈ t.shared.tokens,
      MintedBy u crypto (tablesOf (tokenCalls u crypto).machine s as) token ∧
        (token.scopes ⊆ token.creator.scopes ↔
          ∀ scope ∈ defaultTokenScopes, token.creator.hasScope scope)) ∧
    ∀ credentials now caller, Require u crypto t.shared credentials now = some caller →
      caller.session = none → caller.scopes = defaultTokenScopes := by
  have hminted : TokensMinted u crypto (tablesOf (tokenCalls u crypto).machine s as) t := by
    refine (tokenCalls u crypto).machine.run_history (C := fun _ _ => True)
      (I := fun _ vs s => TokensMinted u crypto (vs.map Pool.shared) s) ?_ ?_
      (Machine.along_of_mem _ (fun _ _ => trivial) s) hrun
    · intro bs vs v a w hv hI _ hstep
      rw [List.map_append]
      exact tokensMinted_step (List.mem_map_of_mem hv) hI hstep
    · refine ⟨fun token htoken => ?_, fun i => ?_⟩
      · rw [hnone] at htoken
        cases htoken
      · rw [hidle i]
        trivial
  refine ⟨fun token htoken => ?_, fun credentials now caller hcaller hbearer => ?_⟩
  · have hby := hminted.tokens token htoken
    refine ⟨hby, ?_⟩
    rw [hby.scopes]
    exact forall₂_congr fun scope _ => by simp [Context.hasScope]
  · rcases Require_cases hcaller with ⟨-, token, hmem, hscopes⟩ | ⟨hsession, -⟩
    · exact hscopes.trans (hminted.tokens token hmem).scopes
    · rw [hbearer] at hsession
      cases hsession

end

/-! ## A role that only mints -/

/-- The cookies of a session, and the header of a page that knows them. -/
def cookiesOf (name : String) : Credentials where
  session := lit name
  csrf := lit name
  csrfToken := lit name

def sessionOf (name : String) (userID : Uuid) : SessionRow where
  userID := userID
  tokenHash := lit name
  csrfHash := lit name
  expiresAt := second
  userAgent := []
  ipHash := []

/-- The seeded roles, an administrator and a plain account, both signed in. -/
def twoSessions : CredentialStore where
  users := [{ id := default, username := lit "root", role := lit "admin" },
    { id := Uuid.filled (Fin.last 15), username := lit "bob", role := lit "user" }]
  roles := [⟨lit "admin", allScopes, true⟩,
    ⟨lit "user", [.linksRead, .linksWrite, .statsRead, .tokensManage], false⟩]
  sessions := [sessionOf "root" default, sessionOf "bob" (Uuid.filled (Fin.last 15))]

/-- A request from its arrival to its answer. -/
def requestSteps (i : ℕ) (credentials : Credentials) (request : AdminRequest) :
    List (ℕ × TokenAction) :=
  [(i, .start credentials request), (i, .authenticate 0), (i, .serve ⟨default, fun _ => 0⟩ 0)]

/-- The plain account mints a token. -/
def mintSteps : List (ℕ × TokenAction) := requestSteps 1 (cookiesOf "bob") (.createToken (lit "ci"))

/-- The administrator leaves the role nothing but `tokens:manage`. -/
def narrowSteps : List (ℕ × TokenAction) :=
  requestSteps 0 (cookiesOf "root") (.updateRole (lit "user") ⟨[lit "tokens:manage"], false⟩)

/-- The seeded role holds what a token is minted with. -/
theorem minted_tokens_seeded :
    ∃ t, (tokenCalls .ascii plainCrypto).machine.run ⟨twoSessions, fun _ => .idle⟩ mintSteps =
        some t ∧
      ∃ token ∈ t.shared.tokens, token.scopes ⊆ token.creator.scopes := by
  have hruns : (((tokenCalls .ascii plainCrypto).machine.run ⟨twoSessions, fun _ => .idle⟩
      mintSteps).map fun t => t.shared.tokens.any fun token =>
        defaultTokenScopes.all token.creator.scopes.contains) = some true := by
    decide
  obtain ⟨t, ht, hheld⟩ := Option.map_eq_some_iff.mp hruns
  obtain ⟨token, hmem, hall⟩ := List.any_eq_true.mp hheld
  have hiff := ((minted_tokens rfl (fun _ => rfl) ht).1 token hmem).2
  refine ⟨t, ht, token, hmem, hiff.mpr ?_⟩
  intro scope hscope
  simpa [Context.hasScope] using List.all_eq_true.mp hall scope hscope

/-- A role with `tokens:manage` alone mints a token that reads and writes links. -/
theorem minted_beyond_role :
    ¬ ∀ (s t : Pool CredentialStore TokenCall) (as : List (ℕ × TokenAction)),
      s.shared.tokens = [] → (∀ i, s.locals i = .idle) →
      (tokenCalls .ascii plainCrypto).machine.run s as = some t →
      ∀ token ∈ t.shared.tokens, token.scopes ⊆ token.creator.scopes := by
  intro hclaim
  have hruns : (((tokenCalls .ascii plainCrypto).machine.run ⟨twoSessions, fun _ => .idle⟩
      (narrowSteps ++ mintSteps)).map fun t => t.shared.tokens.any fun token =>
        token.scopes.contains .linksWrite && token.creator.scopes == [.tokensManage]) =
      some true := by
    decide
  obtain ⟨t, ht, hminted⟩ := Option.map_eq_some_iff.mp hruns
  obtain ⟨token, hmem, hboth⟩ := List.any_eq_true.mp hminted
  rw [Bool.and_eq_true, List.contains_iff_mem, beq_iff_eq] at hboth
  have hwrite := hclaim _ t _ rfl (fun _ => rfl) ht token hmem hboth.1
  rw [hboth.2] at hwrite
  exact absurd hwrite (by decide)

end Purels.Properties
