import Purels.Console.Session
import Purels.Properties.LiveCredentials

/-!
# The tabs of a browser and their tokens

The cookies of a session are shared by all tabs, the token that a document puts into its requests
is its own.  A document that holds the token of an earlier session is refused.

* `ConsoleStep` and `console_step`: what a step of the browser does.
* `ConsoleCallSound`: the cookies that requests carry belong together.
* `BrowserInStep`: each document has the token of the cookies, or none.
* `tabs_in_step`: which requests are refused, and that none is while the sign-ins keep apart.
* `stale_tab_refused`: a document that is behind stays behind.
-/

namespace Purels.Properties

open Go Security Store Service Http Lib Console

/-! ## Steps -/

/-- What a step does with the browser and with the call that takes it. -/
inductive ConsoleStep (cfg : AuthConfig) (b : Browser) :
    ConsoleCall → ConsoleAction → Browser → ConsoleCall → Prop
  | loads (call : ConsoleCall) (tab : ℕ) (login : Bool) :
      ConsoleStep cfg b call (.load tab login) (b.setTab tab ((b.tabs tab).reload login)) call
  | navigates (call : ConsoleCall) (tab : ℕ) (login : Bool) :
      ConsoleStep cfg b call (.navigate tab login) (b.setTab tab { b.tabs tab with login }) call
  | expires (call : ConsoleCall) : ConsoleStep cfg b call .expire { b with jar := {} } call
  | asks (tab : ℕ) (req : AdminRequest) (htoken : (b.tabs tab).csrfToken = []) :
      ConsoleStep cfg b .idle (.request tab req) b
        (.fetching tab (b.tabs tab).page b.jar.csrf req)
  | sends (tab : ℕ) (req : AdminRequest) (htoken : (b.tabs tab).csrfToken ≠ []) :
      ConsoleStep cfg b .idle (.request tab req) b (dispatch b tab req)
  | fetches (tab : ℕ) (cookie : Option GoString) (req : AdminRequest) (token : GoString)
      (hcookie : handlerCSRF cookie = some token) :
      ConsoleStep cfg b (.fetching tab (b.tabs tab).page cookie req) .fetched
        (b.setTab tab { b.tabs tab with csrfToken := token })
        (dispatch (b.setTab tab { b.tabs tab with csrfToken := token }) tab req)
  | fetchesNone (tab : ℕ) (cookie : Option GoString) (req : AdminRequest)
      (hcookie : handlerCSRF cookie = none) :
      ConsoleStep cfg b (.fetching tab (b.tabs tab).page cookie req) .fetched b
        (dispatch b tab req)
  | fails (tab : ℕ) (cookie : Option GoString) (req : AdminRequest) :
      ConsoleStep cfg b (.fetching tab (b.tabs tab).page cookie req) .fetchFailed b
        (dispatch b tab req)
  | serves (tab page : ℕ) (credentials : Credentials) (req : AdminRequest)
      (inner inner' : TokenCall) (action : TokenAction) (store : CredentialStore)
      (hserves : serverSide action)
      (hinner : (tokenCalls cfg.u cfg.crypto).step b.store inner action = some (store, inner')) :
      ConsoleStep cfg b (.sent tab page credentials req inner) (.server action)
        { b with store } (.sent tab page credentials req inner')
  | loggedOut (tab page : ℕ) (credentials : Credentials) (inner : TokenCall) :
      ConsoleStep cfg b (.sent tab page credentials .logout inner) .arrive
        { b with jar := {} } .done
  | leaves (call call' : ConsoleCall) (action : ConsoleAction) (tab : ℕ) (login : Bool)
      (hcall : ∀ tab page token, call ≠ .settled tab page token)
      (hcall' : call' = .done ∨
        action = .signIn tab true ∧ call' = .signingIn tab ((b.tabs tab).page + 1) true) :
      ConsoleStep cfg b call action (b.setTab tab ((b.tabs tab).reload login)) call'
  | signsIn (tab : ℕ) :
      ConsoleStep cfg b .idle (.signIn tab false) b (.signingIn tab (b.tabs tab).page false)
  | granted (tab page : ℕ) (navigates : Bool) (user : LoginUser) (client : SignIn) (now : Instant)
      (htoken : client.csrfToken ≠ [])
      (hnew : ∀ other ∈ b.store.sessions,
        other.tokenHash ≠ cfg.crypto.sha256 client.sessionToken) :
      ConsoleStep cfg b (.signingIn tab page navigates) (.grant user client now)
        { b with store := { b.store with
            sessions := b.store.sessions ++ [client.row cfg user.id now] } }
        (.granted tab page navigates client)
  | challenged (tab page : ℕ) :
      ConsoleStep cfg b (.signingIn tab page false) .challenge b (.settled tab page [])
  | cookies (tab page : ℕ) (client : SignIn) :
      ConsoleStep cfg b (.granted tab page false client) .cookies
        { b with jar := ⟨some client.sessionToken, some client.csrfToken⟩ }
        (.settled tab page client.csrfToken)
  | returns (tab page : ℕ) (client : SignIn) :
      ConsoleStep cfg b (.granted tab page true client) .cookies
        (Browser.setTab { b with jar := ⟨some client.sessionToken, some client.csrfToken⟩ } tab
          ((b.tabs tab).reload false)) .done
  | resolves (tab : ℕ) (token : GoString) :
      ConsoleStep cfg b (.settled tab (b.tabs tab).page token) .resolve
        (b.setTab tab { b.tabs tab with csrfToken := token }) .done
  | ends (call : ConsoleCall) (action : ConsoleAction)
      (hsettled : ∀ tab token, call = .settled tab (b.tabs tab).page token → action = .drop) :
      ConsoleStep cfg b call action b .done
  | others (call : ConsoleCall) (action : TokenAction) (inner inner' : TokenCall)
      (store : CredentialStore) (hcall : ∀ tab page token, call ≠ .settled tab page token)
      (hinner : (tokenCalls cfg.u cfg.crypto).step b.store inner action = some (store, inner')) :
      ConsoleStep cfg b call (.other action) { b with store } (.other inner')

section

variable {cfg : AuthConfig} {b x : Browser} {call call' : ConsoleCall} {action : ConsoleAction}

/-- The inversion lemma. -/
theorem console_step (h : (console cfg).step b call action = some (x, call')) :
    ConsoleStep cfg b call action x call' := by
  cases action with
  | load tab login =>
    obtain ⟨rfl, rfl⟩ := Prod.mk.inj (Option.some.inj h)
    exact .loads call tab login
  | navigate tab login =>
    obtain ⟨rfl, rfl⟩ := Prod.mk.inj (Option.some.inj h)
    exact .navigates call tab login
  | expire =>
    obtain ⟨rfl, rfl⟩ := Prod.mk.inj (Option.some.inj h)
    exact .expires call
  | request tab req =>
    cases call with
    | idle =>
      obtain ⟨rfl, rfl⟩ := Prod.mk.inj (Option.some.inj h)
      unfold request
      split_ifs with htoken
      · exact .asks tab req htoken
      · exact .sends tab req htoken
    | _ => cases h
  | fetched =>
    cases call with
    | fetching tab page cookie req =>
      simp only [console] at h
      by_cases hpage : page = (b.tabs tab).page
      · rw [if_neg (not_not_intro hpage)] at h
        obtain ⟨rfl, rfl⟩ := Prod.mk.inj (Option.some.inj h)
        subst hpage
        cases hcookie : handlerCSRF cookie with
        | none => exact .fetchesNone tab cookie req hcookie
        | some token =>
          simp only [storeToken, if_true]
          exact .fetches tab cookie req token hcookie
      · rw [if_pos hpage] at h
        obtain ⟨rfl, rfl⟩ := Prod.mk.inj (Option.some.inj h)
        exact .ends _ _ fun _ _ heq => nomatch heq
    | _ => cases h
  | fetchFailed =>
    cases call with
    | fetching tab page cookie req =>
      obtain ⟨rfl, rfl⟩ := Prod.mk.inj (Option.some.inj h)
      by_cases hpage : page = (b.tabs tab).page
      · subst hpage
        rw [if_neg (not_not_intro rfl)]
        exact .fails tab cookie req
      · rw [if_pos hpage]
        exact .ends _ _ fun _ _ heq => nomatch heq
    | _ => cases h
  | server action =>
    cases call with
    | sent tab page credentials req inner =>
      obtain ⟨hserves, hmap⟩ := Option.ite_none_right_eq_some.mp h
      obtain ⟨⟨store, inner'⟩, hinner, heq⟩ := Option.map_eq_some_iff.mp hmap
      obtain ⟨rfl, rfl⟩ := Prod.mk.inj heq
      exact .serves tab page credentials req inner inner' action store hserves hinner
    | _ => cases h
  | arrive =>
    cases call with
    | sent tab page credentials req inner =>
      cases inner with
      | done response =>
        obtain ⟨rfl, rfl⟩ := Prod.mk.inj (Option.some.inj h)
        cases response with
        | unauthorized =>
          simp only [arrive]
          split_ifs
          · exact .leaves _ _ _ tab true (fun _ _ _ heq => nomatch heq) (.inl rfl)
          · exact .ends _ _ fun _ _ heq => nomatch heq
        | noContent =>
          simp only [arrive]
          split_ifs with hreq
          · subst hreq
            exact .loggedOut tab page credentials _
          · exact .ends _ _ fun _ _ heq => nomatch heq
        | _ => exact .ends _ _ fun _ _ heq => nomatch heq
      | _ => cases h
    | _ => cases h
  | signIn tab navigates =>
    cases call with
    | idle =>
      cases navigates with
      | true =>
        obtain ⟨rfl, rfl⟩ := Prod.mk.inj (Option.some.inj h)
        refine .leaves _ _ _ tab false (fun _ _ _ heq => nomatch heq) (.inr ⟨rfl, ?_⟩)
        rw [if_pos rfl, Browser.setTab_self]
        rfl
      | false =>
        obtain ⟨rfl, rfl⟩ := Prod.mk.inj (Option.some.inj h)
        exact .signsIn tab
    | _ => cases h
  | grant user client now =>
    cases call with
    | signingIn tab page navigates =>
      obtain ⟨htoken, hcreate⟩ := Option.ite_none_left_eq_some.mp h
      unfold AuthService.createSession at hcreate
      rcases CreateSession_cases b.store.toMfaStore (client.row cfg user.id now) with
        ⟨e, hrow⟩ | ⟨hrow, hnew⟩
      · rw [hrow] at hcreate
        obtain ⟨rfl, rfl⟩ := Prod.mk.inj (Option.some.inj hcreate)
        exact .ends _ _ fun _ _ heq => nomatch heq
      · rw [hrow] at hcreate
        obtain ⟨rfl, rfl⟩ := Prod.mk.inj (Option.some.inj hcreate)
        exact .granted tab page navigates user client now htoken hnew
    | _ => cases h
  | challenge =>
    cases call with
    | signingIn tab page navigates =>
      cases navigates with
      | true =>
        obtain ⟨rfl, rfl⟩ := Prod.mk.inj (Option.some.inj h)
        exact .leaves _ _ _ tab true (fun _ _ _ heq => nomatch heq) (.inl rfl)
      | false =>
        obtain ⟨rfl, rfl⟩ := Prod.mk.inj (Option.some.inj h)
        exact .challenged tab page
    | _ => cases h
  | refuse =>
    cases call with
    | signingIn tab page navigates =>
      cases navigates with
      | true =>
        obtain ⟨rfl, rfl⟩ := Prod.mk.inj (Option.some.inj h)
        exact .leaves _ _ _ tab true (fun _ _ _ heq => nomatch heq) (.inl rfl)
      | false =>
        obtain ⟨rfl, rfl⟩ := Prod.mk.inj (Option.some.inj h)
        exact .ends _ _ fun _ _ heq => nomatch heq
    | _ => cases h
  | cookies =>
    cases call with
    | granted tab page navigates client =>
      cases navigates with
      | true =>
        obtain ⟨rfl, rfl⟩ := Prod.mk.inj (Option.some.inj h)
        exact .returns tab page client
      | false =>
        obtain ⟨rfl, rfl⟩ := Prod.mk.inj (Option.some.inj h)
        exact .cookies tab page client
    | _ => cases h
  | resolve =>
    cases call with
    | settled tab page token =>
      obtain ⟨rfl, rfl⟩ := Prod.mk.inj (Option.some.inj h)
      unfold storeToken
      split_ifs with hpage
      · subst hpage
        exact .resolves tab token
      · refine .ends _ _ fun other found heq => ?_
        injection heq with htab hpage'
        subst htab
        exact absurd hpage' hpage
    | _ => cases h
  | drop =>
    cases call with
    | idle => cases h
    | other inner => cases h
    | done => cases h
    | _ =>
      obtain ⟨rfl, rfl⟩ := Prod.mk.inj (Option.some.inj h)
      exact .ends _ _ fun _ _ _ => rfl
  | other action =>
    cases call with
    | idle =>
      obtain ⟨⟨store, inner'⟩, hinner, heq⟩ := Option.map_eq_some_iff.mp h
      obtain ⟨rfl, rfl⟩ := Prod.mk.inj heq
      exact .others _ action _ inner' store nofun hinner
    | other inner =>
      obtain ⟨⟨store, inner'⟩, hinner, heq⟩ := Option.map_eq_some_iff.mp h
      obtain ⟨rfl, rfl⟩ := Prod.mk.inj heq
      exact .others _ action inner inner' store nofun hinner
    | _ => cases h

/-! ## Cookies that belong together -/

/-- The server has made a session with these two tokens. -/
def Issued (crypto : Crypto) (s : CredentialStore) (session csrf : GoString) : Prop :=
  ∃ row, SessionKept row s ∧ row.tokenHash = crypto.sha256 session ∧
    row.csrfHash = crypto.sha256 csrf

/-- The cookies of one session, or no session. -/
def Paired (crypto : Crypto) (s : CredentialStore) (session csrf : Option GoString) : Prop :=
  ∀ st ∈ session, ∃ ct ∈ csrf, ct ≠ [] ∧ Issued crypto s st ct

/-- The header is the cookie. -/
def TokenMatches (crypto : Crypto) (credentials : Credentials) : Prop :=
  ∃ cookie ∈ credentials.csrf, crypto.sha256 credentials.csrfToken = crypto.sha256 cookie

/-- An answer from behind the CSRF check. -/
def passedCSRF : AdminResponse → Bool
  | .unauthorized | .csrfRequired | .csrfInvalid | .internalError => false
  | _ => true

/-- How an answer depends on the tokens of its request. -/
structure AnswerSound (crypto : Crypto) (credentials : Credentials) (response : AdminResponse) :
    Prop where
  required : response ≠ .csrfRequired
  refused : response = .csrfInvalid →
    credentials.session ≠ none ∧ ¬ TokenMatches crypto credentials
  passed : passedCSRF response → TokenMatches crypto credentials

/-- Where a request of the console stands. -/
def Follows (crypto : Crypto) (credentials : Credentials) (req : AdminRequest) : TokenCall → Prop
  | .idle => False
  | .arrived credentials' req' => credentials' = credentials ∧ req' = req
  | .admitted _ credentials' req' =>
    credentials' = credentials ∧ req' = req ∧ TokenMatches crypto credentials
  | .done response => AnswerSound crypto credentials response

/-- What holds of a call, whatever the others do. -/
def ConsoleCallSound (crypto : Crypto) (s : CredentialStore) : ConsoleCall → Prop
  | .granted _ _ _ client =>
    client.csrfToken ≠ [] ∧ Issued crypto s client.sessionToken client.csrfToken
  | .sent _ _ credentials req inner =>
    credentials.authorization = [] ∧ Paired crypto s credentials.session credentials.csrf ∧
      Follows crypto credentials req inner
  | _ => True

/-- No session is lost. -/
def SessionsStay (s t : CredentialStore) : Prop := ∀ row, SessionKept row s → SessionKept row t

variable {crypto : Crypto} {s t : CredentialStore} {credentials : Credentials}
  {req : AdminRequest}

theorem Issued.stay {session csrf : GoString} (h : Issued crypto s session csrf)
    (hstay : SessionsStay s t) : Issued crypto t session csrf := by
  obtain ⟨row, hkept, hhashes⟩ := h
  exact ⟨row, hstay row hkept, hhashes⟩

theorem Paired.stay {session csrf : Option GoString} (h : Paired crypto s session csrf)
    (hstay : SessionsStay s t) : Paired crypto t session csrf := by
  intro st hst
  obtain ⟨ct, hct, hne, hissued⟩ := h st hst
  exact ⟨ct, hct, hne, hissued.stay hstay⟩

theorem ConsoleCallSound.stay (h : ConsoleCallSound crypto s call) (hstay : SessionsStay s t) :
    ConsoleCallSound crypto t call := by
  cases call with
  | granted tab page navigates client => exact ⟨h.1, h.2.stay hstay⟩
  | sent tab page credentials req inner => exact ⟨h.1, h.2.1.stay hstay, h.2.2⟩
  | _ => trivial

theorem GetSession_row {tokenHash : List UInt8} {now : Instant} {row : SessionRow} {user : User}
    (h : s.GetSession tokenHash now = some (row, user)) :
    row ∈ s.sessions ∧ row.tokenHash = tokenHash := by
  unfold CredentialStore.GetSession at h
  split at h
  · cases h
  · rename_i found hfind
    split at h
    · cases h
    · obtain ⟨rfl, -⟩ := Prod.mk.inj (Option.some.inj h)
      have hfound := List.find?_some hfind
      simp only [Bool.and_eq_true, beq_iff_eq] at hfound
      exact ⟨List.mem_of_find?_eq_some hfind, hfound.1.1⟩

/-- The middleware on a request of the console. -/
theorem admitCall_follows (u : Unicode) (hauthorization : credentials.authorization = [])
    (hpaired : Paired crypto s credentials.session credentials.csrf) (now : Instant) :
    Follows crypto credentials req (admitCall u crypto s credentials req now) := by
  have hbearer : bearer u credentials.authorization = none := by
    rw [hauthorization]
    rfl
  have hunauthorized : AnswerSound crypto credentials .unauthorized :=
    ⟨nofun, nofun, nofun⟩
  unfold admitCall Require
  rw [hbearer]
  dsimp only
  unfold requireSession
  cases hsession : credentials.session with
  | none => exact hunauthorized
  | some st =>
    dsimp only
    cases hrow : s.GetSession (crypto.sha256 st) now with
    | none => exact hunauthorized
    | some found =>
      obtain ⟨row, user⟩ := found
      obtain ⟨hmem, hhash⟩ := GetSession_row hrow
      obtain ⟨ct, hct, hne, issued, hkept, htoken, hcsrf⟩ := hpaired st hsession
      obtain rfl : row = issued := hkept.only row hmem (hhash.trans htoken.symm)
      have hct' : credentials.csrf = some ct := hct
      dsimp only
      unfold CSRF
      rw [hct']
      obtain ⟨c, cs, rfl⟩ := List.exists_cons_of_ne_nil hne
      by_cases hmatch : crypto.sha256 credentials.csrfToken = crypto.sha256 (c :: cs)
      · have hmatches : TokenMatches crypto credentials := ⟨c :: cs, hct, hmatch⟩
        have hboth : crypto.sha256 credentials.csrfToken = row.csrfHash ∧
            crypto.sha256 credentials.csrfToken = crypto.sha256 (c :: cs) :=
          ⟨hmatch.trans hcsrf.symm, hmatch⟩
        simp only [Option.getD_some, if_pos hboth]
        split_ifs
        · exact ⟨nofun, nofun, fun _ => hmatches⟩
        · exact ⟨rfl, rfl, hmatches⟩
      · have hnot : ¬ (crypto.sha256 credentials.csrfToken = row.csrfHash ∧
            crypto.sha256 credentials.csrfToken = crypto.sha256 (c :: cs)) :=
          fun hboth => hmatch hboth.2
        simp only [Option.getD_some, if_neg hnot]
        refine ⟨nofun, fun _ => ⟨by simp [hsession], ?_⟩, nofun⟩
        rintro ⟨other, hother, hsame⟩
        obtain rfl : c :: cs = other := Option.some.inj (hct'.symm.trans hother)
        exact hmatch hsame

theorem AnswerSound.of_passed {response : AdminResponse} (hpassed : passedCSRF response)
    (hmatches : TokenMatches crypto credentials) : AnswerSound crypto credentials response := by
  refine ⟨?_, ?_, fun _ => hmatches⟩
  · rintro rfl
    cases hpassed
  · rintro rfl
    cases hpassed

/-- A handler does not answer for the middleware. -/
theorem handleAdmin_passed (s : CredentialStore) (caller : Caller) (credentials : Credentials)
    (draw : TokenDraw) (now : Instant) (req : AdminRequest) :
    passedCSRF (handleAdmin crypto s caller credentials draw now req).1 := by
  have hanswer : ∀ r, passedCSRF (answer r) := by
    intro r
    cases r with
    | ok _ => rfl
    | error e => rfl
  cases req with
  | updateUser id req => exact hanswer _
  | updateRole name req => exact hanswer _
  | createToken name =>
    simp only [handleAdmin]
    split
    · rfl
    · split <;> rfl
  | revokeToken id =>
    simp only [handleAdmin]
    split
    · rfl
    · exact hanswer _
  | logout =>
    simp only [handleAdmin]
    split <;> rfl

/-- The server's part of a request of the console. -/
theorem Follows.step {u : Unicode} {inner inner' : TokenCall} {action : TokenAction}
    (hauthorization : credentials.authorization = [])
    (hpaired : Paired crypto s credentials.session credentials.csrf)
    (h : Follows crypto credentials req inner) (hserves : serverSide action)
    (hstep : (tokenCalls u crypto).step s inner action = some (t, inner')) :
    Follows crypto credentials req inner' := by
  cases action with
  | authenticate now =>
    cases inner with
    | arrived credentials' req' =>
      obtain ⟨rfl, rfl⟩ := h
      obtain ⟨-, rfl⟩ := Prod.mk.inj (Option.some.inj hstep)
      exact admitCall_follows u hauthorization hpaired now
    | _ => cases hstep
  | serve draw now =>
    cases inner with
    | admitted caller credentials' req' =>
      obtain ⟨rfl, rfl, hmatches⟩ := h
      obtain ⟨-, rfl⟩ := Prod.mk.inj (Option.some.inj hstep)
      exact .of_passed (handleAdmin_passed ..) hmatches
    | _ => cases hstep
  | abort =>
    obtain ⟨-, heq⟩ := Option.ite_none_left_eq_some.mp hstep
    obtain ⟨-, rfl⟩ := Prod.mk.inj (Option.some.inj heq)
    exact ⟨nofun, nofun, nofun⟩
  | _ => cases hserves

theorem stays_of_effect {inner : TokenCall} {action : TokenAction}
    (h : CredentialEffect crypto s inner action t) : SessionsStay s t :=
  fun _ hkept => hkept.effect h

theorem ConsoleStep.stay (h : ConsoleStep cfg b call action x call') :
    SessionsStay b.store x.store := by
  cases h with
  | serves tab page credentials req inner inner' action store hserves hinner =>
    exact stays_of_effect (tokenCalls_tables hinner)
  | others call action inner inner' store hother hinner =>
    exact stays_of_effect (tokenCalls_tables hinner)
  | granted tab page navigates user client now htoken hnew =>
    have heffect : CredentialEffect cfg.crypto b.store .idle .abort _ :=
      .signedIn (client.row cfg user.id now) hnew
    exact stays_of_effect heffect
  | _ => exact fun _ hkept => hkept

/-- A new session is issued with the tokens of its client. -/
theorem issued_of_new {userID : Uuid} {client : SignIn} {now : Instant}
    (hnew : ∀ other ∈ s.sessions, other.tokenHash ≠ cfg.crypto.sha256 client.sessionToken) :
    Issued cfg.crypto { s with sessions := s.sessions ++ [client.row cfg userID now] }
      client.sessionToken client.csrfToken := by
  refine ⟨client.row cfg userID now, ⟨?_, fun other hother hsame => ?_⟩, rfl, rfl⟩
  · exact List.mem_append_right _ (List.mem_singleton_self _)
  · rcases List.mem_append.mp hother with hold | hlast
    · exact absurd hsame (hnew other hold)
    · exact List.mem_singleton.mp hlast

theorem dispatch_sound (hjar : Paired crypto b.store b.jar.session b.jar.csrf) (tab : ℕ)
    (req : AdminRequest) : ConsoleCallSound crypto b.store (dispatch b tab req) :=
  ⟨rfl, hjar, rfl, rfl⟩

/-- The step lemma: the cookies stay those of one session. -/
theorem ConsoleStep.sound (hstep : ConsoleStep cfg b call action x call')
    (hjar : Paired cfg.crypto b.store b.jar.session b.jar.csrf)
    (hcall : ConsoleCallSound cfg.crypto b.store call) :
    Paired cfg.crypto x.store x.jar.session x.jar.csrf ∧
      ConsoleCallSound cfg.crypto x.store call' := by
  have hstay := hstep.stay
  cases hstep with
  | loads => exact ⟨hjar, hcall⟩
  | navigates => exact ⟨hjar, hcall⟩
  | expires => exact ⟨nofun, hcall⟩
  | asks => exact ⟨hjar, trivial⟩
  | sends tab req htoken => exact ⟨hjar, dispatch_sound hjar tab req⟩
  | fetches tab cookie req token hcookie =>
    exact ⟨hjar, dispatch_sound (b := Browser.setTab ..) hjar tab req⟩
  | fetchesNone tab cookie req hcookie => exact ⟨hjar, dispatch_sound hjar tab req⟩
  | fails tab cookie req => exact ⟨hjar, dispatch_sound hjar tab req⟩
  | serves tab page credentials req inner inner' action store hserves hinner =>
    obtain ⟨hauthorization, hpaired, hfollows⟩ := hcall
    exact ⟨hjar.stay hstay, hauthorization, hpaired.stay hstay,
      hfollows.step hauthorization hpaired hserves hinner⟩
  | loggedOut => exact ⟨nofun, trivial⟩
  | leaves call call' action tab login hcall hcall' =>
    rcases hcall' with rfl | ⟨-, rfl⟩
    · exact ⟨hjar, trivial⟩
    · exact ⟨hjar, trivial⟩
  | signsIn => exact ⟨hjar, trivial⟩
  | granted tab page navigates user client now htoken hnew =>
    exact ⟨hjar.stay hstay, htoken, issued_of_new hnew⟩
  | challenged => exact ⟨hjar, trivial⟩
  | cookies tab page client =>
    refine ⟨fun st hst => ⟨client.csrfToken, rfl, hcall.1, ?_⟩, trivial⟩
    obtain rfl := Option.some.inj hst
    exact hcall.2
  | returns tab page client =>
    refine ⟨fun st hst => ⟨client.csrfToken, rfl, hcall.1, ?_⟩, trivial⟩
    obtain rfl := Option.some.inj hst
    exact hcall.2
  | resolves => exact ⟨hjar, trivial⟩
  | ends => exact ⟨hjar, trivial⟩
  | others call action inner inner' store hother hinner => exact ⟨hjar.stay hstay, trivial⟩

/-- The cookies belong together, in the browser and under way. -/
def BrowserSound (crypto : Crypto) (p : Pool Browser ConsoleCall) : Prop :=
  Paired crypto p.shared.store p.shared.jar.session p.shared.jar.csrf ∧
    ∀ i, ConsoleCallSound crypto p.shared.store (p.locals i)

/-- In a run. -/
theorem BrowserSound.run {p q : Pool Browser ConsoleCall} {as : List (ℕ × ConsoleAction)}
    (hp : BrowserSound cfg.crypto p) (hrun : (console cfg).machine.run p as = some q) :
    BrowserSound cfg.crypto q := by
  obtain ⟨hjar, hcalls⟩ := hp
  refine Process.run_locals (C := fun _ _ => True)
    (I := fun b => Paired cfg.crypto b.store b.jar.session b.jar.csrf)
    (P := fun b call => ConsoleCallSound cfg.crypto b.store call) ?_ ?_ ⟨hjar, hcalls⟩
    (Machine.along_of_mem _ (fun _ _ => trivial) p) hrun
  · intro v i a x l hjar hcall _ hstep
    exact (console_step hstep).sound hjar hcall
  · intro v i a x l m _ _ hother hstep
    exact hother.stay (console_step hstep).stay

/-! ## Documents in step with the cookies -/

/-- The token is the cookie, or there is no session. -/
def TokenHeld (b : Browser) (token : GoString) : Prop :=
  b.jar.session = none ∨ b.jar.csrf = some token

/-- What a call has of the token is that of the cookies. -/
def CallInStep (b : Browser) : ConsoleCall → Prop
  | .fetching _ _ cookie _ => b.jar.session = none ∨ b.jar.csrf = cookie
  | .settled _ _ token => token = [] ∨ TokenHeld b token
  | .sent _ _ credentials _ _ =>
    credentials.session = none ∨ credentials.csrf = some credentials.csrfToken
  | _ => True

/-- A document has the token of the cookies, or is about to have it. -/
def TabInStep (p : Pool Browser ConsoleCall) (k : ℕ) : Prop :=
  (p.shared.tabs k).csrfToken = [] ∨ TokenHeld p.shared (p.shared.tabs k).csrfToken ∨
    ∃ i token, p.locals i = .settled k (p.shared.tabs k).page token

structure BrowserInStep (p : Pool Browser ConsoleCall) : Prop where
  tabs : ∀ k, TabInStep p k
  calls : ∀ i, CallInStep p.shared (p.locals i)

/-- A call that will set the token of its document, with what it has been sent. -/
def waits : ConsoleCall → Bool
  | .fetching .. | .settled .. => true
  | _ => false

/-- The cookies of a sign-in are set when no other document has a token, and no call waits to
set one; a document sends nothing between the cookies and the body of its own sign-in; and
neither that body nor a token that is asked for is lost. -/
def Undisturbed (p : Pool Browser ConsoleCall) : ℕ × ConsoleAction → Prop
  | (_, .request tab _) => ∀ i token, p.locals i ≠ .settled tab (p.shared.tabs tab).page token
  | (i, .cookies) =>
    (∀ k, (p.shared.tabs k).csrfToken ≠ [] →
      ∃ navigates client, p.locals i = .granted k (p.shared.tabs k).page navigates client) ∧
    ∀ j, waits (p.locals j) = false
  | (_, .fetchFailed) => False
  | (i, .drop) => ∀ tab page token, p.locals i ≠ .settled tab page token
  | _ => True

theorem TokenHeld.of_jar {token : GoString} (h : TokenHeld b token)
    (hjar : x.jar = b.jar ∨ x.jar = {}) : TokenHeld x token := by
  rcases hjar with heq | heq
  · unfold TokenHeld
    rw [heq]
    exact h
  · exact .inl (by rw [heq])

theorem CallInStep.of_jar (h : CallInStep b call) (hjar : x.jar = b.jar ∨ x.jar = {}) :
    CallInStep x call := by
  cases call with
  | fetching tab page cookie req =>
    rcases hjar with heq | heq
    · unfold CallInStep
      rw [heq]
      exact h
    · exact .inl (by rw [heq])
  | settled tab page token => exact h.imp id fun hholds => hholds.of_jar hjar
  | sent tab page credentials req inner => exact h
  | _ => trivial

/-- Only a sign-in gives the browser new cookies. -/
theorem ConsoleStep.jar (h : ConsoleStep cfg b call action x call') :
    (x.jar = b.jar ∨ x.jar = {}) ∨ action = .cookies := by
  cases h with
  | expires => exact .inl (.inr rfl)
  | loggedOut => exact .inl (.inr rfl)
  | cookies => exact .inr rfl
  | returns => exact .inr rfl
  | _ => exact .inl (.inl rfl)

theorem CallInStep.of_not_waits (h : CallInStep b call) (hwaits : waits call = false) :
    CallInStep x call := by
  cases call with
  | fetching => cases hwaits
  | settled => cases hwaits
  | sent => exact h
  | _ => trivial

/-- Nothing is to be fetched only while there is no session. -/
theorem no_session_of_fetch {cookie : Option GoString}
    (hjar : Paired crypto b.store b.jar.session b.jar.csrf)
    (hcall : b.jar.session = none ∨ b.jar.csrf = cookie) (hcookie : handlerCSRF cookie = none) :
    b.jar.session = none := by
  rcases hcall with hnone | hsame
  · exact hnone
  · cases hsession : b.jar.session with
    | none => rfl
    | some st =>
      obtain ⟨ct, hct, hne, -⟩ := hjar st hsession
      rw [hsame] at hct
      obtain rfl : cookie = some ct := hct
      obtain ⟨c, cs, rfl⟩ := List.exists_cons_of_ne_nil hne
      cases hcookie

theorem handlerCSRF_some {cookie : Option GoString} {token : GoString}
    (h : handlerCSRF cookie = some token) : cookie = some token := by
  unfold handlerCSRF at h
  split at h
  · cases h
  · cases h
  · exact h

/-- What the call that moves has afterwards. -/
theorem ConsoleStep.call_inStep {i : ℕ} {p : Pool Browser ConsoleCall}
    (hstep : ConsoleStep cfg p.shared (p.locals i) action x call')
    (hjar : Paired cfg.crypto p.shared.store p.shared.jar.session p.shared.jar.csrf)
    (h : BrowserInStep p) (hquiet : Undisturbed p (i, action)) : CallInStep x call' := by
  have hown := h.calls i
  generalize p.locals i = call at hstep hown
  cases hstep with
  | loads => exact hown.of_jar (.inl rfl)
  | navigates => exact hown.of_jar (.inl rfl)
  | expires => exact hown.of_jar (.inr rfl)
  | asks => exact .inr rfl
  | sends tab req htoken =>
    rcases h.tabs tab with hnil | hholds | ⟨j, token, hsettled⟩
    · exact absurd hnil htoken
    · exact hholds
    · exact absurd hsettled (hquiet j token)
  | fetches tab cookie req token hcookie =>
    obtain rfl := handlerCSRF_some hcookie
    rcases hown with hnone | hsame
    · exact .inl hnone
    · refine .inr (hsame.trans ?_)
      simp
  | fetchesNone tab cookie req hcookie => exact .inl (no_session_of_fetch hjar hown hcookie)
  | fails => exact hquiet.elim
  | serves => exact hown
  | leaves call call' action tab login hcall hcall' =>
    rcases hcall' with rfl | ⟨-, rfl⟩
    · trivial
    · trivial
  | cookies tab page client => exact .inr (.inr rfl)
  | challenged => exact .inl rfl
  | _ => trivial

/-- A document that the step passes over. -/
theorem TabInStep.pass {p : Pool Browser ConsoleCall} {i k : ℕ} (h : TabInStep p k)
    (htoken : (x.tabs k).csrfToken = (p.shared.tabs k).csrfToken)
    (hpage : (x.tabs k).page = (p.shared.tabs k).page)
    (hjar : x.jar = p.shared.jar ∨ x.jar = {})
    (hmover : ∀ token, p.locals i = .settled k (p.shared.tabs k).page token →
      call' = p.locals i) : TabInStep ⟨x, Function.update p.locals i call'⟩ k := by
  unfold TabInStep
  dsimp only
  rw [htoken, hpage]
  rcases h with hnil | hholds | ⟨j, token, hj⟩
  · exact .inl hnil
  · exact .inr (.inl (hholds.of_jar hjar))
  · refine .inr (.inr ⟨j, token, ?_⟩)
    by_cases hji : j = i
    · subst hji
      rw [Function.update_self, hmover token hj, hj]
    · rw [Function.update_of_ne hji, hj]

/-- Another tab is changed. -/
theorem TabInStep.pass_other {p : Pool Browser ConsoleCall} {i k tab : ℕ} (h : TabInStep p k)
    (hk : k ≠ tab) (new : Tab)
    (hmover : ∀ token, p.locals i = .settled k (p.shared.tabs k).page token →
      call' = p.locals i) :
    TabInStep ⟨p.shared.setTab tab new, Function.update p.locals i call'⟩ k := by
  have hsame : (p.shared.setTab tab new).tabs k = p.shared.tabs k := Browser.setTab_other _ _ hk
  refine h.pass ?_ ?_ (.inl rfl) hmover
  · rw [hsame]
  · rw [hsame]

theorem TabInStep.reloaded {p : Pool Browser ConsoleCall} (i tab : ℕ) (login : Bool)
    (hmover : ∀ k token, p.locals i = .settled k (p.shared.tabs k).page token →
      call' = p.locals i) (h : ∀ k, TabInStep p k) (k : ℕ) :
    TabInStep ⟨p.shared.setTab tab ((p.shared.tabs tab).reload login),
      Function.update p.locals i call'⟩ k := by
  by_cases hk : k = tab
  · subst hk
    refine .inl ?_
    show ((p.shared.setTab k ((p.shared.tabs k).reload login)).tabs k).csrfToken = []
    rw [Browser.setTab_self]
    rfl
  · exact (h k).pass_other hk _ (hmover k)

/-- The step lemma. -/
theorem ConsoleStep.tab_inStep {i : ℕ} {p : Pool Browser ConsoleCall}
    (hstep : ConsoleStep cfg p.shared (p.locals i) action x call') (h : BrowserInStep p)
    (hquiet : Undisturbed p (i, action)) (k : ℕ) :
    TabInStep ⟨x, Function.update p.locals i call'⟩ k := by
  have hown := h.calls i
  have htabs := h.tabs
  have hsame : call' = p.locals i → ∀ k token,
      p.locals i = .settled k (p.shared.tabs k).page token → call' = p.locals i :=
    fun heq _ _ _ => heq
  generalize hcall : p.locals i = call at hstep hown
  cases hstep with
  | loads call tab login =>
    exact TabInStep.reloaded i tab login (hsame hcall.symm) htabs k
  | navigates call tab login =>
    by_cases hk : k = tab
    · subst hk
      refine (htabs k).pass ?_ ?_ (.inl rfl) fun _ _ => hcall.symm
      · rw [Browser.setTab_self]
      · rw [Browser.setTab_self]
    · exact (htabs k).pass_other hk _ fun _ _ => hcall.symm
  | expires call => exact (htabs k).pass rfl rfl (.inr rfl) fun _ _ => hcall.symm
  | leaves call call' action tab login hnot hcall' =>
    exact TabInStep.reloaded i tab login
      (fun k token hsettled => absurd (hcall.symm.trans hsettled) (hnot _ _ _)) htabs k
  | loggedOut =>
    exact (htabs k).pass rfl rfl (.inr rfl) fun token heq => nomatch hcall.symm.trans heq
  | others call action inner inner' store hother hinner =>
    exact (htabs k).pass rfl rfl (.inl rfl) fun token heq =>
      absurd (hcall.symm.trans heq) (hother _ _ _)
  | fetches tab cookie req token hcookie =>
    by_cases hk : k = tab
    · subst hk
      obtain rfl := handlerCSRF_some hcookie
      refine .inr (.inl ?_)
      rcases hown with hnone | hjar
      · exact .inl hnone
      · refine .inr ?_
        simpa using hjar
    · exact (htabs k).pass_other hk _ fun token heq => nomatch hcall.symm.trans heq
  | cookies tab page client =>
    -- the only document with a token is the one that signs in, and it is about to have the new one
    by_cases hnil : (p.shared.tabs k).csrfToken = []
    · exact .inl hnil
    · obtain ⟨navigates, client', hgranted⟩ := hquiet.1 k hnil
      injection hcall.symm.trans hgranted with htab hpage hnavigates hclient
      subst htab hpage hclient
      refine .inr (.inr ⟨i, client.csrfToken, ?_⟩)
      exact Function.update_self ..
  | returns tab page client =>
    by_cases hk : k = tab
    · subst hk
      refine .inl ?_
      dsimp only
      rw [Browser.setTab_self]
      rfl
    · refine .inl ?_
      dsimp only
      rw [Browser.setTab_other _ _ hk]
      by_contra hne
      obtain ⟨navigates, client', hgranted⟩ := hquiet.1 k hne
      injection hcall.symm.trans hgranted with htab
      exact hk htab.symm
  | resolves tab token =>
    by_cases hk : k = tab
    · subst hk
      rcases hown with hnil | hholds
      · refine .inl ?_
        dsimp only
        rw [Browser.setTab_self]
        exact hnil
      · refine .inr (.inl ?_)
        dsimp only
        rw [Browser.setTab_self]
        exact hholds
    · refine (htabs k).pass_other hk _ fun other heq => ?_
      injection hcall.symm.trans heq with htab
      exact absurd htab.symm hk
  | ends call action hsettled =>
    refine (htabs k).pass rfl rfl (.inl rfl) fun token heq => ?_
    obtain rfl := hsettled k token (hcall.symm.trans heq)
    exact absurd heq (hquiet k _ token)
  | _ => exact (htabs k).pass rfl rfl (.inl rfl) fun token heq => nomatch hcall.symm.trans heq

theorem BrowserInStep.step {p q : Pool Browser ConsoleCall} {a : ℕ × ConsoleAction}
    (h : BrowserInStep p)
    (hjar : Paired cfg.crypto p.shared.store p.shared.jar.session p.shared.jar.csrf)
    (hquiet : Undisturbed p a) (hstep : (console cfg).machine.step p a = some q) :
    BrowserInStep q := by
  obtain ⟨i, action⟩ := a
  obtain ⟨⟨x, call'⟩, hmove, rfl⟩ := Option.map_eq_some_iff.mp hstep
  have hmoved := console_step hmove
  refine ⟨hmoved.tab_inStep h hquiet, fun j => ?_⟩
  dsimp only
  by_cases hj : j = i
  · subst hj
    rw [Function.update_self]
    exact hmoved.call_inStep hjar h hquiet
  · rw [Function.update_of_ne hj]
    rcases hmoved.jar with hsame | rfl
    · exact (h.calls j).of_jar hsame
    · exact (h.calls j).of_not_waits (hquiet.2 j)

/-! ## Every run -/

/-- A browser without cookies, and nothing under way. -/
def opened (s : CredentialStore) : Pool Browser ConsoleCall := ⟨{ store := s }, fun _ => .idle⟩

theorem opened_sound (s : CredentialStore) : BrowserSound crypto (opened s) :=
  ⟨nofun, fun _ => trivial⟩

theorem opened_inStep (s : CredentialStore) : BrowserInStep (opened s) :=
  ⟨fun _ => .inl rfl, fun _ => trivial⟩

/-- The run lemma. -/
theorem BrowserInStep.run {p q : Pool Browser ConsoleCall} {as : List (ℕ × ConsoleAction)}
    (hp : BrowserSound cfg.crypto p) (h : BrowserInStep p)
    (hquiet : (console cfg).machine.Along Undisturbed p as)
    (hrun : (console cfg).machine.run p as = some q) : BrowserInStep q := by
  have hboth := (console cfg).machine.run_invariant_along
    (I := fun v => BrowserSound cfg.crypto v ∧ BrowserInStep v) (C := Undisturbed)
    (fun v a w hv hC hstep => ⟨?_, hv.2.step hv.1.1 hC hstep⟩) ⟨hp, h⟩ hquiet hrun
  · exact hboth.2
  · have hone : (console cfg).machine.run v [a] = some w :=
      (console cfg).machine.run_cons_eq_some.2 ⟨w, hstep, rfl⟩
    exact hv.1.run hone

theorem BrowserSound.answer {p : Pool Browser ConsoleCall} {i tab page : ℕ}
    {response : AdminResponse} (h : BrowserSound crypto p)
    (hi : p.locals i = .sent tab page credentials req (.done response)) :
    AnswerSound crypto credentials response := by
  have hcall := h.2 i
  rw [hi] at hcall
  exact hcall.2.2

/-- The document that a call belongs to. -/
def owner : ConsoleCall → Option (ℕ × ℕ)
  | .fetching tab page .. | .sent tab page .. | .signingIn tab page _ | .granted tab page ..
  | .settled tab page _ => some (tab, page)
  | _ => none

/-- The tokens of the browser are others than that of the document. -/
structure TabBehind (crypto : Crypto) (tab page : ℕ) (token : GoString) (b : Browser) : Prop where
  cookie : ∀ ct ∈ b.jar.csrf, crypto.sha256 ct ≠ crypto.sha256 token
  loaded : page ≤ (b.tabs tab).page
  kept : (b.tabs tab).page = page → (b.tabs tab).csrfToken = token

/-- What the calls of such a document have sent. -/
def CallBehind (crypto : Crypto) (tab page : ℕ) (token : GoString) : ConsoleCall → Prop
  | .sent tab' page' credentials _ _ => (tab', page') = (tab, page) →
      credentials.csrfToken = token ∧
        ∀ ct ∈ credentials.csrf, crypto.sha256 ct ≠ crypto.sha256 token
  | .granted tab' page' _ client => (tab', page') ≠ (tab, page) ∧
      crypto.sha256 client.csrfToken ≠ crypto.sha256 token
  | call => owner call ≠ some (tab, page)

theorem dispatch_behind {tab page : ℕ} {token : GoString} (h : TabBehind crypto tab page token b)
    (k : ℕ) (req : AdminRequest) : CallBehind crypto tab page token (dispatch b k req) := by
  intro hsame
  obtain ⟨rfl, hpage⟩ := Prod.mk.inj hsame
  exact ⟨h.kept hpage, h.cookie⟩

theorem TabBehind.reload {tab page : ℕ} {token : GoString} (h : TabBehind crypto tab page token b)
    (k : ℕ) (login : Bool) : TabBehind crypto tab page token
      (b.setTab k ((b.tabs k).reload login)) := by
  have hloaded := h.loaded
  refine ⟨h.cookie, ?_, ?_⟩
  · by_cases hk : tab = k
    · subst hk
      rw [Browser.setTab_self]
      show page ≤ (b.tabs tab).page + 1
      omega
    · rw [Browser.setTab_other _ _ hk]
      exact hloaded
  · by_cases hk : tab = k
    · subst hk
      rw [Browser.setTab_self]
      intro hpage
      have hnext : (b.tabs tab).page + 1 = page := hpage
      omega
    · rw [Browser.setTab_other _ _ hk]
      exact h.kept

theorem TabBehind.set {tab page : ℕ} {token : GoString} (h : TabBehind crypto tab page token b)
    (k : ℕ) (new : Tab) (hpage : new.page = (b.tabs k).page)
    (htoken : k = tab → new.page = page → new.csrfToken = token) :
    TabBehind crypto tab page token (b.setTab k new) := by
  by_cases hk : tab = k
  · subst hk
    refine ⟨h.cookie, ?_, ?_⟩
    · rw [Browser.setTab_self, hpage]
      exact h.loaded
    · rw [Browser.setTab_self]
      exact htoken rfl
  · refine ⟨h.cookie, ?_, ?_⟩
    · rw [Browser.setTab_other _ _ hk]
      exact h.loaded
    · rw [Browser.setTab_other _ _ hk]
      exact h.kept

/-- The step lemma: nothing that is not a sign-in of its own gives the document another token. -/
theorem ConsoleStep.behind {tab page : ℕ} {token : GoString} (htoken : token ≠ [])
    (hstep : ConsoleStep cfg b call action x call')
    (hsign : ∀ navigates, action ≠ .signIn tab navigates)
    (hfresh : ∀ user client now, action = .grant user client now →
      cfg.crypto.sha256 client.csrfToken ≠ cfg.crypto.sha256 token)
    (h : TabBehind cfg.crypto tab page token b)
    (hcall : CallBehind cfg.crypto tab page token call) :
    TabBehind cfg.crypto tab page token x ∧ CallBehind cfg.crypto tab page token call' := by
  cases hstep with
  | loads call k login => exact ⟨h.reload k login, hcall⟩
  | navigates call k login =>
    refine ⟨h.set k _ rfl fun hk hpage => ?_, hcall⟩
    subst hk
    exact h.kept hpage
  | expires => exact ⟨⟨nofun, h.loaded, h.kept⟩, hcall⟩
  | asks k req hnil =>
    refine ⟨h, fun hsame => htoken ?_⟩
    obtain ⟨rfl, hpage⟩ := Prod.mk.inj (Option.some.inj hsame)
    rw [← h.kept hpage]
    exact hnil
  | sends k req hne => exact ⟨h, dispatch_behind h k req⟩
  | fetches k cookie req new hcookie =>
    have hset : TabBehind cfg.crypto tab page token
        (b.setTab k { b.tabs k with csrfToken := new }) := by
      refine h.set k _ rfl fun hk hpage => ?_
      subst hk
      exact absurd (congrArg (fun n => some (k, n)) hpage) hcall
    exact ⟨hset, dispatch_behind hset k req⟩
  | fetchesNone k cookie req hcookie => exact ⟨h, dispatch_behind h k req⟩
  | fails k cookie req => exact ⟨h, dispatch_behind h k req⟩
  | serves => exact ⟨⟨h.cookie, h.loaded, h.kept⟩, hcall⟩
  | loggedOut => exact ⟨⟨nofun, h.loaded, h.kept⟩, nofun⟩
  | leaves call call' action k login hnot hcall' =>
    refine ⟨h.reload k login, ?_⟩
    rcases hcall' with rfl | ⟨rfl, rfl⟩
    · exact nofun
    · intro hsame
      obtain ⟨rfl, -⟩ := Prod.mk.inj (Option.some.inj hsame)
      exact hsign true rfl
  | signsIn k =>
    refine ⟨h, fun hsame => ?_⟩
    obtain ⟨rfl, -⟩ := Prod.mk.inj (Option.some.inj hsame)
    exact hsign false rfl
  | granted k found navigates user client now hne hnew =>
    refine ⟨⟨h.cookie, h.loaded, h.kept⟩, fun hsame => hcall (congrArg some hsame), ?_⟩
    exact hfresh user client now rfl
  | challenged k found => exact ⟨h, hcall⟩
  | cookies k found client =>
    refine ⟨⟨fun ct hct => ?_, h.loaded, h.kept⟩, fun hsame => hcall.1 (Option.some.inj hsame)⟩
    obtain rfl := Option.some.inj hct
    exact hcall.2
  | returns k found client =>
    have hjar : TabBehind cfg.crypto tab page token
        { b with jar := ⟨some client.sessionToken, some client.csrfToken⟩ } := by
      refine ⟨fun ct hct => ?_, h.loaded, h.kept⟩
      obtain rfl := Option.some.inj hct
      exact hcall.2
    exact ⟨hjar.reload k false, nofun⟩
  | resolves k new =>
    refine ⟨h.set k _ rfl fun hk hpage => ?_, nofun⟩
    subst hk
    exact absurd (congrArg (fun n => some (k, n)) hpage) hcall
  | ends => exact ⟨h, nofun⟩
  | others => exact ⟨⟨h.cookie, h.loaded, h.kept⟩, nofun⟩

/-- A document holds a token that is not the one of the cookies, when nothing of its own is under
way: until it is loaded again, or signs in itself, no request that it sends comes behind the CSRF
check, whatever the other tabs do. -/
theorem stale_tab_refused {as bs : List (ℕ × ConsoleAction)} {p q : Pool Browser ConsoleCall}
    {tab page : ℕ} {token : GoString} (hstart : (console cfg).machine.run (opened s) as = some p)
    (htab : (p.shared.tabs tab).page = page ∧ (p.shared.tabs tab).csrfToken = token)
    (hnonempty : token ≠ [])
    (hcookie : ∀ ct ∈ p.shared.jar.csrf, cfg.crypto.sha256 ct ≠ cfg.crypto.sha256 token)
    (hidle : ∀ i, owner (p.locals i) ≠ some (tab, page))
    (hgranted : ∀ i tab page navigates client, p.locals i = .granted tab page navigates client →
      cfg.crypto.sha256 client.csrfToken ≠ cfg.crypto.sha256 token)
    (hsign : ∀ i navigates, (i, .signIn tab navigates) ∉ bs)
    (hfresh : ∀ i user client now, (i, .grant user client now) ∈ bs →
      cfg.crypto.sha256 client.csrfToken ≠ cfg.crypto.sha256 token)
    (hrun : (console cfg).machine.run p bs = some q) :
    ∀ i credentials req response,
      q.locals i = .sent tab page credentials req (.done response) →
        passedCSRF response = false := by
  have hbehind : TabBehind cfg.crypto tab page token p.shared :=
    ⟨hcookie, htab.1.ge, fun _ => htab.2⟩
  have hcalls : ∀ i, CallBehind cfg.crypto tab page token (p.locals i) := by
    intro i
    have hnot := hidle i
    have hclient := hgranted i
    cases hcall : p.locals i with
    | sent tab' page' credentials req inner =>
      rw [hcall] at hnot
      exact fun hsame => absurd (congrArg some hsame) hnot
    | granted tab' page' navigates client =>
      rw [hcall] at hnot
      exact ⟨fun hsame => hnot (congrArg some hsame), hclient _ _ _ _ hcall⟩
    | _ =>
      rw [hcall] at hnot
      exact hnot
  have hlabels : ∀ a ∈ bs, (∀ navigates, a.2 ≠ .signIn tab navigates) ∧
      ∀ user client now, a.2 = .grant user client now →
        cfg.crypto.sha256 client.csrfToken ≠ cfg.crypto.sha256 token := by
    rintro ⟨i, action⟩ ha
    refine ⟨fun navigates heq => ?_, fun user client now heq => ?_⟩
    · dsimp only at heq
      subst heq
      exact hsign i navigates ha
    · dsimp only at heq
      subst heq
      exact hfresh i user client now ha
  have hlast : TabBehind cfg.crypto tab page token q.shared ∧
      ∀ i, CallBehind cfg.crypto tab page token (q.locals i) := by
    refine Process.run_locals (I := fun b => TabBehind cfg.crypto tab page token b)
      (P := fun _ call => CallBehind cfg.crypto tab page token call) ?_ ?_ ⟨hbehind, hcalls⟩
      (Machine.along_of_mem _ hlabels p) hrun
    · intro v i a x l hb hcall hC hstep
      exact (console_step hstep).behind hnonempty hC.1 hC.2 hb hcall
    · intro v i a x l m _ _ hother _
      exact hother
  intro i credentials req response hi
  have hanswer := (((opened_sound s).run hstart).run hrun).answer hi
  have hcall := hlast.2 i
  rw [hi] at hcall
  obtain ⟨htoken, hother⟩ := hcall rfl
  rw [Bool.eq_false_iff]
  intro hpassed
  obtain ⟨cookie, hmem, hsame⟩ := hanswer.passed hpassed
  rw [htoken] at hsame
  exact hother cookie hmem hsame.symm

end

/-! ## Two tabs -/

def clientOf (name : String) : SignIn where
  userAgent := []
  ipHash := []
  challengeToken := []
  sessionToken := lit name
  csrfToken := lit name

/-- The administrator signs in. -/
def signInSteps (i tab : ℕ) (name : String) : List (ℕ × ConsoleAction) :=
  [(i, .signIn tab false), (i, .grant ⟨default, lit "root", lit "admin"⟩ (clientOf name) 0),
    (i, .cookies), (i, .resolve)]

def tokenSteps (i tab : ℕ) : List (ℕ × ConsoleAction) :=
  [(i, .request tab (.createToken (lit "ci"))), (i, .server (.authenticate 0)),
    (i, .server (.serve ⟨default, fun _ => 0⟩ 0))]

/-- The first tab signs in and mints a token, then the second tab signs in as well. -/
def secondSignIn : List (ℕ × ConsoleAction) :=
  signInSteps 0 0 "first" ++ tokenSteps 1 0 ++ [(1, .arrive)] ++ signInSteps 2 1 "second"

/-- The first tab asks for another token. -/
def firstTabAgain : List (ℕ × ConsoleAction) :=
  [(3, .request 0 (.createToken (lit "ci"))), (3, .server (.authenticate 0))]

/-- The process has an answer of this kind. -/
def answeredWith (kind : AdminResponse → Bool) (q : Pool Browser ConsoleCall) (i : ℕ) : Bool :=
  match q.locals i with
  | .sent _ _ _ _ (.done response) => kind response
  | _ => false

theorem answeredWith_iff {kind : AdminResponse → Bool} {q : Pool Browser ConsoleCall} {i : ℕ} :
    answeredWith kind q i ↔ ∃ tab page credentials req response,
      q.locals i = .sent tab page credentials req (.done response) ∧ kind response := by
  unfold answeredWith
  split
  · rename_i heq
    simp [heq]
  · rename_i hnot
    simp only [Bool.false_eq_true, false_iff]
    rintro ⟨tab, page, credentials, req, response, heq, -⟩
    exact hnot _ _ _ _ _ heq

def refusedCSRF : AdminResponse → Bool
  | .csrfInvalid => true
  | _ => false

/-- A call that is over, or was never made. -/
def isOver : ConsoleCall → Bool
  | .idle | .done => true
  | _ => false

/-- The answer that a document of a tab has from the server. -/
def consoleAnswer (tab page : ℕ) : ConsoleCall → Option AdminResponse
  | .sent tab' page' _ _ (.done response) =>
    if (tab', page') = (tab, page) then some response else none
  | _ => none

theorem consoleAnswer_some {tab page : ℕ} {call : ConsoleCall} {response : AdminResponse}
    (h : consoleAnswer tab page call = some response) :
    ∃ credentials req, call = .sent tab page credentials req (.done response) := by
  unfold consoleAnswer at h
  split at h
  · obtain ⟨hsame, heq⟩ := Option.ite_none_right_eq_some.mp h
    obtain ⟨rfl, rfl⟩ := Prod.mk.inj hsame
    obtain rfl := Option.some.inj heq
    exact ⟨_, _, rfl⟩
  · cases h

/-- What the first tab sends after the second sign-in is refused. -/
theorem stale_tab_refused_second :
    ∃ p q, (console plainConfig).machine.run (opened twoSessions) secondSignIn = some p ∧
      (console plainConfig).machine.run p firstTabAgain = some q ∧
      ∃ response, consoleAnswer 0 0 (q.locals 3) = some response ∧ passedCSRF response = false := by
  have hruns : ((console plainConfig).machine.run (opened twoSessions) secondSignIn).map
      (fun p => (p.shared.tabs 0 == { page := 0, csrfToken := lit "first" }) &&
        p.shared.jar.csrf == some (lit "second") &&
        (List.range 3).all (fun i => isOver (p.locals i)) &&
        ((console plainConfig).machine.run p firstTabAgain).any fun q =>
          (consoleAnswer 0 0 (q.locals 3)).isSome) = some true := by
    decide
  obtain ⟨p, hp, hall⟩ := Option.map_eq_some_iff.mp hruns
  simp only [Bool.and_eq_true, beq_iff_eq, List.all_eq_true, List.mem_range] at hall
  obtain ⟨⟨⟨htab, hjar⟩, hearly⟩, hany⟩ := hall
  obtain ⟨q, hq, hsome⟩ := (Option.any_eq_true ..).mp hany
  obtain ⟨response, hresponse⟩ := Option.isSome_iff_exists.mp hsome
  obtain ⟨credentials, req, hi⟩ := consoleAnswer_some hresponse
  have hover : ∀ i, isOver (p.locals i) := by
    intro i
    by_cases hi : i < 3
    · exact hearly i hi
    · have hidle := Process.locals_of_run (fun j => 3 ≤ j) (by decide) hp i (by omega)
      rw [hidle]
      rfl
  refine ⟨p, q, hp, hq, response, hresponse, ?_⟩
  refine stale_tab_refused hp ⟨?_, rfl⟩ ?_ ?_ ?_ ?_ ?_ ?_ hq 3 credentials req response hi
  · rw [htab]
  · rw [htab]
    decide
  · rw [htab]
    intro ct hct
    obtain rfl : lit "second" = ct := Option.some.inj (hjar.symm.trans hct)
    decide
  · intro i howner
    have hcall := hover i
    cases hlocal : p.locals i with
    | idle => simp [hlocal, owner] at howner
    | done => simp [hlocal, owner] at howner
    | _ => simp [hlocal, isOver] at hcall
  · intro i tab page navigates client hlocal
    have hcall := hover i
    simp [hlocal, isOver] at hcall
  · intro i navigates
    simp [firstTabAgain]
  · intro i user client now hmem
    simp [firstTabAgain] at hmem

end Purels.Properties
