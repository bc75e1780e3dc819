import SensorKit.Lib.Encoding

/-!
# Bearer tokens

The middleware takes the first authorization header of a request, decodes it byte by byte, and has an authenticator decide.
A bearer token is compared in constant time, by a function that refuses texts that are not ASCII.
-/

namespace SensorKit.Webapi

open Lib

def bearerPrefix : String := "Bearer "

def readMethods : List String := ["GET", "HEAD", "OPTIONS"]

def docPaths : List String := ["/openapi.json", "/docs", "/docs/oauth2-redirect", "/redoc"]

/-- `secrets.compare_digest` on texts. -/
def compareDigest (a b : String) : Except String Bool :=
  if Ascii a ∧ Ascii b then .ok (a = b)
  else .error "comparing strings with non-ASCII characters is not supported"

/-- Accepts requests presenting a shared bearer token. -/
structure BearerToken where
  token : String
  allowAnonymousRead : Bool
deriving DecidableEq, Repr

/-- The part of a scope that the middleware reads. Headers are byte pairs. -/
structure HttpScope where
  method : String
  path : String
  headers : List (List UInt8 × List UInt8)
deriving DecidableEq, Repr

inductive Scope where
  | http (scope : HttpScope)
  | other (type : String)
deriving DecidableEq, Repr

structure JSONResponse where
  detail : String
  statusCode : ℕ
  headers : List (String × String)
deriving DecidableEq, Repr

/-- What the middleware does with a request that it does not raise on. -/
inductive Handling where
  | forwarded
  | responded (response : JSONResponse)
deriving DecidableEq, Repr

namespace BearerToken

variable (authenticator : BearerToken)

/-- A read that needs no token. The schema and the documentation stay behind the token. -/
def Anonymous (method path : String) : Prop :=
  authenticator.allowAnonymousRead = true ∧ method ∈ readMethods ∧ path ∉ docPaths

instance (method path : String) : Decidable (authenticator.Anonymous method path) := inferInstanceAs (Decidable (_ ∧ _))

def authorize (method path : String) (authorization : Option String) : Except String Bool :=
  if authenticator.Anonymous method path then .ok true
  else
    match authorization with
    | none => .ok false
    | some authorization =>
      if bearerPrefix.toList <+: authorization.toList then
        compareDigest (String.ofList (authorization.toList.drop bearerPrefix.toList.length)) authenticator.token
      else .ok false

end BearerToken

/-- The value of the first authorization header. -/
def HttpScope.authorization (scope : HttpScope) : Option (List UInt8) :=
  (scope.headers.find? fun header => header.1 = encodeUtf8 "authorization").map Prod.snd

def notAuthenticated : JSONResponse where
  detail := "Not authenticated"
  statusCode := 401
  headers := [("WWW-Authenticate", "Bearer")]

/-- `AuthMiddleware.__call__`. -/
def authMiddleware (authenticator : BearerToken) : Scope → Except String Handling
  | .other _ => .ok .forwarded
  | .http scope => do
    let authorization := scope.authorization.map decodeLatin1
    if ← authenticator.authorize scope.method scope.path authorization then pure .forwarded
    else pure (.responded notAuthenticated)

/-! ## Tokens -/

/-- `str.isspace` of a character. -/
def isSpace (c : Char) : Bool :=
  c.toNat ∈ [0x85, 0xa0, 0x1680, 0x2028, 0x2029, 0x202f, 0x205f, 0x3000] ∨ (9 ≤ c.toNat ∧ c.toNat ≤ 13) ∨
    (28 ≤ c.toNat ∧ c.toNat ≤ 32) ∨ (0x2000 ≤ c.toNat ∧ c.toNat ≤ 0x200a)

/-- `str.strip`. -/
def strip (text : String) : String :=
  String.ofList (((text.toList.dropWhile isSpace).reverse.dropWhile isSpace).reverse)

inductive TokenSource where
  | env (name : String)
  | file (path : String)
deriving DecidableEq, Repr

/-- Require a shared bearer token. It has exactly one source. -/
structure TokenAuthConfig where
  source : TokenSource
  allowAnonymousRead : Bool := false
deriving DecidableEq, Repr

/-- What a source holds. A variable that is not set holds an empty text, and a file that cannot be read holds nothing. -/
def TokenSource.read (environ readText : String → Option String) : TokenSource → Option String
  | .env name => some ((environ name).getD "")
  | .file path => (readText path).map strip

def TokenSource.label : TokenSource → String
  | .env name => s!"env var '{name}'"
  | .file path => s!"token file {path}"

/-- Build the authenticator, reading the token from its configured source. -/
def TokenAuthConfig.createAuthenticator (environ readText : String → Option String) (config : TokenAuthConfig) :
    Except String BearerToken :=
  match config.source.read environ readText with
  | none => .error s!"cannot read web API {config.source.label}"
  | some token =>
    if token = "" then .error s!"web API {config.source.label} holds no token"
    else .ok { token, allowAnonymousRead := config.allowAnonymousRead }

variable {environ readText : String → Option String} {config : TokenAuthConfig} {authenticator : BearerToken}

/-! ## What is forwarded -/

/-- The request is handled: it is forwarded, or answered by the one response, and it is forwarded just if it is a read that
needs no token, or presents the token's bytes. -/
structure BearerToken.Exact (authenticator : BearerToken) (scope : HttpScope) (outcome : Except String Handling) : Prop where
  handled : outcome = .ok .forwarded ∨ outcome = .ok (.responded notAuthenticated)
  forwarded : outcome = .ok .forwarded ↔ authenticator.Anonymous scope.method scope.path ∨
    scope.authorization = some (encodeUtf8 bearerPrefix ++ encodeUtf8 authenticator.token)

/-- The request needs no comparison of tokens, or one of ASCII texts: what follows the prefix in its header, and the token. -/
def BearerToken.Comparable (authenticator : BearerToken) (scope : HttpScope) : Prop :=
  authenticator.Anonymous scope.method scope.path ∨
    ∀ credentials, scope.authorization = some (encodeUtf8 bearerPrefix ++ credentials) →
      (∀ byte ∈ credentials, byte.toNat < 128) ∧ Ascii authenticator.token

variable {scope : HttpScope} {header credentials : List UInt8}

theorem toList_bearerPrefix : bearerPrefix.toList = (encodeUtf8 bearerPrefix).map latin1 := by
  rw [← toList_decodeLatin1, decodeLatin1_encodeUtf8 (by decide)]

/-- A header is taken for bearer credentials just if its bytes are those of the prefix and some more. -/
theorem prefix_decodeLatin1 : bearerPrefix.toList <+: (decodeLatin1 header).toList ↔
    ∃ credentials, header = encodeUtf8 bearerPrefix ++ credentials := by
  rw [toList_bearerPrefix, toList_decodeLatin1, List.prefix_map_iff_of_injective fun _ _ => latin1_injective]
  exact exists_congr fun _ => eq_comm

theorem drop_prefix : String.ofList ((decodeLatin1 (encodeUtf8 bearerPrefix ++ credentials)).toList.drop
    bearerPrefix.toList.length) = decodeLatin1 credentials := by
  rw [toList_decodeLatin1, List.map_append, toList_bearerPrefix, List.drop_left]
  rfl

/-- The comparison that a request with bearer credentials comes to. -/
theorem authorize_credentials {method path : String} (named : ¬authenticator.Anonymous method path) :
    authenticator.authorize method path (some (decodeLatin1 (encodeUtf8 bearerPrefix ++ credentials))) =
      compareDigest (decodeLatin1 credentials) authenticator.token := by
  unfold BearerToken.authorize
  rw [if_neg named]
  dsimp only
  rw [if_pos (prefix_decodeLatin1.2 ⟨credentials, rfl⟩), drop_prefix]

theorem decodeLatin1_eq_iff {token : String} (ascii : Ascii token) :
    decodeLatin1 credentials = token ↔ credentials = encodeUtf8 token := by
  constructor
  · intro same
    exact decodeLatin1_injective (same.trans (decodeLatin1_encodeUtf8 ascii).symm)
  · rintro rfl
    exact decodeLatin1_encodeUtf8 ascii

/-- Every request is handled exactly, just if it needs no comparison of tokens or one of ASCII texts. -/
theorem exact_iff (authenticator : BearerToken) (scope : HttpScope) :
    authenticator.Exact scope (authMiddleware authenticator (.http scope)) ↔ authenticator.Comparable scope := by
  unfold authMiddleware
  dsimp only
  by_cases anonymous : authenticator.Anonymous scope.method scope.path
  · have authorized : authenticator.authorize scope.method scope.path (scope.authorization.map decodeLatin1) = .ok true :=
      if_pos anonymous
    rw [authorized]
    exact iff_of_true ⟨.inl rfl, iff_of_true rfl (.inl anonymous)⟩ (.inl anonymous)
  by_cases bearer : ∃ credentials, scope.authorization = some (encodeUtf8 bearerPrefix ++ credentials)
  · obtain ⟨credentials, presented⟩ := bearer
    have token : scope.authorization = some (encodeUtf8 bearerPrefix ++ encodeUtf8 authenticator.token) ↔
        credentials = encodeUtf8 authenticator.token := by
      rw [presented, Option.some_inj, List.append_cancel_left_eq]
    have comparable : authenticator.Comparable scope ↔
        Ascii (decodeLatin1 credentials) ∧ Ascii authenticator.token := by
      unfold BearerToken.Comparable
      rw [or_iff_right anonymous, presented, ascii_decodeLatin1]
      constructor
      · exact fun each => each credentials rfl
      · intro ascii other same
        rw [Option.some_inj, List.append_cancel_left_eq] at same
        exact same ▸ ascii
    rw [comparable, presented, Option.map_some, authorize_credentials anonymous]
    unfold compareDigest
    by_cases ascii : Ascii (decodeLatin1 credentials) ∧ Ascii authenticator.token
    · rw [if_pos ascii]
      refine iff_of_true ?_ ascii
      by_cases same : decodeLatin1 credentials = authenticator.token
      · rw [decide_eq_true same]
        exact ⟨.inl rfl, iff_of_true rfl (.inr (token.2 ((decodeLatin1_eq_iff ascii.2).1 same)))⟩
      · rw [decide_eq_false same]
        refine ⟨.inr rfl, iff_of_false (fun forwarded => by cases forwarded) ?_⟩
        rintro (read | bytes)
        · exact anonymous read
        · exact same ((decodeLatin1_eq_iff ascii.2).2 (token.1 bytes))
    · rw [if_neg ascii]
      refine iff_of_false (fun exact_ => ?_) ascii
      obtain raised | raised := exact_.handled <;> cases raised
  · have refused : authenticator.authorize scope.method scope.path (scope.authorization.map decodeLatin1) = .ok false := by
      unfold BearerToken.authorize
      rw [if_neg anonymous]
      cases header : scope.authorization with
      | none => rfl
      | some value =>
        rw [Option.map_some]
        dsimp only
        rw [if_neg]
        intro prefixed
        obtain ⟨credentials, rfl⟩ := prefix_decodeLatin1.1 prefixed
        exact bearer ⟨credentials, header⟩
    rw [refused]
    refine iff_of_true ⟨.inr rfl, iff_of_false (fun forwarded => by cases forwarded) ?_⟩ (.inr fun credentials presented => ?_)
    · rintro (read | bytes)
      · exact anonymous read
      · exact bearer ⟨_, bytes⟩
    · exact absurd ⟨credentials, presented⟩ bearer

/-- A token that is not ASCII, presented as its bytes. -/
theorem non_ascii_token_raises : ¬(BearerToken.mk "clé" false).Exact
    { method := "GET", path := "/entities", headers := [(encodeUtf8 "authorization", encodeUtf8 "Bearer clé")] }
    (authMiddleware ⟨"clé", false⟩ (.http
      { method := "GET", path := "/entities", headers := [(encodeUtf8 "authorization", encodeUtf8 "Bearer clé")] })) := by
  intro exact_
  have raised : authMiddleware ⟨"clé", false⟩ (.http
      { method := "GET", path := "/entities", headers := [(encodeUtf8 "authorization", encodeUtf8 "Bearer clé")] }) =
      .error "comparing strings with non-ASCII characters is not supported" := by
    decide +kernel
  obtain forwarded | responded := exact_.handled
  · rw [raised] at forwarded
    cases forwarded
  · rw [raised] at responded
    cases responded

end SensorKit.Webapi
