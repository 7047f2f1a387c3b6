import Psrt.Server.Operations

/-! The pages of the stats server: `stats::handler` of `server.rs`. -/

namespace Psrt.Stats
open Wire Interaction

inductive Method where
  | get | head | post | put | delete | connect | options | trace | patch
  | extension (name : Str)
  deriving DecidableEq, Repr

structure HttpRequest where
  method : Method
  path : String
  /-- The value of the first `authorization` header. -/
  authorization : Option Bytes
  deriving DecidableEq, Repr

/-- The three pages; `status` is the JSON of `get_status`. -/
inductive Page where
  | status | chart | index
  deriving DecidableEq, Repr

inductive Body where
  | empty
  | text (content : String)
  | page (page : Page)
  deriving DecidableEq, Repr

structure HttpResponse where
  status : Nat
  headers : List (String × String)
  body : Body
  deriving DecidableEq, Repr

def httpError (status : Nat) : HttpResponse := ⟨status, [], .empty⟩

def response (code : Nat) (content : String) : HttpResponse := ⟨code, [], .text content⟩

def unauthorized : HttpResponse := ⟨401, [("www-authenticate", "Basic realm=\"?\"")], .empty⟩

/-- `HeaderValue::to_str`: visible ASCII and tabs. -/
def toStr (value : Bytes) : Option Str :=
  if value.all fun b => (32 ≤ b && b < 127) || b == 9 then
    some (value.map fun b => Char.ofNat b.toNat)
  else none

def isBasic (scheme : Str) : Bool := scheme.map Char.toLower == ['b', 'a', 's', 'i', 'c']

abbrev Base64 := Str → Except String Bytes

/-- The login and the password of a Basic header. -/
def basicParams (base64 : Base64) (params : Str) : Except HttpResponse (Option (Str × Str)) :=
  match base64 params with
  | .error e => .error (response 400 s!"Unable to decode credentials: {e}")
  | .ok v =>
    match fromUtf8 v with
    | none => .error (response 400 "Unable to parse credentials string: invalid utf-8 sequence")
    | some s =>
      match splitFirst ':' s with
      | (username, some password) => .ok (some (username, password))
      | (_, none) =>
        .error (response 400 "Basic authorization error: password not specified")

def credentials (base64 : Base64) (request : HttpRequest) :
    Except HttpResponse (Option (Str × Str)) :=
  match request.authorization with
  | none => .ok none
  | some authorization =>
    match toStr authorization with
    | none => .error (response 400 "Unable to decode authorization header")
    | some auth =>
      match splitFirst ' ' auth with
      | (_, none) => .error (response 400 "Invalid authorization header")
      | (scheme, some params) => if isBasic scheme then basicParams base64 params else .ok none

def authorize : Option (Str × Str) → ServerProg Empty Bool
  | some (login, password) => do
    let verified ← perform (.authenticate login password)
    if verified then do
      let acl ← perform (.getAcl login)
      .ret (acl.any Acl.isAdmin)
    else .ret false
  | none => do
    let acl ← perform (.getAcl ['_'])
    .ret (acl.any Acl.isAdmin)

def pageAt (path : String) : Option (Page × String) :=
  if path = "/status" then some (.status, "application/json")
  else if path = "/chart.min.js" then some (.chart, "application/javascript; charset=utf-8")
  else if path = "/" then some (.index, "text/html; charset=utf-8")
  else none

def serve (path : String) : HttpResponse :=
  match pageAt path with
  | some (page, contentType) => ⟨200, [("content-type", contentType)], .page page⟩
  | none => httpError 404

def handler (base64 : Base64) (request : HttpRequest) : ServerProg Empty HttpResponse :=
  if request.method = .get then
    match credentials base64 request with
    | .error r => .ret r
    | .ok creds => do
      let authorized ← authorize creds
      .ret (if authorized then serve request.path else unauthorized)
  else .ret (httpError 405)

end Psrt.Stats
