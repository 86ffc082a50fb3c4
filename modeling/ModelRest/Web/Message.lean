import ModelRest.Error
import ModelRest.Web.Uri
import ModelRest.Json.Reader

/-!
# Requests and responses

What comes in and what goes out. A body of blanks counts as no body, and so as null. An error of a
request is answered by an object that names the kind of the error and says what is wrong.
-/

namespace ModelRest.Web

/-- A request as it comes in. -/
structure Incoming where
  /-- The verb. -/
  verb : String
  /-- The path, as it is written. -/
  path : List Char
  /-- The query, as it is written. -/
  query : List Char := []
  /-- The header fields, by name in lower case. -/
  headers : KeyMap String := []
  /-- The body. -/
  body : String := ""
deriving Inhabited

/-- The request for a locator. -/
def Incoming.ofUri (verb uri : String) (headers : KeyMap String) (body : String) : Incoming :=
  let (path, query) := splitUri uri.toList
  { verb := verb, path := path, query := query, headers := headers, body := body }

/-- The body of a response. -/
inductive Body where
  /-- There is none. -/
  | empty
  /-- A JSON value. -/
  | json (v : Json)
  /-- Plain text. -/
  | text (s : String)
deriving Inhabited

/-- How many bytes a body has. -/
def Body.size : Body → Nat
  | .empty => 0
  | .json v => v.render.utf8ByteSize
  | .text s => s.utf8ByteSize

/-- A response. -/
structure Response where
  /-- The number that says how it went. -/
  status : Nat
  /-- The body. -/
  body : Body := .empty
  /-- The header fields, by name in lower case. -/
  headers : KeyMap String := []
deriving Inhabited

namespace Response

/-- The response with one more header field. -/
def withHeader (r : Response) (name value : String) : Response :=
  { r with headers := KeyMap.insert r.headers name value }

/-- The response without its body. -/
def withoutBody (r : Response) : Response := { r with body := .empty }

/-- The response as it is sent: with the size of its body, and without the body if the request was
for the header fields alone. -/
def sentFor (verb : String) (r : Response) : Response :=
  let r := r.withHeader "content-length" (toString r.body.size)
  if verb = "HEAD" then r.withoutBody else r

/-- The header field that says what kind of body there is. -/
def contentTypeHeader : String := "content-type"

/-- The response with a JSON value as its body. -/
def ofJson (status : Nat) (v : Json) : Response where
  status := status
  body := .json v
  headers := [(contentTypeHeader, "application/json")]

/-- The response with plain text as its body. -/
def ofText (status : Nat) (text : String) : Response where
  status := status
  body := .text text
  headers := [(contentTypeHeader, "text/plain; charset=utf-8")]

/-- The kind of an error of a request, as the client sees it. -/
def kindOf : RequestError → Nat × String
  | .notFound _ => (404, "not_found")
  | .badRequest _ => (400, "bad_request")
  | .validation _ => (422, "validation_failed")
  | .internal _ => (500, "internal_error")
  | .crashed => (500, "internal_error")

/-- What the client is told about an error of a request. -/
def textOf : RequestError → String
  | .notFound text => text
  | .badRequest text => text
  | .validation diagnoses => Diagnosis.summary diagnoses
  | .internal text => text
  | .crashed => ""

/-- The response to a request that went wrong. -/
def ofError (e : RequestError) : Response :=
  let (status, kind) := kindOf e
  let members := [("error", Json.string kind), ("message", .string (textOf e))]
  let diagnoses :=
    match e with
    | .validation diagnoses => [("diagnoses", Json.array (diagnoses.map Diagnosis.toJson))]
    | _ => []
  .ofJson status (.ofMembers (members ++ diagnoses))

end Response

/-- The character is blank in a body. -/
def isBodyBlank (c : Char) : Bool :=
  c = ' ' || c = '\t' || c = '\n' || c = '\x0c' || c = '\r'

/-- The value of a body. -/
def decodeBody (body : String) : Except RequestError Json :=
  if body.toList.all isBodyBlank then .ok .null
  else
    match Json.parse? body with
    | some v => .ok v
    | none => .error (.badRequest ("invalid JSON body: " ++ malformedJson))

end ModelRest.Web
