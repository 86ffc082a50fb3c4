import ModelRest.Web.Endpoint

/-!
# Routers

A router serves the routes of several models below a path, and perhaps one that says whether the
server is well. It looks for the path first and for the verb then: no path is answered by 404, no
verb by 405. A request for the header fields alone is served as if the body were asked for, and the
body is left out. The layers around what is served answer questions about other origins, turn code
that broke off into a response, and send the identifier of a request back. Whatever else answers for
a path under which a verb is not served, the answer names the verbs that are. An answer for a path
that is served carries the size of its body; one for any other path has no body and no size.
-/

namespace ModelRest.Web

/-- What a router serves. -/
inductive Served where
  /-- A route of a model. -/
  | model (route : ModelRoute)
  /-- Whether the server is well. -/
  | health
deriving Inhabited

/-- The routes that are served. -/
abbrev Router := List (BoundRoute Served)

/-- A reply: a response, or none when the code that was to make it broke off. -/
abbrev Reply := Option Response

namespace Router

/-- The router of the routes of a table, below a path. -/
def ofTable (mount : String) (t : RouteTable ModelRoute) : Router :=
  t.routes.map fun r =>
    ({ verb := r.verb, path := r.path, serves := Served.model r.serves } : BoundRoute Served).below
      mount

/-- The router with the route that says whether the server is well. -/
def withHealth (router : Router) : Router :=
  router ++ [{ verb := "GET", path := "/health", serves := .health }]

/-- The router tells how the server is, and so keeps the registry of its models. -/
def keepsRegistry (router : Router) : Bool := router.any fun b => b.serves matches .health

/-- What is said about a server that is well. -/
def health (r : Registry) : Response :=
  .ofJson 200 (.ofMembers [("state", .string "ready"), ("models", .number (.natural r.size))])

/-- Answers a request with what a route serves. -/
def serveRoute (r : Registry) (served : Served) (taken : Taken) (req : Incoming) :
    HandleM Response :=
  match served with
  | .health => pure (health r)
  | .model route =>
    match r.made[route.factory]? with
    | some f => handle r f taken req route.endpoint
    | none => throw (.answered { status := 404 })

/-- The verb under which a request is served. -/
def servedVerb (verb : String) : String := if verb = "HEAD" then "GET" else verb

/-- How a verb is allowed: where a body may be asked for, so may the header fields alone. -/
def allowedVerb (verb : String) : String := if verb = "GET" then "GET,HEAD" else verb

/-- The verbs under which a path is served, in the order they were bound. -/
def allowedVerbs (router : Router) (path : String) : String :=
  String.intercalate "," ((router.filter (·.path == path)).map fun b => allowedVerb b.verb)

/-- The response with the verbs under which a path is served. -/
def allowing (router : Router) (path : String) (r : Response) : Response :=
  r.withHeader "allow" (router.allowedVerbs path)

/-- Answers a request for a path that is one of the router's. -/
def answer (r : Registry) (router : Router) (found : Candidate) (req : Incoming) :
    HandleM Response :=
  let candidates := router.filter fun b =>
    b.path == found.path && b.verb == servedVerb req.verb
  match candidates with
  | [] => pure (router.allowing found.path { status := 405 })
  | route :: _ => serveRoute r route.serves found.taken req

/-- Answers a request for a path that is one of the router's, or breaks off. -/
def reply (r : Registry) (router : Router) (found : Candidate) (req : Incoming) (store : Store) :
    Reply × Store :=
  match answer r router found req store with
  | .ok response store => (some response, store)
  | .error (.answered response) store => (some response, store)
  | .error .crashed store => (none, store)

/-- The response for a path that is none of the router's. -/
def unrouted : Response := { status := 404 }

/-- Serves a request. -/
def serve (r : Registry) (router : Router) (req : Incoming) (store : Store) : Reply × Store :=
  match BoundRoute.pathFor router req.path with
  | none => (some unrouted, store)
  | some found =>
    let (reply, store) := router.reply r found req store
    (reply.map (Response.sentFor req.verb), store)

end Router

/-! ### Layers -/

namespace Layers

/-- The header field in which a request is identified. -/
def requestIdHeader : String := "x-request-id"

/-- The character may stand in a header field. -/
def isHeaderChar (c : Char) : Bool := c = '\t' || (0x20 ≤ c.toNat && c.toNat ≠ 0x7F)

/-- The text may be the value of a header field. -/
def isHeaderValue (text : String) : Bool := text.toList.all isHeaderChar

/-- The origin that a response allows: any, or that of the request if it is listed. -/
def allowedOrigin (origins : List String) (req : Incoming) : Option String :=
  if origins.contains "*" then some "*"
  else
    match KeyMap.get? req.headers "origin" with
    | some origin => if (origins.filter isHeaderValue).contains origin then some origin else none
    | none => none

/-- The response with the origin that it allows. -/
def allowOrigin (origins : List String) (req : Incoming) (response : Response) : Response :=
  let response := response.withHeader "vary"
    "origin, access-control-request-method, access-control-request-headers"
  match allowedOrigin origins req with
  | some origin => response.withHeader "access-control-allow-origin" origin
  | none => response

/-- The answer to the question what requests from other origins may do. -/
def preflight (origins : List String) (req : Incoming) : Response :=
  ((allowOrigin origins req { status := 200 }).withHeader "access-control-allow-methods"
    "GET,POST,PUT,PATCH,DELETE").withHeader "access-control-allow-headers" "*"

/-- The response in place of one whose making broke off. -/
def recovered : Response := .ofText 500 "Service panicked"

/-- The response with the identifier of the request. -/
def identify (req : Incoming) (response : Response) : Response :=
  match KeyMap.get? req.headers requestIdHeader with
  | some id => response.withHeader requestIdHeader id
  | none => response

/-- Answers a request for a path that is one of the router's, within the layers. -/
def answer (origins : List String) (r : Registry) (router : Router) (found : Candidate)
    (req : Incoming) (store : Store) : Response × Store :=
  if req.verb = "OPTIONS" then (router.allowing found.path (preflight origins req), store)
  else
    let (reply, store) := router.reply r found req store
    ((reply.map (allowOrigin origins req)).getD recovered, store)

/-- The response for a path that is none of the router's, within the layers. -/
def unrouted (origins : List String) (req : Incoming) : Response :=
  if req.verb = "OPTIONS" then preflight origins req else allowOrigin origins req Router.unrouted

/-- Serves a request within the layers. -/
def serve (origins : List String) (r : Registry) (router : Router) (req : Incoming)
    (store : Store) : Response × Store :=
  match BoundRoute.pathFor router req.path with
  | none => (identify req (unrouted origins req), store)
  | some found =>
    let (response, store) := answer origins r router found req store
    ((identify req response).sentFor req.verb, store)

end Layers

end ModelRest.Web
