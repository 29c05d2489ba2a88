import MathMarkup.Http.Message
import MathMarkup.Http.Target

/-!
# Routes

A route is a pattern of paths, with or without a method, and what answers there. Of the routes that
fit a request the most specific one answers: a name is more specific than a place holder, and that
is more specific than everything below a path. A route with a method goes before one without.
-/

namespace MathMarkup.Http

/-- One name of a pattern. -/
inductive Segment where
  | name (t : Text)
  /-- Any one name. -/
  | any
deriving DecidableEq, Repr

/-- A pattern of requests. -/
structure Pattern where
  method : Option Text := none
  segments : List Segment
  /-- Whether everything below the path is meant. -/
  below : Bool := false
  /-- The pattern as it is written. -/
  text : Text
deriving DecidableEq, Repr

namespace Pattern

/-- The pattern of a path; a name in braces stands for any name. -/
def ofPath (method : Option Text) (path : Text) : Pattern :=
  let names := Text.splitByte Path.slash (path.drop 1)
  let segment (t : Text) : Segment :=
    if t.head? == some (Text.byte '\x7b') && t.getLast? == some (Text.byte '\x7d') then .any
    else .name t
  { method
    segments := (names.filter fun n => !n.isEmpty).map segment
    below := names.getLast? == some []
    text := ((method.map fun (m : Text) => m ++ " ").getD []) ++ path }

/-- What stands for the place holders if the names of a path fit. -/
def fit : List Segment → Bool → List Text → Option (List Text)
  | [], below, ns => if below == ns.isEmpty then none else some []
  | .name t :: ss, below, n :: ns => if t == n then fit ss below ns else none
  | .any :: ss, below, n :: ns =>
    if n == [Path.slash] then none else (fit ss below ns).map (n :: ·)
  | _ :: _, _, [] => none

/-- How specific a pattern is, name by name; less is more. -/
def ranks (p : Pattern) : List Nat :=
  (p.segments.map fun
    | .name _ => 0
    | .any => 1) ++ (if p.below then [2] else [])

/-- Whether a pattern fits a path as it is, and not only something above it. -/
def isExact (p : Pattern) (path : Text) : Bool :=
  !p.below || (path.getLast? == some Path.slash
    && p.segments.length + 1 == path.count Path.slash)

end Pattern

/-- Routes to endpoints. -/
abbrev Routes (ε : Type) := List (Pattern × ε)

/-- What is found for a request. -/
inductive Found (ε : Type) where
  /-- An endpoint, the pattern and what stands for its place holders. -/
  | endpoint (e : ε) (pattern : Text) (captured : List Text)
  /-- The path has to be written differently. -/
  | elsewhere (location : Text) (pattern : Text)
  /-- The path is served with other methods. -/
  | otherMethods (allowed : List Text)
  | nothing

namespace Routes

variable {ε : Type}

/-- The most specific of the routes with a method, or without, that fit a path. -/
def best (rs : Routes ε) (method : Option Text) (path : Text) :
    Option (Pattern × ε × List Text) :=
  let fits := rs.filterMap fun (p, e) =>
    if p.method == method then
      (Pattern.fit p.segments p.below (pathNames path)).map fun cs => (p, e, cs)
    else none
  fits.foldl (fun (b : Option (Pattern × ε × List Text)) f =>
    match b with
    | none => some f
    | some g => if f.1.ranks < g.1.ranks then some f else some g) none

/-- The route for a method and a path. What is there to be read can also be asked about. -/
def match? (rs : Routes ε) (method path : Text) : Option (Pattern × ε × List Text) :=
  let read : Text := "GET"
  (rs.best (some method) path).orElse fun _ =>
    (if method == Text.ofString "HEAD" then rs.best (some read) path else none).orElse fun _ =>
      rs.best none path

/-- The methods with which a path is served. -/
def methods (rs : Routes ε) (path : Text) : List Text :=
  let paths := if path.getLast? == some Path.slash then [path] else [path, path ++ [Path.slash]]
  let known := (rs.filterMap fun r => r.1.method).filter fun m =>
    paths.any fun p => (rs.best (some m) p).isSome
  let known := if known.contains (Text.ofString "GET") then Text.ofString "HEAD" :: known else known
  (known.mergeSort fun a b => a ≤ b).eraseDups

/-- A path and a query as a target. -/
def target (path query : Text) : Text :=
  encodePath path ++ (if query.isEmpty then [] else Text.byte '?' :: query)

/-- What is found for a method, a path as it was sent and a query. -/
def find (rs : Routes ε) (method path query : Text) : Found ε :=
  let clean := cleanPath path
  let found := rs.match? method clean
  let below := clean ++ [Path.slash]
  let slashMissing :=
    !(found.any fun f => f.1.isExact clean) && clean.getLast? != some Path.slash
      && (rs.match? method below).any fun f => f.1.isExact below
  let pattern := ((found.map fun f => f.1.text).getD [])
  if slashMissing then
    .elsewhere (target below query) (((rs.match? method below).map fun f => f.1.text).getD [])
  else if clean != path then .elsewhere (target clean query) pattern
  else
    match found with
    | some (p, e, captured) => .endpoint e p.text captured
    | none =>
      match rs.methods clean with
      | [] => .nothing
      | ms => .otherMethods ms

/-- Whether no two routes have the same method and path, and all paths start with a slash. -/
def isSound (rs : Routes ε) : Bool :=
  let shapes := rs.map fun (p, _) => (p.method, p.segments, p.below)
  shapes.eraseDups.length == shapes.length

end Routes

/-! ## Answers without an endpoint -/

/-- A text in which what matters to HTML is written differently. -/
def htmlText (t : Text) : Text :=
  t.flatMap fun b =>
    if b == Text.byte '&' then "&amp;"
    else if b == Text.byte '<' then "&lt;"
    else if b == Text.byte '>' then "&gt;"
    else if b == Text.byte '"' then "&#34;"
    else if b == Text.byte '\'' then "&#39;"
    else [b]

/-- The answer that names another location; a page is for readers only. -/
def moved (method location : Text) : Response :=
  let reads := method == Text.ofString "GET"
  let r : Response := { status := 301, headers := [("Location", location)] }
  if reads || method == Text.ofString "HEAD" then
    { r.withHeader "Content-Type" "text/html; charset=utf-8" with
      body := Text.when reads
        ("<a href=\"" ++ htmlText location ++ "\">Moved Permanently</a>.\n\n") }
  else r

/-- The answer for a path that is served with other methods. -/
def methodNotAllowed (allowed : List Text) : Response :=
  (Response.plain 405 "Method Not Allowed").withHeader "Allow" (Text.join ", " allowed)

/-- The answer for a path that is not served. -/
def notFound : Response := .plain 404 "404 page not found"

end MathMarkup.Http
