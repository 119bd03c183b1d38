import ShellSale.Endpoint.Host
import ShellSale.Endpoint.Path

/-!
# Endpoints

The address at which a node listens, as a URL. `Endpoint.read?` reads it as browsers do: blanks
around it and tabs and line ends in it do not count, letters of the scheme and the host become small
ones, dots in the path are followed, the usual number of the service is left out, and what cannot
stand in a part is percent-encoded.
-/

namespace ShellSale

/-- Who is addressed: a host, perhaps with the number of a service on it, and with the name and the
password of a user. -/
structure Authority where
  user : String := ""
  password : String := ""
  /-- The host, if it is known; addresses of files may have none. -/
  host : Option Host := none
  /-- The number of the service on the host, if it is not the usual one. -/
  service : Option Nat := none
deriving DecidableEq

/-- The path of an address. -/
inductive Route where
  | segments (l : List String)
  /-- Text that only the scheme understands. -/
  | plain (text : String)
deriving DecidableEq

/-- The address of a node. -/
structure Endpoint where
  scheme : String
  authority : Option Authority := none
  route : Route := .segments []
  query : Option String := none
  fragment : Option String := none
deriving DecidableEq

/-- How addresses of a scheme are made up. -/
inductive SchemeKind where
  /-- They always have a host, and a usual number for the service. -/
  | hosted (service : Nat)
  | file
  | other
deriving DecidableEq

namespace SchemeKind

/-- The kind of a scheme. -/
def ofScheme : String → SchemeKind
  | "ftp" => hosted 21
  | "http" | "ws" => hosted 80
  | "https" | "wss" => hosted 443
  | "file" => file
  | _ => other

/-- Whether a backslash counts as a slash, and the path is never empty. -/
def isSpecial (k : SchemeKind) : Bool :=
  k ≠ other

/-- Whether a character separates the parts of a path. -/
def isSlash (k : SchemeKind) (c : Char) : Bool :=
  c == '/' || (k.isSpecial && c == '\\')

/-- The pieces between the slashes of a path. -/
def pieces (k : SchemeKind) (path : List Char) : List (List Char) :=
  (path.map fun c => if k.isSlash c then '/' else c).splitOn '/'

end SchemeKind

namespace Authority

/-- The host and the service of an authority: a colon in brackets belongs to the host. -/
def splitService (inside : Bool) : List Char → List Char × Option (List Char)
  | [] => ([], none)
  | c :: rest =>
    if c = ':' ∧ !inside then ([], some rest)
    else
      let (host, service) := splitService (c = '[' || (inside && c ≠ ']')) rest
      (c :: host, service)

/-- What stands before the last `@`, if there is one, and behind it. -/
def splitUser (text : List Char) : Option (List Char) × List Char :=
  let host := (text.reverse.takeWhile (· ≠ '@')).reverse
  if host.length = text.length then (none, host)
  else (some (text.take (text.length - host.length - 1)), host)

/-- Reads the number of a service, which may be left out. The usual one is left out. -/
def service? (usual : Option Nat) (digits : List Char) : Option (Option Nat) :=
  if digits.all Char.isDigit then
    let n := digits.foldl (fun n c => n * 10 + (c.toNat - 48)) 0
    if 65535 < n then none
    else some (if digits.isEmpty || usual = some n then none else some n)
  else none

/-- Text in a user name or password. -/
def userinfo (text : List Char) : String :=
  String.ofList (Percent.encode Percent.userinfoSet text)

/-- Reads an authority with a host. The host may be missing where the scheme does not need one and
nothing else stands there. -/
def read? (kind : SchemeKind) (text : List Char) : Option Authority := do
  let (user, rest) := splitUser text
  let (host, service) := splitService false rest
  if host.isEmpty then
    if kind.isSpecial || user.isSome || service.isSome then none else some {}
  else
    let usual := match kind with
      | .hosted service => some service
      | _ => none
    let host ← if kind.isSpecial then Host.read? host else Host.readForeign? host
    let service ← service? usual (service.getD [])
    let user := user.getD []
    return {
      user := userinfo (user.takeWhile (· ≠ ':'))
      password := userinfo ((user.dropWhile (· ≠ ':')).drop 1)
      host, service }

/-- Reads the host of a file. A file on `localhost` needs none. -/
def readFile? (text : List Char) : Option Authority := do
  if text.isEmpty then some {}
  else
    let host ← Host.read? text
    return if host = .name "localhost" then {} else { host }

/-- The authority as it is written. -/
def written (a : Authority) : String :=
  let password := if a.password.isEmpty then "" else ":" ++ a.password
  let user := a.user ++ password
  (if user.isEmpty then "" else user ++ "@") ++ (a.host.map Host.written).getD "" ++
    (a.service.map fun n => ":" ++ toString n).getD ""

end Authority

namespace Route

/-- The route along pieces of a path. -/
def ofPieces (kind : SchemeKind) (pieces : List (List Char)) : Route :=
  .segments ((Path.ofPieces (kind = .file) pieces).map String.ofList)

/-- The route behind an authority. -/
def behind (kind : SchemeKind) (path : List Char) : Route :=
  match path with
  | [] => if kind.isSpecial then .segments [""] else .segments []
  | _ :: rest => ofPieces kind (kind.pieces rest)

/-- The route as it is written. -/
def written : Route → String
  | segments l => String.join (l.map ("/" ++ ·))
  | plain text => text

end Route

namespace Endpoint

/-- Text as it is read: no blanks or controls around it, no tabs or line ends in it. -/
def cleaned (text : String) : List Char :=
  let isBlank (c : Char) : Bool := c.toNat ≤ 0x20
  let trimmed := ((text.toList.dropWhile isBlank).reverse.dropWhile isBlank).reverse
  trimmed.filter fun c => c ≠ '\t' ∧ c ≠ '\n' ∧ c ≠ '\r'

/-- The scheme in small letters, and what follows its colon. -/
def splitScheme? (text : List Char) : Option (String × List Char) :=
  let (scheme, rest) := text.span (· ≠ ':')
  let isSchemeChar (c : Char) : Bool := c.isAlphanum || c == '+' || c == '-' || c == '.'
  match scheme, rest with
  | first :: _, _ :: rest =>
    if first.isAlpha && scheme.all isSchemeChar then
      some (String.ofList (scheme.map Char.toLower), rest)
    else none
  | _, _ => none

/-- The text before a mark, and the text behind it if the mark stands there. -/
def splitMark (mark : Char) (text : List Char) : List Char × Option (List Char) :=
  let (before, rest) := text.span (· ≠ mark)
  (before, if rest.isEmpty then none else some (rest.drop 1))

/-- Who is addressed and by which route, from what stands between the scheme and the query. -/
def place? (kind : SchemeKind) (text : List Char) : Option (Option Authority × Route) :=
  let slashes := (text.takeWhile kind.isSlash).length
  match kind with
  | .hosted _ => do
    let (authority, path) := (text.drop slashes).span fun c => !kind.isSlash c
    return (← Authority.read? kind authority, .behind kind path)
  | .file =>
    if slashes < 2 then
      some (some {}, .ofPieces kind (kind.pieces (text.drop slashes)))
    else do
      let (host, path) := (text.drop 2).span fun c => !kind.isSlash c
      if (Path.drive? host).isSome then
        return (some {}, .ofPieces kind (kind.pieces (text.drop 2)))
      else
        return (← Authority.readFile? host, .behind kind path)
  | .other =>
    match slashes with
    | 0 => some (none, .plain (String.ofList (Percent.encode [] text)))
    | 1 => some (none, .ofPieces kind (kind.pieces (text.drop 1)))
    | _ => do
      let (authority, path) := (text.drop 2).span fun c => !kind.isSlash c
      return (← Authority.read? kind authority, .behind kind path)

/-- Reads the address of a node. -/
def read? (text : String) : Option Endpoint := do
  let (scheme, rest) ← splitScheme? (cleaned text)
  let kind := SchemeKind.ofScheme scheme
  let (rest, fragment) := splitMark '#' rest
  let (rest, query) := splitMark '?' rest
  let (authority, route) ← place? kind rest
  let querySet := if kind.isSpecial then Percent.specialQuerySet else Percent.querySet
  let encoded (set text : List Char) : String := String.ofList (Percent.encode set text)
  return {
    scheme, authority, route
    query := query.map (encoded querySet)
    fragment := fragment.map (encoded Percent.fragmentSet) }

/-- The address as it is written. A path that starts with two slashes would be mistaken for an
authority without the dot in front of it. -/
def written (e : Endpoint) : String :=
  let route := e.route.written
  let start := match e.authority with
    | some a => "//" ++ a.written
    | none => if route.startsWith "//" then "/." else ""
  e.scheme ++ ":" ++ start ++ route ++ (e.query.map ("?" ++ ·)).getD "" ++
    (e.fragment.map ("#" ++ ·)).getD ""

end Endpoint

end ShellSale
