import ShellSale.Endpoint.Ipv4
import ShellSale.Endpoint.Ipv6
import ShellSale.Endpoint.Percent
import ShellSale.Endpoint.Punycode
import ShellSale.Text.Lowercase

/-!
# Hosts

The host of an address is a domain name, an IP address, or a name that only its scheme understands.
Domain names are lower-cased and written in ASCII.
-/

namespace ShellSale

/-- The host of an address. -/
inductive Host where
  | name (text : String)
  | v4 (address : List UInt8)
  | v6 (groups : List Nat)
deriving DecidableEq

namespace Host

/-- The characters that end a host or would be mistaken for its end. -/
def forbidden : List Char :=
  ['\x00', '\t', '\n', '\r', ' ', '#', '/', ':', '<', '>', '?', '@', '[', '\\', ']', '^', '|']

/-- Whether a character can stand in a domain name. -/
def isDomainChar (c : Char) : Bool :=
  !Percent.isForeign c && c != '%' && !forbidden.contains c

/-- The full stops of other scripts separate labels too. -/
def fullStop (c : Char) : Char :=
  if c = '\u3002' ∨ c = '\uff0e' ∨ c = '\uff61' then '.' else c

/-- A label that is lower-cased already, in ASCII. A label that looks as if it were written in ASCII
already has to be. -/
def label? (label : List Char) : Option (List Char) :=
  match ['x', 'n', '-', '-'].isPrefixOf? label with
  | some rest => do
    let decoded ← Punycode.decode? rest
    if decoded.all fun c => c.toNat < 128 then none else some label
  | none =>
    if label.all fun c => c.toNat < 128 then some label
    else some ('x' :: 'n' :: '-' :: '-' :: Punycode.encode label)

/-- A domain name in ASCII. -/
def domain? (text : String) : Option (List Char) := do
  let labels := ((text.toList.flatMap Text.lowercase).map fullStop).splitOn '.'
  let labels ← labels.mapM label?
  let name := ['.'].intercalate labels
  if name.all isDomainChar then some name else none

/-- An address in brackets, without the first of them. -/
def bracketed? (text : List Char) : Option Host :=
  if text.getLast? = some ']' then (Ipv6.read? text.dropLast).map v6 else none

/-- Reads a host that is a domain name or an IP address. -/
def read? : List Char → Option Host
  | '[' :: rest => bracketed? rest
  | text => do
    let text ← String.fromUTF8? ⟨(Percent.decode text).toArray⟩
    let name ← domain? text
    if name.isEmpty then none
    else if Ipv4.isMeant name then (Ipv4.read? name).map v4
    else some (.name (String.ofList name))

/-- Reads a host that only its scheme understands. It may be empty. -/
def readForeign? : List Char → Option Host
  | '[' :: rest => bracketed? rest
  | text =>
    if text.any forbidden.contains then none
    else some (.name (String.ofList (Percent.encode [] text)))

/-- The host as it is written. -/
def written : Host → String
  | name text => text
  | v4 address => Ipv4.written address
  | v6 groups => "[" ++ Ipv6.written groups ++ "]"

end Host

end ShellSale
