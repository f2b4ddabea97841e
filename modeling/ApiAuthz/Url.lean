/-
The path of a URL. `path` takes the scheme, the authority, the query and the
fragment off. An authority is refused if its square brackets do not match, if
what they hold is no IPv6 address and no address of a future form, or if it has
characters that stand for one of the delimiters in compatibility form.

Control characters and blanks at the front, and tabs and line ends anywhere, are
taken out before anything else (`cleaned`). A scheme is letters, digits and three
signs up to the first colon, starting with an ASCII letter; what is none stays in the path
(`withoutScheme`). Only behind two slashes is there an authority, which goes up to
the next slash, question mark or number sign (`splitAuthority`). The query and the
fragment are cut off last, at their first signs (`cut`).

An address in brackets is checked by its groups and dots and not turned into one:
up to eight groups, a double colon at most once, and the last two groups may be
written as an address of four octets (`isIPv6`).
-/
import ApiAuthz.Fault

namespace ApiAuthz.Url

/-- The text before the first character that `p` holds of, and from there on. -/
def cut (p : Char → Bool) (cs : List Char) : List Char × List Char :=
  (cs.takeWhile fun c => !p c, cs.dropWhile fun c => !p c)

-- ==================================================== scheme

/-- What a scheme is made of behind its first letter. -/
def isSchemeChar (c : Char) : Bool := c.isAlphanum || c == '+' || c == '-' || c == '.'

/-- Leading controls and blanks are dropped, tabs and line ends everywhere. -/
def cleaned (cs : List Char) : List Char :=
  (cs.dropWhile fun c => c.toNat ≤ 0x20).filter fun c => c != '\t' && c != '\r' && c != '\n'

/-- The text behind the scheme, if there is one: a letter, then letters, digits
and `+ - .`, then a colon. -/
def withoutScheme (cs : List Char) : List Char :=
  match cut (· == ':') cs with
  | (c :: scheme, ':' :: rest) =>
    if c.isAlpha && scheme.all isSchemeChar then rest else cs
  | _ => cs

-- ==================================================== bracketed hosts

/-- Up to three digits, no zero in front, at most 255. -/
def isIPv4Octet (cs : List Char) : Bool :=
  !cs.isEmpty && cs.all Char.isDigit && cs.length ≤ 3 &&
    (cs.length == 1 || cs.head? != some '0') &&
    cs.foldl (fun n c => n * 10 + (c.toNat - '0'.toNat)) 0 ≤ 255

/-- Four numbers of at most 255 between dots. -/
def isIPv4 (cs : List Char) : Bool :=
  let parts := List.splitOn '.' cs
  parts.length == 4 && parts.all isIPv4Octet

/-- A hexadecimal digit, large or small. -/
def isHexDigit (c : Char) : Bool :=
  c.isDigit || ('a' ≤ c && c ≤ 'f') || ('A' ≤ c && c ≤ 'F')

/-- A group of an IPv6 address. -/
def isGroup (cs : List Char) : Bool := cs.all isHexDigit && cs.length ≤ 4 && !cs.isEmpty

/-- The groups of an IPv6 address with an IPv4 address at its end taken as two groups. -/
def ipv6Groups? (parts : List (List Char)) : Option (List (List Char)) :=
  match parts.getLast? with
  | some last =>
    if last.contains '.' then
      if isIPv4 last then some (parts.dropLast ++ [['0'], ['0']]) else none
    else some parts
  | none => none

/-- Eight groups, or fewer with one empty stretch standing for zeros. -/
def isIPv6Groups (parts : List (List Char)) : Bool :=
  let inner := (parts.drop 1).dropLast
  let firstEmpty := (parts.head?.getD []).isEmpty
  let lastEmpty := (parts.getLast?.getD []).isEmpty
  match (inner.filter List.isEmpty).length with
  | 0 => parts.length == 8 && parts.all isGroup
  | 1 =>
    let before := inner.takeWhile fun p => !p.isEmpty
    let after := (inner.dropWhile fun p => !p.isEmpty).drop 1
    let front := parts.take 1 ++ before
    let back := after ++ parts.drop (parts.length - 1)
    let frontOk := if firstEmpty then before.isEmpty else true
    let backOk := if lastEmpty then after.isEmpty else true
    let front := if firstEmpty then front.drop 1 else front
    let back := if lastEmpty then back.dropLast else back
    frontOk && backOk && front.length + back.length < 8 &&
      front.all isGroup && back.all isGroup
  | _ => false

/-- An IPv6 address, with a zone behind a percent sign or without. -/
def isIPv6 (cs : List Char) : Bool :=
  let (address, zone) := cut (· == '%') cs
  let zoneOk :=
    match zone with
    | [] => true
    | _ :: z => !z.isEmpty && !z.contains '%'
  let parts := List.splitOn ':' address
  zoneOk && 3 ≤ parts.length &&
    (match ipv6Groups? parts with
     | some groups => groups.length ≤ 9 && isIPv6Groups groups
     | none => false)

/-- A `v`, hexadecimal digits, a dot and something behind it. -/
def isFutureAddress (cs : List Char) : Bool :=
  match cut (fun c => !isHexDigit c) (cs.drop 1) with
  | (_ :: _, '.' :: _ :: _) => true
  | _ => false

/-- What stands between the brackets of an authority. -/
def checkHost (host : List Char) : Attempt Unit :=
  if host.head? = some 'v' then
    if isFutureAddress host then .ok () else .error (.malformed "IPvFuture address is invalid")
  else if isIPv6 host then .ok ()
  else if isIPv4 host then .error (.malformed "An IPv4 address cannot be in brackets")
  else
    .error (.malformed (Text.quoted (String.ofList host) ++
      " does not appear to be an IPv4 or IPv6 address"))

-- ==================================================== authority

/-- Characters whose compatibility form contains one of `/ ? # @ :`. -/
def hidesDelimiter (c : Char) : Bool :=
  [0x2047, 0x2048, 0x2049, 0x2100, 0x2101, 0x2105, 0x2106, 0x2a74, 0xfe13, 0xfe16, 0xfe55,
   0xfe56, 0xfe5f, 0xfe6b, 0xff03, 0xff0f, 0xff1a, 0xff1f, 0xff20].contains c.toNat

/-- The authority without the user, who ends at the last at sign. -/
def withoutUser (authority : List Char) : List Char :=
  (authority.reverse.takeWhile fun c => c != '@').reverse

/-- What is wrong with a host whose brackets do not stand around an address. -/
def invalidBrackets : Attempt Unit := .error (.malformed "Invalid IPv6 URL")

/-- An authority with both brackets somewhere: its host is an address in
brackets with nothing before them, and nothing behind but what a colon starts. -/
def checkBracketed (authority : List Char) : Attempt Unit :=
  let hostAndPort := withoutUser authority
  match cut (· == '[') hostAndPort with
  | (before, _ :: bracketed) =>
    if !before.isEmpty then invalidBrackets
    else
      match cut (· == ']') bracketed with
      | (host, _ :: ':' :: _) => checkHost host
      | (_, _ :: _ :: _) => invalidBrackets
      | (host, _) => checkHost host
  | _ => checkHost (hostAndPort.takeWhile fun c => c != ':')

/-- Brackets come in pairs and hold an address. -/
def checkBrackets (authority : List Char) : Attempt Unit :=
  match authority.contains '[', authority.contains ']' with
  | false, false => .ok ()
  | true, true => checkBracketed authority
  | _, _ => invalidBrackets

/-- The authority of a text that starts with two slashes, and what follows it. -/
def splitAuthority (cs : List Char) : List Char × List Char :=
  match cs with
  | '/' :: '/' :: rest => cut (fun c => c == '/' || c == '?' || c == '#') rest
  | _ => ([], cs)

/-- The path of a URL. -/
def path (url : String) : Attempt String := do
  let (authority, rest) := splitAuthority (withoutScheme (cleaned url.toList))
  checkBrackets authority
  if authority.any hidesDelimiter then
    .error (.malformed ("netloc '" ++ String.ofList authority ++
      "' contains invalid characters under NFKC normalization"))
  else
    return String.ofList (rest.takeWhile fun c => c != '#' && c != '?')

end ApiAuthz.Url
