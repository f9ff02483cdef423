import MemSandbox.Network.Hostnames
import MemSandbox.Lib.Separators

/-! # `urllib.parse`

    What the standard library does with a URL, as its documentation and the
    code behind it have it: `urlsplit` with the properties of its result, and
    `quote`.  The rest of the library is still a parameter, and so is the
    compatibility normalisation that guards the authority. -/

open Python

namespace UrlParse

/-! ## Section 1: Cutting -/

/-- `text.partition(sep)`; the middle part is whether the separator occurs. -/
def partitionAt (sep : CodePoint) (t : Text) : Text × Bool × Text :=
  match partition [sep] t with
  | some (before, after) => (before, true, after)
  | none => (t, false, [])

/-- `text.rpartition(sep)`. -/
def rpartitionAt (sep : CodePoint) (t : Text) : Text × Bool × Text :=
  match partition [sep] t.reverse with
  | some (after, before) => (before.reverse, true, after.reverse)
  | none => ([], false, t)

theorem partitionAt_of_not_mem {sep : CodePoint} {t : Text} (h : sep ∉ t) :
    partitionAt sep t = (t, false, []) := by
  unfold partitionAt
  rw [partition_none_of_not_mem h]

theorem partitionAt_append {sep : CodePoint} {before : Text} (h : sep ∉ before) (after : Text) :
    partitionAt sep (before ++ sep :: after) = (before, true, after) := by
  have hparts : partition [sep] (before ++ sep :: after) = some (before, after) :=
    partition_of_not_mem h after
  unfold partitionAt
  rw [hparts]

theorem rpartitionAt_of_not_mem {sep : CodePoint} {t : Text} (h : sep ∉ t) :
    rpartitionAt sep t = ([], false, t) := by
  unfold rpartitionAt
  rw [partition_none_of_not_mem (fun hmem => h (List.mem_reverse.mp hmem))]

/-! ## Section 2: `urlsplit` -/

/-- A character of a scheme. -/
def isSchemeCharacter (c : CodePoint) : Bool := isAlphanumeric c || c ∈ py "+-."

/-- A letter of ASCII. -/
def isAsciiAlpha (c : CodePoint) : Bool :=
  (0x41 ≤ c.val && c.val ≤ 0x5A) || (0x61 ≤ c.val && c.val ≤ 0x7A)

/-- The scheme, in lower case, and what follows it. -/
def splitScheme (url : Text) : Text × Text :=
  match partitionAt (CodePoint.ofChar ':') url with
  | (scheme, true, rest) =>
    if scheme.head?.any isAsciiAlpha && scheme.all isSchemeCharacter then
      (scheme.map lowerAscii, rest)
    else
      ([], url)
  | (_, false, _) => ([], url)

def isAuthorityEnd (c : CodePoint) : Bool := c ∈ py "/?#"

/-- `_splitnetloc`, behind the two slashes. -/
def splitNetloc (url : Text) : Text × Text :=
  if startsWith url (py "//") then
    ((url.drop 2).takeWhile (!isAuthorityEnd ·), (url.drop 2).dropWhile (!isAuthorityEnd ·))
  else
    ([], url)

/-- The characters of an `IPvFuture` address behind its `v`. -/
def isFutureAddress (t : Text) : Bool :=
  let digits := t.takeWhile (· ∈ py "0123456789abcdefABCDEF")
  match t.drop digits.length with
  | dot :: rest => digits ≠ [] && dot = CodePoint.ofChar '.' && rest ≠ []
  | [] => false

section Library

variable [NetworkLibrary]

/-- `_check_bracketed_host`. -/
def checkBracketedHost (hostname : Text) : Bool :=
  if startsWith hostname (py "v") then
    isFutureAddress (hostname.drop 1)
  else
    match ipAddress hostname with
    | some (.v6 _) => true
    | _ => false

/-- `_check_bracketed_netloc`. -/
def checkBracketedNetloc (netloc : Text) : Bool :=
  let (_, _, hostnameAndPort) := rpartitionAt (CodePoint.ofChar '@') netloc
  match partitionAt (CodePoint.ofChar '[') hostnameAndPort with
  | (beforeBracket, true, bracketed) =>
    let (hostname, _, port) := partitionAt (CodePoint.ofChar ']') bracketed
    beforeBracket = [] && (port = [] || startsWith port (py ":")) && checkBracketedHost hostname
  | (_, false, _) =>
    checkBracketedHost (partitionAt (CodePoint.ofChar ':') hostnameAndPort).1

/-- The checks of the brackets in a netloc. -/
def checkBrackets (netloc : Text) : Bool :=
  match decide (CodePoint.ofChar '[' ∈ netloc), decide (CodePoint.ofChar ']' ∈ netloc) with
  | true, true => checkBracketedNetloc netloc
  | false, false => true
  | _, _ => false

/-- `_checknetloc`; `nfkc` is `normalize("NFKC", …)`. -/
def checkNetloc (nfkc : Text → Text) (netloc : Text) : Bool :=
  let n := netloc.filter (· ∉ py "@:#?")
  isAscii netloc || nfkc n = n || !(nfkc n).any (· ∈ py "/?#@:")

/-- The host and the port of a netloc, empty where there is none. -/
def hostAndPort (netloc : Text) : Text × Text :=
  let (_, _, hostinfo) := rpartitionAt (CodePoint.ofChar '@') netloc
  match partitionAt (CodePoint.ofChar '[') hostinfo with
  | (_, true, bracketed) =>
    let (hostname, _, port) := partitionAt (CodePoint.ofChar ']') bracketed
    (hostname, (partitionAt (CodePoint.ofChar ':') port).2.2)
  | (_, false, _) =>
    let (hostname, _, port) := partitionAt (CodePoint.ofChar ':') hostinfo
    (hostname, port)

/-- `_hostinfo`. -/
def hostinfo (netloc : Text) : Text × Option Text :=
  let (hostname, port) := hostAndPort netloc
  (hostname, if port = [] then none else some port)

/-- `_userinfo`. -/
def userinfo (netloc : Text) : Option Text × Option Text :=
  match rpartitionAt (CodePoint.ofChar '@') netloc with
  | (userinfo, true, _) =>
    match partitionAt (CodePoint.ofChar ':') userinfo with
    | (username, true, password) => (some username, some password)
    | (username, false, _) => (some username, none)
  | (_, false, _) => (none, none)

/-- The property `hostname`; a zone keeps its case. -/
def hostnameOf (netloc : Text) : Option Text :=
  match (hostinfo netloc).1 with
  | [] => none
  | host =>
    match partitionAt (CodePoint.ofChar '%') host with
    | (hostname, true, zone) => some (lower hostname ++ py "%" ++ zone)
    | (hostname, false, _) => some (lower hostname)

/-- The property `port`; `none` for `ValueError`. -/
def portOf (netloc : Text) : Option (Option Nat) :=
  match (hostinfo netloc).2 with
  | none => some none
  | some port =>
    if (port.all fun c => 0x30 ≤ c.val && c.val ≤ 0x39) && port.length ≤ 4300 then
      let n := port.foldl (fun n c => 10 * n + (c.val - 0x30)) 0
      if n ≤ 65535 then some (some n) else none
    else
      none

/-- `urlsplit(url)`, with the properties of its result; `none` for `ValueError`. -/
def urlsplit (nfkc : Text → Text) (url : Text) : Option SplitResult :=
  let url := (url.dropWhile fun c => c.val ≤ 0x20).filter (· ∉ py "\t\r\n")
  let (scheme, url) := splitScheme url
  let (netloc, url) := splitNetloc url
  let (url, _, _) := partitionAt (CodePoint.ofChar '#') url
  let (path, _, query) := partitionAt (CodePoint.ofChar '?') url
  if checkBrackets netloc && checkNetloc nfkc netloc then
    (portOf netloc).map fun port => {
      scheme, netloc, path, query, port
      username := (userinfo netloc).1
      password := (userinfo netloc).2
      hostname := hostnameOf netloc }
  else
    none

end Library

/-! ## Section 3: `quote` -/

/-- A character that is never quoted. -/
def isAlwaysSafe (c : CodePoint) : Bool := isAlphanumeric c || c ∈ py "_.-~"

/-- One digit of `{:02X}`. -/
def upperHexDigit (n : Nat) : CodePoint := (py "0123456789ABCDEF").getD n 0

/-- What `quote` writes for one byte. -/
def quoteByte (safe : Text) (b : Byte) : Text :=
  let c := CodePoint.ofByte b
  if isAlwaysSafe c || (b.val < 128 && c ∈ safe) then [c]
  else [CodePoint.ofChar '%', upperHexDigit (b.val / 16), upperHexDigit (b.val % 16)]

/-- `quote(value, safe=safe)`; `none` for `UnicodeError`. -/
def quote (value safe : Text) : Option Text :=
  (encodeUtf8 value).map fun bytes => bytes.flatMap (quoteByte safe)

end UrlParse
