/-
  Relayout/Url/Host.lean
  ======================
  **Which hosts a URL may name.**

  A host in brackets is an IPv6 address.  The host of a web address is a domain, unless its
  last label is a number, which makes it an IPv4 address; any other scheme takes a host as
  it stands, a few characters excepted.
-/
import Relayout.Text.Percent
import Relayout.Text.Split

namespace Relayout

/-- Why a text is not a URL. -/
inductive UrlError where
  | emptyHost
  | invalidDomain
  | invalidPort
  | invalidIpv4
  | invalidIpv6
  | invalidHostCharacter
  | relativeWithoutBase
  | relativeWithOpaqueBase
deriving DecidableEq, Repr

/-- The wording of an error. -/
def UrlError.message : UrlError → String
  | .emptyHost => "empty host"
  | .invalidDomain => "invalid international domain name"
  | .invalidPort => "invalid port number"
  | .invalidIpv4 => "invalid IPv4 address"
  | .invalidIpv6 => "invalid IPv6 address"
  | .invalidHostCharacter => "invalid domain character"
  | .relativeWithoutBase => "relative URL without a base"
  | .relativeWithOpaqueBase => "relative URL with a cannot-be-a-base base"

namespace Url

/-! ### Numbers and addresses -/

/-- The number that digits of a base spell, if all of them are digits of it. -/
def digits? (base : Nat) (cs : List Char) : Option Nat :=
  cs.foldlM (fun n c => do
    let d ← Text.hexValue? c
    if d < base then some (base * n + d) else none) 0

/-- A part of an IPv4 address: decimal, octal after `0`, or hexadecimal after `0x`. -/
def ipv4Part? : List Char → Option Nat
  | [] => none
  | '0' :: 'x' :: cs => digits? 16 cs
  | '0' :: 'X' :: cs => digits? 16 cs
  | '0' :: c :: cs => digits? 8 (c :: cs)
  | cs => digits? 10 cs

/-- The labels of a domain, without an empty one at its end. -/
def labels (domain : List Char) : List (List Char) :=
  let parts := Text.split '.' domain
  if parts.getLast? = some [] then parts.dropLast else parts

/-- Whether the last label of a domain is a number. -/
def endsInNumber (domain : List Char) : Bool :=
  match (labels domain).getLast? with
  | none => false
  | some last => (!last.isEmpty && last.all Char.isDigit) || (ipv4Part? last).isSome

/-- Whether the labels of a domain make an IPv4 address: at most four numbers, each but the
    last a byte, and the last filling the bytes that are left. -/
def isIpv4 (domain : List Char) : Bool :=
  let parts := labels domain
  match parts.mapM ipv4Part? with
  | none => false
  | some numbers =>
    match numbers.getLast? with
    | none => false
    | some last =>
      parts.length ≤ 4 && last < Nat.pow 256 (5 - parts.length) && numbers.dropLast.all (· ≤ 255)

/-- Four bytes in plain decimal, with dots between them. -/
def isDottedBytes (cs : List Char) : Bool :=
  let parts := Text.split '.' cs
  parts.length = 4 && parts.all (fun part =>
    !part.isEmpty && part.all Char.isDigit && (part.length = 1 || part.head? ≠ some '0') &&
    (digits? 10 part).any (· ≤ 255))

/-- How many of the eight groups of an IPv6 address a part of it gives; a dotted address may
    stand for the last two if the flag allows it. -/
def ipv6Groups? (dotted : Bool) : List (List Char) → Option Nat
  | [] => some 0
  | [last] =>
    if dotted && isDottedBytes last then some 2
    else if isGroup last then some 1
    else none
  | g :: gs => if isGroup g then (ipv6Groups? dotted gs).map (· + 1) else none
where
  /-- One to four hexadecimal digits. -/
  isGroup (g : List Char) : Bool :=
    !g.isEmpty && g.length ≤ 4 && g.all (fun c => (Text.hexValue? c).isSome)

/-- The text before and after the first double colon. -/
def splitDoubleColon : List Char → Option (List Char × List Char)
  | ':' :: ':' :: rest => some ([], rest)
  | c :: cs => (splitDoubleColon cs).map (fun r => (c :: r.1, r.2))
  | [] => none

/-- The groups between single colons. -/
def groups (cs : List Char) : List (List Char) :=
  if cs.isEmpty then [] else Text.split ':' cs

/-- An IPv6 address: eight groups, or fewer with a double colon for the missing ones. -/
def isIpv6 (cs : List Char) : Bool :=
  match splitDoubleColon cs with
  | none => ipv6Groups? true (groups cs) = some 8
  | some (before, after) =>
    match ipv6Groups? false (groups before), ipv6Groups? true (groups after) with
    | some a, some b => a + b ≤ 7
    | _, _ => false

/-! ### Hosts -/

/-- A host in brackets has to be an IPv6 address. -/
def checkBracketed (host : List Char) : Except UrlError Unit :=
  let inner := host.drop 1
  if inner.getLast? = some ']' && isIpv6 inner.dropLast then .ok () else .error .invalidIpv6

/-- A host that is taken as it stands. -/
def checkOpaqueHost (host : List Char) : Except UrlError Unit :=
  if host.head? = some '[' then checkBracketed host
  else if host.any (fun c => c.toNat = 0 || " #/:<>?@[\\]^|".toList.contains c) then
    .error .invalidHostCharacter
  else .ok ()

/-- A wide form of an ASCII character, or an ideographic full stop, as the plain character. -/
def narrow (c : Char) : Char :=
  if 0xFF01 ≤ c.toNat && c.toNat ≤ 0xFF5E then Char.ofNat (c.toNat - 0xFEE0)
  else if c.toNat = 0x3002 || c.toNat = 0xFF61 then '.'
  else c

/-- A character that no domain may have. -/
def isDenied (c : Char) : Bool :=
  c.toNat ≤ 0x20 || c.toNat = 0x7F || c = Text.replacement || "%#/:<>?@[\\]^|".toList.contains c

/-- The host of a web address: a domain after its percent escapes are decoded, or an
    address. -/
def checkDomain (host : List Char) : Except UrlError Unit :=
  if host.head? = some '[' then checkBracketed host
  else
    let domain := (Text.utf8Lossy none (Text.percentBytes host)).map narrow
    if domain.any isDenied then .error .invalidDomain
    else if domain.isEmpty then .error .emptyHost
    else if endsInNumber domain && !isIpv4 domain then .error .invalidIpv4
    else .ok ()

end Url

end Relayout
