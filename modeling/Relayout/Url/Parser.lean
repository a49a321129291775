/-
  Relayout/Url/Parser.lean
  ========================
  **Telling URLs from other text, and resolving references against a base.**

  Of a URL only that is kept on which the reading of a reference relative to it depends: its
  scheme, and whether it has a hierarchical path at all.

  The program's validator reads identities and references in this way, and the format `uri`.
-/
import Relayout.Url.Host

namespace Relayout

/-- A URL, as far as references relative to it are concerned. -/
structure Url where
  scheme : String
  /-- The path does not begin with a slash, so that only fragments are relative to it. -/
  opaquePath : Bool
deriving DecidableEq, Repr

namespace Url

/-- The schemes of web addresses and files. -/
def isSpecial (scheme : String) : Bool :=
  ["http", "https", "ws", "wss", "ftp", "file"].contains scheme

/-- Control characters and the space. -/
def isControlOrSpace (c : Char) : Bool := c.toNat ≤ 0x20

/-- A text without controls and spaces at its ends, and without tabs and line ends. -/
def tidy (text : String) : List Char :=
  let cs := text.toList.dropWhile isControlOrSpace
  let cs := (cs.reverse.dropWhile isControlOrSpace).reverse
  cs.filter (fun c => c ≠ '\t' && c ≠ '\n' && c ≠ '\r')

/-- An ASCII letter. -/
def isLetter (c : Char) : Bool := ('a' ≤ c && c ≤ 'z') || ('A' ≤ c && c ≤ 'Z')

/-- The scheme at the start of a text, in lower case, and the text after its colon. -/
def scheme? (cs : List Char) : Option (String × List Char) :=
  if !(cs.head?.any isLetter) then none
  else
    let name := cs.takeWhile (fun c => isLetter c || c.isDigit || c = '+' || c = '-' || c = '.')
    match cs.drop name.length with
    | ':' :: rest => some (String.ofList (name.map Char.toLower), rest)
    | _ => none

/-- Whether a character ends the authority of a URL. -/
def endsAuthority (special : Bool) (c : Char) : Bool :=
  c = '/' || c = '?' || c = '#' || (special && c = '\\')

/-- What follows the last at-sign of an authority, and whether something stands before it. -/
def afterUserInfo (special : Bool) (cs : List Char) : Except UrlError (Bool × List Char) :=
  let authority := cs.takeWhile (fun c => !endsAuthority special c)
  if !authority.contains '@' then .ok (false, cs)
  else
    let host := (authority.reverse.takeWhile (· ≠ '@')).length
    let user := authority.length - host - 1
    let rest := cs.drop (user + 1)
    if user = 0 && host = 0 && !rest.isEmpty then .error .emptyHost
    else .ok (decide (authority.take user ≠ [] ∧ authority.take user ≠ [':']), rest)

/-- The host at the start of a text: up to a colon outside brackets, or the end of the
    authority. -/
def takeHost (special : Bool) : Bool → List Char → List Char
  | _, [] => []
  | inBrackets, c :: cs =>
    if (c = ':' && !inBrackets) || endsAuthority special c then []
    else c :: takeHost special (if c = '[' then true else if c = ']' then false else inBrackets) cs

/-- The port after a host: digits up to the end of the authority. -/
def checkPort (cs : List Char) : Except UrlError Unit :=
  let digits := cs.takeWhile Char.isDigit
  if (digits? 10 digits).any (65535 < ·) then .error .invalidPort
  else
    match cs.drop digits.length with
    | [] => .ok ()
    | c :: _ => if endsAuthority true c then .ok () else .error .invalidPort

/-- The authority of a URL that is not a file. -/
def checkAuthority (special : Bool) (cs : List Char) : Except UrlError Unit := do
  let (hasUser, cs) ← afterUserInfo special cs
  let host := takeHost special false cs
  let rest := cs.drop host.length
  if special && host.isEmpty then .error .emptyHost
  else do
    if special then checkDomain host else checkOpaqueHost host
    if host.isEmpty && (rest.head? = some ':' || hasUser) then .error .emptyHost
    else if rest.head? = some ':' then checkPort (rest.drop 1)
    else .ok ()

/-- Whether a character is a slash of either kind. -/
def isSlash (c : Char) : Bool := c = '/' || c = '\\'

/-- The host of a file, which may be missing or be a drive letter. -/
def checkFileHost (cs : List Char) : Except UrlError Unit :=
  let host := cs.takeWhile (fun c => !endsAuthority true c)
  match host with
  | [] => .ok ()
  | [a, b] => if isLetter a && (b = ':' || b = '|') then .ok () else checkDomain host
  | _ => checkDomain host

/-- What comes after the scheme of a file, or a reference relative to a file. -/
def checkFile : List Char → Except UrlError Unit
  | a :: b :: rest => if isSlash a && isSlash b then checkFileHost rest else .ok ()
  | _ => .ok ()

/-- A reference relative to a URL with a path. -/
def checkRelative (special : Bool) (cs : List Char) : Except UrlError Unit :=
  let slashes := (cs.takeWhile isSlash).length
  if slashes < 2 then .ok ()
  else if cs.take 2 = ['/', '/'] then checkAuthority special (cs.drop 2)
  else checkAuthority special (cs.drop slashes)

/-- A text with a scheme. -/
def parseWithScheme (base : Option Url) (scheme : String) (cs : List Char) :
    Except UrlError Url :=
  if scheme = "file" then (checkFile cs).map (fun _ => ⟨scheme, false⟩)
  else if isSpecial scheme then
    let slashes := (cs.takeWhile isSlash).length
    if slashes < 2 && base.any (·.scheme = scheme) then
      (checkRelative true cs).map (fun _ => ⟨scheme, false⟩)
    else (checkAuthority true (cs.drop slashes)).map (fun _ => ⟨scheme, false⟩)
  else
    match cs with
    | '/' :: '/' :: rest => (checkAuthority false rest).map (fun _ => ⟨scheme, false⟩)
    | '/' :: _ => .ok ⟨scheme, false⟩
    | _ => .ok ⟨scheme, true⟩

/-- Read a URL, relative to a base if there is one. -/
def parse (base : Option Url) (text : String) : Except UrlError Url :=
  let cs := tidy text
  match scheme? cs with
  | some (scheme, rest) => parseWithScheme base scheme rest
  | none =>
    match base with
    | none => .error .relativeWithoutBase
    | some base =>
      if cs.head? = some '#' then .ok base
      else if base.opaquePath then .error .relativeWithOpaqueBase
      else if base.scheme = "file" then (checkFile cs).map (fun _ => base)
      else (checkRelative (isSpecial base.scheme) cs).map (fun _ => base)

/-- Whether a text is a URL by itself. -/
def isAbsolute (text : String) : Bool := (parse none text).isOk

end Url

end Relayout
