import HardcodedText.Text.Basic
import HardcodedText.Text.Printable
import HardcodedText.Text.Utf8
import HardcodedText.Workspace.Path

/-!
The paths that document URIs name, and the URIs of files.
-/

namespace HardcodedText

/-!
The host of a URI. Brackets hold the address of a host and nothing else; a host beyond ASCII may not
hold a character that reads as one of the separators of a URI.
-/

namespace Host

inductive HostError
  /-- Brackets are not closed, not opened, or have something beside them. -/
  | misplacedBrackets
  /-- An address of a future version is ill-formed. -/
  | invalidFutureAddress
  | bracketedIpv4
  | unknownAddress (address : Text)
  /-- The host holds a character that reads as a separator. -/
  | hiddenSeparator (host : Text)
  deriving DecidableEq, Repr

def HostError.message : HostError → String
  | misplacedBrackets => "Invalid IPv6 URL"
  | invalidFutureAddress => "IPvFuture address is invalid"
  | bracketedIpv4 => "An IPv4 address cannot be in brackets"
  | unknownAddress address =>
      (Text.quoted address).string ++ " does not appear to be an IPv4 or IPv6 address"
  | hiddenSeparator host =>
      "netloc '" ++ host.string ++ "' contains invalid characters under NFKC normalization"

/-! Addresses -/

def isOctet (text : Text) : Bool :=
  !text.isEmpty && text.length ≤ 3 && text.all Char.isDigit &&
    (text.head? != some '0' || text == ['0']) && Text.numeral 10 text ≤ 255

def isIpv4 (text : Text) : Bool :=
  let parts := text.splitOn '.'
  parts.length == 4 && parts.all isOctet

def isHextet (text : Text) : Bool :=
  !text.isEmpty && text.length ≤ 4 && text.all Text.isHexDigit

def widenParts (parts : List Text) : Option (List Text) :=
  match parts.getLast? with
  | some last =>
      if !last.contains '.' then some parts
      else if isIpv4 last then some (parts.dropLast ++ [['0'], ['0']])
      else none
  | none => some parts

/-- The numbers on one side of a gap. The outermost part may be empty only if it stands alone. -/
def countSide (outermost : Option Text) (parts : List Text) : Option Nat :=
  if outermost == some [] then if parts.length = 1 then some 0 else none
  else if parts.all isHextet then some parts.length
  else none

def isIpv6Parts (parts : List Text) : Bool :=
  let inner := (parts.drop 1).dropLast
  if parts.length > 9 then false
  else
    match inner.count [] with
    | 0 => parts.length == 8 && parts.all isHextet
    | 1 =>
        let gap := inner.idxOf [] + 1
        let high := parts.take gap
        let low := parts.drop (gap + 1)
        match countSide high.head? high, countSide low.getLast? low with
        | some high, some low => high + low ≤ 7
        | _, _ => false
    | _ => false

def isIpv6Address (text : Text) : Bool :=
  let parts := text.splitOn ':'
  3 ≤ parts.length && (widenParts parts).any isIpv6Parts

def isIpv6 (text : Text) : Bool :=
  match text.splitOn '%' with
  | [address] => isIpv6Address address
  | [address, zone] => !zone.isEmpty && isIpv6Address address
  | _ => false

def isFutureAddress (text : Text) : Bool :=
  let version := (text.drop 1).takeWhile Text.isHexDigit
  let rest := text.drop (version.length + 1)
  !version.isEmpty && rest.head? == some '.' && 2 ≤ rest.length

def checkAddress (address : Text) : Except HostError Unit :=
  if address.head? == some 'v' then
    if isFutureAddress address then .ok () else .error .invalidFutureAddress
  else if isIpv4 address then .error .bracketedIpv4
  else if isIpv6 address then .ok ()
  else .error (.unknownAddress address)

def afterUser (host : Text) : Text :=
  (host.reverse.takeWhile (· != '@')).reverse

def checkBracketed (host : Text) : Except HostError Unit :=
  match afterUser host with
  | '[' :: rest =>
      let address := rest.takeWhile (· != ']')
      match rest.drop (address.length + 1) with
      | [] | ':' :: _ => checkAddress address
      | _ => .error .misplacedBrackets
  | rest =>
      if rest.contains '[' then .error .misplacedBrackets
      else checkAddress (rest.takeWhile (· != ':'))

def checkBrackets (host : Text) : Except HostError Unit :=
  match host.contains '[', host.contains ']' with
  | false, false => .ok ()
  | true, true => checkBracketed host
  | _, _ => .error .misplacedBrackets

/-- The characters beyond ASCII whose compatible form holds a separator of URIs. -/
def hiddenSeparators : List Nat := [
  0x2047, 0x2048, 0x2049, 0x2100, 0x2101, 0x2105, 0x2106, 0x2a74, 0xfe13, 0xfe16, 0xfe55, 0xfe56,
  0xfe5f, 0xfe6b, 0xff03, 0xff0f, 0xff1a, 0xff1f, 0xff20]

def checkSeparators (host : Text) : Except HostError Unit :=
  if host.any fun c => hiddenSeparators.contains c.toNat then .error (.hiddenSeparator host)
  else .ok ()

def check (host : Text) : Except HostError Unit := do
  checkBrackets host
  checkSeparators host

end Host

/-! URIs and paths -/

namespace Uri

def clean (uri : Text) : Text :=
  (uri.dropWhile fun c => c.toNat ≤ 0x20).filter fun c => !(c == '\t' || c == '\r' || c == '\n')

def isSchemeChar (c : Char) : Bool :=
  c.isAlphanum || c == '+' || c == '-' || c == '.'

def splitScheme (uri : Text) : Text × Text :=
  let scheme := uri.takeWhile (· != ':')
  if scheme.length < uri.length && scheme.head?.any Char.isAlpha && scheme.all isSchemeChar then
    (scheme.map Char.toLower, uri.drop (scheme.length + 1))
  else ([], uri)

def splitHost : Text → Text × Text
  | '/' :: '/' :: rest =>
      let host := rest.takeWhile fun c => !(c == '/' || c == '?' || c == '#')
      (host, rest.drop host.length)
  | text => ([], text)

def cutQuery (text : Text) : Text :=
  (text.takeWhile (· != '#')).takeWhile (· != '?')

/-- Decodes percent escapes. Between characters beyond ASCII the bytes are read as UTF-8, leniently;
`pending` holds those read so far, in reverse. What is no escape stands for itself. -/
def unquoteFrom (skip : Nat) (pending : List UInt8) : Text → Text
  | [] => Utf8.decodeLenient pending.reverse
  | c :: rest =>
      match skip with
      | skip + 1 => unquoteFrom skip pending rest
      | 0 =>
          if 0x80 ≤ c.toNat then
            Utf8.decodeLenient pending.reverse ++ c :: unquoteFrom 0 [] rest
          else
            let digits := rest.take 2
            if c == '%' && digits.length == 2 && digits.all Text.isHexDigit then
              unquoteFrom 2 (UInt8.ofNat (Text.numeral 16 digits) :: pending) rest
            else unquoteFrom 0 (UInt8.ofNat c.toNat :: pending) rest

def unquote (text : Text) : Text :=
  unquoteFrom 0 [] text

def toPath (uri : Text) : Except Host.HostError Path := do
  let (scheme, rest) := splitScheme (clean uri)
  let (host, rest) := splitHost rest
  Host.check host
  if scheme == "file".toList then return Path.ofText (unquote (cutQuery rest))
  else return Path.ofText uri

def isUnreserved (byte : UInt8) : Bool :=
  let c := Char.ofNat byte.toNat
  byte.toNat < 0x80 && (c.isAlphanum || c == '_' || c == '.' || c == '-' || c == '~' || c == '/')

def quoteByte (byte : UInt8) : Text :=
  if isUnreserved byte then [Char.ofNat byte.toNat]
  else '%' :: (Text.hexadecimal 2 byte.toNat).map Char.toUpper

def ofParts (parts : List Text) : Text :=
  "file://".toList ++ (Utf8.encode (Path.text ⟨.root, parts⟩)).flatMap quoteByte

end Uri

end HardcodedText
