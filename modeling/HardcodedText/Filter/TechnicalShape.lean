import HardcodedText.Pattern.Search

/-!
The shapes of technical values: addresses, identifiers, colors, hashes, versions, constants, tokens
and paths.
-/

namespace HardcodedText.TechnicalShape

open Pattern

def lower : ClassItem := .range 'a'.toNat 'z'.toNat

def upper : ClassItem := .range 'A'.toNat 'Z'.toNat

def digit : ClassItem := .range '0'.toNat '9'.toNat

def hexDigit : Pattern :=
  oneOf [digit, .range 'a'.toNat 'f'.toNat, .range 'A'.toNat 'F'.toNat]

def visible : Pattern := oneOf [.blank false]

def decimals : Pattern := atLeast 1 (oneOf [.decimal true])

def whole (parts : List Pattern) : Pattern :=
  all (textStart :: parts ++ [lastLineEnd])

def schemeUrl : Pattern :=
  all [textStart, oneOf [upper, lower],
    many (oneOf [upper, lower, digit, .single '+', .single '.', .single '-']), exactly "://"]

def schemePath : Pattern :=
  all [textStart,
    anyOf ["mailto", "tel", "sms", "package", "dart", "data", "file", "content", "intent"],
    char ':', visible]

def webHost : Pattern :=
  whole [exactly "www.", atLeast 1 visible]

def topLevelDomains : List String := [
  "com", "org", "net", "io", "dev", "app", "co", "gov", "edu", "info", "biz", "me", "ai", "cloud",
  "xyz", "us", "uk", "de", "fr", "br", "es", "it", "nl", "ru", "jp", "cn", "in", "ca", "au", "pt"]

def domain : Pattern :=
  whole [
    atLeast 1 (all [oneOf [lower, digit],
      optional (seq (many (oneOf [lower, digit, .single '-'])) (oneOf [lower, digit])), char '.']),
    anyOf topLevelDomains, optional (seq (char ':') decimals),
    optional (seq (char '/') (many visible))]

def emailAddress : Pattern :=
  whole [
    atLeast 1 (oneOf [upper, lower, digit, .single '.', .single '_', .single '%', .single '+',
      .single '-']),
    char '@', atLeast 1 (oneOf [upper, lower, digit, .single '.', .single '-']), char '.',
    atLeast 2 (oneOf [upper, lower])]

def bundleIdentifier : Pattern :=
  whole [oneOf [lower], many (oneOf [lower, digit, .single '_']),
    atLeast 2 (seq (char '.') (atLeast 1 (oneOf [lower, digit, .single '_'])))]

def webColor : Pattern :=
  whole [char '#', any [between 3 4 hexDigit, times 6 hexDigit, times 8 hexDigit]]

def hexColor : Pattern :=
  whole [char '0', oneOf [.single 'x', .single 'X'], between 6 8 hexDigit]

def hash : Pattern :=
  whole [atLeast 8 hexDigit]

def semanticVersion : Pattern :=
  whole [optional (char 'v'), decimals, char '.', decimals, char '.', decimals,
    optional (seq (oneOf [.single '-', .single '+'])
      (atLeast 1 (oneOf [digit, upper, lower, .single '.', .single '-'])))]

def hostedProject : Pattern :=
  all [char '.', anyOf ["firebaseio", "firebaseapp", "appspot", "cloudfunctions"], char '.',
    anyOf ["com", "net"], boundary true]

def apiKey : Pattern :=
  whole [exactly "AIza", atLeast 20 (oneOf [digit, upper, lower, .single '_', .single '-'])]

def adUnit : Pattern :=
  whole [exactly "ca-app-pub-", decimals, oneOf [.single '~', .single '/'], decimals]

def appIdentifier : Pattern :=
  whole [decimals, char ':', decimals, char ':', anyOf ["android", "ios", "web"], char ':',
    atLeast 1 hexDigit]

def analyticsIdentifier : Pattern :=
  whole [anyOf ["G", "UA"], char '-', atLeast 6 (oneOf [upper, digit, .single '-'])]

def paymentKey : Pattern :=
  whole [anyOf ["pk", "sk"], char '_', anyOf ["live", "test"], char '_',
    atLeast 1 (oneOf [.word true])]

def environmentConstant : Pattern :=
  whole [oneOf [upper], many (oneOf [upper, digit]),
    atLeast 1 (seq (char '_') (atLeast 1 (oneOf [upper, digit])))]

def opaqueToken : Pattern :=
  whole [ahead true (seq (many visible) (oneOf [.decimal true])),
    ahead true (seq (many visible) (oneOf [upper, lower])),
    atLeast 20 (oneOf [upper, lower, digit, .single '_', .single '-'])]

def fileExtensions : List String := [
  "png", "jpg", "jpeg", "gif", "webp", "bmp", "svg", "ico", "ttf", "otf", "woff", "woff2", "json",
  "yml", "yaml", "xml", "txt", "csv", "md", "htm", "html", "css", "js", "dart", "mp3", "mp4", "wav",
  "ogg", "pdf", "zip", "riv", "lottie", "db"]

def filePath : Pattern :=
  whole [atLeast 1 (oneOf [.word true, .single '-', .single '.', .single '/', .single '@']),
    char '.', anyOf fileExtensions]

def assetPath : Pattern :=
  whole [anyOf ["assets", "images", "img", "icons", "fonts", "lib", "packages"], char '/',
    many visible]

def absolutePath : Pattern :=
  whole [char '/', many visible]

def drivePath : Pattern :=
  whole [oneOf [upper, lower], char ':', char '\\', many visible]

def shapes : List Pattern := [
  schemeUrl, schemePath, webHost, domain, emailAddress, bundleIdentifier, webColor, hexColor, hash,
  semanticVersion, hostedProject, apiKey, adUnit, appIdentifier, analyticsIdentifier, paymentKey,
  environmentConstant, opaqueToken, filePath, assetPath, absolutePath, drivePath]

end HardcodedText.TechnicalShape

namespace HardcodedText

def isTechnicalShape (text : Text) : Bool :=
  TechnicalShape.shapes.any fun shape => shape.foundIn text

end HardcodedText
