/-
  Relayout/Pattern/Property.lean
  ==============================
  **The names of character properties.**

  A property is named by a general category, a script or a binary property of Unicode, in
  any case and with blanks, hyphens and underscores left out of account.
-/
import Relayout.Text.Split

namespace Relayout.Pattern

/-- The general categories, by short and long names. -/
def categoryNames : List String := [
    "c", "other", "cc", "control", "cntrl", "cf", "format", "cn", "unassigned", "co",
    "privateuse", "l", "letter", "lc", "casedletter", "ll", "lowercaseletter", "lm",
    "modifierletter", "lo", "otherletter", "lt", "titlecaseletter", "lu", "uppercaseletter",
    "m", "mark", "combiningmark", "mc", "spacingmark", "me", "enclosingmark", "mn",
    "nonspacingmark", "n", "number", "nd", "decimalnumber", "digit", "nl", "letternumber",
    "no", "othernumber", "p", "punctuation", "punct", "pc", "connectorpunctuation", "pd",
    "dashpunctuation", "pe", "closepunctuation", "pf", "finalpunctuation", "pi",
    "initialpunctuation", "po", "otherpunctuation", "ps", "openpunctuation", "s", "symbol",
    "sc", "currencysymbol", "sk", "modifiersymbol", "sm", "mathsymbol", "so", "othersymbol",
    "z", "separator", "zl", "lineseparator", "zp", "paragraphseparator", "zs",
    "spaceseparator", "any", "ascii", "assigned"]

/-- Scripts. -/
def scriptNames : List String := [
    "adlam", "ahom", "arabic", "armenian", "avestan", "balinese", "bamum", "batak", "bengali",
    "bopomofo", "brahmi", "braille", "buginese", "buhid", "canadianaboriginal", "carian",
    "chakma", "cham", "cherokee", "common", "coptic", "cuneiform", "cypriot", "cyrillic",
    "deseret", "devanagari", "egyptianhieroglyphs", "ethiopic", "georgian", "glagolitic",
    "gothic", "greek", "gujarati", "gurmukhi", "han", "hangul", "hanunoo", "hebrew",
    "hiragana", "inherited", "javanese", "kannada", "katakana", "kayahli", "kharoshthi",
    "khmer", "lao", "latin", "lepcha", "limbu", "linearb", "lisu", "lycian", "lydian",
    "malayalam", "mandaic", "meeteimayek", "mongolian", "myanmar", "newtailue", "nko", "ogham",
    "olchiki", "oldpersian", "oriya", "osmanya", "phoenician", "rejang", "runic", "samaritan",
    "saurashtra", "shavian", "sinhala", "sundanese", "sylotinagri", "syriac", "tagalog",
    "tagbanwa", "taile", "taitham", "taiviet", "tamil", "telugu", "thaana", "thai", "tibetan",
    "tifinagh", "ugaritic", "vai", "yi"]

/-- Binary properties. -/
def binaryNames : List String := [
    "alphabetic", "alpha", "lowercase", "lower", "uppercase", "upper", "whitespace", "wspace",
    "space", "math", "hexdigit", "hex", "asciihexdigit", "ahex", "idstart", "ids",
    "idcontinue", "idc", "xidstart", "xids", "xidcontinue", "xidc", "emoji",
    "emojipresentation", "extendedpictographic", "ideographic", "ideo", "cased",
    "caseignorable", "ci", "dash", "diacritic", "dia", "extender", "ext", "graphemebase",
    "graphemeextend", "quotationmark", "qmark", "variationselector", "vs",
    "noncharactercodepoint", "defaultignorablecodepoint", "di", "joincontrol"]

/-- A name with what does not count left out. -/
def plainName (cs : List Char) : String :=
  let cs := cs.filter (fun c => c ≠ ' ' && c ≠ '_' && c ≠ '-')
  String.ofList (cs.map Char.toLower)

/-- The kinds of property that may be named before an equals sign, with their values. -/
def namedProperties : List (String × List String) := [
    ("generalcategory", categoryNames), ("gc", categoryNames), ("category", categoryNames),
    ("script", scriptNames), ("sc", scriptNames), ("scriptextensions", scriptNames),
    ("scx", scriptNames)]

/-- Whether a text between the braces of a property names one. -/
def isProperty (cs : List Char) : Bool :=
  let cs := if cs.head? = some '^' then cs.drop 1 else cs
  let cs := cs.map (fun c => if c = ':' then '=' else c)
  match Text.split '=' (cs.filter (· ≠ '!')) with
  | [name] =>
    (categoryNames ++ scriptNames ++ binaryNames).contains (plainName name)
  | [kind, value] =>
    (namedProperties.lookup (plainName kind)).any (·.contains (plainName value))
  | _ => false

end Relayout.Pattern
