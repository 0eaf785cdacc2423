import CApiUpgrade.Text.BinaryProperty
import CApiUpgrade.Text.GeneralCategory
import CApiUpgrade.Text.ScriptExtension

/-!
# Properties of characters by name

An expression may ask for the characters with a property by its name: a binary property, a general
category or a script.  Names are compared loosely: case, blanks, hyphens and underscores do not
count, nor does `is` in front.  Where a name could be of two kinds, binary properties come first,
then general categories, then scripts.
-/

namespace CApiUpgrade.Text

/-- The form in which names are compared. -/
def normalizedName (name : List Char) : String :=
  let stated := match name with
    | a :: b :: _ => a.toLower == 'i' && b.toLower == 's'
    | _ => false
  let kept := (if stated then name.drop 2 else name).filter fun c =>
    c != ' ' && c != '_' && c != '-' && c.toNat < 128
  let letters := String.ofList (kept.map Char.toLower)
  -- With `is` in front, `c` would be taken for another property's short name.
  if stated && letters == "c" then "isc" else letters

/-- A binary property that is fixed by enumeration. -/
def enumerated (name : String) : RangeTable :=
  (NamedSet.find? binaryProperties name).getD #[]

/-- A general category that has to exist. -/
def category (name : String) : RangeTable := (generalCategory? name).getD #[]

/-- The code points that a grammar keeps for its own signs. -/
def patternSigns : RangeTable := (enumerated "patsyn").union (enumerated "patws")

/-- The characters that start identifiers. -/
def identifierStarts : RangeTable :=
  (RangeTable.unions [category "l", category "nl", enumerated "oids"]).diff patternSigns

/-- The characters that continue identifiers. -/
def identifierParts : RangeTable :=
  (RangeTable.unions [identifierStarts, category "mn", category "mc", category "nd", category "pc",
    enumerated "oidc"]).diff patternSigns

/-- Identifier characters whose compatibility form is none. -/
def unstableParts : RangeTable := .ofListing
  "37a 309b-309c fc5e-fc63 fdfa-fdfb fe70 fe72 fe74 fe76 fe78 fe7a fe7c fe7e"

/-- Identifier characters whose compatibility form does not start an identifier. -/
def unstableStarts : RangeTable := unstableParts.union (.ofListing "e33 eb3 ff9e-ff9f")

/-- The letters and letter-like signs. -/
def alphabetic : RangeTable :=
  .unions [category "l", category "nl", enumerated "oalpha"]

/-- The small letters. -/
def lowercase : RangeTable := (category "ll").union (enumerated "olower")

/-- The capital letters. -/
def uppercase : RangeTable := (category "lu").union (enumerated "oupper")

/-- The marks that extend the character in front of them. -/
def graphemeExtenders : RangeTable :=
  .unions [category "me", category "mn", enumerated "ogrext"]

/-- The characters that a search for cased letters passes over. -/
def caseIgnorable : RangeTable :=
  .unions [category "mn", category "me", category "cf", category "lm", category "sk",
    .ofListing "27 2e 3a b7 387 55f 5f4 2018-2019 2024 2027 fe13 fe52 fe55 ff07 ff0e ff1a"]

/-- A binary property by a normalized name. -/
def binaryProperty? (name : String) : Option RangeTable :=
  match name with
  | "alpha" | "alphabetic" => some alphabetic
  | "lower" | "lowercase" => some lowercase
  | "upper" | "uppercase" => some uppercase
  | "cased" => some (.unions [lowercase, uppercase, category "lt"])
  | "ci" | "caseignorable" => some caseIgnorable
  | "cwcm" | "changeswhencasemapped" =>
    some (.unions [enumerated "cwl", enumerated "cwt", enumerated "cwu"])
  | "math" => some ((category "sm").union (enumerated "omath"))
  | "ids" | "idstart" => some identifierStarts
  | "idc" | "idcontinue" => some identifierParts
  | "xids" | "xidstart" => some (identifierStarts.diff unstableStarts)
  | "xidc" | "xidcontinue" => some (identifierParts.diff unstableParts)
  | "grext" | "graphemeextend" => some graphemeExtenders
  | "grbase" | "graphemebase" =>
    some (RangeTable.unions [category "c", category "zl", category "zp", graphemeExtenders]
      |>.complement)
  | _ => NamedSet.find? binaryProperties name

/-- The extension of a script, by a normalized name. -/
def scriptExtension? (name : String) : Option RangeTable :=
  NamedSet.find? scriptExtensions name <|> NamedSet.find? scripts name

/-- The characters with a property, by the name of the property. -/
def property? (name : List Char) : Option RangeTable :=
  let name := normalizedName name
  binaryProperty? name <|> generalCategory? name <|> NamedSet.find? scripts name

/-- The characters whose property `key` has the given value. -/
def propertyValue? (key value : List Char) : Option RangeTable :=
  let value := normalizedName value
  match normalizedName key with
  | "gc" | "generalcategory" => generalCategory? value
  | "sc" | "script" => NamedSet.find? scripts value
  | "scx" | "scriptextensions" => scriptExtension? value
  | _ => none

/-! ### Names -/

/-- The characters of a name: letters, letter-like signs, and numbers of every kind. -/
def nameTable : RangeTable :=
  .unions [alphabetic, category "nd", category "nl", category "no"]

/-- Whether `c` may stand in the name of a group. -/
def isNameChar (c : Char) : Bool :=
  if c.toNat < 128 then isAsciiLetter c || isAsciiDigit c || c == '_'
  else nameTable.contains c.toNat

end CApiUpgrade.Text
