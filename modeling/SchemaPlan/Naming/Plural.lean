/-!
# Plurals

English plurals of lower-case words: a list of irregular words, a list of words without plural,
and rules on endings, of which the last that fits is applied.
-/

namespace SchemaPlan.Naming

/-- Singulars with their plurals. A word that is a plural here stays as it is. -/
def irregular : List (String × String) := [
  ("I", "we"), ("me", "us"), ("he", "they"), ("she", "they"), ("them", "them"),
  ("myself", "ourselves"), ("yourself", "yourselves"), ("itself", "themselves"),
  ("herself", "themselves"), ("himself", "themselves"), ("themself", "themselves"),
  ("is", "are"), ("was", "were"), ("has", "have"), ("this", "these"), ("that", "those"),
  ("my", "our"), ("its", "their"), ("his", "their"), ("her", "their"), ("echo", "echoes"),
  ("dingo", "dingoes"), ("volcano", "volcanoes"), ("tornado", "tornadoes"),
  ("torpedo", "torpedoes"), ("genus", "genera"), ("viscus", "viscera"),
  ("stigma", "stigmata"), ("stoma", "stomata"), ("dogma", "dogmata"), ("lemma", "lemmata"),
  ("schema", "schemata"), ("anathema", "anathemata"), ("ox", "oxen"), ("axe", "axes"),
  ("die", "dice"), ("yes", "yeses"), ("foot", "feet"), ("eave", "eaves"), ("goose", "geese"),
  ("tooth", "teeth"), ("quiz", "quizzes"), ("human", "humans"), ("proof", "proofs"),
  ("carve", "carves"), ("valve", "valves"), ("looey", "looies"), ("thief", "thieves"),
  ("groove", "grooves"), ("pickaxe", "pickaxes"), ("passerby", "passersby"),
  ("canvas", "canvases")]

def uncountable : List String := [
  "adulthood", "advice", "agenda", "aid", "aircraft", "alcohol", "ammo", "analytics", "anime",
  "athletics", "audio", "bison", "blood", "bream", "buffalo", "butter", "carp", "cash", "chassis",
  "chess", "clothing", "cod", "commerce", "cooperation", "corps", "debris", "diabetes",
  "digestion", "elk", "energy", "equipment", "excretion", "expertise", "firmware", "flounder",
  "fun", "gallows", "garbage", "graffiti", "hardware", "headquarters", "health", "herpes",
  "highjinks", "homework", "housework", "information", "jeans", "justice", "kudos", "labour",
  "literature", "machinery", "mackerel", "mail", "media", "mews", "moose", "music", "mud",
  "manga", "news", "only", "personnel", "pike", "plankton", "pliers", "police", "pollution",
  "premises", "rain", "research", "rice", "salmon", "scissors", "series", "sewage", "shambles",
  "shrimp", "software", "staff", "swine", "tennis", "traffic", "transportation", "trout", "tuna",
  "wealth", "welfare", "whiting", "wildebeest", "wildlife", "you"]

/-- A class of characters. -/
inductive Letter where
  | is (c : Char)
  | oneOf (cs : List Char)
  | noneOf (cs : List Char)
  | nonAscii
deriving DecidableEq, Repr

def Letter.admits : Letter → Char → Bool
  | .is a, c => a == c
  | .oneOf cs, c => cs.contains c
  | .noneOf cs, c => !cs.contains c
  | .nonAscii, c => c.toNat > 0x7F

/-- A word ends in a stem, which stays, and an ending, which is replaced. -/
structure PluralRule where
  stems : List (List Letter)
  endings : List String
  plural : String
  /-- The stem has to start the word. -/
  whole : Bool := false

namespace PluralRule

def fits (r : PluralRule) (kept : List Char) (stem : List Letter) : Bool :=
  stem.length ≤ kept.length && (!r.whole || kept.length == stem.length) &&
    (stem.zip (kept.drop (kept.length - stem.length))).all fun (l, c) => l.admits c

def replace? (r : PluralRule) (word : List Char) : Option (List Char) :=
  r.endings.findSome? fun ending =>
    (ending.toList.isSuffixOf? word).bind fun kept =>
      if r.stems.any (r.fits kept) then some (kept ++ r.plural.toList) else none

def letters (s : String) : List Letter := s.toList.map .is

def oneOf (s : String) : List Letter := [.oneOf s.toList]

def noneOf (s : String) : List Letter := [.noneOf s.toList]

/-- The stem stays and its ending is replaced. -/
def replacing (stems : List (List Letter)) (endings : List String) (plural : String) : PluralRule :=
  ⟨stems, endings, plural, false⟩

/-- The stem gets an ending. -/
def adding (stems : List (List Letter)) (plural : String) : PluralRule :=
  ⟨stems, [""], plural, false⟩

/-- Words on this stem are their own plurals. -/
def keeping (stems : List (List Letter)) : PluralRule := adding stems ""

end PluralRule

open PluralRule in
/-- Later rules come before earlier ones. -/
def pluralRules : List PluralRule := [
  replacing [[]] ["s", ""] "s",
  keeping [[.nonAscii]],
  keeping [noneOf "aeiou" ++ letters "ese"],
  replacing [letters "ax", letters "test"] ["is"] "es",
  adding [letters "alias", noneOf "aou" ++ letters "us", letters "t" ++ oneOf "lm" ++ letters "as",
    letters "gas", letters "ris"] "es",
  replacing [letters "e" ++ oneOf "mn" ++ letters "u"] ["s", ""] "s",
  keeping [noneOf "l" ++ letters "ias", oneOf "aeiou" ++ letters "las",
    oneOf "ejzr" ++ letters "as", oneOf "iu" ++ letters "am"],
  replacing (["alumn", "syllab", "vir", "radi", "nucle", "fung", "cact", "stimul", "termin",
    "bacill", "foc", "uter", "loc", "strat"].map letters) ["us", "i"] "i",
  replacing (["alumn", "alg", "vertebr"].map letters) ["a", "ae"] "ae",
  replacing (["seraph", "cherub"].map letters) ["im", ""] "im",
  replacing (["her", "at", "gr"].map letters) ["o"] "oes",
  replacing (["agend", "addend", "millenni", "dat", "extrem", "bacteri", "desiderat", "strat",
    "candelabr", "errat", "ov", "symposi", "curricul", "automat", "quor"].map letters)
    ["a", "um"] "a",
  replacing (["apheli", "hyperbat", "periheli", "asyndet", "noumen", "phenomen", "criteri",
    "organ", "prolegomen", "hedr", "automat"].map letters) ["a", "on"] "a",
  replacing [[]] ["sis"] "ses",
  replacing (["kni", "wi", "li"].map letters) ["fe"] "ves",
  replacing (["ar", "l", "ea", "eo", "oa", "hoo"].map letters) ["f"] "ves",
  replacing [noneOf "aeiouy", letters "qu"] ["y"] "ies",
  replacing [noneOf "ch" ++ oneOf "ieo" ++ oneOf "ln"] ["ey"] "ies",
  adding (["x", "ch", "ss", "sh", "zz"].map letters) "es",
  replacing (["matr", "cod", "mur", "sil", "vert", "ind", "append"].map letters)
    ["ix", "ex"] "ices",
  ⟨["titm", "m", "l"].map letters, ["ice", "ouse"], "ice", true⟩,
  replacing [letters "pe"] ["rson", "ople"] "ople",
  replacing [letters "child"] ["ren", ""] "ren",
  keeping [letters "eaux"],
  replacing [letters "m"] ["an", "en"] "en",
  ⟨[[]], ["thou"], "you", true⟩,
  keeping [letters "pok" ++ oneOf "eé" ++ letters "mon"],
  keeping [noneOf "aeiou" ++ letters "ese"],
  keeping [letters "deer"],
  keeping [letters "fish"],
  keeping [letters "measles"],
  keeping [letters "o" ++ oneOf "iu" ++ letters "s"],
  keeping [letters "pox"],
  keeping [letters "sheep"]]

def plural (word : List Char) : List Char :=
  let text := String.ofList word
  if irregular.any (·.2 == text) then word
  else
    match irregular.find? (·.1 == text) with
    | some (_, plural) => plural.toList
    | none =>
      if word = [] ∨ uncountable.contains text then word
      else (pluralRules.reverse.findSome? (·.replace? word)).getD word

end SchemaPlan.Naming
