/-!
# Snake case

An identifier is cut into words, which are lower-cased and joined by underscores. Underscores
separate words. So does a change from lower to upper case, and, in a run of capitals, the last
capital before a lower-case letter starts a word: `HTTPServer` gives `http_server`. Letters are
ASCII.
-/

namespace SchemaPlan.Naming

/-- The case of the letters read last in a word. Digits keep it. -/
inductive LetterCase where
  | none
  | lower
  | upper
deriving DecidableEq, Repr

def LetterCase.after (mode : LetterCase) (c : Char) : LetterCase :=
  if c.isLower then .lower else if c.isUpper then .upper else mode

/-- Cuts a text without underscores into words. `word` is what was read of the current word. A
capital that starts a word after a run of capitals does not count towards its case. -/
def cutWords (mode : LetterCase) (word : List Char) : List Char → List (List Char)
  | [] => []
  | [c] => [word ++ [c]]
  | c :: next :: rest =>
    if mode.after c = .lower ∧ next.isUpper then
      (word ++ [c]) :: cutWords .none [] (next :: rest)
    else if mode = .upper ∧ c.isUpper ∧ next.isLower then
      word :: cutWords .none [c] (next :: rest)
    else cutWords (mode.after c) (word ++ [c]) (next :: rest)

def words (cs : List Char) : List (List Char) := (cs.splitOn '_').flatMap (cutWords .none [])

def snakeCase (cs : List Char) : List Char :=
  ['_'].intercalate ((words cs).map (·.map Char.toLower))

example : snakeCase "HTTPServer2Go".toList = "http_server2_go".toList := by decide

end SchemaPlan.Naming
