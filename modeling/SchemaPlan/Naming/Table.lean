import SchemaPlan.Naming.Plural
import SchemaPlan.Naming.Snake
import SchemaPlan.Schema.Identifier

/-!
# Table names
-/

namespace SchemaPlan

inductive TableNaming where
  /-- `UserProfile` becomes `user_profiles`. -/
  | snakePlural
  /-- The name of the model is used as it is. -/
  | asDeclared
deriving DecidableEq, Repr

namespace TableNaming

def name : TableNaming → String
  | .snakePlural => "snake_plural"
  | .asDeclared => "as_declared"

def all : List TableNaming := [.snakePlural, .asDeclared]

def tableName (n : TableNaming) (model : Identifier) : String :=
  match n with
  | .snakePlural => .ofList (Naming.plural (Naming.snakeCase model.text.toList))
  | .asDeclared => model.text

end TableNaming

end SchemaPlan
