import SchemaPlan.Files.Path

/-!
# Environment

The variables that a command heeds, and the places where it looks for its settings.
-/

namespace SchemaPlan

structure Environment where
  home? : Option String := none
  configHome? : Option String := none
  config? : Option String := none
  noColor? : Option String := none

namespace Environment

/-- Where settings may be, first choice first. -/
def settingsFiles (env : Environment) : List String :=
  env.config?.toList ++ ["kaleido.toml"] ++
    (env.configHome?.map (Files.within · "kaleido/config.toml")).toList ++
    (env.home?.map (Files.within · ".config/kaleido/config.toml")).toList

end Environment

end SchemaPlan
