import MathMarkup.Config.Load

/-!
# The current configuration

The program holds at most one current configuration. Loading one replaces it only if loading
succeeds.
-/

namespace MathMarkup.Config

/-- The current configuration, if there is one. -/
abbrev Current := Option Config

namespace Current

/-- Loads a configuration and makes it the current one. -/
def load (formats : Formats) (read : FileReader) (env : Variables) (path : Text)
    (current : Current) : Except Fault Unit × Current :=
  match loadOrDefault formats read env path with
  | .ok c => (.ok (), some c)
  | .error f => (.error f, current)

/-- Loads a configuration again; a failure says so. -/
def reload (formats : Formats) (read : FileReader) (env : Variables) (path : Text)
    (current : Current) : Except Fault Unit × Current :=
  let (result, next) := load formats read env path current
  (noted "failed to reload configuration" result, next)

/-- The current configuration where one is needed; its absence is a mistake of the caller. -/
def require (current : Current) : Except Text Config :=
  match current with
  | some c => .ok c
  | none => .error "configuration not initialized: call Initialize first"

end Current

end MathMarkup.Config
