/-!
# Settings

* `Settings`: how filters are read and compiled, and what is logged.
* `Overrides`: settings for an environment, each of which may be left as it is.
* `Settings.inEnvironment`: the settings with the overrides for an environment.
-/

namespace Sift

/-- The layout of log lines. -/
inductive LogFormat where
  | json
  | pretty
  | compact
  deriving DecidableEq, Repr

namespace LogFormat

/-- All layouts. -/
def all : List LogFormat := [json, pretty, compact]

/-- The word for a layout. -/
def token : LogFormat → String
  | json => "json"
  | pretty => "pretty"
  | compact => "compact"

/-- The layout with an exact word. -/
def ofToken? (s : String) : Option LogFormat := all.find? fun f => f.token == s

end LogFormat

/-- How filter texts are read. -/
structure ParserSettings where
  /-- The depth to which brackets nest. -/
  maxDepth : Nat := 32
  deriving DecidableEq, Repr

/-- How filters are matched with types. -/
structure CompilerSettings where
  /-- Whether the case of letters does not matter. -/
  ignoreCase : Bool := false
  deriving DecidableEq, Repr

/-- What is logged. -/
structure LoggingSettings where
  level : String := "warn"
  format : LogFormat := .json
  deriving DecidableEq, Repr

/-- How filter texts are read in an environment. -/
structure ParserOverrides where
  maxDepth : Option Nat
  deriving DecidableEq, Repr

/-- How filters are matched with types in an environment. -/
structure CompilerOverrides where
  ignoreCase : Option Bool
  deriving DecidableEq, Repr

/-- What is logged in an environment. -/
structure LoggingOverrides where
  level : Option String
  format : Option LogFormat
  deriving DecidableEq, Repr

/-- Settings for an environment; what is absent is left as it is. -/
structure Overrides where
  parser : Option ParserOverrides
  compiler : Option CompilerOverrides
  logging : Option LoggingOverrides
  deriving DecidableEq, Repr

/-- All settings. -/
structure Settings where
  parser : ParserSettings := {}
  compiler : CompilerSettings := {}
  logging : LoggingSettings := {}
  environments : List (String × Overrides) := []
  deriving DecidableEq, Repr

namespace Settings

/-- The settings with what overrides say in the place of some of them. -/
def override (s : Settings) (o : Overrides) : Settings :=
  { s with
    parser := ⟨(o.parser.bind (·.maxDepth)).getD s.parser.maxDepth⟩
    compiler := ⟨(o.compiler.bind (·.ignoreCase)).getD s.compiler.ignoreCase⟩
    logging := ⟨(o.logging.bind (·.level)).getD s.logging.level,
      (o.logging.bind (·.format)).getD s.logging.format⟩ }

/-- The settings for an environment, whose overrides are taken out. -/
def inEnvironment (s : Settings) (name : String) : Settings :=
  match s.environments.lookup name with
  | none => s
  | some o =>
    { s.override o with environments := s.environments.filter fun e => e.1 != name }

end Settings

end Sift
