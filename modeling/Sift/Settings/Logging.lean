import Sift.Settings.Basic
import Sift.Settings.Expansion
import Sift.Text.Case

/-!
# What is logged

Variables of the environment take precedence over settings.

* `isDebugging`: whether debugging is asked for.
* `logLevel`: the level at which lines are logged.
* `logFormat`: their layout.
-/

namespace Sift

/-- The levels of log lines. -/
inductive LogLevel where
  | trace
  | debug
  | info
  | warn
  | error
  deriving DecidableEq, Repr

namespace LogLevel

/-- All levels, the most talkative first. -/
def all : List LogLevel := [trace, debug, info, warn, error]

/-- The word for a level. -/
def token : LogLevel → String
  | trace => "trace"
  | debug => "debug"
  | info => "info"
  | warn => "warn"
  | error => "error"

/-- The level for a word, the case of letters aside. -/
def ofText? (s : String) : Option LogLevel := all.find? fun l => l.token == Text.lowerString s

end LogLevel

/-- Whether debugging is asked for. -/
def isDebugging (env : Environment) : Bool :=
  (env.lookup "STRAINER_DEBUG").any fun v => ["true", "1", "yes"].contains (Text.lowerString v)

/-- The level at which lines are logged where `default` is set. -/
def logLevel (env : Environment) (default : String) : LogLevel :=
  let fallback := if isDebugging env then .debug else (LogLevel.ofText? default).getD .warn
  ((env.lookup "STRAINER_LOG_LEVEL").bind LogLevel.ofText?).getD fallback

/-- The layout of lines where `default` is set. -/
def logFormat (env : Environment) (default : LogFormat) : LogFormat :=
  ((env.lookup "STRAINER_LOG_FORMAT").bind fun v =>
    LogFormat.ofToken? (Text.lowerString v)).getD default

end Sift
