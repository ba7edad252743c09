import Sift.Error
import Sift.Settings.Basic
import Sift.Settings.Expansion
import Sift.Toml.Reader

/-!
# Reading settings

    [parser]
    max_depth = 16
    [logging]
    level = "${SOME_VARIABLE}"
    [environments.test.compiler]
    ignore_case = false

A section is a table of its settings, or an array of them in order. There are no other settings
than the known ones.

* `Settings.ofText`: the settings in a text.
-/

namespace Sift

namespace Toml

/-- The values of an array, of tables or of anything. -/
def items? : Toml → Option (List Toml)
  | array items => some items
  | tables elements => some (elements.map (.table .header))
  | _ => none

/-- A whole number that is not negative. -/
def nat? : Toml → Option Nat
  | integer i => if 0 ≤ i.toInt then some i.toInt.toNat else none
  | _ => none

/-- A truth value. -/
def boolean? : Toml → Option Bool
  | boolean b => some b
  | _ => none

/-- A text. -/
def string? : Toml → Option String
  | string s => some s
  | _ => none

/-- Whether a value is a table or an array without anything in it. -/
def isHollow : Toml → Bool
  | table _ members => members.isEmpty
  | v => v.items?.any List.isEmpty

/-- A layout by its word, or by a table with the word and nothing else. -/
def format? : Toml → Option LogFormat
  | string s => LogFormat.ofToken? s
  | table _ [(key, v)] => if v.isHollow then LogFormat.ofToken? key else none
  | _ => none

/-- The settings of a section by their names, of which there are no others. In an array the values
are in the order of the names; values after the last name do not count, and all names need one if
`complete` is set. -/
def section? (names : List String) (complete : Bool) : Toml → Option (String → Option Toml)
  | table _ members =>
    if members.all fun m => names.contains m.1 then some fun name => List.lookup name members
    else none
  | v => do
    let items ← v.items?
    if complete && items.length < names.length then none
    else some fun name => List.lookup name (names.zip items)

/-- A value that may be absent, and has to be of some kind if it is there. -/
def optional? {α : Type} (read : Toml → Option α) : Option Toml → Option (Option α)
  | none => some none
  | some v => (read v).map some

/-- A value that may be absent, with one that stands for it then. -/
def orElse? {α : Type} (read : Toml → Option α) (otherwise : α) (v : Option Toml) : Option α :=
  (optional? read v).map (·.getD otherwise)

end Toml

open Toml

/-- How filter texts are read, by a section. -/
def ParserSettings.ofToml? (v : Toml) : Option ParserSettings := do
  let get ← v.section? ["max_depth"] false
  return ⟨← orElse? nat? 32 (get "max_depth")⟩

/-- How filters are matched with types, by a section. -/
def CompilerSettings.ofToml? (v : Toml) : Option CompilerSettings := do
  let get ← v.section? ["ignore_case"] false
  return ⟨← orElse? boolean? false (get "ignore_case")⟩

/-- What is logged, by a section. -/
def LoggingSettings.ofToml? (v : Toml) : Option LoggingSettings := do
  let get ← v.section? ["level", "format"] false
  return ⟨← orElse? string? "warn" (get "level"), ← orElse? format? .json (get "format")⟩

/-- How filter texts are read in an environment, by a section. -/
def ParserOverrides.ofToml? (v : Toml) : Option ParserOverrides := do
  let get ← v.section? ["max_depth"] true
  return ⟨← optional? nat? (get "max_depth")⟩

/-- How filters are matched with types in an environment, by a section. -/
def CompilerOverrides.ofToml? (v : Toml) : Option CompilerOverrides := do
  let get ← v.section? ["ignore_case"] true
  return ⟨← optional? boolean? (get "ignore_case")⟩

/-- What is logged in an environment, by a section. -/
def LoggingOverrides.ofToml? (v : Toml) : Option LoggingOverrides := do
  let get ← v.section? ["level", "format"] true
  return ⟨← optional? string? (get "level"), ← optional? format? (get "format")⟩

/-- The settings for an environment, by a section with its sections in it. -/
def Overrides.ofToml? (v : Toml) : Option Overrides := do
  let get ← v.section? ["parser", "compiler", "logging"] true
  return ⟨← optional? ParserOverrides.ofToml? (get "parser"),
    ← optional? CompilerOverrides.ofToml? (get "compiler"),
    ← optional? LoggingOverrides.ofToml? (get "logging")⟩

/-- The overrides of environments by the names of those. -/
def environments? : Toml → Option (List (String × Overrides))
  | .table _ members => members.mapM fun (name, v) => do return (name, ← Overrides.ofToml? v)
  | _ => none

/-- The settings in a document. -/
def Settings.ofToml? (v : Toml) : Option Settings := do
  let get ← v.section? ["parser", "compiler", "logging", "environments"] false
  return {
    parser := ← orElse? ParserSettings.ofToml? {} (get "parser")
    compiler := ← orElse? CompilerSettings.ofToml? {} (get "compiler")
    logging := ← orElse? LoggingSettings.ofToml? {} (get "logging")
    environments := ← orElse? environments? [] (get "environments") }

/-- The settings in a text, with variables in it expanded first. -/
def Settings.ofText (env : Environment) (text : String) : Except SyntaxError Settings :=
  match (Toml.read? (env.expand text)).bind fun members => ofToml? (.table .header members) with
  | some s => .ok s
  | none => .error .invalidSettings

end Sift
