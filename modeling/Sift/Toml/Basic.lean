import Sift.Number.Integer

/-!
# TOML values

* `Toml`: values; a table remembers how it came about, which decides how it may grow.
* `Toml.within?`: a table at the end of a path, changed.
* `Toml.insert?`, `Toml.opened?`, `Toml.lengthened?`: the ways in which a document grows.
-/

namespace Sift

/-- How a table came about. -/
inductive TableForm where
  /-- Written as a value; it is complete. -/
  | value
  /-- Opened by a header of its own. -/
  | header
  /-- Only named on the way to another header. -/
  | implied
  /-- Made by a key with points. -/
  | dotted
  deriving DecidableEq, Repr

/-- A TOML value. Of numbers with a fraction and of dates no more is known than that they are
there. -/
inductive Toml where
  | string (s : String)
  | integer (i : Int64)
  | boolean (b : Bool)
  | other
  | array (items : List Toml)
  | table (form : TableForm) (members : List (String × Toml))
  /-- Tables under one header each; the last one may grow. -/
  | tables (elements : List (List (String × Toml)))

namespace Toml

/-- The members of a table. -/
abbrev Members := List (String × Toml)

/-- The members with the value of a key changed, or a value added for it. -/
def alter? (key : String) (f : Option Toml → Option Toml) : Members → Option Members
  | [] => do return [(key, ← f none)]
  | (k, v) :: rest =>
    if k = key then do return (k, ← f (some v)) :: rest
    else do return (k, v) :: (← alter? key f rest)

/-- A value that can hold more members, with its members changed. A path of a key with points does
not lead into a table with a header. -/
def grow? (dotted : Bool) (f : TableForm → Members → Option Members) : Option Toml → Option Toml
  | none =>
    let form := if dotted then .dotted else .implied
    (f form []).map (.table form)
  | some (.table form members) =>
    if form = .value ∨ (dotted ∧ form = .header) then none
    else (f form members).map (.table form)
  | some (.tables elements) =>
    match elements.getLast? with
    | none => none
    | some last => (f .header last).map fun grown => .tables (elements.dropLast ++ [grown])
  | some _ => none

/-- The members with the table at the end of a path changed; tables missing on the way are made. -/
def within? (dotted : Bool) (f : TableForm → Members → Option Members) :
    List String → TableForm → Members → Option Members
  | [], form, members => f form members
  | key :: rest, _, members => alter? key (grow? dotted (within? dotted f rest)) members

/-- A value that is not there yet. -/
def absent (v : Toml) : Option Toml → Option Toml
  | none => some v
  | some _ => none

/-- The members with a value for a key with points in it, in a table of some form. Such a key
leads through tables that are made by such keys alone. -/
def insert? (path : List String) (key : String) (v : Toml) (form : TableForm)
    (members : Members) : Option Members :=
  within? true (fun form members =>
    if (form == .dotted) == path.isEmpty then none else alter? key (absent v) members)
    path form members

/-- A table opened by a header. It may have been named before, but not opened. -/
def opened? : Option Toml → Option Toml
  | none => some (.table .header [])
  | some (.table .implied members) => some (.table .header members)
  | some _ => none

/-- One more table under a header for several. -/
def lengthened? : Option Toml → Option Toml
  | none => some (.tables [[]])
  | some (.tables elements) => some (.tables (elements ++ [[]]))
  | some _ => none

/-- A document with the value at the end of a path changed. -/
def atHeader? (change : Option Toml → Option Toml) (path : List String) (document : Members) :
    Option Members :=
  match path.getLast? with
  | none => none
  | some key =>
    within? false (fun _ members => alter? key change members) path.dropLast .header document

end Toml

/-- One line of a document with something to say. -/
inductive TomlLine where
  | tableHeader (path : List String)
  | elementHeader (path : List String)
  | entry (path : List String) (key : String) (value : Toml)

namespace Toml

/-- A document while it is read: what is known, and the table under the last header. -/
structure Draft where
  document : Members
  current : List String

/-- A document with one more line. -/
def Draft.add? (d : Draft) : TomlLine → Option Draft
  | .tableHeader path => (atHeader? opened? path d.document).map (⟨·, path⟩)
  | .elementHeader path => (atHeader? lengthened? path d.document).map (⟨·, path⟩)
  | .entry path key value =>
    (within? false (insert? path key value) d.current .header d.document).map (⟨·, d.current⟩)

/-- The document that lines make up. -/
def ofLines? (lines : List TomlLine) : Option Members :=
  (lines.foldlM Draft.add? ⟨[], []⟩).map Draft.document

end Toml

end Sift
