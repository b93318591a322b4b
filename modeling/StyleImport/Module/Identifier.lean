/-
Identifiers that start with the name of a module.

A module is named by one segment, `widgets`, or by a scope and a segment, `@scope/widgets`; what
follows the next slash is the path inside the module.  The empty identifier and one that starts with
a slash name no module.

* `ModuleName.split` — an identifier cut after its module name;
* `ModuleName.widen` — a scoped name read as the module of that scope.
-/
import StyleImport.Text.Basic

namespace StyleImport

namespace ModuleName

/-- The segment in front of a text and what follows it, slash included. -/
def segment (t : Text) : Text × Text := (t.takeWhile (· ≠ '/'), t.dropWhile (· ≠ '/'))

/-- What follows a slash in front, if there is one; else all of the text. -/
def afterSlash : Text → Text
  | '/' :: cs => cs
  | cs => cs

/-- The scoped name in front of an identifier and what follows it. -/
def scoped? : Text → Option (Text × Text)
  | '@' :: cs =>
    match segment cs with
    | (scope, '/' :: rest) =>
      let (name, rest) := segment rest
      if scope = [] || name = [] then none else some ('@' :: scope ++ '/' :: name, rest)
    | _ => none
  | _ => none

/-- The module name of an identifier and the path inside the module. -/
def split (identifier : Text) : Option (Text × Text) :=
  match scoped? identifier with
  | some (name, rest) => some (name, afterSlash rest)
  | none =>
    let (name, rest) := segment identifier
    if name = [] then none else some (name, afterSlash rest)

/-- Whether a module name has a scope. -/
def hasScope (name : Text) : Bool := name.head? = some '@'

/-- A scoped name and a path read as the module of that scope and a path inside it. -/
def widen (name path : Text) : Text × Text :=
  let (scope, rest) := segment name
  (scope, Text.joinWith ['/'] ([afterSlash rest, path].filter (· ≠ [])))

end ModuleName

end StyleImport
