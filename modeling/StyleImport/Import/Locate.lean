/-
Finding the module of an identifier.

An identifier that starts with a dot or a slash names no module and is looked up nowhere.  Any other
one starts with a module name, which is looked up from the requesting file, or from the root if that
is no file.  A scoped name that is unknown is tried once more as the module of its scope.
-/
import StyleImport.Import.Plan
import StyleImport.Module.Identifier
import StyleImport.Uri

namespace StyleImport

/-- What is found out about an identifier before any file is looked for. -/
structure Located where
  /-- The identifier. -/
  identifier : Text
  /-- The name of its module, if it has one. -/
  moduleName : Option Text
  /-- The path inside the module, or the identifier itself. -/
  relativePath : Text
  /-- What is known about the module. -/
  record : Option ModuleRecord
  /-- Whether the requesting file is a file. -/
  isRealFile : Bool
  /-- The requesting file, or else the root. -/
  contextPath : Text
  deriving DecidableEq, Repr

namespace Located

/-- A path as it is shown; no path is `None`. -/
def shownPath (p : Option Text) : Text := p.getD ['N', 'o', 'n', 'e']

/-- The event that a module was found. -/
def foundEvent (identifier : Text) (r : ModuleRecord) : Event :=
  .detail .locator ("[module:locate] " ++ identifier ++ " -> " ++ r.name ++ " ("
    ++ shownPath r.stylesheetDir ++ ")")

/-- The event that a scoped name is tried once more. -/
def retryEvent (identifier scope : Text) : Event :=
  .detail .locator ("[module:locate] " ++ identifier ++ " -> retrying as scoped module " ++ scope)

/-- The lookup of a module name, and of its scope if it is unknown: the name in the end, the path
inside the module and the record. -/
def lookupModule (identifier context name path : Text) :
    Plan (Text × Text × Option ModuleRecord) :=
  .lookup name context fun
    | some r => .done (name, path, some r)
    | none =>
      if ModuleName.hasScope name then
        let (scope, path) := ModuleName.widen name path
        .note (retryEvent identifier scope)
          (.lookup scope context fun r => .done (scope, path, r))
      else .done (name, path, none)

/-- The located identifier that names no module. -/
def direct (identifier : Text) (isRealFile : Bool) (context : Text) : Located :=
  ⟨identifier, none, identifier, none, isRealFile, context⟩

/-- Finding the module of an identifier that a file asks for. -/
def locate (root identifier prev : Text) : Plan Located :=
  .isFile prev fun isRealFile =>
    let context := if isRealFile then prev else root
    if Uri.isRelative identifier || Path.isAbsolute identifier then
      .done (direct identifier isRealFile context)
    else match ModuleName.split identifier with
      | none => .fail (.promised (.unrecognized identifier))
      | some (name, path) =>
        (lookupModule identifier context name path).bind fun (name, path, record) =>
          let located : Located := ⟨identifier, some name, path, record, isRealFile, context⟩
          match record with
          | some r => .note (foundEvent identifier r) (.done located)
          | none => .done located

end Located

end StyleImport
