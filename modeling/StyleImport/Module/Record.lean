/-
What is known about a module.
-/
import StyleImport.Text.Basic

namespace StyleImport

/-- What is known about a module.  A module without a stylesheet directory can be found and not be
imported from. -/
structure ModuleRecord where
  /-- The name of the module, with its scope. -/
  name : Text
  /-- The directory that its stylesheets are in. -/
  stylesheetDir : Option Text := none
  /-- The file that is the module's entry. -/
  mainPath : Option Text := none
  /-- The file that the record was read from. -/
  metadataFile : Option Text := none
  deriving DecidableEq, Repr

end StyleImport
