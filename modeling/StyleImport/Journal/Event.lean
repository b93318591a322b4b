/-
What happens on the way, worth a line in a journal.

An event names the part of the library that it comes from, how serious it is, and what happened in
words.  Operations return their events; whether they are written anywhere is the business of the
journal.
-/
import StyleImport.Text.Basic

namespace StyleImport

/-- The part of the library that an event comes from. -/
inductive Source where
  /-- Finding the module of an identifier. -/
  | locator
  /-- Looking up module records. -/
  | registry
  /-- The sandbox. -/
  | sandbox
  /-- The session that imports share. -/
  | session
  /-- Imports from modules and directories. -/
  | moduleImports
  /-- Imports that register a location. -/
  | registrations
  /-- File queries. -/
  | queries
  /-- Settings files. -/
  | settings
  deriving DecidableEq, Repr

/-- The name under which a part writes to the journal. -/
def Source.name : Source → Text
  | .locator => "stylepath.module_resolution.locator"
  | .registry => "stylepath.module_resolution.registry"
  | .sandbox => "stylepath.sandbox"
  | .session => "stylepath.importers.base"
  | .moduleImports => "stylepath.importers.module_importer"
  | .registrations => "stylepath.importers.fs_importer"
  | .queries => "stylepath.functions.fs"
  | .settings => "stylepath.settings"

/-- The number of a level by which levels are compared. -/
abbrev Level : Type := Int

namespace Level

/-- Details. -/
def debug : Level := 10

/-- Progress. -/
def info : Level := 20

/-- Something is wrong and was worked around. -/
def warning : Level := 30

/-- Something failed. -/
def error : Level := 40

/-- The program cannot go on. -/
def critical : Level := 50

end Level

/-- Something that happened. -/
structure Event where
  /-- Where it comes from. -/
  source : Source
  /-- How serious it is. -/
  level : Level
  /-- What happened. -/
  message : Text
  deriving DecidableEq, Repr

/-- A detail. -/
def Event.detail (source : Source) (message : Text) : Event := ⟨source, Level.debug, message⟩

end StyleImport
