import Stencil.Config.Basic
import Stencil.Toml.Document

/-!
# Configuration files

A configuration is the table `view` of a TOML document, which may hold other
tables for others.  Fields that are missing have their standard values; a field
that is unknown, or of another type than it should be, is an error.
-/

namespace Stencil.Config

namespace Field

def ofKey? (key : Text) : Option Field := all.find? fun f => f.key == key

theorem ofKey?_key (f : Field) : ofKey? f.key = some f := by
  cases f <;> decide

end Field

def tableKey : Text := "view".toList

def set? (c : Config) : Field → Toml → Option Config
  | .viewRoot, .string t => some { c with viewRoot := ⟨t⟩ }
  | .cacheRoot, .string t => some { c with cacheRoot := ⟨t⟩ }
  | .templateExtension, .string t => some { c with templateExtension := t }
  | .artifactExtension, .string t => some { c with artifactExtension := t }
  | .verbose, .boolean b => some { c with verbose := b }
  | _, _ => none

def ofFields? (c : Config) : Toml.Fields → Option Config
  | [] => some c
  | (key, value) :: fields =>
    match Field.ofKey? key with
    | none => none
    | some f =>
      match c.set? f value with
      | none => none
      | some c => ofFields? c fields

/-- Values without keys are those of the first fields, in their order. -/
def ofItems? (c : Config) : List (Field × Toml) → Option Config
  | [] => some c
  | (f, value) :: items =>
    match c.set? f value with
    | none => none
    | some c => ofItems? c items

def ofValue? : Toml → Option Config
  | .table _ fields => ofFields? standard fields
  | .inline fields => ofFields? standard fields
  | .array items => ofItems? standard (Field.all.zip items)
  | _ => none

def parse (document : Text) : Except ConfigError Config :=
  match Toml.read? document with
  | none => .error .malformed
  | some fields =>
    match fields.get? tableKey with
    | none => .ok standard
    | some value =>
      match ofValue? value with
      | some c => .ok c
      | none => .error .malformed

def load (files : FileSystem) (path : Path) : Except ConfigError Config :=
  match files.readText path with
  | .ok document => parse document
  | .error _ => .error (.unreadable path)

end Stencil.Config
