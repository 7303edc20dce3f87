import Stencil.Cache.Chain
import Stencil.Log

/-!
# The cache

Artifacts are kept in files.  An artifact is used again as long as it is fresh:
neither its source nor any layout that it records has changed after the time
that it carries.  That time is the latest change among the sources, as found
before they were read, so a change during a build still makes it stale.
-/

namespace Stencil

def notAfter (files : FileSystem) (source : Path) (time : Int) : Bool :=
  (files.modified? source).any (· ≤ time)

namespace Config

def freshText? (c : Config) (files : FileSystem) (source artifact : Path) : Option Text :=
  match files.modified? artifact with
  | none => none
  | some time =>
    if notAfter files source time then
      match files.readText artifact with
      | .error _ => none
      | .ok text =>
        if (Artifact.dependencies text).all fun layout =>
            isTemplateName layout && notAfter files (c.sourceFile layout) time then
          some text
        else none
    else none

/-- Whether the artifact of a template can be used as it is. -/
def isFresh (c : Config) (files : FileSystem) (name : Text) : Bool :=
  isTemplateName name && (c.freshText? files (c.sourceFile name) (c.artifactPath name)).isSome

end Config

structure Cache where
  config : Config
  files : FileSystem
  builds : Nat
  events : List Event

namespace Cache

def new (config : Config) (files : FileSystem) : Cache := ⟨config, files, 0, []⟩

def report (c : Cache) (e : Event) : Cache :=
  if c.config.verbose then { c with events := c.events ++ [e] } else c

def contains (c : Cache) (name : Text) : Bool :=
  isTemplateName name && c.files.isFile (c.config.sourceFile name)

def isFresh (c : Cache) (name : Text) : Bool := c.config.isFresh c.files name

/-- Keeps a build in the file of its artifact.  Directories are made as far as possible
even if the file cannot be written. -/
def keep (c : Cache) (name : Text) (build : Build) : Except Failure Unit × Cache :=
  let path := c.config.artifactPath name
  let files := c.files.makeDirectories c.config.cacheRoot
  match files.write? path (Text.bytes build.text).toByteArray (build.stamp.getD files.now) with
  | none => (.error (.writeFailed path), { c with files })
  | some files => (.ok (), { c with files, builds := c.builds + 1 }.report (.compiled name path))

def get (c : Cache) (name : Text) : Except Failure Text × Cache :=
  match c.config.sourcePath name with
  | .error e => (.error e, c)
  | .ok source =>
    if c.files.isFile source then
      match c.config.freshText? c.files source (c.config.artifactPath name) with
      | some text => (.ok text, c)
      | none =>
        match Build.ofFiles c.config c.files name with
        | .error e => (.error e, c)
        | .ok build =>
          match c.keep name build with
          | (.error e, c) => (.error e, c)
          | (.ok (), c) => (.ok build.text, c)
    else (.error (.templateNotFound name source), c)

def getAll (c : Cache) : List Text → Except Failure Unit × Cache
  | [] => (.ok (), c)
  | name :: names =>
    match c.get name with
    | (.error e, c) => (.error e, c)
    | (.ok _, c) => c.getAll names

def warm (c : Cache) : Except Failure Nat × Cache :=
  let names := c.config.templates c.files
  match c.getAll names with
  | (.error e, c) => (.error e, c)
  | (.ok (), c) => (.ok names.length, c.report (.warmed names.length))

/-- The names of the artifact files in the cache directory, which is at a place.  A file whose path
is too long does not count as one. -/
def artifactFiles (c : Cache) (place : Place) : List Text :=
  (c.files.children place).filterMap fun (name, e) =>
    match FileName.split? name with
    | some (_, extension) =>
      if e.isFile && extension == c.config.artifactExtension &&
          Text.utf8Length (c.config.cacheRoot.join ⟨name⟩).text ≤ FileSystem.pathLimit then
        some name
      else none
    | none => none

def clear (c : Cache) : Except Failure Nat × Cache :=
  let root := c.config.cacheRoot
  match c.files.walk root with
  | .error .absent => (.ok 0, c)
  | .error .blocked => (.error (.unreadable root), c)
  | .ok place =>
    match c.files.at? place with
    | none => (.ok 0, c)
    | some e =>
      if e.isDirectory then
        let names := c.artifactFiles place
        let files := names.foldl (fun files name => files.remove (name :: place)) c.files
        (.ok names.length, { c with files }.report (.cleared names.length))
      else (.error (.unreadable root), c)

end Cache

end Stencil
