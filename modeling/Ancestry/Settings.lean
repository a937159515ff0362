import Ancestry.Disk.Tree
import Ancestry.Log.Entry
import Ancestry.Text.Space
import Ancestry.Yaml.Cursor
import Ancestry.Yaml.Value

/-!
Settings of a project: seven values with defaults, some of which a settings file replaces.

Each entry of the file stands for itself. One that names no setting, or whose value the setting does
not accept, is reported and changes nothing.
-/

namespace Ancestry
open Ancestry.Yaml

structure Settings where
  /-- Selects the component files below the root. -/
  componentGlob : String := "**/*.vue"
  /-- Patterns of files that are no candidates. -/
  excludePatterns : List String := ["**/node_modules/**"]
  /-- The extension of component files with its dot. -/
  componentExtension : String := ".vue"
  /-- More patterns of files that are no candidates. -/
  ignorePatterns : List String := []
  /-- How many reads may take place at once. -/
  maxReads : Nat := 64
  /-- Whether a change of a file drops the importers of every component. -/
  strict : Bool := false
  /-- Whether a server follows the events of the file system. -/
  watches : Bool := true
  deriving DecidableEq, Repr

namespace Settings

/-- The names of the settings. -/
inductive Key where
  | componentGlob
  | excludePatterns
  | componentExtension
  | ignorePatterns
  | maxReads
  | strict
  | watches
  deriving DecidableEq, Repr

namespace Key

def name : Key → String
  | componentGlob => "component_glob"
  | excludePatterns => "exclude_patterns"
  | componentExtension => "component_extension"
  | ignorePatterns => "ignore_patterns"
  | maxReads => "max_concurrent_reads"
  | strict => "strict_importer_invalidation"
  | watches => "enable_file_watcher"

def all : List Key :=
  [componentGlob, excludePatterns, componentExtension, ignorePatterns, maxReads, strict, watches]

/-- The key that a value names. -/
def ofValue? : Value → Option Key
  | .text word => all.find? (·.name = word)
  | _ => none

end Key

/-- The texts of a list that holds nothing else. -/
def texts? : List Value → Option (List String)
  | [] => some []
  | .text s :: rest => (texts? rest).map (s :: ·)
  | _ => none

/-- An extension starts with a dot and goes on. -/
def isExtension (s : String) : Bool :=
  match s.toList with
  | '.' :: _ :: _ => true
  | _ => false

/-- Replaces one setting if it accepts the value. -/
def put? (s : Settings) : Key → Value → Option Settings
  | .componentGlob, .text t =>
    if Text.isBlank t.toList then none else some { s with componentGlob := t }
  | .excludePatterns, .list items => (texts? items).map fun p => { s with excludePatterns := p }
  | .componentExtension, .text t =>
    if isExtension t then some { s with componentExtension := t } else none
  | .ignorePatterns, .list items => (texts? items).map fun p => { s with ignorePatterns := p }
  | .maxReads, .int n => if 0 < n then some { s with maxReads := n.toNat } else none
  | .strict, .bool b => some { s with strict := b }
  | .watches, .bool b => some { s with watches := b }
  | _, _ => none

/-- The value of a setting, as a file would give it. -/
def get (s : Settings) : Key → Value
  | .componentGlob => .text s.componentGlob
  | .excludePatterns => .list (s.excludePatterns.map .text)
  | .componentExtension => .text s.componentExtension
  | .ignorePatterns => .list (s.ignorePatterns.map .text)
  | .maxReads => .int s.maxReads
  | .strict => .bool s.strict
  | .watches => .bool s.watches

def default : Settings := {}

/-- The configured patterns of files that are no candidates. -/
def patterns (s : Settings) : List String :=
  s.excludePatterns ++ s.ignorePatterns

/-- What may be wrong with settings that are read all the same. -/
inductive Warning where
  | unknownKey (key : Value)
  | badValue (key : Key) (value : Value)
  | empty
  | noMapping (value : Value)
  | notYaml (file : Path) (error : Yaml.Error)
  | unreadable (file : Path) (fault : Disk.Fault)

def Warning.message : Warning → String
  | unknownKey key => "Unknown configuration parameter '" ++ key.message ++ "', ignoring"
  | badValue key value =>
    "Invalid value for '" ++ key.name ++ "': " ++ value.message ++ ", using default " ++
      (default.get key).message
  | empty => "Configuration file is empty, using defaults"
  | noMapping value =>
    "Configuration file must contain a YAML dictionary, got <class '" ++ value.typeName ++
      "'>, using defaults"
  | notYaml file error =>
    "Error parsing configuration file " ++ file.toString ++ ": " ++ error.message file.toString ++
      ", using defaults"
  | unreadable file fault =>
    "Error reading configuration file " ++ file.toString ++ ": " ++
      fault.message file.toString ++ ", using defaults"

/-- Why a warning cannot be written, if it cannot: the stack leaves `levels` levels for the value that
it shows. -/
def Warning.fault? (levels : Nat) : Warning → Option ValueFault
  | unknownKey key => key.messageFault? levels
  | badValue _ value => value.messageFault? levels
  | _ => none

/-- Takes over one entry of a file, or warns of it. -/
def mergeEntry (s : Settings) (entry : Value × Value) : Settings × List Warning :=
  match Key.ofValue? entry.1 with
  | none => (s, [.unknownKey entry.1])
  | some key =>
    match s.put? key entry.2 with
    | none => (s, [.badValue key entry.2])
    | some s => (s, [])

/-- Takes over the entries of a file, one after the other. -/
def merge (s : Settings) : List (Value × Value) → Settings × List Warning
  | [] => (s, [])
  | entry :: rest =>
    let (s, first) := s.mergeEntry entry
    let (s, more) := s.merge rest
    (s, first ++ more)

/-- The settings that a document stands for. -/
def ofValue : Value → Settings × List Warning
  | .null => (default, [.empty])
  | .mapping pairs => default.merge pairs
  | value => (default, [.noMapping value])

/-- Why there are no settings. -/
inductive LoadError where
  | badText (error : Text.Utf8.Error)
  | badValue (fault : ValueFault)
  | path (fault : Disk.PathFault)
  deriving DecidableEq, Repr

def LoadError.message : LoadError → String
  | badText error => error.message
  | badValue fault => fault.message
  | path fault => fault.message

/-- The name of the settings file of a project. -/
def fileName : String := ".provide_seeker.yml"

/-- Who speaks of settings in the log. -/
def logger : String := "provide_seeker.config"

/-- The settings of a document that was read, or could not be. -/
def ofReading (file : Path) :
    Except Yaml.Error Value → Except LoadError (Settings × List Warning)
  | .ok value => .ok (ofValue value)
  | .error (.badText error) => .error (.badText error)
  | .error (.badValue fault) => .error (.badValue fault)
  | .error e => .ok (default, [.notYaml file e])

/-- Logs warnings up to one that cannot be written. -/
def logWarnings (levels : Nat) : List Warning → List Log.Entry × Except LoadError Unit
  | [] => ([], .ok ())
  | w :: rest =>
    match w.fault? levels with
    | some fault => ([], .error (.badValue fault))
    | none =>
      let (entries, result) := logWarnings levels rest
      (⟨logger, .warning, w.message⟩ :: entries, result)

/-- The settings of a document with what is logged about them. -/
def ofDocument (levels : Nat) (file : Path) (reading : Except Yaml.Error Value) :
    List Log.Entry × Except LoadError Settings :=
  match ofReading file reading with
  | .error e => ([], .error e)
  | .ok (settings, warnings) =>
    let (entries, result) := logWarnings levels warnings
    (entries, result.map fun _ => settings)

/-- Reads settings from a file, as seen from the directory `here`. Where there is no file, the
defaults hold. What is logged before a failure stays logged. `read` makes a document of the bytes of
a file, and the stack leaves `levels` levels for a value in the log. -/
def load (read : List UInt8 → Except Yaml.Error Value) (levels : Nat) (tree : Disk.Tree)
    (here file : Path) : List Log.Entry × Except LoadError Settings :=
  match tree.find? here file with
  | .error fault => ([], .error (.path fault))
  | .ok none =>
    ([⟨logger, .info, "Configuration file not found at " ++ file.toString ++
      ", using defaults"⟩], .ok default)
  | .ok (some place) =>
    match tree.bytes place with
    | .ok bytes => ofDocument levels file (read bytes)
    | .error fault =>
      ([⟨logger, .warning, (Warning.unreadable file fault).message⟩], .ok default)

end Settings
end Ancestry
