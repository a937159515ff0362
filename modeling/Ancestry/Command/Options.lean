import Ancestry.Path
import Ancestry.Text.Quoted

/-!
Options of the command line, and what is said to those who use it wrongly.
-/

namespace Ancestry.Command

/-- How a server talks to its clients. -/
inductive Transport where
  | stdio
  | streamableHttp
  | sse
  deriving DecidableEq, Repr

namespace Transport

def name : Transport → String
  | stdio => "stdio"
  | streamableHttp => "streamable-http"
  | sse => "sse"

def all : List Transport :=
  [stdio, streamableHttp, sse]

def ofName? (name : String) : Option Transport :=
  all.find? (·.name = name)

end Transport

inductive Flag where
  | help
  | projectRoot
  | config
  | logDirectory
  | transport
  deriving DecidableEq, Repr

namespace Flag

/-- All spellings of flags, in order. -/
def spellings : List (String × Flag) :=
  [("-h", help), ("--help", help), ("--project-root", projectRoot), ("--config", config),
   ("--log-dir", logDirectory), ("--transport", transport)]

def ofSpelling? (s : String) : Option Flag :=
  spellings.lookup s

/-- All spellings of a flag. -/
def shown (f : Flag) : String :=
  "/".intercalate ((spellings.filter (·.2 = f)).map (·.1))

end Flag

/-- What the command line asks for. -/
structure Options where
  projectRoot? : Option Path := none
  config? : Option Path := none
  logDirectory? : Option Path := none
  transport : Transport := .stdio
  deriving DecidableEq, Repr

/-- How a command line can be wrong. -/
inductive UsageError where
  | ambiguous (argument : String) (spellings : List String)
  | missingValue (flag : Flag)
  | unwantedValue (flag : Flag) (value : String)
  | unknownTransport (name : String)
  | unrecognized (arguments : List String)
  deriving DecidableEq, Repr

def UsageError.message : UsageError → String
  | ambiguous argument spellings =>
    "ambiguous option: " ++ argument ++ " could match " ++ ", ".intercalate spellings
  | missingValue flag => "argument " ++ flag.shown ++ ": expected one argument"
  | unwantedValue flag value =>
    "argument " ++ flag.shown ++ ": ignored explicit argument " ++ Text.quoted value
  | unknownTransport name =>
    "argument " ++ Flag.transport.shown ++ ": invalid choice: " ++ Text.quoted name ++
      " (choose from " ++
      ", ".intercalate (Transport.all.map fun t => Text.quoted t.name) ++ ")"
  | unrecognized arguments => "unrecognized arguments: " ++ " ".intercalate arguments

/-- The name of the program. -/
def programName : String := "provide-seeker"

def usage : String :=
  "usage: provide-seeker [-h] [--project-root PROJECT_ROOT] [--config CONFIG]\n" ++
  "                      [--log-dir LOG_DIR]\n" ++
  "                      [--transport \x7bstdio,streamable-http,sse\x7d]\n"

def help : String :=
  usage ++ "\n" ++
  "provide-seeker MCP Server\n" ++
  "\n" ++
  "options:\n" ++
  "  -h, --help            show this help message and exit\n" ++
  "  --project-root PROJECT_ROOT\n" ++
  "                        Workspace to analyze. Default: current directory\n" ++
  "  --config CONFIG       Path to the YAML configuration file. Default:\n" ++
  "                        ./.provide_seeker.yml\n" ++
  "  --log-dir LOG_DIR     Write structured JSON logs to this directory\n" ++
  "  --transport \x7bstdio,streamable-http,sse\x7d\n" ++
  "                        Transport type for MCP server. Default: stdio\n"

/-- What a wrong command line is answered with. -/
def UsageError.text (e : UsageError) : String :=
  usage ++ programName ++ ": error: " ++ e.message ++ "\n"

end Ancestry.Command
