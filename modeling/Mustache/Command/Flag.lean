import Mustache.Text.Quoted

/-!
# Flags of the command line

The flags, their spellings, and what is said when a command line does not make sense.
-/

namespace Mustache

namespace Command

/-- What can be set on the command line. -/
inductive Flag where
  | help
  | data
  | dataFile
  | partialsFile
  | partialsDir
  | output
  | maxDepth
  | verbose
  deriving DecidableEq

namespace Flag

/-- The spellings of the flags, in the order in which messages name them. -/
def spellings : List (Text × Flag) :=
  [("-h".toList, help), ("--help".toList, help), ("--data".toList, data), ("-d".toList, data),
   ("--data-file".toList, dataFile), ("-f".toList, dataFile),
   ("--partials-file".toList, partialsFile), ("-p".toList, partialsFile),
   ("--partials-dir".toList, partialsDir), ("--output".toList, output), ("-o".toList, output),
   ("--max-partial-depth".toList, maxDepth), ("--verbose".toList, verbose),
   ("-v".toList, verbose)]

/-- Is the flag followed by a value? -/
def takesValue : Flag → Bool
  | help | verbose => false
  | _ => true

/-- All spellings of a flag, as messages name it. -/
def title (flag : Flag) : Text :=
  ['/'].intercalate ((spellings.filter fun entry => entry.2 = flag).map Prod.fst)

end Flag

/-- Why a command line does not make sense. -/
inductive UsageError where
  /-- An argument is short for more than one flag. -/
  | ambiguous (argument : Text) (choices : List Text)
  /-- A flag that takes a value has none. -/
  | noValue (flag : Flag)
  /-- A flag that takes no value has one. -/
  | ignoredValue (flag : Flag) (value : Text)
  /-- The value of a flag is no integer. -/
  | badInteger (flag : Flag) (value : Text)
  | noTemplate
  | unrecognized (arguments : List Text)

/-- The wording of a usage error. -/
def UsageError.message : UsageError → Text
  | ambiguous argument choices =>
    "ambiguous option: ".toList ++ argument ++ " could match ".toList ++
      ", ".toList.intercalate choices
  | noValue flag => "argument ".toList ++ flag.title ++ ": expected one argument".toList
  | ignoredValue flag value =>
    "argument ".toList ++ flag.title ++ ": ignored explicit argument ".toList ++ Text.quoted value
  | badInteger flag value =>
    "argument ".toList ++ flag.title ++ ": invalid int value: ".toList ++ Text.quoted value
  | noTemplate => "the following arguments are required: template".toList
  | unrecognized arguments =>
    "unrecognized arguments: ".toList ++ [' '].intercalate arguments

/-- How the program is called. -/
def usage : Text :=
  "usage: mustachio [-h] [--data DATA] [--data-file DATA_FILE]
                 [--partials-file PARTIALS_FILE] [--partials-dir PARTIALS_DIR]
                 [--output OUTPUT] [--max-partial-depth MAX_PARTIAL_DEPTH]
                 [--verbose]
                 template
".toList

/-- What the program does, and what each flag is for. -/
def help : Text :=
  usage ++ "
Mustachio - Render logic-less Mustache templates

positional arguments:
  template              Path to template file, or - for stdin

options:
  -h, --help            show this help message and exit
  --data DATA, -d DATA  JSON data
  --data-file DATA_FILE, -f DATA_FILE
                        Path to JSON data file
  --partials-file PARTIALS_FILE, -p PARTIALS_FILE
                        Path to JSON object of partials
  --partials-dir PARTIALS_DIR
                        Directory of .mustache files used as partials
  --output OUTPUT, -o OUTPUT
                        Write output to file instead of stdout
  --max-partial-depth MAX_PARTIAL_DEPTH
                        Fail when partials nest deeper than this (default:
                        unbounded)
  --verbose, -v         Enable debug logging
".toList

end Command

end Mustache
