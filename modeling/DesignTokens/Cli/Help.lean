/-
  DesignTokens.Cli.Help — the pages of help, and the words for faults of the arguments.
-/
import DesignTokens.Cli.Arguments

namespace DesignTokens.Cli

/-- What the program is called, and its version. -/
def versionText : String := "tinct 0.1.0"

/-- What the program does. -/
def aboutProgram : String := "Design-token build compiler"

/-- The line of help for an option that all commands have. -/
def verboseHelp (gap : String) : String :=
  "  -v, --verbose..." ++ gap ++ "Increase log verbosity (-v debug, -vv trace)"

/-- The option that says where the configuration is, in a page of help. -/
def configHelp : String :=
  "      --config <CONFIG>  Path to tinct.toml or the directory containing it [default: .]"

/-- A page of help, line by line. -/
def helpLines : Topic → List String
  | .program => [
    aboutProgram, "",
    "Usage: tinct [OPTIONS] <COMMAND>", "",
    "Commands:",
    "  build  Build every entry and write the configured outputs",
    "  check  Build every entry without writing outputs",
    "  init   Create a tinct.toml and starter documents",
    "  help   Print this message or the help of the given subcommand(s)", "",
    "Options:",
    verboseHelp "  ",
    "  -h, --help        Print help",
    "  -V, --version     Print version"]
  | .build => [
    "Build every entry and write the configured outputs", "",
    "Usage: tinct build [OPTIONS]", "",
    "Options:",
    configHelp,
    verboseHelp "       ",
    "      --entry <ENTRY>    Only build the entry with this file",
    "  -h, --help             Print help"]
  | .check => [
    "Build every entry without writing outputs", "",
    "Usage: tinct check [OPTIONS]", "",
    "Options:",
    configHelp,
    verboseHelp "       ",
    "  -h, --help             Print help"]
  | .init => [
    "Create a tinct.toml and starter documents", "",
    "Usage: tinct init [OPTIONS] [PATH]", "",
    "Arguments:",
    "  [PATH]  Project directory [default: .]", "",
    "Options:",
    "      --name <NAME>  Project name (defaults to the directory name)",
    verboseHelp "   ",
    "  -h, --help         Print help"]

/-- What is wrong with the arguments, line by line. -/
def UsageError.message : UsageError → List String
  | .nothing => helpLines .program
  | .missingCommand => ["error: 'tinct' requires a subcommand but one was not provided"]
  | .unknownCommand name => ["error: unrecognized subcommand '" ++ name ++ "'"]
  | .unexpectedArgument argument => ["error: unexpected argument '" ++ argument ++ "' found"]
  | .missingValue shown =>
    ["error: a value is required for '" ++ shown ++ "' but none was supplied"]
  | .repeated shown =>
    ["error: the argument '" ++ shown ++ "' cannot be used multiple times"]
  | .unexpectedValue value shown =>
    ["error: unexpected value '" ++ value ++ "' for '" ++ shown
      ++ "' found; no more were accepted"]

end DesignTokens.Cli
