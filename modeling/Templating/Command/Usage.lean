/-!
# What the program says about itself

Help on the program and on each of its commands, and the version.  Help that was
asked for by its full name is longer where there is more to say.
-/
set_option autoImplicit false

namespace Templating.Command

inductive Topic where
  | program
  | compile
  | render
  | help
deriving DecidableEq, Repr

def lines (texts : List String) : String := String.join (texts.map fun text => text ++ "\n")

def versionText : String := "quill 0.1.0\n"

namespace Topic

def ofName? : String → Option Topic
  | "compile" => some .compile
  | "render" => some .render
  | "help" => some .help
  | _ => none

def programText : String :=
  lines
    ["Quill template compiler", "",
      "Usage: quill <COMMAND>", "",
      "Commands:",
      "  compile  Compile a template into render functions",
      "  render   Compile and render a template, printing the resulting HTML",
      "  help     Print this message or the help of the given subcommand(s)", "",
      "Options:",
      "  -h, --help     Print help",
      "  -V, --version  Print version"]

def compileText : String :=
  lines
    ["Compile a template into render functions", "",
      "Usage: quill compile [OPTIONS] <INPUT>", "",
      "Arguments:",
      "  <INPUT>  ", "",
      "Options:",
      "      --out-dir <OUT_DIR>  Output directory (default: target/quill-gen)",
      "      --emit <EMIT>        [default: render] [possible values: render, ast, all]",
      "      --no-optimize        Skip static analysis; every node is generated inline",
      "      --comments           Keep HTML comments in the output",
      "      --condense           Collapse whitespace instead of preserving it",
      "      --source-range       Report diagnostic offsets relative to the file",
      "  -h, --help               Print help (see more with '--help')"]

def longCompileText : String :=
  lines
    ["Compile a template into render functions", "",
      "Usage: quill compile [OPTIONS] <INPUT>", "",
      "Arguments:",
      "  <INPUT>",
      "          ", "",
      "Options:",
      "      --out-dir <OUT_DIR>",
      "          Output directory (default: target/quill-gen)", "",
      "      --emit <EMIT>",
      "          Possible values:",
      "          - render: \x60render\x60 and \x60staticRenderFns\x60 as a JS module",
      "          - ast:    An outline of the AST with its static flags",
      "          - all",
      "          ",
      "          [default: render]", "",
      "      --no-optimize",
      "          Skip static analysis; every node is generated inline", "",
      "      --comments",
      "          Keep HTML comments in the output", "",
      "      --condense",
      "          Collapse whitespace instead of preserving it", "",
      "      --source-range",
      "          Report diagnostic offsets relative to the file", "",
      "  -h, --help",
      "          Print help (see a summary with '-h')"]

def renderText : String :=
  lines
    ["Compile and render a template, printing the resulting HTML", "",
      "Usage: quill render [OPTIONS] <INPUT>", "",
      "Arguments:",
      "  <INPUT>  ", "",
      "Options:",
      "  -d, --data <DATA>   Data as key=value; repeatable",
      "      --no-optimize   Skip static analysis; every node is generated inline",
      "      --comments      Keep HTML comments in the output",
      "      --condense      Collapse whitespace instead of preserving it",
      "      --source-range  Report diagnostic offsets relative to the file",
      "  -h, --help          Print help"]

def helpText : String :=
  lines
    ["Print this message or the help of the given subcommand(s)", "",
      "Usage: quill help [COMMAND]...", "",
      "Arguments:",
      "  [COMMAND]...  Print help for the subcommand(s)"]

def text (isLong : Bool) : Topic → String
  | .program => programText
  | .compile => if isLong then longCompileText else compileText
  | .render => renderText
  | .help => helpText

end Topic

end Templating.Command
