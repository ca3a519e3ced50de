/-!
# Commands and their usage
-/

namespace FragmentRouting.CommandLine

inductive Command where
  | compile
  | extract
  | encode
  | decode
  | routes
  deriving DecidableEq, Repr

inductive Flag where
  | help
  | named
  | encodedSplat
  | delimiter
  deriving DecidableEq, Repr

namespace Flag

/-- The ways to write a flag. -/
def spellings : Flag → List String
  | help => ["-h", "--help"]
  | named => ["--named"]
  | encodedSplat => ["--encoded-splat"]
  | delimiter => ["--delimiter"]

/-- The name of a flag in messages. -/
def title (f : Flag) : String :=
  "/".intercalate f.spellings

end Flag

namespace Command

def all : List Command :=
  [compile, extract, encode, decode, routes]

def name : Command → String
  | compile => "compile"
  | extract => "match"
  | encode => "encode"
  | decode => "decode"
  | routes => "routes"

def ofName? (name : String) : Option Command :=
  all.find? fun c => c.name = name

def flags : Command → List Flag
  | compile | routes => [.help]
  | extract => [.help, .named, .encodedSplat, .delimiter]
  | encode | decode => [.help, .delimiter]

/-- The names of the arguments that a command needs. -/
def arguments : Command → List String
  | compile => ["template"]
  | extract => ["template", "fragment"]
  | encode => ["data"]
  | decode => ["query"]
  | routes => ["router"]

def program : Command → String
  | c => "fragroute " ++ c.name

def usage : Command → String
  | compile => "usage: fragroute compile [-h] template\n"
  | extract =>
    "usage: fragroute match [-h] [--named] [--encoded-splat]\n"
      ++ "                       [--delimiter DELIMITER]\n"
      ++ "                       template fragment\n"
  | encode => "usage: fragroute encode [-h] [--delimiter DELIMITER] data\n"
  | decode => "usage: fragroute decode [-h] [--delimiter DELIMITER] query\n"
  | routes => "usage: fragroute routes [-h] router\n"

def delimiterHelp : String :=
  "  --delimiter DELIMITER\n"
    ++ "                        Array-join delimiter for query values (default: '|',\n"
    ++ "                        '' disables)\n"

def help (c : Command) : String :=
  c.usage ++ "\npositional arguments:\n" ++
    match c with
    | compile =>
      "  template    Route template (e.g. 'users/:id')\n"
        ++ "\noptions:\n  -h, --help  show this help message and exit\n"
    | extract =>
      "  template              Route template (e.g. 'users/:id')\n"
        ++ "  fragment              Fragment to match (e.g. 'users/42?tab=posts')\n"
        ++ "\noptions:\n  -h, --help            show this help message and exit\n"
        ++ "  --named               Return a single \x7bname: value\x7d mapping instead of\n"
        ++ "                        positional values\n"
        ++ "  --encoded-splat       Leave splat values percent-encoded\n"
        ++ delimiterHelp
    | encode =>
      "  data                  JSON object (e.g. '\x7b\"tags\": [\"a\", \"b\"]\x7d')\n"
        ++ "\noptions:\n  -h, --help            show this help message and exit\n"
        ++ delimiterHelp
    | decode =>
      "  query                 Query string, with or without a leading '?'\n"
        ++ "\noptions:\n  -h, --help            show this help message and exit\n"
        ++ delimiterHelp
    | routes =>
      "  router      Import string (e.g. myapp:router)\n"
        ++ "\noptions:\n  -h, --help  show this help message and exit\n"

end Command

/-- The usage without a command. -/
def usage : String :=
  "usage: fragroute [-h] \x7bcompile,match,encode,decode,routes\x7d ...\n"

/-- The help without a command. -/
def help : String :=
  usage
    ++ "\nFragroute — route templates, parameter extraction, and query strings.\n"
    ++ "\npositional arguments:\n  \x7bcompile,match,encode,decode,routes\x7d\n"
    ++ "    compile             Show the compiled form of a template\n"
    ++ "    match               Extract parameters from a fragment\n"
    ++ "    encode              Encode a JSON object as a query string\n"
    ++ "    decode              Decode a query string to JSON\n"
    ++ "    routes              List routes of a Router\n"
    ++ "\noptions:\n  -h, --help            show this help message and exit\n"

end FragmentRouting.CommandLine
