import Fixtures.Script.Heap
/-!
# The global names of a fresh script

The standard libraries by name. A function outside the supported part of the
language, which `Fixtures.Script.Syntax` describes, is there, but cannot be
called.
-/

namespace Fixtures.Script

/-- Functions that are there by name only, as entries of a library. -/
def idles (names : List String) : List (String × Val) := names.map fun n => (n, .builtin (.idle n))

def basicLibrary : List (String × Val) :=
  [("_VERSION", .text "Lua 5.4"), ("assert", .builtin .assert), ("error", .builtin .error),
    ("getmetatable", .builtin .getmetatable), ("ipairs", .builtin .ipairs), ("next", .builtin .next),
    ("pairs", .builtin .pairs), ("pcall", .builtin .pcall), ("rawequal", .builtin .rawequal),
    ("rawget", .builtin .rawget), ("rawlen", .builtin .rawlen), ("rawset", .builtin .rawset),
    ("select", .builtin .select), ("setmetatable", .builtin .setmetatable), ("tonumber", .builtin .tonumber),
    ("tostring", .builtin .tostring), ("type", .builtin .type)] ++
  idles ["collectgarbage", "dofile", "load", "loadfile", "print", "require", "warn", "xpcall"]

def textLibrary : List (String × Val) :=
  [("byte", .builtin .byte), ("char", .builtin .char), ("len", .builtin .len), ("lower", .builtin .lower),
    ("rep", .builtin .rep), ("reverse", .builtin .reverse), ("sub", .builtin .sub), ("upper", .builtin .upper)] ++
  idles ["dump", "find", "format", "gmatch", "gsub", "match", "pack", "packsize", "unpack"]

def sequenceLibrary : List (String × Val) :=
  [("concat", .builtin .concat), ("insert", .builtin .insert), ("pack", .builtin .pack), ("remove", .builtin .remove),
    ("unpack", .builtin .unpack)] ++
  idles ["move", "sort"]

def mathLibrary : List (String × Val) :=
  [("abs", .builtin .abs), ("ceil", .builtin .ceil), ("floor", .builtin .floor), ("max", .builtin .max),
    ("min", .builtin .min), ("tointeger", .builtin .tointeger), ("type", .builtin .mathType),
    ("huge", .number (.float (1.0 / 0.0))), ("maxinteger", .int Int64.maxValue),
    ("mininteger", .int Int64.minValue), ("pi", .number (.float 3.141592653589793))] ++
  idles ["acos", "asin", "atan", "cos", "deg", "exp", "fmod", "log", "modf", "rad", "random", "randomseed", "sin",
    "sqrt", "tan", "ult"]

def threadLibrary : List (String × Val) :=
  ("create", .builtin .newThread) :: idles ["close", "isyieldable", "resume", "running", "status", "wrap", "yield"]

def systemLibrary : List (String × Val) :=
  idles ["clock", "date", "difftime", "execute", "exit", "getenv", "remove", "rename", "setlocale", "time", "tmpname"]

def streamLibrary : List (String × Val) :=
  idles ["close", "flush", "input", "lines", "open", "output", "popen", "read", "tmpfile", "type", "write"]

def codeLibrary : List (String × Val) :=
  ("charpattern", .string [91, 0, 45, 127, 194, 45, 253, 93, 91, 128, 45, 191, 93, 42]) ::
    idles ["char", "codepoint", "codes", "len", "offset"]

def packageLibrary : List (String × Val) :=
  [("config", .text "/\n;\n?\n!\n-\n"), ("cpath", .text ""), ("path", .text "")] ++ idles ["loadlib", "searchpath"]

namespace Heap

/-- A new table of named entries. -/
def newLibrary (h : Heap) (entries : List (String × Val)) : Val × Heap :=
  h.newTable (.ofEntries (entries.map fun (name, v) => (.text name, v)))

/-- Standard streams by name. -/
def newStreams (h : Heap) : List String → List (String × Val) × Heap
  | [] => ([], h)
  | name :: rest =>
    let (v, h) := h.newObject .stream
    let (entries, h) := newStreams h rest
    ((name, v) :: entries, h)

/-- Libraries by name. -/
def newLibraries (h : Heap) : List (String × List (String × Val)) → List (String × Val) × Heap
  | [] => ([], h)
  | (name, entries) :: rest =>
    let (v, h) := h.newLibrary entries
    let (libraries, h) := newLibraries h rest
    ((name, v) :: libraries, h)

/-- The heap a script starts from. -/
def fresh : Heap :=
  let (streams, h) := newStreams {} ["stdin", "stdout", "stderr"]
  let (texts, h) := h.newLibrary textLibrary
  let (strings, h) := h.newLibrary [("__index", texts)]
  let (libraries, h) := h.newLibraries [("coroutine", threadLibrary), ("io", streams ++ streamLibrary),
    ("math", mathLibrary), ("os", systemLibrary), ("table", sequenceLibrary), ("utf8", codeLibrary)]
  let libraries := ("string", texts) :: libraries
  let (globals, h) := h.newLibrary (basicLibrary ++ libraries)
  let (loaded, h) := h.newLibrary (("_G", globals) :: libraries)
  let (preload, h) := h.newTable .empty
  let (package, h) := h.newLibrary (packageLibrary ++ [("loaded", loaded), ("preload", preload)])
  match globals, strings with
  | .table g, .table m =>
    { (h.put g (.text "_G") globals).put g (.text "package") package with globals := g, strings := m }
  | _, _ => h

end Heap

end Fixtures.Script
