import TodoTracker.Files.Path

/-!
# Comment grammars

A grammar tells where comments are: delimiters that open a comment up to the end of the line, and
pairs that open and close a block. Each language family is one row of the registry, with the file
name extensions it owns; a few file names without an extension are assigned by name.
-/

set_option autoImplicit false

namespace TodoTracker

/-- What opens a comment, and what closes it if that is not the end of the line. -/
structure Delimiter where
  opener : Text
  closer : Option Text
  deriving DecidableEq, Repr

structure Grammar where
  name : Text
  extensions : List Text
  linePrefixes : List Text
  blockPairs : List (Text × Text)
  deriving DecidableEq, Repr

namespace Grammar

/-- The delimiters in the order in which equal ones are preferred. -/
def delimiters (grammar : Grammar) : List Delimiter :=
  grammar.linePrefixes.map (⟨·, none⟩) ++ grammar.blockPairs.map fun pair => ⟨pair.1, some pair.2⟩

def row (name extensions : String) (linePrefixes : List String)
    (blockPairs : List (String × String)) : Grammar where
  name := name.toList
  extensions := Text.splitOn ' ' extensions.toList
  linePrefixes := linePrefixes.map String.toList
  blockPairs := blockPairs.map fun pair => (pair.1.toList, pair.2.toList)

def registry : List Grammar :=
  [row "c-family" ("c h cc cpp cxx hpp hh hxx ino m mm cs java js mjs cjs jsx ts tsx mts cts " ++
      "go rs swift kt kts scala sc dart groovy gradle proto sol") ["//"] [("/*", "*/")],
    row "zig" "zig" ["//"] [],
    row "php" "php phtml" ["//", "#"] [("/*", "*/")],
    row "css" "css" [] [("/*", "*/")],
    row "scss" "scss sass less styl" ["//"] [("/*", "*/")],
    row "hash" ("py pyw pyi rb rake gemspec sh bash zsh fish ksh pl pm r yaml yml toml tf " ++
      "tfvars hcl cmake conf cfg mk nim nims ex exs cr coffee graphql gql properties " ++
      "dockerfile") ["#"] [],
    row "powershell" "ps1 psm1 psd1" ["#"] [("<#", "#>")],
    row "julia" "jl" ["#"] [("#=", "=#")],
    row "sql" "sql psql pgsql" ["--"] [("/*", "*/")],
    row "lua" "lua" ["--"] [("--[[", "]]")],
    row "haskell" "hs elm purs" ["--"] [("\x7b-", "-\x7d")],
    row "ada" "adb ads vhd vhdl" ["--"] [],
    row "lisp" "clj cljs cljc edn el lisp lsp scm ss rkt" [";"] [],
    row "ini" "ini" [";", "#"] [],
    row "assembly" "asm nasm" [";"] [],
    row "erlang" "erl hrl" ["%"] [],
    row "tex" "tex sty cls" ["%"] [],
    row "markup" "html htm xhtml xml xsl xslt svg vue svelte md markdown" [] [("<!--", "-->")],
    row "ocaml" "ml mli" [] [("(*", "*)")],
    row "fsharp" "fs fsi fsx" ["//"] [("(*", "*)")],
    row "pascal" "pas dpr lpr" ["//"] [("\x7b", "\x7d"), ("(*", "*)")],
    row "fortran" "f90 f95 f03 f08" ["!"] [],
    row "basic" "vb vbs bas" ["'"] [],
    row "batch" "bat cmd" ["::", "REM ", "rem "] [],
    row "vim" "vim" ["\""] [],
    row "handlebars" "hbs handlebars mustache" []
      [("\x7b\x7b!--", "--\x7d\x7d"), ("\x7b\x7b!", "\x7d\x7d")],
    row "jinja" "j2 jinja jinja2 twig njk" [] [("\x7b#", "#\x7d")]]

/-- File names that have a grammar whatever their extension, with the name of the grammar. -/
def fileNames : List (Text × Text) :=
  [("dockerfile", "hash"), ("makefile", "hash"), ("gnumakefile", "hash"),
    ("cmakelists.txt", "hash"), ("rakefile", "hash"), ("gemfile", "hash"),
    ("vagrantfile", "hash"), ("jenkinsfile", "c-family")].map
    fun entry => (String.toList entry.1, String.toList entry.2)

/-- An extension in the spelling of the registry: no dots in front, lower case. -/
def bareExtension (extension : Text) : Text :=
  Text.lower ((Text.trim extension).dropWhile (· == '.'))

/-- The grammar that owns an extension. -/
def ofExtension? (extension : Text) : Option Grammar :=
  registry.find? (·.extensions.contains (bareExtension extension))

def ofName? (name : Text) : Option Grammar := registry.find? (·.name == name)

/-- The grammar of a file, by its name or else by its extension. -/
def ofPath? (path : Path) : Option Grammar :=
  match fileNames.lookup (Text.lower path.name) with
  | some name => ofName? name
  | none => if path.suffix.isEmpty then none else ofExtension? path.suffix

def allExtensions : List Text := Text.sort (registry.flatMap extensions)

end Grammar

end TodoTracker
