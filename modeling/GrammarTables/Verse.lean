import GrammarTables.Grammar.Builder

/-!
# The Verse grammar

Verse is the language of UEFN. Everything in it is an expression, and a block
is opened by braces, by an indented body behind a colon, or by indentation
alone. Tokens that depend on the layout (automatic terminators, the ends of
blocks, indentation) come from a scanner outside the grammar and are only
declared here.
-/

namespace GrammarTables.Verse

open Rule

/-- What the grammar is asked for by. -/
def name : String := "verse"

/-- What the grammar is called in reports. -/
def label : String := "Verse"

/-- The tokens of the outside scanner. -/
def externals : List String := [
  "_auto_terminator",
  "_open_braced_block",
  "_open_indent_block",
  "_open_indent_block_colon",
  "_close_indent_block",
  "_indent",
  "_dedent",
  "_incomplete_string",
  "_best_guess_attr_start",
  "_error_sentinel"]

/-! ## Levels of precedence

A higher level binds tighter. -/

namespace Level

/-- `lhs => rhs` -/
def fatArrow : Int32 := 10

/-- Postfix `x?` -/
def query : Int32 := 9

/-- Prefix `?x` -/
def opt : Int32 := 9

/-- `not x` -/
def not : Int32 := 8

/-- Prefix `+x` and `-x` -/
def sign : Int32 := 8

/-- `*` and `/` -/
def mult : Int32 := 7

/-- `+` and `-` -/
def add : Int32 := 6

/-- `=` and `<>` -/
def eq : Int32 := 4

/-- `<`, `>`, `<=` and `>=` -/
def cmp : Int32 := 4

/-- `and` -/
def and : Int32 := 3

/-- `or` -/
def or : Int32 := 2

/-- Declarations, `set` and named arguments -/
def decl : Int32 := 1

end Level

def binaryOperators : List (String × Int32) := [
  ("*", Level.mult),
  ("/", Level.mult),
  ("+", Level.add),
  ("-", Level.add),
  ("=", Level.eq),
  ("<>", Level.eq),
  ("<", Level.cmp),
  (">", Level.cmp),
  ("<=", Level.cmp),
  (">=", Level.cmp),
  ("and", Level.and),
  ("or", Level.or)]

def leadingOperators : List (String × Int32) := [
  ("?", Level.opt),
  ("not", Level.not),
  ("+", Level.sign),
  ("-", Level.sign),
  ("set", Level.decl)]

def trailingOperators : List (String × Int32) := [("?", Level.query)]

/-! ## Common parts -/

/-- An expression in parentheses, whose node does not show. -/
def parenthesized : Rule :=
  seq [string "(", pattern "\\s*", symbol "_expr", pattern "\\s*[)]"]

/-- A block in braces, or an indented one behind `opener`. -/
def blockBody (opener : String) : Rule :=
  choice [
    seq [symbol "_open_braced_block", repeat0 (symbol "_complete_expr"), pattern "\\s*[\x7d]"],
    seq [
      symbol opener,
      repeat0 (seq [symbol "_indent", symbol "_complete_expr", symbol "_dedent"]),
      symbol "_close_indent_block"]]

/-- One or more items with the separator between them, and then `trail` if there is one. -/
def separated1 (separator item : Rule) (trail : Option Rule) : Rule :=
  seq ([item, repeat0 (precLeft 1 (seq [separator, item]))] ++ trail.toList)

/-- What may stand in a list of arguments. -/
def argument : Rule := choice [symbol "_expr", symbol "named_argument"]

/-- Arguments between `opener` and `closer`, with commas between them and perhaps behind the last. -/
def argumentList (opener closer : String) : Rule :=
  seq [
    string opener,
    optional (separated1 (string ",") argument (some (optional (string ",")))),
    string closer]

/-! ## Rules -/

/-- The top level and the kinds of expressions. -/
def expressions : List (String × Rule) := [
  ("source_file", repeat0 (symbol "_complete_expr")),
  ("_complete_expr", seq [symbol "_expr", choice [string ";", symbol "_auto_terminator"]]),
  ("_expr", precLeft 0 (choice [symbol "_stdexpr", symbol "_non_attributable_expr"])),
  ("_stdexpr",
    precRight 0 (seq [
      choice [parenthesized, symbol "_standalone_expr"],
      optional (symbol "attributes")])),
  ("attributes",
    precRight 0 (seq [
      symbol "_best_guess_attr_start",
      repeat1 (precLeft Level.cmp (seq [string "<", symbol "_expr", string ">"]))])),
  ("comma_separated_group",
    precRight 0 (seq [
      symbol "_expr",
      repeat1 (precLeft 0 (seq [string ",", symbol "_expr"])),
      optional (string ",")])),
  ("_standalone_expr",
    choice ([
      "identifier",
      "path_literal",
      "logic_literal",
      "integer",
      "float",
      "string",
      "char",
      "macro_call",
      "function_call"].map symbol)),
  ("_non_attributable_expr",
    choice ([
      "declaration",
      "function_declaration",
      "unary_expression",
      "binary_expression",
      "fat_arrow_expression",
      "comma_separated_group"].map symbol))]

def float : Rule :=
  let digits := pattern "[0-9]+"
  let exponent := seq [pattern "[eE][\\+-]?", digits]
  seq [
    token (choice [
      seq [digits, string ".", digits, optional exponent],
      seq [digits, exponent]]),
    optional (symbol "number_suffix")]

/-- Names, paths, logic values, numbers, strings and characters. -/
def literals : List (String × Rule) := [
  ("identifier", pattern "[A-Za-z_][A-Za-z0-9_]*"),
  ("path_literal",
    pattern "[/][A-Za-z0-9_][A-Za-z0-9_\\-.]*(\\/[A-Za-z0-9_][A-Za-z0-9_\\-.]*)*"),
  ("logic_literal", choice [string "true", string "false"]),
  ("integer",
    choice [
      pattern "0x[0-9A-Fa-f]+",
      seq [pattern "[0-9]+", optional (symbol "number_suffix")]]),
  ("float", float),
  ("number_suffix", immediateToken (pattern "[A-Za-z_][A-Za-z0-9_]*")),
  ("string",
    seq [
      string "\"",
      repeat0 (choice [symbol "string_fragment", symbol "string_template"]),
      choice [string "\"", symbol "_incomplete_string"]]),
  ("string_fragment", precRight 0 (repeat1 (choice [pattern "[^\"\x7b]", string "\\\x7b"]))),
  ("string_template", seq [pattern "[\x7b]\\s*", symbol "_expr", pattern "\\s*[\x7d]"]),
  ("char", pattern "'[^\\']*'")]

def declaration : Rule :=
  precLeft 0 (seq [
    field "lhs" (symbol "_stdexpr"),
    choice [
      seq [
        seq [string ":", field "type_hint" (symbol "_expr")],
        seq [string "=", field "rhs" (symbol "_inline_body")]],
      seq [string ":", field "rhs" (symbol "_expr")],
      seq [string ":=", field "rhs" (symbol "_inline_body")]]])

def functionDeclaration : Rule :=
  precLeft 1 (seq [
    field "name" (symbol "_stdexpr"),
    field "parameters" (symbol "_argument_list_paren"),
    optional (field "effects" (symbol "attributes")),
    string ":",
    field "ret_type" (symbol "_expr"),
    optional (seq [choice [string "=", string ":="], symbol "_inline_body"])])

/-- Declarations, calls and lists of arguments. -/
def declarations : List (String × Rule) := [
  ("declaration", declaration),
  ("function_call",
    precLeft 0 (seq [
      field "function" (symbol "_stdexpr"),
      field "arguments" (symbol "argument_list")])),
  ("function_declaration", functionDeclaration),
  ("argument_list", choice [symbol "_argument_list_paren", symbol "_argument_list_square"]),
  ("_argument_list_paren", argumentList "(" ")"),
  ("_argument_list_square", argumentList "[" "]")]

/-- Macro calls, blocks and named arguments. -/
def blocks : List (String × Rule) := [
  ("macro_call",
    precLeft 1 (seq [
      field "macro" (symbol "_stdexpr"),
      optional (field "arguments" (symbol "argument_list")),
      rename (symbol "macro_block") "block" true])),
  ("macro_block", precRight 0 (blockBody "_open_indent_block_colon")),
  ("_inline_body", precLeft 10 (choice [symbol "block", symbol "_expr"])),
  ("block", blockBody "_open_indent_block"),
  ("named_argument",
    precLeft Level.decl (seq [
      string "?",
      field "name" (symbol "identifier"),
      string ":=",
      symbol "_expr"]))]

def binaryExpression : Rule :=
  choice (binaryOperators.map fun (op, level) =>
    precLeft level (seq [
      field "lhs" (symbol "_expr"),
      field "operator" (string op),
      field "rhs" (symbol "_expr")]))

def unaryExpression : Rule :=
  let leading := leadingOperators.map fun (op, level) =>
    precLeft level (seq [field "operator" (string op), field "operand" (symbol "_expr")])
  let trailing := trailingOperators.map fun (op, level) =>
    precLeft level (seq [field "operand" (symbol "_expr"), field "operator" (string op)])
  choice (leading ++ trailing)

/-- Expressions with operators. -/
def operators : List (String × Rule) := [
  ("binary_expression", binaryExpression),
  ("fat_arrow_expression",
    precLeft Level.fatArrow (seq [
      field "lhs" (symbol "_expr"),
      string "=>",
      field "rhs" (symbol "_inline_body")])),
  ("unary_expression", unaryExpression)]

/-- How the grammar is put together. -/
def steps : List Grammar.Builder.Step :=
  externals.map .external ++
    (expressions ++ literals ++ declarations ++ blocks ++ operators).map fun (name, body) =>
      .rule name body

def grammar : Grammar := Grammar.ofSteps name steps

end GrammarTables.Verse
