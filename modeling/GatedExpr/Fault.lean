import GatedExpr.Value.Display
import GatedExpr.Text.Lines

/-! # Faults

Everything that can go wrong between reading a source and having its value, as causes. The
wording of each is in one place, and so is its class, which decides how a runner reports it.
-/

namespace GatedExpr

/-- A message with the place it is about: line and column when the source is known. -/
def locatedMessage (message : String) (position : Int) (source : Option (List Char)) : String :=
  match source with
  | some text =>
    let location := Text.locate text position
    s!"{message} (line {location.line}, col {location.column})"
  | none => s!"{message} (offset {position})"

inductive ParseReason where
  | endOfInput
  | unexpected (c : Char)
  | nestedTooDeeply
  deriving DecidableEq, Repr

def ParseReason.message : ParseReason → String
  | .endOfInput => "Unexpected end of input"
  | .unexpected c => "Unexpected " ++ quote (String.singleton c)
  | .nestedTooDeeply => "Expression nested too deeply"

/-- A source that is not in the grammar. The position is the furthest offset that was tried. -/
structure ParseError where
  reason : ParseReason
  position : Nat
  source : List Char

namespace ParseError

def message (error : ParseError) : String :=
  error.reason.message

def location (error : ParseError) : Text.Location :=
  Text.locate error.source error.position

def text (error : ParseError) : String :=
  locatedMessage error.message error.position (some error.source)

end ParseError

/-- What is wrong with a whitelist or its configuration. -/
inductive ConfigProblem where
  | notAMapping
  | unknownKeys (keys : List String)
  | objectSpec (name : String)
  | objectSource (source name : String)
  | calleeSpec (signature : String)
  | notAReference (spec : Value)
  | cannotImport (reference : String)
  | customObjects
  | objectNotCallable (name : String)
  | calleeNotCallable (signature : String)

def ConfigProblem.message : ConfigProblem → String
  | .notAMapping => "Whitelist config must be a mapping"
  | .unknownKeys keys =>
    "Unknown whitelist config keys: [" ++ ", ".intercalate (keys.map quote) ++ "]"
  | .objectSpec name => s!"Object '{name}' needs exactly one of 'binding', 'value', 'import'"
  | .objectSource source name => s!"Unknown object source {quote source} for '{name}'"
  | .calleeSpec signature => s!"Callee '{signature}' needs an 'import' entry"
  | .notAReference spec => "Expected 'module:attribute', got " ++ spec.display
  | .cannotImport reference => "Cannot import " ++ quote reference
  | .customObjects => "custom_objects must be a list"
  | .objectNotCallable name => s!"Accessor for object '{name}' is not callable"
  | .calleeNotCallable signature => s!"Callee '{signature}' is not callable"

/-- What keeps the text of a configuration from being read. -/
inductive ConfigTextProblem where
  /-- There is a character in it that no configuration may contain. -/
  | character
  /-- A character begins nothing, or a text has no end. -/
  | token
  /-- The parts are not in an order that means something. -/
  | order
  /-- Too much is open at a time. -/
  | depth
  deriving DecidableEq, Repr

def ConfigTextProblem.message : ConfigTextProblem → String
  | .character => "special characters are not allowed"
  | .token => "found a character that cannot start any token"
  | .order => "found a token out of place"
  | .depth => "nested too deeply"

/-- Classes of faults, as far as reports tell them apart. -/
inductive FaultClass where
  | parse
  | grammar
  | compile
  | unknownOperator
  | unauthorizedIdentifier
  | unauthorizedCall
  | config
  | configText (problem : ConfigTextProblem)
  | key
  | type
  | value
  | member
  | zeroDivision
  | index
  | overflow
  | runtime
  | recursion
  deriving DecidableEq, Repr

inductive Fault where
  | parse (error : ParseError)
  /-- A matcher that was run outside of a parse ran into the nesting limit. -/
  | nestedTooDeeply
  | unknownRule (kind : String)
  | ruleWithoutMatcher (kind : String)
  /-- A rule that was registered without a matcher was run. -/
  | nothingToRun
  | missingField (kind : Option String) (field : String)
  /-- Something other than a node was read like one. -/
  | noAttribute (name : String)
  | notANode (type : String)
  | noCompiler (kind : Option String)
  | unknownOperator (operator : Value)
  | unauthorizedIdentifier (name : Value)
  | unauthorizedCall (signature : Value)
  | config (problem : ConfigProblem)
  | configText (problem : ConfigTextProblem)
  | emptyModuleName
  | relativeModuleName
  | unbound (name : Value)
  | nullMember (key : String)
  | number (cause : NumberFault)
  | argumentCount (function : String)
  | notIterable
  /-- An entry of an object was not a key with a value. -/
  | notAPair
  /-- A list or map was used where a key is needed. -/
  | unhashable
  /-- Values of different types were to be put in order. -/
  | unordered
  /-- A text was needed. -/
  | notAText
  | emptySeparator
  | placesOutOfRange
  | notANumeral
  | digitOutOfRange
  /-- There is no item at a place. -/
  | placeOutOfRange
  /-- A host function failed in its own way. -/
  | host (cls : FaultClass) (arguments : List Value)

namespace Fault

def cls : Fault → FaultClass
  | .parse _ => .parse
  | .nestedTooDeeply => .recursion
  | .unknownRule _ | .ruleWithoutMatcher _ => .grammar
  | .missingField .. | .noAttribute _ => .member
  | .notANode _ | .noCompiler _ => .compile
  | .unknownOperator _ => .unknownOperator
  | .unauthorizedIdentifier _ => .unauthorizedIdentifier
  | .unauthorizedCall _ => .unauthorizedCall
  | .config _ => .config
  | .configText problem => .configText problem
  | .unbound _ => .key
  | .number .tooLarge | .number .infinite => .overflow
  | .number .notANumber => .value
  | .number .zeroDivisor => .zeroDivision
  | .nothingToRun | .nullMember _ | .relativeModuleName | .argumentCount _ | .notIterable
  | .unhashable | .unordered | .notAText => .type
  | .emptyModuleName | .notAPair | .emptySeparator | .placesOutOfRange | .notANumeral => .value
  | .digitOutOfRange | .placeOutOfRange => .index
  | .host cls _ => cls

/-- The arguments of a host function's own failure, as its message shows them. -/
def hostText (cls : FaultClass) (arguments : List Value) : String :=
  match cls, arguments with
  | _, [] => ""
  | .key, [argument] => argument.display
  | _, [argument] => argument.displayPlain
  | _, arguments => (Value.tuple 0 arguments).display

def text : Fault → String
  | .parse error => error.text
  | .nestedTooDeeply => "nested too deeply"
  | .unknownRule kind => s!"Unknown rule '{kind}'"
  | .ruleWithoutMatcher kind => s!"Rule '{kind}' has no matcher"
  | .nothingToRun => "the rule has nothing to run"
  | .missingField kind field =>
    let owner := match kind with
      | none => "Node"
      | some kind => if kind.isEmpty then "Node" else kind
    s!"{owner} has no field '{field}'"
  | .noAttribute name => s!"no attribute '{name}'"
  | .notANode type => s!"Expected a syntax node, got {type}"
  | .noCompiler kind => "No compiler for node kind '" ++ kind.getD "None" ++ "'"
  | .unknownOperator operator => s!"Unknown operator: {operator.display}"
  | .unauthorizedIdentifier name =>
    s!"Identifier '{name.displayPlain}' is not an allowed object"
  | .unauthorizedCall signature => s!"Call to '{signature.displayPlain}' is not allowed"
  | .config problem => problem.message
  | .configText problem => problem.message
  | .emptyModuleName => "Empty module name"
  | .relativeModuleName => "a relative module name needs a package"
  | .unbound name => name.display
  | .nullMember key => s!"Cannot read property {quote key} of null"
  | .number .tooLarge => "int too large to convert to float"
  | .number .notANumber => "cannot convert float NaN to integer"
  | .number .infinite => "cannot convert float infinity to integer"
  | .number .zeroDivisor => "division by zero"
  | .argumentCount function => s!"wrong number of arguments for {function}"
  | .notIterable => "the value cannot be iterated over"
  | .notAPair => "a key with a value is needed"
  | .unhashable => "the value cannot be a key"
  | .unordered => "the values are of different types"
  | .notAText => "a text is needed"
  | .emptySeparator => "empty separator"
  | .placesOutOfRange => "the number of places is out of range"
  | .notANumeral => "not a numeral"
  | .digitOutOfRange => "string index out of range"
  | .placeOutOfRange => "index out of range"
  | .host cls arguments => hostText cls arguments

/-- What was looked up in vain, if the fault is a failed look-up that says so. -/
def missingKey? : Fault → Option Value
  | .unbound name => some name
  | .host .key (argument :: _) => some argument
  | _ => none

end Fault

/-- A fault with the node it is about, if any. -/
structure Failure where
  fault : Fault
  node : Option Node

namespace Failure

/-- A fault that is not about a node, at least not yet. -/
def bare (fault : Fault) : Failure :=
  { fault, node := none }

/-- Attaches a node unless an inner one is attached already. -/
def locate (failure : Failure) (node : Node) : Failure :=
  { failure with node := some (failure.node.getD node) }

end Failure

end GatedExpr
