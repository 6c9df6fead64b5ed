import Fractal.Grammar.Basic

/-! JSON values, and the reasons for which one of them is no value of an expected kind. -/

namespace Fractal

/-- A JSON value. Numbers keep whether they were written as whole ones. -/
inductive Json where
  /-- The value that stands for nothing. -/
  | null
  /-- A truth value. -/
  | bool (value : Bool)
  /-- A number written without a fraction or an exponent. -/
  | whole (value : Int)
  /-- Any other number, in double precision; none of them is infinite. -/
  | real (value : Float) (finite : value.isFinite = true)
  /-- A text. -/
  | text (value : String)
  /-- A list of values. -/
  | array (items : List Json)
  /-- Values by name. Nothing keeps a name from standing twice; a reader decides about that. -/
  | object (fields : List (String × Json))

/-- Why a JSON value is refused. -/
inductive DecodeFault where
  /-- The value is of another kind than the one expected. -/
  | invalidType
  /-- The value is of the right kind, but none of those allowed, or it gives a field twice. -/
  | invalidValue
  /-- A list has too few or too many elements. -/
  | invalidLength
  /-- A field that must be given is not. -/
  | missingField (name : String)
  /-- A name is none of the known ones. -/
  | unknownVariant (name : String) (known : List String)
  /-- The parts of a grammar are well formed, but make no grammar. -/
  | invalidGrammar (cause : GrammarFault)

namespace DecodeFault

/-- A name in the quotes of a message. -/
def quoted (name : String) : String := "`" ++ name ++ "`"

/-- The wording of a choice between names. -/
def choice : List String → String
  | [first, second] => quoted first ++ " or " ++ quoted second
  | names => "one of " ++ ", ".intercalate (names.map quoted)

/-- The wording of a refusal, where there is more to say than its kind. -/
def message? : DecodeFault → Option String
  | .missingField name => some ("missing field " ++ quoted name)
  | .unknownVariant name known =>
    some ("unknown variant " ++ quoted name ++ ", expected " ++ choice known)
  | .invalidGrammar cause => some cause.message
  | .invalidType | .invalidValue | .invalidLength => none

end DecodeFault

end Fractal
