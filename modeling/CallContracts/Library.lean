import CallContracts.Contract.Standard
/-! The names under which a program finds the library. -/
namespace CallContracts.Library

def contracts : List (String × Contract) :=
  [("any_", .anything), ("string", .string), ("number", .number), ("bool_", .boolean),
    ("fun", .function), ("undef", .undefined), ("date", .date), ("regex", .regex),
    ("object_", .object)]

def operations : List (String × Operation) :=
  [("is_match", .isMatch), ("is_mismatch", .isMismatch), ("inst", .instanceOf), ("and_", .all),
    ("or_", .any), ("not_", .negate), ("maybe", .maybe), ("array", .array), ("seq", .seq),
    ("product", .product), ("record", .record), ("proc", .proc), ("test", .test),
    ("contract", .contract), ("signature_to_string", .describeRecord),
    ("describe_record", .describeRecord), ("add_signature", .attach), ("signed", .sign),
    ("is_signed", .isSigned), ("kind_of", .kindOf), ("from_env", .fromEnvironment),
    ("short_repr", .shortText), ("around", .around), ("intercept", .wrap)]

def classes : List (String × BuiltinClass) :=
  [BuiltinClass.contract, .signature, .matched, .mismatched, .settings, .contractError,
    .contractViolation, .inputTypeError, .outputTypeError, .signatureTypeError, .configurationError,
    .signatureCheck, .wrapper, .unboundWrapper, .classWrapper].map fun c => (c.name, c)

def value? (n : String) : Option Value :=
  if n = "settings" then some (.ref settingsRef)
  else if n = "UNDEFINED" then some .undefined
  else (contracts.lookup n).map Contract.value
    <|> (operations.lookup n).map Value.operation
    <|> (classes.lookup n).map Value.builtinClass

/-- Functions of the host. -/
def builtin? (n : String) : Option Value :=
  if n = "len" then some (.operation .length)
  else if n = "abs" then some (.operation .absolute)
  else none

end CallContracts.Library
