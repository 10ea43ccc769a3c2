/-! The classes that are there from the start: their names, how a class is shown, and the line of
ancestors in which members are looked up. -/
namespace CallContracts

inductive BuiltinClass where
  | object | type | abstractClass | modelClass | absent | notImplemented | undefined
  | bool | int | float | complex | str | bytes
  | list | tuple | dict | set | frozenset | deque | date | datetime | pattern | decimal | fraction
  | number | complexNumber | realNumber | rationalNumber | integral | mapping | callable
  | orderedDict | mappingProxy | attributeBag | function | module | partialCall
  | keysView | valuesView | itemsView | orderedKeys | orderedValues | orderedItems
  | keysOf | valuesOf | itemsOf
  | listIterator | tupleIterator | textIterator | keyIterator | valueIterator | itemIterator
  | setIterator | dequeIterator | sequenceIterator
  | builtinFunction | method | methodDescriptor | classMethodDescriptor | slotWrapper | methodWrapper
  | getterDescriptor | memberDescriptor | staticMethod | classMethod | property
  | baseException | exception | arithmeticError | attributeError | frozenInstanceError | indexError
  | keyError | lookupError | overflowError | recursionError | runtimeError | stopIteration | typeError
  | valueError | validationError | zeroDivisionError | invalidOperation | decimalOverflow
  | patternError | unicodeError | unbound
  | contract | signature | matched | mismatched | settings
  | wrapper | unboundWrapper | classWrapper | signatureCheck
  | contractError | contractViolation | inputTypeError | outputTypeError | signatureTypeError
  | configurationError
  | root
  deriving DecidableEq, Repr

namespace BuiltinClass

/-- Every class but the last ones has a home, written before its name when the class is shown. -/
def title : BuiltinClass → String × String
  | object => ("", "object") | type => ("", "type") | absent => ("", "NoneType")
  | abstractClass => ("abc", "ABCMeta")
  | modelClass => ("pydantic._internal._model_construction", "ModelMetaclass")
  | notImplemented => ("", "NotImplementedType")
  | undefined => ("pacta.core.config", "_Undefined")
  | bool => ("", "bool") | int => ("", "int") | float => ("", "float")
  | complex => ("", "complex") | str => ("", "str") | bytes => ("", "bytes")
  | list => ("", "list") | tuple => ("", "tuple") | dict => ("", "dict")
  | set => ("", "set") | frozenset => ("", "frozenset") | deque => ("collections", "deque")
  | date => ("datetime", "date") | datetime => ("datetime", "datetime")
  | pattern => ("re", "Pattern") | decimal => ("decimal", "Decimal")
  | fraction => ("fractions", "Fraction")
  | number => ("numbers", "Number") | complexNumber => ("numbers", "Complex")
  | realNumber => ("numbers", "Real") | rationalNumber => ("numbers", "Rational")
  | integral => ("numbers", "Integral")
  | mapping => ("collections.abc", "Mapping") | callable => ("collections.abc", "Callable")
  | orderedDict => ("collections", "OrderedDict") | mappingProxy => ("", "mappingproxy")
  | attributeBag => ("types", "SimpleNamespace") | function => ("", "function")
  | module => ("", "module") | partialCall => ("functools", "partial")
  | keysView => ("", "dict_keys") | valuesView => ("", "dict_values") | itemsView => ("", "dict_items")
  | orderedKeys => ("", "odict_keys") | orderedValues => ("", "odict_values")
  | orderedItems => ("", "odict_items")
  | keysOf => ("collections.abc", "KeysView") | valuesOf => ("collections.abc", "ValuesView")
  | itemsOf => ("collections.abc", "ItemsView")
  | listIterator => ("", "list_iterator") | tupleIterator => ("", "tuple_iterator")
  | textIterator => ("", "str_ascii_iterator") | keyIterator => ("", "dict_keyiterator")
  | valueIterator => ("", "dict_valueiterator") | itemIterator => ("", "dict_itemiterator")
  | setIterator => ("", "set_iterator") | dequeIterator => ("_collections", "_deque_iterator")
  | sequenceIterator => ("", "iterator")
  | builtinFunction => ("", "builtin_function_or_method") | method => ("", "method")
  | methodDescriptor => ("", "method_descriptor")
  | classMethodDescriptor => ("", "classmethod_descriptor") | slotWrapper => ("", "wrapper_descriptor")
  | methodWrapper => ("", "method-wrapper") | getterDescriptor => ("", "getset_descriptor")
  | memberDescriptor => ("", "member_descriptor") | staticMethod => ("", "staticmethod")
  | classMethod => ("", "classmethod") | property => ("", "property")
  | baseException => ("", "BaseException") | exception => ("", "Exception")
  | stopIteration => ("", "StopIteration") | invalidOperation => ("decimal", "InvalidOperation")
  | decimalOverflow => ("decimal", "Overflow") | patternError => ("re", "error")
  | unicodeError => ("", "UnicodeDecodeError") | arithmeticError => ("", "ArithmeticError")
  | attributeError => ("", "AttributeError")
  | frozenInstanceError => ("dataclasses", "FrozenInstanceError")
  | indexError => ("", "IndexError") | keyError => ("", "KeyError")
  | lookupError => ("", "LookupError") | overflowError => ("", "OverflowError")
  | recursionError => ("", "RecursionError") | runtimeError => ("", "RuntimeError")
  | typeError => ("", "TypeError") | valueError => ("", "ValueError")
  | validationError => ("pydantic_core._pydantic_core", "ValidationError")
  | zeroDivisionError => ("", "ZeroDivisionError") | unbound => ("m", "Unbound")
  | contract => ("pacta.core.contract", "Contract")
  | signature => ("pacta.core.contract", "FunctionSignature")
  | matched => ("pacta.core.result", "Matched") | mismatched => ("pacta.core.result", "Mismatched")
  | settings => ("pacta.core.config", "Settings")
  | wrapper => ("pacta.aop", "Interceptor")
  | unboundWrapper => ("pacta.aop", "UnboundInterceptor")
  | classWrapper => ("pacta.aop", "ClassInterceptor")
  | signatureCheck => ("pacta.signature", "SignatureCheck")
  | contractError => ("pacta.errors", "ContractError")
  | contractViolation => ("pacta.errors", "ContractViolation")
  | inputTypeError => ("pacta.errors", "InputTypeError")
  | outputTypeError => ("pacta.errors", "OutputTypeError")
  | signatureTypeError => ("pacta.errors", "SignatureTypeError")
  | configurationError => ("pacta.errors", "ConfigurationError")
  | root => ("m", "Root")

def name (c : BuiltinClass) : String := c.title.2

/-- The module a class belongs to. -/
def home (c : BuiltinClass) : String := if c.title.1 = "" then "builtins" else c.title.1

def fullName (c : BuiltinClass) : String :=
  if c.title.1 = "" then c.title.2 else c.title.1 ++ "." ++ c.title.2

def shown (c : BuiltinClass) : String := "<class '" ++ c.fullName ++ "'>"

/-- The name under which the members of a class of the host are shown. -/
def hostName (c : BuiltinClass) : String :=
  if c.title.1 ∈ ["collections", "_collections", "datetime", "decimal", "functools", "re", "types"]
  then c.fullName else c.name

/-- The class and its ancestors, nearest first. -/
def line : BuiltinClass → List BuiltinClass
  | object => [object]
  | bool => [bool, int, object]
  | datetime => [datetime, date, object]
  | orderedDict => [orderedDict, dict, object]
  | abstractClass => [abstractClass, type, object]
  | modelClass => [modelClass, abstractClass, type, object]
  | complexNumber => [complexNumber, number, object]
  | realNumber => [realNumber, complexNumber, number, object]
  | rationalNumber => [rationalNumber, realNumber, complexNumber, number, object]
  | integral => [integral, rationalNumber, realNumber, complexNumber, number, object]
  | fraction => [fraction, rationalNumber, realNumber, complexNumber, number, object]
  | exception => [exception, baseException, object]
  | stopIteration => [stopIteration, exception, baseException, object]
  | invalidOperation => [invalidOperation, arithmeticError, exception, baseException, object]
  | decimalOverflow => [decimalOverflow, arithmeticError, exception, baseException, object]
  | patternError => [patternError, exception, baseException, object]
  | unicodeError => [unicodeError, valueError, exception, baseException, object]
  | arithmeticError => [arithmeticError, exception, baseException, object]
  | attributeError => [attributeError, exception, baseException, object]
  | frozenInstanceError => [frozenInstanceError, attributeError, exception, baseException, object]
  | lookupError => [lookupError, exception, baseException, object]
  | indexError => [indexError, lookupError, exception, baseException, object]
  | keyError => [keyError, lookupError, exception, baseException, object]
  | overflowError => [overflowError, arithmeticError, exception, baseException, object]
  | zeroDivisionError => [zeroDivisionError, arithmeticError, exception, baseException, object]
  | runtimeError => [runtimeError, exception, baseException, object]
  | recursionError => [recursionError, runtimeError, exception, baseException, object]
  | typeError => [typeError, exception, baseException, object]
  | valueError => [valueError, exception, baseException, object]
  | validationError => [validationError, valueError, exception, baseException, object]
  | unbound => [unbound, exception, baseException, object]
  | signature => [signature, contract, object]
  | unboundWrapper => [unboundWrapper, wrapper, object]
  | classWrapper => [classWrapper, wrapper, object]
  | contractError => [contractError, exception, baseException, object]
  | contractViolation => [contractViolation, contractError, valueError, exception, baseException, object]
  | configurationError => [configurationError, contractError, valueError, exception, baseException, object]
  | inputTypeError => [inputTypeError, contractError, typeError, exception, baseException, object]
  | outputTypeError => [outputTypeError, contractError, typeError, exception, baseException, object]
  | signatureTypeError => [signatureTypeError, contractError, typeError, exception, baseException, object]
  | c => [c, object]

/-- The classes whose instances count as numbers, whole numbers and mappings. -/
def isNumber (c : BuiltinClass) : Bool :=
  c ∈ [bool, int, float, complex, decimal, fraction, number, complexNumber, realNumber, rationalNumber,
    integral]
def isIntegral (c : BuiltinClass) : Bool := c ∈ [bool, int, integral]
def isMapping (c : BuiltinClass) : Bool := c ∈ [dict, orderedDict, mappingProxy, mapping]

/-- The classes whose instances can be called. -/
def isCallable (c : BuiltinClass) : Bool :=
  c ∈ [type, abstractClass, modelClass, callable, function, partialCall, builtinFunction, method,
    methodDescriptor, classMethodDescriptor, slotWrapper, methodWrapper, staticMethod, wrapper,
    unboundWrapper, classWrapper, signatureCheck]

def isException (c : BuiltinClass) : Bool := exception ∈ c.line

def isClass (c : BuiltinClass) : Bool := type ∈ c.line

/-- The class that a class itself is an instance of. -/
def ownClass : BuiltinClass → BuiltinClass
  | number | complexNumber | realNumber | rationalNumber | integral | fraction | mapping | callable
  | keysOf | valuesOf | itemsOf => abstractClass
  | settings => modelClass
  | _ => type

/-- The members that an instance needs from a class of the program. -/
def required : BuiltinClass → List String
  | mapping => ["__getitem__", "__iter__", "__len__"]
  | callable => ["__call__"]
  | complexNumber => ["__add__", "__radd__", "__mul__", "__rmul__", "__truediv__", "__rtruediv__",
      "__neg__", "__pos__", "__pow__", "__rpow__", "__abs__", "__complex__", "__eq__", "conjugate",
      "imag", "real"]
  | integral => ["__abs__", "__add__", "__and__", "__ceil__", "__eq__", "__floor__", "__floordiv__",
      "__int__", "__invert__", "__le__", "__lshift__", "__lt__", "__mod__", "__mul__", "__neg__",
      "__or__", "__pos__", "__pow__", "__radd__", "__rand__", "__rfloordiv__", "__rlshift__",
      "__rmod__", "__rmul__", "__ror__", "__round__", "__rpow__", "__rrshift__", "__rshift__",
      "__rtruediv__", "__rxor__", "__truediv__", "__trunc__", "__xor__"]
  | _ => []

/-- The classes that a program may name. -/
def namedClasses : List BuiltinClass :=
  [object, type, int, bool, float, complex, str, bytes, list, tuple, dict, set, frozenset, deque,
    date, datetime, pattern, decimal, fraction, number, integral, mapping, callable, orderedDict,
    attributeBag, function, module, partialCall, exception, arithmeticError, attributeError, indexError,
    keyError, lookupError, overflowError, recursionError, runtimeError, typeError, valueError,
    zeroDivisionError, contract, signature, matched, mismatched, settings, wrapper,
    unboundWrapper, classWrapper, signatureCheck, contractError, contractViolation,
    inputTypeError, outputTypeError, signatureTypeError, configurationError]

def named? (s : String) : Option BuiltinClass := namedClasses.find? (·.name = s)

theorem self_mem_line (c : BuiltinClass) : c ∈ c.line := by cases c <;> decide
theorem object_mem_line (c : BuiltinClass) : object ∈ c.line := by cases c <;> decide

end BuiltinClass
end CallContracts
