import CallContracts.Value
/-! What the builtin classes hold under which name. -/
namespace CallContracts.BuiltinClass

def sorted (sort : MemberSort) (names : List String) : List (String × MemberSort) :=
  names.map fun n => (n, sort)

/-- The members of a class itself, without those of its ancestors. -/
def ownMembers : BuiltinClass → List (String × MemberSort)
  | .object =>
    sorted .fixed ["__new__"]
    ++ sorted .slot ["__repr__", "__hash__", "__str__", "__getattribute__", "__setattr__",
      "__delattr__", "__lt__", "__le__", "__eq__", "__ne__", "__gt__", "__ge__", "__init__"]
    ++ sorted .method ["__reduce_ex__", "__reduce__", "__getstate__", "__format__", "__sizeof__",
      "__dir__"]
    ++ sorted .ofClass ["__subclasshook__", "__init_subclass__"]
    ++ sorted .getter ["__class__"]
  | .type =>
    sorted .fixed ["__new__"]
    ++ sorted .slot ["__repr__", "__call__", "__getattribute__", "__setattr__", "__delattr__",
      "__init__", "__or__", "__ror__"]
    ++ sorted .method ["mro", "__subclasses__", "__instancecheck__", "__subclasscheck__",
      "__dir__", "__sizeof__"]
    ++ sorted .ofClass ["__prepare__"]
    ++ sorted .storage ["__basicsize__", "__itemsize__", "__flags__", "__weakrefoffset__",
      "__base__", "__dictoffset__", "__mro__"]
    ++ sorted .getter ["__name__", "__qualname__", "__bases__", "__module__",
      "__abstractmethods__", "__dict__", "__doc__", "__text_signature__", "__annotations__"]
  | .absent =>
    sorted .fixed ["__new__"]
    ++ sorted .slot ["__repr__", "__bool__"]
  | .notImplemented =>
    sorted .fixed ["__new__"]
    ++ sorted .slot ["__repr__", "__bool__"]
    ++ sorted .method ["__reduce__"]
  | .int =>
    sorted .fixed ["__new__"]
    ++ sorted .slot ["__repr__", "__hash__", "__getattribute__", "__lt__", "__le__", "__eq__",
      "__ne__", "__gt__", "__ge__", "__add__", "__radd__", "__sub__", "__rsub__", "__mul__",
      "__rmul__", "__mod__", "__rmod__", "__divmod__", "__rdivmod__", "__pow__", "__rpow__",
      "__neg__", "__pos__", "__abs__", "__bool__", "__invert__", "__lshift__", "__rlshift__",
      "__rshift__", "__rrshift__", "__and__", "__rand__", "__xor__", "__rxor__", "__or__",
      "__ror__", "__int__", "__float__", "__floordiv__", "__rfloordiv__", "__truediv__",
      "__rtruediv__", "__index__"]
    ++ sorted .method ["conjugate", "bit_length", "bit_count", "to_bytes", "as_integer_ratio",
      "__trunc__", "__floor__", "__ceil__", "__round__", "__getnewargs__", "__format__",
      "__sizeof__"]
    ++ sorted .ofClass ["from_bytes"]
    ++ sorted .getter ["real", "imag", "numerator", "denominator"]
  | .bool =>
    sorted .fixed ["__new__"]
    ++ sorted .slot ["__repr__", "__and__", "__rand__", "__xor__", "__rxor__", "__or__",
      "__ror__"]
  | .float =>
    sorted .fixed ["__new__"]
    ++ sorted .slot ["__repr__", "__hash__", "__getattribute__", "__lt__", "__le__", "__eq__",
      "__ne__", "__gt__", "__ge__", "__add__", "__radd__", "__sub__", "__rsub__", "__mul__",
      "__rmul__", "__mod__", "__rmod__", "__divmod__", "__rdivmod__", "__pow__", "__rpow__",
      "__neg__", "__pos__", "__abs__", "__bool__", "__int__", "__float__", "__floordiv__",
      "__rfloordiv__", "__truediv__", "__rtruediv__"]
    ++ sorted .method ["conjugate", "__trunc__", "__floor__", "__ceil__", "__round__",
      "as_integer_ratio", "hex", "is_integer", "__getnewargs__", "__format__"]
    ++ sorted .ofClass ["fromhex", "__getformat__"]
    ++ sorted .getter ["real", "imag"]
  | .complex =>
    sorted .fixed ["__new__"]
    ++ sorted .slot ["__repr__", "__hash__", "__getattribute__", "__lt__", "__le__", "__eq__",
      "__ne__", "__gt__", "__ge__", "__add__", "__radd__", "__sub__", "__rsub__", "__mul__",
      "__rmul__", "__pow__", "__rpow__", "__neg__", "__pos__", "__abs__", "__bool__",
      "__truediv__", "__rtruediv__"]
    ++ sorted .method ["conjugate", "__complex__", "__getnewargs__", "__format__"]
    ++ sorted .storage ["real", "imag"]
  | .str =>
    sorted .fixed ["__new__", "maketrans"]
    ++ sorted .slot ["__repr__", "__hash__", "__str__", "__getattribute__", "__lt__", "__le__",
      "__eq__", "__ne__", "__gt__", "__ge__", "__iter__", "__mod__", "__rmod__", "__len__",
      "__getitem__", "__add__", "__mul__", "__rmul__", "__contains__"]
    ++ sorted .method ["encode", "replace", "split", "rsplit", "join", "capitalize", "casefold",
      "title", "center", "count", "expandtabs", "find", "partition", "index", "ljust", "lower",
      "lstrip", "rfind", "rindex", "rjust", "rstrip", "rpartition", "splitlines", "strip",
      "swapcase", "translate", "upper", "startswith", "endswith", "removeprefix", "removesuffix",
      "isascii", "islower", "isupper", "istitle", "isspace", "isdecimal", "isdigit", "isnumeric",
      "isalpha", "isalnum", "isidentifier", "isprintable", "zfill", "format", "format_map",
      "__format__", "__sizeof__", "__getnewargs__"]
  | .bytes =>
    sorted .fixed ["__new__", "maketrans"]
    ++ sorted .slot ["__repr__", "__hash__", "__str__", "__getattribute__", "__lt__", "__le__",
      "__eq__", "__ne__", "__gt__", "__ge__", "__iter__", "__mod__", "__rmod__", "__len__",
      "__getitem__", "__add__", "__mul__", "__rmul__", "__contains__"]
    ++ sorted .method ["__getnewargs__", "__bytes__", "capitalize", "center", "count", "decode",
      "endswith", "expandtabs", "find", "hex", "index", "isalnum", "isalpha", "isascii",
      "isdigit", "islower", "isspace", "istitle", "isupper", "join", "ljust", "lower", "lstrip",
      "partition", "replace", "removeprefix", "removesuffix", "rfind", "rindex", "rjust",
      "rpartition", "rsplit", "rstrip", "split", "splitlines", "startswith", "strip", "swapcase",
      "title", "translate", "upper", "zfill"]
    ++ sorted .ofClass ["fromhex"]
  | .list =>
    sorted .fixed ["__new__"]
    ++ sorted .slot ["__repr__", "__getattribute__", "__lt__", "__le__", "__eq__", "__ne__",
      "__gt__", "__ge__", "__iter__", "__init__", "__len__", "__setitem__", "__delitem__",
      "__add__", "__mul__", "__rmul__", "__contains__", "__iadd__", "__imul__"]
    ++ sorted .method ["__getitem__", "__reversed__", "__sizeof__", "clear", "copy", "append",
      "insert", "extend", "pop", "remove", "index", "count", "reverse", "sort"]
    ++ sorted .ofClass ["__class_getitem__"]
  | .tuple =>
    sorted .fixed ["__new__"]
    ++ sorted .slot ["__repr__", "__hash__", "__getattribute__", "__lt__", "__le__", "__eq__",
      "__ne__", "__gt__", "__ge__", "__iter__", "__len__", "__getitem__", "__add__", "__mul__",
      "__rmul__", "__contains__"]
    ++ sorted .method ["__getnewargs__", "index", "count"]
    ++ sorted .ofClass ["__class_getitem__"]
  | .dict =>
    sorted .fixed ["__new__"]
    ++ sorted .slot ["__repr__", "__getattribute__", "__lt__", "__le__", "__eq__", "__ne__",
      "__gt__", "__ge__", "__iter__", "__init__", "__or__", "__ror__", "__ior__", "__len__",
      "__setitem__", "__delitem__"]
    ++ sorted .method ["__getitem__", "__contains__", "__sizeof__", "get", "setdefault", "pop",
      "popitem", "keys", "items", "values", "update", "clear", "copy", "__reversed__"]
    ++ sorted .ofClass ["fromkeys", "__class_getitem__"]
  | .set =>
    sorted .fixed ["__new__"]
    ++ sorted .slot ["__repr__", "__getattribute__", "__lt__", "__le__", "__eq__", "__ne__",
      "__gt__", "__ge__", "__iter__", "__init__", "__sub__", "__rsub__", "__and__", "__rand__",
      "__xor__", "__rxor__", "__or__", "__ror__", "__isub__", "__iand__", "__ixor__", "__ior__",
      "__len__"]
    ++ sorted .method ["__contains__", "add", "clear", "copy", "discard", "difference",
      "difference_update", "intersection", "intersection_update", "isdisjoint", "issubset",
      "issuperset", "pop", "__reduce__", "remove", "__sizeof__", "symmetric_difference",
      "symmetric_difference_update", "union", "update"]
    ++ sorted .ofClass ["__class_getitem__"]
  | .frozenset =>
    sorted .fixed ["__new__"]
    ++ sorted .slot ["__repr__", "__hash__", "__getattribute__", "__lt__", "__le__", "__eq__",
      "__ne__", "__gt__", "__ge__", "__iter__", "__sub__", "__rsub__", "__and__", "__rand__",
      "__xor__", "__rxor__", "__or__", "__ror__", "__len__"]
    ++ sorted .method ["__contains__", "copy", "difference", "intersection", "isdisjoint",
      "issubset", "issuperset", "__reduce__", "__sizeof__", "symmetric_difference", "union"]
    ++ sorted .ofClass ["__class_getitem__"]
  | .deque =>
    sorted .fixed ["__new__"]
    ++ sorted .slot ["__repr__", "__getattribute__", "__lt__", "__le__", "__eq__", "__ne__",
      "__gt__", "__ge__", "__iter__", "__init__", "__len__", "__add__", "__mul__", "__rmul__",
      "__getitem__", "__setitem__", "__delitem__", "__contains__", "__iadd__", "__imul__"]
    ++ sorted .method ["append", "appendleft", "clear", "__copy__", "copy", "count", "extend",
      "extendleft", "index", "insert", "pop", "popleft", "__reduce__", "remove", "__reversed__",
      "reverse", "rotate", "__sizeof__"]
    ++ sorted .ofClass ["__class_getitem__"]
    ++ sorted .getter ["maxlen"]
  | .date =>
    sorted .fixed ["__new__"]
    ++ sorted .slot ["__repr__", "__hash__", "__str__", "__getattribute__", "__lt__", "__le__",
      "__eq__", "__ne__", "__gt__", "__ge__", "__add__", "__radd__", "__sub__", "__rsub__"]
    ++ sorted .ofClass ["fromtimestamp", "fromordinal", "fromisoformat", "fromisocalendar",
      "today"]
    ++ sorted .method ["ctime", "strftime", "__format__", "timetuple", "isocalendar", "isoformat",
      "isoweekday", "toordinal", "weekday", "replace", "__reduce__"]
    ++ sorted .getter ["year", "month", "day"]
  | .datetime =>
    sorted .fixed ["__new__"]
    ++ sorted .slot ["__repr__", "__hash__", "__str__", "__getattribute__", "__lt__", "__le__",
      "__eq__", "__ne__", "__gt__", "__ge__", "__add__", "__radd__", "__sub__", "__rsub__"]
    ++ sorted .ofClass ["now", "utcnow", "fromtimestamp", "utcfromtimestamp", "strptime",
      "combine", "fromisoformat"]
    ++ sorted .method ["date", "time", "timetz", "ctime", "timetuple", "timestamp",
      "utctimetuple", "isoformat", "utcoffset", "tzname", "dst", "replace", "astimezone",
      "__reduce_ex__", "__reduce__"]
    ++ sorted .getter ["hour", "minute", "second", "microsecond", "tzinfo", "fold"]
  | .pattern =>
    sorted .slot ["__repr__", "__hash__", "__lt__", "__le__", "__eq__", "__ne__", "__gt__",
      "__ge__"]
    ++ sorted .method ["match", "fullmatch", "search", "sub", "subn", "findall", "split",
      "finditer", "scanner", "__copy__", "__deepcopy__"]
    ++ sorted .ofClass ["__class_getitem__"]
    ++ sorted .storage ["pattern", "flags", "groups"]
    ++ sorted .getter ["groupindex"]
  | .decimal =>
    sorted .fixed ["__new__"]
    ++ sorted .slot ["__repr__", "__hash__", "__str__", "__getattribute__", "__lt__", "__le__",
      "__eq__", "__ne__", "__gt__", "__ge__", "__add__", "__radd__", "__sub__", "__rsub__",
      "__mul__", "__rmul__", "__mod__", "__rmod__", "__divmod__", "__rdivmod__", "__pow__",
      "__rpow__", "__neg__", "__pos__", "__abs__", "__bool__", "__int__", "__float__",
      "__floordiv__", "__rfloordiv__", "__truediv__", "__rtruediv__"]
    ++ sorted .method ["exp", "ln", "log10", "next_minus", "next_plus", "normalize",
      "to_integral", "to_integral_exact", "to_integral_value", "sqrt", "compare",
      "compare_signal", "max", "max_mag", "min", "min_mag", "next_toward", "quantize",
      "remainder_near", "fma", "is_canonical", "is_finite", "is_infinite", "is_nan", "is_qnan",
      "is_snan", "is_signed", "is_zero", "is_normal", "is_subnormal", "adjusted", "canonical",
      "conjugate", "radix", "copy_abs", "copy_negate", "logb", "logical_invert", "number_class",
      "to_eng_string", "compare_total", "compare_total_mag", "copy_sign", "same_quantum",
      "logical_and", "logical_or", "logical_xor", "rotate", "scaleb", "shift", "as_tuple",
      "as_integer_ratio", "__copy__", "__deepcopy__", "__format__", "__reduce__", "__round__",
      "__ceil__", "__floor__", "__trunc__", "__complex__", "__sizeof__"]
    ++ sorted .ofClass ["from_float"]
    ++ sorted .getter ["real", "imag"]
  | .fraction =>
    sorted .fixed ["__new__"]
    ++ sorted .ofClass ["from_float", "from_decimal"]
    ++ sorted .plain ["as_integer_ratio", "limit_denominator", "__repr__", "__str__",
      "_operator_fallbacks", "_add", "__add__", "__radd__", "_sub", "__sub__", "__rsub__", "_mul",
      "__mul__", "__rmul__", "_div", "__truediv__", "__rtruediv__", "_floordiv", "__floordiv__",
      "__rfloordiv__", "_divmod", "__divmod__", "__rdivmod__", "_mod", "__mod__", "__rmod__",
      "__pow__", "__rpow__", "__pos__", "__neg__", "__abs__", "__int__", "__trunc__", "__floor__",
      "__ceil__", "__round__", "__hash__", "__eq__", "_richcmp", "__lt__", "__gt__", "__le__",
      "__ge__", "__bool__", "__reduce__", "__copy__", "__deepcopy__"]
    ++ sorted .property ["numerator", "denominator"]
    ++ sorted .storage ["_denominator", "_numerator"]
  | .complexNumber =>
    sorted .plain ["__complex__", "__bool__", "__add__", "__radd__", "__neg__", "__pos__",
      "__sub__", "__rsub__", "__mul__", "__rmul__", "__truediv__", "__rtruediv__", "__pow__",
      "__rpow__", "__abs__", "conjugate", "__eq__"]
    ++ sorted .property ["real", "imag"]
  | .realNumber =>
    sorted .plain ["__float__", "__trunc__", "__floor__", "__ceil__", "__round__", "__divmod__",
      "__rdivmod__", "__floordiv__", "__rfloordiv__", "__mod__", "__rmod__", "__lt__", "__le__",
      "__complex__", "conjugate"]
    ++ sorted .property ["real", "imag"]
  | .rationalNumber =>
    sorted .property ["numerator", "denominator"]
    ++ sorted .plain ["__float__"]
  | .integral =>
    sorted .plain ["__int__", "__index__", "__pow__", "__lshift__", "__rlshift__", "__rshift__",
      "__rrshift__", "__and__", "__rand__", "__xor__", "__rxor__", "__or__", "__ror__",
      "__invert__", "__float__"]
    ++ sorted .property ["numerator", "denominator"]
  | .mapping =>
    sorted .plain ["__getitem__", "get", "__contains__", "keys", "items", "values", "__eq__"]
  | .callable =>
    sorted .plain ["__call__"]
    ++ sorted .ofClass ["__subclasshook__", "__class_getitem__"]
  | .orderedDict =>
    sorted .slot ["__repr__", "__lt__", "__le__", "__eq__", "__ne__", "__gt__", "__ge__",
      "__iter__", "__init__", "__or__", "__ror__", "__ior__", "__setitem__", "__delitem__"]
    ++ sorted .ofClass ["fromkeys"]
    ++ sorted .method ["__sizeof__", "__reduce__", "setdefault", "pop", "popitem", "keys",
      "values", "items", "update", "clear", "copy", "__reversed__", "move_to_end"]
    ++ sorted .getter ["__dict__"]
  | .mappingProxy =>
    sorted .fixed ["__new__"]
    ++ sorted .slot ["__repr__", "__str__", "__getattribute__", "__lt__", "__le__", "__eq__",
      "__ne__", "__gt__", "__ge__", "__iter__", "__or__", "__ror__", "__ior__", "__len__",
      "__getitem__", "__contains__"]
    ++ sorted .method ["get", "keys", "values", "items", "copy", "__reversed__"]
    ++ sorted .ofClass ["__class_getitem__"]
  | .attributeBag =>
    sorted .fixed ["__new__"]
    ++ sorted .slot ["__repr__", "__getattribute__", "__setattr__", "__delattr__", "__lt__",
      "__le__", "__eq__", "__ne__", "__gt__", "__ge__", "__init__"]
    ++ sorted .method ["__reduce__"]
    ++ sorted .storage ["__dict__"]
  | .function =>
    sorted .fixed ["__new__"]
    ++ sorted .slot ["__repr__", "__call__", "__get__"]
    ++ sorted .storage ["__closure__", "__doc__", "__globals__", "__module__", "__builtins__"]
    ++ sorted .getter ["__code__", "__defaults__", "__kwdefaults__", "__annotations__",
      "__dict__", "__name__", "__qualname__"]
  | .module =>
    sorted .fixed ["__new__"]
    ++ sorted .slot ["__repr__", "__getattribute__", "__setattr__", "__delattr__", "__init__"]
    ++ sorted .method ["__dir__"]
    ++ sorted .storage ["__dict__"]
    ++ sorted .getter ["__annotations__"]
  | .partialCall =>
    sorted .fixed ["__new__"]
    ++ sorted .slot ["__repr__", "__call__", "__getattribute__", "__setattr__", "__delattr__"]
    ++ sorted .method ["__reduce__", "__setstate__"]
    ++ sorted .ofClass ["__class_getitem__"]
    ++ sorted .storage ["func", "args", "keywords", "__vectorcalloffset__"]
    ++ sorted .getter ["__dict__"]
  | .builtinFunction =>
    sorted .slot ["__repr__", "__hash__", "__call__", "__getattribute__", "__lt__", "__le__",
      "__eq__", "__ne__", "__gt__", "__ge__"]
    ++ sorted .method ["__reduce__"]
    ++ sorted .storage ["__module__"]
    ++ sorted .getter ["__doc__", "__name__", "__qualname__", "__self__", "__text_signature__"]
  | .method =>
    sorted .fixed ["__new__"]
    ++ sorted .slot ["__repr__", "__hash__", "__call__", "__getattribute__", "__setattr__",
      "__delattr__", "__lt__", "__le__", "__eq__", "__ne__", "__gt__", "__ge__"]
    ++ sorted .method ["__reduce__"]
    ++ sorted .storage ["__func__", "__self__"]
    ++ sorted .getter ["__doc__"]
  | .methodDescriptor | .slotWrapper =>
    sorted .slot ["__repr__", "__call__", "__getattribute__", "__get__"]
    ++ sorted .method ["__reduce__"]
    ++ sorted .storage ["__objclass__", "__name__"]
    ++ sorted .getter ["__doc__", "__qualname__", "__text_signature__"]
  | .classMethodDescriptor =>
    sorted .slot ["__repr__", "__call__", "__getattribute__", "__get__"]
    ++ sorted .storage ["__objclass__", "__name__"]
    ++ sorted .getter ["__doc__", "__qualname__", "__text_signature__"]
  | .methodWrapper =>
    sorted .slot ["__repr__", "__hash__", "__call__", "__getattribute__", "__lt__", "__le__",
      "__eq__", "__ne__", "__gt__", "__ge__"]
    ++ sorted .method ["__reduce__"]
    ++ sorted .storage ["__self__"]
    ++ sorted .getter ["__objclass__", "__name__", "__qualname__", "__doc__",
      "__text_signature__"]
  | .getterDescriptor =>
    sorted .slot ["__repr__", "__getattribute__", "__get__", "__set__", "__delete__"]
    ++ sorted .storage ["__objclass__", "__name__"]
    ++ sorted .getter ["__doc__", "__qualname__"]
  | .memberDescriptor =>
    sorted .slot ["__repr__", "__getattribute__", "__get__", "__set__", "__delete__"]
    ++ sorted .method ["__reduce__"]
    ++ sorted .storage ["__objclass__", "__name__"]
    ++ sorted .getter ["__doc__", "__qualname__"]
  | .staticMethod =>
    sorted .fixed ["__new__"]
    ++ sorted .slot ["__repr__", "__call__", "__get__", "__init__"]
    ++ sorted .storage ["__func__", "__wrapped__"]
    ++ sorted .getter ["__isabstractmethod__", "__dict__"]
  | .classMethod =>
    sorted .fixed ["__new__"]
    ++ sorted .slot ["__repr__", "__get__", "__init__"]
    ++ sorted .storage ["__func__", "__wrapped__"]
    ++ sorted .getter ["__isabstractmethod__", "__dict__"]
  | .property =>
    sorted .fixed ["__new__"]
    ++ sorted .slot ["__getattribute__", "__get__", "__set__", "__delete__", "__init__"]
    ++ sorted .method ["getter", "setter", "deleter", "__set_name__"]
    ++ sorted .storage ["fget", "fset", "fdel", "__doc__"]
    ++ sorted .getter ["__isabstractmethod__"]
  | .baseException =>
    sorted .fixed ["__new__"]
    ++ sorted .slot ["__repr__", "__str__", "__getattribute__", "__setattr__", "__delattr__",
      "__init__"]
    ++ sorted .method ["__reduce__", "__setstate__", "with_traceback", "add_note"]
    ++ sorted .storage ["__suppress_context__"]
    ++ sorted .getter ["__dict__", "args", "__traceback__", "__context__", "__cause__"]
  | .exception | .arithmeticError =>
    sorted .fixed ["__new__"]
    ++ sorted .slot ["__init__"]
  | .keyError =>
    sorted .slot ["__str__", "__init__"]
  | .attributeError =>
    sorted .slot ["__str__", "__init__"]
    ++ sorted .storage ["name", "obj"]
  | .stopIteration =>
    sorted .slot ["__init__"]
    ++ sorted .storage ["value"]
  | .keysView | .itemsView =>
    sorted .slot ["__repr__", "__getattribute__", "__lt__", "__le__", "__eq__", "__ne__",
      "__gt__", "__ge__", "__iter__", "__sub__", "__rsub__", "__and__", "__rand__", "__xor__",
      "__rxor__", "__or__", "__ror__", "__len__", "__contains__"]
    ++ sorted .method ["isdisjoint", "__reversed__"]
    ++ sorted .getter ["mapping"]
  | .valuesView =>
    sorted .slot ["__repr__", "__getattribute__", "__iter__", "__len__"]
    ++ sorted .method ["__reversed__"]
    ++ sorted .getter ["mapping"]
  | .listIterator | .tupleIterator | .textIterator =>
    sorted .slot ["__getattribute__", "__iter__", "__next__"]
    ++ sorted .method ["__length_hint__", "__reduce__", "__setstate__"]
  | .orderedKeys | .orderedValues | .orderedItems =>
    sorted .slot ["__iter__"]
    ++ sorted .method ["__reversed__"]
  | .keyIterator | .valueIterator | .itemIterator | .setIterator =>
    sorted .slot ["__getattribute__", "__iter__", "__next__"]
    ++ sorted .method ["__length_hint__", "__reduce__"]
  | .dequeIterator =>
    sorted .fixed ["__new__"]
    ++ sorted .slot ["__getattribute__", "__iter__", "__next__"]
    ++ sorted .method ["__length_hint__", "__reduce__"]
  | .unicodeError =>
    sorted .fixed ["__new__"]
    ++ sorted .slot ["__str__", "__init__"]
    ++ sorted .storage ["encoding", "object", "start", "end", "reason"]
  | .keysOf | .itemsOf =>
    sorted .ofClass ["_from_iterable"]
    ++ sorted .plain ["__contains__", "__iter__"]
  | .valuesOf =>
    sorted .plain ["__contains__", "__iter__"]
  | undefined => sorted .fixed ["__new__"] ++ sorted .plain ["__repr__", "__bool__"]
    ++ sorted .getter ["__dict__", "__weakref__"]
  | contract => sorted .plain ["__init__", "__setattr__"] ++ sorted .property ["test", "description"]
    ++ sorted .plain ["run", "__repr__"] ++ sorted .storage ["_description", "_test"]
  | signature => sorted .plain ["__init__"] ++ sorted .property ["params", "input", "ret"]
    ++ sorted .storage ["_input", "_params", "_ret"]
  | matched | mismatched =>
    sorted .getter ["__dict__", "__weakref__"]
    ++ sorted .plain ["__init__", "__repr__", "__eq__", "__hash__", "__setattr__", "__delattr__"]
  | settings =>
    sorted .plain ["model_dump", "model_copy", "__init__", "__repr__", "__str__", "__eq__", "__iter__",
      "__setattr__", "__delattr__", "__getattr__", "copy", "dict"]
    ++ sorted .getter ["__dict__", "__weakref__"]
  | wrapper => sorted .plain ["__init__", "__call__", "__get__", "__repr__"]
    ++ sorted .getter ["__dict__", "__weakref__"]
  | unboundWrapper => sorted .plain ["__init__", "__call__"]
  | classWrapper => sorted .plain ["__get__"]
  | signatureCheck => sorted .plain ["__init__", "__call__", "__repr__"]
    ++ sorted .getter ["__dict__", "__weakref__"]
  | contractViolation | inputTypeError | outputTypeError | signatureTypeError =>
    sorted .plain ["__init__"]
  | contractError | invalidOperation | decimalOverflow => sorted .getter ["__weakref__"]
  | patternError => sorted .plain ["__init__"] ++ sorted .getter ["__weakref__"]
  | root => sorted .plain ["__repr__"]
  | _ => []

/-- Classes whose instances no table takes as keys say so. -/
def refusesHash (c : BuiltinClass) : Bool :=
  c ∈ [list, dict, set, deque, attributeBag, orderedDict, mappingProxy, keysView, itemsView, orderedKeys,
    orderedItems, mapping, number, complexNumber, keysOf, itemsOf, settings]

/-- The classes that keep their module and documentation as members. -/
def isOpen (c : BuiltinClass) : Bool :=
  c.home ∉ ["builtins", "datetime", "collections", "_collections", "types"] && c ≠ .pattern
    && c ≠ .partialCall

/-- What the class itself holds under a name. -/
def ownMember? (c : BuiltinClass) (n : String) : Option Value :=
  match (c.ownMembers.find? (·.1 = n)).map Prod.snd with
  | some sort => some (.operation (.member c n sort))
  | none =>
    if n = "__module__" ∧ (c.isOpen ∨ c = .partialCall ∨ c = .pattern) then some (.str c.home)
    else if n = "__doc__" then some .absent
    else if n = "__hash__" ∧ c.refusesHash then some .absent
    else if c = .settings ∧ n = "from_env" then some (.operation .fromEnvironment)
    else none

/-- The table of a class, as a program sees it. -/
def table (c : BuiltinClass) : List (String × Value) :=
  (if c.isOpen then [("__module__", .str c.home)] else [])
    ++ c.ownMembers.map (fun p => (p.1, Value.operation (.member c p.1 p.2))) ++ [("__doc__", .absent)]

end CallContracts.BuiltinClass
