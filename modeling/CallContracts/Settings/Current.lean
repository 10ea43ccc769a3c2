import CallContracts.Settings.Lenient
import CallContracts.Value.Limited
/-! The settings of a run: one object that every error message and every call boundary reads, and that a
program may rewrite without any check. -/
namespace CallContracts
open Act

/-- The place of the settings in force. -/
def settingsRef : Ref := 0

def setting (n : String) : Act Value := ownAttr (.ref settingsRef) n

/-- Short text of a value under the limit in force. -/
def shortText (m : Machine) (v : Value) : Act String := do short m (← setting "repr_limit") v

namespace Settings

/-- What a setting is read from; other values may stand for a floating point number. -/
def inputOf (m : Machine) (v : Value) : Act Input := do
  let s ← get
  match s.unboxed v, s.scalar? v with
  | .bool b, _ => return .bool b
  | .int i, _ => return .int i
  | .str t, _ => return .text t.toList
  | _, some (.float x) => return .float x
  | _, some (.decimal x) => return .decimal x
  | _, some (.bytes bs) => return .octets bs
  | _, _ =>
    orElseOn .exception (Input.float <$> asDouble m v) (pure .other)

def object (x : Values) : Obj where
  cls := .builtin .settings
  body := .plain
  attrs := some [("repr_limit", .int x.limit), ("allow_keywords", .bool x.keywords),
    ("anonymous_suffix", .str (String.ofList x.suffix))]

def inputUnder (m : Machine) (named : Fields Value) (n : String) : Act (Option Input) :=
  match named.get? n with
  | some v => some <$> inputOf m v
  | none => pure none

/-- New settings out of named values; unknown names are ignored. -/
def build (m : Machine) (named : Fields Value) : Act Value := do
  let limit ← inputUnder m named "repr_limit"
  let keywords ← inputUnder m named "allow_keywords"
  let suffix ← inputUnder m named "anonymous_suffix"
  match read limit keywords suffix with
  | .ok x => alloc (object x)
  | .error fs => fail (.invalidSettings fs)

/-- The variable that a setting is read from, and the setting. -/
def settingKeys : List (String × String) :=
  [("PACTA_REPR_LIMIT", "repr_limit"), ("PACTA_ALLOW_KEYWORDS", "allow_keywords"),
    ("PACTA_ANONYMOUS_SUFFIX", "anonymous_suffix")]

/-- The settings that an environment names, with what it has for them. -/
def gather (m : Machine) (environment : Value) : List (String × String) → Act (Fields Value)
  | [] => pure []
  | (key, n) :: r => do
    if ← contains m environment (.str key) then
      let v ← Item.get m environment (.str key)
      return (n, v) :: (← gather m environment r)
    else gather m environment r

/-- Settings read from an environment; no environment sets nothing. -/
def fromEnvironment (m : Machine) (environment : Value) : Act Value := do
  if environment = .absent then build m [] else build m (← gather m environment settingKeys)

/-- The settings as a table of their names. -/
def asTable (v : Value) : Act Value := do newNamed (((← get).attrs? v).getD [])

/-- A copy with some values replaced, which are not checked. -/
def copied (v : Value) (changes : Fields Value) : Act Value := do
  let s ← get
  alloc { cls := s.classOf v, body := .plain, attrs := some (((s.attrs? v).getD []).putAll changes) }

end Settings
end CallContracts
