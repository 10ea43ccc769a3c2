import CallContracts.Attribute.Write
/-! Deleting attributes.  What an object has to have is not deleted; a function loses its documentation but
not its name; a contract whose slot is gone is no contract that runs. -/
namespace CallContracts
open Act

def eraseOwn (v : Value) (n : String) : Act Unit := do
  match v, (← get).attr? v n with
  | .ref r, some _ => modify (·.eraseAttr r n)
  | _, _ => refuse .attributeError

/-- Empties a storage place; a contract is taken apart by it. -/
def eraseSlot (v : Value) (n : String) : Act Unit := do
  let s ← get
  match v, s.slot? v n with
  | .ref r, some _ =>
    modify (·.loosen r)
    update r fun o => { o with slots := o.slots.erase n }
  | _, _ => refuse .attributeError

/-- An object starts again without attributes. -/
def clearTable (v : Value) : Act Unit := do
  match v, (← get).attrs? v with
  | .ref r, some _ => update r fun o => { o with attrs := some [], table := none }
  | _, _ => refuse .attributeError

/-- A function is never without its name; its documentation and home become nothing. -/
def deleteTitle (r : Ref) (n : String) : Act Unit :=
  match n with
  | "__name__" | "__qualname__" | "__code__" => refuse .typeError
  | "__doc__" | "__module__" | "__annotations__" => setTitle r n .absent
  | "__defaults__" | "__kwdefaults__" => pure ()
  | _ => refuse .attributeError

def deletePart (v : Value) (c : BuiltinClass) (n : String) : Act Unit := do
  if n = "__class__" then refuse .typeError
  else if n = "__dict__" then
    if c ∈ [.function, .baseException, .partialCall, .staticMethod, .classMethod] then refuse .typeError
    else if givesTable c then clearTable v
    else refuse .attributeError
  else match c, v with
    | .contract, _ | .signature, _ => eraseSlot v n
    | .function, .ref r => deleteTitle r n
    | .baseException, _ => refuse .typeError
    | _, _ => refuse .attributeError

def deletePlace (owner : Ref) (n : String) (sort : MemberSort) (v : Value) : Act Unit := do
  let s ← get
  if !s.comesFrom (s.classOf v) (.defined owner) then refuse .typeError
  else if sort = .storage then eraseSlot v n
  else if n = "__dict__" then clearTable v
  else refuse .attributeError

def deleteMember (m : Machine) (v member : Value) : Act Unit := do
  let s ← get
  match member, s.body? member with
  | .operation (.placeOf owner n sort), _ => deletePlace owner n sort v
  | .operation (.member c n sort), _ =>
    if sort = .property then refuse .attributeError
    else if s.isA v c then deletePart v c n
    else refuse .typeError
  | _, some (.property _ _ delete) =>
    if delete = .absent then refuse .attributeError
    let _ ← m.call delete [v] []
  | _, _ =>
    let g ← ofOption .attributeError (s.override? (s.classOf member) "__delete__")
    let _ ← callSpecial m member g [v]

def deleteInstance (m : Machine) (v : Value) (n : String) : Act Unit := do
  let s ← get
  match s.classMember? (s.classOf v) n with
  | some member => if s.isDataMember member then deleteMember m v member else eraseOwn v n
  | none => eraseOwn v n

/-- A class keeps what it tells about itself. -/
def deleteOfClass (m : Machine) (v : Value) (c : ClassId) (n : String) : Act Unit := do
  let s ← get
  match c, s.override? (s.classOf v) n with
  | .builtin _, _ => refuse .typeError
  | .defined _, above =>
    if s.isDataMember (above.getD .absent) then deleteMember m v (above.getD .absent)
    else if above.isSome then eraseOwn v n
    else if n ∈ ["__name__", "__qualname__", "__module__", "__doc__", "__bases__", "__class__"] then
      refuse .typeError
    else if n ∈ fixedTitles then refuse .attributeError
    else eraseOwn v n

def deleteNative (m : Machine) (v : Value) (n : String) : Act Unit := do
  let s ← get
  match s.class? v with
  | some c => deleteOfClass m v c n
  | none => if s.isFrozen v n then refuse .frozenInstanceError else deleteInstance m v n

def deleteAttribute (m : Machine) (v : Value) (n : String) : Act Unit := do
  let s ← get
  match s.override? (s.classOf v) "__delattr__" with
  | some f => let _ ← callSpecial m v f [.str n]
  | none => deleteNative m v n

end CallContracts
