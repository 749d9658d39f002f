import Bpfman.Shell.Number

/-!
# Values of the shell

A value is a JSON-like tree (`Raw`), the Go value it came from (`Origin`), a declared kind, and for
a record the values of its fields. A list keeps the trees of its elements and, beside them, their
origins; `indexValue` builds an element from these two again.

* `indexValue`, `stepValue`, `lookupValue`, `lookupPresence`: access.
* `isNil`, `isNull`: no value, and the value null. Both have the tree `null` and differ by kind.
* `Envelope`, `valueFromOutcome`, `valueList`: the results of commands and of loops over them.
-/

namespace Bpfman.Shell

open Binary64

/-! ## Trees, origins and kinds -/

/-- A decoded JSON tree. Numbers are texts; `float` is a number made by a filter. -/
inductive Raw where
  | null
  | bool (b : Bool)
  | num (text : String)
  | float (x : Double)
  | str (s : String)
  | list (elems : List Raw)
  | map (fields : List (String × Raw))

/-- The Go types that an origin can have. -/
inductive GoType
  | program
  | programRecord
  | link
  | linkRecord
  | envelope
  | job
  | outcome
  | other (name : String)
  deriving DecidableEq

/-- A Go value behind a shell value. Absent elements are nil pointers and nil interfaces. -/
inductive Origin where
  | seq (elems : List (Option Origin))
  | record (type : GoType) (fields : List (String × Option Origin))
  | ptr (target : Origin)
  | leaf (type : GoType)

inductive OriginKind
  | unknown
  | scalar
  | bool
  | program
  | link
  | dispatcher
  | map
  | envelope
  | job
  | null
  | netPair
  | kfunc
  | netnsVethPair
  | netnsVethEndpoint
  | linkInfo
  | progInfo
  deriving DecidableEq

/-- The kind registered for a Go type. -/
def GoType.kind : GoType → OriginKind
  | .program => .program
  | .programRecord => .program
  | .link => .link
  | .linkRecord => .link
  | _ => .unknown

namespace Origin

/-- The value behind pointers. -/
def unwrap : Origin → Origin
  | ptr o => o.unwrap
  | o => o

/-- `kindForType` of the dynamic type. -/
def kindFor : Origin → OriginKind
  | record t _ => t.kind
  | leaf t => t.kind
  | _ => .unknown

end Origin

/-- One step of a path. -/
inductive PathStep where
  | field (name : String)
  | index (n : Int)
  deriving DecidableEq

/-- The element of a list at an index, nothing when it is out of range. -/
def elemAt {α : Type} (l : List α) (n : Int) : Option α :=
  if 0 ≤ n then l[n.toNat]? else none

/-- `walkOrigin` along one step. -/
def walkOrigin (o : Origin) (step : PathStep) : Option Origin :=
  match o.unwrap, step with
  | .seq elems, .index n => ((elemAt elems n).join).map Origin.unwrap
  | .record _ fields, .field name => ((fields.lookup name).join).map Origin.unwrap
  | _, _ => none

/-- The origin one step further, with the kind of its type. -/
def walkSuborigin (o : Option Origin) (step : PathStep) : Option (Origin × OriginKind) :=
  (o.bind fun o => walkOrigin o step).map fun o => (o, o.kindFor)

/-- The kind of a field with no origin: a null in the tree is a null value. -/
def Raw.fieldKind : Raw → OriginKind
  | .null => .null
  | _ => .unknown

/-! ## Values -/

structure Value where
  raw : Raw := .null
  origin : Option Origin := none
  kind : OriginKind := .unknown
  recordFields : Option (List (String × Value)) := none

namespace Value

/-- No value. -/
def absent : Value := {}

def ofRaw (r : Raw) : Value := { raw := r }

def string (s : String) : Value := { raw := .str s, kind := .scalar }

def bool (b : Bool) : Value := { raw := .bool b, kind := .bool }

def null : Value := { kind := .null }

def number (text : String) : Value := { raw := .num text, kind := .scalar }

variable (v : Value)

def isNull : Bool := v.kind == .null

/-- The tree is null. -/
def rawNull : Bool :=
  match v.raw with
  | .null => true
  | _ => false

/-- No value was produced: the tree is null and the kind does not say so. -/
def isNil : Bool := v.rawNull && !v.isNull

/-- `ValueFromRecord`: the fields, and the map of their trees. -/
def ofRecord (fields : List (String × Value)) : Value :=
  { raw := .map (fields.map fun f => (f.1, f.2.raw)), recordFields := some fields }

def withOrigin (o : Option Origin) (k : OriginKind) : Value :=
  { v with origin := o, kind := k }

def withKind (k : OriginKind) : Value := { v with kind := k }

/-- A list from the trees and origins of its elements. -/
def valueList (vs : List Value) : Value :=
  (ofRaw (.list (vs.map raw))).withOrigin (some (.seq (vs.map origin))) .unknown

/-- A list literal: the origins are kept only if there is one. -/
def listLiteral (vs : List Value) : Value :=
  if vs.any fun v => v.origin.isSome then
    (ofRaw (.list (vs.map raw))).withOrigin (some (.seq (vs.map origin))) .unknown
  else ofRaw (.list (vs.map raw))

/-- The trees of the elements of a list. -/
def list? : Option (List Raw) :=
  match v.raw with
  | .list l => some l
  | _ => none

/-- The value with a tree, and the origin and kind of a step where there is an origin. -/
def ofStep (r : Raw) (k : OriginKind) (sub : Option (Origin × OriginKind)) : Value :=
  match sub with
  | some (o, k') => { raw := r, origin := some o, kind := k' }
  | none => { raw := r, kind := k }

/-- The element at an index, built from the list's tree and origin. -/
def indexValue (n : Int) : Value :=
  match v.list?.bind (elemAt · n) with
  | some r => ofStep r .unknown (walkSuborigin v.origin (.index n))
  | none => absent

inductive AccessError
  /-- `cannot index non-array in variable V` -/
  | notArray
  /-- `index N out of range for variable V (length L)` -/
  | outOfRange (n : Int) (length : Nat)
  /-- `field F not found in variable V`, the error that presence tests look for -/
  | fieldMissing (name : String)
  /-- `variable V is null` -/
  | isNull
  /-- `cannot access field F on non-object in variable V` -/
  | notObject (name : String)
  deriving DecidableEq

def stepValue : PathStep → Except AccessError Value
  | .index n =>
    match v.list? with
    | none => .error .notArray
    | some l =>
      if (elemAt l n).isSome then .ok (v.indexValue n) else .error (.outOfRange n l.length)
  | .field name =>
    match v.recordFields, v.raw with
    | some fields, _ =>
      match fields.lookup name with
      | some f => .ok f
      | none => .error (.fieldMissing name)
    | none, .map fields =>
      match fields.lookup name with
      | some r => .ok (ofStep r r.fieldKind (walkSuborigin v.origin (.field name)))
      | none => .error (.fieldMissing name)
    | none, .null => .error .isNull
    | none, _ => .error (.notObject name)

def lookupValue (v : Value) : List PathStep → Except AccessError Value
  | [] => .ok v
  | step :: steps => do (← v.stepValue step).lookupValue steps

/-- How a path resolved. -/
inductive Presence where
  | missing
  | null (v : Value)
  | value (v : Value)

def lookupPresence (steps : List PathStep) : Except AccessError Presence :=
  match v.lookupValue steps with
  | .error (.fieldMissing _) => .ok .missing
  | .error e => .error e
  | .ok v => .ok (if v.isNil || v.isNull then .null v else .value v)

def isStructured : Bool :=
  match v.raw with
  | .map _ | .list _ => true
  | _ => false

inductive ScalarError
  /-- `value is null` -/
  | isNull
  /-- `value is not a scalar` -/
  | notScalar
  deriving DecidableEq

/-- The text of a scalar. -/
def scalar : Except ScalarError String :=
  if v.isNull then .ok "null"
  else
    match v.raw with
    | .str s => .ok s
    | .num t => .ok t
    | .float x => .ok (formatFloat x)
    | .bool b => .ok (if b then "true" else "false")
    | .null => .error .isNull
    | _ => .error .notScalar

/-- `AsBool`: the tree decides, whatever the kind. -/
def asBool : Option Bool :=
  match v.raw with
  | .bool b => some b
  | _ => none

end Value

/-! ## Outcomes of commands -/

structure Envelope where
  exitCode : Int := 0
  stdout : String := ""
  stderr : String := ""
  killed : Bool := false
  signal : String := ""
  pid : Option Int := none
  deriving DecidableEq

namespace Envelope

def ok (e : Envelope) : Bool := e.exitCode == 0

/-- The tree that mirrors the envelope. -/
def mirror (e : Envelope) : List (String × Raw) :=
  [("ok", .bool e.ok), ("exit_code", .num (intText e.exitCode)), ("stdout", .str e.stdout),
    ("stderr", .str e.stderr), ("killed", .bool e.killed), ("signal", .str e.signal)] ++
  (e.pid.toList.map fun p => ("pid", .num (intText p)))

/-- The fields of an outcome that come from the envelope. -/
def fields (e : Envelope) : List (String × Value) :=
  [("ok", .bool e.ok), ("exit_code", .number (intText e.exitCode)), ("stdout", .string e.stdout),
    ("stderr", .string e.stderr), ("killed", .bool e.killed), ("signal", .string e.signal)] ++
  (e.pid.toList.map fun p => ("pid", .number (intText p)))

/-- `ValueFromEnvelope` -/
def toValue (e : Envelope) : Value :=
  { raw := .map e.mirror, origin := some (.leaf .envelope), kind := .envelope }

def okEnvelope : Envelope := {}

def failEnvelope : Envelope := { exitCode := 1 }

end Envelope

/-- The result of a command in bind position: the envelope and the primary result. -/
structure BindResult where
  rc : Envelope
  primary : Value

/-- The payload is something other than the envelope itself. -/
def hasDistinctPrimary (v : Value) : Bool := !v.isNil && v.kind != .envelope

def valueFromOutcome (r : BindResult) : Value :=
  let fields :=
    if hasDistinctPrimary r.primary then r.rc.fields ++ [("value", r.primary)] else r.rc.fields
  let origin := if hasDistinctPrimary r.primary then r.primary.origin else none
  (Value.ofRecord fields).withOrigin (some (.record .outcome [("value", origin)])) .envelope

def valueFromCollectOutcome (ok : Bool) (results values : List Value) : Value :=
  (Value.ofRecord [("ok", .bool ok), ("results", .valueList results),
    ("values", .valueList values)]).withKind .envelope

end Bpfman.Shell
