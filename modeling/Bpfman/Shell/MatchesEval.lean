import Bpfman.Shell.Value
import Mathlib.Data.List.Dedup

/-!
# A value against a `matches` block

`evalMatchesAgainst` holds a value against the evaluated rows of a block and lists what does not
fit, in the words of the runtime. A row names its place in the value by a path (`parsePath`), and a
path that does not resolve is one more thing that does not fit.
-/

namespace Bpfman.Shell

/-- What is taken from the Go library. -/
structure GoLib where
  /-- `json.Marshal` -/
  marshal : Raw → String
  /-- `reflect.DeepEqual` -/
  deepEqual : Raw → Raw → Bool
  /-- the verb `%q` -/
  quote : String → String

/-! ## Texts of values -/

/-- `OriginKind.String` -/
def OriginKind.text : OriginKind → String
  | .unknown => "unknown"
  | .scalar => "scalar"
  | .bool => "boolean"
  | .program => "program"
  | .link => "link"
  | .dispatcher => "dispatcher"
  | .map => "map"
  | .envelope => "result"
  | .job => "job"
  | .null => "null"
  | .netPair => "net pair"
  | .kfunc => "kernel function"
  | .netnsVethPair => "netns-veth-pair"
  | .netnsVethEndpoint => "netns-veth-pair endpoint"
  | .linkInfo => "link info"
  | .progInfo => "program info"

def structuredShape (v : Value) : String :=
  if v.kind ≠ .unknown ∧ v.kind ≠ .scalar then v.kind.text
  else
    match v.raw with
    | .map _ => "object"
    | .list _ => "array"
    | _ => "structured"

def Value.isNullish (v : Value) : Bool := v.isNil || v.isNull

section

variable (lib : GoLib)

def renderCompact (v : Value) : Except Value.ScalarError String :=
  if v.isNil then .ok "null"
  else if v.isStructured then .ok (lib.marshal v.raw)
  else v.scalar

def matchesTargetDisplay (v : Value) : String :=
  if v.isNullish then "null"
  else if v.isStructured then structuredShape v
  else
    match renderCompact lib v with
    | .ok s => s
    | .error _ => v.kind.text

def matchesValueDisplay (v : Value) : String :=
  if v.isNullish then "null"
  else if v.isStructured then
    match renderCompact lib v with
    | .ok s => s
    | .error _ => v.kind.text
  else
    match v.scalar with
    | .ok s => lib.quote s
    | .error _ => v.kind.text

end

/-! ## Paths -/

inductive PathError where
  | unterminated
  /-- what `strconv.Atoi` says of an index -/
  | invalidIndex (text reason : String)

def PathError.text (lib : GoLib) (path : String) : PathError → String
  | .unterminated => "unterminated [ in path " ++ lib.quote path
  | .invalidIndex t reason =>
    "invalid index in path " ++ lib.quote path ++ ": strconv.Atoi: parsing " ++
      lib.quote t ++ ": " ++ reason

/-- `strconv.Atoi` -/
def atoi (t : String) : Except PathError Int :=
  match setString t with
  | none => .error (.invalidIndex t "invalid syntax")
  | some n =>
    if -2 ^ 63 ≤ n ∧ n < 2 ^ 63 then .ok n else .error (.invalidIndex t "value out of range")

/-- The loop of `ParsePath`. Each round takes at least one character, so as much fuel as there are
characters is enough. -/
def parseSteps : Nat → List Char → Except PathError (List PathStep)
  | 0, _ => .ok []
  | fuel + 1, cs =>
    match (if cs.head? = some '.' then cs.tail else cs) with
    | [] => .ok []
    | '[' :: rest =>
      match rest.dropWhile (· ≠ ']') with
      | [] => .error .unterminated
      | _ :: after => do
        let n ← atoi (String.ofList (rest.takeWhile (· ≠ ']')))
        let steps ← parseSteps fuel after
        .ok (.index n :: steps)
    | cs => do
      let steps ← parseSteps fuel (cs.dropWhile fun c => c ≠ '.' ∧ c ≠ '[')
      .ok (.field (String.ofList (cs.takeWhile fun c => c ≠ '.' ∧ c ≠ '[')) :: steps)

def parsePath (path : String) : Except PathError (List PathStep) :=
  parseSteps path.toList.length path.toList

def PathStep.text : PathStep → String
  | .index n => "[" ++ intText n ++ "]"
  | .field name => "." ++ name

/-- The error of a step, with the way so far. -/
def Value.AccessError.text (traversed : String) : Value.AccessError → String
  | .notArray => "cannot index non-array in variable " ++ traversed
  | .outOfRange n length =>
    "index " ++ intText n ++ " out of range for variable " ++ traversed ++ " (length " ++
      toString length ++ ")"
  | .fieldMissing name =>
    "field " ++ name ++ " not found in variable " ++ traversed ++ ": field not found"
  | .isNull => "variable " ++ traversed ++ " is null"
  | .notObject name => "cannot access field " ++ name ++ " on non-object in variable " ++ traversed

namespace Value

def lookupFrom (v : Value) (traversed : String) : List PathStep → Except String Value
  | [] => .ok v
  | step :: steps =>
    match v.stepValue step with
    | .ok w => w.lookupFrom (traversed ++ step.text) steps
    | .error e => .error (e.text traversed)

def lookupPath (lib : GoLib) (v : Value) (name path : String) : Except String Value :=
  match parsePath path with
  | .ok steps => v.lookupFrom name steps
  | .error e => .error (e.text lib path)

/-- The value at a path, whatever an error says. -/
def resolve (v : Value) (path : String) : Option Value :=
  match parsePath path with
  | .ok steps => (v.lookupValue steps).toOption
  | .error _ => none

theorem lookupFrom_eq_ok {w : Value} : ∀ {steps : List PathStep} {v : Value} {traversed : String},
    v.lookupFrom traversed steps = .ok w ↔ v.lookupValue steps = .ok w
  | [], v, traversed => by
    rw [lookupFrom, lookupValue]
    exact Iff.of_eq (by simp)
  | step :: steps, v, traversed => by
    rw [lookupFrom, lookupValue]
    cases v.stepValue step with
    | ok u => exact lookupFrom_eq_ok
    | error e => exact iff_of_false nofun nofun

theorem lookupPath_eq_ok {lib : GoLib} {v w : Value} {name path : String} :
    v.lookupPath lib name path = .ok w ↔ v.resolve path = some w := by
  unfold lookupPath resolve
  cases parsePath path with
  | ok steps =>
    show v.lookupFrom name steps = .ok w ↔ (v.lookupValue steps).toOption = some w
    rw [lookupFrom_eq_ok]
    cases v.lookupValue steps <;> simp [Except.toOption]
  | error e => exact iff_of_false nofun nofun

end Value

/-! ## Blocks -/

/-- Line and column. -/
abbrev SourcePos := Nat × Nat

inductive MatchesTest where
  | notEmpty
  | null
  | empty
  /-- the value of a pattern -/
  | equal (v : Value)

/-- The test of a predicate; the runtime compares any other with no value. -/
def MatchesTest.ofPredicate (pred : String) : MatchesTest :=
  if pred = "not-empty" then .notEmpty
  else if pred = "null" then .null
  else if pred = "empty" then .empty
  else .equal .absent

mutual

/-- `resolvedMatchesBlock` -/
inductive MatchesBlock where
  | mk (pos : SourcePos) (exhaustive : Bool) (entries : List MatchesRow)

/-- `resolvedMatchEntry` -/
inductive MatchesRow where
  | test (pos : SourcePos) (path : String) (t : MatchesTest)
  | sub (pos : SourcePos) (path : String) (block : MatchesBlock)

end

def MatchesBlock.pos : MatchesBlock → SourcePos
  | .mk pos _ _ => pos

def MatchesBlock.exhaustive : MatchesBlock → Bool
  | .mk _ exhaustive _ => exhaustive

def MatchesBlock.entries : MatchesBlock → List MatchesRow
  | .mk _ _ entries => entries

def MatchesRow.path : MatchesRow → String
  | .test _ path _ | .sub _ path _ => path

structure MatchMismatch where
  pos : SourcePos
  message : String

/-! ## Evaluation -/

namespace Value

def isObject (v : Value) : Bool := v.raw matches .map _

/-- The keys of an object. -/
def keys (v : Value) : List String :=
  match v.raw with
  | .map fields => (fields.map Prod.fst).dedup
  | _ => []

end Value

def isMatchesEmpty (v : Value) : Bool :=
  v.isNullish ||
    match v.raw with
    | .str s => s == ""
    | .list l => l.isEmpty
    | .map m => m.isEmpty
    | .num t => (parseFloat t).any (·.isZero)
    | .float x => x.isZero
    | .bool b => !b
    | .null => false

def matchesEmptyDescription (v : Value) : String :=
  if v.isNullish then "null"
  else
    match v.raw with
    | .str _ => "\"\""
    | .list _ => "[]"
    | .map _ => "\x7b\x7d"
    | .num _ | .float _ => "0"
    | .bool _ => "false"
    | .null => v.kind.text

def joinMatchesPath (shown path : String) : String :=
  if shown = "" then path else if path = "" then shown else shown ++ "." ++ path

section

variable (lib : GoLib)

def matchesValueEqual (actual expected : Value) : Bool :=
  if actual.isNullish || expected.isNullish then actual.isNullish && expected.isNullish
  else if actual.isStructured || expected.isStructured then lib.deepEqual actual.raw expected.raw
  else
    match actual.scalar, expected.scalar with
    | .ok a, .ok e => a == e
    | _, _ => lib.deepEqual actual.raw expected.raw

/-- What a row without a block says against the value at its path. -/
def MatchesTest.mismatch (actual : Value) : MatchesTest → Option String
  | .notEmpty =>
    if isMatchesEmpty actual then
      some ("expected non-empty, got " ++ matchesEmptyDescription actual)
    else none
  | .null =>
    if actual.isNullish then none
    else some ("expected null, got " ++ matchesValueDisplay lib actual)
  | .empty =>
    if actual.isNullish then some "expected empty (\"\" / [] / \x7b\x7d), got null"
    else if isMatchesEmpty actual then none
    else some ("expected empty (\"\" / [] / \x7b\x7d), got " ++ matchesValueDisplay lib actual)
  | .equal v =>
    if matchesValueEqual lib actual v then none
    else some ("expected " ++ matchesValueDisplay lib v ++ ", got " ++
      matchesValueDisplay lib actual)

/-- The message for an exhaustive block at a value that is no object. -/
def notObject (target : Value) (shown : String) : String :=
  (if shown = "" then "" else shown ++ ": ") ++ "matches exhaustive: expected object, got " ++
    target.kind.text

/-- The keys that no row claims. -/
def unclaimed (entries : List MatchesRow) (keys : List String) : List String :=
  keys.filter fun k => k ∉ entries.map MatchesRow.path

def unclaimedMessage (shown key : String) : String :=
  joinMatchesPath shown key ++ ": present in value but unclaimed in exhaustive block"

/-- The order in which a `range` goes through the keys of the value at a block. -/
abbrev KeyOrder := SourcePos → List String → List String

/-- What an exhaustive block says of a value that is no object. -/
def objectMismatch (target : Value) (shown : String) (b : MatchesBlock) : List MatchMismatch :=
  if b.exhaustive && !target.isObject then [⟨b.pos, notObject target shown⟩] else []

/-- What an exhaustive block says of the keys that no row claims. -/
def keyMismatches (order : KeyOrder) (target : Value) (shown : String) (b : MatchesBlock) :
    List MatchMismatch :=
  if b.exhaustive then
    (unclaimed b.entries (order b.pos target.keys)).map fun k => ⟨b.pos, unclaimedMessage shown k⟩
  else []

mutual

def evalMatchesAgainst (order : KeyOrder) (target : Value) (name shown : String) :
    MatchesBlock → List MatchMismatch
  | .mk pos exhaustive entries =>
    objectMismatch target shown (.mk pos exhaustive entries) ++
      (evalMatchesEntries order target name shown entries ++
        keyMismatches order target shown (.mk pos exhaustive entries))

def evalMatchesEntries (order : KeyOrder) (target : Value) (name shown : String) :
    List MatchesRow → List MatchMismatch
  | [] => []
  | e :: rest =>
    evalMatchesEntry order target name shown e ++ evalMatchesEntries order target name shown rest

def evalMatchesEntry (order : KeyOrder) (target : Value) (name shown : String) :
    MatchesRow → List MatchMismatch
  | .test pos path t =>
    match target.lookupPath lib name path with
    | .error err => [⟨pos, joinMatchesPath shown path ++ ": " ++ err⟩]
    | .ok actual =>
      (t.mismatch lib actual).toList.map fun msg => ⟨pos, joinMatchesPath shown path ++ ": " ++ msg⟩
  | .sub pos path block =>
    match target.lookupPath lib name path with
    | .error err => [⟨pos, joinMatchesPath shown path ++ ": " ++ err⟩]
    | .ok actual =>
      evalMatchesAgainst order actual (name ++ "." ++ path) (joinMatchesPath shown path) block

end

/-- The mismatches, unless the block cannot be asked of the value. -/
def evalMatchesTarget (order : KeyOrder) (target : Value) (name : String) (block : MatchesBlock) :
    Except String (List MatchMismatch) :=
  if !target.isStructured then
    .error ("matches requires a structured value as the target (got " ++
      matchesTargetDisplay lib target ++ ")")
  else if block.entries.isEmpty && !block.exhaustive then
    .error "matches block must contain at least one entry"
  else .ok (evalMatchesAgainst lib order target name "" block)

end

end Bpfman.Shell
