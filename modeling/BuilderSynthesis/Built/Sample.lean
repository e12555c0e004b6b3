/-
  BuilderSynthesis.Built.Sample — a crate with builders of every kind.

  Its sources are scanned and routed like any others, and the plans are run with the values below:
  a struct that is written out, one that is built by a function, defaults, collections, a field
  whose type comes from a parameter, a generic struct, a borrowed log, and builders in another
  module than their struct.
-/

import BuilderSynthesis.Built.Slots
import BuilderSynthesis.Route.Outcome
import BuilderSynthesis.Scan.SourceTree

namespace BuilderSynthesis.Sample

/-! ## Sources -/

def pair : String :=
  "#[derive(buildergen::Builder)]
pub struct Pair \x7b pub a: String, pub b: Option<String> \x7d"

def account : String :=
  "pub struct Account \x7b id: u64, owner: String, label: Option<String> \x7d
impl Account \x7b
    #[buildergen::builder]
    pub fn open(owner: String, #[builder(default = \"1\")] id: u64) -> Self \x7b
        Self \x7b id, owner, label: None \x7d
    \x7d
    pub const fn id(&self) -> u64 \x7b self.id \x7d
    pub fn owner(&self) -> String \x7b self.owner.clone() \x7d
    pub fn label(&self) -> Option<&str> \x7b self.label.as_deref() \x7d
    pub fn with_label(mut self, label: impl Into<String>) -> Self \x7b
        self.label = Some(label.into());
        self
    \x7d
\x7d"

def defaults : String :=
  "#[derive(buildergen::Builder)]
pub struct Settings \x7b
    #[builder(default = \"localhost\")]
    pub host: String,
    #[builder(default = \"8080\")]
    pub port: u16,
    #[builder(default = \"Some(3)\")]
    pub retries: Option<u8>,
    #[builder(default = \"Vec::new()\")]
    pub tags: Vec<String>,
    #[builder(default = \"30\")]
    pub timeout: Option<u32>,
    pub user: String,
\x7d"

def inventory : String :=
  "#[derive(buildergen::Builder)]
pub struct Inventory \x7b
    pub names: BTreeSet<String>,
    pub counts: BTreeMap<String, u32>,
    pub corners: [i32; 4],
    pub label: Option<String>,
\x7d"

def scores : String :=
  "#[derive(buildergen::Builder)]
pub struct Scores \x7b values: BTreeMap<String, u32> \x7d
impl Scores \x7b
    #[buildergen::constructor]
    pub fn new(#[builder(nullable_element)] values: BTreeMap<String, Option<u32>>) -> Self \x7b
        Self \x7b values: values.into_iter().filter_map(|(player, score)| score.map(|score| (player, score))).collect() \x7d
    \x7d
    pub fn get(&self, player: &str) -> Option<u32> \x7b self.values.get(player).copied() \x7d
    pub fn len(&self) -> usize \x7b self.values.len() \x7d
    pub fn is_empty(&self) -> bool \x7b self.values.is_empty() \x7d
\x7d"

def labeled : String :=
  "#[derive(buildergen::Builder)]
pub struct Labeled<T> where T: Clone \x7b pub label: String, pub value: T \x7d"

def recorder : String :=
  "#[derive(buildergen::Builder)]
pub struct Recorder<'a> \x7b pub events: &'a mut Vec<String>, pub prefix: String \x7d"

def markers : String :=
  "#[buildergen::builder_of(target = crate::pair::Pair, suffix = \"Maker\")]
pub struct ForPair;
#[buildergen::builder_of(target = crate::account::Account, suffix = \"Factory\", use_constructors = true)]
pub struct ForAccount;"

def sources : List (String × String) :=
  [("account.rs", account), ("defaults.rs", defaults), ("inventory.rs", inventory), ("labeled.rs", labeled),
   ("markers.rs", markers), ("pair.rs", pair), ("recorder.rs", recorder), ("scores.rs", scores)]

def tree : SourceTree := .ofSources sources

def plans : List BuilderPlan := tree.host.route.filterMap Outcome.plan?

/-- The plan of a builder of the crate. -/
def plan? (unit : String) : Option BuilderPlan := plans.find? (·.unit == unit)

/-! ## Values -/

inductive Value where
  | text (text : String)
  | number (number : Int)
  /-- Texts in a list, a set or a log. -/
  | texts (texts : List String)
  | numbers (numbers : List Int)
  /-- Numbers by name, each of which may be absent. -/
  | scores (scores : List (String × Option Int))
  deriving DecidableEq, Repr

/-- The fields of a finished struct with their values. -/
abbrev Finished := List (String × Option Value)

namespace Finished

def get? (x : Finished) (name : String) : Option Value := (x.lookup name).join

end Finished

/-- Without repetitions, in order. -/
def sortedSet (texts : List String) : List String := (texts.mergeSort fun a b => decide (a ≤ b)).eraseDups

/-- A value as a field of this type holds it: a set holds each member once and in order. -/
def held (d : Descriptor) : Value → Value
  | .texts found =>
    match d.base with
    | .named path => if Text.lastSegment path == "BTreeSet" then .texts (sortedSet found) else .texts found
    | _ => .texts found
  | value => value

/-- A value for a field of a plan. -/
def heldBy (plan : BuilderPlan) (name : String) (value : Value) : Value :=
  match plan.field? name with
  | some f => held f.descriptor value
  | none => value

/-! ## Meaning -/

/-- The number that a default writes out. -/
def number (text : String) : Int := text.toList.foldl (fun n c => 10 * n + (c.toNat - 48 : Nat)) 0

/-- Defaults are string literals, numbers or empty lists. -/
def defaultValue (expression : String) : Value :=
  if Syntax.isStringLiteral expression then .text (Text.literalValue expression)
  else if expression.toList.all Char.isDigit then .number (number expression)
  else .texts []

/-- The players that have a score. -/
def withScore (found : List (String × Option Int)) : List (String × Option Int) := found.filter (·.2.isSome)

def scoresOf : Option Value → Option Value
  | some (.scores found) => some (.scores (withScore found))
  | value => value

/-- The associated functions of the crate that construct. -/
def call (function : String) (arguments : List (Option Value)) : Finished :=
  match function, arguments with
  | "open", [owner, id] => [("id", id), ("owner", owner), ("label", none)]
  | "new", [values] => [("values", scoresOf values)]
  | _, _ => []

def meaning : Meaning Value Finished where
  default := defaultValue
  literal fields := fields
  call := call
  field name x := x.get? name
  getter method x := x.get? method

/-- A finished value of the struct behind a plan, from the values of its fields. -/
def finished (plan : BuilderPlan) (fields : List (String × Value)) : Finished :=
  match plan.construction with
  | .call "new" [values] => call "new" [fields.lookup values]
  | _ => fields.map fun (name, value) => (name, some (heldBy plan name value))

/-! ## Scores -/

namespace Scores

def entries (x : Finished) : List (String × Option Int) :=
  match x.get? "values" with
  | some (.scores found) => found
  | _ => []

def get? (x : Finished) (player : String) : Option Int := ((entries x).lookup player).join

def size (x : Finished) : Nat := (entries x).length

end Scores

/-! ## Recording -/

/-- A log, and a builder of something that writes to it: whether the log is lent, and the prefix. -/
structure Recording where
  log : List String
  lent : Bool
  prefixed : Option String
  deriving DecidableEq, Repr

namespace Recording

def empty : Recording := ⟨[], false, none⟩

inductive Step where
  /-- Lends the log from now on. -/
  | events
  | prefixed (text : String)
  /-- Takes the log back and forgets the prefix. -/
  | reset
  /-- Builds, converts back, builds again, and records. -/
  | record (text : String)
  deriving DecidableEq, Repr

/-- The builder with what is set. -/
def slots (plan : BuilderPlan) (r : Recording) : Slots Value :=
  let lent := if r.lent then (plan.fresh meaning).set "events" (some (.texts r.log)) else plan.fresh meaning
  match r.prefixed with
  | some text => lent.set "prefix" (some (.text text))
  | none => lent

/-- The log after something is recorded. -/
def recorded (x : Finished) (event : String) : List String :=
  match x.get? "events", x.get? "prefix" with
  | some (.texts log), some (.text start) => log ++ [start ++ event]
  | _, _ => []

def step (plan : BuilderPlan) (r : Recording) : Step → Except MissingField Recording
  | .events => .ok { r with lent := true }
  | .prefixed text => .ok { r with prefixed := some text }
  | .reset => .ok { r with lent := false, prefixed := none }
  | .record event => do
    let first ← plan.built meaning (r.slots plan)
    let again ← plan.built meaning (plan.ofFinished meaning first)
    pure { r with log := recorded again event }

/-- The log after each step, or why the step failed; a step that fails changes nothing. -/
def results (plan : BuilderPlan) (r : Recording) : List Step → List (Except MissingField (List String))
  | [] => []
  | s :: rest =>
    match r.step plan s with
    | .ok next => .ok next.log :: results plan next rest
    | .error e => .error e :: results plan r rest

end Recording

end BuilderSynthesis.Sample
