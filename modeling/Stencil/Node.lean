import Stencil.Entries
import Stencil.Position

/-! The tree of a program. `Form` is one layer of it over any kind of parts, so that what holds of
all nodes alike is said once, through `Form.map`, `Form.parts` and `Node.fold`. -/
namespace Stencil

/-- Parameters `[key=value,...]`; an entry without a value is a flag. -/
structure Params (ν : Type) where
  entries : List (Text × Option ν)
  location : Location
  deriving BEq

/-- One layer of syntax. -/
inductive Form (ν : Type) where
  /-- Statements in an argument or a parameter value. -/
  | group (body : List ν)
  /-- Literal text with its escapes undone. -/
  | raw (text : Text)
  | call (name : Text) (params : Option (Params ν)) (args : List ν)
  | define (name : ν) (params : Params ν) (body : ν)
  | branch (condition yes : ν) (no : Option ν)
  | choice (subject : ν) (cases : List ν)
  | case (value body : ν)
  | loop (first condition next body : ν)
  | url (target : ν)
  | file (target : ν)
  | use (target : ν) (hash : Option ν) (params : Option (Params ν))
  | exec (command : ν)
  /-- The source of an expression without its marks. -/
  | expression (source : Text)
  | comment (text : Text)
  deriving BEq

/-- A layer and where it stands. -/
inductive Node where
  | mk (form : Form Node) (location : Location)
  deriving BEq

variable {ν μ : Type}

namespace Params

def map (f : ν → μ) (p : Params ν) : Params μ :=
  ⟨p.entries.map fun (key, value) => (key, value.map f), p.location⟩

/-- The values in order, flags having none. -/
def values (p : Params ν) : List ν := p.entries.filterMap Prod.snd

def empty : Params ν := ⟨[], .start⟩

/-- Puts an entry in: a key that is there keeps its place. -/
def insert (key : Text) (value : Option ν) (p : Params ν) : Params ν :=
  { p with entries := Entries.insert key value p.entries }

def get? (key : Text) (p : Params ν) : Option (Option ν) := Entries.get? key p.entries

def keys (p : Params ν) : List Text := Entries.keys p.entries

end Params

namespace Form

def map (f : ν → μ) : Form ν → Form μ
  | group body => group (body.map f)
  | raw text => raw text
  | call name params args => call name (params.map (·.map f)) (args.map f)
  | define name params body => define (f name) (params.map f) (f body)
  | branch condition yes no => branch (f condition) (f yes) (no.map f)
  | choice subject cases => choice (f subject) (cases.map f)
  | case value body => case (f value) (f body)
  | loop first condition next body => loop (f first) (f condition) (f next) (f body)
  | url target => url (f target)
  | file target => file (f target)
  | use target hash params => use (f target) (hash.map f) (params.map (·.map f))
  | exec command => exec (f command)
  | expression source => expression source
  | comment text => comment text

/-- The parameter list of a layer that has one. -/
def params? : Form ν → Option (Params ν)
  | call _ params _ | use _ _ params => params
  | define _ params _ => some params
  | _ => none

/-- The parts outside the parameter list, in order. -/
def ownParts : Form ν → List ν
  | group body => body
  | call _ _ args => args
  | define name _ body => [name, body]
  | branch condition yes no => condition :: yes :: no.toList
  | choice subject cases => subject :: cases
  | case value body => [value, body]
  | loop first condition next body => [first, condition, next, body]
  | url part | file part | exec part => [part]
  | use target hash _ => target :: hash.toList
  | raw _ | expression _ | comment _ => []

/-- All parts: those of the parameter list come last. -/
def parts (form : Form ν) : List ν :=
  form.ownParts ++ form.params?.elim [] Params.values

/-- Applies `f` to where the parameter list stands. -/
def mapLocation (f : Location → Location) : Form ν → Form ν
  | call name params args => call name (params.map fun p => ⟨p.entries, f p.location⟩) args
  | define name params body => define name ⟨params.entries, f params.location⟩ body
  | use target hash params => use target hash (params.map fun p => ⟨p.entries, f p.location⟩)
  | form => form

/-- Applies `f` to the statements of a group. -/
def mapBody (f : List ν → List ν) : Form ν → Form ν
  | group body => group (f body)
  | form => form

end Form

namespace Node

def form : Node → Form Node
  | mk form _ => form

def location : Node → Location
  | mk _ location => location

variable {β : Type} (f : Form β → Location → β)

mutual

/-- Replaces every layer, parts first, by what `f` makes of it. -/
def fold : Node → β
  | mk form location => f (foldForm form) location

def foldForm : Form Node → Form β
  | .group body => .group (foldList body)
  | .raw text => .raw text
  | .call name params args => .call name (foldParams? params) (foldList args)
  | .define name params body => .define (fold name) (foldParams params) (fold body)
  | .branch condition yes no => .branch (fold condition) (fold yes) (foldOption no)
  | .choice subject cases => .choice (fold subject) (foldList cases)
  | .case value body => .case (fold value) (fold body)
  | .loop first condition next body =>
    .loop (fold first) (fold condition) (fold next) (fold body)
  | .url target => .url (fold target)
  | .file target => .file (fold target)
  | .use target hash params => .use (fold target) (foldOption hash) (foldParams? params)
  | .exec command => .exec (fold command)
  | .expression source => .expression source
  | .comment text => .comment text

def foldList : List Node → List β
  | [] => []
  | n :: ns => fold n :: foldList ns

def foldOption : Option Node → Option β
  | none => none
  | some n => some (fold n)

def foldParams? : Option (Params Node) → Option (Params β)
  | none => none
  | some params => some (foldParams params)

def foldParams : Params Node → Params β
  | ⟨entries, location⟩ => ⟨foldEntries entries, location⟩

def foldEntries : List (Text × Option Node) → List (Text × Option β)
  | [] => []
  | (key, value) :: entries => (key, foldOption value) :: foldEntries entries

end

theorem foldList_eq (ns : List Node) : foldList f ns = ns.map (fold f) := by
  induction ns with
  | nil => rfl
  | cons n ns ih => rw [foldList, List.map_cons, ih]

theorem foldOption_eq (n : Option Node) : foldOption f n = n.map (fold f) := by
  cases n <;> rfl

theorem foldEntries_eq (entries : List (Text × Option Node)) :
    foldEntries f entries = entries.map fun (key, value) => (key, value.map (fold f)) := by
  induction entries with
  | nil => rfl
  | cons e entries ih => rw [foldEntries, List.map_cons, ih, foldOption_eq]

theorem foldParams_eq (params : Params Node) : foldParams f params = params.map (fold f) := by
  rw [foldParams, foldEntries_eq, Params.map]

theorem foldParams?_eq (params : Option (Params Node)) :
    foldParams? f params = params.map (·.map (fold f)) := by
  cases params with
  | none => rfl
  | some params => rw [foldParams?, foldParams_eq, Option.map_some]

theorem foldForm_eq (form : Form Node) : foldForm f form = form.map (fold f) := by
  cases form <;>
    simp only [foldForm, Form.map, foldList_eq, foldOption_eq, foldParams_eq, foldParams?_eq]

/-- A fold acts on every layer alike. -/
@[simp] theorem fold_mk (form : Form Node) (location : Location) :
    fold f (mk form location) = f (form.map (fold f)) location := by
  rw [fold, foldForm_eq]

/-- A fold that also shows `f` the parts as they were. -/
def foldWith (f : Form (Node × β) → Location → β) (n : Node) : β :=
  (fold (fun form location => (mk (form.map Prod.fst) location, f form location)) n).2

/-- Records the file at every node and parameter list that has none yet. -/
def stamp (file : Text) : Node → Node :=
  fold fun form location => mk (form.mapLocation (·.stamp file)) (location.stamp file)

/-- The text of a node made of literal text only. -/
def text? : Node → Option Text :=
  fold fun form _ =>
    match form with
    | .raw text => some text
    | .group body => (body.mapM id).map List.flatten
    | _ => none

end Node
end Stencil
