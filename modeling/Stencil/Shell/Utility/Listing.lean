import Stencil.Shell.Expansion
import Stencil.Shell.Utility.Options

/-! Programs that take paths apart and show what stands at them. -/
namespace Stencil.Shell.Utility

open Running

/-! ### Paths -/

/-- A path without slashes at its end, except one that is all of it. -/
def withoutSlashes (path : Text) : Text :=
  let r := (path.reverse.dropWhile (· = '/')).reverse
  if r.isEmpty then path.take 1 else r

/-- The last name of a path. -/
def lastName (path : Text) : Text :=
  let path := withoutSlashes path
  if path = ['/'] then path else (path.reverse.takeWhile (· ≠ '/')).reverse

/-- A path without its last name. -/
def beforeLast (path : Text) : Text :=
  let short := withoutSlashes path
  if short = ['/'] then short
  else
    let r := (short.reverse.dropWhile (· ≠ '/')).reverse
    if r.isEmpty then ['.'] else withoutSlashes r

def basename (args : List Text) : Running Nat := do
  let o : Options := ⟨"basename", "az", "s", [("multiple", 'a'), ("suffix", 's'), ("zero", 'z')], 1⟩
  let g ← o.read args
  let ending := if g.has 'z' then ['\x00'] else ['\n']
  let cut (suffix path : Text) : Text :=
    let name := lastName path
    if name = suffix then name else name.dropBack suffix
  match g.operands with
  | [] => o.misused "missing operand".toList
  | paths =>
    if g.has 'a' || g.has 's' then
      out (paths.flatMap fun path => cut ((g.value? 's').getD []) path ++ ending)
      pure 0
    else match paths with
      | _ :: _ :: c :: _ => o.misused ("extra operand ".toList ++ enclosed c)
      | path :: rest => do
        out (cut (rest.headD []) path ++ ending)
        pure 0
      | [] => pure 0

def dirname (args : List Text) : Running Nat := do
  let o : Options := ⟨"dirname", "z", "", [("zero", 'z')], 1⟩
  let g ← o.read args
  if g.operands.isEmpty then o.misused "missing operand".toList
  let ending := if g.has 'z' then ['\x00'] else ['\n']
  out (g.operands.flatMap fun path => beforeLast path ++ ending)
  pure 0

/-- The way to a path from the root, without idle steps. -/
def fromRoot (path : Text) : Running Text := do
  let whole := Path.join (← get).path path
  let step (taken : List Text) (part : Text) : List Text :=
    match Path.Component.ofPart? part with
    | some (.name n) => n :: taken
    | some .parent => taken.tail
    | _ => taken
  let taken := (Text.splitOn '/' whole).foldl step []
  pure ('/' :: Text.join ['/'] taken.reverse)

/-- The way from a directory to a path, both of which lead from the root. -/
def relative (base path : Text) : Text :=
  let parts (t : Text) : List Text := (Text.splitOn '/' t).filter (!List.isEmpty ·)
  let (a, b) := (parts base, parts path)
  let shared := ((a.zip b).takeWhile fun (x, y) => x = y).length
  let steps := List.replicate (a.length - shared) ['.', '.'] ++ b.drop shared
  if steps.isEmpty then ['.'] else Text.join ['/'] steps

/-- Whether something stands at a path, or would stand there in a directory that is there. -/
def canonical (strict : Bool) (path : Text) : Running (Except PathFault Text) := do
  match ← locate path with
  | .lost f => pure (.error f)
  | .vacant _ => if strict then pure (.error .missing) else return .ok (← fromRoot path)
  | _ => return .ok (← fromRoot path)

def realpath (args : List Text) : Running Nat := do
  let o : Options := ⟨"realpath", "emLPqsz", "rb", [("canonicalize-existing", 'e'),
    ("canonicalize-missing", 'm'), ("quiet", 'q'), ("no-symlinks", 's'), ("strip", 's'),
    ("relative-to", 'r'), ("relative-base", 'b')], 1⟩
  let g ← o.read args
  if g.operands.isEmpty then o.misused "missing operand".toList
  let mut status := 0
  for path in g.operands do
    match ← if g.has 'm' then Except.ok <$> fromRoot path else canonical (g.has 'e') path with
    | .ok t =>
      let shown ← match g.value? 'r' with
        | none => pure t
        | some base => do pure (relative (← fromRoot base) t)
      out (shown ++ ['\n'])
    | .error fault => do
      if !g.has 'q' then complainAs "realpath" (shown path ++ ": ".toList ++ faultText fault)
      status := 1
  pure status

def readlink (args : List Text) : Running Nat := do
  let o : Options := ⟨"readlink", "femnqsvz", "", [("canonicalize", 'f'),
    ("canonicalize-existing", 'e'), ("canonicalize-missing", 'm'), ("no-newline", 'n')], 1⟩
  let g ← o.read args
  if g.operands.isEmpty then o.misused "missing operand".toList
  let mut status := 0
  for path in g.operands do
    let found ←
      if g.has 'm' then Except.ok <$> fromRoot path
      else if g.has 'f' || g.has 'e' then canonical (g.has 'e') path
      else pure (.error .invalid)
    match found with
    | .ok t => out (t ++ if g.has 'n' then [] else ['\n'])
    | .error fault => do
      if g.has 'v' then complainAs "readlink" (shown path ++ ": ".toList ++ faultText fault)
      status := 1
  pure status

/-! ### What stands at a path -/

/-- What stands at a path, or why nothing does. -/
def standing (path : Text) : Running (Except PathFault Directory.Place) := do
  match ← locate path with
  | .vacant _ => pure (.error .missing)
  | .lost f => pure (.error f)
  | p => pure (.ok p)

def isFolderAt (path : Text) : Running Bool := do
  match ← locate path with
  | .folder _ => pure true
  | _ => pure false

def sizeOf : Directory.Place → Nat
  | .file _ content _ => content.length
  | .folder _ => 4096
  | _ => 0

/-- The permissions of what stands somewhere, as letters. -/
def modeText : Directory.Place → Text
  | .folder _ => "drwxr-xr-x".toList
  | .file _ _ true => "-rwxr-xr-x".toList
  | .null => "crw-rw-rw-".toList
  | _ => "-rw-r--r--".toList

def modeDigits : Directory.Place → Text
  | .folder _ | .file _ _ true => "755".toList
  | .null => "666".toList
  | _ => "644".toList

def kindText : Directory.Place → Text
  | .folder _ => "directory".toList
  | .file _ [] _ => "regular empty file".toList
  | .null => "character special file".toList
  | _ => "regular file".toList

/-- A text with its conversions filled in, as many as are allowed. -/
def describeBy (escapes : Bool) (path : Text) (p : Directory.Place) : Nat → Text → Text
  | 0, _ => []
  | _ + 1, [] => []
  | n + 1, '%' :: c :: r =>
    let value : Text := match c with
      | 's' => digits (sizeOf p)
      | 'n' => path
      | 'N' => enclosed path
      | 'F' => kindText p
      | 'a' => modeDigits p
      | 'A' => modeText p
      | 'U' | 'G' => "root".toList
      | 'u' | 'g' => ['0']
      | 'h' => ['1']
      | '%' => ['%']
      | _ => ['?']
    value ++ describeBy escapes path p n r
  | n + 1, '\\' :: c :: r =>
    if escapes && (c = 'n' || c = 't' || c = '\\') then
      (if c = 'n' then '\n' else if c = 't' then '\t' else c) :: describeBy escapes path p n r
    else '\\' :: c :: describeBy escapes path p n r
  | n + 1, c :: r => c :: describeBy escapes path p n r

def stat (args : List Text) : Running Nat := do
  let o : Options := ⟨"stat", "Lft", "cp", [("format", 'c'), ("printf", 'p'),
    ("dereference", 'L')], 1⟩
  let g ← o.read args
  if g.operands.isEmpty then o.misused "missing operand".toList
  let raw := (g.value? 'p').isSome
  let format := ((g.value? 'p').orElse fun _ => g.value? 'c').getD "%n".toList
  let mut status := 0
  for path in g.operands do
    match ← standing path with
    | .ok p =>
      out (describeBy raw path p (format.length + 1) format ++ if raw then [] else ['\n'])
    | .error fault => do
      complainAs "stat" ("cannot statx ".toList ++ enclosed path ++ ": ".toList ++ faultText fault)
      status := 1
  pure status

/-! ### ls -/

namespace Listing

/-- A name that is shown, and what stands under it. -/
structure Entry where
  name : Text
  place : Directory.Place

/-- The ending of a name, from its last point on. -/
def ending (t : Text) : Text :=
  if t.any (· = '.') then '.' :: (t.reverse.takeWhile (· ≠ '.')).reverse else []

/-- Entries in the order that options ask for. -/
def arranged (g : Given) (es : List Entry) : List Entry :=
  let byName (a b : Entry) : Bool := Expansion.precedes a.name b.name
  let es :=
    if g.has 'U' || g.has 'f' then es
    else
      let es := es.mergeSort byName
      if g.has 'S' then es.mergeSort fun a b => sizeOf b.place ≤ sizeOf a.place
      else if g.has 'X' then
        es.mergeSort fun a b => Expansion.precedes (ending a.name) (ending b.name)
      else es
  if g.has 'r' then es.reverse else es

/-- A name as options ask for it. -/
def shownName (g : Given) (e : Entry) : Text :=
  let name := if g.has 'Q' then '"' :: e.name ++ ['"'] else e.name
  name ++ match e.place with
    | .folder _ => if g.has 'F' || g.has 'p' then ['/'] else []
    | .file _ _ true => if g.has 'F' then ['*'] else []
    | _ => []

def isLong (g : Given) : Bool := g.has 'l' || g.has 'n' || g.has 'g' || g.has 'o'

/-- The lines that show entries. -/
def shownLines (g : Given) (es : List Entry) : Text :=
  if isLong g then
    let width := ((es.map fun e => (digits (sizeOf e.place)).length).foldl max 0)
    unlines (es.map fun e =>
      modeText e.place ++ " 1 root root ".toList ++ padded width (digits (sizeOf e.place)) ++
        " Jan  1 00:00 ".toList ++ shownName g e)
  else if g.has 'm' then
    if es.isEmpty then [] else Text.join [',', ' '] (es.map (shownName g)) ++ ['\n']
  else unlines (es.map (shownName g))

/-- The entries of a directory. -/
def entriesAt (g : Given) (place : Directory.Place) : Running (List Entry) := do
  let d := (← get).directory
  let names := Expansion.namesAt d place
  let names :=
    if g.has 'a' || g.has 'f' then ['.'] :: ['.', '.'] :: names
    else if g.has 'A' then names
    else names.filter fun name => name.head? ≠ some '.'
  pure (arranged g (names.map fun name => ⟨name, d.locate place (ofUtf8 name)⟩))

/-- A directory as it is listed, with those in it if options ask for them, as deep as is
allowed. -/
def listed (g : Given) : Nat → Bool → Text → Directory.Place → Running (List Text)
  | 0, _, _, _ => pure []
  | n + 1, titled, path, place => do
    let es ← entriesAt g place
    let blocks := (es.map fun e => if sizeOf e.place = 0 then 0 else
      (sizeOf e.place + 4095) / 4096 * 4).foldl (· + ·) 0
    let own := (if titled then path ++ ":\n".toList else []) ++
      (if isLong g then "total ".toList ++ digits blocks ++ ['\n'] else []) ++ shownLines g es
    if g.has 'R' then
      let inner ← es.mapM fun e => do
        match e.place with
        | .folder _ =>
          if e.name = ['.'] || e.name = ['.', '.'] then pure []
          else listed g n true (Path.join path e.name) e.place
        | _ => pure []
      pure (own :: inner.flatten)
    else pure [own]

end Listing

open Listing in
def ls (args : List Text) : Running Nat := do
  let o : Options := ⟨"ls", "1aAdFpRrmQSXUtlnghoisxCkLHBcufqvNG", "wIT", [("all", 'a'),
    ("almost-all", 'A'), ("directory", 'd'), ("classify", 'F'), ("recursive", 'R'),
    ("reverse", 'r'), ("quote-name", 'Q'), ("human-readable", 'h'), ("width", 'w')], 2⟩
  let g ← o.read (args.filter fun a => !"--color".toList.isPrefixOf a)
  let operands := if g.operands.isEmpty then [['.']] else g.operands
  let mut status := 0
  let mut files : List Entry := []
  let mut folders : List Entry := []
  for path in operands do
    match ← standing path with
    | .ok (.folder names) =>
      if g.has 'd' then files := files ++ [⟨path, .folder names⟩]
      else folders := folders ++ [⟨path, .folder names⟩]
    | .ok p => files := files ++ [⟨path, p⟩]
    | .error fault => do
      complainAs "ls" ("cannot access ".toList ++ enclosed path ++ ": ".toList ++ faultText fault)
      status := 2
  let titled := 1 < operands.length || g.has 'R'
  let blocks ← (arranged g folders).mapM fun e => listed g 1000 titled e.name e.place
  let first := if files.isEmpty then [] else [shownLines g (arranged g files)]
  out (Text.join ['\n'] (first ++ blocks.flatten))
  pure status

end Stencil.Shell.Utility
