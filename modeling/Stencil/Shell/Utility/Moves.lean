import Stencil.Shell.Utility.Listing

/-! Programs that make, take away, copy and move files and directories. -/
namespace Stencil.Shell.Utility

open Running

/-- Changes the directory. -/
def editing (f : Directory → Directory) : Running Unit :=
  modify fun s => { s with directory := f s.directory }

/-- What stands under names, and all that is inside, by the names of the way from there. -/
def branchAt (d : Directory) (names : List Text) : Entries (List Text) Item :=
  d.items.filterMap fun (key, i) =>
    if names.isPrefixOf key then some (key.drop names.length, i) else none

/-- Puts a branch under names. -/
def graft (d : Directory) (names : List Text) (branch : Entries (List Text) Item) : Directory :=
  ⟨branch.foldl (fun items (key, i) => items.insert (names ++ key) i) d.items⟩

/-- Puts what stands under names under others. -/
def relocate (d : Directory) (source target : List Text) : Directory :=
  graft ((d.remove target).remove source) target (branchAt d source)

/-! ### Making and taking away -/

/-- Makes a directory, and those on the way to it if it is to; says why it cannot. -/
def makeFolders (program : String) (spoken : Bool) (path : Text) : Running Bool := do
  let parts := Text.splitOn '/' path
  let fronts := (List.range parts.length).map fun i => Text.join ['/'] (parts.take (i + 1))
  let mut fine := true
  for front in fronts do
    if fine && !front.isEmpty then
      match ← locate front with
      | .vacant names => do
        editing fun d => ⟨d.items.insert names .folder⟩
        if spoken then
          out (program.toList ++ ": created directory ".toList ++ enclosed front ++ ['\n'])
      | .folder _ => pure ()
      | _ => do
        let reason := if withoutSlashes front = withoutSlashes path then "File exists"
          else "Not a directory"
        complainAs program ("cannot create directory ".toList ++ enclosed front ++
          s!": {reason}".toList)
        fine := false
  pure fine

def mkdir (args : List Text) : Running Nat := do
  let o : Options := ⟨"mkdir", "pv", "m", [("parents", 'p'), ("verbose", 'v'), ("mode", 'm')], 1⟩
  let g ← o.read args
  if g.operands.isEmpty then o.misused "missing operand".toList
  let mut status := 0
  for path in g.operands do
    if g.has 'p' && !path.isEmpty then
      if !(← makeFolders "mkdir" (g.has 'v') path) then status := 1
    else
      let fault : Option PathFault ← match ← locate path with
        | .vacant names => do
          editing fun d => ⟨d.items.insert names .folder⟩
          if g.has 'v' then
            out ("mkdir: created directory ".toList ++ enclosed path ++ ['\n'])
          pure none
        | .lost f => pure (some f)
        | _ => pure (some .exists)
      if let some fault := fault then
        complainAs "mkdir" ("cannot create directory ".toList ++ enclosed path ++
          ": ".toList ++ faultText fault)
        status := 1
  pure status

/-- Why a directory cannot be taken away, if it cannot. -/
def emptyFault (path : Text) : Running (Option PathFault) := do
  match ← standing path with
  | .error f => pure (some f)
  | .ok (.folder names) => do
    if (Path.components path).getLast? = some .current then pure (some .invalid)
    else if !((← get).directory.children names).isEmpty || names.isEmpty then
      pure (some .notEmpty)
    else pure none
  | .ok _ => pure (some .blocked)

def rmdir (args : List Text) : Running Nat := do
  let o : Options := ⟨"rmdir", "pvi", "", [("parents", 'p'), ("verbose", 'v'),
    ("ignore-fail-on-non-empty", 'i')], 1⟩
  let g ← o.read args
  if g.operands.isEmpty then o.misused "missing operand".toList
  let mut status := 0
  for path in g.operands do
    let parts := Text.splitOn '/' (withoutSlashes path)
    let outer := (List.range (parts.length - 1)).reverse.map fun i =>
      Text.join ['/'] (parts.take (i + 1))
    let mut fine := true
    for front in path :: if g.has 'p' then outer.filter (!List.isEmpty ·) else [] do
      if fine then
        if g.has 'v' then
          out ("rmdir: removing directory, ".toList ++ enclosed front ++ ['\n'])
        match ← emptyFault front, ← locate front with
        | none, .folder names => editing (·.remove names)
        | fault, _ => do
          fine := false
          if !(g.has 'i' && fault = some .notEmpty) then
            let verb := if front = path then "failed to remove " else "failed to remove directory "
            complainAs "rmdir" (verb.toList ++ enclosed front ++ ": ".toList ++
              faultText (fault.getD .missing))
            status := 1
  pure status

/-- Takes away what stands at a path and all that is inside, from within, and says so. -/
def removeAll (spoken : Bool) : Nat → Text → Directory.Place → Running Unit
  | 0, _, _ => pure ()
  | n + 1, path, place => do
    match place with
    | .folder names => do
      let d := (← get).directory
      for name in Expansion.namesAt d place do
        removeAll spoken n (Path.join path name) (d.locate place (ofUtf8 name))
      editing (·.remove names)
      if spoken then out ("removed directory ".toList ++ enclosed path ++ ['\n'])
    | .file names _ _ => do
      editing (·.remove names)
      if spoken then out ("removed ".toList ++ enclosed path ++ ['\n'])
    | _ => pure ()

/-- Whether an answer to a question says yes. -/
def agreed (question : Text) : Running Bool := do
  err question
  let answer := ((← pending 0).getD []).takeWhile (· ≠ '\n')
  consume 0 (answer.length + 1)
  pure (answer.head? = some 'y' || answer.head? = some 'Y')

def rm (args : List Text) : Running Nat := do
  let o : Options := ⟨"rm", "rRfivdI", "", [("recursive", 'r'), ("force", 'f'), ("verbose", 'v'),
    ("dir", 'd'), ("one-file-system", 'x'), ("preserve-root", 'x'), ("no-preserve-root", 'x')], 1⟩
  let g ← o.read args
  let recursive := g.has 'r' || g.has 'R'
  if g.operands.isEmpty && !g.has 'f' then o.misused "missing operand".toList
  let mut status := 0
  for path in g.operands do
    let refused (reason : Text) : Running Unit :=
      complainAs "rm" ("cannot remove ".toList ++ enclosed path ++ ": ".toList ++ reason)
    match ← standing path with
    | .error fault =>
      if !(g.has 'f' && (fault = .missing || fault = .blocked)) then
        refused (faultText fault)
        status := 1
    | .ok (.folder names) =>
      let last := lastName path
      if recursive && (last = ['.'] || last = ['.', '.']) then
        complainAs "rm" ("refusing to remove '.' or '..' directory: skipping ".toList ++
          enclosed path)
        status := 1
      else if recursive then removeAll (g.has 'v') 1000 (withoutSlashes path) (.folder names)
      else if g.has 'd' && ((← get).directory.children names).isEmpty then
        removeAll (g.has 'v') 1 path (.folder names)
      else
        refused (if g.has 'd' then "Directory not empty".toList else "Is a directory".toList)
        status := 1
    | .ok place => do
      let goes ← if g.has 'i' && !g.has 'f' then
          agreed ("rm: remove ".toList ++ kindText place ++ ' ' :: enclosed path ++ "? ".toList)
        else pure true
      if goes then removeAll (g.has 'v') 1 path place
  pure status

def touch (args : List Text) : Running Nat := do
  let o : Options := ⟨"touch", "acmhf", "drt", [("no-create", 'c'), ("date", 'd'),
    ("reference", 'r')], 1⟩
  let g ← o.read args
  if g.operands.isEmpty then o.misused "missing file operand".toList
  let mut status := 0
  for path in g.operands do
    let refused (verb : String) (fault : PathFault) : Running Unit :=
      complainAs "touch" (verb.toList ++ enclosed path ++ ": ".toList ++ faultText fault)
    match ← locate path with
    | .vacant names =>
      if !g.has 'c' then
        if Directory.wantsDirectory (ofUtf8 path) then
          refused "setting times of " .missing
          status := 1
        else editing fun d => ⟨d.items.insert names (.file [] false)⟩
    | .lost fault =>
      if !(g.has 'c' && fault = .missing) then
        refused "cannot touch " fault
        status := 1
    | _ => pure ()
  pure status

/-! ### Copying and moving -/

/-- Copies what stands somewhere to a path, and says so. Gives whether all could be copied. -/
def copyTo (spoken recursive : Bool) : Nat → Text → Directory.Place → Text → Running Bool
  | 0, _, _, _ => pure false
  | n + 1, path, place, target => do
    let refused (t : Text) : Running Bool := do
      complainAs "cp" t
      pure false
    let say : Running Unit := do
      if spoken then out (enclosed path ++ " -> ".toList ++ enclosed target ++ ['\n'])
    match place, ← locate target with
    | .folder names, there =>
      if !recursive then
        refused ("-r not specified; omitting directory ".toList ++ enclosed path)
      else
        let made : Option (List Text) := match there with
          | .vacant inner => some inner
          | .folder inner => some inner
          | _ => none
        match made, there with
        | none, .lost fault =>
          refused ("cannot create directory ".toList ++ enclosed target ++ ": ".toList ++
            faultText fault)
        | none, _ =>
          refused ("cannot overwrite non-directory ".toList ++ enclosed target ++
            " with directory ".toList ++ enclosed path)
        | some inner, _ =>
          if names.isPrefixOf inner && (names ≠ [] || inner.head? ≠ some ['/']) then
            refused ("cannot copy a directory, ".toList ++ enclosed path ++
              ", into itself, ".toList ++ enclosed target)
          else do
            let d := (← get).directory
            if !d.isFolder inner then
              editing fun d => ⟨d.items.insert inner .folder⟩
              say
            let mut fine := true
            for name in Expansion.namesAt d place do
              let copied ← copyTo spoken recursive n (Path.join path name)
                (d.locate place (ofUtf8 name)) (Path.join target name)
              fine := fine && copied
            pure fine
    | .file names content runs, there =>
      match there with
      | .file own _ ownRuns =>
        if own = names then
          refused (enclosed path ++ " and ".toList ++ enclosed target ++
            " are the same file".toList)
        else do
          editing fun d => ⟨d.items.insert own (.file content ownRuns)⟩
          say
          pure true
      | .vacant own =>
        if Directory.wantsDirectory (ofUtf8 target) then
          refused ("cannot create regular file ".toList ++ enclosed target ++
            ": Not a directory".toList)
        else do
          editing fun d => ⟨d.items.insert own (.file content runs)⟩
          say
          pure true
      | .null => pure true
      | .folder _ =>
        refused ("cannot overwrite directory ".toList ++ enclosed target ++
          " with non-directory".toList)
      | .lost .blocked =>
        refused ("cannot stat ".toList ++ enclosed target ++ ": Not a directory".toList)
      | .lost fault =>
        refused ("cannot create regular file ".toList ++ enclosed target ++ ": ".toList ++
          faultText fault)
    | _, _ => do
      match ← save .write target [] with
      | none => pure true
      | some fault =>
        refused ("cannot create regular file ".toList ++ enclosed target ++ ": ".toList ++
          faultText fault)

/-- The pairs of a source and its target that operands name. -/
def transfers (o : Options) (g : Given) : Running (List (Text × Text)) := do
  let into (folder : Text) (sources : List Text) : Running (List (Text × Text)) := do
    match ← standing folder with
    | .ok (.folder _) =>
      pure (sources.map fun path => (path, Path.join folder (lastName path)))
    | .ok _ =>
      refuse o.program 1 ("target ".toList ++ enclosed folder ++ ": Not a directory".toList)
    | .error fault =>
      refuse o.program 1 ("target ".toList ++ enclosed folder ++ ": ".toList ++ faultText fault)
  match g.value? 't', g.operands with
  | _, [] => o.misused "missing file operand".toList
  | some folder, sources => into folder sources
  | none, [path] => o.misused ("missing destination file operand after ".toList ++ enclosed path)
  | none, [path, target] => do
    if !g.has 'T' && (← isFolderAt target) then into target [path] else pure [(path, target)]
  | none, operands => into (operands.getLastD []) operands.dropLast

def cp (args : List Text) : Running Nat := do
  let o : Options := ⟨"cp", "rRafpvniTuxdHLPl", "tS", [("recursive", 'r'), ("archive", 'a'),
    ("force", 'f'), ("verbose", 'v'), ("no-clobber", 'n'), ("target-directory", 't'),
    ("no-target-directory", 'T'), ("preserve", 'p'), ("update", 'u')], 1⟩
  let g ← o.read args
  let recursive := g.has 'r' || g.has 'R' || g.has 'a'
  let mut status := 0
  if g.has 'n' then
    complainAs "cp" ("warning: behavior of -n is non-portable and may change in future; " ++
      "use --update=none instead").toList
  for (path, target) in ← transfers o g do
    match ← standing path with
    | .error fault => do
      complainAs "cp" ("cannot stat ".toList ++ enclosed path ++ ": ".toList ++ faultText fault)
      status := 1
    | .ok place => do
      let there : Bool := match ← locate target with
        | .file _ _ _ => true
        | _ => false
      let goes ← if there && g.has 'n' then pure false
        else if there && g.has 'i' then
          agreed ("cp: overwrite ".toList ++ enclosed target ++ "? ".toList)
        else pure true
      if goes then
        if !(← copyTo (g.has 'v') recursive 1000 path place target) then status := 1
  pure status

/-- Moves what stands at a path, or says why it cannot. -/
def moveTo (path : Text) (place : Directory.Place) (target : Text) : Running (Option Text) := do
  let cannot (reason : Text) : Option Text :=
    some ("cannot move ".toList ++ enclosed path ++ " to ".toList ++ enclosed target ++
      ": ".toList ++ reason)
  let d := (← get).directory
  let go (source goal : List Text) : Running (Option Text) := do
    editing (relocate · source goal)
    pure none
  match place, ← locate target with
  | .file names _ _, .file own _ _ =>
    if names = own then
      pure (some
        (enclosed path ++ " and ".toList ++ enclosed target ++ " are the same file".toList))
    else go names own
  | .file names _ _, .vacant own =>
    if Directory.wantsDirectory (ofUtf8 target) then pure (cannot "Not a directory".toList)
    else go names own
  | .file _ _ _, .folder _ =>
    pure (some ("cannot overwrite directory ".toList ++ enclosed target ++
      " with non-directory".toList))
  | .folder names, there => do
    if names.isEmpty || (Path.parts path).2.getLast? = some ['.'] then
      pure (cannot "Device or resource busy".toList)
    else match there with
      | .folder own =>
        if names = own then
          pure (some (enclosed path ++ " and ".toList ++ enclosed target ++
            " are the same file".toList))
        else if names.isPrefixOf own then
          pure (some ("cannot move ".toList ++ enclosed path ++
            " to a subdirectory of itself, ".toList ++ enclosed target))
        else if !(d.children own).isEmpty then pure (cannot "Directory not empty".toList)
        else go names own
      | .vacant own =>
        if names.isPrefixOf own then
          pure (some ("cannot move ".toList ++ enclosed path ++
            " to a subdirectory of itself, ".toList ++ enclosed target))
        else go names own
      | .lost fault => pure (cannot (faultText fault))
      | _ =>
        pure (some ("cannot overwrite non-directory ".toList ++ enclosed target ++
          " with directory ".toList ++ enclosed path))
  | _, .lost fault => pure (cannot (faultText fault))
  | _, _ => pure (cannot "Operation not permitted".toList)

def mv (args : List Text) : Running Nat := do
  let o : Options := ⟨"mv", "fnivTu", "tS", [("force", 'f'), ("verbose", 'v'), ("no-clobber", 'n'),
    ("target-directory", 't'), ("no-target-directory", 'T'), ("update", 'u')], 1⟩
  let g ← o.read args
  let mut status := 0
  for (path, target) in ← transfers o g do
    match ← standing path with
    | .error fault => do
      complainAs "mv" ("cannot stat ".toList ++ enclosed path ++ ": ".toList ++ faultText fault)
      status := 1
    | .ok place => do
      let there : Bool := match ← locate target with
        | .file _ _ _ => true
        | _ => false
      if there && g.has 'n' then
        complainAs "mv" ("not replacing ".toList ++ enclosed target)
        status := 1
      else
        match ← moveTo path place target with
        | none =>
          if g.has 'v' then
            out ("renamed ".toList ++ enclosed path ++ " -> ".toList ++ enclosed target ++ ['\n'])
        | some reason => do
          complainAs "mv" reason
          status := 1
  pure status

def ln (args : List Text) : Running Nat := do
  let o : Options := ⟨"ln", "fsvTnir", "tS", [("force", 'f'), ("symbolic", 's'),
    ("verbose", 'v')], 1⟩
  let g ← o.read args
  let pairs ← match g.operands with
    | [path] => pure [(path, Path.join ['.'] (lastName path))]
    | _ => transfers o g
  let mut status := 0
  for (path, target) in pairs do
    let refused (t : Text) : Running Nat := do
      complainAs "ln" t
      pure 1
    status ← match ← standing path, ← locate target with
      | .error fault, _ =>
        refused ("failed to access ".toList ++ enclosed path ++ ": ".toList ++ faultText fault)
      | .ok (.folder _), _ => refused (path ++ ": hard link not allowed for directory".toList)
      | .ok (.file _ content runs), .vacant names => do
        editing fun d => ⟨d.items.insert names (.file content runs)⟩
        pure status
      | .ok (.file _ content runs), .file names _ _ =>
        if g.has 'f' then do
          editing fun d => ⟨d.items.insert names (.file content runs)⟩
          pure status
        else
          refused ("failed to create hard link ".toList ++ enclosed target ++
            ": File exists".toList)
      | .ok _, .lost fault =>
        refused ("failed to create hard link ".toList ++ enclosed target ++ " => ".toList ++
          enclosed path ++ ": ".toList ++ faultText fault)
      | .ok _, _ => refused ("failed to create hard link ".toList ++ enclosed target)
  pure status

/-! ### Permissions and names -/

/-- What a mode makes of whether a file can be run, if it is well formed. -/
def runsBy (mode : Text) (runs : Bool) : Option Bool :=
  if !mode.isEmpty && mode.length ≤ 4 && mode.all fun c => '0' ≤ c && c ≤ '7' then
    let n := (Number.digitsOf 8 mode).1
    some (n % 2 = 1 || n / 8 % 2 = 1 || n / 64 % 2 = 1)
  else
    let clause (runs : Bool) (t : Text) : Option Bool :=
      let who := t.takeWhile fun c => "ugoa".toList.any (· = c)
      let concerns := who.isEmpty || who.any fun c => c = 'u' || c = 'a'
      match t.drop who.length with
      | sign :: letters =>
        let names := letters.any fun c => c = 'x' || c = 'X' && runs
        if !letters.all fun c => "rwxXstugo".toList.any (· = c) then none
        else match sign with
          | '+' => some (runs || names)
          | '-' => some (runs && !(names && concerns))
          | '=' => some (if concerns then names else runs || names)
          | _ => none
      | [] => none
    (Text.splitOn ',' mode).foldlM clause runs

/-- Changes whether what stands under names can be run. -/
def setRuns (mode : Text) (within : Bool) (names : List Text) : Running Unit :=
  editing fun d => ⟨d.items.map fun (key, i) =>
    match i with
    | .file content runs =>
      if key = names || within && names.isPrefixOf key then
        (key, .file content ((runsBy mode runs).getD runs))
      else (key, i)
    | .folder => (key, i)⟩

def chmod (args : List Text) : Running Nat := do
  let isMode (a : Text) : Bool := match a with
    | '-' :: c :: _ => "rwxXst".toList.any (· = c)
    | _ => false
  let o : Options := ⟨"chmod", "Rvcf", "r", [("recursive", 'R'), ("verbose", 'v'),
    ("reference", 'r')], 1⟩
  let modes := args.filter isMode
  let g ← o.read (args.filter (!isMode ·))
  let operands := modes ++ g.operands
  match operands with
  | [] => o.misused "missing operand".toList
  | [mode] => o.misused ("missing operand after ".toList ++ enclosed mode)
  | mode :: paths => do
    if (runsBy mode false).isNone then o.misused ("invalid mode: ".toList ++ enclosed mode)
    let mut status := 0
    for path in paths do
      match ← standing path with
      | .ok (.file names _ _) => setRuns mode false names
      | .ok (.folder names) => setRuns mode (g.has 'R') names
      | .ok _ => pure ()
      | .error fault => do
        complainAs "chmod"
          ("cannot access ".toList ++ enclosed path ++ ": ".toList ++ faultText fault)
        status := 1
    pure status

/-- A template with its last run of `X` replaced by digits. -/
def fromTemplate (t : Text) (n : Nat) : Text :=
  let after := (t.reverse.takeWhile (· ≠ 'X')).reverse
  let body := t.take (t.length - after.length)
  let size := (body.reverse.takeWhile (· = 'X')).length
  let ds := digits n
  body.take (body.length - size) ++ List.replicate (size - ds.length) 'a' ++ ds ++ after

/-- The first path of a template that is free, of as many as are allowed. -/
def freePath (t : Text) : Nat → Nat → Running Text
  | 0, n => pure (fromTemplate t n)
  | k + 1, n => do
    match ← locate (fromTemplate t n) with
    | .vacant _ | .lost _ => pure (fromTemplate t n)
    | _ => freePath t k (n + 1)

def mktemp (args : List Text) : Running Nat := do
  let o : Options := ⟨"mktemp", "dqtu", "pS", [("directory", 'd'), ("dry-run", 'u'),
    ("quiet", 'q'), ("tmpdir", 'p'), ("suffix", 'S')], 1⟩
  let g ← o.read args
  let template := match g.value? 'p', g.operands with
    | none, [] => "/tmp/tmp.XXXXXXXXXX".toList
    | none, t :: _ => if g.has 't' then Path.join "/tmp".toList t else t
    | some d, ts => Path.join d (ts.headD "tmp.XXXXXXXXXX".toList)
  let template := template ++ (g.value? 'S').getD []
  let kind := if g.has 'd' then "directory" else "file"
  if !Text.contains "XXX".toList template then
    refuse "mktemp" 1 ("too few X's in template ".toList ++ enclosed (g.operands.headD []))
  let path ← freePath template 1000 4000
  match ← locate path with
  | .vacant names => do
    if !g.has 'u' then
      let item := if g.has 'd' then Item.folder else .file [] false
      editing fun d => ⟨d.items.insert names item⟩
    out (path ++ ['\n'])
    pure 0
  | _ =>
    refuse "mktemp" 1 (s!"failed to create {kind} via template ".toList ++ enclosed template ++
      ": No such file or directory".toList)

end Stencil.Shell.Utility
