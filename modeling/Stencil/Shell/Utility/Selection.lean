import Stencil.Shell.Arithmetic
import Stencil.Shell.Pattern
import Stencil.Shell.Utility.Lines

/-! Programs that pick, sort or change lines and characters. -/
namespace Stencil.Shell.Utility

open Running

/-! ### cut -/

/-- Positions from one to another, or to the end. -/
abbrev Range := Nat × Option Nat

/-- The ranges that a list writes, or what is wrong with it. -/
def rangesOf (fields : Bool) (t : Text) : Except Text (List Range) :=
  let numbered := if fields then "fields are numbered from 1" else
    "byte/character positions are numbered from 1"
  let kind := if fields then "field value" else "byte/character position"
  let number (t : Text) : Except Text Nat :=
    if t.isEmpty || !t.all Char.isDigit then
      .error (("invalid " ++ kind ++ " ").toList ++ enclosed t)
    else
      let n := ((String.ofList t).toNat?).getD 0
      if n = 0 then .error numbered.toList else .ok n
  let range (part : Text) : Except Text Range :=
    match Text.cutAt? '-' part with
    | none => (number part).map fun n => (n, some n)
    | some ([], []) => .error "invalid range with no endpoint: -".toList
    | some (low, high) => do
      let a ← if low.isEmpty then pure 1 else number low
      let b ← if high.isEmpty then pure none else some <$> number high
      if b.any (· < a) then .error "invalid decreasing range".toList else pure (a, b)
  (Text.splitOn ',' (t.map fun c => if c = ' ' then ',' else c)).mapM range

def inRanges (rs : List Range) (i : Nat) : Bool :=
  rs.any fun (a, b) => a ≤ i && b.all (i ≤ ·)

def cut (args : List Text) : Running Nat := do
  let o : Options := ⟨"cut", "nszx", "bcfdo", [("bytes", 'b'), ("characters", 'c'), ("fields", 'f'),
    ("delimiter", 'd'), ("only-delimited", 's'), ("output-delimiter", 'o'), ("complement", 'x')], 1⟩
  let g ← o.read args
  let lists := g.options.filter fun (c, _) => c = 'b' || c = 'c' || c = 'f'
  match lists with
  | [] => o.misused "you must specify a list of bytes, characters, or fields".toList
  | _ :: _ :: _ => o.misused "only one list may be specified".toList
  | [(kind, list)] => do
    let delimiter := g.value? 'd'
    if delimiter.any fun d => 1 < d.length then
      o.misused "the delimiter must be a single character".toList
    if delimiter.isSome && kind ≠ 'f' then
      o.misused "an input delimiter may be specified only when operating on fields".toList
    let rs ← match rangesOf (kind = 'f') list with
      | .ok rs => pure rs
      | .error e => o.misused e
    let wanted (i : Nat) : Bool := inRanges rs (i + 1) ≠ g.has 'x'
    let d := (delimiter.getD ['\t']).headD '\x00'
    let glue := (g.value? 'o').getD (if kind = 'f' then [d] else [])
    let pick (l : Text) : Option Text :=
      if kind = 'f' then
        if !l.any (· = d) then (if g.has 's' then none else some l)
        else some (Text.join glue (((Text.splitOn d l).zipIdx.filter fun (_, i) =>
          wanted i).map Prod.fst))
      else some ((l.zipIdx.filter fun (_, i) => wanted i).map Prod.fst)
    forSources "cut" g.operands plainReason fun _ t => out (unlines ((linesOf t).filterMap pick))

/-! ### sort -/

/-- How lines are compared by a part of them. -/
structure Order where
  letters : Text
  fromField : Nat
  fromChar : Nat
  /-- The last field and its last character; zero stands for the whole field. -/
  to? : Option (Nat × Nat)

def isBlankChar (c : Char) : Bool := c = ' ' || c = '\t'

/-- What is left of a line after some fields. -/
def afterFields (separator : Option Char) : Nat → Text → Text
  | 0, l => l
  | n + 1, l =>
    match separator with
    | some c => afterFields separator n (l.dropWhile (· ≠ c)).tail
    | none => afterFields separator n ((l.dropWhile isBlankChar).dropWhile (!isBlankChar ·))

/-- The part of a line that an order looks at. -/
def Order.part (o : Order) (separator : Option Char) (l : Text) : Text :=
  let skips := o.letters.any (· = 'b')
  let start (field char : Nat) (skip : Bool) : Text :=
    let r := afterFields separator field l
    (if skip then r.dropWhile isBlankChar else r).drop char
  let front := start o.fromField o.fromChar skips
  match o.to? with
  | none => front
  | some (field, char) =>
    let back :=
      if char = 0 then
        match separator with
        | some c => (afterFields separator field l).dropWhile (· ≠ c)
        | none => ((afterFields separator field l).dropWhile isBlankChar).dropWhile (!isBlankChar ·)
      else start field char skips
    front.take (front.length - back.length)

/-- A number at the front of a text: its sign, and its digits before and after the point. -/
def leading (t : Text) : Bool × Nat × Text × Text :=
  let t := t.dropWhile isBlankChar
  let (negative, t) : Bool × Text := match t with
    | '-' :: r => (true, r)
    | r => (false, r)
  let whole := t.takeWhile Char.isDigit
  let (fraction, rest) : Text × Text := match t.drop whole.length with
    | '.' :: r => (r.takeWhile Char.isDigit, r.dropWhile Char.isDigit)
    | r => ([], r)
  (negative, (Number.digitsOf 10 whole).1, fraction, rest)

/-- Compares the digits after points. -/
def compareFractions : Text → Text → Ordering
  | [], [] => .eq
  | a :: s, [] => if a = '0' then compareFractions s [] else .gt
  | [], b :: t => if b = '0' then compareFractions [] t else .lt
  | a :: s, b :: t => if a = b then compareFractions s t else compare a.toNat b.toNat

/-- Compares the numbers at the front of texts; with units, first by these. -/
def compareNumbers (units : Bool) (a b : Text) : Ordering :=
  let (an, aw, af, ar) := leading a
  let (bn, bw, bf, br) := leading b
  let isZero (w : Nat) (f : Text) : Bool := w = 0 && f.all (· = '0')
  let unit (r : Text) : Nat := match r with
    | c :: _ => "KMGTPEZY".toList.idxOf c.toUpper % 8 + if "KMGTPEZY".toList.any (· = c.toUpper)
        then 1 else 0
    | [] => 0
  let size : Ordering :=
    (if units then compare (unit ar) (unit br) else .eq).then
      ((compare aw bw).then (compareFractions af bf))
  match isZero aw af, isZero bw bf with
  | true, true => .eq
  | true, false => if bn then .gt else .lt
  | false, true => if an then .lt else .gt
  | false, false =>
    match an, bn with
    | true, false => .lt
    | false, true => .gt
    | false, false => size
    | true, true => size.swap

def compareTexts : Text → Text → Ordering
  | [], [] => .eq
  | [], _ :: _ => .lt
  | _ :: _, [] => .gt
  | a :: s, b :: t => (compare a.toNat b.toNat).then (compareTexts s t)

/-- Compares texts in which runs of digits count as numbers, as many of them as are allowed. -/
def compareVersions : Nat → Text → Text → Ordering
  | 0, _, _ | _, [], [] => .eq
  | _, [], _ :: _ => .lt
  | _, _ :: _, [] => .gt
  | n + 1, a :: s, b :: t =>
    if a.isDigit && b.isDigit then
      let (x, xs) := Number.digitsOf 10 (a :: s)
      let (y, ys) := Number.digitsOf 10 (b :: t)
      (compare x y).then (compareVersions n ((a :: s).drop xs) ((b :: t).drop ys))
    else (compare a.toNat b.toNat).then (compareVersions n s t)

def months : List String :=
  ["JAN", "FEB", "MAR", "APR", "MAY", "JUN", "JUL", "AUG", "SEP", "OCT", "NOV", "DEC"]

def monthOf (t : Text) : Nat :=
  let name := ((t.dropWhile isBlankChar).take 3).map Char.toUpper
  match months.zipIdx.find? fun (m, _) => m.toList = name with
  | some (_, i) => i + 1
  | none => 0

/-- Compares texts as the letters of an order say. -/
def compareBy (letters : Text) (a b : Text) : Ordering :=
  let has (c : Char) : Bool := letters.any (· = c)
  let kept (t : Text) : Text :=
    let t := if has 'd' then t.filter fun c => c.isAlphanum || isBlankChar c else t
    let t := if has 'i' then t.filter fun c => ' ' ≤ c && c ≤ '~' else t
    if has 'f' then t.map Char.toUpper else t
  let r :=
    if has 'n' then compareNumbers false a b
    else if has 'h' then compareNumbers true a b
    else if has 'g' then compareNumbers false a b
    else if has 'M' then compare (monthOf a) (monthOf b)
    else if has 'V' then compareVersions (a.length + b.length) a b
    else compareTexts (kept a) (kept b)
  if has 'r' then r.swap else r

/-- The order that a key writes, where the letters of the whole hold if it has none. -/
def orderOf? (whole t : Text) : Option Order :=
  let place (t : Text) : Option (Nat × Nat × Text) :=
    let ds := t.takeWhile Char.isDigit
    if ds.isEmpty then none
    else
      let field := (Number.digitsOf 10 ds).1
      match t.drop ds.length with
      | '.' :: r =>
        let cs := r.takeWhile Char.isDigit
        some (field, (Number.digitsOf 10 cs).1, r.drop cs.length)
      | r => some (field, 0, r)
  match place t with
  | none => none
  | some (field, char, r) =>
    let letters := r.takeWhile (· ≠ ',')
    let make (letters : Text) (to? : Option (Nat × Nat)) : Order :=
      ⟨if letters.isEmpty then whole else letters, field - 1, char - 1, to?⟩
    match r.drop letters.length with
    | ',' :: r =>
      (place r).map fun (field, char, more) => make (letters ++ more) (some (field - 1, char))
    | _ => some (make letters none)

def sort (args : List Text) : Running Nat := do
  let o : Options := ⟨"sort", "bdfghiMnrVcCsuzm", "kto", [("reverse", 'r'), ("numeric-sort", 'n'),
    ("unique", 'u'), ("ignore-case", 'f'), ("key", 'k'), ("field-separator", 't'), ("output", 'o'),
    ("stable", 's'), ("check", 'c'), ("human-numeric-sort", 'h'), ("version-sort", 'V'),
    ("general-numeric-sort", 'g'), ("month-sort", 'M'), ("ignore-leading-blanks", 'b'),
    ("dictionary-order", 'd'), ("merge", 'm')], 2⟩
  let g ← o.read args
  let whole := (g.options.map Prod.fst).filter fun c => "bdfghiMnrV".toList.any (· = c)
  let separator := (g.value? 't').bind fun t => if t = "\\0".toList then some '\x00' else t.head?
  let keys := g.values 'k'
  let order (k : Text) : Running Order :=
    match orderOf? whole k with
    | some o => pure o
    | none => refuse "sort" 2 ("invalid number at field start: invalid count at start of ".toList ++
        enclosed k)
  let orders ← if keys.isEmpty then pure [⟨whole, 0, 0, none⟩] else keys.mapM order
  let byKeys (a b : Text) : Ordering :=
    orders.foldl (fun r o => r.then
      (compareBy o.letters (o.part separator a) (o.part separator b))) .eq
  let last (a b : Text) : Ordering :=
    if g.has 's' || g.has 'u' then .eq
    else if whole.any (· = 'r') then (compareTexts a b).swap else compareTexts a b
  let whole (a b : Text) : Ordering := (byKeys a b).then (last a b)
  let mut ls := []
  for path in if g.operands.isEmpty then [['-']] else g.operands do
    match ← source path with
    | .ok t => ls := ls ++ linesOf t
    | .error fault =>
      let verb := if fault = .folder then "read failed: " else "cannot read: "
      refuse "sort" 2 (verb.toList ++ plainReason path fault)
  if g.has 'c' || g.has 'C' then
    let bad := (ls.zip ls.tail).zipIdx.find? fun ((a, b), _) =>
      match whole a b with
      | .gt => true
      | .eq => g.has 'u'
      | .lt => false
    match bad with
    | some ((_, b), i) => do
      if g.has 'c' then
        complainAs "sort" (g.operands.headD ['-'] ++ ':' :: digits (i + 2) ++
          ": disorder: ".toList ++ b)
      pure 1
    | none => pure 0
  else
    let arranged := ls.mergeSort fun a b => whole a b ≠ .gt
    let kept := if g.has 'u' then
        arranged.foldr (fun l acc =>
          match acc with
          | m :: rest => if byKeys l m = .eq then l :: rest else l :: acc
          | [] => [l]) []
      else arranged
    match g.value? 'o' with
    | none => out (unlines kept)
    | some path =>
      if let some fault ← save .overwrite path (unlines kept) then
        refuse "sort" 2 ("open failed: ".toList ++ plainReason path fault)
    pure 0

/-! ### uniq -/

/-- Runs of lines that are the same by what is compared: the lines of each. -/
def runsOf (key : Text → Text) : List Text → List (List Text)
  | [] => []
  | l :: ls =>
    match runsOf key ls with
    | (m :: run) :: runs =>
      if key l = key m then (l :: m :: run) :: runs else [l] :: (m :: run) :: runs
    | runs => [l] :: runs

def uniq (args : List Text) : Running Nat := do
  let o : Options := ⟨"uniq", "cdDiu", "fsw", [("count", 'c'), ("repeated", 'd'), ("unique", 'u'),
    ("ignore-case", 'i'), ("skip-fields", 'f'), ("skip-chars", 's'), ("check-chars", 'w'),
    ("all-repeated", 'D')], 1⟩
  let g ← o.read args
  let natural (c : Char) : Nat := ((g.value? c).bind amount?).getD 0
  let key (l : Text) : Text :=
    let l := (afterFields none (natural 'f') l).drop (natural 's')
    let l := if (g.value? 'w').isSome then l.take (natural 'w') else l
    if g.has 'i' then l.map Char.toLower else l
  let shows (run : List Text) : List Text :=
    let many := 1 < run.length
    if g.has 'D' then (if many then run else [])
    else if g.has 'd' && !many || g.has 'u' && many then []
    else if g.has 'c' then
      [padded 7 (digits run.length) ++ ' ' :: run.headD []]
    else run.take 1
  let write (path? : Option Text) (t : Text) : Running Nat := do
    match path? with
    | none => do
      out t
      pure 0
    | some path => do
      if let some fault ← save .overwrite path t then
        refuse "uniq" 1 (plainReason path fault)
      pure 0
  match ← source (g.operands.headD ['-']) with
  | .ok t => write g.operands[1]? (unlines ((runsOf key (linesOf t)).flatMap shows))
  | .error fault => refuse "uniq" 1 (plainReason (g.operands.headD []) fault)

/-! ### tr -/

/-- A part of a set of characters: characters, or one that is repeated, as often as fills up where
no number is given. -/
inductive SetPart where
  | chars (cs : Text)
  | repeated (c : Char) (times : Option Nat)

/-- The character at the front of a set, which a backslash may write. -/
def setChar : Text → Option (Char × Text)
  | [] => none
  | '\\' :: r =>
    let ds := (r.take 3).takeWhile fun c => '0' ≤ c && c ≤ '7'
    if !ds.isEmpty then some (Char.ofNat ((Number.digitsOf 8 ds).1 % 256), r.drop ds.length)
    else match r with
      | [] => some ('\\', [])
      | 'n' :: r => some ('\n', r)
      | 't' :: r => some ('\t', r)
      | 'r' :: r => some ('\x0d', r)
      | 'a' :: r => some ('\x07', r)
      | 'b' :: r => some ('\x08', r)
      | 'f' :: r => some ('\x0c', r)
      | 'v' :: r => some ('\x0b', r)
      | c :: r => some (c, r)
  | c :: r => some (c, r)

def bytesAll : Text := (List.range 256).map Char.ofNat

/-- The parts of a set, as many as are allowed, or what is wrong with it. -/
def setParts : Nat → Text → Except Text (List SetPart)
  | 0, _ | _, [] => .ok []
  | n + 1, t => do
    let named : Option (Text × Text) := match t with
      | '[' :: ':' :: r =>
        let name := r.takeWhile Char.isAlpha
        match r.drop name.length with
        | ':' :: ']' :: rest =>
          (Pattern.classRanges.find? fun (k, _) => k.toList = name).map fun (_, ranges) =>
            (bytesAll.filter fun c => ranges.any fun (a, b) => a ≤ c && c ≤ b, rest)
        | _ => none
      | '[' :: '=' :: c :: '=' :: ']' :: rest => some ([c], rest)
      | _ => none
    match named with
    | some (cs, rest) => do
      let more ← setParts n rest
      pure (.chars cs :: more)
    | none =>
      let repetition : Option (Char × Option Nat × Text) := match t with
        | '[' :: r =>
          match setChar r with
          | some (c, '*' :: r) =>
            let ds := r.takeWhile Char.isDigit
            match r.drop ds.length with
            | ']' :: rest =>
              let times := (Number.digitsOf (if ds.head? = some '0' then 8 else 10) ds).1
              some (c, if times = 0 then none else some times, rest)
            | _ => none
          | _ => none
        | _ => none
      match repetition with
      | some (c, times, rest) => do
        let more ← setParts n rest
        pure (.repeated c times :: more)
      | none =>
        match setChar t with
        | none => pure []
        | some (a, '-' :: r) =>
          match setChar r with
          | some (b, rest) =>
            if b < a then
              .error ("range-endpoints of '".toList ++ a :: '-' :: b ::
                "' are in reverse collating sequence order".toList)
            else do
              let more ← setParts n rest
              let cs := (List.range (b.toNat - a.toNat + 1)).map fun i => Char.ofNat (a.toNat + i)
              pure (.chars cs :: more)
          | none => pure [.chars [a, '-']]
        | some (a, rest) => do
          let more ← setParts n rest
          pure (.chars [a] :: more)

/-- The characters of a set, which is to be as long as is said. -/
def setChars (parts : List SetPart) (length : Nat) : Text :=
  let fixed := (parts.map fun
    | .chars cs => cs.length
    | .repeated _ times => times.getD 0).foldl (· + ·) 0
  parts.flatMap fun
    | .chars cs => cs
    | .repeated c times => List.replicate (times.getD (length - fixed)) c

/-- A text in which what repeats in a set stands once. -/
def squeeze (p : Char → Bool) : Text → Text
  | [] => []
  | [c] => [c]
  | a :: b :: r => if a = b && p a then squeeze p (b :: r) else a :: squeeze p (b :: r)

def tr (args : List Text) : Running Nat := do
  let o : Options := ⟨"tr", "cCdst", "", [("complement", 'c'), ("delete", 'd'),
    ("squeeze-repeats", 's'), ("truncate-set1", 't')], 1⟩
  let leading := args.takeWhile fun a => 1 < a.length && a.head? = some '-' && a ≠ ['-', '-']
  let rest := args.drop leading.length
  let g ← o.read leading
  let operands := if rest.head? = some ['-', '-'] then rest.tail else rest
  let complemented := g.has 'c' || g.has 'C'
  let deletes := g.has 'd'
  let squeezes := g.has 's'
  let parse (t : Text) : Running (List SetPart) :=
    match setParts t.length t with
    | .ok ps => pure ps
    | .error e => refuse "tr" 1 e
  let first (ps : List SetPart) : Text :=
    let cs := setChars ps 0
    if complemented then bytesAll.filter fun c => !cs.any (· = c) else cs
  match operands with
  | [] => o.misused "missing operand".toList
  | [a] =>
    if deletes && squeezes then
      o.misused ("missing operand after ".toList ++ enclosed a ++
        "\nTwo strings must be given when both deleting and squeezing repeats.".toList)
    else if !deletes && !squeezes then
      o.misused ("missing operand after ".toList ++ enclosed a ++
        "\nTwo strings must be given when translating.".toList)
    else do
      let cs := first (← parse a)
      let inside (c : Char) : Bool := cs.any (· = c)
      let t ← input
      out (if deletes then t.filter (!inside ·) else squeeze inside t)
      pure 0
  | [a, b] =>
    if deletes && !squeezes then
      o.misused ("extra operand ".toList ++ enclosed b ++
        "\nOnly one string may be given when deleting without squeezing repeats.".toList)
    else do
      let cs := first (← parse a)
      let ds := setChars (← parse b) cs.length
      let t ← input
      let inSecond (c : Char) : Bool := ds.any (· = c)
      if deletes then
        out (squeeze inSecond (t.filter fun c => !cs.any (· = c)))
        pure 0
      else
        if ds.isEmpty && !g.has 't' then
          refuse "tr" 1 "when not truncating set1, string2 must be non-empty".toList
        let ds := if g.has 't' then ds
          else ds ++ List.replicate (cs.length - ds.length) ((ds.getLast?).getD ' ')
        let table := (cs.zip ds).reverse
        let changed (c : Char) : Char := ((table.find? fun (k, _) => k = c).map Prod.snd).getD c
        let t := t.map changed
        out (if squeezes then squeeze inSecond t else t)
        pure 0
  | _ :: _ :: c :: _ => o.misused ("extra operand ".toList ++ enclosed c)

end Stencil.Shell.Utility
