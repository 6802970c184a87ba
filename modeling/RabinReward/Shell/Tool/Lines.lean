import RabinReward.Shell.Tool.Options

/-!
# Tools that work on lines

They count, sort, compare and cut the lines of their input.
-/

namespace RabinReward.Shell.Tool

/-! ## Counting -/

/-- What `wc` counts of a text. -/
structure Counts where
  lines : Nat
  words : Nat
  bytes : Nat
  width : Nat
  deriving Repr

namespace Counts

def add (a b : Counts) : Counts :=
  ⟨a.lines + b.lines, a.words + b.words, a.bytes + b.bytes, max a.width b.width⟩

/-- The column that a line reaches. -/
def lineWidth : Nat → Nat → List Char → Nat
  | best, at', [] => max best at'
  | best, at', c :: cs =>
    if c == '\n' || c == '\r' || c == '\x0c' then lineWidth (max best at') 0 cs
    else if c == '\t' then lineWidth best (at' + 8 - at' % 8) cs
    else lineWidth best (if isPrint c then at' + 1 else at') cs

/-- A word is a run of bytes other than blanks with one at least that can be printed. -/
def of (s : String) : Counts :=
  let cs := s.toList
  let words := (cs.splitBy fun a b => isSpace a == isSpace b).filter (·.any isGraph)
  ⟨cs.count '\n', words.length, cs.length, lineWidth 0 0 cs⟩

end Counts

/-- The size of an operand, if it is a file; a file that is missing has none. -/
def fileSize? (path : String) : Sh (Option Nat) := do
  let m ← get
  let node? : Option Nat :=
    if path = "-" then
      (m.process.descriptors.find? (·.1 == 0)).map fun (_, c) => (m.files.channel c).node
    else (m.files.locate m.process.directory path).toOption
  match node?.map m.files.node with
  | some n => return if n.kind == .regular then some n.content.length else none
  | none => return some 0

/-- `wc`: numbers of lines, words and bytes. -/
def wc : Tool := fun _ name args => do
  let table : OptionTable :=
    { short := "clLmw", first := false
      long := [("bytes", 'c', .nothing), ("chars", 'm', .nothing), ("lines", 'l', .nothing),
        ("words", 'w', .nothing), ("max-line-length", 'L', .nothing)] }
  withOptions name 1 table args fun os operands => do
    let os := if os.isEmpty then [('l', ""), ('w', ""), ('c', "")] else os
    let columns := "lwmcL".toList.filter (has os)
    let sizes ← (if operands.isEmpty then ["-"] else operands).mapM fileSize?
    let width :=
      if operands.length ≤ 1 && columns.length = 1 then 1
      else
        let digits := (toString ((sizes.map (·.getD 0)).foldl (· + ·) 0)).length
        if sizes.any (·.isNone) then max 7 digits else digits
    let shown (c : Counts) (path : String) : String :=
      let cells := columns.map fun k =>
        let n := match k with
          | 'l' => c.lines
          | 'w' => c.words
          | 'L' => c.width
          | _ => c.bytes
        let ds := toString n
        String.ofList (List.replicate (width - ds.length) ' ') ++ ds
      let tail := if path.isEmpty then "" else " " ++ shellQuoted path
      joinWith " " cells ++ tail ++ "\n"
    let mut total : Counts := ⟨0, 0, 0, 0⟩
    let mut status := 0
    for path in (if operands.isEmpty then [""] else operands) do
      match ← readOperand (if path.isEmpty && operands.isEmpty then "-" else path) with
      | .ok s =>
        let c := Counts.of s
        total := total.add c
        status := max status (← finish name (shown c path) 0)
      | .error e =>
        warn name (plainly path e)
        status := 1
        if e == .isDirectory then Sh.print 1 (shown ⟨0, 0, 0, 0⟩ path)
    if operands.length > 1 then Sh.print 1 (shown total "total")
    return status

/-! ## Cutting -/

/-- A range of positions from one on; without an end it goes on for ever. -/
structure Span where
  low : Nat
  high : Option Nat
  deriving DecidableEq, Repr

def Span.contains (s : Span) (n : Nat) : Bool := s.low ≤ n && s.high.all (n ≤ ·)

/-- What a list of ranges is about, for messages. -/
structure SpanWords where
  numbered : String
  range : String
  value : String

def spanWords (fields : Bool) : SpanWords :=
  if fields then ⟨"fields are numbered from 1", "invalid field range", "invalid field value"⟩
  else
    ⟨"byte/character positions are numbered from 1", "invalid byte or character range",
      "invalid byte/character position"⟩

/-- The range that has been read: the number in front of its dash, if there is one, and the number
behind that. -/
def SpanWords.span? (w : SpanWords) (low : Option (Option Nat)) (n : Option Nat) :
    Except String Span :=
  match low, n with
  | none, k => if k.getD 0 = 0 then .error w.numbered else .ok ⟨k.getD 0, k⟩
  | some none, none => .error "invalid range with no endpoint: -"
  | some l, none => .ok ⟨l.getD 1, none⟩
  | some l, some k =>
    if k < l.getD 1 then .error "invalid decreasing range" else .ok ⟨l.getD 1, some k⟩

/-- Reads a list of ranges, given what has been read of the current one. -/
def spans? (w : SpanWords) : Option (Option Nat) → Option Nat → List Char →
    Except String (List Span)
  | low, n, [] => (w.span? low n).map fun s => [s]
  | low, n, c :: cs =>
    if c == ',' || isBlankByte c then do
      let s ← w.span? low n
      return s :: (← spans? w none none cs)
    else if c == '-' then
      if low.isSome then .error w.range
      else if n == some 0 then .error w.numbered
      else spans? w (some n) none cs
    else
      match digitIn? 10 c with
      | some d => spans? w low (some (n.getD 0 * 10 + d)) cs
      | none => .error (w.value ++ " " ++ quoted (String.ofList (c :: cs)))

/-- The elements at the positions of some ranges, in groups of adjacent ones. -/
def select {α : Type} (isIn : Nat → Bool) (l : List α) : List (List α) :=
  let marked := l.zipIdx.map fun (a, i) => (a, isIn (i + 1))
  ((marked.splitBy fun a b => a.2 == b.2).filter fun g => g.any (·.2)).map fun g => g.map (·.1)

def cutOptions : OptionTable :=
  { short := "b:c:d:f:nsz", first := false
    long := [("bytes", 'b', .argument), ("characters", 'c', .argument),
      ("fields", 'f', .argument), ("delimiter", 'd', .argument),
      ("only-delimited", 's', .nothing), ("output-delimiter", 'o', .argument),
      ("complement", 'x', .nothing), ("zero-terminated", 'z', .nothing)] }

/-- `cut`: parts of each line. -/
def cut : Tool := fun _ name args => do
  withOptions name 1 cutOptions args fun os operands => do
    let lists := os.filter fun (c, _) => c == 'b' || c == 'c' || c == 'f'
    let delimiter := ((argument? os 'd').getD "\t").toList
    let bad (text : String) : Sh Nat := tryHelp name text 1
    match lists with
    | [] => bad "you must specify a list of bytes, characters, or fields"
    | _ :: _ :: _ => bad "only one list may be specified"
    | [(kind, list)] =>
      let fields := kind == 'f'
      if delimiter.length > 1 then bad "the delimiter must be a single character"
      else if !fields && has os 'd' then
        bad "an input delimiter may be specified only when operating on fields"
      else if !fields && has os 's' then
        bad "suppressing non-delimited lines makes sense\n\tonly when operating on fields"
      else
        match spans? (spanWords fields) none none list.toList with
        | .error e => bad e
        | .ok ss =>
          let isIn (n : Nat) : Bool := ss.any (·.contains n) != has os 'x'
          let d := delimiter.headD '\x00'
          let line (l : List Char) : Option (List Char) :=
            if fields then
              if !l.contains d then if has os 's' then none else some l
              else
                let gap := ((argument? os 'o').getD (String.singleton d)).toList
                some (gap.intercalate ((select isIn (l.splitOn d)).flatten))
            else
              let gap := ((argument? os 'o').getD "").toList
              some (gap.intercalate (select isIn l))
          filterEach name plainly operands fun s =>
            unlines ((lines s).1.filterMap fun l => (line l.toList).map String.ofList)

/-! ## Repeated lines -/

/-- The part of a line that `uniq` compares. -/
def compared (fields chars : Nat) (width : Option Nat) (fold : Bool) (l : String) : List Char :=
  let rec skip : Nat → List Char → List Char
    | 0, cs => cs
    | n + 1, cs => skip n ((cs.dropWhile isBlankByte).dropWhile (!isBlankByte ·))
  let cs := (skip fields l.toList).drop chars
  let cs := match width with
    | some w => cs.take w
    | none => cs
  if fold then cs.map toLower else cs

/-- `uniq`: one line of each run of equal ones. -/
def uniq : Tool := fun _ name args => do
  let table : OptionTable :=
    { short := "cdDf:is:uw:z", first := false
      long := [("count", 'c', .nothing), ("repeated", 'd', .nothing), ("unique", 'u', .nothing),
        ("ignore-case", 'i', .nothing), ("skip-fields", 'f', .argument),
        ("skip-chars", 's', .argument), ("check-chars", 'w', .argument)] }
  withOptions name 1 table args fun os operands => do
    let number (c : Char) (what : String) : Except String (Option Nat) :=
      match argument? os c with
      | none => .ok none
      | some s =>
        match decimal? s with
        | some n => .ok (some n)
        | none => .error s!"{s}: invalid number of {what}"
    let settings : Except String (Option Nat × Option Nat × Option Nat) := do
      let f ← number 'f' "fields to skip"
      let s ← number 's' "bytes to skip"
      let w ← number 'w' "bytes to compare"
      return (f, s, w)
    match settings, operands with
    | .error e, _ => failure name e 1
    | .ok _, _ :: _ :: extra :: _ => tryHelp name s!"extra operand {quoted extra}" 1
    | .ok (f, s, w), _ => do
      let key := compared (f.getD 0) (s.getD 0) w (has os 'i')
      let wording : Wording := fun path e =>
        if e == .isDirectory then s!"error reading {quoted path}: {e.text}" else plainly path e
      let (texts, status) ← readOperands name wording (operands.take 1)
      let ls := (lines (String.join (texts.map (·.2)))).1
      let groups := ls.splitBy fun a b => key a == key b
      let groups := groups.filter fun g =>
        !((has os 'd' || has os 'D') && g.length = 1) && !(has os 'u' && g.length > 1)
      let out := groups.map fun g =>
        if has os 'D' then unlines g
        else
          let ds := toString g.length
          let mark := if has os 'c' then
              String.ofList (List.replicate (7 - ds.length) ' ') ++ ds ++ " "
            else ""
          mark ++ g.headD "" ++ "\n"
      match operands[1]? with
      | none => finish name (String.join out) status
      | some path =>
        match ← Redirect.openFile .clobber false path with
        | .error e => failure name (plainly path e) 1
        | .ok c =>
          match (← Sh.files).write c (String.join out) with
          | .ok f =>
            Sh.setFiles f
            return status
          | .error e => failure name s!"write error: {e.text}" 1

/-! ## Sorting -/

/-- A place in a line: a field and a byte of it, both from one on. In an end, byte zero is the last
one of the field. -/
structure KeyPlace where
  field : Nat
  byte : Nat
  skipBlanks : Bool
  deriving Repr

structure SortKey where
  start : KeyPlace
  stop : Option KeyPlace
  /-- Letters that say how the key is compared. -/
  flags : List Char
  deriving Repr

namespace SortKey

/-- Skips a field: up to a separator, or blanks and what follows them. -/
def skipField (separator : Option Char) (cs : List Char) : List Char :=
  match separator with
  | some c => cs.dropWhile (· != c)
  | none => (cs.dropWhile isBlankByte).dropWhile (!isBlankByte ·)

/-- Skips fields with the separators behind them. -/
def skipFields (separator : Option Char) : Nat → List Char → List Char
  | 0, cs => cs
  | n + 1, cs =>
    let r := skipField separator cs
    skipFields separator n (if separator.isSome then r.drop 1 else r)

def skipTo (separator : Option Char) (p : KeyPlace) (l : List Char) : List Char :=
  let cs := skipFields separator (p.field - 1) l
  (if p.skipBlanks then cs.dropWhile isBlankByte else cs).drop (p.byte - 1)

/-- The part of a line that a key is about. -/
def text (k : SortKey) (separator : Option Char) (l : List Char) : List Char :=
  let front := skipTo separator k.start l
  let tail := match k.stop with
    | none => []
    | some p =>
      if p.byte = 0 then skipField separator (skipFields separator (p.field - 1) l)
      else (skipTo separator p l).drop 1
  front.take (front.length - tail.length)

/-- The number at the front of a text; a text without one counts as zero. -/
def number (cs : List Char) : Rat :=
  let body := cs.dropWhile isBlankByte
  let (negative, body) := match body with
    | '-' :: r => (true, r)
    | r => (false, r)
  let whole := body.takeWhile isDigit
  let fraction := match body.drop whole.length with
    | '.' :: r => r.takeWhile isDigit
    | _ => []
  let n := ((takeNumber 10 none (whole ++ fraction)).1).getD 0
  let q : Rat := (n : Rat) / (10 : Rat) ^ fraction.length
  if negative then -q else q

def compareTexts : List Char → List Char → Ordering
  | [], [] => .eq
  | [], _ => .lt
  | _, [] => .gt
  | a :: as, b :: bs => if a < b then .lt else if b < a then .gt else compareTexts as bs

/-- The number at the front of a text with the letter behind it that multiplies it; numbers with
larger letters are larger. -/
def scaledNumber (cs : List Char) : Int × Rat :=
  let q := number cs
  let isPart (c : Char) : Bool := isDigit c || c == '.' || c == '-'
  let rank : Int := match ((cs.dropWhile isBlankByte).dropWhile isPart).head? with
    | some c => (("KMGTPEZYRQ".toList.findIdx? (· == toUpper c)).map fun i => (i : Int) + 1).getD 0
    | none => 0
  (if q = 0 then 0 else if q < 0 then -rank else rank, q)

def compareNumbers {α : Type} [LT α] [DecidableLT α] (x y : α) : Ordering :=
  if x < y then .lt else if y < x then .gt else .eq

def compare (flags : List Char) (a b : List Char) : Ordering :=
  if flags.contains 'n' then compareNumbers (number a) (number b)
  else if flags.contains 'h' then
    let (x, y) := (scaledNumber a, scaledNumber b)
    (compareNumbers x.1 y.1).then (compareNumbers x.2 y.2)
  else if flags.contains 'g' then
    let hasNumber (cs : List Char) : Nat :=
      if ((cs.dropWhile isBlankByte).head?).any fun c => isDigit c || c == '-' || c == '.' then 1
      else 0
    (compareNumbers (hasNumber a) (hasNumber b)).then (compareNumbers (number a) (number b))
  else
    let normal (cs : List Char) : List Char :=
      let cs := if flags.contains 'd' then cs.filter fun c => isAlnum c || isBlankByte c else cs
      let cs := if flags.contains 'i' then cs.filter isPrint else cs
      if flags.contains 'f' then cs.map toUpper else cs
    compareTexts (normal a) (normal b)

/-- Reads a place of a key; the letters that follow it. -/
def place? (start : Bool) (cs : List Char) : Except String (KeyPlace × List Char) :=
  let shown := quoted (String.ofList cs)
  match takeNumber 10 none cs with
  | (none, _) =>
    if start then .error s!"invalid number at field start: invalid count at start of {shown}"
    else .error s!"invalid number after ',': invalid count at start of {shown}"
  | (some 0, _) => .error s!"field number is zero: invalid field specification {shown}"
  | (some f, '.' :: rest) =>
    match takeNumber 10 none rest with
    | (some n, r) =>
      if n = 0 && start then
        .error s!"character offset is zero: invalid field specification {shown}"
      else .ok (⟨f, n, false⟩, r)
    | (none, _) => .error s!"invalid number after '.': invalid count at start of {shown}"
  | (some f, r) => .ok (⟨f, if start then 1 else 0, false⟩, r)

def isFlag (c : Char) : Bool := "bdfgihnr".toList.contains c

/-- Reads a key such as `2.3n,4`. -/
def ofText? (s : String) : Except String SortKey := do
  let (start, r) ← place? true s.toList
  let flags := r.takeWhile isFlag
  let start := { start with skipBlanks := flags.contains 'b' }
  match r.drop flags.length with
  | [] => return ⟨start, none, flags⟩
  | ',' :: rest =>
    let (stop, r) ← place? false rest
    let more := r.takeWhile isFlag
    let stop := { stop with skipBlanks := more.contains 'b' }
    if (r.drop more.length).isEmpty then return ⟨start, some stop, flags ++ more⟩
    else throw s!"stray character in field spec: invalid field specification {quoted s}"
  | _ => throw s!"stray character in field spec: invalid field specification {quoted s}"

end SortKey

def sortOptions : OptionTable :=
  { short := "bcCdfghik:mno:rsS:t:T:uz", first := false
    long := [("ignore-leading-blanks", 'b', .nothing), ("dictionary-order", 'd', .nothing),
      ("ignore-case", 'f', .nothing), ("numeric-sort", 'n', .nothing), ("reverse", 'r', .nothing),
      ("key", 'k', .argument), ("output", 'o', .argument), ("stable", 's', .nothing),
      ("field-separator", 't', .argument), ("unique", 'u', .nothing), ("merge", 'm', .nothing)] }

/-- The order of lines that keys give. -/
def sortOrder (separator : Option Char) (keys : List SortKey) (a b : String) : Ordering :=
  keys.foldl (fun o k =>
    if o != .eq then o
    else
      let o := SortKey.compare k.flags (k.text separator a.toList) (k.text separator b.toList)
      if k.flags.contains 'r' then o.swap else o) .eq

/-- `sort`: lines in order. -/
def sort : Tool := fun _ name args => do
  withOptions name 2 sortOptions args fun os operands => do
    let separator : Except String (Option Char) :=
      match argument? os 't' with
      | none => .ok none
      | some s =>
        match s.toList with
        | [c] => .ok (some c)
        | ['\\', '0'] => .ok (some '\x00')
        | [] => .error "empty tab"
        | _ => .error s!"multi-character tab {quoted s}"
    let global := (os.map (·.1)).filter SortKey.isFlag
    let keys : Except String (List SortKey) :=
      (os.filter (·.1 == 'k')).mapM fun (_, s) => SortKey.ofText? s
    match keys, separator with
    | .error e, _ | _, .error e => failure name e 2
    | .ok keys, .ok separator => do
      let keys := keys.map fun k =>
        if k.flags.isEmpty && !k.start.skipBlanks then
          let b := global.contains 'b'
          { k with
            flags := global, start := { k.start with skipBlanks := b }
            stop := k.stop.map fun p => { p with skipBlanks := b } }
        else k
      let keys := if keys.isEmpty then [⟨⟨1, 1, global.contains 'b'⟩, none, global⟩] else keys
      let wording : Wording := fun path e =>
        if e == .isDirectory then s!"read failed: {shellQuoted path}: {e.text}"
        else s!"cannot read: {shellQuoted path}: {e.text}"
      let (texts, status) ← readUntilFault name wording operands
      if status != 0 then return 2
      else
        let all := texts.flatMap fun (_, s) => (lines s).1
        let byKeys := sortOrder separator keys
        let unique := has os 'u'
        let order (a b : String) : Ordering :=
          let o := byKeys a b
          if o != .eq || unique || has os 's' then o
          else
            let o := SortKey.compareTexts a.toList b.toList
            if has os 'r' then o.swap else o
        if has os 'c' || has os 'C' then
          let path := operands.headD "-"
          let wrong := (all.zip (all.drop 1)).zipIdx.find? fun ((a, b), _) =>
            let o := order a b
            o == .gt || (unique && o == .eq)
          match wrong with
          | some ((_, b), i) =>
            if has os 'c' then warn name s!"{path}:{i + 2}: disorder: {b}"
            return 1
          | none => return 0
        else
          let before (a b : String) : Bool := order a b != .gt
          let sorted := if has os 'm' then
              texts.foldl (fun acc (_, s) => List.merge acc (lines s).1 before) []
            else all.mergeSort before
          let sorted := if unique then
              (sorted.splitBy fun a b => byKeys a b == .eq).filterMap (·.head?)
            else sorted
          match argument? os 'o' with
          | none => finish name (unlines sorted) 0
          | some path =>
            match ← Redirect.openFile .clobber false path with
            | .error e => failure name s!"open failed: {shellQuoted path}: {e.text}" 2
            | .ok c =>
              match (← Sh.files).write c (unlines sorted) with
              | .ok f =>
                Sh.setFiles f
                return 0
              | .error e => failure name s!"write failed: {shellQuoted path}: {e.text}" 2

end RabinReward.Shell.Tool
