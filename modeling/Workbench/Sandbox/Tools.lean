import Workbench.Files.Disk
import Workbench.Sandbox.Printf
import Workbench.Text.Utf8

/-!
# Tools

The programs that a machine has besides its shell. A tool sees its arguments, its input and the
directory that it works in, and some change the disk.
-/

namespace Workbench.Sandbox

open Files (Disk Fault Node Place)
open Wasm (Bytes)

/-- Where a program works. -/
structure Site where
  disk : Disk
  place : Place
  /-- The root of the disk as programs show it. -/
  root : String
  deriving Repr, Inhabited

namespace Site

/-- The path of the working directory as programs show it. -/
def workingPath (s : Site) : String :=
  if s.place.isEmpty then s.root else s.root ++ "/" ++ s.place.text

def onDisk (s : Site) (path : String) : String :=
  Files.joinText s.place.text path

def find (s : Site) (path : String) : Except Fault (Place × Node) :=
  s.disk.locate (s.onDisk path)

end Site

/-- The text of a fault without its number. -/
def faultWords (fault : Fault) : String :=
  ((fault.text.splitOn " (os error").head?).getD ""

/-! ### Reading files -/

/-- The content of a file, with those that a system has of itself. -/
def fileContent (s : Site) (path : String) : Except Fault Output :=
  match path with
  | "/dev/null" => .ok .empty
  | "/dev/zero" => .ok ⟨[], [0]⟩
  | _ =>
      match s.find path with
      | .ok (_, .file content _) => .ok (.ofBytes content)
      | .ok (_, .directory) => .error .isDirectory
      | .error fault => .error fault

/-- What a tool says about a path that it cannot read, with the words on why. -/
def cannotRead (tool path : String) (fault : Fault) : String :=
  let words := faultWords fault
  match tool, fault with
  | "sort", _ => s!"sort: cannot read: {path}: {words}\n"
  | "head", .isDirectory | "tail", .isDirectory => s!"{tool}: error reading '{path}': {words}\n"
  | "head", _ | "tail", _ => s!"{tool}: cannot open '{path}' for reading: {words}\n"
  | _, _ => s!"{tool}: {path}: {words}\n"

/-- Joins the contents of files, or passes the input on without any. -/
def contents (tool : String) (s : Site) (input : Output) (paths : List String) : Deed :=
  let paths := if paths.isEmpty then ["-"] else paths
  let add (d : Deed) (path : String) : Deed :=
    if d.endless then d
    else
      match if path = "-" then .ok input else fileContent s path with
      | .ok content =>
          { d with out := d.out.append content, endless := content.isEndless }
      | .error fault =>
          { d with err := d.err ++ cannotRead tool path fault, code := 1 }
  paths.foldl add {}

/-! ### Tools one by one -/

/-- A count such as `12`. -/
def count? (text : String) : Option Nat :=
  if text.isEmpty || !text.all Char.isDigit then none
  else some (readDecimal text.toList).1

/-- The bytes up to the end of a line, so many times. -/
def takeLines (count : Nat) (bytes : Bytes) : Bytes :=
  match count, bytes with
  | _, [] | 0, _ => []
  | count + 1, b :: rest => b :: takeLines (if b = 10 then count else count + 1) rest

/-- The start of an input: so many bytes, or so many lines. -/
def headOf (inBytes : Bool) (count : Nat) (content : Output) : Output :=
  if inBytes then .ofBytes (content.take count)
  else .ofBytes (takeLines count (content.start ++ (List.replicate count content.cycle).flatten))

/-- How much of files is to be shown: whether bytes or lines are counted, the text of the number,
and the paths. -/
def amountOf (args : List String) : Bool × String × List String :=
  match args with
  | "-c" :: n :: paths => (true, n, paths)
  | "-n" :: n :: paths => (false, n, paths)
  | arg :: paths =>
      match arg.toList with
      | '-' :: 'c' :: n => (true, String.ofList n, paths)
      | '-' :: 'n' :: n => (false, String.ofList n, paths)
      | '-' :: c :: n => (false, String.ofList (c :: n), paths)
      | _ => (false, "10", arg :: paths)
  | [] => (false, "10", [])

/-- The complaint about an amount that is no number. -/
def badAmount (tool : String) (inBytes : Bool) (text : String) : Deed :=
  let unit := if inBytes then "bytes" else "lines"
  .fails 1 s!"{tool}: invalid number of {unit}: ‘{text}’\n"

/-- Shows the start of files. -/
def head (s : Site) (input : Output) (args : List String) : Deed :=
  let (inBytes, text, paths) := amountOf args
  match count? text with
  | none => badAmount "head" inBytes text
  | some count =>
      let d := contents "head" s input paths
      { d with out := headOf inBytes count d.out, endless := false }

/-- The bytes that a set of characters names, ranges and escapes included. -/
def setBytes (fuel : Nat) (text : List Char) : Bytes :=
  match fuel, text with
  | fuel + 1, '\\' :: rest =>
      let (bytes, rest) := readEscape rest
      bytes ++ setBytes fuel rest
  | fuel + 1, a :: '-' :: b :: rest =>
      ((List.range (b.toNat + 1 - a.toNat)).map fun i => (a.toNat + i).toUInt8) ++
        setBytes fuel rest
  | fuel + 1, c :: rest => charBytes c ++ setBytes fuel rest
  | _, _ => []

/-- Lines of bytes, each with its end; the last one may lack it. -/
def linesOf : Bytes → List Bytes
  | [] => []
  | b :: rest =>
      if b = 10 then [b] :: linesOf rest
      else
        match linesOf rest with
        | [] => [[b]]
        | line :: lines => (b :: line) :: lines

def endLine (line : Bytes) : Bytes :=
  if line.getLast? = some 10 then line else line ++ [10]

/-- Shows the end of files. -/
def tail (s : Site) (input : Output) (args : List String) : Deed :=
  let (inBytes, text, paths) := amountOf args
  let lasts {α : Type} (count : Nat) (xs : List α) : List α := xs.drop (xs.length - count)
  match count? text with
  | none => badAmount "tail" inBytes text
  | some count =>
      let d := contents "tail" s input paths
      let kept :=
        if inBytes then lasts count d.out.start else (lasts count (linesOf d.out.start)).flatten
      { d with out := if d.endless then .empty else .ofBytes kept }

/-- Exchanges the bytes of a set for those of another, or deletes them. -/
def translate (input : Output) (args : List String) : Deed :=
  let bytesOf (text : String) := setBytes text.length text.toList
  match args with
  | ["-d", drop] =>
      let dropped := bytesOf drop
      .writes (input.mapBytes fun b => if dropped.contains b then [] else [b])
  | [source, target] =>
      let target := bytesOf target
      let pairs := (bytesOf source).zipIdx
      let change (b : UInt8) : Bytes :=
        match pairs.find? fun (a, _) => a == b with
        | some (_, i) => ((target[i]? <|> target.getLast?).map ([·])).getD [b]
        | none => [b]
      .writes (input.mapBytes change)
  | [] => .fails 1 ("tr: missing operand\n" ++ helpLine "tr")
  | first :: _ =>
      .fails 1 (s!"tr: missing operand after ‘{first}’\n" ++
        "Two strings must be given when translating.\n" ++ helpLine "tr")

/-- The names in a directory, hidden ones apart. -/
def namesIn (s : Site) (place : Place) : List String :=
  ((s.disk.below place).filterMap fun (p, _) =>
    match p with
    | [name] => if Files.isHidden name then none else some name
    | _ => none).mergeSort fun a b => !decide (b < a)

/-- The names in a directory as a listing shows them: hidden ones only on demand. -/
def listed (s : Site) (flags : List Char) (place : Place) : List String :=
  if flags.contains 'a' || flags.contains 'A' then
    let names := (s.disk.below place).filterMap fun (p, _) => if p.length = 1 then p.head? else none
    (if flags.contains 'a' then [".", ".."] else []) ++
      names.mergeSort fun a b => !decide (b < a)
  else namesIn s place

/-- The letters of all flags among arguments, and the other arguments. -/
def splitFlags (args : List String) : List Char × List String :=
  let isFlag (a : String) := a.toList.head? == some '-' && a.length > 1
  ((args.filter isFlag).flatMap fun a => a.toList.drop 1, args.filter fun a => !isFlag a)

/-- Lists files and directories: what cannot be found is told first, then files come, then the
contents of directories. -/
def list (s : Site) (args : List String) : Deed :=
  let (flags, paths) := splitFlags args
  let paths := if paths.isEmpty then ["."] else paths.mergeSort fun a b => !decide (b < a)
  let found := paths.map fun path => (path, s.find path)
  let missing := found.filterMap fun
    | (path, .error fault) => some s!"ls: cannot access '{path}': {faultWords fault}\n"
    | _ => none
  let asFile (result : Except Fault (Place × Node)) : Bool :=
    match result with
    | .ok (_, node) => flags.contains 'd' || !node.isDirectory
    | .error _ => false
  let files := (found.filter fun (_, result) => asFile result).map fun (path, _) => path ++ "\n"
  let directories := found.filterMap fun (path, result) =>
    match result with
    | .ok (place, .directory) =>
        if flags.contains 'd' then none
        else some (path, String.join ((listed s flags place).map (· ++ "\n")))
    | _ => none
  let headed := paths.length > 1
  let blocks := directories.map fun (path, text) => if headed then s!"{path}:\n{text}" else text
  let shown := (if files.isEmpty then [] else [String.join files]) ++ blocks
  { out := .ofText ("\n".intercalate shown)
    err := String.join missing
    complainsFirst := true
    code := if missing.isEmpty then 0 else 2 }

/-- Milliseconds of a duration in seconds, or in the unit behind it. -/
def milliseconds? (text : String) : Option Nat :=
  let chars := text.toList
  let (unit, body) := match chars.getLast? with
    | some 's' => (1000, chars.dropLast)
    | some 'm' => (60000, chars.dropLast)
    | some 'h' => (3600000, chars.dropLast)
    | _ => (1000, chars)
  let whole := body.takeWhile Char.isDigit
  match body.drop whole.length with
  | [] => if whole.isEmpty then none else some ((readDecimal whole).1 * unit)
  | '.' :: part =>
      if part.all Char.isDigit then
        some ((readDecimal (whole ++ part)).1 * unit / Nat.pow 10 part.length)
      else none
  | _ => none

def sleep (args : List String) : Deed :=
  match args with
  | [] => .fails 1 ("sleep: missing operand\n" ++ helpLine "sleep")
  | _ =>
      match args.filter fun a => (milliseconds? a).isNone with
      | [] => { lasts := (args.filterMap milliseconds?).foldl (· + ·) 0 }
      | bad =>
          let complaints := bad.map fun a => s!"sleep: invalid time interval ‘{a}’\n"
          .fails 1 (String.join complaints ++ helpLine "sleep")

/-- The lines, words and bytes in bytes. -/
def counts (bytes : Bytes) : List Nat :=
  let isBlank (b : UInt8) : Bool := b == 32 || (9 ≤ b && b ≤ 13)
  let starts := (bytes.zip (32 :: bytes)).filter fun (b, before) => !isBlank b && isBlank before
  [bytes.count 10, starts.length, bytes.length]

/-- Counts lines, words and bytes. Counts are filled up to the width of the greatest one. -/
def wordCount (s : Site) (input : Output) (args : List String) : Deed :=
  let (flags, paths) := splitFlags args
  let picks := if flags.isEmpty then ['l', 'w', 'c'] else ['l', 'w', 'c'].filter flags.contains
  let pick (all : List Nat) : List Nat :=
    ((all.zip ['l', 'w', 'c']).filter fun (_, flag) => picks.contains flag).map (·.1)
  let row (width : Nat) (all : List Nat) (name : String) : String :=
    let cells := (pick all).map fun n =>
      let digits := toString n
      String.ofList (List.replicate (width - digits.length) ' ') ++ digits
    " ".intercalate cells ++ (if name.isEmpty then "\n" else s!" {name}\n")
  if paths.isEmpty then
    if input.isEndless then { endless := true }
    else .shows (row (if picks.length = 1 then 1 else 7) (counts input.start) "")
  else
    let found := paths.map fun path => (path, contents "wc" s input [path])
    let texts := found.map fun (path, d) => (path, counts d.out.start, d)
    let total := texts.foldl
      (fun sum (_, all, _) => (sum.zip all).map fun (a, b) => a + b) [0, 0, 0]
    let width :=
      if picks.length = 1 && paths.length = 1 then 1 else (toString (total.getLast?.getD 0)).length
    let rows := texts.map fun (path, all, d) => if d.err.isEmpty then row width all path else ""
    { out := .ofText
        (String.join rows ++ (if paths.length > 1 then row width total "total" else ""))
      err := String.join (found.map fun (_, d) => d.err)
      code := if found.all fun (_, d) => d.err.isEmpty then 0 else 1 }

def echo (args : List String) : Deed :=
  match args with
  | "-n" :: rest => .shows (" ".intercalate rest)
  | "-e" :: rest => .writes (echoed rest)
  | _ => .shows (" ".intercalate args ++ "\n")

/-- A whole number, perhaps negative. -/
def integer? (text : String) : Option Int :=
  match text.toList with
  | '-' :: rest => (count? (String.ofList rest)).map fun n => -(n : Int)
  | _ => (count? text).map fun n => (n : Int)

/-- Numbers from a first one to a last one, in steps. -/
def numbers (fuel : Nat) (first step last : Int) : List Int :=
  match fuel with
  | 0 => []
  | fuel + 1 =>
      if (0 < step && last < first) || (step < 0 && first < last) then []
      else first :: numbers fuel (first + step) step last

/-- Numbers in a row. -/
def sequence (args : List String) : Deed :=
  let rows (first step last : Int) : Deed :=
    if step = 0 then .fails 1 "seq: invalid Zero increment value: ‘0’\n"
    else
      let fuel := ((last - first).natAbs / step.natAbs) + 2
      .shows (String.join ((numbers fuel first step last).map fun n => s!"{n}\n"))
  match args.mapM integer? with
  | some [last] => rows 1 1 last
  | some [first, last] => rows first 1 last
  | some [first, step, last] => rows first step last
  | some [] => .fails 1 ("seq: missing operand\n" ++ helpLine "seq")
  | _ =>
      let bad := (args.find? fun a => (integer? a).isNone).getD ""
      .fails 1 (s!"seq: invalid floating point argument: ‘{bad}’\n" ++ helpLine "seq")

/-! ### Lines -/

/-- The number that the text of a line begins with. -/
def numberAt (line : Bytes) : Int :=
  (readNumber (Text.decodeLossy line).1).1

/-- Puts lines in order. -/
def sort (s : Site) (input : Output) (args : List String) : Deed :=
  let (flags, paths) := splitFlags args
  let d := contents "sort" s input paths
  let text (line : Bytes) : List Nat := line.map (·.toNat)
  let before (a b : Bytes) : Bool :=
    if flags.contains 'n' && numberAt a != numberAt b then numberAt a < numberAt b
    else !decide (text b < text a)
  let rows := ((linesOf d.out.start).map endLine).mergeSort before
  let rows := if flags.contains 'r' then rows.reverse else rows
  let rows := if flags.contains 'u' then rows.eraseReps else rows
  if d.endless then d
  else if d.err.isEmpty then { d with out := .ofBytes rows.flatten }
  else { d with out := .empty, code := 2 }

/-- Drops lines that are like the ones before them. -/
def unique (s : Site) (input : Output) (args : List String) : Deed :=
  let d := contents "uniq" s input args
  if d.endless then d
  else { d with out := .ofBytes ((linesOf d.out.start).map endLine).eraseReps.flatten }

/-! ### Changes of the disk -/

/-- The deed of changing the disk for each path, with what to say where that fails. -/
def changing (s : Site) (paths : List String) (act : Site → String → Except String Disk) : Deed :=
  let (disk, err) := paths.foldl
    (fun (disk, err) path =>
      match act { s with disk := disk } path with
      | .ok disk => (disk, err)
      | .error text => (disk, err ++ text))
    (s.disk, "")
  { err := err, code := if err.isEmpty then 0 else 1, disk? := some disk }

/-- The deed of a tool that has to be told what to work on. -/
def needing (tool operand : String) (paths : List String) (d : Deed) : Deed :=
  if paths.isEmpty then .fails 1 (s!"{tool}: missing {operand}\n" ++ helpLine tool) else d

/-- Makes files that are missing. -/
def touch (s : Site) (args : List String) : Deed :=
  let paths := (splitFlags args).2
  needing "touch" "file operand" paths <| changing s paths fun s path =>
    match s.find path with
    | .ok _ => .ok s.disk
    | .error _ =>
        (s.disk.writeAt (s.onDisk path) [] 0).mapError fun fault =>
          s!"touch: cannot touch '{path}': {faultWords fault}\n"

def makeDirectories (s : Site) (args : List String) : Deed :=
  let (flags, paths) := splitFlags args
  needing "mkdir" "operand" paths <| changing s paths fun s path =>
    let refuse (fault : Fault) : Except String Disk :=
      .error s!"mkdir: cannot create directory ‘{path}’: {faultWords fault}\n"
    let make (_ : Unit) : Except String Disk :=
      match s.disk.makeDirectoriesAt (s.onDisk path) with
      | .ok disk => .ok disk
      | .error fault => refuse fault
    if flags.contains 'p' then make ()
    else
      let parent := (Files.parentText? path).getD ""
      match s.find path, s.find (if parent.isEmpty then "." else parent) with
      | .ok _, _ => refuse .exists
      | _, .ok (_, .directory) => make ()
      | _, .ok _ => refuse .notDirectory
      | _, .error fault => refuse fault

def withoutTree (d : Disk) (place : Place) : Disk :=
  ⟨d.entries.filter fun (p, _) => !place.isPrefixOf p⟩

/-- Removes files, and directories on demand. -/
def remove (s : Site) (args : List String) : Deed :=
  let (flags, paths) := splitFlags args
  let recursive := flags.contains 'r' || flags.contains 'R'
  let operands := if flags.contains 'f' then "" :: paths else paths
  needing "rm" "operand" operands <| changing s paths fun s path =>
    match s.find path with
    | .ok (place, node) =>
        if node.isDirectory && !recursive then
          .error s!"rm: cannot remove '{path}': Is a directory\n"
        else .ok (withoutTree s.disk place)
    | .error fault =>
        if flags.contains 'f' then .ok s.disk
        else .error s!"rm: cannot remove '{path}': {faultWords fault}\n"

/-- Where something goes that gets a path for its target: below it, if that is a directory. -/
def targetOf (s : Site) (source target : String) : String :=
  match s.find target with
  | .ok (_, .directory) => Files.joinText target ((Files.fileName? source).getD "")
  | _ => target

/-- Copies a file; if it moves, it does not stay where it was. -/
def copy (tool : String) (moves : Bool) (s : Site) (args : List String) : Deed :=
  match (splitFlags args).2 with
  | [source, target] =>
      changing s [source] fun s path =>
        match s.find path with
        | .ok (place, .file content _) =>
            let written := s.disk.writeAt (s.onDisk (targetOf s source target)) content 0
            match written with
            | .ok disk => .ok (if moves then disk.erase place else disk)
            | .error fault =>
                .error s!"{tool}: cannot create regular file '{target}': {faultWords fault}\n"
        | .ok (_, .directory) => .error s!"{tool}: -r not specified; omitting directory '{path}'\n"
        | .error fault => .error s!"{tool}: cannot stat '{path}': {faultWords fault}\n"
  | [source] =>
      .fails 1 (s!"{tool}: missing destination file operand after '{source}'\n" ++ helpLine tool)
  | _ => .fails 1 (s!"{tool}: missing file operand\n" ++ helpLine tool)

/-- Writes its input to files and passes it on. -/
def tee (s : Site) (input : Output) (args : List String) : Deed :=
  let d := changing s (splitFlags args).2 fun s path =>
    (s.disk.writeAt (s.onDisk path) input.start 0).mapError fun fault =>
      s!"tee: {path}: {faultWords fault}\n"
  { d with out := input, endless := input.isEndless }

/-! ### All tools -/

def tool? (name : String) (s : Site) (input : Output) (args : List String) : Option Deed :=
  match name with
  | "true" => some {}
  | "false" => some { code := 1 }
  | "echo" => some (echo args)
  | "printf" => some (printf .program args)
  | "cat" => some (contents "cat" s input args)
  | "head" => some (head s input args)
  | "tail" => some (tail s input args)
  | "tr" => some (translate input args)
  | "ls" => some (list s args)
  | "pwd" => some (.shows (s.workingPath ++ "\n"))
  | "sleep" => some (sleep args)
  | "seq" => some (sequence args)
  | "wc" => some (wordCount s input args)
  | "sort" => some (sort s input args)
  | "uniq" => some (unique s input args)
  | "touch" => some (touch s args)
  | "mkdir" => some (makeDirectories s args)
  | "rm" => some (remove s args)
  | "cp" => some (copy "cp" false s args)
  | "mv" => some (copy "mv" true s args)
  | "tee" => some (tee s input args)
  | "yes" =>
      let line := if args.isEmpty then "y" else " ".intercalate args
      some (.writes ⟨[], (line ++ "\n").toUTF8.toList⟩)
  | _ => none

def programDirectories : List String := ["/usr/bin/", "/bin/"]

/-- The name of a program without the directory that it lies in, if that is one of programs. -/
def programName (program : String) : String :=
  match programDirectories.find? fun d => d.toList.isPrefixOf program.toList with
  | some d => String.ofList (program.toList.drop d.length)
  | none => program

def isShell (name : String) : Bool :=
  name == "sh" || name == "dash"

end Workbench.Sandbox
