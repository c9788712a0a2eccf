import KurentoMediaServer.Debug.DeathHandler
import KurentoMediaServer.Debug.SourcePath

/-! The frames of the stack trace of `DeathHandler::SignalHandler`. For each of them it has
two lines of the program `addr2line`, the function and the place in the source, and makes
two messages of them: the function in brackets, and the shortened path with the line number
marked. All this is done in the same piece of memory for every frame. -/

namespace KurentoMediaServer.Debug

open Foundations Foundations.CString

structure Options where
  cutCommonPathRoot : Bool
  cutRelativePaths : Bool
  appendPid : Bool
  colorOutput : Bool

/-- `line_max_length` of `addr2line`. -/
def lineMaxLength : ℕ := 4096

/-- An address of the trace, the image it is looked up in and the two lines that the
program `addr2line` answers. -/
structure Frame where
  image : List Char
  addr : ℕ
  function : List Char
  source : List Char

def Frame.answer (f : Frame) : List Char := f.function ++ '\n' :: f.source ++ ['\n']

/-- `addr2line (image, addr, color_output, memory)`, which puts what it knows in the place
of a question mark; none when it follows the null of `strstr`. Without colours it appends
to an unknown function, and does not replace it. -/
def addr2line (colorOutput : Bool) (f : Frame) (line : ℕ) (m : ℕ → Char) : Option (ℕ → Char) :=
  let m := put m line (f.answer ++ [nul])
  let memory := line + lineMaxLength
  if m line = '?' then
    (ptoa f.addr m memory).map fun (straddr, m) =>
      let m := if colorOutput then put m line ("\x1b[32;1m".toList ++ [nul]) else m
      let m := strcat kNeededMemory m line straddr
      let m := if colorOutput then strcatLiteral kNeededMemory m line "\x1b[0m".toList else m
      let m := strcatLiteral kNeededMemory m line " at ".toList
      let m := strcatLiteral kNeededMemory m line f.image
      strcatLiteral kNeededMemory m line " ".toList
  else
    (strstr m kNeededMemory line "\n".toList).bind fun lineEnd =>
      if m (lineEnd + 1) = '?' then
        (ptoa f.addr m memory).map fun (straddr, m) =>
          let m := put m (lineEnd + 1) (f.image ++ [nul])
          let m := strcatLiteral kNeededMemory m line ":".toList
          let m := strcat kNeededMemory m line straddr
          strcatLiteral kNeededMemory m line "\n".toList
      else some m

section Model
variable (o : Options) (ppid : ℤ)

def functionPieces : List Piece :=
  [.text "]"] ++
    (if o.appendPid then
      colored o.colorOutput "\x1b[0m\x1b[33;1m" ++ [.text " (", .itoa ppid, .text ")"] else []) ++
    colored o.colorOutput "\x1b[0m" ++ [.text "\n"]

/-- The message at `msg` with the function whose name is at `line`. -/
def functionMessage (line msg : ℕ) (m : ℕ → Char) : Option (ℕ → Char) :=
  let begun :=
    if o.colorOutput then put m msg ("\x1b[34;1m".toList ++ [nul]) else Function.update m msg nul
  let m := strcatLiteral kNeededMemory begun msg "[".toList
  let m := strcat kNeededMemory m msg line
  (functionPieces o ppid).foldlM (fun m p => p.append 512 msg m) m

/-- The line number is marked; `memory` is where it is kept meanwhile. -/
def markLineNumber (line memory : ℕ) (m : ℕ → Char) : ℕ → Char :=
  match strstr m kNeededMemory line ":".toList with
  | none => m
  | some numberPos =>
    let m := strcpy kNeededMemory m memory numberPos
    -- the new line char
    let m := Function.update m (memory + strlen m kNeededMemory memory - 1) nul
    let m := put m numberPos ("\x1b[32;1m".toList ++ [nul])
    let m := strcat kNeededMemory m line memory
    strcatLiteral kNeededMemory m line "\x1b[0m\n".toList

def linePieces : List Piece :=
  (if o.appendPid then
    [.text " "] ++ colored o.colorOutput "\x1b[33;1m" ++ [.text "(", .itoa ppid, .text ")"] ++
      colored o.colorOutput "\x1b[0m" else []) ++ [.text "\n"]

/-- The end of the line; the process id is printed at `memory`. -/
def finishLine (line memory : ℕ) (m : ℕ → Char) : Option (ℕ → Char) :=
  let m := Function.update m (line + strlen m kNeededMemory line - 1) nul
  (linePieces o ppid).foldlM (fun m p => p.append (memory - line) line m) m

/-- The message with the place in the source at `line`, and where it begins. -/
def placeMessage (cwd line memory : ℕ) (m : ℕ → Char) : Option (ℕ × (ℕ → Char)) :=
  (if o.cutCommonPathRoot then Debug.cutCommonPathRoot m cwd line else some line).bind fun line =>
    let line := if o.cutRelativePaths then Debug.cutRelativePaths m line else line
    let m := if o.colorOutput then markLineNumber line memory m else m
    (finishLine o ppid line memory m).map fun m => (line, m)

/-- The body of the loop over the frames, with what is printed. -/
def frame (cwd prevMemory : ℕ) (f : Frame) (m : ℕ → Char) :
    Option (List (List Char) × (ℕ → Char)) :=
  (addr2line o.colorOutput f prevMemory m).bind fun m =>
  let memory := prevMemory + lineMaxLength
  match strstr m kNeededMemory prevMemory "\n".toList with
  | none => (finishLine o ppid prevMemory memory m).map fun m =>
      ([textAt m kNeededMemory prevMemory], m)
  | some functionNameEnd =>
    (functionMessage o ppid prevMemory memory (Function.update m functionNameEnd nul)).bind fun m =>
    let shown := textAt m kNeededMemory memory
    (placeMessage o ppid cwd (functionNameEnd + 1) memory m).map fun (line, m) =>
      ([shown, textAt m kNeededMemory line], m)

/-- The loop over the frames, and everything it prints. -/
def stackTrace (cwd prevMemory : ℕ) : List Frame → (ℕ → Char) →
    Option (List (List Char) × (ℕ → Char))
  | [], m => some ([], m)
  | f :: frames, m =>
    (frame o ppid cwd prevMemory f m).bind fun (shown, m) =>
      (stackTrace cwd prevMemory frames m).map fun (rest, m) => (shown ++ rest, m)

/-! ### What is meant -/

/-- What is known of a frame, in the lines of `addr2line`. -/
def Frame.text (colorOutput : Bool) (f : Frame) : List Char :=
  let address := '0' :: 'x' :: numeral 16 f.addr
  if f.answer.head? = some '?' then
    (if colorOutput then "\x1b[32;1m".toList else f.answer) ++ address ++
      (if colorOutput then "\x1b[0m".toList else []) ++ " at ".toList ++ f.image ++ " ".toList
  else if (f.source ++ ['\n']).head? = some '?' then
    f.function ++ ['\n'] ++ f.image ++ ":".toList ++ address ++ "\n".toList
  else f.answer

def functionText (function : List Char) : List Char :=
  (if o.colorOutput then "\x1b[34;1m".toList else []) ++ "[".toList ++ function ++
    shownText (functionPieces o ppid)

/-- A line with its number in green. -/
def marked (source : List Char) : List Char :=
  match source.dropInfix? ":".toList with
  | none => source
  | some (path, number) =>
    path ++ "\x1b[32;1m".toList ++ (":".toList ++ number).dropLast ++ "\x1b[0m\n".toList

def shortened (dir source : List Char) : List Char :=
  let source := if o.cutCommonPathRoot then withoutRoot dir source else source
  if o.cutRelativePaths then withoutParents source else source

/-- The place in the source as it is shown. -/
def sourceText (dir source : List Char) : List Char :=
  if o.colorOutput then marked (shortened o dir source) else shortened o dir source

def lineText (line : List Char) : List Char := line.dropLast ++ shownText (linePieces o ppid)

/-- The messages for a frame. -/
def frameTexts (dir : List Char) (f : Frame) : List (List Char) :=
  match (f.text o.colorOutput).dropInfix? "\n".toList with
  | none => [lineText o ppid (f.text o.colorOutput)]
  | some (function, source) =>
    [functionText o ppid function, lineText o ppid (sourceText o dir source)]

end Model

end KurentoMediaServer.Debug
