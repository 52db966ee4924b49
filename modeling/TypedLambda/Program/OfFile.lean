import TypedLambda.Program.Parser
import TypedLambda.Token.Cursor.Tokens

/-!
# Programs from files

A program read from a file, or from a list of tokens with an error of its reader. Tokens are asked
for one by one, so that the reader's error counts only if it was met before a syntax error stopped
the reading. A file that fails gives no program, whatever was read from it. An opened file is closed
once, however the reading ends.
-/

namespace TypedLambda

/-- Why no program was read. A syntax error comes with the error that the reader had met. -/
inductive ReadError where
  | notOpened (e : SourceError)
  | invalid (file : String) (e : SyntaxError) (readerError : Option String)
  | failed (readerError : String)
  | crashed (fault : Cursor.Fault)

def ReadError.message : ReadError → String
  | notOpened e => e.message
  | invalid file e none => e.message file
  | invalid file e (some readerError) => e.message file ++ "\n" ++ readerError
  | failed readerError => readerError
  | crashed fault => fault.message

/-- The program that was parsed from a named file, given the error of its reader. -/
def Parsed.program (file : String) (readerError : Option String) (p : Parsed) :
    Except ReadError Program :=
  match p.result with
  | .error e => .error (.invalid file e readerError)
  | .ok program =>
    match readerError with
    | some e => .error (.failed e)
    | none => .ok program

/-- Read a list of tokens, whose reader has the given error all along, as a program. -/
def Program.ofTokens (file : String) (readerError : Option String) (ts : List Token) :
    Except ReadError Program :=
  (Program.parse ts).program file readerError

/-- What reading a file gave, and how often the file was closed. -/
structure FileReading where
  closes : Nat
  result : Except ReadError Program

/-- Read a program from the file under a cursor, and close the file. -/
def Cursor.reading (name : String) (c : Cursor) : Except Cursor.Fault FileReading := do
  let tokens ← c.tokens
  let parsed := Program.parse (tokens.map (·.1))
  let stopped := ((tokens.take parsed.reads).map (·.2)).getLastD c
  pure ⟨stopped.close.2.file.closes, parsed.program name stopped.file.error⟩

def Program.ofFile (fs : FileSystem) (name : String) : FileReading :=
  match Source.openNamed fs name with
  | .error e => ⟨0, .error (.notOpened e)⟩
  | .ok file =>
    match Cursor.ofFile file >>= Cursor.reading name with
    | .ok reading => reading
    | .error fault => ⟨0, .error (.crashed fault)⟩

end TypedLambda
