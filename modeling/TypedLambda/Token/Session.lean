import TypedLambda.Token.Cursor.Tokens

/-!
# Using a cursor

Whoever holds a cursor may ask for tokens, with or without the trivia apart, close the file and ask
for the error that was met, in any order.
-/

namespace TypedLambda.Cursor

inductive Call where
  | next
  | advance
  | close
  | lastError
deriving DecidableEq

/-- What a call answers: a token with the trivia before it, a token of any kind, the error of the
closing, or the error that was met so far. -/
inductive Reply where
  | significant (t : Token)
  | token (t : Token)
  | closed (error : Option String)
  | lastError (error : Option String)

def perform (c : Cursor) : Call → Except Fault (Reply × Cursor)
  | .next => do
    let (t, c) ← c.nextToken
    pure (.significant t, c)
  | .advance => do
    let (t, c) ← c.advance
    pure (.token t, c)
  | .close => pure (.closed c.close.1, c.close.2)
  | .lastError => pure (.lastError c.file.error, c)

def performAll (c : Cursor) : List Call → Except Fault (List Reply × Cursor)
  | [] => pure ([], c)
  | call :: calls => do
    let (reply, c) ← c.perform call
    let (replies, c) ← c.performAll calls
    pure (reply :: replies, c)

end TypedLambda.Cursor
