import FrameScript.Program

/-!
# Editing programs

A place in a program is a path: the indices of the statements to enter from the top, each of which
has a body, and an index in the body reached.
-/

namespace FrameScript

namespace Stmt

/-- The list of statements at the end of a path. -/
def bodyAt? : List Nat → List Stmt → Option (List Stmt)
  | [], body => some body
  | index :: path, body => do
    let s ← body[index]?
    let inner ← s.body?
    bodyAt? path inner

/-- Replaces the list of statements at the end of a path, if the path leads anywhere. -/
def replaceAt? (replacement : List Stmt) : List Nat → List Stmt → Option (List Stmt)
  | [], _ => some replacement
  | index :: path, body => do
    let s ← body[index]?
    let inner ← s.body?
    let edited ← replaceAt? replacement path inner
    return body.set index (s.withBody edited)

end Stmt

namespace Program

/-- The list of statements at the end of a path. -/
def bodyAt? (p : Program) (path : List Nat) : Option (List Stmt) :=
  Stmt.bodyAt? path p.statements

/-- Inserts a statement before the one at an index, or at the end of the body. -/
def insertAt? (p : Program) (path : List Nat) (index : Nat) (s : Stmt) : Option Program := do
  let body ← p.bodyAt? path
  if index ≤ body.length then
    let edited ← Stmt.replaceAt? (body.take index ++ s :: body.drop index) path p.statements
    return { p with statements := edited }
  else none

/-- Removes the statement at an index, which comes with the program that is left. -/
def removeAt? (p : Program) (path : List Nat) (index : Nat) : Option (Stmt × Program) := do
  let body ← p.bodyAt? path
  let removed ← body[index]?
  let edited ← Stmt.replaceAt? (body.eraseIdx index) path p.statements
  return (removed, { p with statements := edited })

end Program

end FrameScript
