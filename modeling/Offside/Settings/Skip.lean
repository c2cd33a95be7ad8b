import Offside.Settings.Lexeme

/-!
# Skipping values

The value of an unknown field is only checked for its form.  The brackets that are open inside it
are kept on a stack, innermost first, so that values may be nested to any depth.
-/

namespace Offside.Settings.Reader

inductive Bracket where
  | list
  | object
deriving DecidableEq

namespace Bracket

def closer : Bracket → Char
  | list => ']'
  | object => '\x7d'

end Bracket

inductive Stage where
  | value
  | opened
  /-- A comma or the closer of the innermost bracket, if any is open. -/
  | behindValue

/-- Consumes a value that has no parts; `none` if it opens a bracket instead. -/
def skipAtom : Reader (Option Bracket) := do
  let c ← peek
  if c = 'n' then letters nullWord; return none
  else if c = 't' then letters trueWord; return none
  else if c = 'f' then letters falseWord; return none
  else if c = '-' || c.isDigit then
    let _ ← numeral .malformed
    return none
  else if c = '"' then
    let _ ← string false
    return none
  else if c = '[' then drop; return some .list
  else if c = '\x7b' then drop; return some .object
  else throw .malformed

def skipName : Reader Unit := do
  if (← peek) = '"' then
    let _ ← string false
    mark ':'
  else throw .malformed

def skipFrom : Nat → Stage → List Bracket → Reader Unit
  | 0, _, _ => throw .unfinished
  | fuel + 1, .value, opened => do
      match ← skipAtom with
      | some bracket => skipFrom fuel .opened (bracket :: opened)
      | none => skipFrom fuel .behindValue opened
  | _ + 1, .opened, [] => return
  | fuel + 1, .opened, bracket :: outer => do
      if (← peek) = bracket.closer then
        drop
        skipFrom fuel .behindValue outer
      else
        if bracket = .object then skipName
        skipFrom fuel .value (bracket :: outer)
  | _ + 1, .behindValue, [] => return
  | fuel + 1, .behindValue, bracket :: outer => do
      let c ← peek
      if c = bracket.closer then
        drop
        skipFrom fuel .behindValue outer
      else if c = ',' then
        drop
        if bracket = .object then skipName
        skipFrom fuel .value (bracket :: outer)
      else throw .malformed

def skip : Reader Unit := do skipFrom (3 * (← get).length + 3) .value []

end Offside.Settings.Reader
