/-!
# Why a settings file is refused

The first problem in reading order counts.
-/

namespace Offside.Settings

inductive Refusal where
  | malformed
  | unfinished
  | unacceptable
deriving DecidableEq

abbrev Reader := StateT (List Char) (Except Refusal)

end Offside.Settings
