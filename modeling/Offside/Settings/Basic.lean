import Offside.FrontEnd
import Offside.Log.Entry
import Offside.Document.Json

/-!
# Settings

The settings of the program, as a file holds them: how a source is read and what is logged.
-/

namespace Offside

structure Settings where
  run : RunConfig
  log : Log.Preferences
deriving DecidableEq

namespace Settings

open Document (Json)
open Document.Json (natural ofOption)

def default : Settings := ⟨.default, .unset⟩

/-! ## As a document -/

def levelDocument (level : Log.Level) : Json := .string level.name

def document (settings : Settings) : Json :=
  .object
    [("lexer", .object [("tab_width", natural settings.run.tabWidth.toNat)]),
      ("parser",
        .object
          [("recover", .boolean settings.run.parser.recover),
            ("max_errors", natural settings.run.parser.maxErrors),
            ("max_depth", natural settings.run.parser.maxDepth)]),
      ("logging",
        .object
          [("level", ofOption levelDocument settings.log.level?),
            ("lexer", ofOption levelDocument settings.log.lexer?),
            ("parser", ofOption levelDocument settings.log.parser?)])]

end Settings

end Offside
