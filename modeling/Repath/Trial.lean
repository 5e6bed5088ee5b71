/-
Trying a rule before it is saved: on a text of one's own, or on eight samples of import code built
around the rule's source. A trial replaces in the whole text at once and asks no line whether it
is an import line.
-/
import Repath.Rule
import Repath.Text.Cuts

namespace Repath

/-- The outcome of trying a rule on a text. -/
structure Trial where
  success : Bool
  result : Text
  error : Option Text := none
deriving DecidableEq, Repr

/-- Tries a rule on a text. -/
def Rule.trial (rule : Rule) (text : Text) : Trial :=
  if rule.source.isBlank then
    { success := false, result := text, error := some "source string is empty".toList }
  else
    { success := true, result := text.replace rule.source rule.target }

/-- A named piece of import code. -/
structure Sample where
  name : Text
  description : Text
  content : Text
deriving DecidableEq, Repr

namespace Sample

/-- The path in the samples if a rule has no source to show. -/
def defaultPath : Text := "github.com/company/repo".toList

/-- A quoted path, with what stands before and after it on its line. -/
def importOf (path : Text) (before behind : String) : Text :=
  before.toList ++ '"' :: (path ++ '"' :: behind.toList)

/-- A member of an import block. -/
def member (path : String) : Text :=
  importOf path.toList "    " ""

/-- An import block of the given lines. -/
def importBlock (members : List Text) : Text :=
  Text.joinLines ("import (".toList :: members ++ [[')']])

def another : String := "github.com/company/another-repo"

/-- The samples around a path. -/
def cases (path : Text) : List Sample :=
  [{ name := "single-line import".toList
     description := "one import statement on one line".toList
     content := importOf path "import " "" },
   { name := "import block".toList
     description := "multi-line import block with several packages".toList
     content := importBlock
       [member "context", member "fmt", importOf path "    " "", member another] },
   { name := "trailing comment".toList
     description := "import block entry followed by a line comment".toList
     content := importBlock
       [member "context", member "fmt", importOf path "    " " // pinned", member another] },
   { name := "grouped block".toList
     description := "block split into stdlib, third-party and local groups".toList
     content := importBlock
       [member "context", member "fmt", member "time", [],
        member "github.com/example/third-party-lib",
        importOf path "    " "",
        importOf (path ++ "/internal/svc".toList) "    " "",
        importOf (path ++ "/internal/types".toList) "    " "",
        importOf (path ++ "/common/errorx".toList) "    " "", [],
        member "github.com/example/framework/core/logx"] },
   { name := "mixed forms".toList
     description := "single-line imports followed by a block".toList
     content := Text.joinLines
       [importOf "context".toList "import " "", importOf "fmt".toList "import " "",
        importBlock [importOf path "    " "", member another]] },
   { name := "aliased import".toList
     description := "block entries with package aliases".toList
     content := importBlock
       [member "context", member "fmt", importOf path "    repo " "",
        importOf another.toList "    another " ""] },
   { name := "dot and blank import".toList
     description := "dot import and blank identifier import".toList
     content := importBlock
       [member "context", member "fmt", importOf path "    . " "",
        importOf another.toList "    _ " ""] },
   { name := "versioned path".toList
     description := "module paths carrying a major version suffix".toList
     content := importBlock
       [member "context", member "fmt", importOf (path ++ "/v2".toList) "    " "",
        member "github.com/company/another-repo/v1.0.0"] }]

end Sample

/-- The samples around a rule's source, each with the outcome of trying the rule on it. -/
def Rule.trySamples (rule : Rule) : List (Sample × Trial) :=
  let path := if rule.source.isBlank then Sample.defaultPath else rule.source
  (Sample.cases path).map fun sample => (sample, rule.trial sample.content)

end Repath
