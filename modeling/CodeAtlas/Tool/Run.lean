import CodeAtlas.Error
import CodeAtlas.Path
import CodeAtlas.Symbol.Kind
import CodeAtlas.Text.Utf8

/-!
# Running a supplementary tool

A tool is given a list of files, one project-relative path on each line, and answers on its standard
output.  It has failed when it could not be started or when it ends with a status other than 0; what
it wrote to its standard error then becomes the reason.
-/

namespace CodeAtlas

/-- What a tool did. -/
structure ToolOutput where
  stdout : ByteArray := ByteArray.empty
  stderr : ByteArray := ByteArray.empty
  status : Nat := 0
  deriving Inhabited

/-- The outcome of starting a tool. -/
abbrev ToolRun := Except OsError ToolOutput

namespace ToolRun

/-- Whether a tool that was asked for its version is there. -/
def isAvailable (run : ToolRun) : Bool :=
  match run with
  | .ok out => out.status == 0
  | .error _ => false

/-- What a tool wrote, or why it failed. -/
def output (tool : Origin) (run : ToolRun) : Except IndexError String :=
  match run with
  | .error e => .error (.toolUnavailable tool.name e.message)
  | .ok out =>
    if out.status = 0 then .ok (Text.decodeLossy out.stdout)
    else .error (.toolUnavailable tool.name
      ("exited with exit status: " ++ toString out.status ++ ": " ++
        Text.trim (Text.decodeLossy out.stderr)))

end ToolRun

/-- The list of files that is handed to a tool. -/
def fileList (root : String) (files : List String) : String :=
  String.join (files.map (fun f => Path.relative root f ++ "\n"))

end CodeAtlas
