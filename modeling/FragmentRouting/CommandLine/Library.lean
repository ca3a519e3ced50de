import FragmentRouting.Catalogue
import FragmentRouting.CommandLine.Export

/-!
# The library by name

A target can name the library itself: the package with all public names, and the modules that
define them.
-/

namespace FragmentRouting.CommandLine

/-- What a target finds under a public name. Of the types only that of routers makes one. -/
def Export.ofPublished : Published → Export
  | .definition .type _ "Router" => .routerKind [] []
  | .definition .type _ name => .value (.kind name)
  | .definition .function _ name => .function name
  | .text s => .value (.text s)
  | .names names => .value (.list (names.map .text))

/-- The modules of the library that have others inside them. -/
def packageNames : List String :=
  ["fragroute", "fragroute.cli", "fragroute.routing"]

def libraryNames : List String :=
  packageNames ++ (catalogue.map fun d => d.2.2).eraseDups

/-- The public names that a module of the library holds. -/
def publicNames (module : String) : List String :=
  if module = "fragroute" then "__version__" :: "__all__" :: catalogue.map fun d => d.1
  else (catalogue.filter fun d => d.2.2 = module).map fun d => d.1

/-- The last parts of the names of the modules right inside a module. -/
def namesInside (module : String) : List String :=
  libraryNames.filterMap fun name =>
    if (enclosing name)[1]? = some module then
      some (String.ofList (name.toList.drop (module.length + 1)))
    else none

/-- The modules of the library. -/
def library : List Module :=
  libraryNames.map fun name =>
    { name
      exports := (publicNames name).filterMap (fun n =>
          (published n).toOption.map fun p => (n, Export.ofPublished p))
        ++ (namesInside name).map fun n => (n, .module)
      isPackage := packageNames.contains name }

end FragmentRouting.CommandLine
