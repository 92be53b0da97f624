import Observable.Build.Report
/-! A build: one pass over the sources of a crate, whose units become files. -/
namespace Observable

/-- What a build leaves: the tree of files, the events that it shows, and its result. -/
structure Build where
  tree : FileTree
  shown : List PassEvent := []
  result : Except BuildError BuildReport

namespace Build

/-- The name of the file that holds the settings. -/
def configFile : String := "reactive-property.toml"

/-- The path of the settings of a crate. -/
def configPath (crate : String) : String := File.Path.join crate configFile

/-- The settings of a crate; without a file they are the usual ones. -/
def config (tree : FileTree) (crate : String) : Except BuildError BuildConfig :=
  match tree.text (configPath crate) with
  | .ok text => (BuildConfig.ofText text).mapError .config
  | .error .missing => .ok {}
  | .error e => .error (.access (configPath crate) e)

/-- The settings of a crate and its sources. -/
def sources (tree : FileTree) (crate : String) : Except BuildError (BuildConfig × Compilation) := do
  let c ← config tree crate
  let compilation ← (Compilation.ofDirectory tree (c.sourceRoot crate)).mapError .source
  return (c, compilation)

def unitPath (out : String) (unit : SourceUnit) : String := File.Path.join out (unit.key ++ ".rs")

/-- Writes units in order up to the first failure, and gives the paths of their files. -/
def writeUnits (out : String) :
    FileTree → List SourceUnit → FileTree × Except BuildError (List String)
  | tree, [] => (tree, .ok [])
  | tree, unit :: rest =>
    let path := unitPath out unit
    match tree.write path unit.body.toUTF8 with
    | .error e => (tree, .error (.access path e))
    | .ok tree =>
      let (tree, written) := writeUnits out tree rest
      (tree, written.map (path :: ·))

/-- Writes units into a directory, which is made if it is missing. -/
def deliver (out : String) (tree : FileTree) (units : List SourceUnit) :
    FileTree × Except BuildError (List String) :=
  match tree.makeDirectory out with
  | .error e => (tree, .error (.access out e))
  | .ok tree => writeUnits out tree units

/-- The paths that a build of a crate depends on. -/
def inputs (tree : FileTree) (crate : String) (c : BuildConfig) (compilation : Compilation) :
    List String :=
  [configPath crate].filter (tree.hasFile ·) ++ c.sourceRoot crate :: compilation.files.map (·.path)

/-- Writes the units of a pass into a directory, if the pass and the set-up before it come to their
end. -/
def finish (tree : FileTree) (crate out : String) (c : BuildConfig) (compilation : Compilation)
    (start : Call Unit) (pass : Call PassReport) : Build :=
  let shown := if c.generator.debug then start.events ++ pass.events else []
  match start.result, pass.result with
  | .error e, _ => { tree, shown, result := .error (.generate e) }
  | _, .error e => { tree, shown, result := .error (.generate e) }
  | .ok _, .ok _ =>
    let (tree', written) := deliver out tree pass.delivery.units
    { tree := tree', shown
      result := written.map fun outputs =>
        { inputs := inputs tree crate c compilation, outputs
          diagnostics := pass.delivery.diagnostics } }

/-- Builds the crate in a directory and writes its units into another one. -/
def run (tree : FileTree) (crate out : String) : Build :=
  match sources tree crate with
  | .error e => { tree, result := .error e }
  | .ok (c, compilation) =>
    let start := Generator.setUp { config := c.generator }
    finish tree crate out c compilation start (start.generator.execute compilation {})

end Build

end Observable
