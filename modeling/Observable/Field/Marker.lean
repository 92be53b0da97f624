import Observable.Field.Argument
import Observable.Module.Scope
/-! The marker that fields opt in with. -/
namespace Observable.Marker

def name : String := "ReactiveProperty"

/-- The key of the unit that defines the marker. -/
def key : String := "ReactivePropertyAttribute_g"

/-- What an attribute's path has to refer to. -/
def identity : CanonicalPath := CanonicalPath.below .root [name]

/-- The lines of the definition of the marker. -/
def definitionLines : List String :=
  ["",
   "/// Requests a change-notifying property for a private field.",
   "///",
   "/// Valid on fields only. Not inherited, and applied at most once per field.",
   "#[derive(Clone, Copy, Debug, Default)]",
   "pub struct ReactiveProperty \x7b",
   "    /// Reserved name override. The generator does not read it.",
   "    pub property_name: Option<&'static str>,",
   "\x7d",
   "",
   "impl ReactiveProperty \x7b",
   "    pub const TARGETS: &'static [&'static str] = &[\"field\"];",
   "    pub const INHERITED: bool = false;",
   "    pub const ALLOW_MULTIPLE: bool = false;",
   "\x7d",
   ""]

/-- The definition of the marker before it is laid out. -/
def definition : String := "\n".intercalate definitionLines

/-- Whether an attribute in a module is the marker. -/
def marks (scope : Scope) (attr : Grammar.Tree) : Bool :=
  match attr.attributePath? with
  | some path => scope.resolvePath path == some identity
  | none => false

end Observable.Marker
