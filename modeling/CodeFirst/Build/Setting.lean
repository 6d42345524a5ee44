import CodeFirst.Build.Exposure
import CodeFirst.Build.Realize

/-! What stays fixed while a schema is built. -/

namespace CodeFirst

structure Setting where
  registry : Registry
  options : BuildOptions
  filter : ResolverFilter
  attachments : List Attachment

namespace Setting

def fieldResolvers (s : Setting) (object : EntityId) : List Binding :=
  (s.attachments.filter (·.object == object)).map (·.binding)

def prepare (r : Registry) (options : BuildOptions) (filter : ResolverFilter) :
    Trial BuildError Setting := do
  let bindings ← Trial.ofLogged (Exposure.exposed r filter .field)
  let attachments ← Trial.ofExcept (Attachment.attach r [] bindings)
  return ⟨r, options, filter, attachments⟩

end Setting

namespace Realize

variable {r : Registry}

/-- The place of the scalar or type that a reference denotes in output position. -/
def outputBase (o : BuildOptions) (host : Location) (ref : Reference) : Realize r TypeId :=
  match scalarOf? o r ref with
  | some t => scalar t
  | none =>
    match ref.entity? with
    | none => fail (.undeterminedType host)
    | some id => do
      match ← declared? .object id with
      | some place => return place
      | none => ofOption (.undeterminedType host) (← declared? .interface id)

def output (o : BuildOptions) (host : Location) (ref : Reference) (w : Wrapping) :
    Realize r TypeNode := do
  return .wrap (← outputBase o host ref) (w.withReferenceDepth ref.depth)

def inputBase (o : BuildOptions) (host : Location) (ref : Reference) : Realize r TypeId :=
  match scalarOf? o r ref with
  | some t => scalar t
  | none =>
    match ref.entity? with
    | none => fail (.cannotDetermineInputType host)
    | some id => do ofOption (.cannotDetermineInputType host) (← declared? .input id)

def input (o : BuildOptions) (host : Location) (ref : Reference) (w : Wrapping) :
    Realize r TypeNode := do
  return .wrap (← inputBase o host ref) (w.withReferenceDepth ref.depth)

end Realize

end CodeFirst
