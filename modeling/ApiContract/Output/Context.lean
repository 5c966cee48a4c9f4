import ApiContract.Output.Settings
import ApiContract.Registry.Dependency

/-!
# What a generated declaration may depend on

Besides the settings: the registry as seen from the namespace, and the names declared further up in
the same file.
-/

namespace ApiContract

structure OutputContext where
  settings : OutputSettings
  view : View
  emitted : List String := []

namespace OutputContext

def isEmitted (c : OutputContext) (name : String) : Bool := c.emitted.contains name

/-- Whether a name leads to an object, over any number of references. -/
def isObject (c : OutputContext) (name : String) : Bool :=
  match c.view.resolve name with
  | .error _ => false
  | .ok t =>
    match c.view.deref t.definition with
    | .error _ => false
    | .ok (d, _) => d.shape?.isSome

end OutputContext

end ApiContract
