import Lakehouse.Config.Providers
import Lakehouse.Sync.Request

/-!
# The registry of providers

A provider opens the tables of a format, either as sources or as targets. Providers are registered
under identifiers, and the provider configuration says which identifier serves a format in which
role. What a provider is stays open: a registry holds sources of one type and targets of another.

* `Registry.registerSource`, `Registry.registerTarget` — a later provider replaces an earlier one of
  its identifier and role.
* `Registry.configure` — a new provider configuration.
* `Registry.source`, `Registry.target` — the provider for a table, with all it is handed.

Model of `ProviderRegistry` and `ProviderContext`. Left out: what a provider does with what it is
handed, and the lock.
-/

namespace Lakehouse

/-- The side of a conversion that a provider opens. -/
inductive ProviderRole where
  | source
  | target
  deriving DecidableEq, Repr

/-- The name of a role. -/
def ProviderRole.name : ProviderRole → String
  | source => "source"
  | target => "target"

/-- The identifier that is configured for a role. -/
def ProviderEntry.provider? (e : ProviderEntry) : ProviderRole → Option String
  | .source => e.source
  | .target => e.target

/-- What a provider is told besides the table. -/
structure ProviderContext where
  /-- The path of the storage configuration. -/
  storage : Option String
  /-- What is configured for the format. -/
  settings : Dictionary String
  deriving DecidableEq

/-- A provider, the identifier it was found under, and all it is handed to open a table. -/
structure Opening (π : Type) where
  id : String
  provider : π
  table : TableDescriptor
  context : ProviderContext

/-- The registered providers, and the configuration they are chosen by. -/
structure Registry (σ τ : Type) where
  sources : Dictionary σ
  targets : Dictionary τ
  /-- The identifiers, in the order of their first registration. -/
  registered : List String
  providers : ProviderConfig
  storage : Option String

namespace Registry

variable {σ τ : Type}

/-- No provider is registered, and the known formats have their default providers. -/
def empty : Registry σ τ := ⟨.empty, .empty, [], .default, none⟩

/-- A list of identifiers with one more, unless it is in the list already. -/
def note (ids : List String) (id : String) : List String := if id ∈ ids then ids else ids ++ [id]

/-- The registry with a provider of sources. -/
def registerSource (r : Registry σ τ) (id : String) (provider : σ) : Registry σ τ :=
  { r with sources := r.sources.insert id provider, registered := note r.registered id }

/-- The registry with a provider of targets. -/
def registerTarget (r : Registry σ τ) (id : String) (provider : τ) : Registry σ τ :=
  { r with targets := r.targets.insert id provider, registered := note r.registered id }

/-- The registry with another configuration. -/
def configure (r : Registry σ τ) (providers : ProviderConfig) (storage : Option String) :
    Registry σ τ :=
  { r with providers, storage }

/-- A format for which no provider is configured in a role. -/
def unconfigured (format : String) (role : ProviderRole) : Fault :=
  ⟨.invalidConfiguration, s!"format {format} has no {role.name} provider configured"⟩

/-- A configured identifier under which no provider is registered in a role. -/
def unregistered (r : Registry σ τ) (id format : String) (role : ProviderRole) : Fault :=
  ⟨.invalidConfiguration,
    s!"no {role.name} provider registered as '{id}' for format {format}. " ++
      s!"Registered providers are {Text.quoteList r.registered}"⟩

/-- The identifier for a format in a role, and what the provider is told. -/
def resolve (r : Registry σ τ) (format : String) (role : ProviderRole) :
    Except Fault (String × ProviderContext) := do
  let e ← r.providers.entry format
  match e.provider? role with
  | some id => .ok (id, ⟨r.storage, e.settings⟩)
  | none => .error (unconfigured format role)

/-- The provider for a table among those of one role. -/
def find {π : Type} (r : Registry σ τ) (role : ProviderRole) (registered : Dictionary π)
    (table : TableDescriptor) : Except Fault (Opening π) := do
  let (id, context) ← r.resolve table.format role
  match registered.get? id with
  | some provider => .ok ⟨id, provider, table, context⟩
  | none => .error (r.unregistered id table.format role)

/-- The provider that opens a table as a source. -/
def source (r : Registry σ τ) (table : TableDescriptor) : Except Fault (Opening σ) :=
  r.find .source r.sources table

/-- The provider that opens a table as a target. -/
def target (r : Registry σ τ) (table : TableDescriptor) : Except Fault (Opening τ) :=
  r.find .target r.targets table

end Registry

end Lakehouse
