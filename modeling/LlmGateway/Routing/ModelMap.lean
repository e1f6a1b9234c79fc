import LlmGateway.Gateway.Settings
import LlmGateway.Routing.Fallback

/-!
# The models a client can ask for

Mirrors `app/routing/model_map.py` and `_route` of `app/main.py`. A client names a chain. A name that
is none gets the default chain, or a 404 where the routing is strict.
-/

namespace LlmGateway

/-- `DEFAULT_CHAIN_NAME`. -/
def DEFAULT_CHAIN_NAME : String := "default"

/-- What `_route` raises: a 404 whose text names the model that was asked for, with the names there
are. -/
structure UnknownModel where
  statusCode : ℕ := 404
  requestedModel : String
  routable : List String
  requestId : String

namespace Settings

variable (settings : Settings)

/-- `routable_models`. -/
def routableModels : List String := sorted (settings.fallbackChains.map Prod.fst).toFinset

/-- `is_routable`. -/
def isRoutable (virtualModel : String) : Bool := (settings.fallbackChains.lookup virtualModel).isSome

/-- `resolve_chain`. The chain is missing only where the table has no default. -/
def resolveChain (virtualModel : String) : Except PyError (String × Chain) :=
  match settings.fallbackChains.lookup virtualModel with
  | some chain => .ok (virtualModel, chain)
  | none =>
    match settings.fallbackChains.lookup DEFAULT_CHAIN_NAME with
    | some chain => .ok (DEFAULT_CHAIN_NAME, chain)
    | none => .error (.other "KeyError")

/-- One entry of `list_models`. -/
structure Model where
  id : String
  providers : List String

/-- `list_models`. -/
def listModels : List Model :=
  settings.routableModels.map fun name =>
    ⟨name, ((settings.fallbackChains.lookup name).getD []).map Prod.fst⟩

/-- Whether `_route` puts up with a model that is not routable. -/
def route (strictModelRouting : Bool) (requestedModel requestId : String) (strict : Option Bool) :
    Except UnknownModel Unit :=
  if settings.isRoutable requestedModel = false ∧ strict.getD strictModelRouting = true then
    .error { requestedModel, routable := settings.routableModels, requestId }
  else .ok ()

end Settings

end LlmGateway
