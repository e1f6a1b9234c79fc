import LlmGateway.Routing.ModelMap
import Mathlib.Logic.Function.Basic

/-!
# The routers a process builds

Mirrors `app/routing/dependencies.py`. Adapters and breakers are objects that a process makes on
first use and keeps by the name of the provider, so what distinguishes them is where they are: their
`address`.

A router is built for every request. `shared_by_name` says that all routers a process ever builds
share one adapter and one breaker for each provider, whatever chains they are for and whichever
builds failed in between. That is why a hop of the router can name its breaker by its provider.
-/

namespace LlmGateway

/-- The class of an adapter, with what its constructor is given. -/
inductive ProviderClass where
  | openai (apiKey : String) (timeoutSeconds : ℚ)
  | anthropic (apiKey : String) (timeoutSeconds : ℚ)
  | ollama (baseUrl : String) (timeoutSeconds : ℚ)
  /-- `UnconfiguredProvider` -/
  | unconfigured
  deriving DecidableEq

/-- A provider object. -/
structure ProviderObject where
  address : ℕ
  name : String
  adapter : ProviderClass
  deriving DecidableEq

/-- A breaker object, as it is made. -/
structure BreakerObject where
  address : ℕ
  failureThreshold : ℕ
  cooldownSeconds : ℚ
  deriving DecidableEq

/-- The settings that adapters and breakers are made from. -/
structure ProviderSettings where
  openaiApiKey : Option String := none
  anthropicApiKey : Option String := none
  ollamaBaseUrl : String := "http://localhost:11434"
  providerRequestTimeoutSeconds : ℚ := 30
  ollamaRequestTimeoutSeconds : ℚ := 60
  circuitBreakerFailureThreshold : ℕ := 3
  circuitBreakerCooldownSeconds : ℚ := 30

/-- `_PROVIDER_INSTANCES` and `_BREAKERS`, and how many objects have been made. -/
structure Caches where
  providers : String → Option ProviderObject := fun _ => none
  breakers : String → Option BreakerObject := fun _ => none
  allocated : ℕ := 0

/-- One entry of the chain of a `FallbackRouter`. -/
structure RouterHop where
  provider : ProviderObject
  model : String
  breaker : BreakerObject
  deriving DecidableEq

variable (settings : Settings) (provider : ProviderSettings)

/-! ## Building -/

/-- The adapter for a name, where a missing key is no reason to fail. -/
def ProviderSettings.adapter (name : String) : Except PyError ProviderClass :=
  if name = "openai" then
    match provider.openaiApiKey.filter (· ≠ "") with
    | none => .ok .unconfigured
    | some key => .ok (.openai key provider.providerRequestTimeoutSeconds)
  else if name = "anthropic" then
    match provider.anthropicApiKey.filter (· ≠ "") with
    | none => .ok .unconfigured
    | some key => .ok (.anthropic key provider.providerRequestTimeoutSeconds)
  else if name = "ollama" then
    .ok (.ollama provider.ollamaBaseUrl provider.ollamaRequestTimeoutSeconds)
  else .error .valueError

/-- `_get_provider`. -/
def getProvider (name : String) (c : Caches) : Except PyError ProviderObject × Caches :=
  match c.providers name with
  | some object => (.ok object, c)
  | none =>
    match provider.adapter name with
    | .error e => (.error e, c)
    | .ok adapter =>
      (.ok ⟨c.allocated, name, adapter⟩,
        { c with
          providers := Function.update c.providers name (some ⟨c.allocated, name, adapter⟩)
          allocated := c.allocated + 1 })

/-- A breaker, made from the settings. -/
def ProviderSettings.breaker (address : ℕ) : BreakerObject :=
  ⟨address, provider.circuitBreakerFailureThreshold, provider.circuitBreakerCooldownSeconds⟩

/-- `_get_breaker`. -/
def getBreaker (name : String) (c : Caches) : BreakerObject × Caches :=
  match c.breakers name with
  | some object => (object, c)
  | none =>
    (provider.breaker c.allocated,
      { c with
        breakers := Function.update c.breakers name (some (provider.breaker c.allocated))
        allocated := c.allocated + 1 })

/-- The comprehension of `build_router`. -/
def buildHops : Chain → Caches → Except PyError (List RouterHop) × Caches
  | [], c => (.ok [], c)
  | (name, model) :: rest, c =>
    match getProvider provider name c with
    | (.error e, c₁) => (.error e, c₁)
    | (.ok object, c₁) =>
      let o := buildHops rest (getBreaker provider name c₁).2
      (o.1.map (⟨object, model, (getBreaker provider name c₁).1⟩ :: ·), o.2)

/-- `build_router`. -/
def buildRouter (virtualModel : String) (c : Caches) :
    Except PyError (String × List RouterHop) × Caches :=
  match settings.resolveChain virtualModel with
  | .error e => (.error e, c)
  | .ok (chainName, chain) =>
    let o := buildHops provider chain c
    (o.1.map (chainName, ·), o.2)

/-- The outcomes of building a router for each of the models, one after the other. -/
def buildRouters : List String → Caches → List (Except PyError (String × List RouterHop))
  | [], _ => []
  | model :: models, c =>
    (buildRouter settings provider model c).1 ::
      buildRouters models (buildRouter settings provider model c).2

/-! ## What the caches hold -/

/-- Every object is the one its name calls for, and no breaker is there under two names. -/
structure Caches.Sound (c : Caches) : Prop where
  adapter : ∀ name object, c.providers name = some object →
    object.name = name ∧ provider.adapter name = .ok object.adapter
  made : ∀ name object, c.breakers name = some object →
    object = provider.breaker object.address ∧ object.address < c.allocated
  injective : ∀ name name' object, c.breakers name = some object →
    c.breakers name' = some object → name = name'

/-- What is cached stays cached. -/
structure Caches.Extends (c c' : Caches) : Prop where
  providers : ∀ name object, c.providers name = some object → c'.providers name = some object
  breakers : ∀ name object, c.breakers name = some object → c'.breakers name = some object

/-- A hop is made of what is cached for its provider. -/
def Caches.Holds (c : Caches) (hop : RouterHop) : Prop :=
  c.providers hop.provider.name = some hop.provider ∧
    c.breakers hop.provider.name = some hop.breaker

variable {provider} {c c' c'' : Caches} {name : String}

theorem Caches.sound_empty : ({} : Caches).Sound provider where
  adapter := by simp
  made := by simp
  injective := by simp

theorem Caches.Extends.refl (c : Caches) : c.Extends c := ⟨fun _ _ h => h, fun _ _ h => h⟩

theorem Caches.Extends.trans (h : c.Extends c') (h' : c'.Extends c'') : c.Extends c'' where
  providers name object hn := h'.providers name object (h.providers name object hn)
  breakers name object hn := h'.breakers name object (h.breakers name object hn)

theorem Caches.Holds.mono {hop : RouterHop} (h : c.Holds hop) (hc : c.Extends c') : c'.Holds hop :=
  ⟨hc.providers _ _ h.1, hc.breakers _ _ h.2⟩

/-- An entry that is new to a table. -/
theorem update_eq_some_iff {β : Type} {table : String → Option β} {x y : β} {n : String} :
    Function.update table name (some x) n = some y ↔ (n = name ∧ x = y) ∨ (n ≠ name ∧ table n = some y) := by
  by_cases hn : n = name
  · subst hn
    simp
  · simp [hn]

theorem extends_update {β : Type} {table : String → Option β} {x : β} (h : table name = none) :
    ∀ n y, table n = some y → Function.update table name (some x) n = some y := by
  intro n y hn
  refine update_eq_some_iff.mpr (.inr ⟨?_, hn⟩)
  rintro rfl
  rw [h] at hn
  cases hn

theorem getProvider_spec (name : String) (hc : c.Sound provider) :
    (getProvider provider name c).2.Sound provider ∧ c.Extends (getProvider provider name c).2 ∧
      ∀ object, (getProvider provider name c).1 = .ok object →
        object.name = name ∧ (getProvider provider name c).2.providers name = some object := by
  unfold getProvider
  split
  · next object hobject =>
    refine ⟨hc, .refl c, ?_⟩
    rintro _ ⟨⟩
    exact ⟨(hc.adapter _ _ hobject).1, hobject⟩
  · next hnone =>
    split
    · exact ⟨hc, .refl c, nofun⟩
    · next adapter hadapter =>
      refine ⟨⟨fun n object hn => ?_, fun n object hn => ?_, hc.injective⟩,
        ⟨extends_update hnone, fun _ _ h => h⟩, ?_⟩
      · rcases update_eq_some_iff.mp hn with ⟨rfl, rfl⟩ | ⟨-, hn⟩
        · exact ⟨rfl, hadapter⟩
        · exact hc.adapter n object hn
      · obtain ⟨heq, hlt⟩ := hc.made n object hn
        exact ⟨heq, Nat.lt_succ_of_lt hlt⟩
      · rintro _ ⟨⟩
        exact ⟨rfl, Function.update_self _ _ _⟩

theorem getBreaker_spec (name : String) (hc : c.Sound provider) :
    (getBreaker provider name c).2.Sound provider ∧ c.Extends (getBreaker provider name c).2 ∧
      (getBreaker provider name c).2.breakers name = some (getBreaker provider name c).1 := by
  unfold getBreaker
  split
  · next object hobject => exact ⟨hc, .refl c, hobject⟩
  · next hnone =>
    -- the address is fresh, so the new breaker is none of those there are
    have hfresh : ∀ n, c.breakers n ≠ some (provider.breaker c.allocated) := fun n hn =>
      absurd (hc.made _ _ hn).2 (lt_irrefl _)
    refine ⟨⟨hc.adapter, fun n object hn => ?_, fun n n' object hn hn' => ?_⟩,
      ⟨fun _ _ h => h, extends_update hnone⟩, Function.update_self _ _ _⟩
    · rcases update_eq_some_iff.mp hn with ⟨rfl, rfl⟩ | ⟨-, hn⟩
      · exact ⟨rfl, Nat.lt_succ_self _⟩
      · obtain ⟨heq, hlt⟩ := hc.made n object hn
        exact ⟨heq, Nat.lt_succ_of_lt hlt⟩
    · rcases update_eq_some_iff.mp hn with ⟨rfl, rfl⟩ | ⟨-, hold⟩
      · rcases update_eq_some_iff.mp hn' with ⟨rfl, -⟩ | ⟨-, hold'⟩
        · rfl
        · exact absurd hold' (hfresh _)
      · rcases update_eq_some_iff.mp hn' with ⟨rfl, rfl⟩ | ⟨-, hold'⟩
        · exact absurd hold (hfresh _)
        · exact hc.injective n n' object hold hold'

/-- The hops of a chain are made of what is cached afterwards. -/
theorem buildHops_spec (chain : Chain) (hc : c.Sound provider) :
    (buildHops provider chain c).2.Sound provider ∧ c.Extends (buildHops provider chain c).2 ∧
      ∀ hops, (buildHops provider chain c).1 = .ok hops →
        hops.map (fun hop => (hop.provider.name, hop.model)) = chain ∧
          ∀ hop ∈ hops, (buildHops provider chain c).2.Holds hop := by
  induction chain generalizing c with
  | nil =>
    refine ⟨hc, .refl c, ?_⟩
    rintro _ ⟨⟩
    exact ⟨rfl, nofun⟩
  | cons pair rest ih =>
    obtain ⟨name, model⟩ := pair
    obtain ⟨hsound, hext, hobject⟩ := getProvider_spec name hc
    rw [buildHops]
    rcases hget : getProvider provider name c with ⟨e | object, c₁⟩
    · rw [hget] at hsound hext
      exact ⟨hsound, hext, nofun⟩
    · rw [hget] at hsound hext hobject
      obtain ⟨hname, hcached⟩ := hobject object rfl
      obtain ⟨hsound₂, hext₂, hbreaker⟩ := getBreaker_spec name hsound
      obtain ⟨hsound₃, hext₃, hhops⟩ := ih hsound₂
      refine ⟨hsound₃, hext.trans (hext₂.trans hext₃), fun hops hok => ?_⟩
      dsimp only at hok
      rcases hrest : (buildHops provider rest (getBreaker provider name c₁).2).1 with e | tail
      · rw [hrest] at hok
        cases hok
      · rw [hrest] at hok
        obtain rfl := Except.ok.inj hok
        obtain ⟨hchain, hheld⟩ := hhops tail hrest
        refine ⟨by rw [List.map_cons, hchain, hname], List.forall_mem_cons.mpr ⟨?_, hheld⟩⟩
        refine Caches.Holds.mono (c := (getBreaker provider name c₁).2) ⟨?_, ?_⟩ hext₃
        · rw [hname]
          exact hext₂.providers _ _ hcached
        · rw [hname]
          exact hbreaker

theorem buildRouter_spec (model : String) (hc : c.Sound provider) :
    (buildRouter settings provider model c).2.Sound provider ∧
      c.Extends (buildRouter settings provider model c).2 ∧
      ∀ chainName hops, (buildRouter settings provider model c).1 = .ok (chainName, hops) →
        settings.resolveChain model
            = .ok (chainName, hops.map fun hop => (hop.provider.name, hop.model)) ∧
          ∀ hop ∈ hops, (buildRouter settings provider model c).2.Holds hop := by
  unfold buildRouter
  split
  · exact ⟨hc, .refl c, nofun⟩
  · next chainName chain hchain =>
    obtain ⟨hsound, hext, hhops⟩ := buildHops_spec chain hc
    refine ⟨hsound, hext, fun name hops hok => ?_⟩
    dsimp only at hok
    rcases hbuilt : (buildHops provider chain c).1 with e | built
    · rw [hbuilt] at hok
      cases hok
    · rw [hbuilt] at hok
      obtain ⟨rfl, rfl⟩ := Prod.mk.inj (Except.ok.inj hok)
      obtain ⟨hmap, hheld⟩ := hhops built hbuilt
      exact ⟨by rw [hmap]; exact hchain, hheld⟩

/-- Every hop that is ever built is made of what is cached in the end. -/
theorem buildRouters_spec (models : List String) (hc : c.Sound provider) :
    ∃ c', c'.Sound provider ∧ c.Extends c' ∧
      ∀ chainName hops, .ok (chainName, hops) ∈ buildRouters settings provider models c →
        ∀ hop ∈ hops, c'.Holds hop := by
  induction models generalizing c with
  | nil => exact ⟨c, hc, .refl c, nofun⟩
  | cons model models ih =>
    obtain ⟨hsound, hext, hbuilt⟩ := buildRouter_spec settings model hc
    obtain ⟨c', hsound', hext', hrest⟩ := ih hsound
    refine ⟨c', hsound', hext.trans hext', fun chainName hops hmem => ?_⟩
    rcases List.mem_cons.mp hmem with heq | hmem
    · exact fun hop hhop => ((hbuilt chainName hops heq.symm).2 hop hhop).mono hext'
    · exact hrest chainName hops hmem

/-- However many routers a process builds, for whichever models, two of their hops have the same
breaker exactly if they have the same provider, and then the same adapter object, which is the one the
settings call for. -/
theorem shared_by_name (models : List String) {chainName chainName' : String}
    {hops hops' : List RouterHop}
    (hbuilt : .ok (chainName, hops) ∈ buildRouters settings provider models {})
    (hbuilt' : .ok (chainName', hops') ∈ buildRouters settings provider models {})
    {hop hop' : RouterHop} (hhop : hop ∈ hops) (hhop' : hop' ∈ hops') :
    (hop.breaker = hop'.breaker ↔ hop.provider.name = hop'.provider.name) ∧
      (hop.provider = hop'.provider ↔ hop.provider.name = hop'.provider.name) ∧
      provider.adapter hop.provider.name = .ok hop.provider.adapter ∧
      hop.breaker = provider.breaker hop.breaker.address := by
  obtain ⟨c, hsound, -, hheld⟩ := buildRouters_spec settings models Caches.sound_empty
  obtain ⟨hobject, hbreaker⟩ := hheld _ _ hbuilt hop hhop
  obtain ⟨hobject', hbreaker'⟩ := hheld _ _ hbuilt' hop' hhop'
  refine ⟨⟨fun heq => ?_, fun heq => ?_⟩, ⟨fun heq => by rw [heq], fun heq => ?_⟩,
    (hsound.adapter _ _ hobject).2, (hsound.made _ _ hbreaker).1⟩
  · rw [← heq] at hbreaker'
    exact hsound.injective _ _ _ hbreaker hbreaker'
  · rw [heq, hbreaker'] at hbreaker
    exact (Option.some.inj hbreaker).symm
  · rw [heq, hobject'] at hobject
    exact (Option.some.inj hobject).symm

/-! ## A build that fails between two others -/

/-- A chain table with a provider nobody knows. -/
def mistaken : Settings where
  fallbackChains := FALLBACK_CHAINS ++ [("broken", [("openai", "gpt-4o"), ("mistral", "large")])]
  hashKey := id

/-- The OpenAI hop of the default chain. -/
def firstHop : RouterHop := ⟨⟨0, "openai", .unconfigured⟩, "gpt-4o-mini", ⟨1, 3, 30⟩⟩

/-- The OpenAI hop of a chain that is built after one that failed at its second hop. -/
def lastHop : RouterHop := ⟨⟨0, "openai", .unconfigured⟩, "gpt-4o", ⟨1, 3, 30⟩⟩

theorem shared_by_name_openai :
    (firstHop.breaker = lastHop.breaker ↔ firstHop.provider.name = lastHop.provider.name) ∧
      (firstHop.provider = lastHop.provider ↔ firstHop.provider.name = lastHop.provider.name) ∧
      ({} : ProviderSettings).adapter firstHop.provider.name = .ok firstHop.provider.adapter ∧
      firstHop.breaker = ({} : ProviderSettings).breaker firstHop.breaker.address :=
  shared_by_name mistaken ["default", "broken", "smart"] (.head _) (.tail _ (.tail _ (.head _)))
    (.head _) (.tail _ (.head _))

end LlmGateway
