import Volto.Lib.History
import Volto.Lib.Slots

/-!
# Reloading a Running Server

`ReloadHandle::reload` of `quic/reload.rs`, with the parties it shares the server with:
`Server::accept_under_the_swap`, `Trigger::fire` and the start of `Server::drain`. A reload makes
four writes, each under a lock of its own, and the order between them and the reads of the others
is kept by the swap, a mutex that protects no value.

A party that waits or has returned is in `parties`; the one that holds the swap is `holder`, with
how far it has come, so that two of them cannot hold it. Every read, every write and every
locking is a step of its own.

The values carry the reload that wrote them (`Stamped`), which the code does not keep.

## Main results

* `Inv.step`: while nobody holds the swap the four values come from one generation, and while a
  reload does the ones it has written come from it.
* `reload_atomic`: a reload applies wholly or not at all, and never undoes a shutdown.
-/

namespace Volto

namespace Reload

variable {Config Names QuicConfig : Type}

/-- A value, and the reload that wrote it: none is `Server::bind`. -/
structure Stamped (α : Type) where
  source : Option ℕ
  value : α
deriving DecidableEq, Repr

/-- Why a reload changed nothing. -/
inductive ReloadError
  /-- The file could not be read, parsed or validated. -/
  | load (cause : String)
  /-- The certificate and key could not be loaded. -/
  | certificate (cause : String)
  | shuttingDown
deriving DecidableEq, Repr

/-- What an operator reads of it. -/
def ReloadError.message : ReloadError → String
  | .load cause => cause
  | .certificate _ => "the new configuration's certificate and key are not usable"
  | .shuttingDown => "the server is shutting down; the configuration was not reloaded"

/-- A call of `ReloadHandle::reload`. -/
inductive Reloading (Config QuicConfig : Type)
  /-- `Config::load` is next. -/
  | parsing
  /-- `server_config` is next. -/
  | certifying (config : Config)
  /-- The swap is next. -/
  | waiting (config : Config) (quicConfig : QuicConfig)
  /-- Holds the swap. -/
  | inside (config : Config) (quicConfig : QuicConfig)
  | applied (config : Config) (quicConfig : QuicConfig)
  | failed (error : ReloadError)
deriving DecidableEq, Repr

/-- A call of `Server::accept_under_the_swap`. -/
inductive Accepting (Config QuicConfig : Type)
  | waiting
  | inside
  /-- The live `Config`, and what `Incoming::accept_with` was given. -/
  | accepted (config : Stamped Config) (quicConfig : Stamped QuicConfig)
deriving DecidableEq, Repr

/-- The start of `Server::drain`. -/
inductive Draining
  | waiting
  | inside
  | closed
deriving DecidableEq, Repr

/-- A task that may be at work at the endpoint. -/
inductive Party (Config QuicConfig : Type)
  | reload (call : Reloading Config QuicConfig)
  | accept (call : Accepting Config QuicConfig)
  | drain (call : Draining)
deriving DecidableEq, Repr

/-- What a reload that holds the swap does next. -/
inductive Stage
  /-- Reads the shutdown latch. -/
  | latch
  /-- Writes the list of the SNI gate. -/
  | gate
  /-- Writes the live `Config`. -/
  | config
  /-- Writes the slot. -/
  | slot
  /-- Sets the configuration of the endpoint. -/
  | endpoint
  /-- Returns the new configuration. -/
  | applied
  /-- Returns an error. -/
  | refused
deriving DecidableEq, Repr

/-- The party that holds the swap. -/
inductive Holder (Config QuicConfig : Type)
  | reload (id : ℕ) (config : Config) (quicConfig : QuicConfig) (stage : Stage)
  /-- An accept, about to read the live `Config`. -/
  | accept (id : ℕ)
  /-- An accept, about to read the slot. -/
  | acceptWith (id : ℕ) (config : Stamped Config)
  /-- An accept that has both. -/
  | accepted (id : ℕ) (config : Stamped Config) (quicConfig : Stamped QuicConfig)
  /-- The drain, about to close the listener. -/
  | drain (id : ℕ)
  | drained (id : ℕ)
deriving DecidableEq, Repr

/-- A server, and the calls made on it so far. -/
structure Server (Config Names QuicConfig : Type) where
  /-- Who holds the swap. -/
  holder : Option (Holder Config QuicConfig)
  /-- Whether the shutdown has been fired. -/
  latch : Bool
  /-- The names the SNI gate admits. -/
  expected : Stamped Names
  /-- The live `Config`. -/
  config : Stamped Config
  /-- The `quinn::ServerConfig` an accept runs on. -/
  quicConfig : Stamped QuicConfig
  /-- The server configuration of the endpoint itself. -/
  endpoint : Option (Stamped QuicConfig)
  /-- Whether the drain has closed the listener, for the statements only. -/
  closed : Bool
  parties : List (Party Config QuicConfig)

namespace Server

/-- A server as it was bound. -/
def bind (names : Config → Names) (config : Config) (quicConfig : QuicConfig) :
    Server Config Names QuicConfig where
  holder := none
  latch := false
  expected := ⟨none, names config⟩
  config := ⟨none, config⟩
  quicConfig := ⟨none, quicConfig⟩
  endpoint := some ⟨none, quicConfig⟩
  closed := false
  parties := []

variable (s : Server Config Names QuicConfig)

/-- Puts a party in its next state. -/
def put (id : ℕ) (party : Party Config QuicConfig) : Server Config Names QuicConfig :=
  { s with parties := s.parties.set id party }

/-- `Config::load` returns. -/
def parsed (id : ℕ) (result : Except String Config) : Server Config Names QuicConfig :=
  match s.parties[id]?, result with
  | some (.reload .parsing), .ok config => s.put id (.reload (.certifying config))
  | some (.reload .parsing), .error cause => s.put id (.reload (.failed (.load cause)))
  | _, _ => s

/-- `server_config` returns. -/
def certified (id : ℕ) (result : Except String QuicConfig) : Server Config Names QuicConfig :=
  match s.parties[id]?, result with
  | some (.reload (.certifying config)), .ok quicConfig =>
      s.put id (.reload (.waiting config quicConfig))
  | some (.reload (.certifying _)), .error cause =>
      s.put id (.reload (.failed (.certificate cause)))
  | _, _ => s

/-- A party takes the swap, if nobody holds it. -/
def hold (id : ℕ) : Server Config Names QuicConfig :=
  match s.holder, s.parties[id]? with
  | none, some (.reload (.waiting config quicConfig)) =>
      { s.put id (.reload (.inside config quicConfig)) with
        holder := some (.reload id config quicConfig .latch) }
  | none, some (.accept .waiting) =>
      { s.put id (.accept .inside) with holder := some (.accept id) }
  | none, some (.drain .waiting) =>
      { s.put id (.drain .inside) with holder := some (.drain id) }
  | _, _ => s

/-- The next step of a reload that holds the swap. -/
def reload (names : Config → Names) (id : ℕ) (config : Config) (quicConfig : QuicConfig) :
    Stage → Server Config Names QuicConfig
  | .latch =>
      { s with holder := some (.reload id config quicConfig (if s.latch then .refused else .gate)) }
  | .gate =>
      { s with
        expected := ⟨some id, names config⟩
        holder := some (.reload id config quicConfig .config) }
  | .config =>
      { s with
        config := ⟨some id, config⟩
        holder := some (.reload id config quicConfig .slot) }
  | .slot =>
      { s with
        quicConfig := ⟨some id, quicConfig⟩
        holder := some (.reload id config quicConfig .endpoint) }
  | .endpoint =>
      { s with
        endpoint := some ⟨some id, quicConfig⟩
        holder := some (.reload id config quicConfig .applied) }
  | .applied => { s.put id (.reload (.applied config quicConfig)) with holder := none }
  | .refused => { s.put id (.reload (.failed .shuttingDown)) with holder := none }

/-- The next step of the party that holds the swap. -/
def proceed (names : Config → Names) : Server Config Names QuicConfig :=
  match s.holder with
  | none => s
  | some (.reload id config quicConfig stage) => s.reload names id config quicConfig stage
  | some (.accept id) => { s with holder := some (.acceptWith id s.config) }
  | some (.acceptWith id config) => { s with holder := some (.accepted id config s.quicConfig) }
  | some (.accepted id config quicConfig) =>
      { s.put id (.accept (.accepted config quicConfig)) with holder := none }
  | some (.drain id) => { s with endpoint := none, closed := true, holder := some (.drained id) }
  | some (.drained id) => { s.put id (.drain .closed) with holder := none }

end Server

/-- What can happen to a server. -/
inductive Event (Config QuicConfig : Type)
  /-- A reload is called. -/
  | reload
  /-- A connection is taken off the endpoint. -/
  | accept
  | fire
  /-- The accept loop has returned, which it does once the latch has fired. -/
  | drain
  | parsed (id : ℕ) (result : Except String Config)
  | certified (id : ℕ) (result : Except String QuicConfig)
  | hold (id : ℕ)
  | proceed

namespace Server

variable (names : Config → Names)

/-- One step. -/
def step (s : Server Config Names QuicConfig) :
    Event Config QuicConfig → Server Config Names QuicConfig
  | .reload => { s with parties := s.parties ++ [.reload .parsing] }
  | .accept => { s with parties := s.parties ++ [.accept .waiting] }
  | .fire => { s with latch := true }
  | .drain => if s.latch then { s with parties := s.parties ++ [.drain .waiting] } else s
  | .parsed id result => s.parsed id result
  | .certified id result => s.certified id result
  | .hold id => s.hold id
  | .proceed => s.proceed names

/-- A run. -/
def run (s : Server Config Names QuicConfig) (events : List (Event Config QuicConfig)) :
    Server Config Names QuicConfig :=
  events.foldl (step names) s

/-! ### Generations -/

end Server

/-- What one reload writes, or what the server was bound with. -/
structure Generation (Config QuicConfig : Type) where
  source : Option ℕ
  config : Config
  quicConfig : QuicConfig

namespace Server

variable {names : Config → Names} {bound g : Generation Config QuicConfig}
  {s : Server Config Names QuicConfig} {id : ℕ}

/-- A generation is the one the server was bound with, or that of a reload that has returned. -/
def Loaded (bound : Generation Config QuicConfig) (s : Server Config Names QuicConfig)
    (g : Generation Config QuicConfig) : Prop :=
  match g.source with
  | none => g = bound
  | some id => s.parties[id]? = some (.reload (.applied g.config g.quicConfig))

/-- The reload that is being applied, and how many of its writes are made. -/
def applying : Option (Holder Config QuicConfig) → Option (Generation Config QuicConfig × ℕ)
  | some (.reload id config quicConfig stage) =>
      some (⟨some id, config, quicConfig⟩,
        match stage with
        | .latch | .gate | .refused => 0
        | .config => 1
        | .slot => 2
        | .endpoint => 3
        | .applied => 4)
  | _ => none

/-- The values are those of a generation, but for what the holder of the swap has written. -/
structure Values (names : Config → Names) (s : Server Config Names QuicConfig)
    (g : Generation Config QuicConfig) (next : Generation Config QuicConfig × ℕ) : Prop where
  expected : s.expected =
    if 1 ≤ next.2 then ⟨next.1.source, names next.1.config⟩ else ⟨g.source, names g.config⟩
  config : s.config =
    if 2 ≤ next.2 then ⟨next.1.source, next.1.config⟩ else ⟨g.source, g.config⟩
  quicConfig : s.quicConfig =
    if 3 ≤ next.2 then ⟨next.1.source, next.1.quicConfig⟩ else ⟨g.source, g.quicConfig⟩
  endpoint : s.endpoint = if s.closed then none else some
    (if 4 ≤ next.2 then ⟨next.1.source, next.1.quicConfig⟩ else ⟨g.source, g.quicConfig⟩)

/-- The four values come from one generation; the endpoint has none once the listener is
closed. -/
structure OneGeneration (names : Config → Names) (s : Server Config Names QuicConfig)
    (g : Generation Config QuicConfig) : Prop where
  expected : s.expected = ⟨g.source, names g.config⟩
  config : s.config = ⟨g.source, g.config⟩
  quicConfig : s.quicConfig = ⟨g.source, g.quicConfig⟩
  endpoint : s.endpoint = if s.closed then none else some ⟨g.source, g.quicConfig⟩

/-- Where the party that holds the swap is, and what it has read. -/
def Holds (s : Server Config Names QuicConfig) : Option (Holder Config QuicConfig) → Prop
  | none => True
  | some (.reload id config quicConfig stage) =>
      s.parties[id]? = some (.reload (.inside config quicConfig)) ∧
        (stage ≠ .latch → stage ≠ .refused → s.closed = false)
  | some (.accept id) => s.parties[id]? = some (.accept .inside)
  | some (.acceptWith id config) => s.parties[id]? = some (.accept .inside) ∧ config = s.config
  | some (.accepted id config quicConfig) =>
      s.parties[id]? = some (.accept .inside) ∧ config = s.config ∧ quicConfig = s.quicConfig
  | some (.drain id) | some (.drained id) => s.parties[id]? = some (.drain .inside)

/-- **What holds of a server in every state.** -/
structure Inv (names : Config → Names) (bound : Generation Config QuicConfig)
    (s : Server Config Names QuicConfig) : Prop where
  holds : Holds s s.holder
  /-- The listener is closed by a drain, and a drain starts once the latch has fired. -/
  latched : s.closed = true ∨ (∃ (id : ℕ) (call : Draining),
    s.parties[id]? = some (.drain call)) → s.latch = true
  values : ∃ g, Loaded bound s g ∧ Values names s g ((applying s.holder).getD (g, 0))
  accepted : ∀ (id : ℕ) (config : Stamped Config) (quicConfig : Stamped QuicConfig),
    s.parties[id]? = some (.accept (.accepted config quicConfig)) →
      ∃ g, Loaded bound s g ∧ config = ⟨g.source, g.config⟩ ∧ quicConfig = ⟨g.source, g.quicConfig⟩

/-- The invariant holds of a server just bound. -/
theorem inv_bind (names : Config → Names) (config : Config) (quicConfig : QuicConfig) :
    Inv names ⟨none, config, quicConfig⟩ (bind names config quicConfig) where
  holds := trivial
  latched h := by simp [bind] at h
  values := ⟨⟨none, config, quicConfig⟩, rfl, ⟨rfl, rfl, rfl, rfl⟩⟩
  accepted id _ _ h := by simp [bind] at h

/-! ### Steps outside of the swap -/

/-- Whether a party holds the swap or has returned. -/
def Settled : Party Config QuicConfig → Prop
  | .reload (.inside _ _) | .reload (.applied _ _) | .reload (.failed _) => True
  | .accept .inside | .accept (.accepted _ _) => True
  | .drain .inside | .drain .closed => True
  | _ => False

/-- A configuration stays loaded as long as the reload that applied it is on record. -/
theorem Loaded.mono {s s' : Server Config Names QuicConfig}
    (h : Loaded bound s g)
    (hkeep : ∀ (id : ℕ) (config : Config) (quicConfig : QuicConfig),
      s.parties[id]? = some (.reload (.applied config quicConfig)) →
      s'.parties[id]? = some (.reload (.applied config quicConfig))) :
    Loaded bound s' g := by
  rw [Loaded] at h ⊢
  split at h
  · exact h
  · exact hkeep _ _ _ h

/-- Where the parties that hold the swap or have returned stay as they are, the holder stands
where it stood. -/
theorem Holds.mono {parties : List (Party Config QuicConfig)}
    {holder : Option (Holder Config QuicConfig)} (h : Holds s holder)
    (hkeep : ∀ (id : ℕ) (party : Party Config QuicConfig), Settled party →
      s.parties[id]? = some party → parties[id]? = some party) :
    Holds { s with parties } holder := by
  rw [Holds.eq_def] at h ⊢
  split
  · trivial
  · exact ⟨hkeep _ _ trivial h.1, h.2⟩
  · exact hkeep _ _ trivial h
  · exact ⟨hkeep _ _ trivial h.1, h.2⟩
  · exact ⟨hkeep _ _ trivial h.1, h.2⟩
  · exact hkeep _ _ trivial h
  · exact hkeep _ _ trivial h

/-- **A party outside of the swap changes nothing but itself.** -/
theorem Inv.parties (h : Inv names bound s) {parties : List (Party Config QuicConfig)}
    (hkeep : ∀ (id : ℕ) (party : Party Config QuicConfig), Settled party →
      s.parties[id]? = some party → parties[id]? = some party)
    (hnew : ∀ (id : ℕ) (party : Party Config QuicConfig), parties[id]? = some party →
      s.parties[id]? = some party ∨ (∃ call, party = .reload call) ∨ party = .accept .waiting ∨
        party = .drain .waiting ∧ s.latch = true) :
    Inv names bound { s with parties } where
  holds := h.holds.mono hkeep
  latched := by
    rintro (hclosed | ⟨id, call, hdrain⟩)
    · exact h.latched (.inl hclosed)
    · rcases hnew id _ hdrain with hold | ⟨call', heq⟩ | heq | ⟨-, hlatch⟩
      · exact h.latched (.inr ⟨id, call, hold⟩)
      · cases heq
      · cases heq
      · exact hlatch
  values := by
    obtain ⟨g, hg, hvalues⟩ := h.values
    exact ⟨g, hg.mono fun id c q hid => hkeep id _ trivial hid, ⟨hvalues.1, hvalues.2, hvalues.3,
      hvalues.4⟩⟩
  accepted := by
    intro id config quicConfig hid
    rcases hnew id _ hid with hold | ⟨call, heq⟩ | heq | ⟨heq, -⟩
    · obtain ⟨g, hg, heq⟩ := h.accepted id config quicConfig hold
      exact ⟨g, hg.mono fun id c q hid => hkeep id _ trivial hid, heq⟩
    · cases heq
    · cases heq
    · cases heq

/-- A call that has only begun breaks nothing. -/
theorem Inv.join (h : Inv names bound s) {party : Party Config QuicConfig}
    (hparty : (∃ call, party = .reload call) ∨ party = .accept .waiting ∨
      party = .drain .waiting ∧ s.latch = true) :
    Inv names bound { s with parties := s.parties ++ [party] } := by
  refine h.parties (fun id p _ hid => Slots.getElem?_concat.mpr (.inl hid)) fun id p hid => ?_
  rcases Slots.getElem?_concat.mp hid with hold | ⟨-, rfl⟩
  · exact .inl hold
  · exact .inr hparty

variable {party party' : Party Config QuicConfig}

/-- A party that takes its next state leaves the others as they are. -/
theorem getElem?_put {j : ℕ} {other : Party Config QuicConfig}
    (hparty : s.parties[id]? = some party) (hne : other ≠ party) (hj : s.parties[j]? = some other) :
    (s.put id party').parties[j]? = some other := by
  refine (Slots.getElem?_set hparty).mpr (.inr ⟨?_, hj⟩)
  rintro rfl
  rw [hparty, Option.some.injEq] at hj
  exact hne hj.symm

/-- A call that is over is not touched by what another one does. -/
theorem getElem?_put_settled (hparty : s.parties[id]? = some party) (hopen : ¬Settled party)
    (j : ℕ) (other : Party Config QuicConfig) (hsettled : Settled other)
    (hj : s.parties[j]? = some other) : (s.put id party').parties[j]? = some other :=
  getElem?_put hparty (fun heq => hopen (heq ▸ hsettled)) hj

/-- A reload that has not come to the swap yet goes on, or fails. -/
theorem Inv.load (h : Inv names bound s) {call call' : Reloading Config QuicConfig}
    (hcall : s.parties[id]? = some (.reload call)) (hopen : ¬Settled (.reload call)) :
    Inv names bound (s.put id (.reload call')) := by
  refine h.parties (getElem?_put_settled hcall hopen) fun other party hother => ?_
  rcases (Slots.getElem?_set hcall).mp hother with ⟨-, rfl⟩ | ⟨-, hold⟩
  · exact .inr (.inl ⟨call', rfl⟩)
  · exact .inl hold

/-- Reading the configuration keeps the invariant. -/
theorem Inv.parsed (h : Inv names bound s) (id : ℕ) (result : Except String Config) :
    Inv names bound (s.parsed id result) := by
  rw [Server.parsed.eq_def]
  split
  · rename_i hparty
    exact h.load hparty fun hsettled => hsettled
  · rename_i hparty
    exact h.load hparty fun hsettled => hsettled
  · exact h

/-- Loading the certificate keeps the invariant. -/
theorem Inv.certified (h : Inv names bound s) (id : ℕ) (result : Except String QuicConfig) :
    Inv names bound (s.certified id result) := by
  rw [Server.certified.eq_def]
  split
  · rename_i hparty
    exact h.load hparty fun hsettled => hsettled
  · rename_i hparty
    exact h.load hparty fun hsettled => hsettled
  · exact h

/-! ### Steps of the holder -/

/-- A holder that has written nothing leaves the values of one generation. -/
theorem values_iff {next : Generation Config QuicConfig × ℕ} (hnext : next.2 = 0) :
    Values names s g next ↔ OneGeneration names s g := by
  constructor
  · intro h
    have h₁ := h.expected
    have h₂ := h.config
    have h₃ := h.quicConfig
    have h₄ := h.endpoint
    rw [hnext] at h₁ h₂ h₃ h₄
    exact ⟨h₁, h₂, h₃, h₄⟩
  · intro h
    constructor <;> rw [hnext]
    · exact h.expected
    · exact h.config
    · exact h.quicConfig
    · exact h.endpoint

/-- The values under a holder that has written nothing. -/
theorem Inv.oneGeneration (h : Inv names bound s)
    (hnone : ∀ next, applying s.holder = some next → next.2 = 0) :
    ∃ g, Loaded bound s g ∧ OneGeneration names s g := by
  obtain ⟨g, hg, hvalues⟩ := h.values
  refine ⟨g, hg, (values_iff ?_).mp hvalues⟩
  cases hnext : applying s.holder with
  | none => rfl
  | some next => exact hnone next hnext

variable {holder : Option (Holder Config QuicConfig)}

/-- A party that has not returned takes its next state. -/
theorem Loaded.put (h : Loaded bound s g) (hparty : s.parties[id]? = some party)
    (hopen : ∀ config quicConfig, party ≠ .reload (.applied config quicConfig)) :
    Loaded bound (s.put id party') g :=
  h.mono fun _ config quicConfig hother =>
    getElem?_put hparty (fun heq => hopen config quicConfig heq.symm) hother

/-- **A party takes the swap, or gives it back, between generations.** -/
theorem Inv.move (h : Inv names bound s) (hparty : s.parties[id]? = some party)
    (hopen : ∀ config quicConfig, party ≠ .reload (.applied config quicConfig))
    (hdrain : ∀ call, party' = .drain call → ∃ call', party = .drain call')
    (hholds : Holds { s.put id party' with holder } holder)
    (hnext : ∀ next, applying holder = some next → next.2 = 0)
    (hvalues : ∃ g, Loaded bound (s.put id party') g ∧ OneGeneration names s g)
    (haccepted : ∀ config quicConfig, party' = .accept (.accepted config quicConfig) →
      config = s.config ∧ quicConfig = s.quicConfig) :
    Inv names bound { s.put id party' with holder } where
  holds := hholds
  latched := by
    rintro (hclosed | ⟨other, call, hother⟩)
    · exact h.latched (.inl hclosed)
    · rcases (Slots.getElem?_set hparty).mp hother with ⟨-, heq⟩ | ⟨-, hold⟩
      · obtain ⟨call', rfl⟩ := hdrain call heq.symm
        exact h.latched (.inr ⟨id, call', hparty⟩)
      · exact h.latched (.inr ⟨other, call, hold⟩)
  values := by
    obtain ⟨g, hg, hone⟩ := hvalues
    refine ⟨g, hg, (values_iff ?_).mpr ⟨hone.1, hone.2, hone.3, hone.4⟩⟩
    cases heq : applying holder with
    | none => simp only [Option.getD_none]
    | some next => simpa only [heq, Option.getD_some] using hnext next heq
  accepted := by
    intro other config quicConfig hother
    rcases (Slots.getElem?_set hparty).mp hother with ⟨-, heq⟩ | ⟨-, hold⟩
    · obtain ⟨rfl, rfl⟩ := haccepted config quicConfig heq.symm
      obtain ⟨g, hg, hone⟩ := hvalues
      exact ⟨g, hg, hone.config, hone.quicConfig⟩
    · obtain ⟨g, hg, heq⟩ := h.accepted other config quicConfig hold
      exact ⟨g, Loaded.put hg hparty hopen, heq⟩

/-- Taking hold of the swap keeps the invariant. -/
theorem Inv.hold (h : Inv names bound s) (id : ℕ) : Inv names bound (s.hold id) := by
  rw [Server.hold]
  split
  · rename_i config quicConfig hnone hparty
    obtain ⟨g, hg, hone⟩ := h.oneGeneration (by rw [hnone]; nofun)
    refine h.move hparty nofun nofun ⟨?_, nofun⟩ ?_ ⟨g, hg.put hparty nofun, hone⟩ nofun
    · exact (Slots.getElem?_set hparty).mpr (.inl ⟨rfl, rfl⟩)
    · rintro next hnext
      cases hnext
      rfl
  · rename_i hnone hparty
    obtain ⟨g, hg, hone⟩ := h.oneGeneration (by rw [hnone]; nofun)
    exact h.move hparty nofun nofun ((Slots.getElem?_set hparty).mpr (.inl ⟨rfl, rfl⟩)) nofun
      ⟨g, hg.put hparty nofun, hone⟩ nofun
  · rename_i hnone hparty
    obtain ⟨g, hg, hone⟩ := h.oneGeneration (by rw [hnone]; nofun)
    exact h.move hparty nofun (fun _ _ => ⟨_, rfl⟩)
      ((Slots.getElem?_set hparty).mpr (.inl ⟨rfl, rfl⟩)) nofun ⟨g, hg.put hparty nofun, hone⟩ nofun
  · exact h

/-- A reload makes its next write, or reads the latch. -/
theorem Inv.write (h : Inv names bound s) {s' : Server Config Names QuicConfig}
    (hparties : s'.parties = s.parties) (hlatch : s'.latch = s.latch)
    (hclosed : s'.closed = s.closed) (hholds : Holds s' s'.holder)
    (hvalues : ∀ g, Values names s g ((applying s.holder).getD (g, 0)) →
      Values names s' g ((applying s'.holder).getD (g, 0))) :
    Inv names bound s' where
  holds := hholds
  latched := by
    rw [hparties, hlatch, hclosed]
    exact h.latched
  values := by
    obtain ⟨g, hg, hold⟩ := h.values
    exact ⟨g, hg.mono fun id c q hid => by rw [hparties]; exact hid, hvalues g hold⟩
  accepted := by
    intro id config quicConfig hid
    rw [hparties] at hid
    obtain ⟨g, hg, heq⟩ := h.accepted id config quicConfig hid
    exact ⟨g, hg.mono fun id c q hid => by rw [hparties]; exact hid, heq⟩

/-- Each of the four writes of a reload keeps the invariant. -/
theorem Inv.reload (h : Inv names bound s) {config : Config} {quicConfig : QuicConfig}
    {stage : Stage} (hholder : s.holder = some (.reload id config quicConfig stage)) :
    Inv names bound (s.reload names id config quicConfig stage) := by
  have hholds := h.holds
  rw [hholder] at hholds
  obtain ⟨hparty, hopen⟩ := hholds
  cases stage with
  | latch =>
      cases hlatch : s.latch with
      | true =>
          refine h.write rfl rfl rfl ?_ fun g hold => ?_
          · simp only [Server.reload, hlatch, if_true]
            exact ⟨hparty, fun _ hrefused => absurd rfl hrefused⟩
          · rw [hholder] at hold
            simp only [Server.reload, hlatch, if_true]
            exact ⟨hold.expected, hold.config, hold.quicConfig, hold.endpoint⟩
      | false =>
          -- a listener that were closed would have the latch fired
          have hclosed : s.closed = false := by
            by_contra hclosed
            rw [h.latched (.inl (by simpa using hclosed))] at hlatch
            cases hlatch
          refine h.write rfl rfl rfl ?_ fun g hold => ?_
          · simp only [Server.reload, hlatch, Bool.false_eq_true, if_false]
            exact ⟨hparty, fun _ _ => hclosed⟩
          · rw [hholder] at hold
            simp only [Server.reload, hlatch, Bool.false_eq_true, if_false]
            exact ⟨hold.expected, hold.config, hold.quicConfig, hold.endpoint⟩
  | gate =>
      refine h.write rfl rfl rfl ⟨hparty, fun _ _ => hopen nofun nofun⟩ fun g hold => ?_
      rw [hholder] at hold
      exact ⟨rfl, hold.config, hold.quicConfig, hold.endpoint⟩
  | config =>
      refine h.write rfl rfl rfl ⟨hparty, fun _ _ => hopen nofun nofun⟩ fun g hold => ?_
      rw [hholder] at hold
      exact ⟨hold.expected, rfl, hold.quicConfig, hold.endpoint⟩
  | slot =>
      refine h.write rfl rfl rfl ⟨hparty, fun _ _ => hopen nofun nofun⟩ fun g hold => ?_
      rw [hholder] at hold
      exact ⟨hold.expected, hold.config, rfl, hold.endpoint⟩
  | endpoint =>
      have hclosed := hopen nofun nofun
      refine h.write rfl rfl rfl ⟨hparty, fun _ _ => hclosed⟩ fun g hold => ?_
      rw [hholder] at hold
      refine ⟨hold.expected, hold.config, hold.quicConfig, ?_⟩
      simp [Server.reload, hclosed, applying]
  | applied =>
      obtain ⟨g, hg, hold⟩ := h.values
      rw [hholder] at hold
      refine h.move hparty nofun nofun trivial nofun ⟨⟨some id, config, quicConfig⟩, ?_, ?_⟩ nofun
      · exact (Slots.getElem?_set hparty).mpr (.inl ⟨rfl, rfl⟩)
      · exact ⟨hold.expected, hold.config, hold.quicConfig, hold.endpoint⟩
  | refused =>
      obtain ⟨g, hg, hone⟩ := h.oneGeneration fun next hnext => by
        rw [hholder] at hnext
        cases hnext
        rfl
      exact h.move hparty nofun nofun trivial nofun ⟨g, hg.put hparty nofun, hone⟩ nofun

/-- A step of whoever holds the swap keeps the invariant. -/
theorem Inv.proceed (h : Inv names bound s) : Inv names bound (s.proceed names) := by
  have hholds := h.holds
  rw [Server.proceed]
  cases hholder : s.holder with
  | none => exact h
  | some holder =>
      rw [hholder] at hholds
      have hone : (∀ next, applying (some holder) = some next → next.2 = 0) →
          ∃ g, Loaded bound s g ∧ OneGeneration names s g :=
        fun hnext => h.oneGeneration (hholder ▸ hnext)
      cases holder with
      | reload id config quicConfig stage => exact h.reload hholder
      | accept id =>
          refine h.write rfl rfl rfl ⟨hholds, rfl⟩ fun g hold => ?_
          rw [hholder] at hold
          exact ⟨hold.expected, hold.config, hold.quicConfig, hold.endpoint⟩
      | acceptWith id config =>
          refine h.write rfl rfl rfl ⟨hholds.1, hholds.2, rfl⟩ fun g hold => ?_
          rw [hholder] at hold
          exact ⟨hold.expected, hold.config, hold.quicConfig, hold.endpoint⟩
      | accepted id config quicConfig =>
          obtain ⟨hparty, hconfig, hquicConfig⟩ := hholds
          obtain ⟨g, hg, hone⟩ := hone nofun
          refine h.move hparty nofun nofun trivial nofun ⟨g, hg.put hparty nofun, hone⟩ ?_
          rintro config' quicConfig' heq
          cases heq
          exact ⟨hconfig, hquicConfig⟩
      | drain id =>
          obtain ⟨g, hg, hone⟩ := hone nofun
          refine ⟨hholds, fun _ => h.latched (.inr ⟨id, _, hholds⟩), ⟨g, hg, ?_⟩, h.accepted⟩
          exact (values_iff rfl).mpr ⟨hone.expected, hone.config, hone.quicConfig, rfl⟩
      | drained id =>
          obtain ⟨g, hg, hone⟩ := hone nofun
          exact h.move hholds nofun (fun _ _ => ⟨_, rfl⟩) trivial nofun
            ⟨g, hg.put hholds nofun, hone⟩ nofun

/-- **Every step keeps it.** -/
theorem Inv.step (h : Inv names bound s) (event : Event Config QuicConfig) :
    Inv names bound (s.step names event) := by
  cases event with
  | reload => exact h.join (.inl ⟨_, rfl⟩)
  | accept => exact h.join (.inr (.inl rfl))
  | fire =>
      obtain ⟨g, hg, hvalues⟩ := h.values
      exact ⟨h.holds, fun _ => rfl, ⟨g, hg, ⟨hvalues.1, hvalues.2, hvalues.3, hvalues.4⟩⟩,
        h.accepted⟩
  | drain =>
      rw [Server.step]
      split_ifs with hlatch
      · exact h.join (.inr (.inr ⟨rfl, hlatch⟩))
      · exact h
  | parsed id result => exact h.parsed id result
  | certified id result => exact h.certified id result
  | hold id => exact h.hold id
  | proceed => exact h.proceed

/-- **Run lemma**: the invariant holds along every interleaving. -/
theorem Inv.run (h : Inv names bound s) (events : List (Event Config QuicConfig)) :
    Inv names bound (s.run names events) :=
  History.run_invariant (fun _ event hinv => hinv.step event) h events

/-! ### What stays -/

/-- A reload is past the latch: it will be applied, or has been. -/
def Committed (s : Server Config Names QuicConfig) (id : ℕ) : Prop :=
  (∃ config quicConfig stage, s.holder = some (.reload id config quicConfig stage) ∧
    stage ≠ .latch ∧ stage ≠ .refused) ∨
  ∃ config quicConfig, s.parties[id]? = some (.reload (.applied config quicConfig))

/-- The values a reload writes. -/
def fourValues (s : Server Config Names QuicConfig) :
    Stamped Names × Stamped Config × Stamped QuicConfig × Option (Stamped QuicConfig) :=
  (s.expected, s.config, s.quicConfig, s.endpoint)

/-- Whether a step is one of a given reload. -/
def StepOf (s : Server Config Names QuicConfig) (id : ℕ) : Event Config QuicConfig → Prop
  | .parsed other _ | .certified other _ | .hold other => other = id
  | .proceed => ∃ config quicConfig stage, s.holder = some (.reload id config quicConfig stage)
  | .reload | .accept | .fire | .drain => False

/-- A step beside the holder of the swap: it changes no value, takes the swap only from nobody,
and leaves those that hold it or have returned where they are. -/
structure Beside (s s' : Server Config Names QuicConfig) : Prop where
  values : s'.fourValues = s.fourValues
  closed : s'.closed = s.closed
  holder : s.holder = none ∨ s'.holder = s.holder
  parties : ∀ (id : ℕ) (party : Party Config QuicConfig), Settled party →
    s.parties[id]? = some party → s'.parties[id]? = some party

/-- A server stands beside itself. -/
theorem Beside.refl (s : Server Config Names QuicConfig) : Beside s s :=
  ⟨rfl, rfl, .inr rfl, fun _ _ _ h => h⟩

/-- A call that begins leaves the others alone. -/
theorem Beside.join (s : Server Config Names QuicConfig) (party : Party Config QuicConfig) :
    Beside s { s with parties := s.parties ++ [party] } :=
  ⟨rfl, rfl, .inr rfl, fun _ _ _ h => Slots.getElem?_concat.mpr (.inl h)⟩

/-- A call that moves leaves those that are over alone. -/
theorem Beside.put (hparty : s.parties[id]? = some party) (hopen : ¬Settled party) :
    Beside s (s.put id party') :=
  ⟨rfl, rfl, .inr rfl, getElem?_put_settled hparty hopen⟩

/-- A call that takes hold of the swap leaves those that are over alone. -/
theorem Beside.enter (hnone : s.holder = none) (hparty : s.parties[id]? = some party)
    (hopen : ¬Settled party) : Beside s { s.put id party' with holder } :=
  ⟨rfl, rfl, .inl hnone, getElem?_put_settled hparty hopen⟩

/-- **Only the holder of the swap changes anything of the others.** -/
theorem beside_step {event : Event Config QuicConfig} (hevent : event ≠ .proceed) :
    Beside s (s.step names event) := by
  cases event with
  | reload | accept => exact .join s _
  | fire => exact ⟨rfl, rfl, .inr rfl, fun _ _ _ h => h⟩
  | drain =>
      rw [step]
      split_ifs
      · exact .join s _
      · exact .refl s
  | parsed id result =>
      rw [step, Server.parsed.eq_def]
      split
      · rename_i hparty
        exact .put hparty fun hsettled => hsettled
      · rename_i hparty
        exact .put hparty fun hsettled => hsettled
      · exact .refl s
  | certified id result =>
      rw [step, Server.certified.eq_def]
      split
      · rename_i hparty
        exact .put hparty fun hsettled => hsettled
      · rename_i hparty
        exact .put hparty fun hsettled => hsettled
      · exact .refl s
  | hold id =>
      rw [step, Server.hold.eq_def]
      split
      · rename_i hnone hparty
        exact .enter hnone hparty fun hsettled => hsettled
      · rename_i hnone hparty
        exact .enter hnone hparty fun hsettled => hsettled
      · rename_i hnone hparty
        exact .enter hnone hparty fun hsettled => hsettled
      · exact .refl s
  | proceed => exact absurd rfl hevent

/-- Only a reload that is past the latch writes. -/
theorem fourValues_step {event : Event Config QuicConfig} (hstep : s.StepOf id event)
    (hopen : ¬s.Committed id) : (s.step names event).fourValues = s.fourValues := by
  by_cases hevent : event = .proceed
  · subst hevent
    obtain ⟨config, quicConfig, stage, hholder⟩ := hstep
    rw [step, Server.proceed, hholder]
    cases stage with
    | latch | applied | refused => rfl
    | gate | config | slot | endpoint =>
        exact absurd (.inl ⟨config, quicConfig, _, hholder, nofun, nofun⟩) hopen
  · exact (beside_step hevent).values

/-- **A reload that has been applied stays so.** -/
theorem Inv.applied_step (h : Inv names bound s) (event : Event Config QuicConfig)
    {config : Config} {quicConfig : QuicConfig}
    (hparty : s.parties[id]? = some (.reload (.applied config quicConfig))) :
    (s.step names event).parties[id]? = some (.reload (.applied config quicConfig)) := by
  by_cases hevent : event = .proceed
  · subst hevent
    have hholds := h.holds
    rw [Server.step, Server.proceed]
    cases hholder : s.holder with
    | none => exact hparty
    | some holder =>
        rw [hholder] at hholds
        cases holder with
        | reload other config' quicConfig' stage =>
            cases stage with
            | applied | refused => exact getElem?_put hholds.1 nofun hparty
            | latch | gate | config | slot | endpoint => exact hparty
        | accepted => exact getElem?_put hholds.1 nofun hparty
        | drained => exact getElem?_put hholds nofun hparty
        | accept | acceptWith | drain => exact hparty
  · exact (beside_step hevent).parties id _ trivial hparty

/-- **A reload that is past the latch will be applied, or has been.** -/
theorem Inv.committed_step (h : Inv names bound s) (event : Event Config QuicConfig)
    (hcommitted : s.Committed id) : (s.step names event).Committed id := by
  obtain ⟨config, quicConfig, stage, hholder, hlatch, hrefused⟩ | ⟨config, quicConfig, hparty⟩ :=
    hcommitted
  · by_cases hevent : event = .proceed
    · subst hevent
      have hholds := h.holds
      rw [hholder] at hholds
      rw [Server.step, Server.proceed, hholder]
      cases stage with
      | latch => exact absurd rfl hlatch
      | refused => exact absurd rfl hrefused
      | gate | config | slot | endpoint => exact .inl ⟨config, quicConfig, _, rfl, nofun, nofun⟩
      | applied =>
          exact .inr ⟨config, quicConfig, (Slots.getElem?_set hholds.1).mpr (.inl ⟨rfl, rfl⟩)⟩
    · have hbeside : s.Beside (s.step names event) := beside_step hevent
      obtain hnone | hsame := hbeside.holder
      · rw [hnone] at hholder
        cases hholder
      · exact .inl ⟨config, quicConfig, stage, hsame.trans hholder, hlatch, hrefused⟩
  · exact .inr ⟨config, quicConfig, h.applied_step event hparty⟩

/-- A reload that has gone through has done so for good. -/
theorem Inv.committed_run (h : Inv names bound s) (events : List (Event Config QuicConfig))
    (hcommitted : s.Committed id) : (s.run names events).Committed id := by
  induction events generalizing s with
  | nil => exact hcommitted
  | cons event events ih => exact ih (h.step event) (h.committed_step event hcommitted)

/-- A reload past the latch has not failed. -/
theorem Inv.not_failed (h : Inv names bound s) (hcommitted : s.Committed id)
    (error : ReloadError) : s.parties[id]? ≠ some (.reload (.failed error)) := by
  obtain ⟨config, quicConfig, stage, hholder, -, -⟩ | ⟨config, quicConfig, hparty⟩ := hcommitted
  · have hholds := h.holds
    rw [hholder] at hholds
    rw [hholds.1]
    nofun
  · rw [hparty]
    nofun

/-- A party that is put in another state is the one it was, or has the new state. -/
theorem eq_or_of_put {j : ℕ} {other party' : Party Config QuicConfig}
    (h : (s.put id party').parties[j]? = some other) :
    s.parties[j]? = some other ∨ j = id ∧ other = party' := by
  rw [put, List.getElem?_set] at h
  split_ifs at h with hid hlt
  · exact .inr ⟨hid.symm, (Option.some.inj h).symm⟩
  · exact .inl h

/-- **A reload is applied only by its last step under the swap.** -/
theorem applied_of_step {event : Event Config QuicConfig} {config : Config}
    {quicConfig : QuicConfig}
    (h : (s.step names event).parties[id]? = some (.reload (.applied config quicConfig))) :
    s.parties[id]? = some (.reload (.applied config quicConfig)) ∨
      event = .proceed ∧ s.holder = some (.reload id config quicConfig .applied) := by
  have hput {other : ℕ} {party' : Party Config QuicConfig}
      (hput : (s.put other party').parties[id]? = some (.reload (.applied config quicConfig)))
      (hne : party' ≠ .reload (.applied config quicConfig)) :
      s.parties[id]? = some (.reload (.applied config quicConfig)) := by
    rcases eq_or_of_put hput with hold | ⟨-, heq⟩
    · exact hold
    · exact absurd heq.symm hne
  have hjoin {party : Party Config QuicConfig}
      (hjoin : (s.parties ++ [party])[id]? = some (.reload (.applied config quicConfig)))
      (hne : party ≠ .reload (.applied config quicConfig)) :
      s.parties[id]? = some (.reload (.applied config quicConfig)) := by
    rcases Slots.getElem?_concat.mp hjoin with hold | ⟨-, heq⟩
    · exact hold
    · exact absurd heq.symm hne
  cases event with
  | reload | accept => exact .inl (hjoin h nofun)
  | fire => exact .inl h
  | drain =>
      rw [step] at h
      split_ifs at h
      · exact .inl (hjoin h nofun)
      · exact .inl h
  | parsed other result =>
      rw [step, Server.parsed.eq_def] at h
      split at h
      · exact .inl (hput h nofun)
      · exact .inl (hput h nofun)
      · exact .inl h
  | certified other result =>
      rw [step, Server.certified.eq_def] at h
      split at h
      · exact .inl (hput h nofun)
      · exact .inl (hput h nofun)
      · exact .inl h
  | hold other =>
      rw [step, Server.hold.eq_def] at h
      split at h
      · exact .inl (hput h nofun)
      · exact .inl (hput h nofun)
      · exact .inl (hput h nofun)
      · exact .inl h
  | proceed =>
      rw [step, Server.proceed] at h
      cases hholder : s.holder with
      | none =>
          rw [hholder] at h
          exact .inl h
      | some holder =>
          rw [hholder] at h
          cases holder with
          | reload other config' quicConfig' stage =>
              cases stage with
              | applied =>
                  rcases eq_or_of_put h with hold | ⟨rfl, heq⟩
                  · exact .inl hold
                  · obtain ⟨rfl, rfl⟩ := Reloading.applied.inj (Party.reload.inj heq)
                    exact .inr ⟨rfl, rfl⟩
              | refused => exact .inl (hput h nofun)
              | latch | gate | config | slot | endpoint => exact .inl h
          | accepted | drained => exact .inl (hput h nofun)
          | accept | acceptWith | drain => exact .inl h

/-- **A reload about to let go of the swap has written its own four values.** -/
theorem Inv.written (h : Inv names bound s) {config : Config} {quicConfig : QuicConfig}
    (hholder : s.holder = some (.reload id config quicConfig .applied)) :
    s.fourValues = (⟨some id, names config⟩, ⟨some id, config⟩, ⟨some id, quicConfig⟩,
      some ⟨some id, quicConfig⟩) := by
  have hholds := h.holds
  obtain ⟨g, -, hvalues⟩ := h.values
  rw [hholder] at hholds hvalues
  have hclosed : s.closed = false := hholds.2 nofun nofun
  have hendpoint := hvalues.endpoint
  rw [hclosed] at hendpoint
  rw [fourValues, hvalues.expected, hvalues.config, hvalues.quicConfig, hendpoint]
  rfl

/-- A listener that is closed stays so. -/
theorem closed_step (event : Event Config QuicConfig) (hclosed : s.closed = true) :
    (s.step names event).closed = true := by
  by_cases hevent : event = .proceed
  · subst hevent
    rw [step, Server.proceed]
    split
    · exact hclosed
    · rename_i stage _
      cases stage <;> exact hclosed
    · exact hclosed
    · exact hclosed
    · exact hclosed
    · rfl
    · exact hclosed
  · exact (beside_step hevent).closed.trans hclosed

/-- A closed endpoint stays closed. -/
theorem closed_run (events : List (Event Config QuicConfig)) (hclosed : s.closed = true) :
    (s.run names events).closed = true :=
  History.run_invariant (P := fun s : Server Config Names QuicConfig => s.closed = true)
    (fun _ event => closed_step event) hclosed events

/-- A closed server has no endpoint. -/
theorem Inv.endpoint_of_closed (h : Inv names bound s) (hclosed : s.closed = true) :
    s.endpoint = none := by
  obtain ⟨g, -, hvalues⟩ := h.values
  rw [hvalues.endpoint, if_pos hclosed]

/-- A run is cut at any of its events. -/
theorem run_append (s : Server Config Names QuicConfig) (front : List (Event Config QuicConfig))
    (event : Event Config QuicConfig) (rest : List (Event Config QuicConfig)) :
    s.run names (front ++ event :: rest) =
      ((s.run names front).step names event).run names rest := by
  rw [run, List.foldl_append, List.foldl_cons]
  rfl

end Server

open Server

/-- **A reload applies wholly or not at all, and never undoes a shutdown**, in every interleaving
of any number of reloads, accepts and drains. A connection is accepted with a `Config` and a
`quinn::ServerConfig` of one generation, that of a reload that was applied or of `bind`. No step
of a reload that returns an error changes any of the four values, and one that is applied has
written all four of them when it lets go of the swap. While nobody holds the swap they come from
one generation, and the endpoint has that generation's configuration, or none once the listener is
closed. And after the drain has closed it the endpoint never has one again. -/
theorem reload_atomic (names : Config → Names) (config : Config) (quicConfig : QuicConfig)
    (events : List (Event Config QuicConfig)) :
    let initial := bind names config quicConfig
    let bound : Generation Config QuicConfig := ⟨none, config, quicConfig⟩
    let s := initial.run names events
    (∀ (id : ℕ) (live : Stamped Config) (slot : Stamped QuicConfig),
      s.parties[id]? = some (.accept (.accepted live slot)) →
      ∃ g, Loaded bound s g ∧ live = ⟨g.source, g.config⟩ ∧ slot = ⟨g.source, g.quicConfig⟩) ∧
    (∀ (id : ℕ) (error : ReloadError), s.parties[id]? = some (.reload (.failed error)) →
      ∀ front event rest, events = front ++ event :: rest →
        (initial.run names front).StepOf id event →
        ((initial.run names front).step names event).fourValues =
          (initial.run names front).fourValues) ∧
    (∀ (id : ℕ) (config : Config) (quicConfig : QuicConfig),
      s.parties[id]? = some (.reload (.applied config quicConfig)) →
      ∃ front rest, events = front ++ .proceed :: rest ∧
        (initial.run names front).holder = some (.reload id config quicConfig .applied) ∧
        (initial.run names front).fourValues = (⟨some id, names config⟩, ⟨some id, config⟩,
          ⟨some id, quicConfig⟩, some ⟨some id, quicConfig⟩)) ∧
    (s.holder = none → ∃ g, Loaded bound s g ∧ OneGeneration names s g) ∧
    (∀ front rest id, events = front ++ .proceed :: rest →
      (initial.run names front).holder = some (.drain id) → s.endpoint = none) := by
  intro initial bound s
  have hinv : ∀ events, Inv names bound (initial.run names events) :=
    (inv_bind names config quicConfig).run
  refine ⟨(hinv events).accepted, ?_, ?_, ?_, ?_⟩
  · rintro id error hfailed front event rest rfl hstep
    refine fourValues_step hstep fun hcommitted => ?_
    have hrun := (hinv front).committed_run (event :: rest) hcommitted
    have hsame : (initial.run names front).run names (event :: rest) = s :=
      (run_append initial front event rest).symm
    rw [hsame] at hrun
    exact (hinv _).not_failed hrun error hfailed
  · intro id config' quicConfig' happlied
    obtain ⟨t, event, hmem, rfl, hholder⟩ := History.exists_mem_history
      (Q := fun t : Server Config Names QuicConfig =>
        t.parties[id]? = some (.reload (.applied config' quicConfig')))
      (by simp [initial, Server.bind]) (fun t event => applied_of_step) happlied
    obtain ⟨front, rest, rfl, rfl⟩ := History.mem_history_iff.mp hmem
    exact ⟨front, rest, rfl, hholder, (hinv front).written hholder⟩
  · intro hnone
    refine (hinv events).oneGeneration ?_
    rw [hnone]
    nofun
  · rintro front rest id rfl hdrain
    refine (hinv _).endpoint_of_closed ?_
    rw [run_append]
    refine closed_run rest ?_
    rw [step, Server.proceed, hdrain]

end Reload

end Volto
